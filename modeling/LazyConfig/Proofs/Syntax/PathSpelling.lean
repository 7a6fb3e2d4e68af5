import LazyConfig.Proofs.Syntax.PathGrammar
import LazyConfig.Proofs.Syntax.PathText
import LazyConfig.Proofs.Syntax.Printer

/-!
# Texts that spell paths

How a path is put together from legible tokens: a word, and behind it names, indices and slices. A
tree that is built in this way is written as the text of these tokens, and it is read from this text
again, because every token ends in front of the next one.
-/

namespace LazyConfig

namespace Path

open Syntax (Bounds Derives Strings headKind)
open Token (Adjoin texts endsBefore)

/-! ### Marks -/

def opening : Token := { kind := .leftBracket, text := "[" }

def closing : Token := { kind := .rightBracket, text := "]" }

def colon : Token := { kind := .colon, text := ":" }

def point : Token := { kind := .dot, text := "." }

theorem legible_opening : opening.Legible := by decide +kernel

theorem legible_closing : closing.Legible := by decide +kernel

theorem legible_colon : colon.Legible := by decide +kernel

theorem legible_point : point.Legible := by decide +kernel

variable {before behind : List Token}

theorem adjoin_opening (first : Adjoin before) (second : Adjoin behind) :
    Adjoin (before ++ opening :: behind) :=
  first.around legible_opening (show opening.text.toList = ['['] from rfl) rfl second

theorem adjoin_closing (first : Adjoin before) (second : Adjoin behind) :
    Adjoin (before ++ closing :: behind) :=
  first.around legible_closing (show closing.text.toList = [']'] from rfl) rfl second

theorem adjoin_colon (first : Adjoin before) (second : Adjoin behind) :
    Adjoin (before ++ colon :: behind) :=
  first.around legible_colon (show colon.text.toList = [':'] from rfl) rfl second

/-! ### Trees and their texts -/

/-- The text consists of legible tokens that make up the tree. -/
structure Spelt (tree : Node) (text : String) (tokens : List Token) : Prop where
  derives : Derives (.expression .primary tree) tokens
  adjoin : Adjoin tokens
  isText : text.toList = texts tokens

/-- A tree is written as the text, and made up of its tokens. -/
structure OperandText (tree : Node) (text : String) : Prop where
  written : tree.sourceText = .ok text
  spelt : ∃ tokens, Spelt tree text tokens

/-- A tree is written as the text of a path: a word stands in front, and a point can follow. -/
structure PathText (tree : Node) (text : String) : Prop where
  written : tree.sourceText = .ok text
  spine : Path.spine tree = .ok text
  spelt : ∃ tokens, Spelt tree text tokens ∧ headKind tokens = .word ∧
    ∀ t ∈ tokens.getLast?, endsBefore t.text.toList '.'

variable {tree base element : Node} {text inside : String} {t : Token}

theorem PathText.operand (path : PathText tree text) : OperandText tree text :=
  ⟨path.written, path.spelt.imp fun _ => And.left⟩

/-- A path is read from its text again. -/
theorem PathText.read (path : PathText tree text) :
    ∃ q, Path.ofString text = .ok q ∧ q.bare = tree := by
  obtain ⟨tokens, spelt, starts, -⟩ := path.spelt
  obtain ⟨sentence, made, same⟩ := Syntax.exists_sentence_of_adjoin spelt.adjoin spelt.isText
  refine (ofString_iff text).mpr ⟨sentence, made, ?_, spelt.derives.of_bare_eq same⟩
  rw [Syntax.headKind_of_bare_eq same, starts]

/-! ### Operands -/

/-- Strings that stand one behind the other have their texts together. -/
theorem strings_text {tokens : List Token} (areStrings : Strings tokens t) :
    t.kind = .string ∧ t.text.toList = texts tokens := by
  obtain ⟨all, join⟩ := areStrings
  rename_i first joined others
  change joined.kind = .string ∧ joined.text.toList = texts (first :: others)
  unfold Syntax.joinStrings? at join
  cases isLast : others.getLast? with
  | none =>
    rw [isLast] at join
    cases join
    obtain rfl := List.getLast?_eq_none_iff.mp isLast
    exact ⟨all _ (by simp), by simp [texts]⟩
  | some last =>
    simp only [isLast, Option.bind_eq_bind, Option.bind_eq_some_iff, Option.pure_def,
      Option.some.injEq] at join
    obtain ⟨values, -, rfl⟩ := join
    exact ⟨rfl, by simp [texts, String.toList_join, List.flatMap, Function.comp_def]⟩

/-- A single token is written as it is spelt. -/
theorem OperandText.value (legible : t.Legible) (isValue : Syntax.startsValue t.kind) :
    OperandText (.leaf t.bare) t.text where
  written := sourceText_eq_ok.mpr (.inl ⟨t.bare, rfl, rfl⟩)
  spelt := ⟨[t], Syntax.derives_leaf isValue, Adjoin.single legible, by simp [texts]⟩

/-- Strings are written one behind the other. -/
theorem OperandText.strings {tokens : List Token} (areStrings : Strings tokens t)
    (adjoin : Adjoin tokens) : OperandText (.leaf t) t.text where
  written := sourceText_eq_ok.mpr (.inl ⟨t, rfl, rfl⟩)
  spelt := by
    exact ⟨tokens, .strings areStrings, adjoin, (strings_text areStrings).2⟩

/-! ### Paths -/

/-- A word ends in front of a point. -/
theorem ends_word (legible : t.Legible) (isWord : t.kind = .word) :
    endsBefore t.text.toList '.' := by
  obtain ⟨c, rest, isText, start⟩ := legible.starts_of_word isWord
  have noWord : Text.isWordChar '.' = false := by decide +kernel
  simp [isText, endsBefore, start, noWord]

/-- A point ends in front of a word. -/
theorem adjoin_name (legible : t.Legible) (isWord : t.kind = .word) : Adjoin [point, t] := by
  refine (Adjoin.single legible_point).append (Adjoin.single legible) fun u isLast d isFirst => ?_
  obtain rfl : point = u := by simpa using isLast
  obtain ⟨c, rest, isText, start⟩ := legible.starts_of_word isWord
  obtain rfl : c = d := by simpa [texts, isText] using isFirst
  have noDigit : Text.isDigit c = false := by
    by_contra isDigit
    rw [Token.isWordStart_of_isDigit (by simpa using isDigit)] at start
    cases start
  change endsBefore ['.'] c
  rw [Token.endsBefore_of_mark (show Token.mark? '.' = some .dot from rfl)]
  simp [Token.startsNumber, noDigit, Token.doubleMark?]

theorem PathText.word (legible : t.Legible) (isWord : t.kind = .word) :
    PathText (.leaf t.bare) t.text where
  written := sourceText_eq_ok.mpr (.inl ⟨t.bare, rfl, rfl⟩)
  spine := by
    rw [spine_leaf]
    change t.value.describe? = some t.text
    rw [legible.value_of_word isWord]
    rfl
  spelt := by
    have isValue : Syntax.startsValue t.kind := by rw [isWord]; rfl
    refine ⟨[t], ⟨Syntax.derives_leaf isValue, Adjoin.single legible, by simp [texts]⟩, isWord, ?_⟩
    intro u isLast
    obtain rfl : t = u := by simpa using isLast
    exact ends_word legible isWord

/-- What a step adds to a path: its tokens stand behind those of the path. -/
theorem PathText.extend {tail : String} (path : PathText base text) (more : List Token)
    (inner : tree.token? = none) (spine : Path.spine tree = .ok (text ++ tail))
    (derives : ∀ tokens, Derives (.expression .primary base) tokens →
      Derives (.expression .primary tree) (tokens ++ more))
    (adjoin : ∀ tokens, Adjoin tokens → (∀ t ∈ tokens.getLast?, endsBefore t.text.toList '.') →
      Adjoin (tokens ++ more))
    (isText : tail.toList = texts more) (last : Token) (isLast : more.getLast? = some last)
    (ends : endsBefore last.text.toList '.') : PathText tree (text ++ tail) := by
  obtain ⟨tokens, spelt, starts, point⟩ := path.spelt
  have some : tokens ≠ [] := List.length_pos_iff.mp spelt.derives.length_pos
  refine ⟨sourceText_eq_ok.mpr (.inr ⟨inner, spine⟩), spine, tokens ++ more, ⟨?_, ?_, ?_⟩, ?_, ?_⟩
  · exact derives tokens spelt.derives
  · exact adjoin tokens spelt.adjoin point
  · simp [texts, spelt.isText, isText]
  · rw [Syntax.headKind_append more some, starts]
  · intro t among
    rw [List.getLast?_append, isLast] at among
    obtain rfl : last = t := by simpa using among
    exact ends

/-- A bracket stands behind an index and a slice. -/
private theorem ends_closing : endsBefore closing.text.toList '.' :=
  Token.endsBefore_bracket rfl '.'

theorem PathText.member (path : PathText base text) (legible : t.Legible) (isWord : t.kind = .word) :
    PathText (.member base t.bare) (text ++ ("." ++ t.text)) := by
  refine path.extend [point, t] rfl ?_ (fun _ ofBase => .member ofBase rfl isWord)
    (fun tokens adjoin ends => ?_) (by simp [texts, point]) t rfl (ends_word legible isWord)
  · refine spine_member.mpr ⟨text, path.spine, ?_⟩
    change text ++ "." ++ t.name = _
    rw [Token.name, legible.value_of_word isWord, String.append_assoc]
    rfl
  · refine adjoin.append (adjoin_name legible isWord) fun u isLast d isFirst => ?_
    obtain rfl : '.' = d := by simpa [texts, point] using isFirst
    exact ends u isLast

theorem PathText.index (path : PathText base text) (inner : OperandText element inside) :
    PathText (.index base element) (text ++ ("[" ++ inside ++ "]")) := by
  obtain ⟨tokens, spelt⟩ := inner.spelt
  refine path.extend (opening :: tokens ++ [closing]) rfl ?_ (fun _ ofBase => ?_)
    (fun others adjoin _ => ?_) ?_ closing List.getLast?_concat ends_closing
  · exact spine_index.mpr ⟨text, path.spine, inside, inner.written, by simp [String.append_assoc]⟩
  · have opens : opening.kind = .leftBracket := rfl
    have closes : closing.kind = .rightBracket := rfl
    have derived := Derives.index ofBase opens closes (Syntax.derives_elements_single spelt.derives)
    simpa using derived
  · have all := adjoin_closing (adjoin_opening adjoin spelt.adjoin) Token.adjoin_nil
    simpa using all
  · simp [texts, spelt.isText, opening, closing]

/-- A bound of a slice is written as it is, and one that is left out as nothing. -/
def BoundText : Option Node → String → Prop
  | none, text => text = ""
  | some bound, text => OperandText bound text

/-- The text of the step of a slice: a second colon stands only before a step. -/
def stepText : Option String → String
  | none => ""
  | some width => ":" ++ width

def sliceText (start stop : String) (step : Option String) : String :=
  "[" ++ start ++ ":" ++ stop ++ stepText step ++ "]"

/-- The tokens of a bound. -/
theorem BoundText.spelt {bound : Option Node} (written : BoundText bound text) :
    ∃ tokens, Derives (.bound bound) tokens ∧ Adjoin tokens ∧ text.toList = texts tokens := by
  cases bound with
  | none =>
    obtain rfl : text = "" := written
    exact ⟨[], .noBound, Token.adjoin_nil, rfl⟩
  | some bound =>
    obtain ⟨tokens, spelt⟩ := OperandText.spelt written
    exact ⟨tokens, .bound (Syntax.derives_elements_single spelt.derives), spelt.adjoin, spelt.isText⟩

theorem BoundText.boundText_eq {bound : Option Node} (written : BoundText bound text) (mark : String) :
    boundText mark bound = .ok ((bound.map fun _ => mark ++ text).getD "") := by
  cases bound with
  | none => rfl
  | some bound => exact boundText_some.mpr ⟨text, OperandText.written written, rfl⟩

/-- The text of the bounds between their brackets. -/
theorem boundsText_eq {start stop step : Option Node} {first last width : String}
    (ofStart : BoundText start first) (ofStop : BoundText stop last) (ofStep : BoundText step width) :
    boundsText ⟨start, stop, step, {}⟩ = .ok (sliceText first last (step.map fun _ => width)) := by
  refine boundsText_eq_ok.mpr ⟨_, ofStart.boundText_eq "", _, ofStop.boundText_eq ":", _,
    ofStep.boundText_eq ":", ?_⟩
  have isFirst : (start.map fun _ => "" ++ first).getD "" = first := by
    cases start with
    | none => exact Eq.symm ofStart
    | some start => simp
  have isLast : (let colon := (stop.map fun _ => ":" ++ last).getD ""
      if colon = "" then ":" else colon) = ":" ++ last := by
    cases stop with
    | none =>
      obtain rfl : last = "" := ofStop
      rfl
    | some stop => simp
  rw [isFirst]
  dsimp only at isLast
  rw [isLast, sliceText]
  cases step <;> simp [stepText, String.append_assoc]

theorem PathText.slice {start stop step : Option Node} {first last : String} {width : String}
    (path : PathText base text) (ofStart : BoundText start first) (ofStop : BoundText stop last)
    (ofStep : BoundText step width) :
    PathText (.slice base ⟨start, stop, step, {}⟩)
      (text ++ sliceText first last (step.map fun _ => width)) := by
  obtain ⟨startTokens, startDerives, startAdjoin, startText⟩ := ofStart.spelt
  obtain ⟨stopTokens, stopDerives, stopAdjoin, stopText⟩ := ofStop.spelt
  obtain ⟨stepTokens, stepDerives, stepAdjoin, isStep⟩ : ∃ tokens, Derives (.step step) tokens ∧
      (∀ others, Adjoin others → Adjoin (others ++ tokens)) ∧
      (stepText (step.map fun _ => width)).toList = texts tokens := by
    cases step with
    | none => exact ⟨[], .noStep, fun others adjoin => by simpa using adjoin, rfl⟩
    | some step =>
      obtain ⟨tokens, derives, adjoin, isText⟩ := ofStep.spelt
      refine ⟨colon :: tokens, .step rfl derives, fun others first => adjoin_colon first adjoin, ?_⟩
      simp [stepText, texts, colon, isText]
  refine path.extend (opening :: startTokens ++ colon :: stopTokens ++ stepTokens ++ [closing]) rfl ?_
    (fun tokens ofBase => ?_) (fun others adjoin _ => ?_) ?_ closing List.getLast?_concat ends_closing
  · exact spine_slice.mpr ⟨text, path.spine, _, boundsText_eq ofStart ofStop ofStep, rfl⟩
  · have opens : opening.kind = .leftBracket := rfl
    have isColon : colon.kind = .colon := rfl
    have closes : closing.kind = .rightBracket := rfl
    have derived := Derives.slice ofBase opens isColon closes startDerives stopDerives stepDerives
    simpa using derived
  · have front := adjoin_colon (adjoin_opening adjoin startAdjoin) stopAdjoin
    have all := adjoin_closing (stepAdjoin _ front) Token.adjoin_nil
    simpa using all
  · simp [texts, sliceText, startText, stopText, isStep, opening, closing, colon]

end Path

end LazyConfig
