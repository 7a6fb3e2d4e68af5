import LazyConfig.Proofs.Syntax.PathSpelling

/-!
# Paths are read back from their texts

A path that starts with a word is read back from the text that it is written as, if writing it leaves
nothing out: operators with one operand and reference brackets have no place in the text of a path,
and what a path starts from is written by its value, so that quotes and the spelling of other literals
are lost. Strings that stand one behind the other must not be read as one when nothing stands between
them.
-/

namespace LazyConfig

open Syntax (Bounds Derives)

/-! ### What texts of paths leave out -/

namespace Node

mutual

/-- Whether the text of a path, if it has one, leaves nothing out: the path and those of its operands
that are no single tokens start with words, without signs and reference brackets on the left spine. -/
def isFaithful : Node → Bool
  | leaf token => token.kind = .word
  | unary _ _ _ => false
  | reference _ _ => false
  | binary _ _ _ => true
  | member base _ => base.isFaithful
  | index base operand => base.isFaithful && (operand.token?.isSome || operand.isFaithful)
  | slice base bounds => base.isFaithful && boundsFaithful bounds
  | list _ _ => true
  | mapping _ _ => true

def boundsFaithful : Bounds Node → Bool
  | ⟨start, stop, step, _⟩ => boundFaithful start && boundFaithful stop && boundFaithful step

def boundFaithful : Option Node → Bool
  | none => true
  | some bound => bound.token?.isSome || bound.isFaithful

end

mutual

theorem isFaithful_bare : ∀ n : Node, n.bare.isFaithful = n.isFaithful
  | leaf _ => rfl
  | unary _ _ _ => rfl
  | reference _ _ => rfl
  | binary _ _ _ => rfl
  | member base _ => isFaithful_bare base
  | index base operand => by
    simp [bare, isFaithful, isFaithful_bare base, isFaithful_bare operand]
  | slice base bounds => by
    simp [bare, isFaithful, isFaithful_bare base, boundsFaithful_bare bounds]
  | list _ _ => rfl
  | mapping _ _ => rfl

theorem boundsFaithful_bare : ∀ bounds : Bounds Node,
    boundsFaithful (bareBounds bounds) = boundsFaithful bounds
  | ⟨start, stop, step, _⟩ => by
    simp [bareBounds, boundsFaithful, boundFaithful_bare start, boundFaithful_bare stop,
      boundFaithful_bare step]

theorem boundFaithful_bare : ∀ bound : Option Node,
    boundFaithful (bareBound bound) = boundFaithful bound
  | none => rfl
  | some bound => by simp [bareBound, boundFaithful, isFaithful_bare bound]

end

end Node

namespace Token

/-- Whether a string would be read together with the next one: an empty string in front of the same
quotes. -/
def fuses (t next : Token) : Bool :=
  t.kind = .string && next.kind = .string && t.text.toList.length = 2 &&
    t.text.toList.head? = next.text.toList.head?

/-- Strings can be written one behind the other, if none of them is read together with the next. -/
theorem adjoin_strings {tokens : List Token} (areStrings : ∀ t ∈ tokens, t.kind = .string)
    (legible : ∀ t ∈ tokens, t.Legible) (apart : tokens.IsChain fun a b => ¬a.fuses b) :
    Adjoin tokens := by
  refine ⟨legible, ?_⟩
  induction tokens with
  | nil => exact .nil
  | cons t tokens ih =>
    cases tokens with
    | nil => exact .singleton t
    | cons next tokens =>
      obtain ⟨noFusion, apart⟩ := List.isChain_cons_cons.mp apart
      have others := ih (fun u among => areStrings u (List.mem_cons_of_mem t among))
        (fun u among => legible u (List.mem_cons_of_mem t among)) apart
      refine List.isChain_cons_cons.mpr ⟨fun d isFirst => ?_, others⟩
      obtain ⟨c, rest, isText, isQuote⟩ :=
        (legible t (by simp)).starts_of_string (areStrings t (by simp))
      rw [isText]
      -- only a third quote behind two of them does not end a string
      have ends : ¬(rest = [c] ∧ d = c) := by
        rintro ⟨two, sameQuote⟩
        apply noFusion
        have first : next.text.toList.head? = some c := sameQuote ▸ isFirst
        have areBoth : t.kind = .string ∧ next.kind = .string :=
          ⟨areStrings t (by simp), areStrings next (by simp)⟩
        simp [fuses, areBoth, isText, two, first]
      have noStart : Text.isWordStart c = false ∧ c ≠ '`' := by
        rcases isQuote with rfl | rfl <;> decide +kernel
      simpa [endsBefore, noStart, isQuote, not_and_or] using not_and_or.mp ends

end Token

namespace Path

open Syntax (Phrase)

variable {tree : Node} {tokens : List Token}

/-- Of a faithful path that has a text, and of a single token, the text consists of tokens that make
up the same tree again. -/
structure IsWritten (tree : Node) : Prop where
  path : tree.isFaithful → tree.hasText → ∃ text, PathText tree text
  token : tree.token?.isSome → ∃ text, OperandText tree text

theorem IsWritten.operand (written : IsWritten tree)
    (faithful : tree.token?.isSome || tree.isFaithful) (hasText : tree.hasText) :
    ∃ text, OperandText tree text := by
  rcases Bool.or_eq_true_iff.mp faithful with isToken | faithful
  · exact written.token isToken
  · exact (written.path faithful hasText).imp fun _ path => path.operand

theorem exists_boundText {bound : Option Node} (written : ∀ tree ∈ bound, IsWritten tree)
    (faithful : Node.boundFaithful bound) (hasText : Node.boundWritable bound) :
    ∃ text, BoundText bound text := by
  cases bound with
  | none => exact ⟨"", rfl⟩
  | some bound => exact (written bound rfl).operand faithful hasText

theorem hasText_of_writable (writable : tree.isWritable) : tree.hasText :=
  Bool.or_eq_true_iff.mpr (.inr writable)

/-- Operators with one operand and reference brackets are left out of a text. -/
theorem isWritten_of_unfaithful (lost : tree.isFaithful = false) (noToken : tree.token? = none) :
    IsWritten tree :=
  ⟨by simp [lost], by simp [noToken]⟩

/-- Trees that are no paths have no text. -/
theorem isWritten_of_unwritable (noPath : tree.isWritable = false) (noToken : tree.token? = none) :
    IsWritten tree :=
  ⟨by simp [Node.hasText, noPath, noToken], by simp [noToken]⟩

/-- What there is to show about the trees of a phrase. -/
def PhraseWritten : Phrase → Prop
  | .expression _ tree | .enclosed tree | .elements [tree] => IsWritten tree
  | .bound bound | .step bound => ∀ tree ∈ bound, IsWritten tree
  | _ => True

/-! ### Texts that can be read back -/

/-- Tokens that are read again, one behind the other, as far as they are the leaves of trees. -/
structure Readable (tokens : List Token) : Prop where
  legible : ∀ t ∈ tokens, Syntax.startsValue t.kind → t.Legible
  apart : tokens.IsChain fun a b => ¬a.fuses b

theorem Readable.of_infix {part : List Token} (readable : Readable tokens)
    (among : part <:+: tokens) : Readable part :=
  ⟨fun t isIn => readable.legible t (among.subset isIn), readable.apart.infix among⟩

theorem Readable.left {first second : List Token} (readable : Readable (first ++ second)) :
    Readable first :=
  readable.of_infix (List.prefix_append first second).isInfix

theorem Readable.right {first second : List Token} (readable : Readable (first ++ second)) :
    Readable second :=
  readable.of_infix (List.suffix_append first second).isInfix

theorem Readable.tail {t : Token} {rest : List Token} (readable : Readable (t :: rest)) :
    Readable rest :=
  readable.of_infix (List.suffix_cons t rest).isInfix

/-- By induction on the derivation: the tokens of a part stand one behind the other among those of
the whole. -/
theorem isWritten_of_derives {phrase : Phrase} (derived : Derives phrase tokens)
    (readable : Readable tokens) : PhraseWritten phrase := by
  induction derived with
  | @value t isValue single =>
    have legible := readable.legible t (by simp) isValue
    refine ⟨fun faithful _ => ?_, fun _ => ⟨t.text, .value legible isValue⟩⟩
    have isWord : t.kind = .word := of_decide_eq_true faithful
    exact ⟨t.text, .word legible isWord⟩
  | @strings tokens t areStrings =>
    obtain ⟨isString, -⟩ := strings_text areStrings
    have all : ∀ t ∈ tokens, t.kind = .string := by
      cases areStrings with
      | joined all _ => exact all
    constructor
    · intro faithful
      rw [Node.isFaithful, isString] at faithful
      cases faithful
    · refine fun _ => ⟨t.text, .strings areStrings (Token.adjoin_strings all ?_ readable.apart)⟩
      intro t among
      refine readable.legible t among ?_
      rw [all t among]
      rfl
  | enclosed _ ih => exact ih readable
  | reference => exact isWritten_of_unfaithful rfl rfl
  -- parentheses group only, and leave nothing in the tree
  | parentheses _ _ _ ih => exact ih readable.left.tail
  | @member _ _ _ name _ _ isWord ih =>
    refine ⟨fun faithful writable => ?_, by simp [Node.token?]⟩
    obtain ⟨text, path⟩ := (ih readable.left).path faithful (hasText_of_writable writable)
    have isValue : Syntax.startsValue name.kind := by
      rw [isWord]
      rfl
    have legible := readable.right.legible name (by simp) isValue
    exact ⟨_, path.member legible isWord⟩
  | index _ _ _ _ ihBase ihOperand =>
    refine ⟨fun faithful writable => ?_, by simp [Node.token?]⟩
    obtain ⟨baseFaithful, operandFaithful⟩ := Bool.and_eq_true_iff.mp faithful
    obtain ⟨baseWritable, operandWritable⟩ := Bool.and_eq_true_iff.mp writable
    obtain ⟨text, path⟩ := (ihBase readable.left.left).path baseFaithful (hasText_of_writable baseWritable)
    obtain ⟨inside, operand⟩ :=
      (ihOperand readable.left.right.tail).operand operandFaithful operandWritable
    exact ⟨_, path.index operand⟩
  | slice _ _ _ _ _ _ _ ihBase ihStart ihStop ihStep =>
    refine ⟨fun faithful writable => ?_, by simp [Node.token?]⟩
    obtain ⟨baseFaithful, boundsFaithful⟩ := Bool.and_eq_true_iff.mp faithful
    obtain ⟨endsFaithful, stepFaithful⟩ := Bool.and_eq_true_iff.mp boundsFaithful
    obtain ⟨startFaithful, stopFaithful⟩ := Bool.and_eq_true_iff.mp endsFaithful
    obtain ⟨baseWritable, boundsWritable⟩ := Bool.and_eq_true_iff.mp writable
    obtain ⟨endsWritable, stepWritable⟩ := Bool.and_eq_true_iff.mp boundsWritable
    obtain ⟨startWritable, stopWritable⟩ := Bool.and_eq_true_iff.mp endsWritable
    obtain ⟨text, path⟩ :=
      (ihBase readable.left.left.left.left).path baseFaithful (hasText_of_writable baseWritable)
    obtain ⟨first, start⟩ :=
      exists_boundText (ihStart readable.left.left.left.right.tail) startFaithful startWritable
    obtain ⟨last, stop⟩ :=
      exists_boundText (ihStop readable.left.left.right.tail) stopFaithful stopWritable
    obtain ⟨width, step⟩ :=
      exists_boundText (ihStep readable.left.right) stepFaithful stepWritable
    exact ⟨_, path.slice start stop step⟩
  | unary => exact isWritten_of_unfaithful rfl rfl
  | binary => exact isWritten_of_unwritable rfl rfl
  | tighter _ _ ih => exact ih readable
  | list => exact isWritten_of_unwritable rfl rfl
  | mapping => exact isWritten_of_unwritable rfl rfl
  | noElements => trivial
  | lastElement _ _ ih => exact ih readable.right
  -- a single element is an index or a bound, even with a separator behind it
  | @element _ _ _ _ _ elements _ _ _ _ ih _ =>
    cases elements with
    | nil => exact ih readable.left.right
    | cons => trivial
  | noBound => simp [PhraseWritten]
  | bound _ ih =>
    rintro tree ⟨⟩
    exact ih readable
  | noStep => simp [PhraseWritten]
  | step _ _ ih => exact ih readable.tail
  | _ => trivial

/-! ### Reading back -/

/-- The tokens of a text, up to its end or its first error. -/
def tokensOf (string : String) : List Token :=
  ((Token.Cursor.ofString string).tokens false).1.filterMap Except.toOption

/-- Strings of a text that stand one behind the other are not read as one without what stands
between them. -/
def StringsApart (string : String) : Prop := (tokensOf string).IsChain fun a b => ¬a.fuses b

instance : DecidablePred StringsApart := fun string =>
  inferInstanceAs (Decidable ((tokensOf string).IsChain fun a b => ¬a.fuses b))

/-- The tokens of a text can be read again from their own texts. -/
theorem readable_of_sentence {string : String} {sentence : Syntax.Sentence}
    (made : Token.Stream.ofString string = .ok sentence.stream) (apart : StringsApart string) :
    Readable sentence.tokens := by
  have readings := sentence.readings made
  constructor
  · intro t among isValue
    have isRead : .ok t ∈ ((Token.Cursor.ofString string).tokens false).1 := by
      simp [readings, among]
    refine Token.legible_of_readAll isRead (sentence.inner t among) fun isNewline => ?_
    rw [isNewline] at isValue
    cases isValue
  · have all : tokensOf string = sentence.tokens ++ [sentence.ending] := by
      rw [tokensOf, readings]
      simp [List.filterMap_map, Function.comp_def, Except.toOption]
    unfold StringsApart at apart
    rw [all] at apart
    exact apart.left_of_append

/-- A path is read back from its text, with the same word in front and the same steps, if the text
leaves nothing out. -/
theorem sourceText_read_back {string text : String} {p : Node} (read : ofString string = .ok p)
    (apart : StringsApart string) (faithful : p.isFaithful) (written : p.sourceText = .ok text) :
    ∃ q, ofString text = .ok q ∧ q.bare = p.bare ∧
      q.head?.map Token.bare = p.head?.map Token.bare ∧
      q.steps.map Step.bare = p.steps.map Step.bare := by
  obtain ⟨sentence, made, -, derived⟩ := (ofString_iff string).mp ⟨p, read, rfl⟩
  have isWritten : IsWritten p.bare :=
    isWritten_of_derives derived (readable_of_sentence made apart)
  have written : p.bare.sourceText = .ok text := (sourceText_bare p text).mpr written
  -- the text that the tokens make up is the one that is written
  obtain ⟨other, path⟩ := isWritten.path (p.isFaithful_bare ▸ faithful)
    (p.bare.exists_sourceText_iff.mp ⟨text, written⟩)
  obtain rfl : text = other := Except.ok.inj (written.symm.trans path.written)
  obtain ⟨q, readBack, same⟩ := path.read
  refine ⟨q, readBack, same, ?_, ?_⟩
  · rw [← Node.head?_bare, same, Node.head?_bare]
  · rw [← Node.steps_bare, same, Node.steps_bare]

/-- Whether a text is read as a path with the given property. -/
def readsAs (string : String) (holds : Node → Bool) : Bool :=
  match ofString string with
  | .ok p => holds p
  | .error _ => false

theorem exists_of_readsAs {string : String} {holds : Node → Bool} (reads : readsAs string holds) :
    ∃ p, ofString string = .ok p ∧ holds p := by
  unfold readsAs at reads
  split at reads
  case h_1 p read => exact ⟨p, read, reads⟩
  case h_2 => cases reads

/-- A path with blanks and parentheses, whose operands are strings, paths and bounds. -/
theorem sourceText_read_back_nested :
    ∃ p q, ofString "a [(b . c[ 0 ])]['x' \"y\"][: d]" = .ok p ∧
      p.sourceText = .ok "a[b.c[0]]['x'\"y\"][:d]" ∧
      ofString "a[b.c[0]]['x'\"y\"][:d]" = .ok q ∧ q.bare = p.bare := by
  have reads : readsAs "a [(b . c[ 0 ])]['x' \"y\"][: d]" fun p =>
      p.isFaithful && p.sourceText = .ok "a[b.c[0]]['x'\"y\"][:d]" := by
    decide +kernel
  obtain ⟨p, read, holds⟩ := exists_of_readsAs reads
  obtain ⟨faithful, isText⟩ := Bool.and_eq_true_iff.mp holds
  have written := of_decide_eq_true isText
  have apart : StringsApart "a [(b . c[ 0 ])]['x' \"y\"][: d]" := by decide +kernel
  obtain ⟨q, readBack, same, -⟩ := sourceText_read_back read apart faithful written
  exact ⟨p, q, read, written, readBack, same⟩

/-- Whether the only step is an index with a sign in front of it. -/
def isSignedIndex : List Step → Bool
  | [.index (.unary _ _ _)] => true
  | _ => false

/-- A sign in front of an index is left out, and an empty string and the next one are written as the
start of a longer literal. -/
theorem sign_left_out_of_text :
    (∃ p q, ofString "a[-b]" = .ok p ∧ p.sourceText = .ok "a[b]" ∧ ofString "a[b]" = .ok q ∧
      q.steps.map Step.bare ≠ p.steps.map Step.bare) ∧
    ∃ p, ofString "a['' 'x']" = .ok p ∧ p.sourceText = .ok "a['''x']" ∧
      ∀ q, ofString "a['''x']" ≠ .ok q := by
  constructor
  · have reads : readsAs "a[-b]" fun p =>
        p.sourceText = .ok "a[b]" && isSignedIndex (p.steps.map Step.bare) := by
      decide +kernel
    have readBack : readsAs "a[b]" fun q => !isSignedIndex (q.steps.map Step.bare) := by
      decide +kernel
    obtain ⟨p, read, holds⟩ := exists_of_readsAs reads
    obtain ⟨q, again, unsigned⟩ := exists_of_readsAs readBack
    obtain ⟨isText, signed⟩ := Bool.and_eq_true_iff.mp holds
    refine ⟨p, q, read, of_decide_eq_true isText, again, fun same => ?_⟩
    simp [same, signed] at unsigned
  · have reads : readsAs "a['' 'x']" fun p => p.sourceText = .ok "a['''x']" := by decide +kernel
    have fails : readsAs "a['''x']" (fun _ => true) = false := by decide +kernel
    obtain ⟨p, read, isText⟩ := exists_of_readsAs reads
    refine ⟨p, read, of_decide_eq_true isText, fun q again => ?_⟩
    simp [readsAs, again] at fails

end Path

end LazyConfig
