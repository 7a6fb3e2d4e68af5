import LazyConfig.Proofs.Syntax.Grammar
import LazyConfig.Proofs.Syntax.Outcome

/-!
# What the parser takes is derived

A parser that succeeds on the tokens of a text has taken the tokens of a phrase, and the tree that
it makes is the one of this phrase.
-/

namespace LazyConfig.Syntax

open Token (Stream Kind)

/-- The stream stands behind the first tokens of a text. -/
def Sentence.Behind (text : Sentence) (taken : List Token) (s : Stream) : Prop :=
  ∃ rest, text.tokens = taken ++ rest ∧ s = streamOf text.ending rest

theorem Sentence.Behind.advance {text : Sentence} {taken : List Token} {s next : Stream}
    (behind : text.Behind taken s) (inner : s.next.kind ≠ .eof) (advanced : s.advance = .ok next) :
    text.Behind (taken ++ [s.next]) next := by
  obtain ⟨rest, isText, rfl⟩ := behind
  cases rest with
  | nil => exact absurd text.isEnd inner
  | cons token rest =>
    refine ⟨rest, by simpa [streamOf] using isText, ?_⟩
    cases rest with
    | nil =>
      cases advanced
      rfl
    | cons =>
      cases advanced
      rfl

theorem Sentence.behind_stream (text : Sentence) : text.Behind [] text.stream :=
  ⟨text.tokens, rfl, rfl⟩

namespace Parser

variable {α σ : Type} {text : Sentence} {taken : List Token} {s : Stream}

/-- What a parser takes are the tokens of what it yields. -/
def Takes (text : Sentence) (p : Parser α) (phrase : α → List Token → Prop) : Prop :=
  ∀ taken s, text.Behind taken s →
    Yields s p fun a left => ∃ more, phrase a more ∧ text.Behind (taken ++ more) left

theorem Takes.yields {p : Parser α} {phrase : α → List Token → Prop} {post : α → Stream → Prop}
    (takes : Takes text p phrase) (behind : text.Behind taken s)
    (next : ∀ a more left, phrase a more → text.Behind (taken ++ more) left → post a left) :
    Yields s p post :=
  (takes taken s behind).mono fun a left ⟨more, holds, after⟩ => next a more left holds after

/-! ### Tokens -/

theorem yields_advance_behind {post : Kind → Stream → Prop} (behind : text.Behind taken s)
    (inner : s.next.kind ≠ .eof)
    (next : ∀ left, text.Behind (taken ++ [s.next]) left → post left.next.kind left) :
    Yields s advance post :=
  yields_advance.mpr fun left advanced => next left (behind.advance inner advanced)

theorem yields_take_behind {post : Token → Stream → Prop} (behind : text.Behind taken s)
    (inner : s.next.kind ≠ .eof)
    (next : ∀ left, text.Behind (taken ++ [s.next]) left → post s.next left) :
    Yields s take post :=
  yields_take.mpr fun left advanced => next left (behind.advance inner advanced)

theorem yields_expect_behind {wanted : Kind} {post : Token → Stream → Prop}
    (behind : text.Behind taken s) (inner : wanted ≠ .eof)
    (next : ∀ token left, token.kind = wanted → text.Behind (taken ++ [token]) left →
      post token left) : Yields s (expect wanted) post :=
  yields_expect.mpr fun found left advanced =>
    next s.next left found (behind.advance (found ▸ inner) advanced)

theorem areNewlines_append {first second : List Token} (before : AreNewlines first)
    (behind : AreNewlines second) : AreNewlines (first ++ second) := by
  intro t among
  rcases List.mem_append.mp among with among | among
  · exact before t among
  · exact behind t among

theorem yields_skipNewlines {post : Kind → Stream → Prop} (behind : text.Behind taken s)
    (next : ∀ newlines left, AreNewlines newlines → text.Behind (taken ++ newlines) left →
      post left.next.kind left) : Yields s skipNewlines post := by
  let skipped (left : Stream) : Prop :=
    ∃ newlines, AreNewlines newlines ∧ text.Behind (taken ++ newlines) left
  refine (yields_iterate (q := fun found left => found = left.next.kind ∧ skipped left)
    (fun _ left => skipped left) ⟨[], by simp [AreNewlines], by simpa using behind⟩ ?_).mono ?_
  · rintro _ s ⟨newlines, are, behind⟩
    simp only [yields_bind, yields_kind, yields_ite, yields_pure]
    refine ⟨fun isNewline => ?_, fun _ => ⟨rfl, newlines, are, behind⟩⟩
    refine yields_advance_behind behind (by simp [isNewline]) fun left after => ?_
    exact ⟨newlines ++ [s.next], areNewlines_append are (by simp [AreNewlines, isNewline]),
      by simpa using after⟩
  · rintro found left ⟨rfl, newlines, are, after⟩
    exact next newlines left are after

/-! ### Values -/

theorem yields_strings_behind {post : Token → Stream → Prop} (behind : text.Behind taken s)
    (isString : s.next.kind = .string)
    (next : ∀ token more left, Strings more token.bare → text.Behind (taken ++ more) left →
      post token left) : Yields s strings post := by
  simp only [strings, yields_bind]
  refine yields_take_behind behind (by simp [isString]) fun left after => ?_
  let joins (others : List Token) (left : Stream) : Prop :=
    (∀ t ∈ others, t.kind = .string) ∧ text.Behind (taken ++ s.next :: others) left
  refine (yields_iterate (q := joins) (fun others left => joins others.reverse left)
    ⟨by simp, by simpa using after⟩ ?_).mono ?_
  · rintro others left ⟨all, behind⟩
    simp only [yields_bind, yields_kind, yields_ite, yields_pure]
    refine ⟨fun isString => ?_, fun _ => ⟨all, behind⟩⟩
    refine yields_take_behind behind (by simp [isString]) fun left after => ?_
    refine ⟨fun t among => ?_, by simpa using after⟩
    rcases List.mem_cons.mp (List.mem_reverse.mp among) with rfl | among
    · exact isString
    · exact all t (List.mem_reverse.mpr among)
  · rintro others left ⟨all, behind⟩
    split
    case h_1 joined join =>
      refine yields_pure.mpr (next joined _ left (.joined ?_ join) behind)
      exact List.forall_mem_cons.mpr ⟨isString, all⟩
    case h_2 => exact yields_throw.mpr trivial

theorem takes_value :
    Takes text value fun t more => Derives (.expression .primary (.leaf t.bare)) more := by
  intro taken s behind
  simp only [value, yields_bind, yields_kind, yields_ite, yields_fail]
  refine ⟨fun _ => trivial, fun isValue => ⟨fun isString => ?_, fun single => ?_⟩⟩
  · exact yields_strings_behind behind isString fun token more left strings after =>
      ⟨more, .strings strings, after⟩
  · have isValue : startsValue s.next.kind = true := by simpa using isValue
    have inner : s.next.kind ≠ .eof := by
      rintro eof
      simp [startsValue, eof] at isValue
    exact yields_take_behind behind inner fun left after =>
      ⟨[s.next], .value isValue single, after⟩

/-! ### Containers -/

/-- Line ends in front of a body belong to it. -/
theorem derives_elements_newlines {newlines tokens : List Token} {elements : List Node}
    (lead : AreNewlines newlines) (body : Derives (.elements elements) tokens) :
    Derives (.elements elements) (newlines ++ tokens) := by
  cases body with
  | noElements more => exact .noElements (areNewlines_append lead more)
  | lastElement more element =>
    rw [← List.append_assoc]
    exact .lastElement (areNewlines_append lead more) element
  | element more element separates rest =>
    rw [← List.append_assoc, ← List.append_assoc]
    exact .element (areNewlines_append lead more) element separates rest

theorem derives_entries_newlines {newlines tokens : List Token} {entries : List (Token × Node)}
    (lead : AreNewlines newlines) (body : Derives (.entries entries) tokens) :
    Derives (.entries entries) (newlines ++ tokens) := by
  cases body with
  | noEntries more => exact .noEntries (areNewlines_append lead more)
  | lastEntry more entry =>
    rw [← List.append_assoc]
    exact .lastEntry (areNewlines_append lead more) entry
  | entry more entry separates rest =>
    rw [← List.append_assoc, ← List.append_assoc]
    exact .entry (areNewlines_append lead more) entry separates rest

/-- An entry up to locations. -/
def bareEntry (entry : Token × Node) : Token × Node := (entry.1.bare, entry.2.bare)

variable {nested : Nested}
  (inner : ∀ level, Takes text (nested level) fun n more =>
    Derives (.expression level n.bare) more)

include inner

theorem takes_listBody : Takes text (listBody nested) fun (elements, _) more =>
    Derives (.elements (elements.map Node.bare)) more := by
  intro taken s behind
  simp only [listBody, yields_bind]
  refine yields_skipNewlines behind fun newlines s lead behind => ?_
  rw [yields_peek]
  -- what has been taken is the head of every body that goes on with the rest of one
  let heads (done : List Node) (more : List Token) : Prop := ∀ elements rest,
    Derives (.elements elements) rest →
      Derives (.elements (done.reverse.map Node.bare ++ elements)) (more ++ rest)
  refine (yields_iterate
    (q := fun done left => ∃ more, Derives (.elements (done.reverse.map Node.bare)) more ∧
      text.Behind (taken ++ more) left)
    (fun done left => ∃ more, heads done more ∧ text.Behind (taken ++ more) left)
    ⟨newlines, fun elements rest body => by simpa using derives_elements_newlines lead body,
      behind⟩ ?_).mono ?_
  · rintro done s ⟨more, head, behind⟩
    simp only [yields_bind, yields_kind, yields_ite, yields_pure]
    refine ⟨fun _ => ⟨more, ?_, behind⟩, fun _ => ?_⟩
    · simpa using head [] [] (.noElements (by simp [AreNewlines]))
    · refine (inner .disjunction).yields behind fun element tokens s derived behind => ?_
      refine ⟨fun _ => ⟨more ++ tokens, ?_, by simpa using behind⟩, fun separates => ?_⟩
      · simpa using head [element.bare] ([] ++ tokens) (.lastElement (by simp [AreNewlines]) derived)
      · have separates : isSeparator s.next.kind = true := by simpa using separates
        have inside : s.next.kind ≠ .eof := by
          rintro eof
          simp [isSeparator, eof] at separates
        refine yields_advance_behind behind inside fun left behind => ?_
        refine yields_skipNewlines behind fun gap left areNewlines behind => ?_
        refine ⟨more ++ tokens ++ s.next :: gap, fun elements rest body => ?_,
          by simpa using behind⟩
        simpa using head (element.bare :: elements) ([] ++ tokens ++ s.next :: (gap ++ rest))
          (.element (by simp [AreNewlines]) derived separates
            (derives_elements_newlines areNewlines body))
  · rintro done left ⟨more, derived, behind⟩
    exact yields_pure.mpr ⟨more, derived, behind⟩

theorem takes_list : Takes text (list nested) fun n more => Derives (.enclosed n.bare) more := by
  intro taken s behind
  simp only [list, yields_bind]
  refine yields_expect_behind behind (by decide) fun opening s opens behind => ?_
  refine (takes_listBody inner).yields behind ?_
  rintro ⟨elements, span⟩ tokens s body behind
  refine yields_expect_behind behind (by decide) fun closing s closes behind => ?_
  refine yields_pure.mpr ⟨opening :: tokens ++ [closing], ?_, by simpa using behind⟩
  rw [Node.bare, Node.allBare_eq]
  exact .list opens closes body

/-- A key with the entry that it stands in front of. -/
theorem yields_entry_behind {post : Token × Node → Stream → Prop} (behind : text.Behind taken s)
    (starts : startsKey s.next.kind)
    (next : ∀ entry more left, Derives (.entry (bareEntry entry)) more →
      text.Behind (taken ++ more) left → post entry left) :
    Yields s (entry nested) post := by
  have inside : s.next.kind ≠ .eof := by
    rintro eof
    simp [startsKey, eof] at starts
  have keyed {post : Token → Stream → Prop} (next : ∀ key label left, Key label key.bare →
      text.Behind (taken ++ label) left → post key left) : Yields s mappingKey post := by
    simp only [mappingKey, yields_bind, yields_kind, yields_ite]
    refine ⟨fun isString => ?_, fun single => ?_⟩
    · exact yields_strings_behind behind isString fun key label left strings after =>
        next key label left (.strings strings) after
    · have isWord : s.next.kind = .word := by simpa [startsKey, single] using starts
      exact yields_take_behind behind inside fun left after =>
        next s.next [s.next] left (.word isWord) after
  simp only [entry, yields_bind]
  refine keyed fun key label s ofKey behind => ?_
  simp only [yields_kind, yields_ite, yields_bind, yields_fail]
  refine ⟨fun _ => trivial, fun isSign => ?_⟩
  have isSign : s.next.kind = .colon ∨ s.next.kind = .assign := by
    by_contra neither
    exact isSign ⟨fun colon => neither (.inl colon), fun assign => neither (.inr assign)⟩
  have inside : s.next.kind ≠ .eof := by
    rintro eof
    simp [eof] at isSign
  let sign := s.next
  refine yields_advance_behind behind inside fun s behind => ?_
  refine yields_skipNewlines behind fun gap s areNewlines behind => ?_
  refine (inner .disjunction).yields behind fun tree tokens s derived behind => ?_
  refine yields_pure.mpr (next _ (label ++ sign :: gap ++ tokens) s ?_ (by simpa using behind))
  exact .keyed ofKey isSign areNewlines derived

theorem takes_mappingBody : Takes text (mappingBody nested) fun (entries, _) more =>
    Derives (.entries (entries.map bareEntry)) more := by
  intro taken s behind
  simp only [mappingBody, yields_bind]
  refine yields_skipNewlines behind fun newlines s lead behind => ?_
  simp only [yields_peek, yields_ite, yields_bind, yields_fail, yields_pure]
  refine ⟨fun _ => trivial, fun _ => ?_⟩
  let heads (done : List (Token × Node)) (more : List Token) : Prop := ∀ entries rest,
    Derives (.entries entries) rest →
      Derives (.entries (done.reverse.map bareEntry ++ entries)) (more ++ rest)
  refine (yields_iterate
    (q := fun done left => ∃ more, Derives (.entries (done.reverse.map bareEntry)) more ∧
      text.Behind (taken ++ more) left)
    (fun done left => ∃ more, heads done more ∧ text.Behind (taken ++ more) left)
    ⟨newlines, fun entries rest body => by simpa using derives_entries_newlines lead body,
      behind⟩ ?_).mono ?_
  · rintro done s ⟨more, head, behind⟩
    simp only [yields_bind, yields_kind, yields_ite, yields_pure, yields_fail]
    refine ⟨fun _ => ⟨more, ?_, behind⟩, fun isKey => ?_⟩
    · simpa using head [] [] (.noEntries (by simp [AreNewlines]))
    · refine yields_entry_behind inner behind (by simpa using isKey)
        fun entry tokens s derived behind => ?_
      refine ⟨fun separates => ?_, fun _ => ⟨fun _ => ⟨more ++ tokens, ?_, by simpa using behind⟩,
        fun _ => trivial⟩⟩
      · have inside : s.next.kind ≠ .eof := by
          rintro eof
          simp [isSeparator, eof] at separates
        refine yields_advance_behind behind inside fun left behind => ?_
        refine yields_skipNewlines behind fun gap left areNewlines behind => ?_
        refine ⟨more ++ tokens ++ s.next :: gap, fun entries rest body => ?_,
          by simpa using behind⟩
        simpa using head (bareEntry entry :: entries) ([] ++ tokens ++ s.next :: (gap ++ rest))
          (.entry (by simp [AreNewlines]) derived separates
            (derives_entries_newlines areNewlines body))
      · simpa using head [bareEntry entry] ([] ++ tokens)
          (.lastEntry (by simp [AreNewlines]) derived)
  · rintro done left ⟨more, derived, behind⟩
    exact ⟨more, derived, behind⟩

theorem takes_mapping :
    Takes text (mapping nested) fun n more => Derives (.enclosed n.bare) more := by
  intro taken s behind
  simp only [mapping, yields_bind]
  refine yields_expect_behind behind (by decide) fun opening s opens behind => ?_
  refine (takes_mappingBody inner).yields behind ?_
  rintro ⟨entries, span⟩ tokens s body behind
  refine yields_expect_behind behind (by decide) fun closing s closes behind => ?_
  refine yields_pure.mpr ⟨opening :: tokens ++ [closing], ?_, by simpa using behind⟩
  rw [Node.bare, Node.entriesBare_eq]
  exact .mapping opens closes body

/-! ### Primaries -/

theorem takes_atom : Takes text (atom nested) fun n more =>
    Derives (.expression .primary n.bare) more := by
  intro taken s behind
  simp only [atom, yields_bind, yields_kind]
  split
  · exact (takes_mapping inner taken s behind).mono fun _ _ found =>
      found.imp fun _ => And.imp_left .enclosed
  · exact (takes_list inner taken s behind).mono fun _ _ found =>
      found.imp fun _ => And.imp_left .enclosed
  case h_3 isSigil =>
    simp only [yields_bind]
    refine yields_take_behind behind (by simp [isSigil]) fun left behind => ?_
    refine yields_expect_behind behind (by decide) fun opening s' opens behind => ?_
    refine (inner .primary).yields behind fun path tokens s' derived behind => ?_
    refine yields_expect_behind behind (by decide) fun closing s' closes behind => ?_
    refine yields_pure.mpr ⟨s.next :: opening :: tokens ++ [closing], ?_, by simpa using behind⟩
    exact .reference isSigil opens closes derived
  case h_4 opens =>
    simp only [yields_bind]
    refine yields_advance_behind behind (by simp [opens]) fun left behind => ?_
    refine (inner .disjunction).yields behind fun tree tokens s' derived behind => ?_
    refine yields_expect_behind behind (by decide) fun closing s' closes behind => ?_
    exact yields_pure.mpr ⟨s.next :: tokens ++ [closing], .parentheses opens closes derived,
      by simpa using behind⟩
  · simp only [yields_ite, yields_bind, yields_fail, yields_pure]
    refine ⟨fun _ => ?_, fun _ => trivial⟩
    exact takes_value taken s behind

theorem takes_sliceElement : Takes text (sliceElement nested) fun n more =>
    Derives (.elements [n.bare]) more := by
  intro taken s behind
  simp only [sliceElement, yields_bind]
  refine (takes_listBody inner).yields behind ?_
  rintro ⟨elements, span⟩ more s body behind
  split
  case h_1 element single =>
    obtain rfl : elements = [element] := single
    exact yields_pure.mpr ⟨more, body, behind⟩
  · exact yields_throw.mpr trivial

theorem takes_sliceStep : Takes text (sliceStep nested) fun bound more =>
    Derives (.step (bound.map Node.bare)) more := by
  intro taken s behind
  simp only [sliceStep, yields_bind, yields_kind, yields_ite, yields_pure]
  refine ⟨fun _ => ⟨[], .noStep, by simpa using behind⟩, fun isColon => ?_⟩
  have isColon : s.next.kind = .colon := by simpa using isColon
  let colon := s.next
  refine yields_advance_behind behind (by simp [isColon]) fun left behind => ?_
  refine ⟨fun _ => ⟨[colon], .step isColon .noBound, behind⟩, fun _ => ?_⟩
  refine (takes_sliceElement inner).yields behind fun bound more s derived behind => ?_
  exact ⟨colon :: more, .step isColon (.bound derived), by simpa using behind⟩

/-- The tokens of a trailer, which may stand behind every primary. -/
def Trails (t : Trailer) (more : List Token) : Prop := ∀ base tokens,
  Derives (.expression .primary base.bare) tokens →
    Derives (.expression .primary (t.apply base).bare) (tokens ++ more)

/-- The rest of a slice, behind its opening bracket and its first bound. -/
theorem yields_sliceRest_behind {opening : Token} {start : Option Node} {before : List Token}
    {post : Trailer → Stream → Prop} (behind : text.Behind (taken ++ opening :: before) s)
    (opens : opening.kind = .leftBracket)
    (ofStart : Derives (.bound (start.map Node.bare)) before) (isColon : s.next.kind = .colon)
    (next : ∀ t more left, Trails t more → text.Behind (taken ++ more) left → post t left) :
    Yields s (sliceRest nested opening start) post := by
  let colon := s.next
  simp only [sliceRest, yields_bind]
  refine yields_advance_behind behind (by simp [isColon]) fun s behind => ?_
  have rest : ∀ stop tokens s, Derives (.bound (stop.map Node.bare)) tokens →
      text.Behind (taken ++ opening :: before ++ [colon] ++ tokens) s →
      Yields s (sliceStep nested) fun step left => Yields left (expect .rightBracket)
        fun closing left => post (.slice
          ⟨start, stop, step, { opening.span with stop := closing.span.stop }⟩) left := by
    intro stop tokens s ofStop behind
    refine (takes_sliceStep inner).yields behind fun step last s ofStep behind => ?_
    refine yields_expect_behind behind (by decide) fun closing s closes behind => ?_
    refine next _ (opening :: before ++ colon :: tokens ++ last ++ [closing]) s ?_
      (by simpa using behind)
    intro base marks ofBase
    have sliced := Derives.slice ofBase opens isColon closes ofStart ofStop ofStep
    simpa [Trailer.apply, Node.bare, Node.bareBounds, Node.bareBound_eq] using sliced
  simp only [yields_ite, yields_bind, yields_pure, yields_map]
  refine ⟨fun _ => rest none [] s .noBound (by simpa using behind), fun _ => ?_⟩
  refine (takes_sliceElement inner).yields behind fun stop tokens s derived behind => ?_
  exact rest (some stop) tokens s (.bound derived) behind

theorem yields_trailer_behind {post : Trailer → Stream → Prop} (behind : text.Behind taken s)
    (next : ∀ t more left, Trails t more → text.Behind (taken ++ more) left → post t left) :
    Yields s (trailer nested) post := by
  simp only [trailer, yields_bind, yields_kind, yields_ite, yields_pure]
  refine ⟨fun _ => ?_, fun opens => ?_⟩
  · refine yields_expect_behind behind (by decide) fun dot s isDot behind => ?_
    refine yields_expect_behind behind (by decide) fun name s isWord behind => ?_
    refine next _ [dot, name] s (fun base tokens ofBase => ?_) (by simpa using behind)
    exact .member ofBase isDot isWord
  · have opens : s.next.kind = .leftBracket := by simpa using opens
    refine yields_take_behind behind (by simp [opens]) fun left behind => ⟨fun isColon => ?_,
      fun _ => ?_⟩
    · exact yields_sliceRest_behind inner behind opens .noBound isColon next
    · refine (takes_sliceElement inner).yields behind fun element tokens s' derived behind => ?_
      refine ⟨fun isColon => ?_, fun _ => ?_⟩
      · exact yields_sliceRest_behind inner (by simpa using behind) opens (.bound derived) isColon next
      · refine yields_expect_behind behind (by decide) fun closing left closes behind => ?_
        refine next _ (s.next :: tokens ++ [closing]) left (fun base marks ofBase => ?_)
          (by simpa using behind)
        simpa [Trailer.apply, Node.bare] using Derives.index ofBase opens closes derived

theorem takes_primary : Takes text (primary nested) fun n more =>
    Derives (.expression .primary n.bare) more := by
  intro taken s behind
  simp only [primary, yields_bind]
  refine (takes_atom inner).yields behind fun base tokens s derived behind => ?_
  let found (base : Node) (left : Stream) : Prop := ∃ more,
    Derives (.expression .primary base.bare) more ∧ text.Behind (taken ++ more) left
  refine yields_iterate found ⟨tokens, derived, behind⟩ ?_
  rintro base s ⟨more, derived, behind⟩
  simp only [yields_bind, yields_kind, yields_ite, yields_pure]
  refine ⟨fun _ => ?_, fun _ => ⟨more, derived, behind⟩⟩
  refine yields_trailer_behind inner behind fun t tokens left trails behind => ?_
  exact ⟨more ++ tokens, trails base more derived, by simpa using behind⟩

/-! ### Operators -/

/-- What an expression of a level takes. -/
abbrev Expresses (text : Sentence) (p : Parser Node) (level : Level) : Prop :=
  Takes text p fun n more => Derives (.expression level n.bare) more

omit inner in
theorem Expresses.loosened {p : Parser Node} {level tight : Level}
    (expresses : Expresses text p tight) (tighter : level.tighter? = some tight) :
    Expresses text p level :=
  fun taken s behind => (expresses taken s behind).mono fun _ _ ⟨more, derived, after⟩ =>
    ⟨more, .tighter tighter derived, after⟩

theorem expresses_powerOf {exponent : Parser Node} (right : Expresses text exponent .sign) :
    Expresses text (powerOf nested exponent) .power := by
  intro taken s behind
  simp only [powerOf, yields_bind, yields_kind, yields_ite, yields_pure]
  refine (takes_primary inner).yields behind fun base tokens s ofBase behind => ?_
  refine ⟨fun _ => ⟨tokens, .tighter rfl ofBase, behind⟩, fun isPower => ?_⟩
  have isPower : s.next.kind = .power := by simpa using isPower
  let mark := s.next
  refine yields_advance_behind behind (by simp [isPower]) fun s behind => ?_
  refine right.yields behind fun exponent more s ofExponent behind => ?_
  have areMarks : [mark].map (·.kind) = InfixOp.kinds .power := by
    simp [mark, isPower, InfixOp.kinds, InfixOp.kind]
  exact ⟨tokens ++ [mark] ++ more, .binary areMarks ofBase ofExponent, by simpa using behind⟩

omit inner in
theorem PrefixOp.of_sign? {k : Kind} {op : PrefixOp} (found : PrefixOp.sign? k = some op) :
    k = op.kind ∧ op.level = .sign := by
  cases k <;> cases found <;> exact ⟨rfl, rfl⟩

theorem expresses_signWithin (budget : List Token) :
    Expresses text (signWithin nested budget) .sign := by
  induction budget with
  | nil => exact fun _ _ _ => yields_throw.mpr trivial
  | cons _ budget ih =>
    intro taken s behind
    simp only [signWithin, yields_bind, yields_kind]
    split
    case h_1 op found =>
      obtain ⟨isMark, isSign⟩ := PrefixOp.of_sign? found
      have inside : s.next.kind ≠ .eof := by
        rintro eof
        simp [eof, PrefixOp.sign?] at found
      simp only [yields_bind]
      refine yields_take_behind behind inside fun left behind => ?_
      refine ih.yields behind fun operand tokens left derived behind => ?_
      refine yields_pure.mpr ⟨s.next :: tokens, ?_, by simpa using behind⟩
      rw [← isSign] at derived ⊢
      exact .unary isMark derived
    case h_2 =>
      exact (expresses_powerOf inner ih).loosened rfl taken s behind

theorem expresses_sign : Expresses text (sign nested) .sign := by
  intro taken s behind
  simp only [sign, yields_bind, yields_get]
  exact expresses_signWithin inner _ taken s behind

omit inner in
theorem expresses_chain {level tight : Level} {operand : Parser Node}
    (chains : level.associatesLeft) (tighter : level.tighter? = some tight)
    (operands : Expresses text operand tight) : Expresses text (chain level operand) level := by
  intro taken s behind
  simp only [chain, yields_bind]
  refine operands.yields behind fun left tokens s derived behind => ?_
  let found (left : Node) (s : Stream) : Prop := ∃ more,
    Derives (.expression level left.bare) more ∧ text.Behind (taken ++ more) s
  refine yields_iterate found ⟨tokens, .tighter tighter derived, behind⟩ ?_
  rintro left s ⟨more, ofLeft, behind⟩
  simp only [yields_bind, yields_kind]
  split
  case h_1 op known =>
    obtain ⟨rfl, isMark⟩ := InfixOp.eq_of_at? known
    obtain ⟨isLeft, isRight, kinds⟩ := InfixOp.operands_of_associatesLeft chains
    obtain rfl := Option.some.inj (tighter.symm.trans isRight)
    have inside : s.next.kind ≠ .eof := by
      rw [← isMark]
      cases op <;> decide
    let mark := s.next
    simp only [yields_bind]
    refine yields_advance_behind behind inside fun s behind => ?_
    refine operands.yields behind fun right tokens s ofRight behind => ?_
    refine yields_pure.mpr ⟨more ++ [mark] ++ tokens, ?_, by simpa using behind⟩
    exact .binary (by simp [mark, kinds, isMark]) (isLeft ▸ ofLeft) ofRight
  case h_2 => exact yields_pure.mpr ⟨more, ofLeft, behind⟩

theorem expresses_product : Expresses text (product nested) .product :=
  expresses_chain rfl rfl (expresses_sign inner)

theorem expresses_sum : Expresses text (sum nested) .sum :=
  expresses_chain rfl rfl (expresses_product inner)

theorem expresses_shift : Expresses text (shift nested) .shift :=
  expresses_chain rfl rfl (expresses_sum inner)

theorem expresses_bitAnd : Expresses text (bitAnd nested) .bitAnd :=
  expresses_chain rfl rfl (expresses_shift inner)

theorem expresses_bitXor : Expresses text (bitXor nested) .bitXor :=
  expresses_chain rfl rfl (expresses_bitAnd inner)

theorem expresses_bitOr : Expresses text (bitOr nested) .bitOr :=
  expresses_chain rfl rfl (expresses_bitXor inner)

omit inner in
/-- A token that starts a comparison is an operator, unless it may have another token behind it. -/
theorem exists_of_startsComparison {k : Kind} (starts : startsComparison k) (notIs : k ≠ .is)
    (notNot : k ≠ .not) :
    ∃ op : InfixOp, op.kind = k ∧ op.level = .comparison ∧ op.kinds = [op.kind] := by
  cases k <;> try contradiction
  case lessThan => exact ⟨.less, rfl, rfl, rfl⟩
  case lessThanOrEqual => exact ⟨.lessEqual, rfl, rfl, rfl⟩
  case greaterThan => exact ⟨.greater, rfl, rfl, rfl⟩
  case greaterThanOrEqual => exact ⟨.greaterEqual, rfl, rfl, rfl⟩
  case equal => exact ⟨.equal, rfl, rfl, rfl⟩
  case unequal => exact ⟨.unequal, rfl, rfl, rfl⟩
  case altUnequal => exact ⟨.altUnequal, rfl, rfl, rfl⟩
  case «in» => exact ⟨.isIn, rfl, rfl, rfl⟩

omit inner in
/-- The tokens of a comparison operator. -/
theorem yields_comparisonKind {post : Kind → Stream → Prop} (behind : text.Behind taken s)
    (starts : startsComparison s.next.kind)
    (next : ∀ (op : InfixOp) (marks : List Token) (left : Stream), op.level = .comparison →
      marks.map (·.kind) = op.kinds → text.Behind (taken ++ marks) left → post op.kind left) :
    Yields s comparisonKind post := by
  have inside : s.next.kind ≠ .eof := by
    rintro eof
    simp [startsComparison, eof] at starts
  let mark := s.next
  simp only [comparisonKind, yields_bind]
  refine yields_take_behind behind inside fun left behind => ?_
  split
  case h_1 isMark =>
    simp only [yields_bind, yields_kind, yields_ite, yields_pure]
    refine ⟨fun isNot => ?_, fun _ => ?_⟩
    · let second := left.next
      refine yields_advance_behind behind (by simp [isNot]) fun left behind => ?_
      exact next .isNot [mark, second] left rfl (by simp [mark, second, isMark, isNot, InfixOp.kinds])
        (by simpa using behind)
    · exact next .is [mark] left rfl (by simp [mark, isMark, InfixOp.kinds, InfixOp.kind]) behind
  case h_2 isMark =>
    simp only [yields_bind]
    refine yields_expect_behind behind (by decide) fun second left isIn behind => ?_
    exact yields_pure.mpr (next .notIn [mark, second] left rfl
      (by simp [mark, isMark, isIn, InfixOp.kinds]) (by simpa using behind))
  case h_3 notIs notNot =>
    obtain ⟨op, isMark, isComparison, kinds⟩ := exists_of_startsComparison starts notIs notNot
    rw [← isMark]
    exact yields_pure.mpr (next op [mark] left isComparison (by simp [mark, isMark, kinds]) behind)

theorem expresses_comparison : Expresses text (comparison nested) .comparison := by
  intro taken s behind
  simp only [comparison, yields_bind, yields_kind, yields_ite, yields_pure]
  refine (expresses_bitOr inner).yields behind fun left tokens s ofLeft behind => ?_
  refine ⟨fun _ => ⟨tokens, .tighter rfl ofLeft, behind⟩, fun starts => ?_⟩
  refine yields_comparisonKind behind (by simpa using starts)
    fun op marks s isComparison areMarks behind => ?_
  rw [InfixOp.ofKind?_kind]
  simp only [yields_bind]
  refine (expresses_bitOr inner).yields behind fun right more s ofRight behind => ?_
  refine yields_pure.mpr ⟨tokens ++ marks ++ more, ?_, by simpa using behind⟩
  have isLeft : op.left = .bitOr := by rw [InfixOp.left, isComparison]
  have isRight : op.right = .bitOr := by rw [InfixOp.right, isComparison]
  rw [← isComparison]
  exact .binary areMarks (isLeft ▸ ofLeft) (isRight ▸ ofRight)

theorem expresses_negationWithin (budget : List Token) :
    Expresses text (negationWithin nested budget) .negation := by
  induction budget with
  | nil => exact fun _ _ _ => yields_throw.mpr trivial
  | cons _ budget ih =>
    intro taken s behind
    simp only [negationWithin, yields_bind, yields_kind, yields_ite]
    refine ⟨fun _ => (expresses_comparison inner).loosened rfl taken s behind, fun isMark => ?_⟩
    have isMark : s.next.kind = PrefixOp.kind .not := not_not.mp isMark
    refine yields_take_behind behind (by rw [isMark]; decide) fun left behind => ?_
    refine ih.yields behind fun operand tokens left derived behind => ?_
    exact yields_pure.mpr ⟨s.next :: tokens, .unary isMark derived,
      by simpa using behind⟩

theorem expresses_negation : Expresses text (negation nested) .negation := by
  intro taken s behind
  simp only [negation, yields_bind, yields_get]
  exact expresses_negationWithin inner _ taken s behind

theorem expresses_conjunction : Expresses text (conjunction nested) .conjunction :=
  expresses_chain rfl rfl (expresses_negation inner)

theorem expresses_ofLevel (level : Level) : Expresses text (ofLevel nested level) level := by
  cases level with
  | disjunction => exact expresses_chain rfl rfl (expresses_conjunction inner)
  | conjunction => exact expresses_conjunction inner
  | negation => exact expresses_negation inner
  | comparison => exact expresses_comparison inner
  | bitOr => exact expresses_bitOr inner
  | bitXor => exact expresses_bitXor inner
  | bitAnd => exact expresses_bitAnd inner
  | shift => exact expresses_shift inner
  | sum => exact expresses_sum inner
  | product => exact expresses_product inner
  | sign => exact expresses_sign inner
  | power => exact expresses_powerOf inner (expresses_sign inner)
  | primary => exact takes_primary inner

omit inner

theorem expresses_nest (depth : Nat) (level : Level) : Expresses text (nest depth level) level := by
  induction depth generalizing level with
  | zero => exact fun _ _ _ => yields_throw.mpr trivial
  | succ depth ih => exact expresses_ofLevel ih level

/-! ### Documents -/

theorem takes_container (inner : ∀ level, Expresses text (nested level) level) :
    Takes text (container nested) fun n more => Layout n.bare more := by
  intro taken s behind
  simp only [container, yields_bind]
  refine yields_skipNewlines behind fun before s lead behind => ?_
  have ends {root : Node} {tokens : List Token} {s : Stream} (isRoot : Root root.bare tokens)
      (behind : text.Behind (taken ++ before ++ tokens) s) :
      Yields s skipNewlines fun _ left => ∃ more, Layout root.bare more ∧
        text.Behind (taken ++ more) left :=
    yields_skipNewlines behind fun last left trail behind =>
      ⟨before ++ tokens ++ last, ⟨before, tokens, last, lead, trail, isRoot, rfl⟩,
        by simpa using behind⟩
  simp only [yields_ite, yields_bind, yields_pure, yields_fail]
  refine ⟨fun _ => ?_, fun _ => ⟨fun _ => ?_, fun _ => ⟨fun _ => ?_, fun _ => trivial⟩⟩⟩
  · exact (takes_mapping inner).yields behind fun _ _ _ derived behind =>
      ends (.enclosed derived) behind
  · exact (takes_list inner).yields behind fun _ _ _ derived behind =>
      ends (.enclosed derived) behind
  · refine (takes_mappingBody inner).yields behind fun found tokens s body behind => ?_
    obtain ⟨entries, span⟩ := found
    have isRoot : Root (Node.mapping entries span).bare tokens := by
      rw [Node.bare, Node.entriesBare_eq]
      exact .entries body
    exact ends isRoot behind

end Parser

end LazyConfig.Syntax
