import LazyConfig.Proofs.Syntax.Outcome

/-!
# Texts that an error ends

The stream of a text with a lexical error has no end token: an error stands in its place. No parser
comes to an end token in such a stream, because all that parsers do is to go on in it.
-/

namespace LazyConfig

namespace Token.Stream

/-- A stream without an end token: an error ends it. -/
structure Broken (s : Stream) : Prop where
  inner : ∀ t ∈ s.toList, t.kind ≠ .eof
  ending : ∃ e, s.ending = .error e

theorem Broken.advance {s next : Stream} (broken : s.Broken) (advanced : s.advance = .ok next) :
    next.Broken := by
  obtain ⟨first, rest, ending⟩ := s
  obtain ⟨e, rfl⟩ := broken.ending
  cases rest with
  | nil => cases advanced
  | cons token rest =>
    cases advanced
    exact ⟨fun t among => broken.inner t (List.mem_cons_of_mem first among), e, rfl⟩

end Token.Stream

namespace Syntax

open Token (Stream Kind)

namespace Parser

variable {α β σ : Type} {p : Parser α} {f : α → Parser β}

/-- What a parser leaves of a stream without an end token has none, either. -/
def Keeps (p : Parser α) : Prop := ∀ s, s.Broken → Yields s p fun _ left => left.Broken

theorem keeps_pure (a : α) : Keeps (pure a) := fun _ broken => yields_pure.mpr broken

theorem keeps_throw (e : Error) : Keeps (throw e : Parser α) :=
  fun _ _ => yields_throw.mpr trivial

theorem keeps_fail (fault : Fault) : Keeps (fail fault : Parser α) :=
  fun _ _ => yields_fail.mpr trivial

theorem keeps_bind (first : Keeps p) (next : ∀ a, Keeps (f a)) : Keeps (p >>= f) :=
  fun s broken => yields_bind.mpr ((first s broken).mono fun a left => next a left)

theorem keeps_map {g : α → β} (inner : Keeps p) : Keeps (g <$> p) :=
  fun s broken => yields_map.mpr (inner s broken)

theorem keeps_ite {c : Prop} [Decidable c] {q : Parser α} (holds : Keeps p)
    (fails : Keeps q) : Keeps (if c then p else q) := by
  split
  · exact holds
  · exact fails

theorem keeps_get : Keeps get := fun _ broken => yields_get.mpr broken

theorem keeps_peek : Keeps peek := fun _ broken => yields_peek.mpr broken

theorem keeps_kind : Keeps kind := fun _ broken => yields_kind.mpr broken

theorem keeps_advance : Keeps advance :=
  fun _ broken => yields_advance.mpr fun _ advanced => broken.advance advanced

theorem keeps_take : Keeps take :=
  fun _ broken => yields_take.mpr fun _ advanced => broken.advance advanced

theorem keeps_expect (wanted : Kind) : Keeps (expect wanted) :=
  fun _ broken => yields_expect.mpr fun _ _ advanced => broken.advance advanced

theorem keeps_iterate {step : σ → Parser (σ ⊕ α)} (turn : ∀ state, Keeps (step state))
    (init : σ) : Keeps (iterate step init) :=
  fun _ broken => yields_iterate (fun _ s => s.Broken) broken fun state s now =>
    (turn state s now).mono fun result _ after => by cases result <;> exact after

/-- A decision on the token at hand leaves the stream where it is. -/
theorem keeps_kind_bind {next : Kind → Parser α} (inner : ∀ found, Keeps (next found)) :
    Keeps (kind >>= next) :=
  keeps_bind keeps_kind inner

theorem keeps_advance_bind {next : Kind → Parser α} (inner : ∀ found, Keeps (next found)) :
    Keeps (advance >>= next) :=
  keeps_bind keeps_advance inner

theorem keeps_expect_bind {wanted : Kind} {next : Token → Parser α}
    (inner : ∀ found, Keeps (next found)) : Keeps (expect wanted >>= next) :=
  keeps_bind (keeps_expect wanted) inner

theorem keeps_skipNewlines : Keeps skipNewlines :=
  keeps_iterate (fun _ => keeps_kind_bind fun _ =>
    keeps_ite (keeps_advance_bind fun _ => keeps_pure _) (keeps_pure _)) ()

theorem keeps_strings : Keeps strings := by
  refine keeps_bind keeps_take fun first => keeps_bind (keeps_iterate (fun others => ?_) []) ?_
  · exact keeps_kind_bind fun _ => keeps_ite (keeps_bind keeps_take fun _ => keeps_pure _) (keeps_pure _)
  · intro others
    split
    · exact keeps_pure _
    · exact keeps_throw _

theorem keeps_value : Keeps value :=
  keeps_kind_bind fun _ => keeps_ite (keeps_fail _) (keeps_ite keeps_strings keeps_take)

section Rules

variable {nested : Nested} (inner : ∀ level, Keeps (nested level))

include inner

theorem keeps_listBody : Keeps (listBody nested) := by
  refine keeps_bind keeps_skipNewlines fun _ => keeps_bind keeps_peek fun _ => ?_
  refine keeps_bind (keeps_iterate (fun done => keeps_kind_bind fun _ => ?_) []) fun _ => keeps_pure _
  refine keeps_ite (keeps_pure _) (keeps_bind (inner .disjunction) fun _ => keeps_kind_bind fun _ => ?_)
  refine keeps_ite (keeps_pure _) (keeps_advance_bind fun _ => ?_)
  exact keeps_bind keeps_skipNewlines fun _ => keeps_pure _

theorem keeps_list : Keeps (list nested) :=
  keeps_expect_bind fun _ => keeps_bind (keeps_listBody inner) fun _ =>
    keeps_expect_bind fun _ => keeps_pure _

theorem keeps_entry : Keeps (entry nested) := by
  have key : Keeps mappingKey := keeps_kind_bind fun _ => keeps_ite keeps_strings keeps_take
  have rest (found : Token) : Keeps (do
      let _ ← advance
      let _ ← skipNewlines
      return (found, ← nested .disjunction)) :=
    keeps_advance_bind fun _ => keeps_bind keeps_skipNewlines fun _ =>
      keeps_bind (inner .disjunction) fun _ => keeps_pure _
  refine keeps_bind key fun found => keeps_kind_bind fun _ => ?_
  exact keeps_ite (keeps_bind (keeps_fail _) fun _ => rest found) (rest found)

theorem keeps_mappingBody : Keeps (mappingBody nested) := by
  refine keeps_bind keeps_skipNewlines fun _ => keeps_bind keeps_peek fun first => ?_
  have rest : Keeps (do
      let entries ← iterate (fun (done : List (Token × Node)) => do
        if !startsKey (← kind) then return .inr done
        let done := (← entry nested) :: done
        let found ← kind
        if isSeparator found then
          let _ ← advance
          let _ ← skipNewlines
          return .inl done
        else if endsBody found then return .inr done
        else fail (.afterEntry found)) []
      let stop := (entries.head?.map (·.2.stop)).getD first.span.start
      return (entries.reverse, { first.span with stop })) := by
    refine keeps_bind (keeps_iterate (fun done => keeps_kind_bind fun _ => ?_) []) fun _ => keeps_pure _
    refine keeps_ite (keeps_pure _) (keeps_bind (keeps_entry inner) fun _ => keeps_kind_bind fun _ => ?_)
    refine keeps_ite (keeps_advance_bind fun _ => ?_) (keeps_ite (keeps_pure _) (keeps_fail _))
    exact keeps_bind keeps_skipNewlines fun _ => keeps_pure _
  exact keeps_ite (keeps_bind (keeps_fail _) fun _ => rest) rest

theorem keeps_mapping : Keeps (mapping nested) :=
  keeps_expect_bind fun _ => keeps_bind (keeps_mappingBody inner) fun _ =>
    keeps_expect_bind fun _ => keeps_pure _

theorem keeps_atom : Keeps (atom nested) := by
  refine keeps_kind_bind fun found => ?_
  split
  · exact keeps_mapping inner
  · exact keeps_list inner
  · exact keeps_bind keeps_take fun _ => keeps_expect_bind fun _ =>
      keeps_bind (inner .primary) fun _ => keeps_expect_bind fun _ => keeps_pure _
  · exact keeps_advance_bind fun _ => keeps_bind (inner .disjunction) fun _ =>
      keeps_expect_bind fun _ => keeps_pure _
  · exact keeps_ite (keeps_bind keeps_value fun _ => keeps_pure _) (keeps_fail _)

theorem keeps_sliceElement : Keeps (sliceElement nested) := by
  refine keeps_bind (keeps_listBody inner) fun (elements, span) => ?_
  dsimp only
  split
  · exact keeps_pure _
  · exact keeps_throw _

theorem keeps_sliceRest (opening : Token) (start : Option Node) :
    Keeps (sliceRest nested opening start) := by
  have step : Keeps (sliceStep nested) :=
    keeps_kind_bind fun _ => keeps_ite (keeps_pure _) (keeps_advance_bind fun _ =>
      keeps_ite (keeps_pure _) (keeps_bind (keeps_sliceElement inner) fun _ => keeps_pure _))
  have rest (stop : Option Node) : Keeps (do
      let step ← sliceStep nested
      let closing ← expect .rightBracket
      return Trailer.slice ⟨start, stop, step, { opening.span with stop := closing.span.stop }⟩) :=
    keeps_bind step fun _ => keeps_expect_bind fun _ => keeps_pure _
  refine keeps_advance_bind fun _ => keeps_ite ?_ ?_
  · exact keeps_bind (keeps_pure _) rest
  · exact keeps_bind (keeps_map (keeps_sliceElement inner)) rest

theorem keeps_trailer : Keeps (trailer nested) := by
  refine keeps_kind_bind fun _ => keeps_ite ?_ ?_
  · exact keeps_expect_bind fun _ => keeps_expect_bind fun _ => keeps_pure _
  · refine keeps_bind keeps_take fun opening => keeps_kind_bind fun _ => keeps_ite ?_ ?_
    · exact keeps_sliceRest inner opening none
    · refine keeps_bind (keeps_sliceElement inner) fun element => keeps_kind_bind fun _ => ?_
      exact keeps_ite (keeps_sliceRest inner opening (some element))
        (keeps_expect_bind fun _ => keeps_pure _)

theorem keeps_primary : Keeps (primary nested) := by
  refine keeps_bind (keeps_atom inner) fun first => keeps_iterate (fun base => ?_) first
  exact keeps_kind_bind fun _ =>
    keeps_ite (keeps_bind (keeps_trailer inner) fun _ => keeps_pure _) (keeps_pure _)

theorem keeps_powerOf {exponent : Parser Node} (right : Keeps exponent) :
    Keeps (powerOf nested exponent) := by
  refine keeps_bind (keeps_primary inner) fun _ => keeps_kind_bind fun _ => keeps_ite (keeps_pure _) ?_
  exact keeps_advance_bind fun _ => keeps_bind right fun _ => keeps_pure _

theorem keeps_signWithin (budget : List Token) : Keeps (signWithin nested budget) := by
  induction budget with
  | nil => exact keeps_throw _
  | cons _ budget ih =>
    refine keeps_kind_bind fun found => ?_
    split
    · exact keeps_bind keeps_take fun _ => keeps_bind ih fun _ => keeps_pure _
    · exact keeps_powerOf inner ih

theorem keeps_sign : Keeps (sign nested) :=
  keeps_bind keeps_get fun _ => keeps_signWithin inner _

omit inner in
theorem keeps_chain (level : Level) {operand : Parser Node} (right : Keeps operand) :
    Keeps (chain level operand) := by
  refine keeps_bind right fun first => keeps_iterate (fun left => keeps_kind_bind fun _ => ?_) first
  split
  · exact keeps_advance_bind fun _ => keeps_bind right fun _ => keeps_pure _
  · exact keeps_pure _

theorem keeps_bitOr : Keeps (bitOr nested) := by
  have sums := keeps_chain .sum (keeps_chain .product (keeps_sign inner))
  exact keeps_chain _ (keeps_chain _ (keeps_chain _ (keeps_chain _ sums)))

omit inner in
theorem keeps_comparisonKind : Keeps comparisonKind := by
  refine keeps_bind keeps_take fun first => ?_
  split
  · exact keeps_kind_bind fun _ => keeps_ite (keeps_advance_bind fun _ => keeps_pure _) (keeps_pure _)
  · exact keeps_expect_bind fun _ => keeps_pure _
  · exact keeps_pure _

theorem keeps_comparison : Keeps (comparison nested) := by
  refine keeps_bind (keeps_bitOr inner) fun left => keeps_kind_bind fun _ => ?_
  refine keeps_ite (keeps_pure left) (keeps_bind keeps_comparisonKind fun found => ?_)
  split
  · exact keeps_bind (keeps_bitOr inner) fun _ => keeps_pure _
  · exact keeps_fail _

theorem keeps_negationWithin (budget : List Token) : Keeps (negationWithin nested budget) := by
  induction budget with
  | nil => exact keeps_throw _
  | cons _ budget ih =>
    refine keeps_kind_bind fun _ => keeps_ite (keeps_comparison inner) ?_
    exact keeps_bind keeps_take fun _ => keeps_bind ih fun _ => keeps_pure _

theorem keeps_negation : Keeps (negation nested) :=
  keeps_bind keeps_get fun _ => keeps_negationWithin inner _

theorem keeps_conjunction : Keeps (conjunction nested) := keeps_chain _ (keeps_negation inner)

theorem keeps_ofLevel (level : Level) : Keeps (ofLevel nested level) := by
  have product := keeps_chain .product (keeps_sign inner)
  have shift := keeps_chain .shift (keeps_chain .sum product)
  have bitXor := keeps_chain .bitXor (keeps_chain .bitAnd shift)
  cases level with
  | disjunction => exact keeps_chain _ (keeps_conjunction inner)
  | conjunction => exact keeps_conjunction inner
  | negation => exact keeps_negation inner
  | comparison => exact keeps_comparison inner
  | bitOr => exact keeps_bitOr inner
  | bitXor => exact bitXor
  | bitAnd => exact keeps_chain _ shift
  | shift => exact shift
  | sum => exact keeps_chain _ product
  | product => exact product
  | sign => exact keeps_sign inner
  | power => exact keeps_powerOf inner (keeps_sign inner)
  | primary => exact keeps_primary inner

omit inner

theorem keeps_nest (depth : Nat) (level : Level) : Keeps (nest depth level) := by
  induction depth generalizing level with
  | zero => exact keeps_throw _
  | succ depth ih => exact keeps_ofLevel ih level

end Rules

end Parser

end Syntax

end LazyConfig
