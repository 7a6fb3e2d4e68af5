import LazyConfig.Proofs.Syntax.TokenOrder
import LazyConfig.Syntax.Parser

/-!
# What parsers end with

Two statements about the run of a parser, with one rule for each way to put parsers together. A
parser yields something if that holds whenever it does not fail. It ends in something if, besides,
all its errors are of a given sort. Both go through a parser step by step; only the second one needs
that a loop takes a token in each turn, so that it never comes to the end of its budget.
-/

namespace LazyConfig

namespace Token.Stream

/-- How many tokens can be taken before an end token is at hand. -/
def size (s : Stream) : Nat := if s.next.kind = .eof then 0 else s.toList.length

theorem size_le (s : Stream) : s.size ≤ s.toList.length := by
  unfold size
  split
  · exact Nat.zero_le _
  · exact le_rfl

end Token.Stream

namespace Syntax.Parser

open Token (Stream Kind)

variable {α β σ : Type}

/-- What holds of the result of a parser and of the stream that it leaves, if it does not fail. -/
def Yields (s : Stream) (p : Parser α) (post : α → Stream → Prop) : Prop :=
  ∀ a left, p.run s = (.ok a, left) → post a left

theorem Yields.mono {s : Stream} {p : Parser α} {post weaker : α → Stream → Prop}
    (yields : Yields s p post) (weaken : ∀ a left, post a left → weaker a left) :
    Yields s p weaker :=
  fun a left ran => weaken a left (yields a left ran)

@[simp] theorem yields_pure {s : Stream} {a : α} {post : α → Stream → Prop} :
    Yields s (pure a) post ↔ post a s := by
  constructor
  · exact fun yields => yields a s rfl
  · rintro holds b left ran
    cases ran
    exact holds

@[simp] theorem yields_throw {s : Stream} {e : Error} {post : α → Stream → Prop} :
    Yields s (throw e) post ↔ True :=
  iff_true_intro fun _ _ ran => by cases ran

theorem run_bind (p : Parser α) (f : α → Parser β) (s : Stream) :
    (p >>= f).run s =
      match p.run s with
      | (.ok a, left) => (f a).run left
      | (.error e, left) => (.error e, left) := by
  change StateT.run (ExceptT.run (p >>= f)) s = _
  rw [ExceptT.run_bind, StateT.run_bind]
  rcases ran : p.run s with ⟨_ | a, left⟩ <;>
    rw [show StateT.run (ExceptT.run p) s = _ from ran] <;> rfl

@[simp] theorem yields_bind {s : Stream} {p : Parser α} {f : α → Parser β}
    {post : β → Stream → Prop} :
    Yields s (p >>= f) post ↔ Yields s p fun a left => Yields left (f a) post := by
  constructor
  · intro yields a left ran b behind next
    refine yields b behind ?_
    rw [run_bind, ran]
    exact next
  · intro yields b behind ran
    rw [run_bind] at ran
    rcases first : p.run s with ⟨_ | a, left⟩
    · rw [first] at ran
      cases ran
    · rw [first] at ran
      exact yields a left first b behind ran

@[simp] theorem yields_map {s : Stream} {p : Parser α} {f : α → β} {post : β → Stream → Prop} :
    Yields s (f <$> p) post ↔ Yields s p fun a left => post (f a) left := by
  rw [← bind_pure_comp, yields_bind]
  simp only [yields_pure]

@[simp] theorem yields_ite {s : Stream} {c : Prop} [Decidable c] {p q : Parser α}
    {post : α → Stream → Prop} :
    Yields s (if c then p else q) post ↔ (c → Yields s p post) ∧ (¬c → Yields s q post) := by
  by_cases holds : c <;> simp [holds]

@[simp] theorem yields_get {s : Stream} {post : Stream → Stream → Prop} :
    Yields s get post ↔ post s s :=
  ⟨fun yields => yields s s rfl, by rintro holds b left ran; cases ran; exact holds⟩

@[simp] theorem yields_peek {s : Stream} {post : Token → Stream → Prop} :
    Yields s peek post ↔ post s.next s := by
  simp [peek]

@[simp] theorem yields_kind {s : Stream} {post : Kind → Stream → Prop} :
    Yields s kind post ↔ post s.next.kind s := by
  simp [kind]

@[simp] theorem yields_fail {s : Stream} {fault : Fault} {post : α → Stream → Prop} :
    Yields s (fail fault) post ↔ True := by
  simp [fail]

theorem yields_advance {s : Stream} {post : Kind → Stream → Prop} :
    Yields s advance post ↔ ∀ next, s.advance = .ok next → post next.next.kind next := by
  unfold advance
  rw [yields_bind, yields_get]
  cases advanced : s.advance with
  | error e => simp
  | ok next =>
    constructor
    · rintro yields _ ⟨⟩
      exact yields _ _ rfl
    · rintro holds _ _ ⟨⟩
      exact holds next rfl

theorem yields_take {s : Stream} {post : Token → Stream → Prop} :
    Yields s take post ↔ ∀ next, s.advance = .ok next → post s.next next := by
  simp [take, yields_advance]

theorem yields_expect {s : Stream} {wanted : Kind} {post : Token → Stream → Prop} :
    Yields s (expect wanted) post ↔
      s.next.kind = wanted → ∀ next, s.advance = .ok next → post s.next next := by
  simp [expect, yields_take]

/-- What each turn of a loop preserves holds at its end. -/
theorem yields_iterate {s : Stream} {step : σ → Parser (σ ⊕ α)} {init : σ}
    {q : α → Stream → Prop} (invariant : σ → Stream → Prop) (initially : invariant init s)
    (turn : ∀ state s, invariant state s → Yields s (step state) fun result left =>
      result.elim (invariant · left) (q · left)) :
    Yields s (iterate step init) q := by
  unfold iterate
  rw [yields_bind, yields_get]
  generalize s.toList = budget
  induction budget generalizing init s with
  | nil =>
    unfold iterateWithin
    rw [yields_bind]
    refine (turn init s initially).mono fun result left holds => ?_
    cases result with
    | inl state => exact yields_throw.mpr trivial
    | inr a => exact yields_pure.mpr holds
  | cons _ budget ih =>
    unfold iterateWithin
    rw [yields_bind]
    refine (turn init s initially).mono fun result left holds => ?_
    cases result with
    | inl state => exact ih holds
    | inr a => exact yields_pure.mpr holds

/-! ### Every end of a run -/

/-- The parser yields what is said of its result and of what it leaves, or it fails with an error of
the given sort. -/
def Ends (blame : Error → Prop) (s : Stream) (p : Parser α) (post : α → Stream → Prop) : Prop :=
  match p.run s with
  | (.ok a, left) => post a left
  | (.error e, _) => blame e

section Ends

variable {blame : Error → Prop} {s : Stream} {p q : Parser α} {post : α → Stream → Prop}

theorem Ends.yields (ends : Ends blame s p post) : Yields s p post := by
  intro a left ran
  rw [Ends, ran] at ends
  exact ends

theorem Ends.mono (ends : Ends blame s p post) {weaker : α → Stream → Prop}
    (weaken : ∀ a left, post a left → weaker a left) : Ends blame s p weaker := by
  unfold Ends at ends ⊢
  split at ends
  · exact weaken _ _ ends
  · exact ends

@[simp] theorem ends_pure {a : α} : Ends blame s (pure a) post ↔ post a s := Iff.rfl

@[simp] theorem ends_throw {e : Error} : Ends blame s (throw e) post ↔ blame e := Iff.rfl

@[simp] theorem ends_bind {f : α → Parser β} {post : β → Stream → Prop} :
    Ends blame s (p >>= f) post ↔ Ends blame s p fun a left => Ends blame left (f a) post := by
  unfold Ends
  rw [run_bind]
  rcases p.run s with ⟨_ | a, left⟩ <;> rfl

@[simp] theorem ends_map {f : α → β} {post : β → Stream → Prop} :
    Ends blame s (f <$> p) post ↔ Ends blame s p fun a left => post (f a) left := by
  rw [← bind_pure_comp, ends_bind]
  simp only [ends_pure]

@[simp] theorem ends_ite {c : Prop} [Decidable c] :
    Ends blame s (if c then p else q) post ↔
      (c → Ends blame s p post) ∧ (¬c → Ends blame s q post) := by
  by_cases holds : c <;> simp [holds]

@[simp] theorem ends_get {post : Stream → Stream → Prop} :
    Ends blame s get post ↔ post s s := Iff.rfl

@[simp] theorem ends_peek {post : Token → Stream → Prop} :
    Ends blame s peek post ↔ post s.next s := Iff.rfl

@[simp] theorem ends_kind {post : Kind → Stream → Prop} :
    Ends blame s kind post ↔ post s.next.kind s := Iff.rfl

@[simp] theorem ends_fail {fault : Fault} :
    Ends blame s (fail fault : Parser α) post ↔ blame (.grammar fault s.next.span.start) := Iff.rfl

theorem ends_advance {post : Kind → Stream → Prop}
    (refused : ∀ e, s.advance = .error e → blame (.token e))
    (goesOn : ∀ next, s.advance = .ok next → post next.next.kind next) :
    Ends blame s advance post := by
  unfold advance
  rw [ends_bind, ends_get]
  cases advanced : s.advance with
  | error e => exact refused e advanced
  | ok next => exact goesOn next advanced

/-- What each turn of a loop preserves holds at its end. Every turn that asks for another one has to
take a token, and so the budget is enough. -/
theorem ends_iterate {step : σ → Parser (σ ⊕ α)} {init : σ} (invariant : σ → Stream → Prop)
    (initially : invariant init s)
    (turn : ∀ state s, invariant state s → Ends blame s (step state) fun result left =>
      result.elim (fun state => left.size < s.size ∧ invariant state left) (post · left)) :
    Ends blame s (iterate step init) post := by
  unfold iterate
  rw [ends_bind, ends_get]
  have enough : s.size ≤ s.toList.length := s.size_le
  generalize s.toList = budget at enough
  induction budget generalizing init s with
  | nil =>
    unfold iterateWithin
    rw [ends_bind]
    refine (turn init s initially).mono fun result left holds => ?_
    cases result with
    | inl state => exact absurd (holds.1.trans_le enough) (Nat.not_lt_zero _)
    | inr a => exact ends_pure.mpr holds
  | cons _ budget ih =>
    unfold iterateWithin
    rw [ends_bind]
    refine (turn init s initially).mono fun result left holds => ?_
    cases result with
    | inl state => exact ih holds.2 (Nat.le_of_lt_succ (holds.1.trans_le enough))
    | inr a => exact ends_pure.mpr holds

/-- A loop of which more is known at its end than is asked for behind it. -/
theorem ends_loop {step : σ → Parser (σ ⊕ α)} {init : σ} (invariant : σ → Stream → Prop)
    (found : α → Stream → Prop) (initially : invariant init s)
    (turn : ∀ state s, invariant state s → Ends blame s (step state) fun result left =>
      result.elim (fun state => left.size < s.size ∧ invariant state left) (found · left))
    (next : ∀ a left, found a left → post a left) : Ends blame s (iterate step init) post :=
  (ends_iterate invariant initially turn).mono next

end Ends

end Syntax.Parser

end LazyConfig
