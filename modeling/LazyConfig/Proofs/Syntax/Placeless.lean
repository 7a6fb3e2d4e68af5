import LazyConfig.Proofs.Syntax.Follow
import Mathlib.Data.List.Basic

/-!
# Derivations do not depend on places

Whether tokens make up a phrase depends on their kinds, texts and values. Other tokens that are the
same but for their places make up the same phrase.
-/

namespace LazyConfig

namespace Syntax

open Token (Kind bare_eq_iff)

variable {tokens others : List Token}

theorem map_kind_of_bare_eq (same : others.map Token.bare = tokens.map Token.bare) :
    others.map (·.kind) = tokens.map (·.kind) := by
  have kinds (tokens : List Token) : tokens.map (·.kind) = (tokens.map Token.bare).map (·.kind) := by
    rw [List.map_map]
    rfl
  rw [kinds others, same, ← kinds]

theorem forall_kind_of_bare_eq (holds : Kind → Prop)
    (same : others.map Token.bare = tokens.map Token.bare) (all : ∀ t ∈ tokens, holds t.kind) :
    ∀ t ∈ others, holds t.kind := by
  intro t among
  have isKind : t.kind ∈ tokens.map (·.kind) := by
    rw [← map_kind_of_bare_eq same]
    exact List.mem_map_of_mem among
  obtain ⟨u, among, sameKind⟩ := List.mem_map.mp isKind
  exact sameKind ▸ all u among

theorem headKind_of_bare_eq (same : others.map Token.bare = tokens.map Token.bare) :
    headKind others = headKind tokens := by
  have kinds := map_kind_of_bare_eq same
  cases others with
  | nil =>
    obtain rfl : tokens = [] := by simpa [eq_comm] using same
    rfl
  | cons first others =>
    obtain ⟨other, rest, rfl, sameFirst, -⟩ := List.map_eq_cons_iff.mp same.symm
    exact (bare_eq_iff.mp sameFirst).1.symm

theorem map_joinStrings? (first : Token) (others : List Token) :
    (joinStrings? first others).map Token.bare =
      (joinStrings? first.bare (others.map Token.bare)).map Token.bare := by
  unfold joinStrings?
  rw [List.getLast?_map]
  cases others.getLast? with
  | none => rfl
  | some last =>
    have values : (first.bare :: others.map Token.bare).mapM (·.value.text?) =
        (first :: others).mapM (·.value.text?) := by
      rw [← List.map_cons, List.mapM_map]
      rfl
    have texts : (first.bare :: others.map Token.bare).map (·.text) =
        (first :: others).map (·.text) := by
      rw [← List.map_cons, List.map_map]
      rfl
    simp only [Option.map_some, values, texts]
    cases (first :: others).mapM (·.value.text?) <;> rfl

theorem Strings.of_bare_eq {t : Token} (areStrings : Strings tokens t)
    (same : others.map Token.bare = tokens.map Token.bare) : Strings others t := by
  obtain ⟨all, join⟩ := areStrings
  rename_i first joined rest
  have allStrings := forall_kind_of_bare_eq (· = .string) same all
  obtain ⟨first', rest', rfl, sameFirst, sameRest⟩ := List.map_eq_cons_iff.mp same
  have joins := map_joinStrings? first' rest'
  rw [sameFirst, sameRest, ← map_joinStrings?, join] at joins
  obtain ⟨joined', join', isBare⟩ := Option.map_eq_some_iff.mp joins
  rw [← isBare]
  exact .joined allStrings join'

theorem Key.of_bare_eq {key : Token} (isKey : Key tokens key)
    (same : others.map Token.bare = tokens.map Token.bare) : Key others key := by
  cases isKey with
  | word isWord =>
    rename_i t
    obtain ⟨u, rfl, sameToken⟩ := List.map_eq_singleton_iff.mp same
    rw [← sameToken]
    exact .word ((bare_eq_iff.mp sameToken).1.trans isWord)
  | strings areStrings => exact .strings (areStrings.of_bare_eq same)

/-- Tokens between brackets, at any other places. -/
private theorem exists_bracketed {opening closing : Token} {inside : List Token}
    (same : others.map Token.bare = (opening :: inside ++ [closing]).map Token.bare) :
    ∃ opening' inside' closing', others = opening' :: inside' ++ [closing'] ∧
      opening'.kind = opening.kind ∧ closing'.kind = closing.kind ∧
      inside'.map Token.bare = inside.map Token.bare := by
  rw [List.map_append] at same
  obtain ⟨front, _, rfl, sameFront, sameLast⟩ := List.map_eq_append_iff.mp same
  obtain ⟨opening', inside', rfl, sameOpening, sameInside⟩ := List.map_eq_cons_iff.mp sameFront
  obtain ⟨closing', rfl, sameClosing⟩ := List.map_eq_singleton_iff.mp sameLast
  exact ⟨opening', inside', closing', rfl, (bare_eq_iff.mp sameOpening).1,
    (bare_eq_iff.mp sameClosing).1, sameInside⟩

/-- Which phrase tokens make up does not depend on where they stand. -/
theorem Derives.of_bare_eq {phrase : Phrase} (derived : Derives phrase tokens)
    (same : others.map Token.bare = tokens.map Token.bare) : Derives phrase others := by
  have lines {newlines before : List Token} (lead : AreNewlines newlines)
      (same : before.map Token.bare = newlines.map Token.bare) : AreNewlines before :=
    forall_kind_of_bare_eq (· = .newline) same lead
  have kind {t u : Token} {k : Kind} (same : t.bare = u.bare) (isKind : u.kind = k) : t.kind = k :=
    (bare_eq_iff.mp same).1.trans isKind
  induction derived generalizing others with
  | value isValue single =>
    obtain ⟨u, rfl, sameToken⟩ := List.map_eq_singleton_iff.mp same
    have sameKind := (bare_eq_iff.mp sameToken).1
    rw [← sameToken]
    exact .value (sameKind ▸ isValue) (sameKind ▸ single)
  | strings areStrings => exact .strings (areStrings.of_bare_eq same)
  | enclosed _ ih => exact .enclosed (ih same)
  | reference isSigil opens closes _ ih =>
    rw [List.map_append] at same
    obtain ⟨front, _, rfl, sameFront, sameLast⟩ := List.map_eq_append_iff.mp same
    obtain ⟨sigil', _, rfl, sameSigil, sameFront⟩ := List.map_eq_cons_iff.mp sameFront
    obtain ⟨opening', path, rfl, sameOpening, samePath⟩ := List.map_eq_cons_iff.mp sameFront
    obtain ⟨closing', rfl, sameClosing⟩ := List.map_eq_singleton_iff.mp sameLast
    exact .reference (kind sameSigil isSigil) (kind sameOpening opens) (kind sameClosing closes)
      (ih samePath)
  | parentheses opens closes _ ih =>
    obtain ⟨_, inside, _, rfl, sameOpening, sameClosing, sameInside⟩ := exists_bracketed same
    exact .parentheses (sameOpening.trans opens) (sameClosing.trans closes) (ih sameInside)
  | member _ isDot isWord ih =>
    rw [List.map_append] at same
    obtain ⟨base, _, rfl, sameBase, sameLast⟩ := List.map_eq_append_iff.mp same
    obtain ⟨dot', _, rfl, sameDot, sameLast⟩ := List.map_eq_cons_iff.mp sameLast
    obtain ⟨name', rfl, sameName⟩ := List.map_eq_singleton_iff.mp sameLast
    rw [← sameName]
    exact .member (ih sameBase) (kind sameDot isDot) (kind sameName isWord)
  | index _ opens closes _ ihBase ihOperand =>
    rw [List.map_append, List.map_append] at same
    obtain ⟨_, _, rfl, same, sameLast⟩ := List.map_eq_append_iff.mp same
    obtain ⟨base, _, rfl, sameBase, same⟩ := List.map_eq_append_iff.mp same
    obtain ⟨opening', inside, rfl, sameOpening, sameInside⟩ := List.map_eq_cons_iff.mp same
    obtain ⟨closing', rfl, sameClosing⟩ := List.map_eq_singleton_iff.mp sameLast
    exact .index (ihBase sameBase) (kind sameOpening opens) (kind sameClosing closes)
      (ihOperand sameInside)
  | slice _ opens isColon closes _ _ _ ihBase ihStart ihStop ihStep =>
    simp only [List.map_append] at same
    obtain ⟨_, _, rfl, same, sameLast⟩ := List.map_eq_append_iff.mp same
    obtain ⟨_, step, rfl, same, sameStep⟩ := List.map_eq_append_iff.mp same
    obtain ⟨_, _, rfl, same, sameBehind⟩ := List.map_eq_append_iff.mp same
    obtain ⟨base, _, rfl, sameBase, sameFront⟩ := List.map_eq_append_iff.mp same
    obtain ⟨opening', start, rfl, sameOpening, sameStart⟩ := List.map_eq_cons_iff.mp sameFront
    obtain ⟨colon', stop, rfl, sameColon, sameStop⟩ := List.map_eq_cons_iff.mp sameBehind
    obtain ⟨closing', rfl, sameClosing⟩ := List.map_eq_singleton_iff.mp sameLast
    exact .slice (ihBase sameBase) (kind sameOpening opens) (kind sameColon isColon)
      (kind sameClosing closes) (ihStart sameStart) (ihStop sameStop) (ihStep sameStep)
  | unary isMark _ ih =>
    obtain ⟨mark', operand, rfl, sameMark, sameOperand⟩ := List.map_eq_cons_iff.mp same
    exact .unary (kind sameMark isMark) (ih sameOperand)
  | binary areMarks _ _ ihLeft ihRight =>
    simp only [List.map_append] at same
    obtain ⟨_, right, rfl, same, sameRight⟩ := List.map_eq_append_iff.mp same
    obtain ⟨left, marks', rfl, sameLeft, sameMarks⟩ := List.map_eq_append_iff.mp same
    exact .binary ((map_kind_of_bare_eq sameMarks).trans areMarks) (ihLeft sameLeft)
      (ihRight sameRight)
  | tighter tighter _ ih => exact .tighter tighter (ih same)
  | list opens closes _ ih =>
    obtain ⟨_, inside, _, rfl, sameOpening, sameClosing, sameInside⟩ := exists_bracketed same
    exact .list (sameOpening.trans opens) (sameClosing.trans closes) (ih sameInside)
  | mapping opens closes _ ih =>
    obtain ⟨_, inside, _, rfl, sameOpening, sameClosing, sameInside⟩ := exists_bracketed same
    exact .mapping (sameOpening.trans opens) (sameClosing.trans closes) (ih sameInside)
  | noElements lead => exact .noElements (lines lead same)
  | lastElement lead _ ih =>
    rw [List.map_append] at same
    obtain ⟨front, element, rfl, sameLead, sameElement⟩ := List.map_eq_append_iff.mp same
    exact .lastElement (lines lead sameLead) (ih sameElement)
  | element lead _ separates _ ihElement ihRest =>
    simp only [List.map_append] at same
    obtain ⟨_, _, rfl, same, sameBehind⟩ := List.map_eq_append_iff.mp same
    obtain ⟨front, element, rfl, sameLead, sameElement⟩ := List.map_eq_append_iff.mp same
    obtain ⟨separator', rest, rfl, sameSeparator, sameRest⟩ := List.map_eq_cons_iff.mp sameBehind
    refine .element (lines lead sameLead) (ihElement sameElement) ?_ (ihRest sameRest)
    rw [kind sameSeparator rfl]
    exact separates
  | noEntries lead => exact .noEntries (lines lead same)
  | lastEntry lead _ ih =>
    rw [List.map_append] at same
    obtain ⟨front, entry, rfl, sameLead, sameEntry⟩ := List.map_eq_append_iff.mp same
    exact .lastEntry (lines lead sameLead) (ih sameEntry)
  | entry lead _ separates _ ihEntry ihRest =>
    simp only [List.map_append] at same
    obtain ⟨_, _, rfl, same, sameBehind⟩ := List.map_eq_append_iff.mp same
    obtain ⟨front, entry, rfl, sameLead, sameEntry⟩ := List.map_eq_append_iff.mp same
    obtain ⟨separator', rest, rfl, sameSeparator, sameRest⟩ := List.map_eq_cons_iff.mp sameBehind
    refine .entry (lines lead sameLead) (ihEntry sameEntry) ?_ (ihRest sameRest)
    rw [kind sameSeparator rfl]
    exact separates
  | keyed ofKey isSign areNewlines _ ih =>
    simp only [List.map_append] at same
    obtain ⟨_, tree, rfl, same, sameTree⟩ := List.map_eq_append_iff.mp same
    obtain ⟨label, _, rfl, sameLabel, same⟩ := List.map_eq_append_iff.mp same
    obtain ⟨sign', gap, rfl, sameSign, sameGap⟩ := List.map_eq_cons_iff.mp same
    exact .keyed (ofKey.of_bare_eq sameLabel) (isSign.imp (kind sameSign) (kind sameSign))
      (lines areNewlines sameGap) (ih sameTree)
  | noBound =>
    obtain rfl := List.map_eq_nil_iff.mp same
    exact .noBound
  | bound _ ih => exact .bound (ih same)
  | noStep =>
    obtain rfl := List.map_eq_nil_iff.mp same
    exact .noStep
  | step isColon _ ih =>
    obtain ⟨colon', bound, rfl, sameColon, sameBound⟩ := List.map_eq_cons_iff.mp same
    exact .step (kind sameColon isColon) (ih sameBound)

end Syntax

end LazyConfig
