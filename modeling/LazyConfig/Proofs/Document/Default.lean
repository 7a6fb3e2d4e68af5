import LazyConfig.Proofs.Resolution.Report

/-!
# Defaults of lookups

A default takes the place of a path that leads nowhere, unless the failure is one that always shows.
It takes the place of nothing else: what a path leads to is evaluated in full after the path has been
followed, and an element that fails then shows whether there is a default or not.
-/

namespace LazyConfig.Document

open Eval
open Evaluation
open Resolution (run_documentGet emptyWorld opened exists_of_any category? isNull)

variable {environment : Environment} {s left : Store} {m : Machine} {id : DocumentId} {key : String}

/-! ### Lookups of paths -/

/-- What a lookup goes on with: a default is given as it is, and what has been found is evaluated in
full and kept. -/
def finish (m : Machine) (id : DocumentId) (key : String) : Value × Bool → Eval Value
  | (v, isFound) => do
    if !isFound then return v
    let v ← unwrap m v
    modifyDocument id fun d => { d with cache := d.cache.map ((key, v) :: ·) }
    return v

theorem run_entryValue?_none {root : ViewId}
    (noEntry : ((hasKey root key).run environment s).1 = .ok false) :
    (entryValue? m root key).run environment s = (.ok none, s) := by
  have present : ∃ entries, (Eval.entries root).run environment s = (.ok entries, s) := by
    cases isView : s.view root with
    | list owner slots => exact ⟨[], by simp only [Eval.entries, run_bind, run_get, isView, run_pure]⟩
    | mapping owner entries => exact ⟨entries, run_entries isView⟩
  obtain ⟨entries, present⟩ := present
  rw [hasKey, run_bind, present] at noEntry
  have missing : entries.lookup key = none := by simpa using noEntry
  rw [entryValue?, run_bind, present]
  dsimp only
  rw [missing]
  rfl

/-- A key that is neither an entry nor a name is a path, and a default is for following it only. -/
theorem run_lookupValue_path {root : ViewId} (default? : Option Value)
    (notKept : (s.document id).cache.bind (·.lookup key) = none)
    (isRoot : (s.document id).root = some root)
    (noEntry : ((hasKey root key).run environment s).1 = .ok false)
    (noName : Path.isIdentifier key = false) :
    (lookupValue m id key default?).run environment s =
      (withDefault default? (followText m id key) >>= finish m id key).run environment s := by
  rw [lookupValue, run_bind, run_document]
  dsimp only
  rw [notKept]
  dsimp only
  rw [run_bind, run_document]
  dsimp only
  rw [isRoot]
  dsimp only
  have leads : (found m id root key default?).run environment s =
      (withDefault default? (followText m id key)).run environment s := by
    rw [found, run_bind, run_entryValue?_none noEntry]
    dsimp only
    rw [noName]
    rfl
  rw [run_bind, run_bind, leads]
  rfl

/-! ### Failures that a default takes the place of -/

theorem run_withDefault_ok {body : Eval Value} {v : Value} (default? : Option Value)
    (ran : body.run environment s = (.ok v, left)) :
    (withDefault default? body).run environment s = (.ok (v, true), left) := by
  rw [withDefault_eq]
  cases default? with
  | none =>
    rw [run_bind, ran]
    rfl
  | some default =>
    rw [run_tryCatch, run_bind, ran]
    rfl

theorem run_withDefault_error {body : Eval Value} {e : Error} (default : Value)
    (failed : body.run environment s = (.error (.error e), left)) :
    (withDefault (some default) body).run environment s =
      if e.category.coveredByDefault then (.ok (default, false), left)
      else (.error (.error e), left) := by
  rw [withDefault_eq, run_tryCatch, run_bind, failed]
  dsimp only
  rw [standIn]
  split <;> rfl

/-- A value that is kept is given as it is, so that a lookup of it cannot fail. -/
theorem not_kept_of_failed {default? : Option Value} {f : Failure}
    (failed : (lookupValue m id key default?).run environment s = (.error f, left)) :
    (s.document id).cache.bind (·.lookup key) = none := by
  cases kept : (s.document id).cache.bind (·.lookup key) with
  | none => rfl
  | some v =>
    rw [lookupValue, run_bind, run_document] at failed
    dsimp only at failed
    rw [kept] at failed
    cases failed

/-- What a default makes of a lookup that has failed. -/
structure Covers (default : Value) (e : Error) (left : Store) (isLoaded : Prop)
    (followed : Except Failure Value) (outcome : Except Failure Value × Store) : Prop where
  /-- Some errors always show. -/
  always : e.category.coveredByDefault = false → outcome = (.error (.error e), left)
  /-- Another error of following the path gives way to the default. -/
  covered : e.category.coveredByDefault = true → isLoaded → (∀ v, followed ≠ .ok v) →
    outcome = (.ok default, left)
  /-- The errors of a document that holds nothing stay, and so do those of what the path has led
  to. -/
  uncovered : ¬ isLoaded ∨ (∃ v, followed = .ok v) → outcome = (.error (.error e), left)

theorem covers_lookupValue {e : Error} (default : Value)
    (noEntry : ((contains id key).run environment s).1 = .ok false)
    (noName : Path.isIdentifier key = false)
    (failed : (lookupValue m id key none).run environment s = (.error (.error e), left)) :
    Covers default e left (s.document id).root.isSome
      ((followText m id key).run environment s).1
      ((lookupValue m id key (some default)).run environment s) := by
  have notKept := not_kept_of_failed failed
  cases isRoot : (s.document id).root with
  | none =>
    have stays : (lookupValue m id key (some default)).run environment s =
        (.error (.error e), left) := by
      rw [← failed]
      simp only [lookupValue, run_bind, run_document, notKept, isRoot, run_fail]
    constructor
    · exact fun _ => stays
    · intro _ loaded
      cases loaded
    · exact fun _ => stays
  | some root =>
    have noEntry : ((hasKey root key).run environment s).1 = .ok false := by
      rw [contains, run_bind, run_document] at noEntry
      dsimp only at noEntry
      rwa [isRoot] at noEntry
    rw [run_lookupValue_path none notKept isRoot noEntry noName] at failed
    rw [run_lookupValue_path (some default) notKept isRoot noEntry noName]
    rcases ran : (followText m id key).run environment s with ⟨f | v, middle⟩
    · -- following the path has failed, and so has the lookup, with the same error
      rw [run_bind, withDefault_eq] at failed
      dsimp only at failed
      rw [run_bind, ran] at failed
      cases failed
      rw [run_bind, run_withDefault_error default ran]
      constructor
      · intro shows_
        rw [shows_]
        rfl
      · intro covered _ _
        rw [covered]
        rfl
      · rintro (unloaded | ⟨v, leads⟩)
        · exact absurd rfl unloaded
        · cases leads
    · -- what the path has led to fails, behind the default
      rw [run_bind, run_withDefault_ok none ran] at failed
      rw [run_bind, run_withDefault_ok (some default) ran]
      constructor
      · exact fun _ => failed
      · exact fun _ _ fails => absurd rfl (fails v)
      · exact fun _ => failed

/-- A lookup of a path that ends in an error ends in it with a default as well if the error is one
that always shows. Another error of following the path gives way to the default; an error of what the
path has led to, or of a document that holds nothing, does not. -/
theorem default_covers {e : Error} (default : Value)
    (noEntry : ((contains id key).run environment s).1 = .ok false)
    (noName : Path.isIdentifier key = false)
    (failed : (get id key).run environment s = (.error (.error e), left)) :
    Covers default e left (s.document id).root.isSome
      ((followText ⟨answerWithin (environment.depth - 1)⟩ id key).run environment s).1
      ((get id key (some default)).run environment s) := by
  rw [run_documentGet] at failed ⊢
  cases depth : environment.depth with
  | zero =>
    rw [depth] at failed
    cases failed
  | succ depth =>
    rw [depth] at failed
    exact covers_lookupValue default noEntry noName failed

/-- A mapping whose entry cannot be evaluated. -/
def clashText : Text.Decoded := ⟨"x: \x7ba: \x7bb: 1 + 'x'\x7d\x7d".toList, none⟩

def clashStore : Store := ((opened false clashText none).run emptyWorld {}).2

theorem exists_of_category? (result : Except Failure Value) {c : Category}
    (isCategory : category? result = some c) :
    ∃ e, result = .error (.error e) ∧ e.category = c := by
  unfold category? at isCategory
  split at isCategory
  · exact ⟨_, rfl, Option.some.inj isCategory⟩
  · cases isCategory

theorem default_covers_missing :
    ∃ e left, (get 0 "x.c").run emptyWorld clashStore = (.error (.error e), left) ∧
      e.category = .notFound ∧
      (get 0 "x.c" (some .null)).run emptyWorld clashStore = (.ok .null, left) := by
  obtain ⟨isKey, noEntry, no⟩ := exists_of_any
    ((contains 0 "x.c").run emptyWorld clashStore).1 (! ·) (by decide +kernel)
  obtain rfl : isKey = false := by simpa using no
  obtain ⟨e, failed, missing⟩ := exists_of_category? ((get 0 "x.c").run emptyWorld clashStore).1
    (c := .notFound) (by decide +kernel)
  obtain ⟨_, followed, -⟩ := exists_of_category?
    ((followText ⟨answerWithin (emptyWorld.depth - 1)⟩ 0 "x.c").run emptyWorld clashStore).1
    (c := .notFound) (by decide +kernel)
  have ran : (get 0 "x.c").run emptyWorld clashStore =
      (.error (.error e), ((get 0 "x.c").run emptyWorld clashStore).2) := by
    rw [← failed]
  refine ⟨e, _, ran, missing, ?_⟩
  apply (default_covers .null noEntry (by decide +kernel) ran).covered
  · rw [missing]
    rfl
  · decide +kernel
  · intro v leads
    rw [followed] at leads
    cases leads

/-- The same error gives way to a default where the path leads to the entry itself, but not where it
leads to the mapping around it. -/
theorem default_leaves_element :
    category? ((get 0 "x.a.b").run emptyWorld clashStore).1 = some .evaluation ∧
      isNull ((get 0 "x.a.b" (some .null)).run emptyWorld clashStore).1 = true ∧
      category? ((get 0 "x.a").run emptyWorld clashStore).1 = some .evaluation ∧
      category? ((get 0 "x.a" (some .null)).run emptyWorld clashStore).1 = some .evaluation := by
  decide +kernel

end LazyConfig.Document
