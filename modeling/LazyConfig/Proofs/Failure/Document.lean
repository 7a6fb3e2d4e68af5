import LazyConfig.Proofs.Failure.Lookup
import LazyConfig.Proofs.Resolution.Report

/-!
# Failures of lookups

A document that includes no file and converts no text, whatever has been looked up in it before: a
lookup ends in a value, in an error of the program or by exhausting the depth. The only faults besides
come from showing a number that is too long, or a path that has no head.
-/

namespace LazyConfig.Failure

open Eval
open Evaluation
open Resolution (tree? opened run_opened run_documentGet emptyWorld exists_of_any hasNoHead)

variable {headed : Bool} {environment : Environment} {s : Store}

theorem contained_get {key : String} (alone : KeyAlone headed key) (default? : Option Value) :
    Contained headed (fun _ => True) (Document.get 0 key default?) := by
  intro environment s outside isLocal
  rw [ContainedFrom, run_documentGet]
  cases environment.depth with
  | zero => exact ⟨isLocal, trivial⟩
  | succ depth =>
    exact contained_lookupValue (isLocal_answerWithin headed depth) alone default? environment s
      outside isLocal

/-- A document that has been loaded from a text that stands alone is local. -/
theorem isLocal_opened {caching : Bool} {text : Text.Decoded} {name : Option String}
    {id : DocumentId} {tree : Node} (read : tree? text = .ok tree) (alone : tree.standsAlone headed)
    (ran : (opened caching text name).run environment {} = (.ok id, s)) :
    id = 0 ∧ s.IsLocal headed := by
  obtain ⟨rfl, entries, span, found, d, shape, collected, pending, root, -, -, rfl⟩ :=
    run_opened read ran
  have areAlone : (Node.mapping entries span).standsAlone headed := by
    rwa [← shape, Node.standsAlone_inSource]
  refine ⟨rfl, ?_, ?_, ?_⟩
  · exact Option.isSome_iff_exists.mpr ⟨0, root⟩
  · intro view
    -- the root is the only view
    cases view with
    | zero => exact isLocal_collectEntries areAlone collected
    | succ view => exact ⟨rfl, by simp⟩
  · intro p among
    rw [show (Store.document ⟨#[d], #[.mapping 0 found], 1⟩ 0).pending = [] from pending] at among
    cases among

/-- What lookups one after the other make of a store. -/
inductive LookedUp (headed : Bool) (environment : Environment) (id : DocumentId) :
    Store → Store → Prop where
  | none (s : Store) : LookedUp headed environment id s s
  | next {s middle : Store} {key : String} (default? : Option Value)
      (before : LookedUp headed environment id s middle) (alone : KeyAlone headed key) :
      LookedUp headed environment id s ((Document.get id key default?).run environment middle).2

theorem LookedUp.isLocal {left : Store}
    (outside : ∀ entry ∈ environment.settings.context, entry.2.IsOutside)
    (history : LookedUp headed environment 0 s left) (isLocal : s.IsLocal headed) :
    left.IsLocal headed := by
  induction history with
  | none => exact isLocal
  | next default? _ alone ih => exact (contained_get alone default? environment _ outside ih).1

/-- In a document that includes no file and converts no text, whatever has been looked up before, a
lookup with such a key gives a value, ends in an error of the program, or exhausts the depth. Else a
number was too long to be shown or, unless the paths in the text and in the keys have heads, a path
without a head was to be shown. -/
theorem lookup_ends {text : Text.Decoded} {tree : Node} (read : tree? text = .ok tree)
    (alone : tree.standsAlone headed)
    (outside : ∀ entry ∈ environment.settings.context, entry.2.IsOutside) {caching : Bool}
    {name : Option String} {id : DocumentId} {loaded : Store}
    (load : (opened caching text name).run environment {} = (.ok id, loaded))
    (history : LookedUp headed environment id loaded s) {key : String}
    (keyAlone : KeyAlone headed key) (default? : Option Value) :
    let result := ((Document.get id key default?).run environment s).1
    (∃ v, result = .ok v) ∨ (∃ e, result = .error (.error e)) ∨ result = .error .exhausted ∨
      result = .error (.host .tooManyDigits) ∨
      headed = false ∧ ∃ fault ∈ [HostFault.noHead, .brokenIteration, .noAttribute],
        result = .error (.host fault) := by
  intro result
  obtain ⟨rfl, isLocal⟩ := isLocal_opened read alone load
  have acceptable : Acceptable headed (fun _ => True) result :=
    (contained_get keyAlone default? environment s outside (history.isLocal outside isLocal)).2
  cases ran : result with
  | ok v => exact .inl ⟨v, rfl⟩
  | error failure =>
    rw [ran] at acceptable
    cases failure with
    | error e => exact .inr (.inl ⟨e, rfl⟩)
    | exhausted => exact .inr (.inr (.inl rfl))
    | host fault =>
      right; right; right
      cases fault with
      | tooManyDigits => exact .inl rfl
      | noHead | brokenIteration | noAttribute => exact .inr ⟨acceptable, _, by simp, rfl⟩
      | file | undecodable | indexRange | noItems => cases acceptable

theorem keyAlone_of_all {key : String}
    (all : ((Path.ofString key).toOption.all (·.leadsAlone headed)) = true) :
    KeyAlone headed key := by
  intro path isPath
  rw [isPath] at all
  exact all

/-- A scalar and a reference to it. -/
def referenceText : Text.Decoded := ⟨"a: 1\nb: $\x7ba\x7d".toList, none⟩

def referenceStore : Store := ((opened false referenceText none).run emptyWorld {}).2

theorem lookup_ends_reference :
    let result :=
      ((Document.get 0 "b[0]").run emptyWorld ((Document.get 0 "b").run emptyWorld referenceStore).2).1
    (∃ v, result = .ok v) ∨ (∃ e, result = .error (.error e)) ∨ result = .error .exhausted ∨
      result = .error (.host .tooManyDigits) ∨
      true = false ∧ ∃ fault ∈ [HostFault.noHead, .brokenIteration, .noAttribute],
        result = .error (.host fault) := by
  obtain ⟨tree, read, alone⟩ := exists_of_any (tree? referenceText) (·.standsAlone true)
    (by decide +kernel)
  obtain ⟨id, load, isFirst⟩ := exists_of_any
    ((opened false referenceText none).run emptyWorld {}).1 (· == 0) (by decide +kernel)
  obtain rfl : id = 0 := by simpa using isFirst
  have loaded : (opened false referenceText none).run emptyWorld {} = (.ok 0, referenceStore) := by
    rw [← load, referenceStore]
  have ofName : KeyAlone true "b" := keyAlone_of_all (by decide +kernel)
  have ofIndex : KeyAlone true "b[0]" := keyAlone_of_all (by decide +kernel)
  exact lookup_ends read alone (by simp [emptyWorld]) loaded
    (.next none (.none referenceStore) ofName) ofIndex none

/-- A scalar, a list with a reference that steps into it, and paths that start with lists. -/
def headlessText : Text.Decoded := ⟨"a: 1\nl: [$\x7ba[[1]]\x7d]".toList, none⟩

def headlessStore : Store := ((opened false headlessText none).run emptyWorld {}).2

def fault? : Except Failure Value → Option HostFault
  | .error (.host fault) => some fault
  | _ => none

/-- A step into a scalar shows the path, and fails if an operand in it starts with a list. -/
theorem headless_path_faults :
    fault? ((Document.get 0 "a[[1]]").run emptyWorld headlessStore).1 = some .noHead ∧
      fault? ((Document.get 0 "a[[1] + [2]]").run emptyWorld headlessStore).1 = some .noAttribute ∧
      fault? ((Document.get 0 "l").run emptyWorld headlessStore).1 = some .brokenIteration := by
  decide +kernel

end LazyConfig.Failure
