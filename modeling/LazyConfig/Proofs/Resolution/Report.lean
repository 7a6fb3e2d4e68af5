import LazyConfig.Proofs.Resolution.Document
import LazyConfig.Proofs.Syntax.PathText
import Mathlib.Data.String.Basic

/-!
# How a circle is reported

A reference that is met again while it is pending is reported as circular, with the paths of all
references that are pending and the places where they stand. Each of these paths has to be written as
text for that. One that has no text, since an operator, a list or a mapping stands in an index of it,
fails in the place of the circle, and with an error that a default may cover. A circle that is
reported is never covered.
-/

namespace LazyConfig.Resolution

open Eval
open Evaluation

variable {environment : Environment} {s left : Store}

/-! ### The entries of a report -/

/-- What the report of a circle says about a pending reference. -/
def Shows (p : Pending) (entry : String) : Prop :=
  ∃ source, p.path.sourceText = .ok source ∧ entry = source ++ " " ++ p.path.start.text

theorem run_pendingText_of_shows {p : Pending} {entry : String} (shows_ : Shows p entry) :
    (pendingText p).run environment s = (.ok entry, s) := by
  obtain ⟨source, written, rfl⟩ := shows_
  simp only [pendingText, sourceText, written, run_bind, run_pure]

theorem run_pendingTexts {pending : List Pending} {entries : List String}
    (shown : List.Forall₂ Shows pending entries) :
    (pending.mapM pendingText).run environment s = (.ok entries, s) := by
  induction shown with
  | nil => rfl
  | cons first _ ih =>
    simp only [List.mapM_cons, run_bind, run_pendingText_of_shows first, ih, run_pure]

theorem exists_shown {pending : List Pending} (haveTexts : ∀ p ∈ pending, p.path.hasText) :
    ∃ entries, List.Forall₂ Shows pending entries := by
  induction pending with
  | nil => exact ⟨[], .nil⟩
  | cons p pending ih =>
    obtain ⟨ofFirst, ofOthers⟩ := List.forall_mem_cons.mp haveTexts
    obtain ⟨source, written⟩ := p.path.exists_sourceText_iff.mpr ofFirst
    obtain ⟨entries, shown⟩ := ih ofOthers
    exact ⟨_, .cons ⟨source, written, rfl⟩ shown⟩

theorem pairwise_sortTexts (texts : List String) : (sortTexts texts).Pairwise (· ≤ ·) := by
  have sorted := @List.pairwise_mergeSort _ (fun a b : String => !(b < a))
    (fun a b c first second => by
      simp only [Bool.not_eq_true', decide_eq_false_iff_not, not_lt] at first second ⊢
      exact le_trans first second)
    (fun a b => by
      simp only [Bool.or_eq_true, Bool.not_eq_true', decide_eq_false_iff_not, not_lt]
      exact le_total a b) texts
  exact sorted.imp fun order => by
    simpa only [Bool.not_eq_true', decide_eq_false_iff_not, not_lt] using order

theorem perm_sortTexts (texts : List String) : (sortTexts texts).Perm texts :=
  List.mergeSort_perm texts _

/-! ### Paths without a text -/

theorem run_sourceText_failed {path : Node} (noText : ¬ path.hasText) :
    ∃ f, (sourceText path).run environment s = (.error f, s) ∧ ¬ f.IsCircular := by
  unfold sourceText
  cases written : path.sourceText with
  | ok text => exact absurd (path.exists_sourceText_iff.mp ⟨text, written⟩) noText
  | error fault =>
    cases fault with
    | noHead | stepFirst | tooManyDigits => exact ⟨_, rfl, fun ⟨e, host, _⟩ => by cases host⟩
    | notAPath | operator =>
      refine ⟨_, rfl, ?_⟩
      rintro ⟨e, ⟨⟩, circular⟩
      cases circular

theorem run_pendingTexts_failed {pending : List Pending}
    (noText : ∃ p ∈ pending, ¬ p.path.hasText) :
    ∃ f, (pending.mapM pendingText).run environment s = (.error f, s) ∧ ¬ f.IsCircular := by
  induction pending with
  | nil => simp at noText
  | cons p pending ih =>
    simp only [List.mapM_cons, run_bind]
    by_cases ofFirst : p.path.hasText
    · obtain ⟨source, written⟩ := p.path.exists_sourceText_iff.mpr ofFirst
      rw [run_pendingText_of_shows ⟨source, written, rfl⟩]
      obtain ⟨f, failed, other⟩ := ih (by simpa [ofFirst] using noText)
      exact ⟨f, by simp only [failed], other⟩
    · obtain ⟨f, failed, other⟩ := @run_sourceText_failed environment s p.path ofFirst
      exact ⟨f, by simp only [pendingText, run_bind, failed], other⟩

/-! ### Defaults -/

/-- A result that no default takes the place of. -/
def Stays {α : Type} (result : Except Failure α) : Prop :=
  ∀ e, result = .error (.error e) → e.category.coveredByDefault = false

theorem run_withDefault_of_stays {body : Eval Value} (default : Value)
    (stays : Stays ((withDefault none body).run environment s).1) :
    (withDefault (some default) body).run environment s =
      (withDefault none body).run environment s := by
  rw [withDefault_eq, withDefault_eq] at *
  dsimp only at *
  rw [run_tryCatch]
  rcases ran : (do return (← body, true) : Eval (Value × Bool)).run environment s with
    ⟨failure | found, left⟩
  · rw [ran] at stays
    cases failure with
    | error e =>
      simp only [standIn, stays e rfl, Bool.false_eq_true, if_false]
      rfl
    | host | exhausted => rfl
  · rfl

theorem run_found_of_stays {m : Machine} {id : DocumentId} {root : ViewId} {key : String}
    (default : Value) (stays : Stays ((found m id root key none).run environment s).1) :
    (found m id root key (some default)).run environment s =
      (found m id root key none).run environment s := by
  unfold found at *
  rw [run_bind, run_bind] at *
  rcases looked : (entryValue? m root key).run environment s with ⟨f | v?, middle⟩
  · rfl
  rw [looked] at stays
  dsimp only at stays ⊢
  cases v? with
  | some v => rfl
  | none =>
    dsimp only at stays ⊢
    split at stays
    case isTrue isName =>
      rw [if_pos isName, if_pos isName]
      exact run_withDefault_of_stays default stays
    case isFalse isPath =>
      rw [if_neg isPath, if_neg isPath]
      exact run_withDefault_of_stays default stays

theorem run_lookupValue_of_stays {m : Machine} {id : DocumentId} {key : String} (default : Value)
    (stays : Stays ((lookupValue m id key none).run environment s).1) :
    (lookupValue m id key (some default)).run environment s =
      (lookupValue m id key none).run environment s := by
  unfold lookupValue at *
  rw [run_bind, run_bind, run_document] at *
  dsimp only at *
  split
  case h_1 => rfl
  case h_2 notKept =>
    rw [notKept] at stays
    dsimp only at stays
    rw [run_bind, run_bind, run_document] at *
    dsimp only at *
    split
    case h_1 => rfl
    case h_2 root isRoot =>
      rw [isRoot] at stays
      dsimp only at stays
      -- what is found without a default is found with it, and so is a failure that stays
      have same : (found m id root key (some default)).run environment s =
          (found m id root key none).run environment s := by
        refine run_found_of_stays default fun e failed => stays e ?_
        rw [run_bind]
        rcases ran : (found m id root key none).run environment s with ⟨f | v, middle⟩
        · rw [ran] at failed
          cases failed
          rfl
        · rw [ran] at failed
          cases failed
      rw [run_bind, run_bind, same]

/-- A default does not take the place of a circle that is reported. -/
theorem run_get_circular {id : DocumentId} {key : String} {e : Error} (default : Value)
    (circular : e.category = .circular)
    (failed : (Document.get id key).run environment s = (.error (.error e), left)) :
    (Document.get id key (some default)).run environment s = (.error (.error e), left) := by
  rw [run_documentGet] at failed ⊢
  cases depth : environment.depth with
  | zero =>
    rw [depth] at failed
    exact failed
  | succ depth =>
    rw [depth] at failed
    change (lookupValue _ id key none).run environment s = _ at failed
    change (lookupValue _ id key (some default)).run environment s = _
    rw [run_lookupValue_of_stays default, failed]
    rw [failed]
    rintro e' ⟨⟩
    rw [circular]
    rfl

/-! ### References that are met again -/

/-- A reference that is met again while it is pending is reported with the paths and the places of
all that are pending, in order, if each of these paths has a text; a default never covers the report.
Where one of the paths has no text, another failure takes the place of the report. -/
theorem pending_met_again {m : Machine} {id : DocumentId} {path : Node} {sigil : Location}
    (met : ∃ p ∈ (s.document id).pending, p.site = ⟨path.source, sigil⟩) :
    let pending := (s.document id).pending
    let outcome := (answer m (.evaluate id (.reference path sigil))).run environment s
    ((∀ p ∈ pending, p.path.hasText) → ∃ entries shown,
      outcome = (.error (.error ⟨.circular entries, path.start⟩), s) ∧
        entries.Pairwise (· ≤ ·) ∧ entries.Perm shown ∧ List.Forall₂ Shows pending shown) ∧
    ((∃ p ∈ pending, ¬ p.path.hasText) → ∃ f, outcome = (.error f, s) ∧ ¬ f.IsCircular) ∧
    ∀ (other : DocumentId) (key : String) (begun left : Store) (e : Error) (default : Value),
      e.category = .circular →
      (Document.get other key).run environment begun = (.error (.error e), left) →
      (Document.get other key (some default)).run environment begun = (.error (.error e), left) := by
  intro pending outcome
  have found : pending.any (·.site = ⟨path.source, sigil⟩) = true := by simpa using met
  have ran : outcome = (do
      fail (.circular (sortTexts (← pending.mapM pendingText))) path.start : Eval Value).run
        environment s := by
    change (reference m id path sigil).run environment s = _
    rw [reference_eq, run_bind, run_document]
    dsimp only
    rw [if_pos found]
  refine ⟨?_, ?_, ?_⟩
  · intro haveTexts
    obtain ⟨shown, shows_⟩ := exists_shown haveTexts
    refine ⟨sortTexts shown, shown, ?_, pairwise_sortTexts shown, perm_sortTexts shown, shows_⟩
    rw [ran, run_bind, run_pendingTexts shows_]
    rfl
  · -- the entries are written before the report is made, so that their failure comes first
    intro noText
    obtain ⟨f, failed, other⟩ := run_pendingTexts_failed noText
    refine ⟨f, ?_, other⟩
    rw [ran, run_bind, failed]
  · intro other key begun left e default
    exact run_get_circular default

/-- The references of `a: [1, ${b}]` and `b: ${a[1]}` while both are followed. -/
def waitingStore : Store where
  documents := #[{
    pending :=
      [⟨⟨0, ⟨2, 4⟩⟩, .index (.leaf ⟨.word, "a", .text "a", ⟨0, ⟨2, 6⟩, ⟨2, 6⟩⟩⟩)
          (.leaf ⟨.integer, "1", .int 1, ⟨0, ⟨2, 8⟩, ⟨2, 8⟩⟩⟩)⟩,
        ⟨⟨0, ⟨1, 8⟩⟩, .leaf ⟨.word, "b", .text "b", ⟨0, ⟨1, 10⟩, ⟨1, 10⟩⟩⟩⟩] }]

theorem pending_met_again_circle :
    let path : Node := .leaf ⟨.word, "b", .text "b", ⟨0, ⟨1, 10⟩, ⟨1, 10⟩⟩⟩
    (∃ p ∈ (waitingStore.document 0).pending, p.site = ⟨path.source, ⟨1, 8⟩⟩) ∧
      (∀ p ∈ (waitingStore.document 0).pending, p.path.hasText) ∧
      ∃ entries shown,
        (answer ⟨answerWithin 9⟩ (.evaluate 0 (.reference path ⟨1, 8⟩))).run emptyWorld
            waitingStore = (.error (.error ⟨.circular entries, some ⟨1, 10⟩⟩), waitingStore) ∧
          entries.Pairwise (· ≤ ·) ∧ entries.Perm shown ∧
          List.Forall₂ Shows (waitingStore.document 0).pending shown := by
  intro path
  have met : ∃ p ∈ (waitingStore.document 0).pending, p.site = ⟨path.source, ⟨1, 8⟩⟩ := by decide
  have haveTexts : ∀ p ∈ (waitingStore.document 0).pending, p.path.hasText := by decide
  exact ⟨met, haveTexts, (pending_met_again met).1 haveTexts⟩

/-! ### A circle that a default covers -/

/-- A list with an element that leads back to itself by an operator, and a reference that leads back
to itself by a list. -/
def operatorText : Text.Decoded := ⟨"l: [$\x7bl[0+0]\x7d]\na: $\x7ba[[1]]\x7d".toList, none⟩

def operatorStore : Store := ((opened false operatorText none).run emptyWorld {}).2

def category? : Except Failure Value → Option Category
  | .error (.error e) => some e.category
  | _ => none

def isNull : Except Failure Value → Bool
  | .ok .null => true
  | _ => false

def hasNoHead : Except Failure Value → Bool
  | .error (.host .noHead) => true
  | _ => false

/-- A default is given for an element that leads back to itself, since the report of the circle
fails on the operator in its path; so does a report that would have to show a list. -/
theorem default_covers_circle :
    category? ((Document.get 0 "l[0]").run emptyWorld operatorStore).1 = some .evaluation ∧
      isNull ((Document.get 0 "l[0]" (some .null)).run emptyWorld operatorStore).1 = true ∧
      hasNoHead ((Document.get 0 "a").run emptyWorld operatorStore).1 = true := by
  decide +kernel

end LazyConfig.Resolution
