import LazyConfig.Document.Access
import LazyConfig.Proofs.Resolution.Document

/-!
# Loads that fail

What a load that fails leaves of the document. The text is read and its root is looked at before
anything is changed, so that a malformed text, a root of another kind and an unreadable file change
nothing. A key that is repeated in the root is found only after the document has been put at its
new file and its views have been dropped.
-/

namespace LazyConfig.Document

open Eval
open Evaluation
open Resolution (run_parsed run_sharedView_new)

variable {environment : Environment} {s left : Store} {id : DocumentId}

/-- The state that a failed load may leave: all that hangs on values is as it was, and with any
other failure than a repeated key, all else, too. -/
structure Survives (id : DocumentId) (failure : Failure) (s left : Store) : Prop where
  root : (left.document id).root = (s.document id).root
  cache : (left.document id).cache = (s.document id).cache
  views : left.views = s.views
  others : ∀ other, other ≠ id → left.document other = s.document other
  documents : (∀ e, failure = .error e → e.category ≠ .duplicateKey) → left.documents = s.documents

theorem survives_of_documents {failure : Failure} (documents : left.documents = s.documents)
    (views : left.views = s.views) : Survives id failure s left := by
  have same (other : DocumentId) : left.document other = s.document other := by
    simp only [Store.document, documents]
  exact ⟨by rw [same], by rw [same], views, fun other _ => same other, fun _ => documents⟩

/-- Whatever a change to a document leaves of its root and its cache stays after a failure on a
repeated key. -/
theorem survives_setDocument {e : Error} {d : Document} (repeated : e.category = .duplicateKey)
    (root : d.root = (s.document id).root) (cache : d.cache = (s.document id).cache) :
    Survives id (.error e) s (s.setDocument id d) := by
  have here : (s.setDocument id d).document id = d ∨
      (s.setDocument id d).document id = s.document id :=
    (s.document_setDocument_or d id id).imp_left And.left
  constructor
  · rcases here with same | same <;> rw [same]
    exact root
  · rcases here with same | same <;> rw [same]
    exact cache
  · rfl
  · intro other differ
    exact s.document_setDocument_of_ne d differ.symm
  · intro others
    exact absurd repeated (others e rfl)

theorem Survives.trans {failure : Failure} {middle : Store}
    (first : Survives id failure s middle) (second : Survives id failure middle left) :
    Survives id failure s left where
  root := second.root.trans first.root
  cache := second.cache.trans first.cache
  views := second.views.trans first.views
  others other differ := (second.others other differ).trans (first.others other differ)
  documents notRepeated := (second.documents notRepeated).trans (first.documents notRepeated)

theorem lookup_views_of_dropped (site : Site) :
    ((s.setDocument id { s.document id with views := [] }).document id).views.lookup site = none := by
  by_cases present : id < s.documents.size
  · rw [s.document_setDocument _ present]
    rfl
  · have blank : s.document id = default := by simp [Store.document, present]
    simp only [Store.document, Store.setDocument, Array.getD, Array.size_setIfInBounds, present,
      dif_neg, not_false_eq_true]
    rfl

/-- Making the root is the one step of a load that can fail after something has been changed, and
what it fails on is a repeated key. -/
theorem run_root_error {entries : List (Token × Node)} {span : Span} {failure : Failure}
    (failed : (mappingView id entries span).run environment
        (s.setDocument id { s.document id with views := [] }) = (.error failure, left)) :
    (∃ e, failure = .error e ∧
      collectEntries environment.settings.noDuplicates [] [] entries = .error e) ∧
      left = s.setDocument id { s.document id with views := [] } := by
  rw [mappingView, run_sharedView_new (lookup_views_of_dropped _), run_bind, run_settings] at failed
  dsimp only at failed
  cases collected : collectEntries environment.settings.noDuplicates [] [] entries with
  | ok found =>
    rw [collected] at failed
    cases failed
  | error e =>
    rw [collected] at failed
    cases failed
    exact ⟨⟨e, rfl, rfl⟩, rfl⟩

/-- The steps that make the root, behind the step that puts the document at its file. -/
theorem run_rooted_error {entries : List (Token × Node)} {span : Span} {failure : Failure}
    (failed : (Resolution.rooted id entries span).run environment s = (.error failure, left)) :
    ∃ e, failure = .error e ∧
      collectEntries environment.settings.noDuplicates [] [] entries = .error e ∧
      left = s.setDocument id { s.document id with views := [] } := by
  rw [Resolution.rooted, run_bind, run_modifyDocument] at failed
  dsimp only at failed
  rw [run_bind] at failed
  rcases ran : (mappingView id entries span).run environment
      (s.setDocument id { s.document id with views := [] }) with ⟨other | view, behind⟩
  · rw [ran] at failed
    cases failed
    obtain ⟨⟨e, same, collected⟩, unchanged⟩ := run_root_error ran
    exact ⟨e, same, collected, unchanged⟩
  · rw [ran] at failed
    cases failed

theorem category_of_ofSyntax {error : Syntax.Error} {e : Error}
    (same : Failure.ofSyntax error = .error e) : e.category ≠ .duplicateKey := by
  unfold Failure.ofSyntax at same
  split at same
  · cases same
  · cases same
    cases error <;> simp [Error.ofSyntax, Error.category, Cause.category]

/-- The store in which a load makes the root: the document has been put at the named file, if there
is one. -/
inductive Placed (environment : Environment) (id : DocumentId) (name : Option String) (s : Store) :
    Store → Prop where
  | here (noFile : name.filter environment.world.files.isFile = none) :
      Placed environment id name s s
  | moved {file : String} (outer : List String)
      (isFile : name.filter environment.world.files.isFile = some file) :
      Placed environment id name s
        (s.setDocument id ((s.document id).atFile environment.world.files outer file))

/-- What a failed load has come to: nothing but a number has been given out, or the root has been
found to repeat a key when all that comes before had been done. -/
theorem run_load_error {text : Text.Decoded} {name : Option String} {failure : Failure}
    (failed : (load id text name).run environment s = (.error failure, left)) :
    (left = s.fresh.2 ∧ ∀ e, failure = .error e → e.category ≠ .duplicateKey) ∨
      ∃ e middle, failure = .error e ∧ e.category = .duplicateKey ∧
        Placed environment id name s.fresh.2 middle ∧
        left = middle.setDocument id { middle.document id with views := [] } := by
  rw [load, run_bind, run_parsed] at failed
  cases read : Resolution.tree? text with
  | error e =>
    rw [read] at failed
    cases failed
    exact .inl ⟨rfl, fun e same => category_of_ofSyntax same⟩
  | ok tree =>
    rw [read] at failed
    dsimp only at failed
    cases shape : tree.inSource s.serial with
    | mapping entries span =>
      right
      rw [shape, run_bind, run_world] at failed
      dsimp only at failed
      cases isFile : name.filter environment.world.files.isFile with
      | none =>
        rw [isFile] at failed
        obtain ⟨e, rfl, collected, rfl⟩ := run_rooted_error failed
        exact ⟨e, s.fresh.2, rfl, category_of_collectEntries collected, .here isFile, rfl⟩
      | some file =>
        rw [isFile] at failed
        dsimp only at failed
        rw [run_bind, run_placeAt] at failed
        obtain ⟨e, rfl, collected, rfl⟩ := run_rooted_error failed
        exact ⟨e, _, rfl, category_of_collectEntries collected, .moved _ isFile, rfl⟩
    | _ =>
      -- the root is no mapping
      rw [shape] at failed
      cases failed
      exact .inl ⟨rfl, fun e same => by cases same; simp [Error.category, Cause.category]⟩

theorem survives_load {text : Text.Decoded} {name : Option String} {failure : Failure}
    (failed : (load id text name).run environment s = (.error failure, left)) :
    Survives id failure s left := by
  rcases run_load_error failed with ⟨rfl, -⟩ | ⟨e, middle, rfl, repeated, placed, rfl⟩
  · exact survives_of_documents rfl rfl
  · have counted : Survives id (.error e) s s.fresh.2 := survives_of_documents rfl rfl
    have placing : Survives id (.error e) s.fresh.2 middle := by
      cases placed with
      | here => exact survives_of_documents rfl rfl
      | moved => exact survives_setDocument repeated rfl rfl
    exact (counted.trans placing).trans (survives_setDocument repeated rfl rfl)

theorem run_readFile_store (environment : Environment) (s : Store) (file : String) :
    ((readFile file).run environment s).2 = s := by
  simp only [readFile, run_bind, run_world, run_settings]
  cases environment.world.files.read environment.settings.encoding file <;> rfl

/-- A load that fails leaves the root and the values that are kept as they were, and all other
documents. If it fails on anything but a repeated key, nothing at all has been changed. -/
theorem survives_failed_load {text : Text.Decoded} {name : Option String} {file : String}
    {failure : Failure}
    (failed : (load id text name).run environment s = (.error failure, left) ∨
      (loadFile id file).run environment s = (.error failure, left)) :
    Survives id failure s left := by
  rcases failed with failed | failed
  · exact survives_load failed
  · rw [loadFile, run_bind] at failed
    rcases ran : (readFile file).run environment s with ⟨other | content, behind⟩
    all_goals
      have same : behind = s := by
        simpa only [ran] using run_readFile_store environment s file
      subst same
      rw [ran] at failed
    · cases failed
      exact survives_of_documents rfl rfl
    · exact survives_load failed

/-- A load that fails on a repeated key has put the document at the new file: other files are looked
for in another directory from then on. The views of the old root are forgotten. -/
theorem moved_of_failed_load {text : Text.Decoded} {name : Option String} {e : Error}
    (failed : (load id text name).run environment s = (.error (.error e), left))
    (repeated : e.category = .duplicateKey) (present : id < s.documents.size) :
    (left.document id).views = [] ∧
      ∀ file, name.filter environment.world.files.isFile = some file →
        (left.document id).path = some file ∧
          (left.document id).directory = some (environment.world.files.directoryOf file) := by
  rcases run_load_error failed with ⟨-, other⟩ | ⟨e, middle, same, -, placed, rfl⟩
  · exact absurd repeated (other e rfl)
  · cases same
    have inside : id < middle.documents.size := by
      cases placed with
      | here => exact present
      | moved => simpa [Store.setDocument, Store.fresh] using present
    rw [Store.document_setDocument _ _ inside]
    refine ⟨rfl, fun file isFile => ?_⟩
    cases placed with
    | here noFile =>
      rw [noFile] at isFile
      cases isFile
    | moved outer isOther =>
      cases isOther.symm.trans isFile
      rw [Store.document_setDocument _ _ (show id < s.fresh.2.documents.size from present)]
      exact ⟨rfl, rfl⟩

/-! ### A load that drops the views -/

/-- A document that has been loaded from a text, and the same after a text has failed to load that
repeats a key. -/
def loadedStore : Store :=
  ((Resolution.opened false ⟨"a: \x7bb: 1\x7d".toList, none⟩ none).run Resolution.emptyWorld {}).2

def repeatedLoad : Except Failure Unit × Store :=
  (load 0 ⟨"b: 1\nb: 2".toList, none⟩ none).run Resolution.emptyWorld loadedStore

/-- The view that a path leads to. -/
def viewAt (s : Store) (path : String) : Option ViewId :=
  match ((follow 0 path).run Resolution.emptyWorld s).1 with
  | .ok (.mappingView view) => some view
  | _ => none

/-- After a load that failed, a path leads to another view than before it, and no longer to the one
that has been looked at. -/
theorem failed_load_drops_views :
    let looked := ((follow 0 "a").run Resolution.emptyWorld loadedStore).2
    let failed := (load 0 ⟨"b: 1\nb: 2".toList, none⟩ none).run Resolution.emptyWorld looked
    failed.1.toOption = none ∧ (looked.document 0).views ≠ [] ∧ (failed.2.document 0).views = [] ∧
      viewAt looked "a" = some 1 ∧ viewAt failed.2 "a" = some 2 := by
  decide +kernel

theorem survives_failed_load_repeated :
    (∃ failure, repeatedLoad.1 = .error failure) ∧
      (repeatedLoad.2.document 0).root = (loadedStore.document 0).root := by
  have isError : repeatedLoad.1.toOption = none := by decide +kernel
  rcases ran : repeatedLoad with ⟨failure | done, left⟩
  · have failed : repeatedLoad = (.error failure, left) ∨
        (loadFile 0 "").run Resolution.emptyWorld loadedStore = (.error failure, left) := .inl ran
    exact ⟨⟨failure, rfl⟩, (survives_failed_load failed).root⟩
  · rw [ran] at isError
    cases isError

end LazyConfig.Document
