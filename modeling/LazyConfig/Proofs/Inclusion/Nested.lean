import LazyConfig.Proofs.Resolution.Document

/-!
# Documents that inclusion adds

Each time an included file is evaluated, its text is read as a source of its own. A file whose root
is a mapping gives a document of its own, which has the file's place and this mapping as its root.
-/

namespace LazyConfig.Inclusion

open Eval
open Evaluation

/-- The tree of the text of an included file. -/
def tree? (text : Text.Decoded) : Except Syntax.Error Node :=
  match Token.Stream.ofText text with
  | .error e => .error (.token e)
  | .ok stream => (Syntax.document.run stream).1

/-- The slots of the view of a mapping that is read as a source of its own. -/
def slots? (serial : Nat) (tree : Node) : Option (List (String × Slot)) :=
  match tree.inSource serial with
  | .mapping entries _ => (collectEntries true [] [] entries).toOption
  | _ => none

theorem exists_slots {text : Text.Decoded} {serial : Nat} (holds : List (String × Slot) → Bool)
    (shape : (tree? text).toOption.any (fun tree => (slots? serial tree).any holds) = true) :
    ∃ tree entries span slots, tree? text = .ok tree ∧ tree.inSource serial = .mapping entries span ∧
      collectEntries true [] [] entries = .ok slots ∧ holds slots = true := by
  obtain ⟨tree, isTree, shape⟩ := Resolution.exists_of_any _ _ shape
  unfold slots? at shape
  split at shape
  · rename_i entries span isMapping
    obtain ⟨slots, collected, holds⟩ := Resolution.exists_of_any _ _ shape
    exact ⟨tree, entries, span, slots, isTree, isMapping, collected, holds⟩
  · cases shape

variable {environment : Environment} {s left : Store}

theorem run_parsed (text : Text.Decoded) :
    (parsed Syntax.document text).run environment s =
      match tree? text with
      | .ok tree => (.ok (tree.inSource s.serial), s.fresh.2)
      | .error e => (.error (.ofSyntax e), s.fresh.2) := by
  unfold parsed tree?
  rw [run_bind, run_fresh]
  dsimp only
  cases Token.Stream.ofText text with
  | error e => rfl
  | ok stream =>
    dsimp only
    cases (Syntax.document.run stream).1 <;> rfl

theorem run_readFile {name : String} {text : Text.Decoded}
    (read : environment.world.files.read environment.settings.encoding name = .ok text) :
    (readFile name).run environment s = (.ok text, s) := by
  simp only [readFile, run_bind, run_world, run_settings, read, run_pure]

/-- The document of an included mapping, whose view is the last one of the store. -/
def nestedDocument (environment : Environment) (s : Store) (id : DocumentId) (name : String)
    (span : Span) : Document :=
  let inner : Document := { parent := some id, cache := (s.document id).cache.map fun _ => [] }
  { inner.atFile environment.world.files (s.document id).includeChain name with
    root := some s.views.size
    views := [(⟨span.source, span.start⟩, s.views.size)] }

/-- A store with the document of an included mapping. -/
def withNested (environment : Environment) (s : Store) (id : DocumentId) (name : String)
    (span : Span) (slots : List (String × Slot)) : Store where
  documents := s.documents.push (nestedDocument environment s id name span)
  views := s.views.push (.mapping s.documents.size slots)
  serial := s.serial

theorem run_addDocument (d : Document) :
    (addDocument d).run environment s = (.ok s.documents.size, (s.addDocument d).2) := rfl

theorem run_nested_mapping {id : DocumentId} {name : String} {entries : List (Token × Node)}
    {span : Span} {slots : List (String × Slot)}
    (collected : collectEntries environment.settings.noDuplicates [] [] entries = .ok slots) :
    (nested id name (.mapping entries span)).run environment s =
      (.ok (.document s.documents.size), withNested environment s id name span slots) := by
  let inner : Document := { parent := some id, cache := (s.document id).cache.map fun _ => [] }
  let placed := inner.atFile environment.world.files (s.document id).includeChain name
  have isPlaced : (s.addDocument placed).2.document s.documents.size = placed :=
    s.document_addDocument placed
  have first : ((s.addDocument placed).2.document s.documents.size).views.lookup
      ⟨span.source, span.start⟩ = none := by
    rw [isPlaced]
    rfl
  rw [nested, run_bind, run_document]
  dsimp only
  rw [run_bind, run_world]
  dsimp only
  rw [run_bind, run_addDocument]
  dsimp only
  rw [run_bind, mappingView, Resolution.run_sharedView_new first, run_bind, run_settings]
  dsimp only
  rw [collected]
  simp only [run_pure, run_bind, run_modifyDocument]
  simp [withNested, nestedDocument, Store.addView, Store.addDocument, Store.setDocument,
    Store.document, Array.setIfInBounds, Array.set_push, inner, placed, Document.atFile]

/-- Including a file whose root is a mapping gives a document of its own. -/
theorem run_included_mapping {m : Machine} {id : DocumentId} {operand : Node} {name found : String}
    {mark : Mark} {place : Place} {text : Text.Decoded} {tree : Node}
    {entries : List (Token × Node)} {span : Span} {slots : List (String × Slot)}
    (named : (m.evaluate id operand).run environment s = (.ok (.text name mark), left))
    (isLocated : located? (left.document id) environment name = some (found, place))
    (outside : (left.document id).includeChain.contains place.text = false)
    (read : environment.world.files.read environment.settings.encoding found = .ok text)
    (isTree : tree? text = .ok tree)
    (shape : tree.inSource left.serial = .mapping entries span)
    (collected : collectEntries environment.settings.noDuplicates [] [] entries = .ok slots) :
    (included m id operand).run environment s =
      (.ok (.document left.documents.size),
        withNested environment left.fresh.2 id found span slots) := by
  rw [included, run_bind, named]
  dsimp only
  rw [run_bind, run_document]
  dsimp only
  rw [run_bind, run_world]
  dsimp only
  rw [run_bind, run_settings]
  dsimp only [located?] at isLocated ⊢
  rw [isLocated]
  simp only [outside, Bool.false_eq_true, if_false, run_bind, run_readFile read,
    run_parsed, isTree, shape]
  exact run_nested_mapping collected

end LazyConfig.Inclusion
