import LazyConfig.Syntax.Node
import LazyConfig.Value.Basic
import LazyConfig.World.FileTree

/-!
# The state of documents

All documents that are loaded and the views into them. A view holds the slots of one list or
mapping; a slot holds the tree that is still to be evaluated or the value it has. A document shares
one view for each container in its text.
-/

namespace LazyConfig

/-- What stands in a view. -/
inductive Slot where
  | node (node : Node)
  | value (value : Value)
deriving Inhabited

inductive View where
  | list (owner : DocumentId) (slots : List Slot)
  | mapping (owner : DocumentId) (entries : List (String × Slot))

def View.owner : View → DocumentId
  | list owner _ => owner
  | mapping owner _ => owner

instance : Inhabited View := ⟨.list 0 []⟩

/-- Where a container or a reference starts: the text and the place in it tell it from every other
one. -/
structure Site where
  source : Nat
  location : Location
deriving DecidableEq, Repr, Inhabited

/-- A reference that is being resolved: its sigil, the path and where the path starts. -/
structure Pending where
  site : Site
  path : Node

structure Document where
  parent : Option DocumentId := none
  /-- The name of the file that the document was read from. -/
  path : Option String := none
  /-- The directory in which included files are looked for first. -/
  directory : Option String := none
  /-- The files on the way from the outermost document to this one. -/
  includeChain : List String := []
  root : Option ViewId := none
  /-- The values that have been looked up, if they are kept. -/
  cache : Option (List (String × Value)) := none
  /-- The views of the containers in the text. -/
  views : List (Site × ViewId) := []
  /-- The references that are being resolved. -/
  pending : List Pending := []
  /-- The conversion texts that are being converted. -/
  converting : List String := []
deriving Inhabited

/-- The document at the given file, with the chain of files that leads to it. -/
def Document.atFile (d : Document) (files : FileTree) (outer : List String) (name : String) :
    Document :=
  { d with
    path := some name
    directory := some (files.directoryOf name)
    includeChain := outer ++ ((files.resolve? name).map Place.text).toList }

/-- How messages show a document. -/
def Document.describe (d : Document) : String := "Config(" ++ d.path.getD "<stream>" ++ ")"

structure Store where
  documents : Array Document := #[]
  views : Array View := #[]
  /-- The next number for a text or a value. -/
  serial : Nat := 0
deriving Inhabited

namespace Store

def document (s : Store) (id : DocumentId) : Document := s.documents.getD id default

def view (s : Store) (id : ViewId) : View := s.views.getD id default

def setDocument (s : Store) (id : DocumentId) (d : Document) : Store :=
  { s with documents := s.documents.setIfInBounds id d }

def setView (s : Store) (id : ViewId) (v : View) : Store :=
  { s with views := s.views.setIfInBounds id v }

/-- Adds a document and returns its number. -/
def addDocument (s : Store) (d : Document) : DocumentId × Store :=
  (s.documents.size, { s with documents := s.documents.push d })

def addView (s : Store) (v : View) : ViewId × Store :=
  (s.views.size, { s with views := s.views.push v })

/-- A number that has not been given out before. -/
def fresh (s : Store) : Nat × Store := (s.serial, { s with serial := s.serial + 1 })

/-! ### What is read back -/

variable (s : Store)

@[simp] theorem view_setDocument (id : DocumentId) (d : Document) (view : ViewId) :
    (s.setDocument id d).view view = s.view view := rfl

@[simp] theorem document_setView (id : ViewId) (v : View) (document : DocumentId) :
    (s.setView id v).document document = s.document document := rfl

theorem document_setDocument {id : DocumentId} (d : Document) (present : id < s.documents.size) :
    (s.setDocument id d).document id = d := by
  simp [document, setDocument, present]

theorem document_setDocument_of_ne {id other : DocumentId} (d : Document) (differ : id ≠ other) :
    (s.setDocument id d).document other = s.document other := by
  simp [document, setDocument, differ]

theorem view_setView {id : ViewId} (v : View) (present : id < s.views.size) :
    (s.setView id v).view id = v := by
  simp [view, setView, present]

theorem view_setView_of_ne {id other : ViewId} (v : View) (differ : id ≠ other) :
    (s.setView id v).view other = s.view other := by
  simp [view, setView, differ]

@[simp] theorem document_addDocument (d : Document) :
    (s.addDocument d).2.document (s.addDocument d).1 = d := by
  simp [document, addDocument]

/-- Adding a document leaves those before it as they are. -/
theorem document_addDocument_of_lt {id : DocumentId} (d : Document)
    (present : id < s.documents.size) : (s.addDocument d).2.document id = s.document id := by
  simp [document, addDocument, Array.getElem?_push, Nat.ne_of_lt present]

@[simp] theorem view_addView (v : View) : (s.addView v).2.view (s.addView v).1 = v := by
  simp [view, addView]

/-- Adding a view leaves those before it as they are. -/
theorem view_addView_of_lt {id : ViewId} (v : View) (present : id < s.views.size) :
    (s.addView v).2.view id = s.view id := by
  simp [view, addView, Array.getElem?_push, Nat.ne_of_lt present]

end Store

end LazyConfig
