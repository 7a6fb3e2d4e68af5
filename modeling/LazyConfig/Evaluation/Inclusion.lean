import LazyConfig.Evaluation.Describe
import LazyConfig.Evaluation.View

/-!
# Included files

A file is looked for in the directory of the document that includes it, then in the directories of
the include path. A mapping becomes a nested document with a root of its own; a list becomes a view
whose references lead from the root of the including document. No file is included from inside
itself, however it is named.
-/

namespace LazyConfig.Evaluation

open Eval

/-- The text of a file. -/
def readFile (name : String) : Eval Text.Decoded := do
  match (← world).files.read (← settings).encoding name with
  | .ok text => return text
  | .error fault => failHost (.file fault)

/-- The tree that a rule makes of a text, as the tree of a source of its own. -/
def parsed (rule : Syntax.Parser Node) (text : Text.Decoded) : Eval Node := do
  let source ← fresh
  match Token.Stream.ofText text with
  | .error e => throw (.ofSyntax (.token e))
  | .ok stream =>
    match (rule.run stream).1 with
    | .ok tree => return tree.inSource source
    | .error e => throw (.ofSyntax e)

/-- The names that an included file can go by, the preferred ones first. -/
def candidates (d : Document) (includePath : List String) (files : FileTree) (name : String) :
    List String :=
  let directories := d.directory.getD files.workingDirectory.text :: includePath
  directories.map fun directory => FileTree.join directory name

/-- Adds the tree of an included file: a list belongs to a document that has the root of the
including one, and a mapping is the root of its own document. -/
def nested (id : DocumentId) (name : String) (root : Node) : Eval Value := do
  let outer ← document id
  let inner : Document := { parent := some id, cache := outer.cache.map fun _ => [] }
  let files := (← world).files
  let child ← addDocument (inner.atFile files outer.includeChain name)
  match root with
  -- references in a list lead from the root of the including document
  | .list elements span =>
    modifyDocument child fun d => { d with root := outer.root }
    return .listView (← listView child elements span)
  | .mapping entries span =>
    let root ← mappingView child entries span
    modifyDocument child fun d => { d with root := some root }
    return .document child
  | other => fail .rootNotMapping other.start

/-- The value of the file that the operand names. -/
def included (m : Machine) (id : DocumentId) (operand : Node) : Eval Value := do
  match ← m.evaluate id operand with
  | .text name _ =>
    let outer ← document id
    let files := (← world).files
    let names := candidates outer (← settings).includePath files name
    match names.findSome? fun found => (files.resolve? found).map fun place => (found, place) with
    | none => fail (.notLocated name) operand.start
    | some (found, place) =>
      -- the chain holds places, so that no other name for a file gets around it
      if outer.includeChain.contains place.text then fail (.includesItself name) operand.start
      nested id found (← parsed Syntax.document (← readFile found))
  | v => fail (.notFileName (← describe v)) operand.start

end LazyConfig.Evaluation
