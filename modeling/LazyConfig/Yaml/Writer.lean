import LazyConfig.Yaml.Page
import LazyConfig.Yaml.Tree

/-!
# Writing trees

Trees in block style, two columns to a level. The items of a sequence that is the value of a key
stand under the key; an empty container is written in brackets. An object that occurs again is
anchored where it occurs first and only named after that.
-/

namespace LazyConfig.Yaml

/-- Where a tree stands. -/
inductive Place where
  | root
  | item
  /-- A key on the line of its value. -/
  | key
  /-- A value, or a key on a line of its own. -/
  | value
deriving DecidableEq, Repr

/-- The name of the anchor of an origin that is met again. -/
def anchorName? (anchors : List Origin) (origin : Origin) : Option String :=
  (anchors.idxOf? origin).map fun index =>
    let digits := toString (index + 1)
    "id" ++ String.ofList (List.replicate (3 - digits.length) '0') ++ digits

/-- A page and the anchored origins that have been written to it. -/
structure Progress where
  page : Page := {}
  written : List Origin := []

def Progress.onPage (p : Progress) (f : Page → Page) : Progress := { p with page := f p.page }

/-- The column at which the continuation lines of a scalar stand. -/
def scalarIndent (indent : Option Nat) : Nat := (indent.map (· + 2)).getD 2

/-- The column of the items or keys of a container inside one at the given column. -/
def nestedIndent (indent : Option Nat) : Nat := (indent.map (· + 2)).getD 0

def writeScalar (indent : Option Nat) (place : Place) (tag : Tag) (text : String) (p : Page) :
    Page :=
  let style := Style.of tag text (place = .key)
  let folding := place ≠ .key
  let column := scalarIndent indent
  let p := if style ≠ .plain ∧ tag ≠ .text then p.indicator tag.name true else p
  match style with
  | .plain => p.plain column folding text.toList
  | .single => p.single column folding text.toList
  | .double => p.double column folding text.toList

/-- Writes a key and the colon behind it. -/
def writeKey (column : Nat) (key : String) (p : Page) : Page :=
  let p := p.indentTo column
  if isSimpleKey key then (writeScalar (some column) .key .text key p).indicator ":" false
  else
    let p := writeScalar (some column) .value .text key (p.indicator "?" true true)
    (p.indentTo column).indicator ":" true true

/-- Writes the anchor of an origin that is met again, or its name if it has been written before, and
tells whether the tree itself is still to be written. -/
def writeAnchor (anchors : List Origin) (origin : Option Origin) (p : Progress) :
    Progress × Bool :=
  match origin.bind fun o => (anchorName? anchors o).map fun name => (o, name) with
  | none => (p, true)
  | some (o, name) =>
    if p.written.contains o then (p.onPage (·.indicator ("*" ++ name) true), false)
    else
      ({ page := p.page.indicator ("&" ++ name) true, written := o :: p.written }, true)

mutual

/-- Writes a tree that stands in a container at the given column. -/
def write (anchors : List Origin) (indent : Option Nat) (place : Place) (p : Progress) :
    Tree → Progress
  | .scalar tag text origin =>
    match writeAnchor anchors origin p with
    | (p, true) => p.onPage (writeScalar indent place tag text)
    | (p, false) => p
  | .sequence items origin =>
    match writeAnchor anchors (some origin) p with
    | (p, false) => p
    | (p, true) =>
      if items.isEmpty then p.onPage fun page => (page.bracket "[").indicator "]" false
      else
        -- items stand under their key; behind an item or a key on a line of its own they go deeper
        let column := if place = .value ∧ !p.page.atIndent then indent.getD 0
          else nestedIndent indent
        writeItems anchors column p items
  | .mapping entries origin =>
    match writeAnchor anchors (some origin) p with
    | (p, false) => p
    | (p, true) =>
      if entries.isEmpty then p.onPage fun page => (page.bracket "\x7b").indicator "\x7d" false
      else writeEntries anchors (nestedIndent indent) p entries

def writeItems (anchors : List Origin) (column : Nat) (p : Progress) : List Tree → Progress
  | [] => p
  | tree :: items =>
    let p := p.onPage fun page => (page.indentTo column).indicator "-" true true
    writeItems anchors column (write anchors (some column) .item p tree) items

def writeEntries (anchors : List Origin) (column : Nat) (p : Progress) :
    List (String × Tree) → Progress
  | [] => p
  | (key, tree) :: entries =>
    let p := p.onPage (writeKey column key)
    writeEntries anchors column (write anchors (some column) .value p tree) entries

end

/-- Whether a tree is written as a plain scalar, which does not show where it ends. -/
def Tree.isOpenEnded : Tree → Bool
  | scalar tag text _ => Style.of tag text false = .plain
  | _ => false

/-- The document that consists of a tree. -/
def Tree.document (t : Tree) : String :=
  let p := (write t.repeated none .root {} t).page.indentTo 0
  (if t.isOpenEnded then (p.indicator "..." true).indentTo 0 else p).text

/-- A value as a document. -/
def ofValue (v : Value) : Except Fault String := do return (← Tree.ofValue v).document

end LazyConfig.Yaml
