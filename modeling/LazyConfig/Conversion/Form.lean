import LazyConfig.Text.CharClass

/-!
# Forms of conversion texts

The forms that a conversion text can have besides a date: a reference to an environment variable, a
named object, and a text with paths to fill in. One line feed may follow the first two.
-/

namespace LazyConfig.Conversion

open Text (isWordChar)

/-- The text without a line feed at its end. -/
def dropLineEnd (text : List Char) : List Char :=
  if text.getLast? = some '\n' then text.dropLast else text

/-- A variable's name and the text that stands in for a missing variable, if one is given: `$NAME`
or `$NAME|default`. -/
def environmentName? (text : List Char) : Option (String × Option String) :=
  match dropLineEnd text with
  | '$' :: rest =>
    let name := rest.takeWhile isWordChar
    if name = [] then none
    else match rest.dropWhile isWordChar with
      | [] => some (String.ofList name, none)
      | '|' :: standIn =>
        if standIn.contains '\n' then none
        else some (String.ofList name, some (String.ofList standIn))
      | _ => none
  | _ => none

/-- The characters that start a part of an object's name. -/
def startsName (c : Char) : Bool := c.isAlpha || c = '_'

def isName (text : List Char) : Bool :=
  match text with
  | [] => false
  | first :: rest => startsName first && rest.all isWordChar

/-- The parts of a text between the points in it. -/
def parts (text : List Char) : List (List Char) := text.splitOn '.'

/-- The dotted name of an object and the member behind a colon, if one is given. -/
def objectName? (text : List Char) : Option (String × Option String) :=
  let body := dropLineEnd text
  let name := body.takeWhile (· ≠ ':')
  if !(parts name).all isName then none
  else match body.dropWhile (· ≠ ':') with
    | [] => some (String.ofList name, none)
    | _ :: member =>
      if isName member then some (String.ofList name, some (String.ofList member)) else none

/-- A stretch of a text, or a path whose value goes in its place. -/
inductive Piece where
  | literal (text : String)
  | path (text : String)
deriving DecidableEq, Repr

/-- The path that stands in braces at the head of a text behind its opening brace. -/
def path? (text : List Char) : Option (List Char) :=
  let path := text.takeWhile (· ≠ '}')
  if path = [] ∨ path.length = text.length then none else some path

/-- The pieces of a text: `skip` characters of a path are still to be passed over, and `literal`
holds the stretch before the rest of the text, its last character first. -/
def piecesFrom (literal : List Char) (skip : Nat) : List Char → List Piece
  | [] => [.literal (String.ofList literal.reverse)]
  | c :: rest =>
    match skip with
    | skip + 1 => piecesFrom literal skip rest
    | 0 =>
      match (if c = '$' ∧ rest.head? = some '{' then path? (rest.drop 1) else none) with
      | some path =>
        .literal (String.ofList literal.reverse) :: .path (String.ofList path) ::
          piecesFrom [] (path.length + 2) rest
      | none => piecesFrom (c :: literal) 0 rest

/-- A text in pieces: every `${path}` is filled in, from the left. -/
def pieces (text : List Char) : List Piece := piecesFrom [] 0 text

end LazyConfig.Conversion
