/-!
# Locations

A location is the line and column of a character, both counted from one. Reading a character moves
to the next column, reading a line feed to the start of the next line. A span names the text that a
piece of syntax was read from and the locations of its first and its last character.
-/

namespace LazyConfig

structure Location where
  line : Nat := 1
  column : Nat := 1
deriving DecidableEq, Repr, Inhabited

namespace Location

/-- The start of the next line. -/
def nextLine (l : Location) : Location := ⟨l.line + 1, 1⟩

/-- The location after the given character. -/
def after (l : Location) (c : Char) : Location :=
  if c = '\n' then l.nextLine else { l with column := l.column + 1 }

/-- The location after the given characters. -/
def advance (l : Location) (text : List Char) : Location := text.foldl after l

/-- The location of the last of the given characters. -/
def lastOf (l : Location) (text : List Char) : Location := l.advance text.dropLast

/-- Locations are ordered by line, then by column. -/
def le (a b : Location) : Bool := a.line < b.line || (a.line == b.line && a.column ≤ b.column)

def text (l : Location) : String := s!"({l.line}, {l.column})"

@[simp] theorem advance_nil (l : Location) : l.advance [] = l := rfl

@[simp] theorem advance_cons (l : Location) (c : Char) (rest : List Char) :
    l.advance (c :: rest) = (l.after c).advance rest := rfl

theorem advance_append (l : Location) (first second : List Char) :
    l.advance (first ++ second) = (l.advance first).advance second :=
  List.foldl_append

end Location

/-- Where a piece of syntax stands: the text it is part of, its first and its last character. -/
structure Span where
  source : Nat := 0
  start : Location := {}
  stop : Location := {}
deriving DecidableEq, Repr, Inhabited

end LazyConfig
