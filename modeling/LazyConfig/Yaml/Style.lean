import LazyConfig.Yaml.Tag

/-!
# Styles of scalars

A scalar is written plain, in single quotes or in double quotes. It is written plain if a reader
takes it for what it is and nothing in it has a meaning of its own there; in single quotes if it can
stand in them as it is; and in double quotes, with escapes, otherwise.
-/

namespace LazyConfig.Yaml

/-- The characters that end a line. -/
def isBreak (c : Char) : Bool := c = '\n' || c = '\x85' || c = '\u2028' || c = '\u2029'

/-- The characters that separate an indicator from what follows. -/
def isSeparation (c : Char) : Bool :=
  c = '\x00' || c = ' ' || c = '\t' || c = '\r' || isBreak c

def isAsciiPrintable (c : Char) : Bool := ' ' ≤ c && c ≤ '~'

/-- The characters of the basic plane beyond ASCII that can be written as they are. -/
def isBasicPrintable (c : Char) : Bool :=
  (0xA0 ≤ c.val && c.val ≤ 0xD7FF) || (0xE000 ≤ c.val && c.val ≤ 0xFFFD && c.val ≠ 0xFEFF)

/-- The characters that only an escape can stand for. -/
def isSpecial (c : Char) : Bool :=
  !(c = '\n' || isAsciiPrintable c || c = '\x85' || isBasicPrintable c ||
    (0x10000 ≤ c.val && c.val < 0x10FFFF))

/-- The characters that have a meaning at the start of a scalar. -/
def isIndicator (c : Char) : Bool := "#,[]\x7b\x7d&*!|>'\"%@`".contains c

/-- Whether a character with its neighbours has a meaning inside a plain scalar: a colon before a
separation, and a number sign behind one. -/
def hasMeaning (before : Option Char) (c : Char) (behind : Option Char) : Bool :=
  (c = ':' && behind.all isSeparation) || (c = '#' && before.all isSeparation)

/-- Whether some character of a text has a meaning, given the character before the text. -/
def someMeaning (before : Option Char) : List Char → Bool
  | [] => false
  | c :: rest => hasMeaning before c rest.head? || someMeaning (some c) rest

/-- Whether the beginning of a text keeps it from being plain. -/
def startsIndicator (text : List Char) : Bool :=
  ['-', '-', '-'].isPrefixOf text || ['.', '.', '.'].isPrefixOf text ||
    match text with
    | [] => false
    | c :: rest => isIndicator c || ((c = '?' || c = '-') && rest.head?.all isSeparation)

/-- Whether two neighbours in a text are related. -/
def neighbours (related : Char → Char → Bool) : List Char → Bool
  | a :: b :: rest => related a b || neighbours related (b :: rest)
  | _ => false

/-- What the style of a scalar depends on. -/
structure Analysis where
  empty : Bool
  multiline : Bool
  plainAllowed : Bool
  singleAllowed : Bool

def Analysis.of (text : List Char) : Analysis :=
  let edge := fun c => c = ' ' || isBreak c
  let multiline := text.any isBreak
  let special := text.any isSpecial || neighbours (fun a b => a = ' ' && isBreak b) text
  let breakThenSpace := neighbours (fun a b => isBreak a && b = ' ') text
  let meaning := startsIndicator text || someMeaning none text
  { empty := text = []
    multiline
    plainAllowed := !(text.head?.any edge || text.getLast?.any edge || breakThenSpace || special ||
      multiline || meaning)
    singleAllowed := !(special || breakThenSpace) }

inductive Style where
  | plain | single | double
deriving DecidableEq, Repr

/-- The style of a scalar. `keyOnly` says that it stands as a key on a line of its value, where it
can have neither no characters nor several lines. -/
def Style.of (tag : Tag) (text : String) (keyOnly : Bool) : Style :=
  let a := Analysis.of text.toList
  if Tag.ofPlain text = tag && !(keyOnly && (a.empty || a.multiline)) && a.plainAllowed then plain
  else if a.singleAllowed && !(keyOnly && a.multiline) then single
  else double

/-- Whether a key can stand on a line with its value: it is not empty, has one line, and is short
with the name of its tag. -/
def isSimpleKey (text : String) : Bool :=
  let a := Analysis.of text.toList
  Tag.text.name.length + text.length < 128 && !a.empty && !a.multiline

end LazyConfig.Yaml
