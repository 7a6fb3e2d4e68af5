import LazyConfig.Yaml.Style

/-!
# Pages

A page is the text written so far, with the column at which it goes on. Words of a long scalar go
to the next line behind the eightieth column, but only where one blank stands between them;
indicators are set off by blanks. `afterBlank` and `atIndent` say what stands before: a blank, or
nothing on the line but blanks and indicators of blocks.
-/

namespace LazyConfig.Yaml

structure Page where
  text : String := ""
  column : Nat := 0
  afterBlank : Bool := true
  atIndent : Bool := true

namespace Page

/-- The column behind which a line is folded. -/
def width : Nat := 80

/-- Writes text that has no line break. -/
def put (p : Page) (text : String) : Page :=
  { p with text := p.text ++ text, column := p.column + text.length }

def putChars (p : Page) (text : List Char) : Page := p.put (String.ofList text)

/-- Ends the line. -/
def breakWith (p : Page) (lineEnd : Char) : Page :=
  { text := p.text.push lineEnd, column := 0, afterBlank := true, atIndent := true }

def lineBreak (p : Page) : Page := p.breakWith '\n'

/-- Writes an indicator, set off from what stands before it if need be. -/
def indicator (p : Page) (text : String) (setOff : Bool) (opensBlock : Bool := false) : Page :=
  let p := if setOff && !p.afterBlank then p.put " " else p
  { p.put text with afterBlank := false, atIndent := p.atIndent && opensBlock }

/-- Writes the opening bracket of an empty container. -/
def bracket (p : Page) (text : String) : Page :=
  { p.indicator text true with afterBlank := true }

/-- Goes to a column: on this line if nothing but indicators stands before it, or else on the
next. -/
def indentTo (p : Page) (column : Nat) : Page :=
  let p := if !p.atIndent || column < p.column || (p.column = column && !p.afterBlank)
    then p.lineBreak else p
  if p.column < column then
    { p.put (String.ofList (List.replicate (column - p.column) ' ')) with afterBlank := true }
  else p

/-- Goes to a column in the middle of a scalar. -/
def foldTo (p : Page) (column : Nat) : Page :=
  { p.indentTo column with afterBlank := false, atIndent := false }

end Page

/-! ### Runs -/

/-- A stretch of a text that is written in one go. -/
inductive Run where
  | word (text : List Char)
  | blanks (count : Nat)
  | breaks (lineEnds : List Char)
deriving DecidableEq, Repr

/-- The run of a single character. -/
def Run.ofChar (c : Char) : Run :=
  if c = ' ' then .blanks 1 else if isBreak c then .breaks [c] else .word [c]

/-- Puts a character before runs. -/
def Run.cons (c : Char) (runs : List Run) : List Run :=
  match Run.ofChar c, runs with
  | .blanks _, .blanks count :: rest => .blanks (count + 1) :: rest
  | .breaks _, .breaks lineEnds :: rest => .breaks (c :: lineEnds) :: rest
  | .word _, .word text :: rest => .word (c :: text) :: rest
  | run, runs => run :: runs

/-- The longest runs of a text. -/
def Run.ofText (text : List Char) : List Run := text.foldr Run.cons []

namespace Page

/-- Writes blanks between words; a single one can become the end of a long line. -/
def blanks (p : Page) (count : Nat) (folding : Bool) (fold : Page → Page) : Page :=
  if count = 1 && width < p.column && folding then fold p
  else p.putChars (List.replicate count ' ')

/-- Writes a text as a plain scalar. -/
def plain (p : Page) (indent : Nat) (folding : Bool) (text : List Char) : Page :=
  if text = [] then p
  else
    let start := if p.afterBlank then p else p.put " "
    (Run.ofText text).foldl (fun p run =>
      match run with
      | .word text => p.putChars text
      | .blanks count => p.blanks count folding (·.foldTo indent)
      | .breaks lineEnds => p.putChars lineEnds)
      { start with afterBlank := false, atIndent := false }

/-- Writes the line ends inside a quoted scalar: a single line feed would be folded into a blank, so
that one more is written. -/
def quotedBreaks (p : Page) (indent : Nat) (lineEnds : List Char) : Page :=
  let p := if lineEnds.head? = some '\n' then p.lineBreak else p
  (lineEnds.foldl breakWith p).indentTo indent

/-- The text with every quote written twice. -/
def doubleQuotes : List Char → List Char
  | [] => []
  | '\'' :: rest => '\'' :: '\'' :: doubleQuotes rest
  | c :: rest => c :: doubleQuotes rest

/-- Writes the runs of a scalar in single quotes; `first` says that nothing is before them. Blanks
at the ends of the text are no place to go to the next line. -/
def singleRuns (indent : Nat) (folding : Bool) (first : Bool) (p : Page) : List Run → Page
  | [] => p
  | run :: rest =>
    let p := match run with
      | .word text => p.putChars (doubleQuotes text)
      | .blanks count => p.blanks count (folding && !first && rest ≠ []) (·.indentTo indent)
      | .breaks lineEnds => p.quotedBreaks indent lineEnds
    singleRuns indent folding false p rest

def single (p : Page) (indent : Nat) (folding : Bool) (text : List Char) : Page :=
  (singleRuns indent folding true (p.indicator "'" true) (Run.ofText text)).indicator "'" false

/-! ### Double quotes -/

/-- The letters that stand for characters behind a backslash. -/
def escapeLetters : List (Char × Char) :=
  [('\x00', '0'), ('\x07', 'a'), ('\x08', 'b'), ('\t', 't'), ('\n', 'n'), ('\x0b', 'v'),
   ('\x0c', 'f'), ('\r', 'r'), ('\x1b', 'e'), ('"', '"'), ('\\', '\\'), ('\x85', 'N'),
   ('\xa0', '_'), ('\u2028', 'L'), ('\u2029', 'P')]

/-- The hexadecimal digits of a character in a given width. -/
def hexDigits (width : Nat) (c : Char) : List Char :=
  let digits := (Nat.toDigits 16 c.toNat).map Char.toUpper
  List.replicate (width - digits.length) '0' ++ digits

/-- What stands for a character that has to be escaped. -/
def escape (c : Char) : List Char :=
  match escapeLetters.lookup c with
  | some letter => ['\\', letter]
  | none =>
    if c.val ≤ 0xFF then '\\' :: 'x' :: hexDigits 2 c
    else if c.val ≤ 0xFFFF then '\\' :: 'u' :: hexDigits 4 c
    else '\\' :: 'U' :: hexDigits 8 c

/-- The characters that stand for themselves in double quotes. -/
def isVerbatim (c : Char) : Bool :=
  c ≠ '"' && c ≠ '\\' && !isBreak c && (isAsciiPrintable c || isBasicPrintable c)

/-- Ends a line inside double quotes; a blank at the head of the next line needs a backslash. -/
def foldDouble (p : Page) (indent : Nat) (behind : Option Char) : Page :=
  let p := (p.put "\\").foldTo indent
  if behind = some ' ' then p.put "\\" else p

/-- Writes the rest of a scalar in double quotes. `pending` holds the stretch before it that is not
written yet, its last character first: a line can end at its start or before a blank, but neither
behind the first character of the scalar nor before its last. -/
def doubleFrom (indent : Nat) (folding : Bool) (first : Bool) (pending : List Char) (p : Page) :
    List Char → Page
  | [] => p.putChars pending.reverse
  | c :: rest =>
    let inside := folding && !first && rest ≠ []
    if isVerbatim c then
      -- a long line ends before a blank, or before a stretch that follows an escape
      if inside && (c = ' ' || pending = []) && width < p.column + pending.length then
        doubleFrom indent folding false [c]
          ((p.putChars pending.reverse).foldDouble indent (some c)) rest
      else doubleFrom indent folding false (c :: pending) p rest
    else
      let p := (p.putChars pending.reverse).putChars (escape c)
      let p := if inside && width + 1 < p.column then p.foldDouble indent rest.head? else p
      doubleFrom indent folding false [] p rest

def double (p : Page) (indent : Nat) (folding : Bool) (text : List Char) : Page :=
  (doubleFrom indent folding true [] (p.indicator "\"" true) text).indicator "\"" false

end Page

end LazyConfig.Yaml
