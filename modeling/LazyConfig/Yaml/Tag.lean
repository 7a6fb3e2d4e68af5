import LazyConfig.Text.CharClass

/-!
# Tags of plain scalars

What a reader takes an unquoted scalar for: a truth value, a number, a date, one of the marks with
a meaning of their own, or a text. The forms are those of the core types; letters and digits are
ASCII.
-/

namespace LazyConfig.Yaml

open Text (isDigit isHexDigit)

inductive Tag where
  | null | bool | int | float | timestamp | merge | value | reserved | text
deriving DecidableEq, Repr

/-- The short name of a tag, as it stands before a scalar. -/
def Tag.name : Tag → String
  | null => "!!null"
  | bool => "!!bool"
  | int => "!!int"
  | float => "!!float"
  | timestamp => "!!timestamp"
  | merge => "!!merge"
  | value => "!!value"
  | reserved => "!!yaml"
  | text => "!!str"

namespace Plain

/-! ### Words -/

/-- The words for truth values, in lower case, capitalized or in upper case. -/
def truthWords : List String := ["yes", "no", "true", "false", "on", "off"]

def nullWords : List String := ["null"]

/-- Whether a text is one of the words, in one of the three cases. -/
def isWordOf (words : List String) (text : String) : Bool :=
  words.any fun word => text = word || text = word.capitalize || text = word.toUpper

/-! ### Numbers -/

def dropSign : List Char → List Char
  | '-' :: rest => rest
  | '+' :: rest => rest
  | text => text

/-- Whether a text consists of one or more of some characters and underscores. -/
def isRun (allowed : Char → Bool) (text : List Char) : Bool :=
  text ≠ [] && text.all fun c => allowed c || c = '_'

def isBinaryDigit (c : Char) : Bool := c = '0' || c = '1'

def isOctalDigit (c : Char) : Bool := isDigit c && c ≠ '8' && c ≠ '9'

def isSmallDigit (c : Char) : Bool := isDigit c && c.toNat < '6'.toNat

/-- A number below sixty. -/
def isSixtieth : List Char → Bool
  | [a] => isDigit a
  | [a, b] => isSmallDigit a && isDigit b
  | _ => false

/-- Whether a text is a run of digits that starts with a digit. -/
def isDigits (text : List Char) : Bool :=
  text.head?.any isDigit && isRun isDigit text

/-- An integer in radix two, eight, ten, sixteen or sixty. -/
def isInt (text : List Char) : Bool :=
  match dropSign text with
  | ['0'] => true
  | '0' :: 'b' :: digits => isRun isBinaryDigit digits
  | '0' :: 'x' :: digits => isRun isHexDigit digits
  | '0' :: digits => isRun isOctalDigit digits
  | digits =>
    match digits.splitOn ':' with
    | [] => false
    | first :: rest => isDigits first && rest.all isSixtieth

/-- An exponent with its mark and its sign, or nothing. -/
def isExponent : List Char → Bool
  | [] => true
  | mark :: sign :: digits =>
    (mark = 'e' || mark = 'E') && (sign = '-' || sign = '+') && digits ≠ [] && digits.all isDigit
  | _ => false

def isFractionDigit (c : Char) : Bool := isDigit c || c = '_'

/-- A number with a point; before it stand digits, perhaps in radix sixty. -/
def isFloat (text : List Char) : Bool :=
  let unsigned := dropSign text
  let whole := unsigned.takeWhile (· ≠ '.')
  match unsigned.dropWhile (· ≠ '.') with
  | [] => false
  | _ :: behind =>
    let tail := behind.dropWhile isFractionDigit
    let name := String.ofList behind
    if whole = [] then
      ["inf", "Inf", "INF"].contains name ||
        (unsigned = text &&
          (["nan", "NaN", "NAN"].contains name || (behind.head?.any isDigit && isExponent tail)))
    else
      match whole.splitOn ':' with
      | [] => false
      | [digits] => isDigits digits && isExponent tail
      | first :: rest => isDigits first && rest.all isSixtieth && tail = []

/-! ### Dates -/

/-- The text behind one or two digits at its head. -/
def afterOneOrTwo? : List Char → Option (List Char)
  | a :: b :: rest => if !isDigit a then none else if isDigit b then some rest else some (b :: rest)
  | [a] => if isDigit a then some [] else none
  | [] => none

/-- The text behind exactly so many digits at its head. -/
def afterDigits? (count : Nat) (text : List Char) : Option (List Char) :=
  if (text.take count).length = count && (text.take count).all isDigit then some (text.drop count)
  else none

def after? (mark : Char) : List Char → Option (List Char)
  | c :: rest => if c = mark then some rest else none
  | [] => none

def isGap (c : Char) : Bool := c = ' ' || c = '\t'

/-- The zone behind a time, if any: `Z`, or an offset of hours and perhaps minutes. -/
def isZone (text : List Char) : Bool :=
  match text.dropWhile isGap with
  | [] => text = []
  | ['Z'] => true
  | sign :: rest =>
    (sign = '-' || sign = '+') &&
      match afterOneOrTwo? rest with
      | some [] => true
      | some rest => ((after? ':' rest).bind (afterDigits? 2)) = some []
      | none => false

/-- A time of day, perhaps with a fraction and a zone. -/
def isTime (text : List Char) : Bool :=
  match (do
    let text ← after? ':' (← afterOneOrTwo? text)
    let text ← after? ':' (← afterDigits? 2 text)
    afterDigits? 2 text) with
  | none => false
  | some ('.' :: rest) => isZone (rest.dropWhile isDigit)
  | some rest => isZone rest

/-- The text behind the separator of date and time: a `T`, or blanks. -/
def afterSeparator? : List Char → Option (List Char)
  | c :: rest =>
    if c = 'T' ∨ c = 't' then some rest
    else if isGap c then some (rest.dropWhile isGap)
    else none
  | [] => none

/-- A date of fixed width, or a date and a time. -/
def isTimestamp (text : List Char) : Bool :=
  let fixed := do
    let text ← after? '-' (← afterDigits? 4 text)
    let text ← after? '-' (← afterDigits? 2 text)
    afterDigits? 2 text
  let loose := do
    let text ← after? '-' (← afterDigits? 4 text)
    let text ← after? '-' (← afterOneOrTwo? text)
    afterSeparator? (← afterOneOrTwo? text)
  fixed = some [] || loose.any isTime

end Plain

/-- What an unquoted scalar is taken for. -/
def Tag.ofPlain (text : String) : Tag :=
  let chars := text.toList
  if text = "" ∨ text = "~" ∨ Plain.isWordOf Plain.nullWords text then null
  else if Plain.isWordOf Plain.truthWords text then bool
  else if Plain.isFloat chars then float
  else if Plain.isInt chars then int
  else if text = "<<" then merge
  else if Plain.isTimestamp chars then timestamp
  else if text = "=" then value
  else if text = "!" ∨ text = "&" ∨ text = "*" then reserved
  else .text

end LazyConfig.Yaml
