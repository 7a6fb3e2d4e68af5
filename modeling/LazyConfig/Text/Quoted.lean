import LazyConfig.Text.CharClass

/-!
# Texts in messages

The quoted form by which messages show a text. Single quotes stand around it, or double ones if it
holds single quotes and no double ones. The quote, the backslash and what cannot be printed are
written as escapes.
-/

namespace LazyConfig.Text

/-- A number in hexadecimal, filled up with zeros to a width. -/
def hexText (width n : Nat) : String :=
  let digits := Nat.toDigits 16 n
  String.ofList (List.replicate (width - digits.length) '0' ++ digits)

/-- The numeric escape of a character, as short as its code allows. -/
def numericEscape (c : Char) : String :=
  if c.toNat < 0x100 then "\\x" ++ hexText 2 c.toNat
  else if c.toNat < 0x10000 then "\\u" ++ hexText 4 c.toNat
  else "\\U" ++ hexText 8 c.toNat

def quotedChar (quote c : Char) : String :=
  if c = quote ∨ c = '\\' then String.ofList ['\\', c]
  else if c = '\n' then "\\n"
  else if c = '\r' then "\\r"
  else if c = '\t' then "\\t"
  else if isPrintable c then c.toString
  else numericEscape c

/-- The quotes that go around a text. -/
def quoteFor (text : List Char) : Char :=
  if text.contains '\'' && !text.contains '"' then '"' else '\''

/-- A text as messages show it. -/
def quoted (text : String) : String :=
  let quote := quoteFor text.toList
  quote.toString ++ String.join (text.toList.map (quotedChar quote)) ++ quote.toString

end LazyConfig.Text
