import LazyConfig.Token.Error
import LazyConfig.Text.Escape

/-!
# Quoted literals

A string stands between single or double quotes, or between triples of either; a conversion text
stands between backticks. Escapes are read back between any of them. Inside strings a quote after
a backslash does not close the literal; inside backticks nothing hides a backtick.
-/

namespace LazyConfig.Token.Quotation

/-- Whether the characters read so far, the last of them first, end in a triple of quotes that
closes the literal. The character before the triple must not be a backslash. -/
def closesTriple (quote : Char) : List Char → Bool
  | a :: b :: c :: before :: rest =>
    a = quote && b = quote && c = quote && before ≠ '\\' && 2 ≤ rest.length
  | _ => false

/-- The characters of a string up to its closing quotes, the last of them first, when those of
`seen` have been read. -/
def close? (quote : Char) (triple : Bool) (seen : List Char) (escaped : Bool) :
    List Char → Option (List Char)
  | [] => none
  | c :: rest =>
    let seen := c :: seen
    if c = quote ∧ ¬ escaped ∧ (¬ triple ∨ closesTriple quote seen) then some seen
    else close? quote triple seen (c = '\\' && !escaped) rest

/-- The token of a closed literal: the text between its delimiters, each `width` long. -/
def lexeme (kind : Kind) (width : Nat) (text : List Char) : Except Misread Lexeme :=
  let body := (text.drop width).take (text.length - 2 * width)
  let literal := if body.contains '\\' then Literal.assembled else Literal.text
  match Text.unescape body with
  -- behind two quotes a third one would open a longer literal
  | .ok value =>
    .ok ⟨kind, text.length, literal (String.ofList value), kind = .string && body = [] && width = 1⟩
  | .error index => .error ⟨.escape index, 0, text.length, false⟩

/-- The string that starts with the given quote. -/
def string (quote : Char) (rest : List Char) : Except Misread Lexeme :=
  -- two quotes that a third one does not follow are an empty string
  let triple := rest.take 2 = [quote, quote]
  let width := if triple then 3 else 1
  let opening := List.replicate width quote
  match close? quote triple opening false (rest.drop (width - 1)) with
  | some text => lexeme .string width text.reverse
  | none =>
    let text := quote :: rest
    .error ⟨.openString (String.ofList text), 0, text.length, true⟩

/-- The conversion text after an opening backtick. -/
def backtick (rest : List Char) : Except Misread Lexeme :=
  let body := rest.takeWhile (· ≠ '`')
  if body.length < rest.length then lexeme .backTick 1 ('`' :: body ++ ['`'])
  else
    let text := '`' :: rest
    .error ⟨.openBacktick (String.ofList text), 0, text.length, true⟩

end LazyConfig.Token.Quotation
