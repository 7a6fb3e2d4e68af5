import LazyConfig.Text.CharClass

/-!
# Backslash escapes

A quoted text writes some characters as a backslash followed by one letter, or by a letter and a
fixed number of hexadecimal digits. `unescape` reads such a text back. A malformed escape is
reported by its distance from the end of the escape before it, or from the start of the text.
-/

namespace LazyConfig.Text

/-- The characters that one letter or mark after a backslash stands for. -/
def shortEscape? : Char → Option Char
  | 'a' => some '\x07'
  | 'b' => some '\x08'
  | 'f' => some '\x0c'
  | 'n' => some '\n'
  | 'r' => some '\r'
  | 't' => some '\t'
  | 'v' => some '\x0b'
  | '\\' => some '\\'
  | '\'' => some '\''
  | '"' => some '"'
  | _ => none

/-- How many hexadecimal digits follow the letter of a numeric escape. -/
def escapeDigits? : Char → Option Nat
  | 'x' | 'X' => some 2
  | 'u' => some 4
  | 'U' => some 8
  | _ => none

/-- The code that a field of hexadecimal digits writes. The last place of the field may be a line
feed, which adds nothing to the code. -/
def escapeCode? (field : List Char) : Option Nat :=
  let digits := if field.getLast? = some '\n' then field.dropLast else field
  if digits ≠ [] ∧ digits.all isHexDigit then some (hexNumber digits) else none

/-- The character of a code point; a surrogate is none. -/
def scalar? (code : Nat) : Option Char :=
  if h : code.isValidChar then some (Char.ofNatAux code h) else none

/-- The character that an escape stands for, read from what follows its backslash, and how many
characters follow the backslash in it. -/
def escape? : List Char → Option (Char × Nat)
  | [] => none
  | mark :: rest =>
    match shortEscape? mark with
    | some c => some (c, 1)
    | none => do
      let count ← escapeDigits? mark
      let field := rest.take count
      if field.length < count then none
      let code ← escapeCode? field
      let c ← scalar? code
      return (c, count + 1)

/-- Reads on after `skip` more characters of the escape at hand; `offset` characters have been read
since the last escape. -/
def unescapeFrom (offset skip : Nat) : List Char → Except Nat (List Char)
  | [] => .ok []
  | c :: rest =>
    match skip with
    | skip + 1 => unescapeFrom offset skip rest
    | 0 =>
      if c = '\\' then
        match escape? rest with
        | some (decoded, length) => (decoded :: ·) <$> unescapeFrom 0 length rest
        | none => .error offset
      else (c :: ·) <$> unescapeFrom (offset + 1) 0 rest

/-- The text with every escape replaced by its character, or the place of a malformed escape. -/
def unescape (text : List Char) : Except Nat (List Char) := unescapeFrom 0 0 text

/-- A text without a backslash stands for itself. -/
theorem unescapeFrom_of_not_mem {text : List Char} (offset : Nat) (plain : '\\' ∉ text) :
    unescapeFrom offset 0 text = .ok text := by
  induction text generalizing offset with
  | nil => rfl
  | cons c rest ih =>
    have ordinary : ¬ c = '\\' := fun same => plain (same ▸ List.mem_cons_self)
    have restPlain : '\\' ∉ rest := fun there => plain (List.mem_cons_of_mem c there)
    simp [unescapeFrom, ordinary, ih (offset + 1) restPlain, Functor.map, Except.map]

theorem unescape_of_not_mem {text : List Char} (plain : '\\' ∉ text) :
    unescape text = .ok text :=
  unescapeFrom_of_not_mem 0 plain

end LazyConfig.Text
