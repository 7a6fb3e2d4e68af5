/-!
# Encodings

How the bytes of a file stand for characters. In Latin-1 each byte is a character. In UTF-8 a first
byte tells how many more belong to the character and in which range the next one lies, so that no
character has two spellings and no surrogate has any.

A file is read block by block. A text breaks off before a block with malformed bytes, and before a
character that the end of the file cuts off; what stands before can be read. Malformed bytes are
reported with their place in the block.
-/

namespace LazyConfig.Text

inductive Encoding where
  | utf8 | latin1
deriving DecidableEq, Repr

def Encoding.name : Encoding → String
  | utf8 => "utf-8"
  | latin1 => "latin-1"

/-- What is wrong with bytes. -/
inductive Malformation where
  | noFirstByte
  | noNextByte
  | cutOff
deriving DecidableEq, Repr

/-- Bytes that stand for no character: the first of them, where it stands and how many they are. -/
structure Malformed where
  what : Malformation
  byte : UInt8
  position : Nat
  count : Nat
deriving DecidableEq, Repr

/-- A text as far as it can be read: its characters, and what is wrong with the bytes behind them
if it breaks off there. -/
structure Decoded where
  characters : List Char
  fault : Option Malformed := none
deriving DecidableEq, Repr

namespace Utf8

/-- A character that has been read in part. The next byte lies between `low` and `high`. -/
structure Partial where
  /-- The first byte of the character and its position. -/
  byte : UInt8
  position : Nat
  count : Nat
  code : Nat
  owed : Nat
  low : UInt8 := 0x80
  high : UInt8 := 0xBF

/-- What a first byte announces, if it is one. -/
def start? (byte : UInt8) (position : Nat) : Option Partial :=
  let announce := fun (base : UInt8) (owed : Nat) (low high : UInt8) =>
    some (Partial.mk byte position 1 (byte - base).toNat owed low high)
  if byte < 0x80 then announce 0 0 0x80 0xBF
  else if byte < 0xC2 then none
  else if byte < 0xE0 then announce 0xC0 1 0x80 0xBF
  else if byte = 0xE0 then announce 0xE0 2 0xA0 0xBF
  else if byte = 0xED then announce 0xE0 2 0x80 0x9F
  else if byte < 0xF0 then announce 0xE0 2 0x80 0xBF
  else if byte = 0xF0 then announce 0xF0 3 0x90 0xBF
  else if byte < 0xF4 then announce 0xF0 3 0x80 0xBF
  else if byte = 0xF4 then announce 0xF0 3 0x80 0x8F
  else none

/-- The character with one more byte. -/
def Partial.next? (p : Partial) (byte : UInt8) : Option Partial :=
  if p.low ≤ byte ∧ byte ≤ p.high then
    some { p with
      count := p.count + 1, code := p.code * 64 + (byte - 0x80).toNat, owed := p.owed - 1,
      low := 0x80, high := 0xBF }
  else none

def Partial.malformed (p : Partial) (what : Malformation) : Malformed :=
  ⟨what, p.byte, p.position, p.count⟩

/-- Whether a character and the byte after it are the beginning of a surrogate, which is found to be
malformed only when a third byte is asked for. -/
def Partial.startsSurrogate (p : Partial) (byte : UInt8) : Bool :=
  p.byte = 0xED && p.count = 1 && 0xA0 ≤ byte && byte ≤ 0xBF

mutual

/-- Reads on behind a character. The result holds the characters, and how many bytes they take with
those before them. A character that the end of the bytes cuts off is malformed only if they are
the `last` ones. -/
def between (last : Bool) (position : Nat) : List UInt8 → Except Malformed (List Char × Nat)
  | [] => .ok ([], position)
  | byte :: rest =>
    match start? byte position with
    | none => .error ⟨.noFirstByte, byte, position, 1⟩
    | some p =>
      if p.owed = 0 then (·.map (Char.ofNat p.code :: ·) id) <$> between last (position + 1) rest
      else inside last p rest

/-- Reads on inside a character. -/
def inside (last : Bool) (p : Partial) : List UInt8 → Except Malformed (List Char × Nat)
  | [] => if last then .error (p.malformed .cutOff) else .ok ([], p.position)
  | byte :: rest =>
    match p.next? byte with
    | none =>
      if !last && rest = [] && p.startsSurrogate byte then .ok ([], p.position)
      else .error (p.malformed .noNextByte)
    | some p =>
      if p.owed = 0 then
        (·.map (Char.ofNat p.code :: ·) id) <$> between last (p.position + p.count) rest
      else inside last p rest

end

/-- How many bytes are read at once. -/
def blockSize : Nat := 8192

/-- The text of bytes behind those of a character that the block before has cut off. -/
def decodeBlocks (cut : List UInt8) (bytes : List UInt8) : Decoded :=
  if bytes = [] then
    match between true 0 cut with
    | .ok (text, _) => ⟨text, none⟩
    | .error fault => ⟨[], some fault⟩
  else
    let block := cut ++ bytes.take blockSize
    match between false 0 block with
    | .ok (text, used) =>
      let later := decodeBlocks (block.drop used) (bytes.drop blockSize)
      { later with characters := text ++ later.characters }
    | .error fault => ⟨[], some fault⟩
termination_by bytes.length
decreasing_by
  have : 0 < bytes.length := List.length_pos_iff.mpr (by assumption)
  simp [blockSize]
  omega

end Utf8

/-- The text that bytes stand for, as far as they are well formed. -/
def Encoding.decode : Encoding → List UInt8 → Decoded
  | utf8, bytes => Utf8.decodeBlocks [] bytes
  | latin1, bytes => ⟨bytes.map fun b => Char.ofNat b.toNat, none⟩

def Malformation.message : Malformation → String
  | noFirstByte => "invalid start byte"
  | noNextByte => "invalid continuation byte"
  | cutOff => "unexpected end of data"

/-- The two hexadecimal digits of a byte. -/
def hexByte (byte : UInt8) : String :=
  let digits := Nat.toDigits 16 byte.toNat
  String.ofList (List.replicate (2 - digits.length) '0' ++ digits)

def Malformed.message (m : Malformed) : String :=
  let place :=
    if m.count = 1 then s!"byte 0x{hexByte m.byte} in position {m.position}"
    else s!"bytes in position {m.position}-{m.position + m.count - 1}"
  s!"'{Encoding.utf8.name}' codec can't decode {place}: {m.what.message}"

end LazyConfig.Text
