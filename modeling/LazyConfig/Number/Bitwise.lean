/-!
# Bitwise operators on integers

An integer of either sign is taken as an endless row of binary digits, in two's complement: the row
of a negative number ends in ones. The operators work on each place.
-/

namespace LazyConfig.Bitwise

/-- The places that are one in `m` and zero in `n`. -/
def without (m n : Nat) : Nat := m - (m &&& n)

def complement (n : Int) : Int := -n - 1

def and : Int → Int → Int
  | .ofNat m, .ofNat n => .ofNat (m &&& n)
  | .ofNat m, .negSucc n => .ofNat (without m n)
  | .negSucc m, .ofNat n => .ofNat (without n m)
  | .negSucc m, .negSucc n => .negSucc (m ||| n)

def or : Int → Int → Int
  | .ofNat m, .ofNat n => .ofNat (m ||| n)
  | .ofNat m, .negSucc n => .negSucc (without n m)
  | .negSucc m, .ofNat n => .negSucc (without m n)
  | .negSucc m, .negSucc n => .negSucc (m &&& n)

def xor : Int → Int → Int
  | .ofNat m, .ofNat n => .ofNat (m ^^^ n)
  | .ofNat m, .negSucc n => .negSucc (m ^^^ n)
  | .negSucc m, .ofNat n => .negSucc (m ^^^ n)
  | .negSucc m, .negSucc n => .ofNat (m ^^^ n)

/-- How many binary digits the magnitude of an integer takes. -/
def length (n : Int) : Nat := if n = 0 then 0 else Nat.log2 n.natAbs + 1

/-- The integer moved by some places towards the high end. -/
def shiftLeft (n : Int) (places : Nat) : Int := n * (Nat.pow 2 places : Nat)

/-- The integer moved by some places towards the low end, rounded down. -/
def shiftRight (n : Int) (places : Nat) : Int :=
  if length n ≤ places then (if n < 0 then -1 else 0) else n.fdiv (Nat.pow 2 places : Nat)

end LazyConfig.Bitwise
