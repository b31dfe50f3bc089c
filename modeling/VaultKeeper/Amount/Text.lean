import VaultKeeper.Amount
import VaultKeeper.Bytes

/-! # Text of amounts

Amounts are written as the shortest hexadecimal number. They are read in any of four bases, which a
mark in front of the digits chooses; underscores among the digits are skipped, and no digits at all
are zero.
-/

namespace VaultKeeper.Amount

/-- The base that a mark in front of the digits chooses, and the digits. -/
def baseOf : List Char → Nat × List Char
  | '0' :: c :: r =>
    if c = 'x' ∨ c = 'X' then (16, r)
    else if c = 'o' ∨ c = 'O' then (8, r)
    else if c = 'b' ∨ c = 'B' then (2, r)
    else (10, '0' :: c :: r)
  | cs => (10, cs)

/-- The number that digits of a base spell after `n`; underscores may stand among them. -/
def digits? (base : Nat) : (n : Nat) → List Char → Option Nat
  | n, [] => some n
  | n, c :: r =>
    if c = '_' then digits? base n r
    else match Hex.digit? c with
      | some d => if d < base then digits? base (n * base + d) r else none
      | none => none

/-- Read decimal digits without a mark. -/
def ofDecimal? (s : String) : Option Amount := (digits? 10 0 s.toList).bind ofNat?

/-- Read digits, in the base that a mark in front of them chooses. -/
def ofText? (s : String) : Option Amount :=
  let (base, cs) := baseOf s.toList
  (digits? base 0 cs).bind ofNat?

/-- The shortest hexadecimal text. -/
def text (a : Amount) : String := String.ofList ('0' :: 'x' :: Hex.ofNat a.toNat)

end VaultKeeper.Amount
