import VaultKeeper.Document

/-! # Numbers in JSON

The grammar of numbers and the values they get. Whole numbers that fit in 64 bits are exact. Any
other number is a binary one: the digits that fit in 64 bits, scaled by a power of ten in a single
rounded multiplication or division. That can differ from the nearest number in the last place.
-/

namespace VaultKeeper.Json

/-- The parts of a number. -/
structure Numeral where
  /-- Whether there is a minus sign. -/
  negative : Bool
  /-- The digits before the point. -/
  whole : List Char
  /-- The digits after the point, when there is one. -/
  fraction : Option (List Char)
  /-- The sign and the digits of the exponent, when there is one. -/
  exponent : Option (Bool × List Char)
deriving DecidableEq, Inhabited

namespace Numeral

/-- The sign and the digits after an exponent mark. -/
def exponent? : List Char → Option (Option (Bool × List Char))
  | [] => some none
  | e :: r =>
    if e = 'e' ∨ e = 'E' then
      let (negative, digits) := match r with
        | '-' :: ds => (true, ds)
        | '+' :: ds => (false, ds)
        | ds => (false, ds)
      if digits.isEmpty || !digits.all Char.isDigit then none else some (some (negative, digits))
    else none

/-- The parts of a number, as the grammar has them: no leading zeros, and at least one digit on
either side of a point. -/
def ofChars? (cs : List Char) : Option Numeral := do
  let (negative, cs) := match cs with
    | '-' :: r => (true, r)
    | r => (false, r)
  let whole := cs.takeWhile Char.isDigit
  let rest := cs.dropWhile Char.isDigit
  if whole.isEmpty || (whole.length ≠ 1 && whole.head? = some '0') then none
  match rest with
  | '.' :: r =>
    let fraction := r.takeWhile Char.isDigit
    if fraction.isEmpty then none
    return ⟨negative, whole, some fraction, ← exponent? (r.dropWhile Char.isDigit)⟩
  | r => return ⟨negative, whole, none, ← exponent? r⟩

/-- Append decimal digits to a number while it fits in 64 bits; what is left is what does not
fit. -/
def gather : (n : Nat) → List Char → Nat × List Char
  | n, [] => (n, [])
  | n, c :: r =>
    let next := n * 10 + (c.toNat - 48)
    if next < 2 ^ 64 then gather next r else (n, c :: r)

/-- The number that decimal digits spell. -/
def digitsValue (ds : List Char) : Nat := ds.foldl (fun n c => n * 10 + (c.toNat - 48)) 0

/-- A significand times a power of ten, with one rounding for each step of at most `10 ^ 308`;
`none` when the value is too large. -/
def scale : (steps : Nat) → (x : Binary64) → (power : Int) → Option Binary64
  | 0, x, _ => some x
  | n + 1, x, power => do
    if x.significand = 0 then return x
    -- A power beyond the greatest one is refused, even for a tiny significand.
    if 0 ≤ power then
      if 308 < power then none
      x.mul (← Binary64.ofDecimal false 1 power)
    else if -308 ≤ power then
      x.div (← Binary64.ofDecimal false 1 (-power))
    else
      scale n (← x.div (← Binary64.ofDecimal false 1 308)) (power + 308)

/-- The binary number of a sign, a significand and a power of ten. -/
def binary (negative : Bool) (significand : Nat) (power : Int) : Document :=
  match (Binary64.ofNat significand).bind (scale 3 · power) with
  | some x => .float { x with negative }
  | none => .unreadable

/-- The value of a number. Digits after the first one that does not fit count as zeros. -/
def value (n : Numeral) : Document :=
  let (m, dropped) := gather 0 n.whole
  match n.fraction, n.exponent, dropped with
  | none, none, [] =>
    if !n.negative then .int m
    else if m ≠ 0 ∧ m ≤ 2 ^ 63 then .int (-m)
    else binary true m 0
  | fraction, exponent, dropped =>
    let fraction := fraction.getD []
    let (m, surplus) := gather m fraction
    let power : Int := (dropped.length : Int) - ((fraction.length - surplus.length : Nat) : Int)
    match exponent with
    | none => binary n.negative m power
    | some (true, e) => binary n.negative m (power - digitsValue e)
    | some (false, e) => binary n.negative m (power + digitsValue e)

end Numeral

end VaultKeeper.Json
