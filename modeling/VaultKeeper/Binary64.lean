import VaultKeeper.Powers

/-! # Binary floating-point numbers

Finite numbers of the 64-bit binary format, as exact values `± significand * 2 ^ exponent`. Rounding
goes to the nearest number, a tie to the even significand. The text of a number has the fewest
digits that read back to it.
-/

namespace VaultKeeper

/-- A finite number of the 64-bit binary format. -/
structure Binary64 where
  /-- Whether the number carries a minus sign; zero may carry one too. -/
  negative : Bool
  /-- The significand, below `2 ^ 53`. -/
  significand : Nat
  /-- The exponent, at least `-1074`. -/
  exponent : Int
deriving DecidableEq, Inhabited

namespace Binary64

/-- `numerator / denominator`, rounded to the nearest whole number, a tie to the even one. -/
def divRound (numerator denominator : Nat) : Nat :=
  let q := numerator / denominator
  let r := 2 * (numerator % denominator)
  if r < denominator ∨ (r = denominator ∧ q % 2 = 0) then q else q + 1

/-- The exponent of the greatest power of two that is at most a positive ratio. -/
def log2Ratio (numerator denominator : Nat) : Int :=
  let k : Int := (numerator.log2 : Int) - (denominator.log2 : Int)
  let reached := denominator * 2 ^ k.toNat ≤ numerator * 2 ^ (-k).toNat
  if reached then k else k - 1

/-- The number nearest to a ratio; `none` when it is too large. -/
def ofRatio (negative : Bool) (numerator denominator : Nat) : Option Binary64 :=
  if numerator = 0 then some ⟨negative, 0, 0⟩
  else
    let e := max (log2Ratio numerator denominator - 52) (-1074)
    let m := divRound (numerator * 2 ^ (-e).toNat) (denominator * 2 ^ e.toNat)
    -- Rounding up may carry into a new binary digit.
    let (m, e) := if m = 2 ^ 53 then (2 ^ 52, e + 1) else (m, e)
    if e ≤ 971 then some ⟨negative, m, e⟩ else none

/-- The number nearest to a natural number. -/
def ofNat (n : Nat) : Option Binary64 := ofRatio false n 1

/-- The numerator of the magnitude. -/
def numerator (x : Binary64) : Nat := x.significand * 2 ^ x.exponent.toNat

/-- The denominator of the magnitude. -/
def denominator (x : Binary64) : Nat := 2 ^ (-x.exponent).toNat

/-- The rounded product of two magnitudes. -/
def mul (x y : Binary64) : Option Binary64 :=
  ofRatio false (x.numerator * y.numerator) (x.denominator * y.denominator)

/-- The rounded quotient of two magnitudes. -/
def div (x y : Binary64) : Option Binary64 :=
  ofRatio false (x.numerator * y.denominator) (x.denominator * y.numerator)

/-- The number nearest to `numerator * 10 ^ power`. Powers that are out of reach for the digits at
hand are settled without computing them. -/
def ofDecimal (negative : Bool) (numerator : Nat) (power : Int) : Option Binary64 :=
  let size : Int := (Nat.toDigits 10 numerator).length
  if numerator = 0 ∨ size + power < -330 then some ⟨negative, 0, 0⟩
  else if 310 < size + power then none
  else ofRatio negative (numerator * 10 ^ power.toNat) (10 ^ (-power).toNat)

/-! ## Shortest text -/

/-- Four times the distance from the magnitude to the lower end of what rounds to it, in units of
the significand's last place; half a unit, or a quarter at the bottom of a binade. -/
def lowerGap (x : Binary64) : Nat :=
  if x.significand = 2 ^ 52 ∧ -1074 < x.exponent then 1 else 2

/-- Whether `digits * 10 ^ power` rounds to the magnitude. -/
def rounds (x : Binary64) (digits : Nat) (power : Int) : Bool :=
  -- Both sides are multiplied by four times all denominators.
  let scale := 10 ^ (-power).toNat
  let value := 4 * digits * 10 ^ power.toNat * x.denominator
  let unit := 2 ^ x.exponent.toNat
  let low := (4 * x.significand - x.lowerGap) * unit * scale
  let high := (4 * x.significand + 2) * unit * scale
  if x.significand % 2 = 0 then low ≤ value && value ≤ high else low < value && value < high

/-- The point of the decimal grid `10 ^ power` that is nearest to the magnitude among those that
round to it; a tie goes up. -/
def gridPoint? (x : Binary64) (power : Int) : Option Nat :=
  let n := x.numerator * 10 ^ (-power).toNat
  let d := x.denominator * 10 ^ power.toNat
  let below := n / d
  match x.rounds below power, x.rounds (below + 1) power with
  | true, true => some (if 2 * (n % d) < d then below else below + 1)
  | true, false => some below
  | false, true => some (below + 1)
  | false, false => none

/-- The first decimal grid from `10 ^ power` downwards that holds a point which rounds to the
magnitude. -/
def coarsest (x : Binary64) : (grids : Nat) → (power : Int) → Nat × Int
  | 0, power => (0, power)
  | n + 1, power => match x.gridPoint? power with
    | some digits => (digits, power)
    | none => coarsest x n (power - 1)

/-- The fewest digits that read back to the magnitude, with their power of ten. The finest grid that
is ever needed is `10 ^ -324`. -/
def shortest (x : Binary64) : Nat × Int :=
  if x.significand = 0 then (0, 0) else x.coarsest 633 308

/-- Positional text of `digits * 10 ^ power`. -/
def positional (digits : Nat) (power : Int) : List Char :=
  let ds := Nat.toDigits 10 digits
  if 0 ≤ power then ds ++ List.replicate power.toNat '0'
  else
    let places := (-power).toNat
    let ds := List.replicate (places + 1 - ds.length) '0' ++ ds
    ds.take (ds.length - places) ++ '.' :: ds.drop (ds.length - places)

/-- The shortest text that reads back, without an exponent. -/
def text (x : Binary64) : List Char :=
  let (digits, power) := x.shortest
  if x.negative then '-' :: positional digits power else positional digits power

end Binary64

end VaultKeeper
