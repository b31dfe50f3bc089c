import VaultKeeper.Document

/-! # Percentages

Decimal numbers with a sign, a mantissa below `2 ^ 96` and up to 28 decimal places. They keep their
places: `12.50` is written as it was read. A percentage becomes basis points by rounding its
hundredfold to the nearest whole number, a tie to the even one.
-/

namespace VaultKeeper

/-- A decimal number. -/
structure Decimal where
  /-- Whether there is a minus sign. Zero has one only if it was rounded to zero. -/
  negative : Bool
  /-- The digits as a number. -/
  mantissa : Nat
  /-- How many of the digits stand after the point. -/
  scale : Nat
deriving DecidableEq, Inhabited

namespace Decimal

/-- The first number that a mantissa cannot hold. -/
def mantissaBound : Nat := 2 ^ 96

/-- The greatest number of decimal places. -/
def maxScale : Nat := 28

/-- A decimal number, without a sign on zero. -/
def signed (negative : Bool) (mantissa scale : Nat) : Decimal :=
  ⟨negative && mantissa ≠ 0, mantissa, scale⟩

/-- A whole number. -/
def ofInt (n : Int) : Decimal := signed (n < 0) n.natAbs 0

/-! ## Reading -/

/-- Whether a character may stand among the digits. -/
def isDigitOrGap (c : Char) : Bool := c.isDigit || c = '_'

/-- Mantissas below this number are short: they leave room for another digit in 64 bits. -/
def shortBound : Nat := 1844674407370954906

/-- What decides how a mantissa is rounded. A gap counts as the digit zero if the last digit was put
to a short mantissa; otherwise the next digit decides. -/
def roundingPart (m : Nat) (cs : List Char) : List Char :=
  if m / 10 < shortBound then cs else cs.dropWhile (· = '_')

/-- Round by the first digit that does not fit; the digits after it do not matter. -/
def roundAt (m scale : Nat) (cs : List Char) : Option (Nat × Nat) :=
  if !cs.all isDigitOrGap then none
  else match roundingPart m cs with
    | [] => some (m, scale)
    | c :: _ =>
      if c = '_' || c.toNat - 48 < 5 then some (m, scale)
      else if m + 1 < mantissaBound then some (m + 1, scale)
      else if scale = 0 then none
      else some ((m + 5) / 10, scale - 1)

/-- Read digits after those of the mantissa `m`, of which `scale` stand after the point. The first
digit after the point that does not fit rounds; one before the point is refused. -/
def scan : (point digits : Bool) → (m scale : Nat) → List Char → Option (Nat × Nat)
  | _, digits, m, scale, [] => if digits then some (m, scale) else none
  | point, digits, m, scale, c :: r =>
    -- No place is left, whatever the character is.
    if point && maxScale ≤ scale then roundAt m scale (c :: r)
    else if c.isDigit then
      let next := m * 10 + (c.toNat - 48)
      if next < mantissaBound then scan point true next (if point then scale + 1 else scale) r
      else if point then roundAt m scale (c :: r)
      else none
    else if c = '.' && !point then scan true digits m scale r
    else if c = '_' && digits then scan point digits m scale r
    else none

/-- Read an optional sign and digits with at most one point. Gaps may be marked by underscores once
a digit was read. -/
def ofPlain? (cs : List Char) : Option Decimal :=
  let (negative, cs) := match cs with
    | '-' :: r => (true, r)
    | '+' :: r => (false, r)
    | r => (false, r)
  (scan false false 0 0 cs).map fun (m, scale) => signed negative m scale

/-- Read the digits of an exponent, which fits in 32 bits. -/
def exponent? (cs : List Char) : Option Nat :=
  let cs := match cs with
    | '+' :: r => r
    | r => r
  if cs.isEmpty || !cs.all Char.isDigit then none
  else
    let n := cs.foldl (fun n c => n * 10 + (c.toNat - 48)) 0
    if n < 2 ^ 32 then some n else none

/-- A decimal number without its last `n` digits, half of the last place rounded up. -/
def dropPlaces (d : Decimal) (n : Nat) : Decimal :=
  { d with mantissa := (d.mantissa + 10 ^ n / 2) / 10 ^ n, scale := d.scale - n }

/-- A decimal number with its point moved `n` places to the left. Places that do not fit are
dropped. -/
def shiftLeft (d : Decimal) (n : Nat) : Option Decimal :=
  if maxScale < n then none
  else
    let d := d.dropPlaces (d.scale + n - maxScale)
    some { d with scale := d.scale + n }

/-- A decimal number with its point moved `n` places to the right. -/
def shiftRight (d : Decimal) (n : Nat) : Option Decimal :=
  if n ≤ d.scale then some { d with scale := d.scale - n }
  else if maxScale < n then none
  else
    let m := d.mantissa * 10 ^ (n - d.scale)
    if m < mantissaBound then some { d with mantissa := m, scale := 0 } else none

/-- Read a decimal number with an exponent. -/
def ofScientific? (cs : List Char) : Option Decimal := do
  let isMark (c : Char) : Bool := c = 'e' || c = 'E'
  let base ← ofPlain? (cs.takeWhile (!isMark ·))
  match cs.dropWhile (!isMark ·) with
  | _ :: '-' :: r => base.shiftLeft (← exponent? r)
  | _ :: r => base.shiftRight (← exponent? r)
  | [] => none

/-- Read text, with or without an exponent. -/
def ofText? (s : String) : Option Decimal :=
  (ofPlain? s.toList).orElse fun _ => ofScientific? s.toList

/-- Read a whole number, a floating-point number by its shortest digits, or text. -/
def read? : Document → Option Decimal
  | .int n => some (ofInt n)
  | .float x => ofPlain? x.text
  | .text s => ofText? s
  | _ => none

/-! ## Writing -/

/-- All decimal places. -/
def text (d : Decimal) : String :=
  let cs := Binary64.positional d.mantissa (-d.scale)
  String.ofList (if d.negative then '-' :: cs else cs)

/-! ## Basis points -/

/-- Why a percentage has no basis points. -/
inductive PercentFault
  /-- The percentage is negative or above one hundred. -/
  | outOfRange
  /-- The hundredfold does not fit in a mantissa. -/
  | overflow
deriving DecidableEq, Inhabited

/-- A percentage in basis points. -/
def toBps (d : Decimal) : Except PercentFault Nat :=
  -- Two places cancel the factor, so only a number with fewer places can be too large.
  let hundredfold := d.mantissa * 100
  if mantissaBound ≤ hundredfold / 10 ^ d.scale then .error .overflow
  else
    let bps := Binary64.divRound hundredfold (10 ^ d.scale)
    if (d.negative && bps ≠ 0) || 10000 < bps then .error .outOfRange else .ok bps

end Decimal

end VaultKeeper
