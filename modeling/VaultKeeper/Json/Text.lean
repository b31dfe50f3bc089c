import VaultKeeper.Bytes

/-! # Quoted text

The text between the quotation marks of a JSON string. Quotation marks, backslashes and control
characters are escaped; a character beyond the first plane may be written as a surrogate pair.
-/

namespace VaultKeeper.Json

/-- Four lower-case hexadecimal digits. -/
def hex4 (n : Nat) : List Char :=
  [Hex.digit (n / 4096 % 16), Hex.digit (n / 256 % 16), Hex.digit (n / 16 % 16), Hex.digit (n % 16)]

/-- How a character is written between quotation marks. -/
def escapeChar (c : Char) : List Char :=
  match c with
  | '"' => ['\\', '"']
  | '\\' => ['\\', '\\']
  | '\n' => ['\\', 'n']
  | '\r' => ['\\', 'r']
  | '\t' => ['\\', 't']
  | '\x08' => ['\\', 'b']
  | '\x0c' => ['\\', 'f']
  | c => if c.toNat < 32 then '\\' :: 'u' :: hex4 c.toNat else [c]

/-- Text as it is written between quotation marks. -/
def escape (cs : List Char) : List Char := cs.flatMap escapeChar

/-- One item of quoted text. -/
inductive Item
  /-- A character. -/
  | char (c : Char)
  /-- A 16-bit unit that was written with four digits. -/
  | unit (n : Nat)
deriving DecidableEq, Inhabited

/-- The number that four hexadecimal digits spell. -/
def hex4? (a b c d : Char) : Option Nat := do
  let a ← Hex.digit? a
  let b ← Hex.digit? b
  let c ← Hex.digit? c
  let d ← Hex.digit? d
  return ((a * 16 + b) * 16 + c) * 16 + d

/-- The character of a short escape. -/
def shortEscape? (c : Char) : Option Char :=
  match c with
  | '"' => some '"'
  | '\\' => some '\\'
  | '/' => some '/'
  | 'n' => some '\n'
  | 'r' => some '\r'
  | 't' => some '\t'
  | 'b' => some '\x08'
  | 'f' => some '\x0c'
  | _ => none

/-- The items of quoted text; `none` for an unknown escape. -/
def items? : List Char → Option (List Item)
  | [] => some []
  | '\\' :: 'u' :: a :: b :: c :: d :: r => do return .unit (← hex4? a b c d) :: (← items? r)
  | '\\' :: c :: r => do return .char (← shortEscape? c) :: (← items? r)
  | c :: r => if c = '\\' then none else (items? r).map (.char c :: ·)

/-- Whether a unit is the first half of a surrogate pair. -/
def isHigh (n : Nat) : Bool := 0xD800 ≤ n && n < 0xDC00

/-- Whether a unit is the second half of a surrogate pair. -/
def isLow (n : Nat) : Bool := 0xDC00 ≤ n && n < 0xE000

/-- The characters of quoted items; `none` when half of a surrogate pair stands alone. -/
def join? : List Item → Option (List Char)
  | [] => some []
  | .char c :: r => (join? r).map (c :: ·)
  | .unit h :: .unit l :: r =>
    if isHigh h then
      if isLow l then (join? r).map (Char.ofNat (0x10000 + (h - 0xD800) * 1024 + (l - 0xDC00)) :: ·)
      else none
    else if isLow h then none
    else (join? (.unit l :: r)).map (Char.ofNat h :: ·)
  | .unit n :: r => if isHigh n || isLow n then none else (join? r).map (Char.ofNat n :: ·)

end VaultKeeper.Json
