import VaultKeeper.Powers

/-! # Byte strings

Byte strings are lists of bytes. Numbers are written big-endian in a fixed number of bytes, and
bytes are written as hexadecimal text, two digits each.
-/

namespace VaultKeeper

/-- A byte string. -/
abbrev Bytes := List UInt8

namespace Bytes

/-- Put the `width` low-order big-endian bytes of `n` in front of `acc`. -/
def pushBigEndian : (width n : Nat) → Bytes → Bytes
  | 0, _, acc => acc
  | w + 1, n, acc => pushBigEndian w (n / 256) (UInt8.ofNat (n % 256) :: acc)

/-- The `width` low-order bytes of `n`, most significant first. -/
def bigEndian (width n : Nat) : Bytes := pushBigEndian width n []

/-- The number whose big-endian bytes are given. -/
def toNat (b : Bytes) : Nat := b.foldl (fun n x => n * 256 + x.toNat) 0

theorem length_pushBigEndian (w n : Nat) (acc : Bytes) :
    (pushBigEndian w n acc).length = w + acc.length := by
  induction w generalizing n acc with
  | zero => simp [pushBigEndian]
  | succ w ih => rw [pushBigEndian, ih, List.length_cons]; omega

@[simp] theorem length_bigEndian (w n : Nat) : (bigEndian w n).length = w := by
  simp [bigEndian, length_pushBigEndian]

theorem pushBigEndian_append (w n : Nat) (acc : Bytes) :
    pushBigEndian w n acc = bigEndian w n ++ acc := by
  induction w generalizing n acc with
  | zero => rfl
  | succ w ih =>
    rw [pushBigEndian, bigEndian, pushBigEndian, ih, ih (n / 256) [UInt8.ofNat (n % 256)]]
    simp

theorem bigEndian_succ (w n : Nat) :
    bigEndian (w + 1) n = bigEndian w (n / 256) ++ [UInt8.ofNat (n % 256)] := by
  rw [bigEndian, pushBigEndian, pushBigEndian_append]

theorem toNat_append_singleton (b : Bytes) (x : UInt8) :
    toNat (b ++ [x]) = toNat b * 256 + x.toNat := by simp [toNat]

/-- Reading back a number keeps what fits in the width. -/
theorem toNat_bigEndian (w n : Nat) : toNat (bigEndian w n) = n % 256 ^ w := by
  induction w generalizing n with
  | zero => simp [bigEndian, pushBigEndian, toNat, Nat.mod_one]
  | succ w ih =>
    rw [bigEndian_succ, toNat_append_singleton, ih, Nat.pow_succ, Nat.mul_comm (256 ^ w) 256,
      Nat.mod_mul, UInt8.toNat_ofNat']
    simp
    omega

/-! ## Text as bytes -/

/-- The UTF-8 bytes of text. -/
def ofText (s : String) : Bytes := s.toUTF8.data.toList

/-- The text whose UTF-8 bytes are given. -/
def toText? (b : Bytes) : Option String := String.fromUTF8? ⟨b.toArray⟩

@[simp] theorem toText?_ofText (s : String) : toText? (ofText s) = some s := by
  have h : (⟨(ofText s).toArray⟩ : ByteArray) = s.toByteArray := by simp [ofText]
  rw [toText?, h, String.fromUTF8?, dif_pos s.isValidUTF8]
  rfl

end Bytes

/-! ## Hexadecimal text -/

namespace Hex

/-- The lower-case hexadecimal digit of a number below sixteen. -/
def digit (n : Nat) : Char := if n < 10 then Char.ofNat (48 + n) else Char.ofNat (87 + n)

/-- The value of a hexadecimal digit of either case. -/
def digit? (c : Char) : Option Nat :=
  if '0' ≤ c ∧ c ≤ '9' then some (c.toNat - 48)
  else if 'a' ≤ c ∧ c ≤ 'f' then some (c.toNat - 87)
  else if 'A' ≤ c ∧ c ≤ 'F' then some (c.toNat - 55)
  else none

/-- Two lower-case digits for every byte. -/
def ofBytes : Bytes → List Char
  | [] => []
  | b :: r => digit (b.toNat / 16) :: digit (b.toNat % 16) :: ofBytes r

/-- The bytes that pairs of digits spell; an odd digit count or another character is refused. -/
def toBytes? : List Char → Option Bytes
  | [] => some []
  | [_] => none
  | a :: b :: r => do
    let hi ← digit? a
    let lo ← digit? b
    let rest ← toBytes? r
    return UInt8.ofNat (hi * 16 + lo) :: rest

/-- The shortest lower-case hexadecimal digits of a number; zero has one digit. -/
def ofNat (n : Nat) : List Char := Nat.toDigits 16 n

/-- Drop one leading `0x`. -/
def stripMark : List Char → List Char
  | '0' :: 'x' :: r => r
  | cs => cs

end Hex

end VaultKeeper
