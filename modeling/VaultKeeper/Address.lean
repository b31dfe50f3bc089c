import VaultKeeper.Keccak
import VaultKeeper.Table

/-! # Addresses and digests

Accounts, tokens and pools are named by 20-byte addresses, strategies and token lists by 32-byte
digests. Both are kept as bounded numbers and written as hexadecimal text after `0x`. An address
inside a message carries a checksum in the case of its letters.
-/

namespace VaultKeeper

/-- A 20-byte address. -/
structure Address where
  /-- The address as a big-endian number. -/
  toNat : Nat
  /-- Addresses have 160 bits. -/
  lt_bound : toNat < 2 ^ 160
deriving DecidableEq

/-- A 32-byte hash. -/
structure Digest where
  /-- The digest as a big-endian number. -/
  toNat : Nat
  /-- Digests have 256 bits. -/
  lt_bound : toNat < 2 ^ 256

namespace Address

/-- The address given by the low-order 160 bits of a number. -/
def ofNat (n : Nat) : Address := ⟨n % 2 ^ 160, Nat.mod_lt _ (by decide)⟩

/-- The all-zero address. -/
def zero : Address := ofNat 0

instance : Inhabited Address := ⟨zero⟩

instance : Ord Address := ⟨compareOn toNat⟩

theorem toNat_inj {a b : Address} : a.toNat = b.toNat ↔ a = b :=
  ⟨fun h => by cases a; cases b; cases h; rfl, fun h => h ▸ rfl⟩

instance : Std.TransOrd Address := inferInstanceAs (Std.TransCmp (compareOn toNat))

instance : Std.LawfulEqOrd Address where
  compare_self := Std.ReflCmp.compare_self
  eq_of_compare h := toNat_inj.1 (Std.compare_eq_iff_eq (α := Nat) |>.1 h)

/-- The 20 bytes of an address. -/
def toBytes (a : Address) : Bytes := Bytes.bigEndian 20 a.toNat

/-- The address of exactly 20 bytes. -/
def ofBytes? (b : Bytes) : Option Address := if b.length = 20 then some (ofNat b.toNat) else none

/-- The 40 lower-case digits of an address. -/
def digits (a : Address) : List Char := Hex.ofBytes a.toBytes

/-- Lower-case text. -/
def text (a : Address) : String := String.ofList ('0' :: 'x' :: a.digits)

/-- Raise to upper case the letters that stand against a hash digit of at least eight. -/
def raiseCase : (digits hash : List Char) → List Char
  | d :: ds, h :: hs =>
    (if 8 ≤ (Hex.digit? h).getD 0 then d.toUpper else d) :: raiseCase ds hs
  | ds, _ => ds

/-- Text whose upper-case letters are chosen by the Keccak-256 hash of the lower-case digits. -/
def checksumText (a : Address) : String :=
  let hash := Keccak.hash (a.digits.map fun c => UInt8.ofNat c.toNat)
  String.ofList ('0' :: 'x' :: raiseCase a.digits (Hex.ofBytes hash))

/-- Read 40 digits of either case, with or without a leading `0x`. -/
def ofText? (s : String) : Option Address := (Hex.toBytes? (Hex.stripMark s.toList)).bind ofBytes?

end Address

namespace Digest

/-- The digest given by the low-order 256 bits of a number. -/
def ofNat (n : Nat) : Digest := ⟨n % 2 ^ 256, Nat.mod_lt _ (by decide)⟩

instance : Inhabited Digest := ⟨ofNat 0⟩

instance : Ord Digest := ⟨compareOn toNat⟩

theorem toNat_inj {a b : Digest} : a.toNat = b.toNat ↔ a = b :=
  ⟨fun h => by cases a; cases b; cases h; rfl, fun h => h ▸ rfl⟩

instance : DecidableEq Digest := fun _ _ => decidable_of_iff _ toNat_inj

instance : Std.TransOrd Digest := inferInstanceAs (Std.TransCmp (compareOn toNat))

instance : Std.LawfulEqOrd Digest where
  compare_self := Std.ReflCmp.compare_self
  eq_of_compare h := toNat_inj.1 (Std.compare_eq_iff_eq (α := Nat) |>.1 h)

/-- The 32 bytes of a digest. -/
def toBytes (d : Digest) : Bytes := Bytes.bigEndian 32 d.toNat

/-- The digest of exactly 32 bytes. -/
def ofBytes? (b : Bytes) : Option Digest := if b.length = 32 then some (ofNat b.toNat) else none

/-- The Keccak-256 digest of a byte string. -/
def keccak (b : Bytes) : Digest := ofNat (Keccak.hash b).toNat

/-- Lower-case text. -/
def text (d : Digest) : String := String.ofList ('0' :: 'x' :: Hex.ofBytes d.toBytes)

/-- Read 64 digits of either case, with or without a leading `0x`. -/
def ofText? (s : String) : Option Digest := (Hex.toBytes? (Hex.stripMark s.toList)).bind ofBytes?

end Digest

end VaultKeeper
