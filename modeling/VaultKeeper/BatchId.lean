import VaultKeeper.Bytes

/-! # Batch identifiers

Batches are named by 128-bit identifiers, written as 32 hexadecimal digits in five groups.
-/

namespace VaultKeeper

/-- A 128-bit identifier. -/
structure BatchId where
  /-- The identifier as a big-endian number. -/
  toNat : Nat
  /-- Identifiers have 128 bits. -/
  lt_bound : toNat < 2 ^ 128
deriving DecidableEq

namespace BatchId

/-- The identifier given by the low-order 128 bits of a number. -/
def ofNat (n : Nat) : BatchId := ⟨n % 2 ^ 128, Nat.mod_lt _ (by decide)⟩

instance : Inhabited BatchId := ⟨ofNat 0⟩

/-- The 32 digits of an identifier. -/
def digits (b : BatchId) : List Char := Hex.ofBytes (Bytes.bigEndian 16 b.toNat)

/-- Put hyphens after the digits of the first four groups. -/
def group (ds : List Char) : List Char :=
  ds.take 8 ++ '-' :: (ds.drop 8).take 4 ++ '-' :: (ds.drop 12).take 4 ++
    '-' :: (ds.drop 16).take 4 ++ '-' :: ds.drop 20

/-- Lower-case text. -/
def text (b : BatchId) : String := String.ofList (group b.digits)

/-- The 32 digits of grouped text; `none` when a hyphen is out of place. -/
def ungroup? (cs : List Char) : Option (List Char) :=
  let ds := cs.filter (· ≠ '-')
  if ds.length = 32 ∧ cs = group ds then some ds else none

/-- What stands inside braces, after the mark of a resource name, or alone. -/
def unwrap (cs : List Char) : List Char :=
  if cs.length = 38 ∧ cs.head? = some '{' ∧ cs.getLast? = some '}' then (cs.drop 1).dropLast
  else if cs.length = 45 ∧ cs.take 9 = "urn:uuid:".toList then cs.drop 9
  else cs

/-- Read 32 digits of either case, grouped or not; grouped ones may be wrapped. -/
def ofText? (s : String) : Option BatchId := do
  let cs := s.toList
  let ds ← if cs.length = 32 then some cs else ungroup? (unwrap cs)
  return ofNat (Bytes.toNat (← Hex.toBytes? ds))

end BatchId

end VaultKeeper
