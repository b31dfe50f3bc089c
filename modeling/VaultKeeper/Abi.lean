import VaultKeeper.Address
import VaultKeeper.Amount

/-! # Contract call encoding

The standard encoding of call arguments in 32-byte words. A tuple is written as its heads followed
by its tails: a static component is a word in the head, and a dynamic component leaves in the head
the byte offset at which its content stands in the tails.
-/

namespace VaultKeeper.Abi

/-- A number as a 32-byte big-endian word. -/
def word (n : Nat) : Bytes := Bytes.bigEndian 32 n

/-- One component of a tuple. -/
inductive Component
  /-- A static component of one word. -/
  | word (n : Nat)
  /-- A dynamic component with its own encoding. -/
  | dynamic (content : Bytes)
deriving DecidableEq

namespace Component

/-- An address component. -/
def address (a : Address) : Component := .word a.toNat

/-- A 256-bit component. -/
def amount (a : Amount) : Component := .word a.toNat

/-- A truth value, as one or zero. -/
def bool (b : Bool) : Component := .word b.toNat

end Component

/-- The heads of a tuple whose next dynamic content stands at byte `offset`. -/
def heads : (offset : Nat) → List Component → Bytes
  | _, [] => []
  | o, .word n :: r => Abi.word n ++ heads o r
  | o, .dynamic b :: r => Abi.word o ++ heads (o + b.length) r

/-- The contents of the dynamic components, one after the other. -/
def tails : List Component → Bytes
  | [] => []
  | .word _ :: r => tails r
  | .dynamic b :: r => b ++ tails r

/-- A tuple: its heads, then its tails. Offsets count from the first head. -/
def encode (cs : List Component) : Bytes := heads (32 * cs.length) cs ++ tails cs

/-- A dynamic array of items that take one or more words each. -/
def array (items : List (List Component)) : Bytes :=
  word items.length ++ items.flatMap (heads 0)

/-- A dynamic array of items that are dynamic themselves. -/
def dynamicArray (items : List Bytes) : Bytes :=
  word items.length ++ encode (items.map .dynamic)

/-- Zero bytes that fill `n` bytes up to a whole number of words. -/
def padding (n : Nat) : Bytes := List.replicate ((32 - n % 32) % 32) 0

/-- A byte string: its length, then its bytes filled up with zeros. -/
def bytes (b : Bytes) : Bytes := word b.length ++ b ++ padding b.length

/-- The four bytes that select the function of a signature. -/
def selector (signature : String) : Bytes :=
  (Keccak.hash (signature.toList.map fun c => UInt8.ofNat c.toNat)).take 4

/-- The calldata of a function and its arguments. -/
def call (signature : String) (args : List Component) : Bytes := selector signature ++ encode args

@[simp] theorem length_word (n : Nat) : (word n).length = 32 := Bytes.length_bigEndian 32 n

@[simp] theorem heads_nil (o : Nat) : heads o [] = [] := rfl

@[simp] theorem tails_nil : tails [] = [] := rfl

@[simp] theorem length_heads (o : Nat) (cs : List Component) :
    (heads o cs).length = 32 * cs.length := by
  induction cs generalizing o with
  | nil => rfl
  | cons c r ih => cases c <;> simp [heads, ih] <;> omega

end VaultKeeper.Abi
