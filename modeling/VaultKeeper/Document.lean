import VaultKeeper.Binary64

/-! # Documents

Structured text in memory, whatever notation it was written in: numbers, text, lists and records.
Records keep their fields in the order of the text, repeated names included, because repetition
matters to whoever reads the record.
-/

namespace VaultKeeper

/-- A structured value. -/
inductive Document
  /-- No value. -/
  | null
  /-- A truth value. -/
  | bool (b : Bool)
  /-- A whole number. -/
  | int (n : Int)
  /-- A number with a fraction or an exponent. -/
  | float (x : Binary64)
  /-- Text. -/
  | text (s : String)
  /-- Values in order. -/
  | list (items : List Document)
  /-- Named values in order. -/
  | record (fields : List (String × Document))
  /-- Well-formed text without a value: a number out of range, or half of a surrogate pair. -/
  | unreadable
deriving Inhabited

namespace Document

/-- A natural number. -/
def nat (n : Nat) : Document := .int n

/-- A value that may be absent. -/
def option {α : Type} (f : α → Document) : Option α → Document
  | none => .null
  | some x => f x

/-- A list of values. -/
def array {α : Type} (f : α → Document) (xs : List α) : Document := .list (xs.map f)

end Document

end VaultKeeper
