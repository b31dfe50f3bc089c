/-! # Layouts

What the reader of a text is looking for, as far as it decides which texts are accepted: where a
list stands for a fixed number of bytes, and where a part without a value cannot be passed over.
Everything else is judged once the text has become a document.
-/

namespace VaultKeeper

/-- What is expected at a place of a text. -/
inductive Layout
  /-- Anything; parts without a value are passed over. -/
  | free
  /-- Anything, but every part of it must have a value. -/
  | entire
  /-- A fixed number of bytes, if it is a list. -/
  | bytes (size : Nat)
  /-- Items that all look alike, if it is a list. -/
  | list (item : Layout)
  /-- Fields in order, if it is a record or a list that stands for one. -/
  | record (fields : List (String × Layout))
deriving Inhabited

namespace Layout

/-- What is expected of an item of a list. -/
def item : Layout → (index : Nat) → Layout
  | entire, _ => entire
  | list l, _ => l
  | record fields, index => (fields[index]?.map (·.2)).getD free
  | _, _ => free

/-- What is expected of a field of a record. -/
def field : Layout → (name : String) → Layout
  | entire, _ => entire
  | record fields, name => (fields.lookup name).getD free
  | _, _ => free

/-- Whether parts without a value are refused. -/
def isEntire : Layout → Bool
  | entire => true
  | _ => false

/-- Whether a list is complete with its first `count` items. -/
def isFull : Layout → (count : Nat) → Bool
  | bytes size, count => size == count
  | _, _ => false

end Layout

end VaultKeeper
