import VaultKeeper.Address
import VaultKeeper.Amount.Text
import VaultKeeper.Document
import VaultKeeper.Document.Layout

/-! # Reading documents

How typed values are read out of documents. A record may also be written as the list of its fields
in order. Unknown fields are ignored and repeated ones refused. A choice between words is the word
itself, or a record whose only field is the word with an empty value. Addresses and digests may be
written as the lists of their bytes.
-/

namespace VaultKeeper

namespace Document

/-- The notation that a document was written in. The notations differ in whether a list that stands
for a record may have surplus items, in how many of them may follow the bytes of an address, and in
how the empty value of a word is written. -/
inductive Dialect
  | json | toml
deriving DecidableEq, Inhabited

/-- A truth value. -/
def bool? : Document → Option Bool
  | .bool b => some b
  | _ => none

/-- Text. -/
def text? : Document → Option String
  | .text s => some s
  | _ => none

/-- A natural number of at most the given number of bits. -/
def nat? (bits : Nat) : Document → Option Nat
  | .int (.ofNat n) => if n < 2 ^ bits then some n else none
  | _ => none

/-- A list of values. -/
def list? {α : Type} (read : Document → Option α) : Document → Option (List α)
  | .list items => items.mapM read
  | _ => none

/-- A value that may be null. -/
def option? {α : Type} (read : Document → Option α) : Document → Option (Option α)
  | .null => some none
  | d => (read d).map some

/-- Whether a document is the empty value that may follow a word. -/
def isEmptyValue : Dialect → Document → Bool
  | .json, .null => true
  | .toml, .list [] => true
  | .toml, .record [] => true
  | _, _ => false

/-- One of several values, each with its word. -/
def oneOf? {α : Type} (dialect : Dialect) (choices : List α) (word : α → String) :
    Document → Option α
  | .text s => choices.find? (word · == s)
  | .record [(s, d)] => if isEmptyValue dialect d then choices.find? (word · == s) else none
  | _ => none

/-! ## Records -/

/-- A field of a record. -/
structure Field where
  /-- The name. -/
  name : String
  /-- Whether a list that stands for the record may end before the field. -/
  hasDefault : Bool := false
  /-- What a text has in the field. -/
  layout : Layout := .free
deriving Inhabited

/-- A field that must be written in a list. -/
def Field.always (name : String) (layout : Layout := .free) : Field := ⟨name, false, layout⟩

/-- A field that has a default. -/
def Field.default (name : String) (layout : Layout := .free) : Field := ⟨name, true, layout⟩

/-- The layout of a record. -/
def recordLayout (known : List Field) : Layout :=
  .record (known.map fun f => (f.name, f.layout))

/-- The layout of a list of records. -/
def listLayout (known : List Field) : Layout := .list (recordLayout known)

/-- The known fields of a record that were written. -/
structure Fields where
  /-- Fields, each name at most once. -/
  entries : List (String × Document)
deriving Inhabited

/-- Whether no name occurs twice. -/
def distinctNames : List (String × Document) → Bool
  | [] => true
  | (name, _) :: r => !r.any (·.1 == name) && distinctNames r

/-- The written fields of a record, or of a list that stands for one. -/
def fields? (dialect : Dialect) (known : List Field) : Document → Option Fields
  | .record fields =>
    let fields := fields.filter fun f => known.any (·.name == f.1)
    if distinctNames fields then some ⟨fields⟩ else none
  | .list items =>
    if known.length < items.length && dialect == .json then none
    else if (known.drop items.length).all (·.hasDefault) then
      some ⟨(known.map (·.name)).zip items⟩
    else none
  | _ => none

namespace Fields

/-- The document of a field. -/
def find? (f : Fields) (name : String) : Option Document := f.entries.lookup name

/-- A field that must be there. -/
def get {α : Type} (f : Fields) (name : String) (read : Document → Option α) : Option α :=
  (f.find? name).bind read

/-- A field that may be missing or null. -/
def optional {α : Type} (f : Fields) (name : String) (read : Document → Option α) :
    Option (Option α) :=
  match f.find? name with
  | none => some none
  | some d => option? read d

/-- A field with a default for when it is missing. -/
def getD {α : Type} (f : Fields) (name : String) (read : Document → Option α) (default : α) :
    Option α :=
  match f.find? name with
  | none => some default
  | some d => read d

end Fields

/-! ## Bytes -/

/-- A byte. -/
def byte? (d : Document) : Option UInt8 := (nat? 8 d).map UInt8.ofNat

/-- Bytes as a list of numbers. -/
def byteList? : Document → Option Bytes := list? byte?

/-- Whether surplus items may follow the bytes of a list: one that is no byte, and in TOML also any
others after it. -/
def mayFollow (dialect : Dialect) : (surplus : List Document) → Bool
  | [] => true
  | d :: r => (byte? d).isNone && (r.isEmpty || dialect == .toml)

/-- The first `size` items of a list as bytes. -/
def fixedBytes? (dialect : Dialect) (size : Nat) : Document → Option Bytes
  | .list items =>
    if mayFollow dialect (items.drop size) then byteList? (.list (items.take size)) else none
  | _ => none

end Document

/-! ## Scalars -/

namespace Address

/-- What a text has for an address. -/
def layout : Layout := .bytes 20

/-- An address in a notation: hexadecimal text, or 20 byte values. -/
def readIn? (dialect : Document.Dialect) : Document → Option Address
  | .text s => ofText? s
  | d => (d.fixedBytes? dialect 20).bind ofBytes?

/-- An address in JSON. -/
def read? : Document → Option Address := readIn? .json

/-- An address as lower-case text. -/
def document (a : Address) : Document := .text a.text

end Address

namespace Digest

/-- What a text has for a digest. -/
def layout : Layout := .bytes 32

/-- A digest: hexadecimal text, or 32 byte values. -/
def read? : Document → Option Digest
  | .text s => ofText? s
  | d => (d.fixedBytes? .json 32).bind ofBytes?

/-- A digest as lower-case text. -/
def document (d : Digest) : Document := .text d.text

end Digest

namespace Bytes

/-- Bytes: hexadecimal text, or byte values. -/
def read? : Document → Option Bytes
  | .text s => Hex.toBytes? (Hex.stripMark s.toList)
  | d => Document.byteList? d

/-- Bytes as lower-case text. -/
def text (b : Bytes) : String := String.ofList ('0' :: 'x' :: Hex.ofBytes b)

/-- Bytes as a document. -/
def document (b : Bytes) : Document := .text (text b)

end Bytes

namespace Amount

/-- An amount: a number of at most 64 bits, or text. -/
def read? : Document → Option Amount
  | .text s => ofText? s
  | d => (Document.nat? 64 d).bind ofNat?

/-- An amount as a document. -/
def document (a : Amount) : Document := .text a.text

end Amount

end VaultKeeper
