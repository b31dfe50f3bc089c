import VaultKeeper.Document.Plan
import VaultKeeper.Document.Registry
import VaultKeeper.Json

/-! # Saved state

What survives a restart: the saved part of the registry and what each vault runs. It is kept in one
file. A save writes a temporary file and renames it, so that the file is always complete.
-/

namespace VaultKeeper

open Document

/-- What a vault runs. -/
structure VaultState where
  /-- The name of the vault. -/
  name : String
  /-- The strategy that holds the position. -/
  activeStrategy : Option Digest := none
  /-- The last batch with an outcome. -/
  lastBatch : Option BatchId := none
deriving DecidableEq, Inhabited

namespace VaultState

/-- The state of a vault as a document. -/
def document (v : VaultState) : Document :=
  .record [("name", .text v.name), ("active_strategy", .option Digest.document v.activeStrategy),
    ("last_batch", .option BatchId.document v.lastBatch)]

/-- The fields of the state of a vault. -/
def fields : List Field :=
  [.always "name", .always "active_strategy" Digest.layout, .always "last_batch"]

/-- Read the state of a vault. -/
def read? (d : Document) : Option VaultState := do
  let f ← d.fields? .json fields
  return {
    name := ← f.get "name" text?
    activeStrategy := ← f.optional "active_strategy" Digest.read?
    lastBatch := ← f.optional "last_batch" BatchId.read? }

end VaultState

/-- Everything that survives a restart. -/
structure SavedState where
  /-- The version of the format. -/
  version : Nat
  /-- When the state was saved. -/
  savedAt : Instant
  /-- The saved part of the registry. -/
  registry : SavedRegistry
  /-- What each vault runs. -/
  vaults : List VaultState
deriving DecidableEq, Inhabited

namespace SavedState

/-- The version that is written. -/
def currentVersion : Nat := 1

/-- A saved state as a document. -/
def document (s : SavedState) : Document :=
  .record [("version", .nat s.version), ("saved_at", s.savedAt.document),
    ("registry", s.registry.document), ("vaults", .array VaultState.document s.vaults)]

/-- The fields of a saved state. -/
def fields : List Field :=
  [.always "version", .always "saved_at", .always "registry" (recordLayout SavedRegistry.fields),
    .always "vaults" (listLayout VaultState.fields)]

/-- Read a saved state of any version. -/
def read? (d : Document) : Option SavedState := do
  let f ← d.fields? .json fields
  return {
    version := ← f.get "version" (nat? 32)
    savedAt := ← f.get "saved_at" Instant.read?
    registry := ← f.get "registry" SavedRegistry.read?
    vaults := ← f.get "vaults" (list? VaultState.read?) }

/-- Read the text of a saved state. -/
def ofText? (s : String) : Option SavedState := (Json.read? (recordLayout fields) s).bind read?

/-- The bytes that are kept in the file. -/
def bytes (s : SavedState) : Bytes := Bytes.ofText (Json.writeIndented s.document)

end SavedState

/-- Why a saved state cannot be loaded. -/
inductive StateFault
  | notText
  | unreadable
  | version (found : Nat)
deriving DecidableEq, Inhabited

/-- The message of a fault. -/
def StateFault.message : StateFault → String
  | notText => "Failed to read state file"
  | unreadable => "Failed to parse state JSON"
  | version v => s!"Unsupported state version {v}, expected {SavedState.currentVersion}"

/-- The file of the saved state and its temporary neighbour. -/
structure StateFile where
  /-- The content of the file. -/
  current : Option Bytes := none
  /-- The content of the temporary file. -/
  temporary : Option Bytes := none
deriving DecidableEq, Inhabited

namespace StateFile

/-- The name of the file. -/
def currentName : String := "state.json"

/-- The name of the temporary file. -/
def temporaryName : String := "state.json.tmp"

/-- Write the temporary file. -/
def writeTemporary (f : StateFile) (content : Bytes) : StateFile :=
  { f with temporary := some content }

/-- Rename the temporary file to the file. -/
def rename (f : StateFile) : StateFile :=
  match f.temporary with
  | some content => ⟨some content, none⟩
  | none => f

/-- Save a state. -/
def save (f : StateFile) (s : SavedState) : StateFile := (f.writeTemporary s.bytes).rename

/-- Replace the content of the file. -/
def write (f : StateFile) (content : Bytes) : StateFile := { f with current := some content }

/-- The state that bytes hold. -/
def parse (content : Bytes) : Except StateFault SavedState :=
  match Bytes.toText? content with
  | none => .error .notText
  | some t => match SavedState.ofText? t with
    | none => .error .unreadable
    | some s => if s.version = SavedState.currentVersion then .ok s else .error (.version s.version)

/-- Load the saved state; there is none before the first save. -/
def load (f : StateFile) : Except StateFault (Option SavedState) :=
  match f.current with
  | none => .ok none
  | some content => (parse content).map some

/-- The names of the files that exist. -/
def names (f : StateFile) : List String :=
  (f.current.map fun _ => currentName).toList ++ (f.temporary.map fun _ => temporaryName).toList

end StateFile

end VaultKeeper
