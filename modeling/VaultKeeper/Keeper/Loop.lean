import VaultKeeper.Document.Snapshot
import VaultKeeper.Keeper

/-! # The keeper's loop

The loop wakes up for ticks of its clock and for a request to stop. When both are due, stopping
wins. A tick reads the chain snapshot from its file and runs a cycle on it; a snapshot that cannot
be read is skipped and makes the keeper not ready.
-/

namespace VaultKeeper

/-- Why there is no chain snapshot. -/
inductive SnapshotFault
  /-- The file cannot be read. -/
  | missing (path : String)
  /-- The text is no snapshot. -/
  | unreadable
deriving DecidableEq, Inhabited

/-- The message of a fault. -/
def SnapshotFault.message : SnapshotFault → String
  | missing path => s!"Failed to read chain snapshot: {path}"
  | unreadable => "Failed to parse chain snapshot JSON"

/-- The snapshot in a file with the given text; `none` stands for a file that cannot be read. -/
def Snapshot.load (path : String) : Option String → Except SnapshotFault Snapshot
  | none => .error (.missing path)
  | some s => match Snapshot.ofText? s with
    | some snapshot => .ok snapshot
    | none => .error .unreadable

/-- What is due when the loop wakes up. -/
structure WakeUp where
  /-- Whether the loop was asked to stop. -/
  stop : Bool
  /-- The text of the snapshot file, if it can be read. -/
  file : Option String
deriving DecidableEq, Inhabited

namespace Keeper

variable {σ : Type}

/-- Note whether the last snapshot could be read. -/
def noteSnapshot (k : Keeper) (readable : Bool) : Keeper :=
  { k with health := { k.health with snapshot := readable } }

/-- Note whether the loop runs. -/
def noteRunning (k : Keeper) (running : Bool) : Keeper :=
  { k with health := { k.health with running } }

/-- One tick: read the snapshot and run a cycle on it. -/
def tick (env : Environment σ) (k : Keeper) (file : Option String) : StateM σ Keeper := do
  match file.bind Snapshot.ofText? with
  | none => return k.noteSnapshot false
  | some snapshot => return (← runCycle env snapshot.ledger (k.noteSnapshot true)).1

/-- Serve wake-ups until the loop is asked to stop, then save the state. -/
def serve (env : Environment σ) : Keeper → List WakeUp → StateM σ Keeper
  | k, [] => pure k
  | k, w :: r =>
    if w.stop then persist env (k.noteRunning false)
    else do serve env (← tick env k w.file) r

/-- Start the loop and serve wake-ups. -/
def run (env : Environment σ) (k : Keeper) (wakeUps : List WakeUp) : StateM σ Keeper :=
  serve env (k.noteRunning true) wakeUps

end Keeper

end VaultKeeper
