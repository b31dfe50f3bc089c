import VaultKeeper.Keeper.Loop

/-! # Replays

A replay serves chain snapshots one after the other without sending anything: every batch is
answered by a dry run. Batches are numbered from one, and time is counted in served snapshots. -/

namespace VaultKeeper

/-- What a replay counts. -/
structure Replay where
  /-- Batches that were handed to the executor. -/
  batches : Nat := 0
  /-- Snapshots that were served. -/
  snapshots : Nat := 0
deriving DecidableEq, Inhabited

namespace Replay

/-- Count a batch. -/
def countBatch (r : Replay) : Replay := { r with batches := r.batches + 1 }

/-- Count a snapshot. -/
def countSnapshot (r : Replay) : Replay := { r with snapshots := r.snapshots + 1 }

/-- The surroundings of a keeper in a replay. -/
def environment : Environment Replay where
  isHealthy := return true
  nextId := do
    modify countBatch
    return .ofNat (← get).batches
  now := return ⟨(← get).snapshots, 0⟩
  execute b := return some (dryRun b)

end Replay

namespace Keeper

/-- Empty the plan log. -/
def forgetRecords (k : Keeper) : Keeper :=
  { k with storage := k.storage.map fun s => { s with log := default } }

/-- Serve the text of a snapshot: the keeper after it, and the records that it added to the plan
log. -/
def replay (k : Keeper) (snapshot : String) : StateM Replay (Keeper × List PlanRecord) := do
  modify Replay.countSnapshot
  -- Each snapshot starts with an empty log, so that the records in it are new.
  let k ← k.forgetRecords.tick Replay.environment (some snapshot)
  return (k, ((k.storage.bind (·.log.loadAll.toOption)).getD []))

/-- Stop a replay: the state to keep for the next one. -/
def stopReplay (k : Keeper) : StateM Replay SavedState := do
  return (k.noteRunning false).savedState (← Replay.environment.now)

end Keeper

end VaultKeeper
