import VaultKeeper.Compile
import VaultKeeper.Config
import VaultKeeper.Health
import VaultKeeper.Metrics
import VaultKeeper.PlanLog
import VaultKeeper.SavedState
import VaultKeeper.Selection

/-! # The keeper

The keeper manages vaults. In each cycle it selects a strategy for every vault, moves the position
when the selection changed, otherwise harvests rewards and deposits idle assets, and hands the plans
to an executor. A vault's active strategy changes only when the executor applied a batch that moves
the position.
-/

namespace VaultKeeper

/-- Where records and states are kept. -/
structure Storage where
  /-- The plan log. -/
  log : PlanLog := {}
  /-- The saved state. -/
  state : StateFile := {}
deriving Inhabited

/-- The keeper of a list of vaults. -/
structure Keeper where
  /-- The configuration of the allocator. -/
  registry : Registry
  /-- The managed vaults, in the order of a cycle. -/
  vaults : List VaultConfig
  /-- What each vault runs, by name. -/
  active : Table String VaultState
  /-- Counts, when metrics are exported. -/
  metrics : Option Metrics := none
  /-- The flags of readiness. -/
  health : Health := {}
  /-- Where records and states are kept, when they are. -/
  storage : Option Storage := none
deriving Inhabited

/-- What the keeper asks of its surroundings, over a state of theirs. -/
structure Environment (σ : Type) where
  /-- Whether the executor accepts batches. -/
  isHealthy : StateM σ Bool
  /-- An identifier for the next batch. -/
  nextId : StateM σ BatchId
  /-- The time. -/
  now : StateM σ Instant
  /-- Hand a batch to the executor; `none` when it fails to answer. -/
  execute : Batch → StateM σ (Option Outcome)

/-- The counts of one cycle. -/
structure CycleReport where
  /-- Batches handed to the executor. -/
  submitted : Nat := 0
  /-- Batches that were applied. -/
  applied : Nat := 0
  /-- Failed selections, compilations and submissions. -/
  failures : Nat := 0
deriving DecidableEq, Inhabited

/-- Sum of two reports. -/
def CycleReport.add (a b : CycleReport) : CycleReport :=
  ⟨a.submitted + b.submitted, a.applied + b.applied, a.failures + b.failures⟩

namespace Keeper

/-- A keeper whose vaults hold no positions. -/
def new (registry : Registry) (vaults : List VaultConfig) : Keeper :=
  { registry, vaults, active := .ofList (vaults.map fun v => (v.name, { name := v.name })) }

/-- What a vault runs. -/
def vaultState? (k : Keeper) (name : String) : Option VaultState := k.active.get? name

/-- Change the counts, when there are any. -/
def count (k : Keeper) (f : Metrics → Metrics) : Keeper := { k with metrics := k.metrics.map f }

/-- Whether the registry knows the strategy that a vault ran. -/
def knowsStrategy (r : Registry) (v : VaultState) : Bool :=
  v.activeStrategy.all r.strategies.contains

/-- Take over a saved state. Vaults that are not managed any more, and vaults whose strategy is not
known, are left out. -/
def restore (k : Keeper) (registry : SavedRegistry) (vaults : List VaultState) : Keeper :=
  -- The strategies are restored first, since vaults are checked against them.
  let r := k.registry.restore registry
  let known := vaults.filter fun v => k.active.contains v.name && knowsStrategy r v
  { k with
    registry := r
    active := known.foldl (fun t v => t.insert v.name v) k.active }

/-- Start with the state file of an earlier run: the state that was saved there is taken over, if
there is one. A state that cannot be loaded stops the start. -/
def resume (k : Keeper) (f : StateFile) : Except StateFault Keeper :=
  f.load.map fun saved => saved.elim k fun s => k.restore s.registry s.vaults

/-- The state to save. -/
def savedState (k : Keeper) (time : Instant) : SavedState :=
  ⟨SavedState.currentVersion, time, k.registry.saved, k.active.values⟩

/-! ## Planning -/

/-- A compilation that a cycle attempts for a vault. -/
structure Attempt where
  /-- What is compiled. -/
  operation : Operation
  /-- The plan, or why there is none. -/
  result : Except AllocationError Plan

namespace Attempt

/-- The plan of an attempt, when it holds an instruction. -/
def plan? (a : Attempt) : Option Plan := a.result.toOption.filter (!·.isNoop)

end Attempt

/-- What a cycle attempts for a vault that runs `current` once `target` was selected: a rebalance
when the selection changed, otherwise a harvest and a deposit of idle assets. -/
def attempts (r : Registry) (v : VaultConfig) (current : Option Digest) (target : Digest)
    (l : Ledger) : List Attempt :=
  let idle := l.balance v.asset v.owner ≠ 0
  match current with
  | none => if idle then [⟨.depositAll, r.depositAll v.owner target l⟩] else []
  | some source =>
    if source ≠ target then [⟨.rebalance, r.rebalance v.owner source target l⟩]
    else
      -- Both are compiled against the ledger of the cycle, before either is carried out.
      (if v.harvest then [⟨.harvestAll, r.harvestAll v.owner source l⟩] else []) ++
        (if idle then [⟨.depositAll, r.depositAll v.owner source l⟩] else [])

/-- Count an attempt: a plan with instructions, or a failure. -/
def countAttempt (k : Keeper) (a : Attempt) : Keeper :=
  match a.result with
  | .error e => k.count (·.countFailure a.operation.text e.kind)
  | .ok p =>
    if p.isNoop then k
    else k.count (·.countPlan a.operation.text p.instructionCount p.stepCount)

/-- Select a strategy for a vault and compile its plans: the plans to submit and the number of
failures. -/
def planVault (k : Keeper) (v : VaultConfig) (l : Ledger) : Keeper × List Plan × Nat :=
  match k.registry.bestStrategy v.riskProfile v.asset with
  | .error e => (k.count (·.countFailure "select" e.kind), [], 1)
  | .ok (selection, registry) =>
    -- A selection may have registered a strategy and recorded a default.
    let k := { k with registry }.count (·.countSelection selection.source.text)
    let current := (k.active.get? v.name).bind (·.activeStrategy)
    let tried := attempts registry v current selection.hash l
    (tried.foldl countAttempt k, tried.filterMap Attempt.plan?,
      tried.countP fun a => a.result.toOption.isNone)

/-! ## Submission -/

/-- Take note of the outcome of a vault's batch. -/
def settle (k : Keeper) (b : Batch) (status : ExecutionStatus) : Keeper :=
  match k.active.get? b.vault with
  | none => k
  | some state =>
    -- Every outcome is noted, but only an applied batch moves the position.
    let state := { state with lastBatch := some b.id }
    if status = .applied && b.plan.operation.movesPosition then
      let steps := ((k.registry.strategies.get? b.plan.strategy).map (·.steps.length)).getD 0
      { k with
        active := k.active.insert b.vault { state with activeStrategy := some b.plan.strategy }
        metrics := k.metrics.map (·.setActiveSteps b.vault steps) }
    else { k with active := k.active.insert b.vault state }

/-- Append a record to the plan log, when there is one. -/
def record (k : Keeper) (r : PlanRecord) : Keeper :=
  { k with storage := k.storage.map fun s => { s with log := s.log.append r } }

/-- The counts of one answer; `none` stands for an executor that did not answer. The outcome of a
batch only counts for a vault that has a state. -/
def outcomeReport (known : Bool) : Option ExecutionStatus → CycleReport
  | some .applied => ⟨1, known.toNat, 0⟩
  | some .simulated => ⟨1, 0, 0⟩
  | some .reverted => ⟨1, 0, known.toNat⟩
  | none => ⟨1, 0, 1⟩

variable {σ : Type}

/-- Hand a plan to the executor and take note of the outcome. -/
def submit (env : Environment σ) (v : VaultConfig) (k : Keeper) (p : Plan) :
    StateM σ (Keeper × CycleReport) := do
  let batch : Batch := ⟨← env.nextId, v.name, p, ← env.now⟩
  let known := k.active.contains v.name
  match ← env.execute batch with
  | none => return (k.count (·.countExecution "error"), outcomeReport known none)
  | some outcome =>
    let k := (k.count (·.countExecution outcome.status.text)).settle batch outcome.status
    return (k.record ⟨batch, outcome, ← env.now⟩, outcomeReport known (some outcome.status))

/-- Hand plans to the executor in order. -/
def submitAll (env : Environment σ) (v : VaultConfig) :
    Keeper → List Plan → StateM σ (Keeper × CycleReport)
  | k, [] => pure (k, {})
  | k, p :: r => do
    let (k, first) ← submit env v k p
    let (k, rest) ← submitAll env v k r
    return (k, first.add rest)

/-! ## Cycles -/

/-- Plan and submit for one vault. -/
def serveVault (env : Environment σ) (l : Ledger) (k : Keeper) (v : VaultConfig) :
    StateM σ (Keeper × CycleReport) := do
  let (k, plans, failures) := k.planVault v l
  let (k, report) ← submitAll env v k plans
  return (k, CycleReport.add { failures } report)

/-- Plan and submit for vaults in order. -/
def serveVaults (env : Environment σ) (l : Ledger) :
    Keeper → List VaultConfig → StateM σ (Keeper × CycleReport)
  | k, [] => pure (k, {})
  | k, v :: r => do
    let (k, first) ← serveVault env l k v
    let (k, rest) ← serveVaults env l k r
    return (k, first.add rest)

/-- Save the state, where states are kept. -/
def persist (env : Environment σ) (k : Keeper) : StateM σ Keeper := do
  match k.storage with
  | none => return k
  | some s =>
    let state := s.state.save (k.savedState (← env.now))
    return { k with storage := some { s with state } }

/-- One pass over all vaults; refused while the executor is unhealthy. -/
def runCycle (env : Environment σ) (l : Ledger) (k : Keeper) :
    StateM σ (Keeper × Option CycleReport) := do
  -- The answer is kept as a flag of readiness even when the cycle is refused.
  let healthy ← env.isHealthy
  let k := { k with health := { k.health with executor := healthy } }
  if healthy then
    let (k, report) ← serveVaults env l k k.vaults
    return (← persist env (k.count (·.countCycle)), some report)
  else return (k, none)

end Keeper

end VaultKeeper
