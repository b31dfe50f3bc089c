import VaultKeeper.Registry

/-! # Routes

A route is a strategy whose steps have found their adapters. All checks happen while a route is
resolved: each pool is bound, approved when funds go in, accepts the asset that reaches it, and
yields what the step says, either its receipt token or an asset that it lends.
-/

namespace VaultKeeper

/-- Which way funds move. Revoked pools can be left but not entered. -/
inductive Direction
  | enter | exit
deriving DecidableEq, Inhabited

/-- A strategy step with its adapter. -/
structure Leg where
  /-- The index of the step. -/
  index : Nat
  /-- The asset that reaches the pool. -/
  input : Address
  /-- The step. -/
  step : Step
  /-- The pool's adapter and options. -/
  bound : BoundPool
deriving Inhabited

namespace Leg

/-- The pool of the step. -/
def pool (l : Leg) : Address := l.step.pool

/-- The asset that the step yields. -/
def output (l : Leg) : Address := l.step.output

/-- The protocol of the pool. -/
def base (l : Leg) : Protocol := l.bound.adapter.base

/-- A group of instructions of the step. -/
def group (l : Leg) (kind : GroupKind) (instructions : List Instruction) : Group :=
  ⟨l.index, l.pool, kind, instructions⟩

/-- Whether the receipts of the leg are staked when it is the last one. -/
def stakes (l : Leg) : Bool := l.bound.stake && !l.step.isBorrow

end Leg

namespace Registry

/-- Find the adapter of a step and check the step against it. -/
def leg (r : Registry) (d : Direction) (index : Nat) (input : Address) (s : Step) :
    Except AllocationError Leg := do
  let some bound := r.binding? s.pool | throw (.unresolvedAdapter s.pool)
  if d = .enter && !r.isApproved s.pool then throw (.unapprovedPool s.pool)
  unless input ∈ (← bound.adapter.base.acceptedAssets s.pool) do
    throw (.unsupportedAsset s.pool input)
  if s.isBorrow then
    unless s.output ∈ (← (← bound.adapter.lender).borrowable s.pool) do
      throw (.unsupportedBorrowAsset s.pool s.output)
  else
    let receipt ← bound.adapter.base.receipt input s.pool
    unless receipt = s.output do throw (.stepOutputMismatch index receipt s.output)
  return ⟨index, input, s, bound⟩

/-- The legs of steps that start at `index` with an input asset. -/
def legs (r : Registry) (d : Direction) :
    (index : Nat) → (input : Address) → List Step → Except AllocationError (List Leg)
  | _, _, [] => .ok []
  | index, input, s :: rest => do
    let first ← r.leg d index input s
    return first :: (← r.legs d (index + 1) s.output rest)

/-- The route of a strategy. -/
def route (r : Registry) (d : Direction) (s : Strategy) : Except AllocationError (List Leg) :=
  r.legs d 0 s.underlying s.steps

end Registry

/-- Whether a route ends with a stake. -/
def stakesTop (route : List Leg) : Bool := route.getLast?.any (·.stakes)

end VaultKeeper
