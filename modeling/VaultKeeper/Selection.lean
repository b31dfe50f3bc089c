import VaultKeeper.Registry

/-! # Selection

Which strategy a risk profile runs for an asset. An override wins; a paused default keeps its cached
strategy; otherwise the best-rated pool that the profile admits becomes a single deposit, which is
registered and cached. Of equally rated pools the one registered first wins.
-/

namespace VaultKeeper

/-- A pool that may back a default strategy. -/
structure Candidate where
  /-- The pool's record. -/
  record : PoolRecord
  /-- The receipt token that the pool mints for the asset. -/
  receipt : Address
deriving DecidableEq, Inhabited

namespace Candidate

/-- Whether a candidate ranks at least as high as another: by rating, then by registration. -/
def ranksBefore (a b : Candidate) : Bool :=
  let x := a.record.rating.getD 0
  let y := b.record.rating.getD 0
  y < x || (x == y && a.record.registration ≤ b.record.registration)

end Candidate

namespace Registry

/-- The pool of a record as a candidate, when the profile admits it and its adapter accepts the
asset. -/
def candidate? (r : Registry) (p : RiskProfile) (asset : Address) (record : PoolRecord) :
    Option Candidate :=
  if p.admits record then do
    let b ← r.binding? record.pool
    if b.adapter.base.accepts asset record.pool then
      let receipt ← (b.adapter.base.receipt asset record.pool).toOption
      return ⟨record, receipt⟩
    else none
  else none

/-- Eligible pools, best first. -/
def rankPools (r : Registry) (p : RiskProfile) (asset : Address) : List Candidate :=
  (r.poolRecords.filterMap (r.candidate? p asset)).mergeSort Candidate.ranksBefore

/-- The strategy that a profile runs for an asset, and the registry that remembers a default
computed on the way. -/
def bestStrategy (r : Registry) (profile : String) (asset : Address) :
    Except AllocationError (Selection × Registry) := do
  let policy ← r.profile profile
  let tokens := tokenHash [asset]
  if let some hash := r.override? profile tokens then
    return (⟨hash, .override⟩, r)
  if let .ratingBased true cached := r.defaultState profile tokens then
    return (⟨cached, .cachedDefault⟩, r)
  match r.rankPools policy asset with
  | [] => throw (.noEligibleStrategy profile asset)
  | best :: _ =>
    let strategy ← Strategy.single asset best.record.pool best.receipt
    return (⟨strategy.hash, .ratingBased⟩,
      (r.register strategy).cacheDefault profile tokens strategy.hash)

end Registry

end VaultKeeper
