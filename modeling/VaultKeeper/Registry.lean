import VaultKeeper.Adapter
import VaultKeeper.Risk
import VaultKeeper.Strategy

/-! # The registry

Everything the allocator is configured with: roles, adapters and their deposit caps, rated pools and
their bindings, registered strategies, risk profiles, overrides and default strategies. This module
holds the data and the questions; who may change what is the matter of `Command`.
-/

namespace VaultKeeper

/-- The adapter a pool is bound to, by name, and whether receipts are staked after a deposit. -/
structure Binding where
  /-- The identifier of the adapter. -/
  protocol : String
  /-- Whether the receipts of a final deposit are staked. -/
  stake : Bool
deriving DecidableEq, Inhabited

/-- A pool's adapter with the options that apply to it. -/
structure BoundPool where
  /-- The adapter. -/
  adapter : Adapter
  /-- Whether the receipts of a final deposit are staked. -/
  stake : Bool
  /-- The deposit caps of the adapter's protocol. -/
  caps : DepositCaps
deriving Inhabited

/-- The configuration of the allocator. -/
structure Registry where
  /-- The account that holds every role. -/
  governance : Address
  /-- Further accounts, by role. -/
  roles : Table (Role × Address) Unit := ∅
  /-- Adapters by identifier. -/
  adapters : Table String Adapter := ∅
  /-- Deposit caps by adapter; adapters that are not listed have no limit. -/
  caps : Table String DepositCaps := ∅
  /-- Rated pools. -/
  pools : Table Address PoolRecord := ∅
  /-- The place in the order of registration that the next pool takes. -/
  nextRegistration : Nat := 0
  /-- Which adapter each pool is bound to. -/
  bindings : Table Address Binding := ∅
  /-- Registered strategies by digest. -/
  strategies : Table Digest Strategy := ∅
  /-- Risk profiles by name. -/
  profiles : Table String RiskProfile := ∅
  /-- Strategies that operators chose, by profile and token hash. -/
  overrides : Table (String × Digest) Digest := ∅
  /-- Default strategies, by profile and token hash. -/
  defaults : Table (String × Digest) DefaultState := ∅

namespace Registry

/-- A registry that only knows its governance account. -/
def new (governance : Address) : Registry := { governance }

instance : Inhabited Registry := ⟨new .zero⟩

/-- Whether an account holds a role; the governance account holds them all. -/
def hasRole (r : Registry) (role : Role) (account : Address) : Bool :=
  account = r.governance || r.roles.contains (role, account)

/-- Pools in the order of their registration. -/
def poolRecords (r : Registry) : List PoolRecord :=
  r.pools.values.mergeSort fun p q => p.registration ≤ q.registration

/-- Whether deposits may enter a pool. -/
def isApproved (r : Registry) (pool : Address) : Bool := (r.pools.get? pool).any (·.approved)

/-- The adapter a pool is bound to, with its caps. -/
def binding? (r : Registry) (pool : Address) : Option BoundPool := do
  let b ← r.bindings.get? pool
  let adapter ← r.adapters.get? b.protocol
  return ⟨adapter, b.stake, (r.caps.get? b.protocol).getD default⟩

/-- A registered strategy. -/
def strategy (r : Registry) (hash : Digest) : Except AllocationError Strategy :=
  match r.strategies.get? hash with
  | some s => .ok s
  | none => .error (.unknownStrategy hash)

/-- A risk profile. -/
def profile (r : Registry) (name : String) : Except AllocationError RiskProfile :=
  match r.profiles.get? name with
  | some p => .ok p
  | none => .error (.unknownRiskProfile name)

/-- The strategy that an operator chose for a profile and a token hash. -/
def override? (r : Registry) (profile : String) (tokens : Digest) : Option Digest :=
  r.overrides.get? (profile, tokens)

/-- The default strategy of a profile and a token hash. -/
def defaultState (r : Registry) (profile : String) (tokens : Digest) : DefaultState :=
  (r.defaults.get? (profile, tokens)).getD .unset

/-- Register a strategy; one that is registered stays as it is. -/
def register (r : Registry) (s : Strategy) : Registry :=
  if r.strategies.contains s.hash then r
  else { r with strategies := r.strategies.insert s.hash s }

/-- Record a freshly computed default strategy. -/
def cacheDefault (r : Registry) (profile : String) (tokens hash : Digest) : Registry :=
  { r with
    defaults := r.defaults.insert (profile, tokens) ((r.defaultState profile tokens).cache hash) }

end Registry

end VaultKeeper
