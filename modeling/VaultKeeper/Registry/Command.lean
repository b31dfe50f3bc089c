import VaultKeeper.Registry

/-! # Commands

The privileged changes of a registry. Every command belongs to one role, which its caller must hold;
this is checked before everything else. What a command comes to is described here, and what it
leaves behind when it is refused is the matter of `Call`.
-/

namespace VaultKeeper

/-- A privileged change of a registry. -/
inductive Command
  /-- Give a role to an account. -/
  | grantRole (role : Role) (account : Address)
  /-- Take a role from an account. -/
  | revokeRole (role : Role) (account : Address)
  /-- Add an adapter under its identifier. -/
  | registerAdapter (adapter : Adapter)
  /-- Add a pool, unrated and unapproved; a known pool stays as it is. -/
  | addPool (pool : Address)
  /-- Rate a pool or remove its rating. -/
  | ratePool (pool : Address) (rating : Option Nat)
  /-- Approve a pool or revoke the approval. -/
  | approvePool (pool : Address) (approved : Bool)
  /-- Bind a pool to an adapter and choose whether its receipts are staked. -/
  | bindPool (pool : Address) (protocol : String) (stake : Bool)
  /-- Choose which deposit ceiling applies to a protocol. -/
  | setCapMode (protocol : String) (mode : CapMode)
  /-- Set the deposit share of a protocol. -/
  | setProtocolCap (protocol : String) (bps : Nat)
  /-- Set the deposit share of a pool. -/
  | setPoolCap (protocol : String) (pool : Address) (bps : Nat)
  /-- Set the fixed deposit ceiling of a pool and an asset. -/
  | setCapAmount (protocol : String) (pool asset : Address) (amount : Amount)
  /-- Add a risk profile. -/
  | createProfile (name : String) (canBorrow : Bool) (low high : Nat)
  /-- Change the rating range of a risk profile. -/
  | setProfileRange (name : String) (low high : Nat)
  /-- Register a strategy. -/
  | addStrategy (strategy : Strategy)
  /-- Choose the strategy of a profile and an asset, or clear the choice. -/
  | setOverride (profile : String) (asset : Address) (strategy : Option Digest)
  /-- Pause or resume the default strategy of a profile and an asset. -/
  | changeDefault (change : DefaultChange) (profile : String) (asset : Address)

namespace Command

/-- The role that a command belongs to. -/
def role : Command → Role
  | grantRole .. | revokeRole .. | registerAdapter .. | bindPool .. => .governance
  | addPool .. | ratePool .. | approvePool .. | createProfile .. | setProfileRange .. =>
    .riskOperator
  | setCapMode .. | setProtocolCap .. | setPoolCap .. | setCapAmount .. => .financeOperator
  | addStrategy .. | setOverride .. | changeDefault .. => .strategyOperator

end Command

namespace Registry

/-- Add a pool, unrated and unapproved. -/
def addPool (r : Registry) (pool : Address) : Registry :=
  if r.pools.contains pool then r
  else
    { r with
      pools := r.pools.insert pool ⟨pool, none, false, r.nextRegistration⟩
      nextRegistration := r.nextRegistration + 1 }

/-- Change the record of a known pool. -/
def updatePool (r : Registry) (pool : Address) (f : PoolRecord → PoolRecord) :
    Except AllocationError Registry :=
  match r.pools.get? pool with
  | some record => .ok { r with pools := r.pools.insert pool (f record) }
  | none => .error (.unknownPool pool)

/-- Rate a pool; a rating is at most the highest one. -/
def ratePool (r : Registry) (pool : Address) (rating : Option Nat) :
    Except AllocationError Registry :=
  match rating.filter (maxPoolRating < ·) with
  | some n => .error (.invalidRating n)
  | none => r.updatePool pool ({ · with rating })

/-- Bind a known pool to an adapter that is configured for it. Staking needs an adapter that can
stake the pool's receipts. -/
def bindPool (r : Registry) (pool : Address) (protocol : String) (stake : Bool) :
    Except AllocationError Registry := do
  unless r.pools.contains pool do throw (.unknownPool pool)
  let some adapter := r.adapters.get? protocol | throw (.unknownAdapter protocol)
  -- The adapter refuses a pool that it is not configured for.
  let _ ← adapter.base.acceptedAssets pool
  if stake then
    unless (← adapter.stakeable).canStake pool do throw (.stakingUnavailable pool)
  return { r with bindings := r.bindings.insert pool ⟨protocol, stake⟩ }

/-- Change the deposit caps of a registered adapter. -/
def updateCaps (r : Registry) (protocol : String)
    (f : DepositCaps → Except AllocationError DepositCaps) : Except AllocationError Registry := do
  unless r.adapters.contains protocol do throw (.unknownAdapter protocol)
  let caps ← f ((r.caps.get? protocol).getD default)
  return { r with caps := r.caps.insert protocol caps }

/-- Add a risk profile under a new name. -/
def createProfile (r : Registry) (name : String) (canBorrow : Bool) (low high : Nat) :
    Except AllocationError Registry := do
  if r.profiles.contains name then throw (.duplicateRiskProfile name)
  let range ← RatingRange.make low high
  return { r with profiles := r.profiles.insert name ⟨name, canBorrow, range⟩ }

/-- Change the range of a risk profile, which is its only part that can change. -/
def setProfileRange (r : Registry) (name : String) (low high : Nat) :
    Except AllocationError Registry := do
  let range ← RatingRange.make low high
  let profile ← r.profile name
  return { r with profiles := r.profiles.insert name { profile with range } }

/-- Choose a registered strategy of the right asset that the profile may run. -/
def setOverride (r : Registry) (profile : String) (asset : Address) (hash : Digest) :
    Except AllocationError Registry := do
  let policy ← r.profile profile
  let strategy ← r.strategy hash
  unless strategy.underlying = asset do throw (.strategyMismatch hash asset)
  if strategy.hasBorrow && !policy.canBorrow then throw (.borrowNotAllowed profile hash)
  return { r with overrides := r.overrides.insert (profile, tokenHash [asset]) hash }

/-- Clear the chosen strategy of a profile and an asset. -/
def clearOverride (r : Registry) (profile : String) (asset : Address) :
    Except AllocationError Registry := do
  let _ ← r.profile profile
  return { r with overrides := r.overrides.erase (profile, tokenHash [asset]) }

/-- Pause or resume a computed default strategy. -/
def changeDefault (r : Registry) (change : DefaultChange) (profile : String) (asset : Address) :
    Except AllocationError Registry := do
  let _ ← r.profile profile
  let tokens := tokenHash [asset]
  let next ← (r.defaultState profile tokens).change change
  return { r with defaults := r.defaults.insert (profile, tokens) next }

/-- Carry out a command whose caller holds the role. -/
def execute (r : Registry) : Command → Except AllocationError Registry
  | .grantRole role account => .ok { r with roles := r.roles.insert (role, account) () }
  | .revokeRole role account => .ok { r with roles := r.roles.erase (role, account) }
  | .registerAdapter a =>
    if r.adapters.contains a.id then .error (.duplicateAdapter a.id)
    else .ok { r with adapters := r.adapters.insert a.id a }
  | .addPool pool => .ok (r.addPool pool)
  | .ratePool pool rating => r.ratePool pool rating
  | .approvePool pool approved => r.updatePool pool ({ · with approved })
  | .bindPool pool protocol stake => r.bindPool pool protocol stake
  | .setCapMode protocol mode => r.updateCaps protocol fun c => .ok (c.setMode mode)
  | .setProtocolCap protocol bps => r.updateCaps protocol (·.setProtocolBps bps)
  | .setPoolCap protocol pool bps => r.updateCaps protocol (·.setPoolBps pool bps)
  | .setCapAmount protocol pool asset amount =>
    r.updateCaps protocol fun c => .ok (c.setAmount pool asset amount)
  | .createProfile name canBorrow low high => r.createProfile name canBorrow low high
  | .setProfileRange name low high => r.setProfileRange name low high
  | .addStrategy s => .ok (r.register s)
  | .setOverride profile asset (some hash) => r.setOverride profile asset hash
  | .setOverride profile asset none => r.clearOverride profile asset
  | .changeDefault change profile asset => r.changeDefault change profile asset

/-- Carry out a command for a caller, who must hold the command's role. -/
def perform (r : Registry) (caller : Address) (c : Command) : Except AllocationError Registry :=
  if r.hasRole c.role caller then r.execute c else .error (.unauthorized caller c.role)

end Registry

end VaultKeeper
