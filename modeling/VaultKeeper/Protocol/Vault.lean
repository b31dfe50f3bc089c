import VaultKeeper.Error
import VaultKeeper.Ledger
import VaultKeeper.Protocol.Call

/-! # Tokenised vaults

A tokenised vault is both the pool and its receipt token. The price of a share is the vault's
balance of its asset over the supply of shares; the first shares are minted one for one.
-/

namespace VaultKeeper

/-- A protocol of tokenised vaults. -/
structure VaultProtocol where
  /-- The identifier of the protocol. -/
  id : String
  /-- The asset of each vault. -/
  vaults : Table Address Address := ∅

namespace VaultProtocol

/-- The asset of a configured vault. -/
def asset (p : VaultProtocol) (pool : Address) : Except AllocationError Address :=
  match p.vaults.get? pool with
  | some a => .ok a
  | none => .error (.poolNotConfigured p.id pool)

/-- The receipt token of a deposit, which is the vault. -/
def receipt (p : VaultProtocol) (asset pool : Address) : Except AllocationError Address := do
  if (← p.asset pool) = asset then return pool else throw (.unsupportedAsset pool asset)

/-- What a vault holds of its asset. -/
def poolValue (p : VaultProtocol) (asset pool : Address) (l : Ledger) :
    Except AllocationError Amount := do
  let _ ← p.receipt asset pool
  return l.balance asset pool

/-- The shares minted for a deposit. -/
def minted (p : VaultProtocol) (asset pool : Address) (amount : Amount) (l : Ledger) :
    Except AllocationError Amount := do
  let value ← p.poolValue asset pool l
  let supply := l.supply pool
  return if supply = 0 ∨ value = 0 then amount else amount.mulDiv supply value

/-- The assets paid out for shares. -/
def redeemed (p : VaultProtocol) (asset pool : Address) (shares : Amount) (l : Ledger) :
    Except AllocationError Amount := do
  let value ← p.poolValue asset pool l
  return shares.mulDiv value (l.supply pool)

/-- Approve and deposit an amount. -/
def deposit (p : VaultProtocol) (owner asset pool : Address) (amount : Amount) :
    Except AllocationError (List Instruction) := do
  let _ ← p.receipt asset pool
  return approveAnd asset pool amount ((Call.depositAssets amount owner).sentTo pool)

/-- Redeem shares; nothing for no shares. -/
def withdraw (p : VaultProtocol) (owner asset pool : Address) (shares : Amount) :
    Except AllocationError (List Instruction) := do
  let _ ← p.receipt asset pool
  return if shares = 0 then [] else [(Call.redeemShares shares owner owner).sentTo pool]

end VaultProtocol

end VaultKeeper
