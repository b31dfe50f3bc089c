import VaultKeeper.DepositCap
import VaultKeeper.Protocol.Curve
import VaultKeeper.Protocol.Lending
import VaultKeeper.Protocol.Vault

/-! # Protocols

What tokenised vaults, lending markets and curve pools have in common: assets go into a pool against
a receipt token, receipts are valued and redeemed, and a deposit is clamped to the headroom that the
deposit caps leave. Amounts to deposit are clamped here, once for all families.
-/

namespace VaultKeeper

/-- A protocol of one of the supported families. -/
inductive Protocol
  | vault (p : VaultProtocol)
  | lending (p : LendingProtocol)
  | curve (p : CurveProtocol)

namespace Protocol

instance : Inhabited Protocol := ⟨.vault ⟨"", ∅⟩⟩

/-- The identifier of a protocol. -/
def id : Protocol → String
  | vault p => p.id
  | lending p => p.id
  | curve p => p.id

/-- The configured pools, in order of their addresses. -/
def pools : Protocol → List Address
  | vault p => p.vaults.keys
  | lending p => p.markets.keys
  | curve p => p.pools.keys

/-- The assets that a pool accepts. -/
def acceptedAssets (p : Protocol) (pool : Address) : Except AllocationError (List Address) :=
  match p with
  | vault p => return [← p.asset pool]
  | lending p => return (← p.market pool).reserves.keys
  | curve p => return (← p.pool pool).coins

/-- Whether a pool accepts an asset. -/
def accepts (p : Protocol) (asset pool : Address) : Bool :=
  match p.acceptedAssets pool with
  | .ok assets => assets.contains asset
  | .error _ => false

/-- The receipt token of an accepted asset. -/
def receipt (p : Protocol) (asset pool : Address) : Except AllocationError Address :=
  match p with
  | vault p => p.receipt asset pool
  | lending p => p.receipt asset pool
  | curve p => p.receipt asset pool

/-- The value of a pool, in units of an asset. -/
def poolValue (p : Protocol) (asset pool : Address) (l : Ledger) : Except AllocationError Amount :=
  match p with
  | vault p => p.poolValue asset pool l
  | lending p => p.poolValue asset pool l
  | curve p => p.poolValue asset pool l

/-- The receipts minted for a deposit. -/
def minted (p : Protocol) (asset pool : Address) (amount : Amount) (l : Ledger) :
    Except AllocationError Amount :=
  match p with
  | vault p => p.minted asset pool amount l
  | lending p => p.minted asset pool amount
  | curve p => p.minted asset pool amount l

/-- What receipts are redeemed for. -/
def redeemed (p : Protocol) (asset pool : Address) (receipts : Amount) (l : Ledger) :
    Except AllocationError Amount :=
  match p with
  | vault p => p.redeemed asset pool receipts l
  | lending p => p.redeemed asset pool receipts
  | curve p => p.redeemed asset pool receipts l

/-- The receipts that an owner holds. -/
def receiptBalance (p : Protocol) (owner asset pool : Address) (l : Ledger) :
    Except AllocationError Amount := do
  return l.balance (← p.receipt asset pool) owner

/-- The value of everything an owner holds in a pool; unclaimed rewards count where there are
any. -/
def holdingsValue (p : Protocol) (owner asset pool : Address) (l : Ledger) :
    Except AllocationError Amount := do
  let value ← p.redeemed asset pool (← p.receiptBalance owner asset pool l) l
  match p with
  | curve p => return value.addSat (← p.pendingRewardValue owner asset pool l)
  | vault _ | lending _ => return value

/-- The exposure of an owner that counts against a deposit cap; staked receipts count too. -/
def positionValue (p : Protocol) (owner asset pool : Address) (l : Ledger) :
    Except AllocationError Amount := do
  let receipts ← match p with
    | curve p => p.stakedAndLoose owner asset pool l
    | vault _ | lending _ => p.receiptBalance owner asset pool l
  p.redeemed asset pool receipts l

/-- The receipts that an owner can redeem right now. -/
def withdrawable (p : Protocol) (owner asset pool : Address) (l : Ledger) :
    Except AllocationError Amount :=
  match p with
  | lending p => p.withdrawable owner asset pool l
  | vault _ | curve _ => p.receiptBalance owner asset pool l

/-- The part of a request that the deposit caps admit. -/
def depositAmount (p : Protocol) (owner asset pool : Address) (requested : Amount)
    (caps : DepositCaps) (l : Ledger) : Except AllocationError Amount := do
  if caps.mode = .unlimited then return requested
  let value ← p.poolValue asset pool l
  let position ← p.positionValue owner asset pool l
  return caps.clamp pool asset requested value position

/-- The calls that deposit exactly `amount`. -/
def deposit (p : Protocol) (owner asset pool : Address) (amount : Amount) (l : Ledger) :
    Except AllocationError (List Instruction) :=
  match p with
  | vault p => p.deposit owner asset pool amount
  | lending p => p.deposit owner asset pool amount
  | curve p => p.deposit asset pool amount l

/-- Deposit as much of a request as the caps admit. -/
def depositSome (p : Protocol) (owner asset pool : Address) (requested : Amount)
    (caps : DepositCaps) (l : Ledger) : Except AllocationError (List Instruction) := do
  let _ ← p.receipt asset pool
  p.deposit owner asset pool (← p.depositAmount owner asset pool requested caps l) l

/-- Deposit as much of the owner's balance as the caps admit. -/
def depositAll (p : Protocol) (owner asset pool : Address) (caps : DepositCaps) (l : Ledger) :
    Except AllocationError (List Instruction) :=
  p.depositSome owner asset pool (l.balance asset owner) caps l

/-- Redeem receipts. -/
def withdrawSome (p : Protocol) (owner asset pool : Address) (receipts : Amount) (l : Ledger) :
    Except AllocationError (List Instruction) :=
  match p with
  | vault p => p.withdraw owner asset pool receipts
  | lending p => p.withdraw owner asset pool receipts
  | curve p => p.withdraw asset pool receipts l

/-- Redeem everything that can be redeemed. -/
def withdrawAll (p : Protocol) (owner asset pool : Address) (l : Ledger) :
    Except AllocationError (List Instruction) := do
  p.withdrawSome owner asset pool (← p.withdrawable owner asset pool l) l

end Protocol

end VaultKeeper
