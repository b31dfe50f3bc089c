import VaultKeeper.Error
import VaultKeeper.Ledger
import VaultKeeper.Protocol.Call

/-! # Lending markets

Supplying an asset to a lending market mints its receipt token one for one. Supplied collateral can
back loans up to a loan-to-value ratio, and collateral that outstanding debt locks cannot be
withdrawn.
-/

namespace VaultKeeper

/-- The assets of one lending market. -/
structure LendingMarket where
  /-- The receipt token of each accepted asset. -/
  reserves : Table Address Address := ∅
  /-- The assets that can be borrowed, without repetition. -/
  borrowable : List Address := []

namespace LendingMarket

/-- Accept an asset, with its receipt token. -/
def withReserve (m : LendingMarket) (asset receipt : Address) : LendingMarket :=
  { m with reserves := m.reserves.insert asset receipt }

/-- Let an asset be borrowed. -/
def withBorrowable (m : LendingMarket) (asset : Address) : LendingMarket :=
  if asset ∈ m.borrowable then m else { m with borrowable := m.borrowable ++ [asset] }

end LendingMarket

/-- A protocol of lending markets. -/
structure LendingProtocol where
  /-- The identifier of the protocol. -/
  id : String
  /-- The loan-to-value ratio, in basis points. -/
  ltvBps : Nat
  /-- The configured markets. -/
  markets : Table Address LendingMarket := ∅

namespace LendingProtocol

/-- A configured market. -/
def market (p : LendingProtocol) (pool : Address) : Except AllocationError LendingMarket :=
  match p.markets.get? pool with
  | some m => .ok m
  | none => .error (.poolNotConfigured p.id pool)

/-- The receipt token of an accepted asset. -/
def receipt (p : LendingProtocol) (asset pool : Address) : Except AllocationError Address := do
  match (← p.market pool).reserves.get? asset with
  | some r => return r
  | none => throw (.unsupportedAsset pool asset)

/-- The liquidity of a reserve, which its receipt token holds. -/
def poolValue (p : LendingProtocol) (asset pool : Address) (l : Ledger) :
    Except AllocationError Amount := do
  return l.balance asset (← p.receipt asset pool)

/-- Receipts are minted one for one. -/
def minted (p : LendingProtocol) (asset pool : Address) (amount : Amount) :
    Except AllocationError Amount := do
  let _ ← p.receipt asset pool
  return amount

/-- Receipts are redeemed one for one. -/
def redeemed (p : LendingProtocol) (asset pool : Address) (receipts : Amount) :
    Except AllocationError Amount := do
  let _ ← p.receipt asset pool
  return receipts

/-- What an owner owes at a market, in units of an asset. -/
def debtValue (p : LendingProtocol) (owner pool asset : Address) (l : Ledger) :
    Except AllocationError Amount := do
  let m ← p.market pool
  return Amount.sum (m.borrowable.map fun b => l.quote b asset (l.debt pool b owner))

/-- The receipts an owner holds. -/
def collateral (p : LendingProtocol) (owner asset pool : Address) (l : Ledger) :
    Except AllocationError Amount := do
  return l.balance (← p.receipt asset pool) owner

/-- The receipts that debt does not lock. At a ratio of zero any debt locks them all. -/
def withdrawable (p : LendingProtocol) (owner asset pool : Address) (l : Ledger) :
    Except AllocationError Amount := do
  let held ← p.collateral owner asset pool l
  let owed ← p.debtValue owner pool asset l
  -- No collateral can cover a debt at a ratio of zero.
  if p.ltvBps = 0 ∧ owed ≠ 0 then return 0
  return held.subSat (owed.mulDiv (.ofNat 10000) (.ofNat p.ltvBps))

/-- Approve and supply an amount. -/
def deposit (p : LendingProtocol) (owner asset pool : Address) (amount : Amount) :
    Except AllocationError (List Instruction) := do
  let _ ← p.receipt asset pool
  return approveAnd asset pool amount ((Call.supply asset amount owner).sentTo pool)

/-- Take out supplied assets; nothing for no receipts. -/
def withdraw (p : LendingProtocol) (owner asset pool : Address) (receipts : Amount) :
    Except AllocationError (List Instruction) := do
  let _ ← p.receipt asset pool
  return if receipts = 0 then [] else [(Call.withdraw asset receipts owner).sentTo pool]

/-! ## Borrowing -/

/-- The assets that a market lends. -/
def borrowable (p : LendingProtocol) (pool : Address) :
    Except AllocationError (List Address) := do
  return (← p.market pool).borrowable

/-- What an owner may still borrow against the collateral in an asset: the loan-to-value share of
the collateral less the value of all debt. -/
def borrowCapacity (p : LendingProtocol) (owner asset pool borrowed : Address) (l : Ledger) :
    Except AllocationError Amount := do
  unless borrowed ∈ (← p.borrowable pool) do throw (.unsupportedBorrowAsset pool borrowed)
  let held ← p.collateral owner asset pool l
  let owed ← p.debtValue owner pool borrowed l
  return (l.quote asset borrowed (held.applyBps p.ltvBps)).subSat owed

/-- Borrow as much as the collateral allows; nothing when it allows nothing. -/
def borrowAll (p : LendingProtocol) (owner asset pool borrowed : Address) (l : Ledger) :
    Except AllocationError (List Instruction) := do
  let amount ← p.borrowCapacity owner asset pool borrowed l
  return if amount = 0 then [] else [(Call.borrow borrowed amount owner).sentTo pool]

/-- The part of the debt that the owner's balance covers. -/
def repayable (owner pool borrowed : Address) (l : Ledger) : Amount :=
  min (l.debt pool borrowed owner) (l.balance borrowed owner)

/-- Approve and repay as much debt as the owner's balance covers. -/
def repayAll (p : LendingProtocol) (owner pool borrowed : Address) (l : Ledger) :
    Except AllocationError (List Instruction) := do
  let _ ← p.market pool
  let amount := repayable owner pool borrowed l
  return approveAnd borrowed pool amount ((Call.repay borrowed amount owner).sentTo pool)

end LendingProtocol

end VaultKeeper
