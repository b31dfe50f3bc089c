import VaultKeeper.Amount
import VaultKeeper.Address

/-! # Ledgers

What the allocator may ask about the state of a chain: balances, supplies, rewards, debts and
prices. A **snapshot** holds the recorded entries of one block. An **overlay** keeps the balances
and debts that planned steps have changed on top of any ledger and passes every other question on.
-/

namespace VaultKeeper

/-- Everything that can be asked about the state of a chain. -/
structure Ledger where
  /-- The balance of a token that an account holds. -/
  balance : (token account : Address) → Amount
  /-- The total supply of a token. -/
  supply : (token : Address) → Amount
  /-- What an account may claim from a gauge or pool. -/
  rewards : (source account : Address) → Amount
  /-- What an account owes in an asset at a lending pool. -/
  debt : (pool asset account : Address) → Amount
  /-- The value of an amount of one asset, in units of another. -/
  quote : (source target : Address) → Amount → Amount

/-! ## Snapshots -/

instance : Std.TransOrd (Address × Address × Address) := inferInstance

/-- The recorded entries of one block. -/
structure Snapshot where
  /-- The height of the block. -/
  block : Nat := 0
  /-- Balances by token and account. -/
  balances : Table (Address × Address) Amount := ∅
  /-- Total supplies by token. -/
  supplies : Table Address Amount := ∅
  /-- Claimable rewards by source and account. -/
  rewards : Table (Address × Address) Amount := ∅
  /-- Debts by pool, asset and account. -/
  debts : Table (Address × Address × Address) Amount := ∅
  /-- Prices by asset. -/
  prices : Table Address Amount := ∅

namespace Snapshot

instance : Inhabited Snapshot := ⟨⟨0, ∅, ∅, ∅, ∅, ∅⟩⟩

/-- Record a balance. -/
def setBalance (s : Snapshot) (token account : Address) (amount : Amount) : Snapshot :=
  { s with balances := s.balances.insert (token, account) amount }

/-- Record a total supply. -/
def setSupply (s : Snapshot) (token : Address) (amount : Amount) : Snapshot :=
  { s with supplies := s.supplies.insert token amount }

/-- Record claimable rewards. -/
def setRewards (s : Snapshot) (source account : Address) (amount : Amount) : Snapshot :=
  { s with rewards := s.rewards.insert (source, account) amount }

/-- Record a debt. -/
def setDebt (s : Snapshot) (pool asset account : Address) (amount : Amount) : Snapshot :=
  { s with debts := s.debts.insert (pool, asset, account) amount }

/-- Record a price. -/
def setPrice (s : Snapshot) (asset : Address) (price : Amount) : Snapshot :=
  { s with prices := s.prices.insert asset price }

/-- An amount of one asset in units of another: the amount itself for equal assets, the ratio of the
prices when both are priced, and zero otherwise. -/
def quote (s : Snapshot) (source target : Address) (amount : Amount) : Amount :=
  if source = target then amount
  else match s.prices.get? source, s.prices.get? target with
    | some p, some q => amount.mulDiv p q
    | _, _ => 0

/-- The answers of a snapshot; what is not recorded is zero. -/
def ledger (s : Snapshot) : Ledger where
  balance token account := (s.balances.get? (token, account)).getD 0
  supply token := (s.supplies.get? token).getD 0
  rewards source account := (s.rewards.get? (source, account)).getD 0
  debt pool asset account := (s.debts.get? (pool, asset, account)).getD 0
  quote := s.quote

end Snapshot

/-! ## Overlays -/

/-- Changed balances and debts on top of a ledger. -/
structure Overlay where
  /-- The ledger underneath. -/
  base : Ledger
  /-- Balances that were changed. -/
  balances : Table (Address × Address) Amount := ∅
  /-- Debts that were changed. -/
  debts : Table (Address × Address × Address) Amount := ∅

namespace Overlay

/-- An overlay without changes. -/
def ofLedger (base : Ledger) : Overlay := { base }

/-- The answers of an overlay: changed entries first, then the ledger underneath. -/
def ledger (o : Overlay) : Ledger where
  balance token account :=
    (o.balances.get? (token, account)).getD (o.base.balance token account)
  supply := o.base.supply
  rewards := o.base.rewards
  debt pool asset account :=
    (o.debts.get? (pool, asset, account)).getD (o.base.debt pool asset account)
  quote := o.base.quote

/-- Replace a balance. -/
def setBalance (o : Overlay) (token account : Address) (amount : Amount) : Overlay :=
  { o with balances := o.balances.insert (token, account) amount }

/-- Replace a debt. -/
def setDebt (o : Overlay) (pool asset account : Address) (amount : Amount) : Overlay :=
  { o with debts := o.debts.insert (pool, asset, account) amount }

/-- Add to a balance. -/
def credit (o : Overlay) (token account : Address) (amount : Amount) : Overlay :=
  o.setBalance token account ((o.ledger.balance token account).addSat amount)

/-- Take from a balance. -/
def debit (o : Overlay) (token account : Address) (amount : Amount) : Overlay :=
  o.setBalance token account ((o.ledger.balance token account).subSat amount)

/-- Add to a debt. -/
def addDebt (o : Overlay) (pool asset account : Address) (amount : Amount) : Overlay :=
  o.setDebt pool asset account ((o.ledger.debt pool asset account).addSat amount)

/-- Take from a debt. -/
def reduceDebt (o : Overlay) (pool asset account : Address) (amount : Amount) : Overlay :=
  o.setDebt pool asset account ((o.ledger.debt pool asset account).subSat amount)

end Overlay

end VaultKeeper
