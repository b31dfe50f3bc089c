import VaultKeeper.Document.Read
import VaultKeeper.Json
import VaultKeeper.Ledger

/-! # Snapshots as documents

The text form of a chain snapshot: lists of balances, supplies, rewards, debts and prices. Of two
entries for one key the later one counts.
-/

namespace VaultKeeper.Snapshot

open Document

/-- Read a list of entries into a table. -/
def readTable? {κ : Type} [Ord κ] [Std.TransOrd κ] (read : Document → Option (κ × Amount))
    (d : Document) : Option (Table κ Amount) := (list? read d).map Table.ofList

/-- The fields of a balance. -/
def balanceFields : List Field :=
  [.always "token" Address.layout, .always "account" Address.layout, .always "amount"]

/-- Read a balance. -/
def readBalance? (d : Document) : Option ((Address × Address) × Amount) := do
  let f ← d.fields? .json balanceFields
  return ((← f.get "token" Address.read?, ← f.get "account" Address.read?),
    ← f.get "amount" Amount.read?)

/-- The fields of a total supply. -/
def supplyFields : List Field := [.always "token" Address.layout, .always "amount"]

/-- Read a total supply. -/
def readSupply? (d : Document) : Option (Address × Amount) := do
  let f ← d.fields? .json supplyFields
  return (← f.get "token" Address.read?, ← f.get "amount" Amount.read?)

/-- The fields of claimable rewards. -/
def rewardFields : List Field :=
  [.always "source" Address.layout, .always "account" Address.layout, .always "amount"]

/-- Read claimable rewards. -/
def readReward? (d : Document) : Option ((Address × Address) × Amount) := do
  let f ← d.fields? .json rewardFields
  return ((← f.get "source" Address.read?, ← f.get "account" Address.read?),
    ← f.get "amount" Amount.read?)

/-- The fields of a debt. -/
def debtFields : List Field :=
  [.always "pool" Address.layout, .always "asset" Address.layout,
    .always "account" Address.layout, .always "amount"]

/-- Read a debt. -/
def readDebt? (d : Document) : Option ((Address × Address × Address) × Amount) := do
  let f ← d.fields? .json debtFields
  return ((← f.get "pool" Address.read?, ← f.get "asset" Address.read?,
    ← f.get "account" Address.read?), ← f.get "amount" Amount.read?)

/-- The fields of a price. -/
def priceFields : List Field := [.always "asset" Address.layout, .always "price"]

/-- Read a price. -/
def readPrice? (d : Document) : Option (Address × Amount) := do
  let f ← d.fields? .json priceFields
  return (← f.get "asset" Address.read?, ← f.get "price" Amount.read?)

/-- The fields of a snapshot. -/
def fields : List Field :=
  [.default "block", .default "balances" (listLayout balanceFields),
    .default "supplies" (listLayout supplyFields), .default "rewards" (listLayout rewardFields),
    .default "debts" (listLayout debtFields), .default "prices" (listLayout priceFields)]

/-- Read a snapshot; every part may be missing. -/
def read? (d : Document) : Option Snapshot := do
  let f ← d.fields? .json fields
  return {
    block := ← f.getD "block" (nat? 64) 0
    balances := ← f.getD "balances" (readTable? readBalance?) ∅
    supplies := ← f.getD "supplies" (readTable? readSupply?) ∅
    rewards := ← f.getD "rewards" (readTable? readReward?) ∅
    debts := ← f.getD "debts" (readTable? readDebt?) ∅
    prices := ← f.getD "prices" (readTable? readPrice?) ∅ }

/-- Read the text of a snapshot. -/
def ofText? (s : String) : Option Snapshot := (Json.read? (recordLayout fields) s).bind read?

end VaultKeeper.Snapshot
