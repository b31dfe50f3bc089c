import VaultKeeper.Amount.Text
import VaultKeeper.Config
import VaultKeeper.Risk

/-! # Validation of a configuration

The rules a configuration must keep: identifiers occur once, references lead somewhere, ratios and
ratings stay in range, and each pool has the coins and tokens that its family needs. Rules are
checked in a fixed order and the first broken one is reported.
-/

namespace VaultKeeper

/-- What is wrong with a configuration. -/
inductive ConfigFault
  | unreadable
  | zeroCycle
  | emptySnapshotPath
  | duplicateProtocol (id : String)
  | ltvTooHigh (id : String) (bps : Nat)
  | ltvZero (id : String)
  | slippageOutOfRange (id : String) (bps : Nat)
  | protocolPercent (id : String) (percent : Decimal)
  | poolPercent (id : String) (pool : Address) (percent : Decimal)
  | capAmount (id : String) (pool : Address) (amount : String)
  | percentOverflow (percent : Decimal)
  | duplicatePool (pool : Address)
  | unknownProtocol (pool : Address) (protocol : String)
  | ratingTooHigh (pool : Address) (rating : Nat)
  | noCoins (pool : Address)
  | vaultCoins (pool : Address)
  | lendingReceipts (pool : Address)
  | curveCoins (pool : Address)
  | curveReceipt (pool : Address)
  | duplicateProfile (name : String)
  | profileRange (name : String) (low high : Nat)
  | unknownProfile (vault profile : String)
deriving DecidableEq, Inhabited

namespace ConfigFault

/-- The message of a fault. -/
def message : ConfigFault → String
  | unreadable => "Failed to parse config.toml"
  | zeroCycle => "cycle_interval_secs must be positive"
  | emptySnapshotPath => "snapshot path must not be empty"
  | duplicateProtocol id => s!"Duplicate protocol id {id}"
  | ltvTooHigh id bps => s!"Protocol {id} ltv_bps must be below 10000, got {bps}"
  | ltvZero id => s!"Lending protocol {id} needs a positive ltv_bps"
  | slippageOutOfRange id bps => s!"Protocol {id} slippage_bps out of range: {bps}"
  | protocolPercent id percent =>
    s!"Protocol {id} deposit percent must be in [0, 100], got {percent.text}"
  | poolPercent id pool percent =>
    s!"Protocol {id} pool {pool.checksumText} deposit percent must be in [0, 100], got " ++
      percent.text
  | capAmount id pool amount =>
    s!"Protocol {id} cap amount for pool {pool.checksumText} is not an integer: {amount}"
  | percentOverflow percent => s!"Percentage {percent.text} is too large"
  | duplicatePool pool => s!"Duplicate pool {pool.checksumText}"
  | unknownProtocol pool protocol =>
    s!"Pool {pool.checksumText} references unknown protocol {protocol}"
  | ratingTooHigh pool rating =>
    s!"Pool {pool.checksumText} rating must be at most {maxPoolRating}, got {rating}"
  | noCoins pool => s!"Pool {pool.checksumText} has no coins"
  | vaultCoins pool => s!"ERC-4626 pool {pool.checksumText} must have exactly one coin"
  | lendingReceipts pool =>
    s!"Lending pool {pool.checksumText} needs one receipt token per coin"
  | curveCoins pool => s!"Curve pool {pool.checksumText} must have two or three coins"
  | curveReceipt pool => s!"Curve pool {pool.checksumText} has no lp_token"
  | duplicateProfile name => s!"Duplicate risk profile {name}"
  | profileRange name low high =>
    s!"Risk profile {name} has invalid rating range [{low}, {high}]"
  | unknownProfile vault profile =>
    s!"Vault {vault} references unknown risk profile {profile}"

end ConfigFault

/-- Check each item of a list against its key and the keys before it. -/
def checkDistinct {α κ ε : Type} [DecidableEq κ] (key : α → κ) (duplicate : κ → ε)
    (check : α → Except ε Unit) : (seen : List κ) → List α → Except ε Unit
  | _, [] => .ok ()
  | seen, x :: r => do
    if key x ∈ seen then throw (duplicate (key x))
    -- The fault of an item comes before the repetition of a later one.
    check x
    checkDistinct key duplicate check (key x :: seen) r

namespace Config

/-- A percentage lies between zero and one hundred. -/
def checkPercent (percent : Decimal) (fault : ConfigFault) : Except ConfigFault Unit :=
  match percent.toBps with
  | .ok _ => .ok ()
  | .error .outOfRange => .error fault
  | .error .overflow => .error (.percentOverflow percent)

/-- The ratios and caps of a protocol are in range. -/
def checkProtocol (p : ProtocolConfig) : Except ConfigFault Unit := do
  if 10000 ≤ p.ltvBps then throw (.ltvTooHigh p.id p.ltvBps)
  if p.kind = .lending ∧ p.ltvBps = 0 then throw (.ltvZero p.id)
  if 10000 < p.slippageBps then throw (.slippageOutOfRange p.id p.slippageBps)
  checkPercent p.depositCap.protocolPercent (.protocolPercent p.id p.depositCap.protocolPercent)
  p.depositCap.pools.forM fun c => checkPercent c.percent (.poolPercent p.id c.pool c.percent)
  p.depositCap.amounts.forM fun c =>
    if (Amount.ofDecimal? c.amount).isNone then .error (.capAmount p.id c.pool c.amount)
    else .ok ()

/-- A pool has the coins and tokens that its family needs. -/
def checkShape (p : PoolConfig) : ProtocolKind → Except ConfigFault Unit
  | .vault => if p.coins.length = 1 then .ok () else .error (.vaultCoins p.address)
  | .lending =>
    if p.receipts.length = p.coins.length then .ok () else .error (.lendingReceipts p.address)
  | .curve => do
    unless p.coins.length = 2 ∨ p.coins.length = 3 do throw (.curveCoins p.address)
    if p.receipt.isNone then throw (.curveReceipt p.address)

/-- A pool belongs to a known protocol and fits it. -/
def checkPool (protocols : List ProtocolConfig) (p : PoolConfig) : Except ConfigFault Unit := do
  let some protocol := protocols.find? (·.id == p.protocol)
    | throw (.unknownProtocol p.address p.protocol)
  if let some rating := p.rating then
    if maxPoolRating < rating then throw (.ratingTooHigh p.address rating)
  if p.coins.isEmpty then throw (.noCoins p.address)
  checkShape p protocol.kind

/-- The range of a risk profile is neither empty nor above the highest rating. -/
def checkProfile (p : RiskProfileConfig) : Except ConfigFault Unit :=
  if p.minRating ≤ p.maxRating ∧ p.maxRating ≤ maxPoolRating then .ok ()
  else .error (.profileRange p.name p.minRating p.maxRating)

/-- A vault has a known risk profile. -/
def checkVault (profiles : List RiskProfileConfig) (v : VaultConfig) : Except ConfigFault Unit :=
  if profiles.any (·.name == v.riskProfile) then .ok ()
  else .error (.unknownProfile v.name v.riskProfile)

/-- Check all rules in order. -/
def validate (c : Config) : Except ConfigFault Unit := do
  if c.service.cycleSeconds = 0 then throw .zeroCycle
  if c.snapshotPath.isEmpty then throw .emptySnapshotPath
  checkDistinct (·.id) .duplicateProtocol checkProtocol [] c.protocols
  checkDistinct (·.address) .duplicatePool (checkPool c.protocols) [] c.pools
  checkDistinct (·.name) .duplicateProfile checkProfile [] c.riskProfiles
  c.vaults.forM (checkVault c.riskProfiles)

end Config

end VaultKeeper
