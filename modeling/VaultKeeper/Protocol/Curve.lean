import VaultKeeper.Error
import VaultKeeper.Protocol.Router

/-! # Curve pools

A curve pool holds two or three coins against one receipt token. A deposit adds a single coin. A
withdrawal redeems a share of every coin and exchanges the other coins for the wanted one. Receipts
can be staked in the gauge of the pool, which may pay a reward token that a router sells.
-/

namespace VaultKeeper

/-- One configured curve pool. -/
structure CurvePool where
  /-- The coins, by index. -/
  coins : List Address
  /-- The receipt token. -/
  receipt : Address
  /-- The gauge, when receipts can be staked. -/
  gauge : Option Address := none
  /-- The token that the gauge pays. -/
  rewardToken : Option Address := none
deriving DecidableEq, Inhabited

/-- A protocol of curve pools. -/
structure CurveProtocol where
  /-- The identifier of the protocol. -/
  id : String
  /-- The router that sells rewards. -/
  router : SwapRouter
  /-- The tolerance of deposits, withdrawals and exchanges, in basis points. -/
  slippageBps : Nat
  /-- The configured pools. -/
  pools : Table Address CurvePool := ∅

namespace CurveProtocol

/-- A configured pool. -/
def pool (p : CurveProtocol) (pool : Address) : Except AllocationError CurvePool :=
  match p.pools.get? pool with
  | some c => .ok c
  | none => .error (.poolNotConfigured p.id pool)

/-- The index of a coin. -/
def coinIndex (p : CurveProtocol) (asset pool : Address) : Except AllocationError Nat := do
  match (← p.pool pool).coins.idxOf? asset with
  | some i => return i
  | none => throw (.unsupportedAsset pool asset)

/-- The gauge of a pool. -/
def gauge (p : CurveProtocol) (pool : Address) : Except AllocationError Address := do
  match (← p.pool pool).gauge with
  | some g => return g
  | none => throw (.stakingUnavailable pool)

/-- The receipt token of an accepted coin. -/
def receipt (p : CurveProtocol) (asset pool : Address) : Except AllocationError Address := do
  let _ ← p.coinIndex asset pool
  return (← p.pool pool).receipt

/-- The value of all coins that a pool holds, in units of one of them. -/
def poolValue (p : CurveProtocol) (asset pool : Address) (l : Ledger) :
    Except AllocationError Amount := do
  let _ ← p.coinIndex asset pool
  let c ← p.pool pool
  return Amount.sum (c.coins.map fun coin => l.quote coin asset (l.balance coin pool))

/-- The receipts minted for a deposit; the first ones are minted one for one. -/
def minted (p : CurveProtocol) (asset pool : Address) (amount : Amount) (l : Ledger) :
    Except AllocationError Amount := do
  let supply := l.supply (← p.receipt asset pool)
  let value ← p.poolValue asset pool l
  return if supply = 0 ∨ value = 0 then amount else amount.mulDiv supply value

/-- The value of receipts, in units of a coin. -/
def redeemed (p : CurveProtocol) (asset pool : Address) (receipts : Amount) (l : Ledger) :
    Except AllocationError Amount := do
  let supply := l.supply (← p.receipt asset pool)
  let value ← p.poolValue asset pool l
  return receipts.mulDiv value supply

/-- The receipts an owner holds, staked ones included. -/
def stakedAndLoose (p : CurveProtocol) (owner asset pool : Address) (l : Ledger) :
    Except AllocationError Amount := do
  let loose := l.balance (← p.receipt asset pool) owner
  match (← p.pool pool).gauge with
  | some g => return loose.addSat (l.balance g owner)
  | none => return loose

/-- The value of unclaimed rewards, in units of a coin. -/
def pendingRewardValue (p : CurveProtocol) (owner asset pool : Address) (l : Ledger) :
    Except AllocationError Amount := do
  let c ← p.pool pool
  match c.gauge, c.rewardToken with
  | some g, some r => return l.quote r asset (l.rewards g owner)
  | _, _ => return 0

/-- A pool of another size than two or three coins has no call to add or remove liquidity. -/
def checkSize (p : CurveProtocol) (pool : Address) (coins : List Address) :
    Except AllocationError Unit :=
  if coins.length = 2 ∨ coins.length = 3 then .ok () else .error (.poolNotConfigured p.id pool)

/-- Approve one coin and add it to the pool; nothing for a zero amount. -/
def deposit (p : CurveProtocol) (asset pool : Address) (amount : Amount) (l : Ledger) :
    Except AllocationError (List Instruction) := do
  let index ← p.coinIndex asset pool
  if amount = 0 then return []
  -- The size is checked only once there is something to add.
  let c ← p.pool pool
  let minMint := (← p.minted asset pool amount l).lessBps p.slippageBps
  p.checkSize pool c.coins
  let amounts := (c.coins.map fun _ => (0 : Amount)).set index amount
  return [(Call.approve pool amount).sentTo asset,
    (Call.addLiquidity amounts minMint).sentTo pool]

/-- The least amount of a coin that redeeming receipts must pay out. -/
def minShare (p : CurveProtocol) (pool receipt coin : Address) (receipts : Amount) (l : Ledger) :
    Amount :=
  ((l.balance coin pool).mulDiv receipts (l.supply receipt)).lessBps p.slippageBps

/-- Approve the pool for what was received of coin `source` and exchange it for coin `target`. -/
def exchange (p : CurveProtocol) (pool : Address) (source target : Nat) (coin asset : Address)
    (received : Amount) (l : Ledger) : List Instruction :=
  if source = target ∨ received = 0 then []
  else
    let minOut := (l.quote coin asset received).lessBps p.slippageBps
    [(Call.approve pool received).sentTo coin,
      (Call.exchange source target received minOut).sentTo pool]

/-- Redeem a share of every coin and exchange the other coins; nothing for no receipts. -/
def withdraw (p : CurveProtocol) (asset pool : Address) (receipts : Amount) (l : Ledger) :
    Except AllocationError (List Instruction) := do
  let target ← p.coinIndex asset pool
  if receipts = 0 then return []
  let c ← p.pool pool
  p.checkSize pool c.coins
  let shares := c.coins.map fun coin => p.minShare pool c.receipt coin receipts l
  let exchanges := (c.coins.zip shares).zipIdx.flatMap fun ((coin, received), index) =>
    p.exchange pool index target coin asset received l
  return (Call.removeLiquidity receipts shares).sentTo pool :: exchanges

/-! ## Staking -/

/-- Whether receipts of a pool can be staked. -/
def canStake (p : CurveProtocol) (pool : Address) : Bool :=
  (p.pools.get? pool).any (·.gauge.isSome)

/-- Staked receipts that an owner holds. -/
def staked (p : CurveProtocol) (owner pool : Address) (l : Ledger) :
    Except AllocationError Amount := do
  return l.balance (← p.gauge pool) owner

/-- Approve and stake receipts. -/
def stake (p : CurveProtocol) (pool : Address) (receipts : Amount) :
    Except AllocationError (List Instruction) := do
  let g ← p.gauge pool
  let c ← p.pool pool
  return approveAnd c.receipt g receipts ((Call.stake receipts).sentTo g)

/-- Take staked receipts out; nothing for a zero amount. -/
def unstake (p : CurveProtocol) (pool : Address) (amount : Amount) :
    Except AllocationError (List Instruction) := do
  let g ← p.gauge pool
  return if amount = 0 then [] else [(Call.unstake amount).sentTo g]

/-- The value of all receipts and unclaimed rewards of an owner, in units of a coin. -/
def stakedValue (p : CurveProtocol) (owner asset pool : Address) (l : Ledger) :
    Except AllocationError Amount := do
  let value ← p.redeemed asset pool (← p.stakedAndLoose owner asset pool l) l
  return value.addSat (← p.pendingRewardValue owner asset pool l)

/-! ## Rewards -/

/-- The reward token of a pool, when it has a gauge that pays one. -/
def rewardToken (p : CurveProtocol) (pool : Address) :
    Except AllocationError (Option Address) := do
  let c ← p.pool pool
  return if c.gauge.isSome then c.rewardToken else none

/-- What an owner can claim. -/
def unclaimed (p : CurveProtocol) (owner pool : Address) (l : Ledger) :
    Except AllocationError Amount := do
  match (← p.pool pool).gauge with
  | some g => return l.rewards g owner
  | none => return 0

/-- Claim the rewards of a pool; nothing when there is none to claim. -/
def claim (p : CurveProtocol) (owner pool : Address) (l : Ledger) :
    Except AllocationError (List Instruction) := do
  let reward ← p.rewardToken pool
  let pending ← p.unclaimed owner pool l
  if reward.isNone ∨ pending = 0 then return []
  return [Call.claimRewards.sentTo (← p.gauge pool)]

/-- Claim, then sell up to `amount` of the reward token for `target`. -/
def harvestSome (p : CurveProtocol) (owner pool target : Address) (amount : Amount)
    (l : Ledger) : Except AllocationError (List Instruction) := do
  match ← p.rewardToken pool with
  | none => return []
  | some reward =>
    let available := (l.balance reward owner).addSat (← p.unclaimed owner pool l)
    let claims ← p.claim owner pool l
    return claims ++ p.router.swap reward target (min amount available) owner l

/-- Claim, then sell the whole balance of the reward token. -/
def harvestAll (p : CurveProtocol) (owner pool target : Address) (l : Ledger) :
    Except AllocationError (List Instruction) := do
  match ← p.rewardToken pool with
  | none => return []
  | some reward =>
    let total := (l.balance reward owner).addSat (← p.unclaimed owner pool l)
    p.harvestSome owner pool target total l

end CurveProtocol

end VaultKeeper
