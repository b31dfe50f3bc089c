import VaultKeeper.Decimal
import VaultKeeper.DepositCap

/-! # Configuration

What an operator writes down for the allocator: the service and its files, who governs it, the
deployed protocols with their deposit caps, the pools, the risk profiles and the managed vaults.
-/

namespace VaultKeeper

/-- The service and its cadence. -/
structure ServiceConfig where
  /-- The name of the service. -/
  name : String
  /-- How much is logged. -/
  logLevel : String := "info"
  /-- Whether plans are compiled without being sent. -/
  dryRun : Bool := true
  /-- Seconds between two cycles. -/
  cycleSeconds : Nat := 60
  /-- The contract that batches are encoded for. -/
  multicall : Option Address := none
deriving Inhabited

/-- The export of metrics. -/
structure MetricsConfig where
  /-- Whether metrics are exported. -/
  enabled : Bool := true
  /-- The address that serves them. -/
  bindAddress : String := "0.0.0.0:9090"
deriving Inhabited

/-- The governance account and the holders of the other roles. -/
structure GovernanceConfig where
  /-- The account that holds every role. -/
  admin : Address
  /-- Accounts that rate and approve pools. -/
  riskOperators : List Address := []
  /-- Accounts that add and choose strategies. -/
  strategyOperators : List Address := []
  /-- Accounts that set deposit caps. -/
  financeOperators : List Address := []
deriving Inhabited

/-- The family of a protocol. -/
inductive ProtocolKind
  | vault | lending | curve
deriving DecidableEq, Inhabited

/-- The word for a family. -/
def ProtocolKind.text : ProtocolKind → String
  | vault => "erc4626"
  | lending => "lending"
  | curve => "curve"

/-- Every family. -/
def ProtocolKind.all : List ProtocolKind := [.vault, .lending, .curve]

/-- The deposit share of one pool. -/
structure PoolPercent where
  /-- The pool. -/
  pool : Address
  /-- The share, in percent. -/
  percent : Decimal
deriving Inhabited

/-- The fixed deposit ceiling of a pool and an asset. -/
structure CapAmount where
  /-- The pool. -/
  pool : Address
  /-- The asset. -/
  asset : Address
  /-- The ceiling, as a decimal number in base units. -/
  amount : String
deriving Inhabited

/-- The deposit caps of a protocol. -/
structure DepositCapConfig where
  /-- Which ceiling applies. -/
  mode : CapMode := .unlimited
  /-- The share of a pool's value, in percent. -/
  protocolPercent : Decimal := .ofInt 0
  /-- Shares of single pools. -/
  pools : List PoolPercent := []
  /-- Fixed ceilings. -/
  amounts : List CapAmount := []
deriving Inhabited

/-- A deployed protocol. -/
structure ProtocolConfig where
  /-- The identifier, unique among the protocols. -/
  id : String
  /-- The family. -/
  kind : ProtocolKind
  /-- The loan-to-value ratio of lending markets, in basis points. -/
  ltvBps : Nat := 7500
  /-- The router that sells rewards. -/
  router : Option Address := none
  /-- The tolerance of swaps, in basis points. -/
  slippageBps : Nat := 50
  /-- The deposit caps. -/
  depositCap : DepositCapConfig := {}
deriving Inhabited

/-- A pool, its rating and the contracts around it. -/
structure PoolConfig where
  /-- The pool. -/
  address : Address
  /-- The identifier of the protocol that the pool belongs to. -/
  protocol : String
  /-- The rating. -/
  rating : Option Nat := none
  /-- Whether deposits may enter the pool. -/
  approved : Bool := false
  /-- Whether the receipts of a final deposit are staked. -/
  stake : Bool := false
  /-- The accepted assets. -/
  coins : List Address := []
  /-- The receipt token of a curve pool. -/
  receipt : Option Address := none
  /-- The receipt tokens of a lending market, one for each accepted asset. -/
  receipts : List Address := []
  /-- The assets that a lending market lends. -/
  borrowable : List Address := []
  /-- The gauge of a curve pool. -/
  gauge : Option Address := none
  /-- The token that the gauge pays. -/
  rewardToken : Option Address := none
deriving Inhabited

/-- A named risk policy. -/
structure RiskProfileConfig where
  /-- The name. -/
  name : String
  /-- Whether strategies of the profile may borrow. -/
  canBorrow : Bool := false
  /-- The lowest admitted rating. -/
  minRating : Nat
  /-- The highest admitted rating. -/
  maxRating : Nat
deriving Inhabited

/-- A vault whose idle assets are allocated. -/
structure VaultConfig where
  /-- The name. -/
  name : String
  /-- The account that holds the assets and positions. -/
  owner : Address
  /-- The asset. -/
  asset : Address
  /-- The risk profile. -/
  riskProfile : String
  /-- Whether rewards are harvested in each cycle. -/
  harvest : Bool := true
deriving Inhabited

/-- The whole configuration. -/
structure Config where
  /-- The service and its cadence. -/
  service : ServiceConfig
  /-- The file that holds the chain snapshot. -/
  snapshotPath : String
  /-- The directory of the plan log and the saved state. -/
  dataDirectory : String := "data"
  /-- The export of metrics. -/
  metrics : MetricsConfig := {}
  /-- Role holders. -/
  governance : GovernanceConfig
  /-- Deployed protocols. -/
  protocols : List ProtocolConfig
  /-- Pools. -/
  pools : List PoolConfig
  /-- Risk profiles. -/
  riskProfiles : List RiskProfileConfig
  /-- Managed vaults. -/
  vaults : List VaultConfig := []
deriving Inhabited

end VaultKeeper
