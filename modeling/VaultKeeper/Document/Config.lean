import VaultKeeper.Config.Validation
import VaultKeeper.Document.Read

/-! # Configurations as documents

How a configuration is read from a document of either notation, and its summary with every default
filled in.
-/

namespace VaultKeeper

open Document

namespace Config

/-- Read the service. -/
def readService? (dialect : Dialect) (d : Document) : Option ServiceConfig := do
  let f ← d.fields? dialect [.always "name", .default "log_level", .default "dry_run",
    .default "cycle_interval_secs", .default "multicall"]
  return {
    name := ← f.get "name" text?
    logLevel := ← f.getD "log_level" text? "info"
    dryRun := ← f.getD "dry_run" bool? true
    cycleSeconds := ← f.getD "cycle_interval_secs" (nat? 64) 60
    multicall := ← f.optional "multicall" (Address.readIn? dialect) }

/-- Read the path of the chain snapshot. -/
def readSnapshotPath? (dialect : Dialect) (d : Document) : Option String := do
  (← d.fields? dialect [.always "path"]).get "path" text?

/-- Read the data directory. -/
def readDataDirectory? (dialect : Dialect) (d : Document) : Option String := do
  (← d.fields? dialect [.default "data_dir"]).getD "data_dir" text? "data"

/-- Read the export of metrics. -/
def readMetrics? (dialect : Dialect) (d : Document) : Option MetricsConfig := do
  let f ← d.fields? dialect [.default "enabled", .default "bind_address"]
  return {
    enabled := ← f.getD "enabled" bool? true
    bindAddress := ← f.getD "bind_address" text? "0.0.0.0:9090" }

/-- Read the role holders. -/
def readGovernance? (dialect : Dialect) (d : Document) : Option GovernanceConfig := do
  let f ← d.fields? dialect [.always "admin", .default "risk_operators",
    .default "strategy_operators", .default "finance_operators"]
  return {
    admin := ← f.get "admin" (Address.readIn? dialect)
    riskOperators := ← f.getD "risk_operators" (list? (Address.readIn? dialect)) []
    strategyOperators := ← f.getD "strategy_operators" (list? (Address.readIn? dialect)) []
    financeOperators := ← f.getD "finance_operators" (list? (Address.readIn? dialect)) [] }

/-- Read the deposit share of a pool. -/
def readPoolPercent? (dialect : Dialect) (d : Document) : Option PoolPercent := do
  let f ← d.fields? dialect [.always "pool", .always "percent"]
  return ⟨← f.get "pool" (Address.readIn? dialect), ← f.get "percent" Decimal.read?⟩

/-- Read a fixed deposit ceiling. -/
def readCapAmount? (dialect : Dialect) (d : Document) : Option CapAmount := do
  let f ← d.fields? dialect [.always "pool", .always "asset", .always "amount"]
  return {
    pool := ← f.get "pool" (Address.readIn? dialect)
    asset := ← f.get "asset" (Address.readIn? dialect)
    amount := ← f.get "amount" text? }

/-- Read the deposit caps of a protocol. -/
def readDepositCap? (dialect : Dialect) (d : Document) : Option DepositCapConfig := do
  let f ← d.fields? dialect [.default "mode", .default "protocol_percent", .default "pools",
    .default "amounts"]
  return {
    mode := ← f.getD "mode" (oneOf? dialect CapMode.all CapMode.text) .unlimited
    protocolPercent := ← f.getD "protocol_percent" Decimal.read? (.ofInt 0)
    pools := ← f.getD "pools" (list? (readPoolPercent? dialect)) []
    amounts := ← f.getD "amounts" (list? (readCapAmount? dialect)) [] }

/-- Read a protocol. -/
def readProtocol? (dialect : Dialect) (d : Document) : Option ProtocolConfig := do
  let f ← d.fields? dialect [.always "id", .always "kind", .default "ltv_bps", .default "router",
    .default "slippage_bps", .default "deposit_cap"]
  return {
    id := ← f.get "id" text?
    kind := ← f.get "kind" (oneOf? dialect ProtocolKind.all ProtocolKind.text)
    ltvBps := ← f.getD "ltv_bps" (nat? 16) 7500
    router := ← f.optional "router" (Address.readIn? dialect)
    slippageBps := ← f.getD "slippage_bps" (nat? 16) 50
    depositCap := ← f.getD "deposit_cap" (readDepositCap? dialect) {} }

/-- Read a pool. -/
def readPool? (dialect : Dialect) (d : Document) : Option PoolConfig := do
  let f ← d.fields? dialect [.always "address", .always "protocol", .default "rating",
    .default "approved", .default "stake", .default "coins", .default "lp_token",
    .default "receipt_tokens", .default "borrowable", .default "gauge", .default "reward_token"]
  return {
    address := ← f.get "address" (Address.readIn? dialect)
    protocol := ← f.get "protocol" text?
    rating := ← f.optional "rating" (nat? 8)
    approved := ← f.getD "approved" bool? false
    stake := ← f.getD "stake" bool? false
    coins := ← f.getD "coins" (list? (Address.readIn? dialect)) []
    receipt := ← f.optional "lp_token" (Address.readIn? dialect)
    receipts := ← f.getD "receipt_tokens" (list? (Address.readIn? dialect)) []
    borrowable := ← f.getD "borrowable" (list? (Address.readIn? dialect)) []
    gauge := ← f.optional "gauge" (Address.readIn? dialect)
    rewardToken := ← f.optional "reward_token" (Address.readIn? dialect) }

/-- Read a risk profile. -/
def readProfile? (dialect : Dialect) (d : Document) : Option RiskProfileConfig := do
  let f ← d.fields? dialect [.always "name", .default "can_borrow", .always "min_rating",
    .always "max_rating"]
  return {
    name := ← f.get "name" text?
    canBorrow := ← f.getD "can_borrow" bool? false
    minRating := ← f.get "min_rating" (nat? 8)
    maxRating := ← f.get "max_rating" (nat? 8) }

/-- Read a vault. -/
def readVault? (dialect : Dialect) (d : Document) : Option VaultConfig := do
  let f ← d.fields? dialect [.always "name", .always "owner", .always "asset",
    .always "risk_profile", .default "harvest"]
  return {
    name := ← f.get "name" text?
    owner := ← f.get "owner" (Address.readIn? dialect)
    asset := ← f.get "asset" (Address.readIn? dialect)
    riskProfile := ← f.get "risk_profile" text?
    harvest := ← f.getD "harvest" bool? true }

/-- Read a configuration without checking its rules. -/
def read? (dialect : Dialect) (d : Document) : Option Config := do
  let f ← d.fields? dialect [.always "service", .always "snapshot", .default "persistence",
    .default "metrics", .always "governance", .always "protocols", .always "pools",
    .always "risk_profiles", .default "vaults"]
  return {
    service := ← f.get "service" (readService? dialect)
    snapshotPath := ← f.get "snapshot" (readSnapshotPath? dialect)
    dataDirectory := ← f.getD "persistence" (readDataDirectory? dialect) "data"
    metrics := ← f.getD "metrics" (readMetrics? dialect) {}
    governance := ← f.get "governance" (readGovernance? dialect)
    protocols := ← f.get "protocols" (list? (readProtocol? dialect))
    pools := ← f.get "pools" (list? (readPool? dialect))
    riskProfiles := ← f.get "risk_profiles" (list? (readProfile? dialect))
    vaults := ← f.getD "vaults" (list? (readVault? dialect)) [] }

/-! ## Summary -/

/-- A percentage in basis points, when it has any. -/
def bpsDocument (percent : Decimal) : Document :=
  match percent.toBps with
  | .ok bps => .nat bps
  | .error _ => .null

/-- A protocol with its defaults filled in. -/
def protocolDocument (p : ProtocolConfig) : Document :=
  let cap := p.depositCap
  .record [("id", .text p.id), ("kind", .text p.kind.text), ("ltv_bps", .nat p.ltvBps),
    ("router", .option Address.document p.router), ("slippage_bps", .nat p.slippageBps),
    ("cap_mode", .text cap.mode.text), ("protocol_percent", .text cap.protocolPercent.text),
    ("protocol_bps", bpsDocument cap.protocolPercent),
    ("cap_pools", .array (fun c => .record [("pool", c.pool.document),
      ("percent", .text c.percent.text), ("bps", bpsDocument c.percent)]) cap.pools),
    ("cap_amounts", .array (fun c => .record [("pool", c.pool.document),
      ("asset", c.asset.document), ("amount", .text c.amount)]) cap.amounts)]

/-- A pool with its defaults filled in. -/
def poolDocument (p : PoolConfig) : Document :=
  .record [("address", p.address.document), ("protocol", .text p.protocol),
    ("rating", .option .nat p.rating), ("approved", .bool p.approved), ("stake", .bool p.stake),
    ("coins", .array Address.document p.coins), ("lp_token", .option Address.document p.receipt),
    ("receipt_tokens", .array Address.document p.receipts),
    ("borrowable", .array Address.document p.borrowable),
    ("gauge", .option Address.document p.gauge),
    ("reward_token", .option Address.document p.rewardToken)]

/-- A risk profile with its defaults filled in. -/
def profileDocument (p : RiskProfileConfig) : Document :=
  .record [("name", .text p.name), ("can_borrow", .bool p.canBorrow),
    ("min_rating", .nat p.minRating), ("max_rating", .nat p.maxRating)]

/-- A vault with its defaults filled in. -/
def vaultDocument (v : VaultConfig) : Document :=
  .record [("name", .text v.name), ("owner", v.owner.document), ("asset", v.asset.document),
    ("risk_profile", .text v.riskProfile), ("harvest", .bool v.harvest)]

/-- A configuration with its defaults filled in. -/
def summary (c : Config) : Document :=
  let s := c.service
  let g := c.governance
  .record [
    ("service", .record [("name", .text s.name), ("log_level", .text s.logLevel),
      ("dry_run", .bool s.dryRun), ("cycle_interval_secs", .nat s.cycleSeconds),
      ("multicall", .option Address.document s.multicall)]),
    ("snapshot", .record [("path", .text c.snapshotPath)]),
    ("persistence", .record [("data_dir", .text c.dataDirectory)]),
    ("metrics", .record [("enabled", .bool c.metrics.enabled),
      ("bind_address", .text c.metrics.bindAddress)]),
    ("governance", .record [("admin", g.admin.document),
      ("risk_operators", .array Address.document g.riskOperators),
      ("strategy_operators", .array Address.document g.strategyOperators),
      ("finance_operators", .array Address.document g.financeOperators)]),
    ("protocols", .array protocolDocument c.protocols),
    ("pools", .array poolDocument c.pools),
    ("risk_profiles", .array profileDocument c.riskProfiles),
    ("vaults", .array vaultDocument c.vaults)]

end Config

end VaultKeeper
