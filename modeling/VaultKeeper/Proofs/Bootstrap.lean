import VaultKeeper.Proofs.Configured
import VaultKeeper.Proofs.Ranking
import VaultKeeper.Proofs.Totality

/-! # Bootstrapping is faithful

A configuration is replayed by commands of the governance account. Each part of the replay is shown
to do exactly what its list says: it inserts the entries of the list into the tables that it is
about. A valid configuration leaves only one way to fail, a pool that is to be staked where it
cannot be, so unless there is one the replay arrives at the registry that is written down. -/

namespace VaultKeeper

namespace Registry

variable {r r' : Registry} {c : Command} {id : String}

/-! ## Role holders -/

/-- What the governance account asks for is carried out. -/
theorem govern_of_execute (h : r.execute c = .ok r') : r.govern c = .ok r' := by
  rw [govern, mapError_eq_ok, perform, if_pos (hasRole_governance r c.role), h]

/-- Granting a role to accounts adds an entry for each. -/
theorem grantAll_eq (role : Role) (accounts : List Address) (r : Registry) :
    grantAll role accounts r = .ok { r with
      roles := r.roles.insertAll (accounts.map fun account => ((role, account), ())) } := by
  unfold grantAll
  induction accounts generalizing r with
  | nil => rfl
  | cons account rest ih =>
    rw [List.foldlM_cons, govern_of_execute (c := .grantRole role account) rfl, ok_bind, ih]
    rfl

/-! ## Protocols -/

/-- The caps of a protocol are set one after the other. -/
theorem updateCaps_setCaps {caps new : DepositCaps}
    {f : DepositCaps → Except AllocationError DepositCaps}
    (hknown : r.adapters.contains id = true) (hf : f caps = .ok new) :
    (r.setCaps id caps).updateCaps id f = .ok (r.setCaps id new) := by
  have hknown' : (r.setCaps id caps).adapters.contains id = true := hknown
  rw [updateCaps_of_contains hknown', capsOf_setCaps_self, hf]
  show Except.ok ((r.setCaps id caps).setCaps id new) = _
  rw [setCaps_setCaps]

/-- A share that has basis points is accepted. -/
theorem checkBps_of_toBps {d : Decimal} {n : Nat} (h : d.toBps = .ok n) :
    DepositCaps.checkBps d.bps = .ok d.bps := by
  rw [Decimal.bps_eq h]
  exact if_neg (Nat.not_lt.2 (Decimal.le_of_toBps h))

/-- A share that has basis points is converted. -/
theorem percentBps_of_toBps {d : Decimal} {n : Nat} (h : d.toBps = .ok n) (fault : BootstrapFault) :
    Config.percentBps d fault = .ok d.bps := by
  rw [Config.percentBps, h, Decimal.bps_eq h]

/-- The shares of single pools are set as they are listed. -/
theorem configureShares_eq (hknown : r.adapters.contains id = true) {shares : List PoolPercent}
    (hshares : ∀ share ∈ shares, ∃ n, share.percent.toBps = .ok n) (caps : DepositCaps) :
    shares.foldlM (fun r share => do
      let bps ← Config.percentBps share.percent (.poolPercent share.pool)
      r.govern (.setPoolCap id share.pool bps)) (r.setCaps id caps) =
      .ok (r.setCaps id { caps with
        poolBps := caps.poolBps.insertAll
          (shares.map fun share => (share.pool, share.percent.bps)) }) := by
  induction shares generalizing caps with
  | nil => rfl
  | cons share rest ih =>
    obtain ⟨n, hn⟩ := hshares share List.mem_cons_self
    have hset : (r.setCaps id caps).govern (.setPoolCap id share.pool share.percent.bps) =
        .ok (r.setCaps id { caps with
          poolBps := caps.poolBps.insert share.pool share.percent.bps }) := by
      refine govern_of_execute ?_
      rw [execute]
      refine updateCaps_setCaps hknown ?_
      rw [DepositCaps.setPoolBps, checkBps_of_toBps hn]
      rfl
    rw [List.foldlM_cons, percentBps_of_toBps hn, ok_bind, hset, ok_bind,
      ih fun other hother => hshares other (List.mem_cons_of_mem share hother)]
    rfl

/-- The fixed ceilings are set as they are listed. -/
theorem configureAmounts_eq (hknown : r.adapters.contains id = true) {amounts : List CapAmount}
    (hamounts : ∀ cap ∈ amounts, ∃ amount, Amount.ofDecimal? cap.amount = some amount)
    (caps : DepositCaps) :
    amounts.foldlM (fun (r : Registry) cap => (do
      let some amount := Amount.ofDecimal? cap.amount | throw (.capAmount cap.amount)
      r.govern (.setCapAmount id cap.pool cap.asset amount) : Except BootstrapFault Registry))
        (r.setCaps id caps) =
      .ok (r.setCaps id { caps with
        amounts := caps.amounts.insertAll
          (amounts.map fun cap => ((cap.pool, cap.asset), cap.value)) }) := by
  induction amounts generalizing caps with
  | nil => rfl
  | cons cap rest ih =>
    obtain ⟨amount, hamount⟩ := hamounts cap List.mem_cons_self
    have hvalue : cap.value = amount := by
      rw [CapAmount.value, hamount, Option.getD_some]
    have hset : (r.setCaps id caps).govern (.setCapAmount id cap.pool cap.asset amount) =
        .ok (r.setCaps id { caps with
          amounts := caps.amounts.insert (cap.pool, cap.asset) amount }) := by
      refine govern_of_execute ?_
      rw [execute]
      exact updateCaps_setCaps hknown rfl
    simp only [List.foldlM_cons, hamount, hset, ok_bind]
    rw [ih fun other hother => hamounts other (List.mem_cons_of_mem cap hother), List.map_cons,
      hvalue]
    rfl

/-- **The caps of a new adapter are set as they are configured.** -/
theorem configureCaps_eq {p : ProtocolConfig} (hknown : r.adapters.contains p.id = true)
    (hnew : r.capsOf p.id = default)
    (hshares : (∃ n, p.depositCap.protocolPercent.toBps = .ok n) ∧
      ∀ share ∈ p.depositCap.pools, ∃ n, share.percent.toBps = .ok n)
    (hamounts : ∀ cap ∈ p.depositCap.amounts,
      ∃ amount, Amount.ofDecimal? cap.amount = some amount) :
    r.configureCaps p = .ok (r.setCaps p.id p.depositCap.caps) := by
  obtain ⟨⟨n, hn⟩, hpools⟩ := hshares
  -- The first command finds no caps and starts from those without a limit.
  have hmode : r.govern (.setCapMode p.id p.depositCap.mode) =
      .ok (r.setCaps p.id { (default : DepositCaps) with mode := p.depositCap.mode }) := by
    refine govern_of_execute ?_
    rw [execute, updateCaps_of_contains hknown, hnew]
    rfl
  have hshare : (r.setCaps p.id { (default : DepositCaps) with mode := p.depositCap.mode }).govern
        (.setProtocolCap p.id p.depositCap.protocolPercent.bps) =
      .ok (r.setCaps p.id { (default : DepositCaps) with
        mode := p.depositCap.mode, protocolBps := p.depositCap.protocolPercent.bps }) := by
    refine govern_of_execute ?_
    rw [execute]
    refine updateCaps_setCaps hknown ?_
    rw [DepositCaps.setProtocolBps, checkBps_of_toBps hn]
    rfl
  simp only [configureCaps, hmode, percentBps_of_toBps hn, hshare, configureShares_eq hknown hpools,
    ok_bind]
  exact configureAmounts_eq hknown hamounts _

variable {cfg : Config}

/-- **The adapter of a protocol is registered with its caps.** -/
theorem configureProtocol_eq {p : ProtocolConfig} (hc : cfg.WellFormed) (hp : p ∈ cfg.protocols)
    (hnew : r.adapters.get? p.id = none) (hnone : r.caps.get? p.id = none) :
    configureProtocol cfg.pools r p = .ok { r with
      adapters := r.adapters.insert p.id (.whole (cfg.base p))
      caps := r.caps.insert p.id p.depositCap.caps } := by
  have hid : (Adapter.whole (cfg.base p)).id = p.id := by
    rw [Adapter.id, Adapter.base_whole, cfg.id_base]
  have hregister : r.govern (.registerAdapter (.whole (cfg.base p))) =
      .ok { r with adapters := r.adapters.insert p.id (.whole (cfg.base p)) } := by
    refine govern_of_execute ?_
    rw [execute, hid, Table.contains, hnew]
    rfl
  have hcaps := configureCaps_eq
    (r := { r with adapters := r.adapters.insert p.id (.whole (cfg.base p)) }) (p := p)
    (Table.contains_iff.2 ⟨_, Table.get?_insert_self _ _ _⟩)
    (by rw [capsOf, hnone, Option.getD_none]) (hc.shares p hp) (hc.amounts p hp)
  have hbase : Config.protocol p (cfg.pools.filter (·.protocol == p.id)) = .ok (cfg.base p) :=
    hc.protocol_eq hp
  rw [configureProtocol, hbase, ok_bind, hregister, ok_bind, hcaps]
  rfl

/-- The adapters of protocols with different identifiers are registered with their caps. -/
theorem configureProtocols_eq {ps : List ProtocolConfig} (hc : cfg.WellFormed)
    (hps : ∀ p ∈ ps, p ∈ cfg.protocols) (hdistinct : (ps.map (·.id)).Nodup)
    (hnew : ∀ p ∈ ps, r.adapters.get? p.id = none ∧ r.caps.get? p.id = none) :
    ps.foldlM (configureProtocol cfg.pools) r = .ok { r with
      adapters := r.adapters.insertAll (ps.map fun p => (p.id, .whole (cfg.base p)))
      caps := r.caps.insertAll (ps.map fun p => (p.id, p.depositCap.caps)) } := by
  induction ps generalizing r with
  | nil => rfl
  | cons p rest ih =>
    rw [List.map_cons, List.nodup_cons] at hdistinct
    obtain ⟨hfresh, hdistinct⟩ := hdistinct
    obtain ⟨hadapter, hcaps⟩ := hnew p List.mem_cons_self
    rw [List.foldlM_cons, configureProtocol_eq hc (hps p List.mem_cons_self) hadapter hcaps, ok_bind,
      ih (fun other hother => hps other (List.mem_cons_of_mem p hother)) hdistinct
        fun other hother => ?_]
    · rfl
    -- A later protocol has another identifier, so it is still new.
    · obtain ⟨hadapter', hcaps'⟩ := hnew other (List.mem_cons_of_mem p hother)
      exact ⟨(Table.get?_insert_of_notMem _ _ hfresh hother).trans hadapter',
        (Table.get?_insert_of_notMem _ _ hfresh hother).trans hcaps'⟩

/-! ## Pools -/

/-- A registered adapter that serves a pool has it bound. -/
theorem bindPool_of_serves {pool : Address} {a : Adapter} {stake : Bool}
    (hknown : r.pools.contains pool = true) (ha : r.adapters.get? id = some a)
    (hserves : a.Serves pool stake) :
    r.bindPool pool id stake =
      .ok { r with bindings := r.bindings.insert pool ⟨id, stake⟩ } := by
  obtain ⟨assets, hassets⟩ := hserves.configured
  unfold bindPool
  rw [if_pos hknown, ha]
  simp only [hassets, ok_bind]
  cases stake with
  | false => rfl
  | true =>
    obtain ⟨curve, hcurve, hgauge⟩ := hserves.gauged rfl
    rw [if_pos rfl, hcurve, ok_bind, if_pos (CurveProtocol.succeeds_gauge_iff.1 hgauge)]
    rfl

/-- A pool whose record has just been written is changed in place. -/
theorem updatePool_insert (r : Registry) (record : PoolRecord) (pool : Address) (next : Nat)
    (f : PoolRecord → PoolRecord) :
    { r with pools := r.pools.insert pool record, nextRegistration := next }.updatePool pool f =
      .ok { r with pools := r.pools.insert pool (f record), nextRegistration := next } := by
  rw [updatePool, Table.get?_insert_self]
  show Except.ok { r with
    pools := (r.pools.insert pool record).insert pool (f record), nextRegistration := next } = _
  rw [Table.insert_insert]

/-- **A new pool is rated, approved and bound** when an adapter serves it. -/
theorem configurePool_eq {q : PoolConfig} {a : Adapter} (hnew : r.pools.get? q.address = none)
    (hrating : ∀ n ∈ q.rating, n ≤ maxPoolRating) (ha : r.adapters.get? q.protocol = some a)
    (hserves : a.Serves q.address q.stake) :
    r.configurePool q = .ok { r with
      pools := r.pools.insert q.address (Config.record q r.nextRegistration)
      nextRegistration := r.nextRegistration + 1
      bindings := r.bindings.insert q.address ⟨q.protocol, q.stake⟩ } := by
  -- The first command adds a record, and the next two only change that record.
  let added (record : PoolRecord) : Registry :=
    { r with
      pools := r.pools.insert q.address record, nextRegistration := r.nextRegistration + 1 }
  have hadd : r.govern (.addPool q.address) =
      .ok (added ⟨q.address, none, false, r.nextRegistration⟩) := by
    refine govern_of_execute ?_
    rw [execute, addPool, Table.contains, hnew]
    rfl
  have hrate : (added ⟨q.address, none, false, r.nextRegistration⟩).govern
      (.ratePool q.address q.rating) =
        .ok (added ⟨q.address, q.rating, false, r.nextRegistration⟩) := by
    refine govern_of_execute ?_
    have hbounded : q.rating.filter (maxPoolRating < ·) = none := by
      rw [Option.filter_eq_none_iff]
      intro n hn
      simpa using hrating n hn
    rw [execute, ratePool, hbounded]
    exact updatePool_insert r _ _ _ _
  have happrove : (added ⟨q.address, q.rating, false, r.nextRegistration⟩).govern
      (.approvePool q.address q.approved) =
        .ok (added (Config.record q r.nextRegistration)) := by
    refine govern_of_execute ?_
    rw [execute]
    exact updatePool_insert r _ _ _ _
  have hbind : (added (Config.record q r.nextRegistration)).execute
      (.bindPool q.address q.protocol q.stake) =
        .ok { added (Config.record q r.nextRegistration) with
          bindings := r.bindings.insert q.address ⟨q.protocol, q.stake⟩ } := by
    rw [execute]
    exact bindPool_of_serves (Table.contains_iff.2 ⟨_, Table.get?_insert_self _ _ _⟩) ha hserves
  rw [configurePool, hadd, ok_bind, hrate, ok_bind, happrove, ok_bind, perform,
    if_pos (hasRole_governance _ _), hbind]
  rfl

/-- A pool is only bound to an adapter that serves it, and no adapter is replaced on the way. -/
theorem serves_of_configurePool {q : PoolConfig} (h : r.configurePool q = .ok r') :
    (∃ a, r.adapters.get? q.protocol = some a ∧ a.Serves q.address q.stake) ∧
      r'.adapters = r.adapters := by
  simp only [configurePool, bind_eq_ok, govern, mapError_eq_ok, perform, ite_error_eq_ok] at h
  obtain ⟨r₁, ⟨-, h₁⟩, r₂, ⟨-, h₂⟩, r₃, ⟨-, h₃⟩, -, h₄⟩ := h
  obtain ⟨a, -, ha, hserves, rfl⟩ := bindPool_eq_ok h₄
  obtain ⟨_, -, rfl⟩ := updatePool_eq_ok h₃
  obtain ⟨_, -, -, rfl⟩ := ratePool_eq_ok h₂
  have hadapters : r₁.adapters = r.adapters := by
    cases h₁
    unfold addPool
    split
    · rfl
    · rfl
  rw [← hadapters]
  exact ⟨⟨a, ha, hserves⟩, rfl⟩

/-- Pools with different addresses are rated, approved and bound in the order of the list. -/
theorem configurePools_eq {qs : List PoolConfig} (hdistinct : (qs.map (·.address)).Nodup)
    (hnew : ∀ q ∈ qs, r.pools.get? q.address = none)
    (hrating : ∀ q ∈ qs, ∀ n ∈ q.rating, n ≤ maxPoolRating)
    (hserved : ∀ q ∈ qs, ∃ a, r.adapters.get? q.protocol = some a ∧ a.Serves q.address q.stake) :
    qs.foldlM configurePool r = .ok { r with
      pools := r.pools.insertAll ((qs.zipIdx r.nextRegistration).map fun x =>
        (x.1.address, Config.record x.1 x.2))
      nextRegistration := r.nextRegistration + qs.length
      bindings := r.bindings.insertAll (qs.map fun q => (q.address, ⟨q.protocol, q.stake⟩)) } := by
  induction qs generalizing r with
  | nil => rfl
  | cons q rest ih =>
    rw [List.map_cons, List.nodup_cons] at hdistinct
    obtain ⟨hfresh, hdistinct⟩ := hdistinct
    obtain ⟨a, ha, hserves⟩ := hserved q List.mem_cons_self
    rw [List.foldlM_cons, configurePool_eq (hnew q List.mem_cons_self)
      (hrating q List.mem_cons_self) ha hserves, ok_bind]
    refine (ih hdistinct ?_ ?_ ?_).trans ?_
    -- A later pool has another address, so it is still new.
    · intro other hother
      exact (Table.get?_insert_of_notMem _ _ hfresh hother).trans
        (hnew other (List.mem_cons_of_mem q hother))
    · exact fun other hother => hrating other (List.mem_cons_of_mem q hother)
    · exact fun other hother => hserved other (List.mem_cons_of_mem q hother)
    · rw [List.zipIdx_cons, List.map_cons, List.map_cons, List.length_cons,
        Nat.add_comm rest.length, ← Nat.add_assoc]
      rfl

/-- When all pools are bound, each is served by its adapter. -/
theorem serves_of_configurePools {qs : List PoolConfig} (h : qs.foldlM configurePool r = .ok r') :
    ∀ q ∈ qs, ∃ a, r.adapters.get? q.protocol = some a ∧ a.Serves q.address q.stake := by
  induction qs generalizing r with
  | nil => exact fun q hq => absurd hq List.not_mem_nil
  | cons q rest ih =>
    rw [List.foldlM_cons, bind_eq_ok] at h
    obtain ⟨mid, hmid, hrest⟩ := h
    obtain ⟨hserved, hadapters⟩ := serves_of_configurePool hmid
    intro other hother
    rcases List.mem_cons.1 hother with rfl | hother
    · exact hserved
    · rw [← hadapters]
      exact ih hrest other hother

/-! ## Profiles -/

/-- Profiles with different names and valid ranges are created as they are listed. -/
theorem createProfiles_eq {ps : List RiskProfileConfig} (hdistinct : (ps.map (·.name)).Nodup)
    (hnew : ∀ p ∈ ps, r.profiles.get? p.name = none)
    (hrange : ∀ p ∈ ps, p.minRating ≤ p.maxRating ∧ p.maxRating ≤ maxPoolRating) :
    ps.foldlM (fun (r : Registry) p =>
      r.govern (.createProfile p.name p.canBorrow p.minRating p.maxRating)) r = .ok { r with
      profiles := r.profiles.insertAll (ps.map fun p =>
        (p.name, ⟨p.name, p.canBorrow, ⟨p.minRating, p.maxRating⟩⟩)) } := by
  induction ps generalizing r with
  | nil => rfl
  | cons p rest ih =>
    rw [List.map_cons, List.nodup_cons] at hdistinct
    obtain ⟨hfresh, hdistinct⟩ := hdistinct
    have hmade : RatingRange.make p.minRating p.maxRating = .ok ⟨p.minRating, p.maxRating⟩ := by
      obtain ⟨hordered, hbounded⟩ := hrange p List.mem_cons_self
      refine if_neg ?_
      omega
    have hcreate : r.govern (.createProfile p.name p.canBorrow p.minRating p.maxRating) =
        .ok { r with
          profiles :=
            r.profiles.insert p.name ⟨p.name, p.canBorrow, ⟨p.minRating, p.maxRating⟩⟩ } := by
      refine govern_of_execute ?_
      rw [execute, createProfile, Table.contains, hnew p List.mem_cons_self, hmade]
      rfl
    rw [List.foldlM_cons, hcreate, ok_bind, ih hdistinct (fun other hother => ?_)
      fun other hother => hrange other (List.mem_cons_of_mem p hother)]
    · rfl
    -- A later profile has another name.
    · exact (Table.get?_insert_of_notMem _ _ hfresh hother).trans
        (hnew other (List.mem_cons_of_mem p hother))

/-! ## The whole replay -/

/-- **Role holders and protocols are always installed**; what can be refused comes after them. -/
theorem ofConfig_eq_bind (hc : cfg.WellFormed) :
    ofConfig cfg = (cfg.pools.foldlM configurePool cfg.installed >>= fun r =>
      cfg.riskProfiles.foldlM (fun r p =>
        r.govern (.createProfile p.name p.canBorrow p.minRating p.maxRating)) r) := by
  have hinstalled : cfg.protocols.foldlM (configureProtocol cfg.pools)
      { governance := cfg.governance.admin, roles := cfg.installed.roles } = .ok cfg.installed :=
    configureProtocols_eq hc (fun _ hp => hp) hc.protocols fun _ _ => ⟨rfl, rfl⟩
  -- The three roles are granted one after the other.
  have hroles : cfg.installed.roles = (((∅ : Table (Role × Address) Unit).insertAll
      (cfg.grants .riskOperator)).insertAll (cfg.grants .strategyOperator)).insertAll
        (cfg.grants .financeOperator) := by
    rw [Config.installed, Table.ofList, List.foldl_append, List.foldl_append]
    rfl
  rw [hroles] at hinstalled
  simp only [ofConfig, grantAll_eq, ok_bind]
  exact congrArg (· >>= _) hinstalled

/-- **A configuration whose pools are all served is replayed faithfully.** -/
theorem ofConfig_eq (hc : cfg.WellFormed)
    (hserved : ∀ q ∈ cfg.pools, ∃ a, cfg.installed.adapters.get? q.protocol = some a ∧
      a.Serves q.address q.stake) : ofConfig cfg = .ok cfg.registry := by
  rw [ofConfig_eq_bind hc, configurePools_eq hc.pools (fun _ _ => rfl) hc.ratings hserved, ok_bind,
    createProfiles_eq hc.profiles (fun _ _ => rfl) hc.ranges]
  have hplaces : cfg.installed.nextRegistration + cfg.pools.length = cfg.pools.length :=
    Nat.zero_add _
  rw [hplaces]
  rfl

end Registry

/-! ## Faithful registries -/

/-- **The binding of a pool as it is configured**, with the adapter and the caps of its protocol. -/
structure Config.Binds (c : Config) (p : ProtocolConfig) (q : PoolConfig) (b : BoundPool) :
    Prop where
  /-- The adapter goes by the identifier that the pool names. -/
  id : b.adapter.id = q.protocol
  /-- It is built from the entry of the protocol and the pools that belong to it. -/
  built : (Config.protocol p (c.pools.filter (·.protocol == p.id))).map Adapter.whole =
    .ok b.adapter
  /-- Receipts are staked when the pool says so. -/
  stake : b.stake = q.stake
  /-- The ceiling is the one that is chosen. -/
  mode : b.caps.mode = p.depositCap.mode
  /-- The share of the protocol is the configured percentage. -/
  share : p.depositCap.protocolPercent.toBps = .ok b.caps.protocolBps
  /-- The share of each pool is the percentage that is listed last. -/
  shares : ∀ pool, Option.Rel (fun percent bps => Decimal.toBps percent = .ok bps)
    (lastFor? pool (p.depositCap.pools.map fun share => (share.pool, share.percent)))
    (b.caps.poolBps.get? pool)
  /-- The fixed ceiling of each pool and asset is the number that is listed last. -/
  amounts : ∀ pool asset, Option.Rel (fun text amount => Amount.ofDecimal? text = some amount)
    (lastFor? (pool, asset) (p.depositCap.amounts.map fun cap => ((cap.pool, cap.asset), cap.amount)))
    (b.caps.amounts.get? (pool, asset))
  /-- The accepted assets are the coins. -/
  assets : ∃ assets, b.adapter.base.acceptedAssets q.address = .ok assets ∧
    ∀ a, a ∈ assets ↔ a ∈ q.coins
  /-- The receipt token for each coin is the configured one. -/
  receipts : ∀ coin ∈ q.coins, ∃ receipt, q.receiptFor? p.kind coin = some receipt ∧
    b.adapter.base.receipt coin q.address = .ok receipt

/-- **A registry that holds what a configuration lists.** -/
structure Config.Realizes (c : Config) (r : Registry) : Prop where
  /-- The pools are listed in the order of the configuration, with their ratings and approvals. -/
  pools : r.poolRecords =
    c.pools.zipIdx.map fun x => ⟨x.1.address, x.1.rating, x.1.approved, x.2⟩
  /-- Every pool is bound as it is configured. -/
  bindings : ∀ q ∈ c.pools, ∃ p ∈ c.protocols, p.id = q.protocol ∧
    ∃ b, r.binding? q.address = some b ∧ c.Binds p q b
  /-- The admin holds every role, and each role is held by the accounts listed for it. -/
  roles : ∀ role account, r.hasRole role account = true ↔
    account = c.governance.admin ∨ account ∈ c.holders role
  /-- The profiles are those of the configuration. -/
  profiles : ∀ name policy, r.profiles.get? name = some policy ↔
    ∃ p ∈ c.riskProfiles, name = p.name ∧
      policy = ⟨p.name, p.canBorrow, ⟨p.minRating, p.maxRating⟩⟩

namespace Config.WellFormed

variable {c : Config} {p : ProtocolConfig} {q : PoolConfig}

/-- A pool of the configuration belongs to one of its protocols. -/
theorem exists_protocol (hc : c.WellFormed) (hq : q ∈ c.pools) :
    ∃ p ∈ c.protocols, p.id = q.protocol ∧ q ∈ c.poolsOf p := by
  obtain ⟨p, hp, hid, -⟩ := hc.shapes q hq
  exact ⟨p, hp, hid, mem_poolsOf.2 ⟨hq, hid.symm⟩⟩

/-- **Only unsupported staking keeps a pool from being bound.** -/
theorem served_iff (hc : c.WellFormed) (hq : q ∈ c.pools) :
    (∃ a, c.installed.adapters.get? q.protocol = some a ∧ a.Serves q.address q.stake) ↔
      (q.stake = true → q.gauge.isSome = true ∧
        ∃ p ∈ c.protocols, p.id = q.protocol ∧ p.kind = .curve) := by
  obtain ⟨p, hp, hid, hmem⟩ := hc.exists_protocol hq
  have hadapter : c.installed.adapters.get? q.protocol = some (.whole (c.base p)) := by
    rw [← hid]
    exact Table.get?_ofList_map hc.protocols hp
  constructor
  · rintro ⟨a, ha, hserves⟩ hstake
    rw [hadapter, Option.some.injEq] at ha
    subst ha
    obtain ⟨hkind, hgauge⟩ := (hc.serves_iff hp hmem).1 hserves hstake
    exact ⟨hgauge, p, hp, hid, hkind⟩
  · intro hstakes
    refine ⟨_, hadapter, (hc.serves_iff hp hmem).2 fun hstake => ?_⟩
    obtain ⟨hgauge, p', hp', hid', hkind⟩ := hstakes hstake
    cases hc.protocol_unique hp' hp (hid'.trans hid.symm)
    exact ⟨hkind, hgauge⟩

/-- Every binding of the registry that is written down is as it is configured. -/
theorem binds (hc : c.WellFormed) (hp : p ∈ c.protocols) (hq : q ∈ c.poolsOf p) :
    c.Binds p q ⟨.whole (c.base p), q.stake, p.depositCap.caps⟩ := by
  obtain ⟨-, hid⟩ := mem_poolsOf.1 hq
  obtain ⟨⟨n, hn⟩, hshares⟩ := hc.shares p hp
  have hbuilt : Config.protocol p (c.pools.filter (·.protocol == p.id)) = .ok (c.base p) :=
    hc.protocol_eq hp
  refine ⟨?_, ?_, rfl, rfl, ?_, fun pool => ?_, fun pool asset => ?_, ?_, fun coin hcoin => ?_⟩
  · rw [hid, Adapter.id, Adapter.base_whole, c.id_base]
  · rw [hbuilt]
    rfl
  · show _ = Except.ok p.depositCap.protocolPercent.bps
    rw [hn, Decimal.bps_eq hn]
  · show Option.Rel _ _ ((Table.ofList _).get? pool)
    rw [Table.get?_ofList]
    refine rel_lastFor? (fun share hshare => ?_) pool
    obtain ⟨m, hm⟩ := hshares share hshare
    rw [hm, Decimal.bps_eq hm]
  · show Option.Rel _ _ ((Table.ofList _).get? (pool, asset))
    rw [Table.get?_ofList]
    refine rel_lastFor? (fun cap hcap => ?_) (pool, asset)
    obtain ⟨amount, hamount⟩ := hc.amounts p hp cap hcap
    rw [CapAmount.value, hamount, Option.getD_some]
  · rw [Adapter.base_whole]
    exact hc.acceptedAssets hp hq
  · rw [Adapter.base_whole]
    exact hc.receipt hp hq hcoin

/-- The registry that is written down is faithful, once it is known to be consistent. -/
theorem realizes (hc : c.WellFormed) (hr : c.registry.Consistent) : c.Realizes c.registry := by
  refine ⟨hc.poolRecords_registry hr, fun q hq => ?_, c.hasRole_registry,
    fun name policy => hc.profiles_registry⟩
  obtain ⟨p, hp, hid, hmem⟩ := hc.exists_protocol hq
  exact ⟨p, hp, hid, _, hc.binding? hp hmem, hc.binds hp hmem⟩

end Config.WellFormed

/-- **Bootstrapping is faithful.** A valid configuration has a registry unless a pool is to be staked
that has no gauge or does not belong to a curve protocol, and the registry holds what the
configuration lists. -/
theorem bootstrap_is_faithful {c : Config} (h : c.validate = .ok ()) :
    ((Registry.ofConfig c).Succeeds ↔ ∀ q ∈ c.pools, q.stake = true →
        q.gauge.isSome = true ∧ ∃ p ∈ c.protocols, p.id = q.protocol ∧ p.kind = .curve) ∧
      ∀ r, Registry.ofConfig c = .ok r → c.Realizes r := by
  have hc := Config.wellFormed_of_validate h
  -- A replay that goes through has bound every pool, so nothing stood in its way.
  have hstaked : ∀ r, Registry.ofConfig c = .ok r → ∀ q ∈ c.pools, q.stake = true →
      q.gauge.isSome = true ∧ ∃ p ∈ c.protocols, p.id = q.protocol ∧ p.kind = .curve := by
    intro r hr q hq
    rw [Registry.ofConfig_eq_bind hc, bind_eq_ok] at hr
    obtain ⟨mid, hmid, -⟩ := hr
    exact (hc.served_iff hq).1 (Registry.serves_of_configurePools hmid q hq)
  have hreplay : (∀ q ∈ c.pools, q.stake = true →
      q.gauge.isSome = true ∧ ∃ p ∈ c.protocols, p.id = q.protocol ∧ p.kind = .curve) →
      Registry.ofConfig c = .ok c.registry :=
    fun hstakes => Registry.ofConfig_eq hc fun q hq => (hc.served_iff hq).2 (hstakes q hq)
  refine ⟨⟨fun ⟨r, hr⟩ => hstaked r hr, fun hstakes => ⟨_, hreplay hstakes⟩⟩, fun r hr => ?_⟩
  have hwritten := hreplay (hstaked r hr)
  rw [hwritten, Except.ok.injEq] at hr
  subst hr
  exact hc.realizes (Registry.Reached.of_config hwritten).consistent

namespace Leveraged

/-- The configuration of the lending market and the staked curve pool has a registry, which lists the
two pools in the order of the configuration and gives no role to anybody but the admin. -/
theorem deployment_is_faithful :
    deployment.validate = .ok () ∧ Registry.ofConfig deployment = .ok deployed ∧
      deployed.poolRecords =
        [⟨market, some 10, true, 0⟩, ⟨pool, some 10, true, 1⟩] ∧
      ∀ role account, deployed.hasRole role account = true → account = .ofNat 11 := by
  have hvalid : deployment.validate = .ok () := rfl
  have hdeployed : Registry.ofConfig deployment = .ok deployed := rfl
  obtain ⟨-, hfaithful⟩ := bootstrap_is_faithful hvalid
  have hrealizes := hfaithful deployed hdeployed
  refine ⟨hvalid, hdeployed, hrealizes.pools, fun role account hrole => ?_⟩
  rcases (hrealizes.roles role account).1 hrole with hadmin | hlisted
  · exact hadmin
  · cases role with
    | _ => cases hlisted

end Leveraged

end VaultKeeper
