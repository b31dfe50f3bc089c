import VaultKeeper.Proofs.Commands
import VaultKeeper.Proofs.StrategyIdentity
import VaultKeeper.Registry.Bootstrap
import VaultKeeper.Registry.Saved
import VaultKeeper.Selection

/-! # Reachable registries

A registry starts from a configuration and is changed by commands, by selections, which remember the
defaults that they compute, and by restoring what another run has saved. In every registry that is
reached, each stored selection names a registered strategy over the asset that it is stored for, and
no default borrows. Since selections are stored under digests, this needs that the digests of what
was hashed on the way do not collide. -/

namespace VaultKeeper

/-! ## Tables -/

namespace Table

variable {κ ν : Type} [DecidableEq κ] [Ord κ] [Std.LawfulEqOrd κ] [Std.TransOrd κ]

/-- What is found after a number of insertions was inserted or was there before. -/
theorem get?_foldl_insert {xs : List (κ × ν)} {t : Table κ ν} {k : κ} {v : ν}
    (h : (xs.foldl (fun t e => t.insert e.1 e.2) t).get? k = some v) :
    (k, v) ∈ xs ∨ t.get? k = some v := by
  induction xs generalizing t with
  | nil => exact .inr h
  | cons e rest ih =>
    rcases ih h with hmem | hfound
    · exact .inl (List.mem_cons_of_mem _ hmem)
    · rw [get?_insert] at hfound
      by_cases hk : k = e.1
      · rw [if_pos hk, Option.some.injEq] at hfound
        subst hk hfound
        exact .inl List.mem_cons_self
      · rw [if_neg hk] at hfound
        exact .inr hfound

/-- What is inserted is found when nothing else is inserted in its place. -/
theorem get?_foldl_insert_of_mem {xs : List (κ × ν)} {k : κ} {v : ν} (hmem : (k, v) ∈ xs)
    (honly : ∀ w, (k, w) ∈ xs → w = v) (t : Table κ ν) :
    (xs.foldl (fun t e => t.insert e.1 e.2) t).get? k = some v := by
  -- The invariant of the fold: the value is found already, or it is still to be inserted.
  have hsome : ∀ {ys : List (κ × ν)} {t : Table κ ν}, (t.get? k = some v ∨ (k, v) ∈ ys) →
      (∀ w, (k, w) ∈ ys → w = v) →
      (ys.foldl (fun t e => t.insert e.1 e.2) t).get? k = some v := by
    intro ys
    induction ys with
    | nil =>
      intro t h _
      exact h.resolve_right List.not_mem_nil
    | cons e rest ih =>
      intro t h hone
      refine ih ?_ fun w hw => hone w (List.mem_cons_of_mem _ hw)
      by_cases hk : k = e.1
      · subst hk
        rw [get?_insert_self, hone e.2 List.mem_cons_self]
        exact .inl rfl
      · rw [get?_insert_of_ne t e.2 hk]
        refine h.imp_right fun hmem => ?_
        rcases List.mem_cons.1 hmem with rfl | hmem
        · exact absurd rfl hk
        · exact hmem
  exact hsome (.inr hmem) honly

/-- No key is lost by insertions. -/
theorem contains_foldl_insert {xs : List (κ × ν)} {t : Table κ ν} {k : κ}
    (h : t.contains k = true) : (xs.foldl (fun t e => t.insert e.1 e.2) t).contains k = true := by
  induction xs generalizing t with
  | nil => exact h
  | cons e rest ih =>
    refine ih ?_
    rw [contains, get?_insert]
    split
    · rfl
    · exact h

end Table

/-! ## What is hashed -/

/-- The strategies and assets whose digests are taken in a run. -/
structure Vocabulary where
  /-- The strategies. -/
  strategies : Strategy → Prop
  /-- The assets. -/
  assets : Address → Prop

/-- **The hash function does not collide on what a run hashes.** -/
structure Vocabulary.CollisionFree (V : Vocabulary) : Prop where
  /-- It tells the encodings of strategies apart. -/
  strategies : ∀ {s t}, V.strategies s → V.strategies t →
    Digest.keccak (strategyEncoding s.underlying s.steps) =
      Digest.keccak (strategyEncoding t.underlying t.steps) →
    strategyEncoding s.underlying s.steps = strategyEncoding t.underlying t.steps
  /-- It tells the bytes of assets apart. -/
  assets : ∀ {a b}, V.assets a → V.assets b →
    Digest.keccak a.toBytes = Digest.keccak b.toBytes → a.toBytes = b.toBytes

namespace Vocabulary.CollisionFree

variable {V : Vocabulary}

/-- A digest names one strategy. -/
theorem strategy_eq (hV : V.CollisionFree) {s t : Strategy} (hs : V.strategies s)
    (ht : V.strategies t) (h : s.hash = t.hash) : s = t := by
  rw [s.hash_eq, t.hash_eq] at h
  obtain ⟨hunderlying, hsteps⟩ := strategyEncoding_inj (hV.strategies hs ht h)
  exact Strategy.eq_of_content hunderlying hsteps

/-- A token hash stands for one asset. -/
theorem asset_eq (hV : V.CollisionFree) {a b : Address} (ha : V.assets a) (hb : V.assets b)
    (h : tokenHash [a] = tokenHash [b]) : a = b := by
  have hbytes : ∀ a : Address, tokenHash [a] = .keccak a.toBytes := by
    intro a
    rw [tokenHash, List.flatMap_cons, List.flatMap_nil, List.append_nil]
  rw [hbytes, hbytes] at h
  exact Address.toBytes_inj (hV.assets ha hb h)

end Vocabulary.CollisionFree

namespace Command

/-- The strategies that a command hashes. -/
def strategies : Command → List Strategy
  | addStrategy s => [s]
  | _ => []

/-- The assets that a command hashes. -/
def assets : Command → List Address
  | setOverride _ asset _ | changeDefault _ _ asset => [asset]
  | _ => []

end Command

namespace Registry

/-- The default strategy that a selection computes, unless it finds an override or a paused
default. -/
def computed (r : Registry) (profile : String) (asset : Address) : Option Strategy :=
  if (r.override? profile (tokenHash [asset])).isSome ||
      (r.defaultState profile (tokenHash [asset])).isPaused then none
  else
    match r.profile profile with
    | .error _ => none
    | .ok policy =>
      match r.rankPools policy asset with
      | [] => none
      | best :: _ => (Strategy.single asset best.record.pool best.receipt).toOption

end Registry

/-! ## Runs -/

/-- A change of a registry that hashes only what a vocabulary holds. -/
inductive Registry.Changes (V : Vocabulary) : Registry → Registry → Prop
  /-- A caller who holds the role carries out a command. -/
  | perform {r r' : Registry} {caller : Address} {c : Command}
      (hs : ∀ s ∈ c.strategies, V.strategies s) (ha : ∀ a ∈ c.assets, V.assets a)
      (h : r.perform caller c = .ok r') : Changes V r r'
  /-- A strategy is selected, and a computed default is remembered. -/
  | select {r r' : Registry} {profile : String} {asset : Address} {choice : Selection}
      (hs : ∀ s ∈ r.computed profile asset, V.strategies s) (ha : V.assets asset)
      (h : r.bestStrategy profile asset = .ok (choice, r')) : Changes V r r'

/-- **A registry that runs reach from their configurations.** A restart begins with a configuration,
which may be another one, and restores what an earlier run has saved. -/
inductive Reachable (V : Vocabulary) : Registry → Prop
  /-- The registry of a configuration. -/
  | config {c : Config} {r : Registry} (h : Registry.ofConfig c = .ok r) : Reachable V r
  /-- A change of a registry. -/
  | change {r r' : Registry} (hr : Reachable V r) (h : Registry.Changes V r r') : Reachable V r'
  /-- The selections of an earlier run are restored. -/
  | restore {r earlier : Registry} (hr : Reachable V r) (he : Reachable V earlier) :
      Reachable V (r.restore earlier.saved)

/-! ## Configured registries -/

/-- The commands that a configuration carries out. They hash nothing, and the only adapters that
they register are those of its protocols. -/
structure Config.Issues (c : Config) (cmd : Command) : Prop where
  /-- No strategy is hashed. -/
  strategies : cmd.strategies = []
  /-- No asset is hashed. -/
  assets : cmd.assets = []
  /-- An adapter is that of a protocol with the pools that belong to it. -/
  adapters : ∀ {a}, cmd = .registerAdapter a → ∃ p ∈ c.protocols, ∃ base,
    Config.protocol p (c.pools.filter (·.protocol == p.id)) = .ok base ∧ a = .whole base

/-- Whether a command neither hashes anything nor registers an adapter. -/
def Command.isPlain : Command → Bool
  | registerAdapter _ | addStrategy _ | setOverride .. | changeDefault .. => false
  | _ => true

/-- A plain command may come from any configuration. -/
theorem Config.Issues.of_isPlain {c : Config} {cmd : Command} (h : cmd.isPlain = true) :
    c.Issues cmd := by
  cases cmd with
  | registerAdapter a => cases h
  | addStrategy s => cases h
  | setOverride profile asset strategy => cases h
  | changeDefault change profile asset => cases h
  | _ => exact ⟨rfl, rfl, fun {_} => Command.noConfusion⟩

/-- What holds of an empty registry and is kept by every command of a configuration holds of the
configured registry. -/
theorem Registry.ofConfig_induction_issued {P : Registry → Prop} {c : Config}
    (hnew : ∀ admin, P (.new admin))
    (hstep : ∀ {r r' cmd}, c.Issues cmd → P r → r.perform r.governance cmd = .ok r' → P r')
    {r : Registry} (h : ofConfig c = .ok r) : P r := by
  -- Every part of a configuration is carried out by commands of the governance account.
  have hplain : ∀ {r r' : Registry} {cmd : Command}, cmd.isPlain = true → P r →
      r.govern cmd = .ok r' → P r' := by
    intro r r' cmd hcmd hr hc
    exact hstep (.of_isPlain hcmd) hr (mapError_eq_ok.1 hc)
  have hgrants : ∀ {role accounts} {r r' : Registry}, P r → grantAll role accounts r = .ok r' →
      P r' := by
    intro role accounts r r' hr hc
    exact foldlM_induction (hplain rfl) hr hc
  have hprotocol : ∀ {p} {r r' : Registry}, p ∈ c.protocols → P r →
      configureProtocol c.pools r p = .ok r' → P r' := by
    intro p r r' hp hr hc
    simp only [configureProtocol, configureCaps, bind_eq_ok] at hc
    obtain ⟨base, hbase, r₁, h₁, r₂, h₂, bps, -, r₃, h₃, r₄, h₄, h₅⟩ := hc
    have hadapter : c.Issues (.registerAdapter (.whole base)) := by
      refine ⟨rfl, rfl, fun {a} ha => ?_⟩
      cases ha
      exact ⟨p, hp, base, hbase, rfl⟩
    have hfirst := hplain rfl (hplain rfl (hstep hadapter hr (mapError_eq_ok.1 h₁)) h₂) h₃
    refine foldlM_induction (fun {r cap r'} hb h => ?_) (foldlM_induction
      (fun {r cap r'} hb h => ?_) hfirst h₄) h₅
    · cases hamount : Amount.ofDecimal? cap.amount with
      | none => simp [hamount] at h
      | some amount =>
        have h : r.govern (.setCapAmount p.id cap.pool cap.asset amount) = .ok r' := by
          simpa [hamount] using h
        exact hplain rfl hb h
    · obtain ⟨bps, -, h⟩ := bind_eq_ok.1 h
      exact hplain rfl hb h
  have hpool : ∀ {p} {r r' : Registry}, P r → configurePool r p = .ok r' → P r' := by
    intro p r r' hr hc
    simp only [configurePool, bind_eq_ok, mapError_eq_ok] at hc
    obtain ⟨r₁, h₁, r₂, h₂, r₃, h₃, h₄⟩ := hc
    exact hstep (.of_isPlain rfl) (hplain rfl (hplain rfl (hplain rfl hr h₁) h₂) h₃) h₄
  simp only [ofConfig, bind_eq_ok] at h
  obtain ⟨r₁, h₁, r₂, h₂, r₃, h₃, r₄, h₄, r₅, h₅, h₆⟩ := h
  have hroles := hgrants (hgrants (hgrants (hnew _) h₁) h₂) h₃
  exact foldlM_induction (hplain rfl)
    (foldlM_induction hpool (foldlM_induction_mem hprotocol hroles h₄) h₅) h₆

/-- What holds of an empty registry and is kept by every command that hashes nothing holds of every
configured registry. -/
theorem Registry.ofConfig_induction {P : Registry → Prop} (hnew : ∀ admin, P (.new admin))
    (hstep : ∀ {r r' c}, c.strategies = [] → c.assets = [] → P r →
      r.perform r.governance c = .ok r' → P r')
    {c : Config} {r : Registry} (h : ofConfig c = .ok r) : P r :=
  ofConfig_induction_issued hnew (fun hc => hstep hc.strategies hc.assets) h

/-! ## What a command can do -/

/-- Two registries with the same stored selections, where every risk profile keeps its borrowing
policy. -/
structure Registry.SameSelections (r r' : Registry) : Prop where
  /-- Strategies are the same. -/
  strategies : r'.strategies = r.strategies
  /-- Overrides are the same. -/
  overrides : r'.overrides = r.overrides
  /-- Default strategies are the same. -/
  defaults : r'.defaults = r.defaults
  /-- Risk profiles stay, and may borrow when they could. -/
  policies : ∀ {name policy}, r.profiles.get? name = some policy →
    ∃ policy', r'.profiles.get? name = some policy' ∧ policy'.canBorrow = policy.canBorrow

namespace Registry

variable {r r' : Registry} {c : Command}

/-- Registries that share their selections and profiles. -/
theorem SameSelections.of_eq (hs : r'.strategies = r.strategies)
    (ho : r'.overrides = r.overrides) (hd : r'.defaults = r.defaults)
    (hp : r'.profiles = r.profiles) : r.SameSelections r' :=
  ⟨hs, ho, hd, fun {_ policy} h => ⟨policy, hp ▸ h, rfl⟩⟩

/-- **What a command can do to the stored selections.** -/
theorem execute_cases (h : r.execute c = .ok r') :
    c.strategies = [] ∧ c.assets = [] ∧ r.SameSelections r' ∨
    (∃ s, c = .addStrategy s ∧ r' = r.register s) ∨
    (∃ profile hash policy s, c = .setOverride profile s.underlying (some hash) ∧
      r.profiles.get? profile = some policy ∧ r.strategies.get? hash = some s ∧
      (s.hasBorrow = true → policy.canBorrow = true) ∧
      r' = { r with overrides := r.overrides.insert (profile, tokenHash [s.underlying]) hash }) ∨
    (∃ profile asset, c = .setOverride profile asset none ∧
      r' = { r with overrides := r.overrides.erase (profile, tokenHash [asset]) }) ∨
    ∃ change profile asset state next, c = .changeDefault change profile asset ∧
      r.defaults.get? (profile, tokenHash [asset]) = some state ∧
      next.cached? = state.cached? ∧
      r' = { r with defaults := r.defaults.insert (profile, tokenHash [asset]) next } := by
  cases c with
  | grantRole role account =>
    cases h
    exact .inl ⟨rfl, rfl, .of_eq rfl rfl rfl rfl⟩
  | revokeRole role account =>
    cases h
    exact .inl ⟨rfl, rfl, .of_eq rfl rfl rfl rfl⟩
  | registerAdapter adapter =>
    simp only [execute, ite_error_eq_ok', Except.ok.injEq] at h
    rw [← h.2]
    exact .inl ⟨rfl, rfl, .of_eq rfl rfl rfl rfl⟩
  | addPool pool =>
    cases h
    refine .inl ⟨rfl, rfl, ?_⟩
    unfold addPool
    split <;> exact .of_eq rfl rfl rfl rfl
  | ratePool pool rating =>
    obtain ⟨record, -, -, rfl⟩ := ratePool_eq_ok h
    exact .inl ⟨rfl, rfl, .of_eq rfl rfl rfl rfl⟩
  | approvePool pool approved =>
    obtain ⟨record, -, rfl⟩ := updatePool_eq_ok h
    exact .inl ⟨rfl, rfl, .of_eq rfl rfl rfl rfl⟩
  | bindPool pool protocol stake =>
    obtain ⟨a, -, -, -, rfl⟩ := bindPool_eq_ok h
    exact .inl ⟨rfl, rfl, .of_eq rfl rfl rfl rfl⟩
  | setCapMode | setProtocolCap | setPoolCap | setCapAmount =>
    rw [execute] at h
    obtain ⟨caps, -, -, rfl⟩ := updateCaps_eq_ok h
    exact .inl ⟨rfl, rfl, .of_eq rfl rfl rfl rfl⟩
  | createProfile name canBorrow low high =>
    obtain ⟨range, hnew, -, rfl⟩ := createProfile_eq_ok h
    refine .inl ⟨rfl, rfl, rfl, rfl, rfl, fun {other policy} hpolicy => ⟨policy, ?_, rfl⟩⟩
    have hne : other ≠ name := by
      rintro rfl
      rw [hnew] at hpolicy
      cases hpolicy
    exact (Table.get?_insert_of_ne _ _ hne).trans hpolicy
  | setProfileRange name low high =>
    obtain ⟨before, range, hbefore, -, rfl⟩ := setProfileRange_eq_ok h
    refine .inl ⟨rfl, rfl, rfl, rfl, rfl, fun {other policy} hpolicy => ?_⟩
    by_cases hname : other = name
    · subst hname
      rw [hpolicy, Option.some.injEq] at hbefore
      subst hbefore
      exact ⟨_, Table.get?_insert_self _ _ _, rfl⟩
    · exact ⟨policy, (Table.get?_insert_of_ne _ _ hname).trans hpolicy, rfl⟩
  | addStrategy s =>
    cases h
    exact .inr (.inl ⟨s, rfl, rfl⟩)
  | setOverride profile asset strategy =>
    cases strategy with
    | none => exact .inr (.inr (.inr (.inl ⟨profile, asset, rfl, clearOverride_eq_ok h⟩)))
    | some hash =>
      obtain ⟨policy, s, hpolicy, hs, rfl, hborrow, rfl⟩ := setOverride_eq_ok h
      exact .inr (.inr (.inl ⟨profile, hash, policy, s, rfl, hpolicy, hs, hborrow, rfl⟩))
  | changeDefault change profile asset =>
    obtain ⟨state, next, hstate, hnext, rfl⟩ := changeDefault_eq_ok h
    exact .inr (.inr (.inr (.inr ⟨change, profile, asset, state, next, rfl, hstate, hnext, rfl⟩)))

/-! ## Sound registries -/

/-- A digest that is stored under a token hash names a registered strategy, whose underlying asset
is the one that the token hash stands for. -/
structure Offers (V : Vocabulary) (known : Table Digest Strategy) (tokens hash : Digest)
    (s : Strategy) : Prop where
  /-- The strategy is registered. -/
  registered : known.get? hash = some s
  /-- The asset has been hashed. -/
  asset : V.assets s.underlying
  /-- The token hash is that of the asset. -/
  tokens_eq : tokens = tokenHash [s.underlying]

/-- **What holds of the stored selections of every reachable registry.** -/
structure Sound (V : Vocabulary) (r : Registry) : Prop where
  /-- Strategies are registered under their digests. -/
  strategies : ∀ {hash s}, r.strategies.get? hash = some s → s.hash = hash ∧ V.strategies s
  /-- Overrides name strategies of their asset. -/
  overrides : ∀ {profile tokens hash}, r.overrides.get? (profile, tokens) = some hash →
    ∃ s, Offers V r.strategies tokens hash s
  /-- Default strategies are of their asset and do not borrow. -/
  defaults : ∀ {profile tokens state hash}, r.defaults.get? (profile, tokens) = some state →
    state.cached? = some hash → ∃ s, Offers V r.strategies tokens hash s ∧ s.hasBorrow = false

/-- A registry that keeps what is registered in another one. -/
def Extends (r r' : Registry) : Prop :=
  ∀ hash s, r.strategies.get? hash = some s → r'.strategies.get? hash = some s

variable {V : Vocabulary} {tokens hash : Digest} {s : Strategy}

/-- What is offered stays on offer as long as strategies stay registered. -/
theorem Offers.extend (h : Offers V r.strategies tokens hash s) (hext : r.Extends r') :
    Offers V r'.strategies tokens hash s :=
  ⟨hext _ _ h.registered, h.asset, h.tokens_eq⟩

/-- A registration keeps what is registered. -/
theorem extends_register (r : Registry) (s : Strategy) : r.Extends (r.register s) := by
  intro hash t ht
  unfold register
  by_cases hs : r.strategies.contains s.hash
  · rw [if_pos hs]
    exact ht
  · rw [if_neg hs]
    refine (Table.get?_insert_of_ne _ _ ?_).trans ht
    rintro rfl
    exact hs (by simp [Table.contains, ht])

/-- What is registered after a registration. -/
theorem get?_register {t : Strategy} (h : (r.register s).strategies.get? hash = some t) :
    r.strategies.get? hash = some t ∨ hash = s.hash ∧ t = s := by
  unfold register at h
  by_cases hs : r.strategies.contains s.hash
  · rw [if_pos hs] at h
    exact .inl h
  · rw [if_neg hs] at h
    change (r.strategies.insert s.hash s).get? hash = some t at h
    rw [Table.get?_insert] at h
    by_cases hhash : hash = s.hash
    · rw [if_pos hhash, Option.some.injEq] at h
      exact .inr ⟨hhash, h.symm⟩
    · rw [if_neg hhash] at h
      exact .inl h

/-- A registered strategy is found under its digest. -/
theorem Sound.get?_register_self (hr : r.Sound V) (hV : V.CollisionFree) (hs : V.strategies s) :
    (r.register s).strategies.get? s.hash = some s := by
  unfold register
  by_cases hfound : r.strategies.contains s.hash
  · rw [if_pos hfound]
    obtain ⟨t, ht⟩ := Option.isSome_iff_exists.1 hfound
    obtain ⟨hhash, hmem⟩ := hr.strategies ht
    rw [ht, hV.strategy_eq hmem hs hhash]
  · rw [if_neg hfound]
    exact Table.get?_insert_self _ _ _

/-- A registration touches nothing but the strategies. -/
theorem register_rest (r : Registry) (s : Strategy) :
    (r.register s).overrides = r.overrides ∧ (r.register s).defaults = r.defaults ∧
      (r.register s).profiles = r.profiles := by
  unfold register
  split <;> exact ⟨rfl, rfl, rfl⟩

/-- Registering keeps a registry sound. -/
theorem Sound.register (hr : r.Sound V) (hs : V.strategies s) : (r.register s).Sound V := by
  have hext := extends_register r s
  obtain ⟨hoverrides, hdefaults, -⟩ := register_rest r s
  refine ⟨fun {hash t} ht => ?_, fun {profile tokens hash} h => ?_,
    fun {profile tokens state hash} h hcached => ?_⟩
  · rcases get?_register ht with ht | ⟨rfl, rfl⟩
    · exact hr.strategies ht
    · exact ⟨rfl, hs⟩
  · obtain ⟨t, ht⟩ := hr.overrides (hoverrides ▸ h)
    exact ⟨t, ht.extend hext⟩
  · obtain ⟨t, ht, hplain⟩ := hr.defaults (hdefaults ▸ h) hcached
    exact ⟨t, ht.extend hext, hplain⟩

/-- Registering many strategies keeps a registry sound, keeps what is registered, and makes each of
them known. -/
theorem Sound.foldl_register (hr : r.Sound V) (hV : V.CollisionFree) {xs : List Strategy}
    (hxs : ∀ s ∈ xs, V.strategies s) : (xs.foldl Registry.register r).Sound V ∧
      r.Extends (xs.foldl Registry.register r) ∧
      ∀ s ∈ xs, (xs.foldl Registry.register r).strategies.get? s.hash = some s := by
  induction xs generalizing r with
  | nil => exact ⟨hr, fun _ _ h => h, fun s hs => absurd hs List.not_mem_nil⟩
  | cons x rest ih =>
    have hx := hxs x List.mem_cons_self
    obtain ⟨hsound, hext, hknown⟩ :=
      ih (hr.register hx) fun s hs => hxs s (List.mem_cons_of_mem _ hs)
    refine ⟨hsound, fun _ _ h => hext _ _ (extends_register r x _ _ h), fun s hs => ?_⟩
    rcases List.mem_cons.1 hs with rfl | hs
    · exact hext _ _ (hr.get?_register_self hV hx)
    · exact hknown s hs

/-- Soundness only depends on the stored selections. -/
theorem Sound.of_same (hr : r.Sound V) (h : r.SameSelections r') : r'.Sound V := by
  have hext : r.Extends r' := fun _ _ hs => h.strategies ▸ hs
  refine ⟨fun {hash s} hs => hr.strategies (h.strategies ▸ hs), fun {profile tokens hash} ho => ?_,
    fun {profile tokens state hash} hd hcached => ?_⟩
  · obtain ⟨s, hs⟩ := hr.overrides (h.overrides ▸ ho)
    exact ⟨s, hs.extend hext⟩
  · obtain ⟨s, hs, hplain⟩ := hr.defaults (h.defaults ▸ hd) hcached
    exact ⟨s, hs.extend hext, hplain⟩

/-- An empty registry is sound. -/
theorem sound_new (V : Vocabulary) (admin : Address) : (new admin).Sound V := by
  refine ⟨fun h => ?_, fun h => ?_, fun h => ?_⟩
  · cases h
  · cases h
  · cases h

/-! ## Soundness of reachable registries -/

/-- A command keeps a registry sound. -/
theorem Sound.perform {caller : Address} (hr : r.Sound V)
    (hs : ∀ s ∈ c.strategies, V.strategies s) (ha : ∀ a ∈ c.assets, V.assets a)
    (h : r.perform caller c = .ok r') : r'.Sound V := by
  rw [Registry.perform, ite_error_eq_ok] at h
  rcases execute_cases h.2 with ⟨-, -, hsame⟩ | ⟨s, rfl, rfl⟩ |
    ⟨profile, hash, policy, s, rfl, -, hstrategy, -, rfl⟩ | ⟨profile, asset, rfl, rfl⟩ |
    ⟨change, profile, asset, state, next, rfl, hstate, hnext, rfl⟩
  · exact hr.of_same hsame
  · exact hr.register (hs s List.mem_cons_self)
  · refine ⟨hr.strategies, fun {name tokens digest} h => ?_, hr.defaults⟩
    rw [Table.get?_insert] at h
    by_cases hkey : (name, tokens) = (profile, tokenHash [s.underlying])
    · rw [if_pos hkey, Option.some.injEq] at h
      cases hkey
      exact ⟨s, h ▸ hstrategy, ha s.underlying List.mem_cons_self, rfl⟩
    · rw [if_neg hkey] at h
      exact hr.overrides h
  · refine ⟨hr.strategies, fun {name tokens digest} h => ?_, hr.defaults⟩
    rw [Table.get?_erase] at h
    by_cases hkey : (name, tokens) = (profile, tokenHash [asset])
    · rw [if_pos hkey] at h
      cases h
    · rw [if_neg hkey] at h
      exact hr.overrides h
  · refine ⟨hr.strategies, hr.overrides, fun {name tokens found digest} h hcached => ?_⟩
    rw [Table.get?_insert] at h
    by_cases hkey : (name, tokens) = (profile, tokenHash [asset])
    · rw [if_pos hkey, Option.some.injEq] at h
      cases hkey
      exact hr.defaults hstate (by rw [← hnext, h, hcached])
    · rw [if_neg hkey] at h
      exact hr.defaults h hcached

/-- Remembering a default that is offered and does not borrow keeps a registry sound. -/
theorem Sound.cacheDefault {profile : String} (hr : r.Sound V)
    (hs : Offers V r.strategies tokens hash s) (hplain : s.hasBorrow = false) :
    (r.cacheDefault profile tokens hash).Sound V := by
  refine ⟨hr.strategies, hr.overrides, fun {name found state digest} h hcached => ?_⟩
  rw [Registry.cacheDefault, Table.get?_insert] at h
  by_cases hkey : (name, found) = (profile, tokens)
  · rw [if_pos hkey, Option.some.injEq] at h
    cases hkey
    subst h
    unfold defaultState at hcached
    cases hstate : r.defaults.get? (profile, tokens) with
    | none =>
      rw [hstate] at hcached
      cases hcached
      exact ⟨s, hs, hplain⟩
    | some state =>
      rw [hstate, Option.getD_some] at hcached
      match state, hcached with
      | .unset, rfl => exact ⟨s, hs, hplain⟩
      | .ratingBased true cached, hcached => exact hr.defaults hstate hcached
      | .ratingBased false cached, rfl => exact ⟨s, hs, hplain⟩
  · rw [if_neg hkey] at h
    exact hr.defaults h hcached

/-- A default state other than the unset one is stored. -/
theorem get?_of_defaultState {profile : String} {state : DefaultState}
    (h : r.defaultState profile tokens = state) (hne : state ≠ .unset) :
    r.defaults.get? (profile, tokens) = some state := by
  unfold defaultState at h
  cases hfound : r.defaults.get? (profile, tokens) with
  | none =>
    rw [hfound] at h
    exact absurd h.symm hne
  | some found =>
    rw [hfound, Option.getD_some] at h
    rw [h]

/-- A single deposit is over its asset and does not borrow. -/
theorem plain_of_single {asset pool receipt : Address}
    (h : Strategy.single asset pool receipt = .ok s) :
    s.underlying = asset ∧ s.hasBorrow = false := by
  unfold Strategy.single Strategy.make at h
  split at h
  · cases h
  · split at h
    · cases h
    · cases h
      exact ⟨rfl, rfl⟩

/-- **What a selection can be.** An override, a paused default, or a default that is computed. -/
theorem bestStrategy_cases {profile : String} {asset : Address} {choice : Selection}
    (h : r.bestStrategy profile asset = .ok (choice, r')) :
    ∃ policy, r.profiles.get? profile = some policy ∧
      (r.overrides.get? (profile, tokenHash [asset]) = some choice.hash ∧ r' = r ∨
        r.defaults.get? (profile, tokenHash [asset]) = some (.ratingBased true choice.hash) ∧
          r' = r ∨
        ∃ s, r.computed profile asset = some s ∧ s.underlying = asset ∧ s.hasBorrow = false ∧
          choice.hash = s.hash ∧
          r' = (r.register s).cacheDefault profile (tokenHash [asset]) s.hash) := by
  unfold bestStrategy at h
  obtain ⟨policy, hpolicy, h⟩ := bind_eq_ok.1 h
  refine ⟨policy, profile_eq_ok.1 hpolicy, ?_⟩
  cases hoverride : r.override? profile (tokenHash [asset]) with
  | some hash =>
    simp only [hoverride] at h
    cases h
    exact .inl ⟨hoverride, rfl⟩
  | none =>
    simp only [hoverride] at h
    split at h
    · rename_i cached hstate
      cases h
      exact .inr (.inl ⟨get?_of_defaultState hstate (by simp), rfl⟩)
    -- Neither overridden nor paused: the default is computed from the ranked pools.
    · rename_i hactive
      have hpaused : (r.defaultState profile (tokenHash [asset])).isPaused = false := by
        cases hstate : r.defaultState profile (tokenHash [asset]) with
        | unset => rfl
        | ratingBased paused cached =>
          cases paused with
          | true => exact absurd hstate (hactive cached)
          | false => rfl
      cases hranks : r.rankPools policy asset with
      | nil =>
        rw [hranks] at h
        cases h
      | cons best rest =>
        rw [hranks] at h
        obtain ⟨s, hs, h⟩ := bind_eq_ok.1 h
        cases h
        obtain ⟨hasset, hplain⟩ := plain_of_single hs
        refine .inr (.inr ⟨s, ?_, hasset, hplain, rfl, rfl⟩)
        simp only [computed, hoverride, hpaused, hpolicy, hranks, hs, Option.isSome_none,
          Bool.or_self, Bool.false_eq_true, if_false]
        rfl

/-- The registry of a selection keeps what is registered, and the selected strategy is among it. It
is an override, or it does not borrow. -/
theorem Sound.selected (hr : r.Sound V) (hV : V.CollisionFree) {profile : String}
    {asset : Address} {choice : Selection} (hs : ∀ s ∈ r.computed profile asset, V.strategies s)
    (ha : V.assets asset) (h : r.bestStrategy profile asset = .ok (choice, r')) :
    r'.Sound V ∧ ∃ s, r'.strategies.get? choice.hash = some s ∧ s.underlying = asset ∧
      (s.hasBorrow = true →
        r.overrides.get? (profile, tokenHash [asset]) = some choice.hash ∧ r' = r) := by
  obtain ⟨policy, -, hcases⟩ := bestStrategy_cases h
  rcases hcases with ⟨hoverride, rfl⟩ | ⟨hdefault, rfl⟩ | ⟨s, hcomputed, rfl, hplain, hhash, rfl⟩
  · obtain ⟨s, hfound, hasset, htokens⟩ := hr.overrides hoverride
    exact ⟨hr, s, hfound, (hV.asset_eq ha hasset htokens).symm, fun _ => ⟨hoverride, rfl⟩⟩
  · obtain ⟨s, ⟨hfound, hasset, htokens⟩, hplain⟩ := hr.defaults hdefault rfl
    refine ⟨hr, s, hfound, (hV.asset_eq ha hasset htokens).symm, fun hborrow => ?_⟩
    rw [hplain] at hborrow
    cases hborrow
  · have hmem := hs s hcomputed
    have hfound := hr.get?_register_self hV hmem
    refine ⟨(hr.register hmem).cacheDefault ⟨hfound, ha, rfl⟩ hplain, s, ?_, rfl,
      fun hborrow => ?_⟩
    · rw [hhash]
      exact hfound
    · rw [hplain] at hborrow
      cases hborrow

/-- The strategies of a restored registry are those of the registry with the saved ones. -/
theorem strategies_restore (r : Registry) (saved : SavedRegistry) :
    (r.restore saved).strategies = (saved.strategies.foldl Registry.register r).strategies := rfl

/-- A sound registry saves strategies of the vocabulary. -/
theorem Sound.strategies_saved (hr : r.Sound V) : ∀ s ∈ r.saved.strategies, V.strategies s := by
  intro s hs
  obtain ⟨e, he, rfl⟩ := List.mem_map.1 hs
  exact (hr.strategies (Table.mem_toList_iff.1 he)).2

/-- **Restoring what a sound registry has saved keeps a registry sound**, and makes every strategy
of the saved one known. -/
theorem Sound.restore {earlier : Registry} (hr : r.Sound V) (he : earlier.Sound V)
    (hV : V.CollisionFree) : (r.restore earlier.saved).Sound V ∧
      earlier.Extends (r.restore earlier.saved) := by
  obtain ⟨hsound, -, hknown⟩ := hr.foldl_register hV he.strategies_saved
  -- Strategies come back first, so what saved selections name is registered again.
  have hext : earlier.Extends (r.restore earlier.saved) := by
    intro hash s hs
    have hvalue : s ∈ earlier.saved.strategies :=
      List.mem_map.2 ⟨(hash, s), Table.mem_toList_iff.2 hs, rfl⟩
    rw [strategies_restore, ← (he.strategies hs).1]
    exact hknown s hvalue
  refine ⟨⟨hsound.strategies, fun {profile tokens hash} h => ?_,
    fun {profile tokens state hash} h hcached => ?_⟩, hext⟩
  · rcases Table.get?_foldl_insert h with hsaved | h
    · obtain ⟨s, hs⟩ := he.overrides (Table.mem_toList_iff.1 (List.mem_filter.1 hsaved).1)
      exact ⟨s, hs.extend hext⟩
    · exact hsound.overrides h
  · rcases Table.get?_foldl_insert h with hsaved | h
    · obtain ⟨s, hs, hplain⟩ :=
        he.defaults (Table.mem_toList_iff.1 (List.mem_filter.1 hsaved).1) hcached
      exact ⟨s, hs.extend hext, hplain⟩
    · exact hsound.defaults h hcached

/-- A change keeps a registry sound. -/
theorem Sound.of_changes (hr : r.Sound V) (hV : V.CollisionFree) (h : Changes V r r') :
    r'.Sound V := by
  cases h with
  | perform hs ha h => exact hr.perform hs ha h
  | select hs ha h => exact (hr.selected hV hs ha h).1

end Registry

/-- **Every reachable registry is sound.** -/
theorem Reachable.sound {V : Vocabulary} {r : Registry} (hV : V.CollisionFree)
    (h : Reachable V r) : r.Sound V := by
  induction h with
  | config h =>
    refine Registry.ofConfig_induction (Registry.sound_new V) (fun {r r' c} hs ha hr h => ?_) h
    exact hr.perform (by simp [hs]) (by simp [ha]) h
  | change hr h ih => exact ih.of_changes hV h
  | restore hr he ihr ihe => exact (ihr.restore ihe hV).1

end VaultKeeper
