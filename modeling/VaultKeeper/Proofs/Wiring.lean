import VaultKeeper.Config.Validation
import VaultKeeper.Proofs.Reachable

/-! # Wired registries

A configuration that keeps its rules wires every pool to an adapter that can serve it: adapters have
all capabilities of their family, curve pools have two or three coins, and a pool is bound to an
adapter that is configured for it, with a gauge where receipts are staked. Commands of any caller
keep this as long as they register no further adapter. Selections and restored selections touch
neither adapters nor bindings. -/

namespace VaultKeeper

/-! ## Validated configurations -/

/-- Items that pass a check for repetitions pass the check of each item, have keys that were not
seen before, and are told apart by their keys. -/
theorem checkDistinct_eq_ok {α κ ε : Type} [DecidableEq κ] {key : α → κ} {duplicate : κ → ε}
    {check : α → Except ε Unit} {seen : List κ} {xs : List α}
    (h : checkDistinct key duplicate check seen xs = .ok ()) :
    (∀ x ∈ xs, check x = .ok () ∧ key x ∉ seen) ∧
      ∀ x ∈ xs, ∀ y ∈ xs, key x = key y → x = y := by
  induction xs generalizing seen with
  | nil => simp
  | cons x rest ih =>
    simp only [checkDistinct, throw_eq_error, error_bind, ite_error_eq_ok', bind_eq_ok] at h
    obtain ⟨hx, _, hcheck, hrest⟩ := h
    obtain ⟨hall, hinj⟩ := ih hrest
    -- The key of the first item was seen when the rest was checked.
    have hne : ∀ y ∈ rest, key y ≠ key x := by
      intro y hy heq
      exact (hall y hy).2 (heq ▸ List.mem_cons_self)
    constructor
    · intro y hy
      rcases List.mem_cons.1 hy with rfl | hy
      · exact ⟨hcheck, hx⟩
      · exact ⟨(hall y hy).1, fun hseen => (hall y hy).2 (List.mem_cons_of_mem _ hseen)⟩
    · intro y hy z hz heq
      rcases List.mem_cons.1 hy with hyx | hy
      · rcases List.mem_cons.1 hz with hzx | hz
        · exact hyx.trans hzx.symm
        · exact absurd (hyx ▸ heq.symm) (hne z hz)
      · rcases List.mem_cons.1 hz with hzx | hz
        · exact absurd (hzx ▸ heq) (hne y hy)
        · exact hinj y hy z hz heq

namespace Config

variable {c : Config} {p : ProtocolConfig} {q : PoolConfig}

/-- A pool of a valid configuration has the shape that the family of its protocol needs. -/
theorem checkShape_of_validate (h : c.validate = .ok ()) (hp : p ∈ c.protocols) (hq : q ∈ c.pools)
    (hid : q.protocol = p.id) : checkShape q p.kind = .ok () := by
  simp only [validate, throw_eq_error, error_bind, ite_error_eq_ok', bind_eq_ok] at h
  obtain ⟨-, -, _, hprotocols, _, hpools, -⟩ := h
  have hpool := ((checkDistinct_eq_ok hpools).1 q hq).1
  unfold checkPool at hpool
  cases hfind : c.protocols.find? (·.id == q.protocol) with
  | none => simp [hfind] at hpool
  | some found =>
    -- Identifiers occur once, so the protocol that is found is the one that was meant.
    have hsame : found = p := by
      have hfound : found.id = q.protocol := by simpa using List.find?_some hfind
      exact (checkDistinct_eq_ok hprotocols).2 found (List.mem_of_find?_eq_some hfind) p hp
        (hfound.trans hid)
    subst hsame
    simp only [hfind, throw_eq_error, error_bind] at hpool
    cases hrating : q.rating with
    | none =>
      simp only [hrating, ite_error_eq_ok'] at hpool
      exact hpool.2
    | some rating =>
      simp only [hrating, ite_error_eq_ok'] at hpool
      exact hpool.2.2

end Config

/-! ## Adapters and the pools they serve -/

/-- An adapter as configurations make them: it has every capability of its family, and its curve
pools have two or three coins. -/
structure Adapter.Regular (a : Adapter) : Prop where
  /-- The capabilities come with the protocol. -/
  whole : a = .whole a.base
  /-- There are calls to add and remove the liquidity of every pool. -/
  sized : ∀ {p c pool}, a.base = .curve p → p.pool pool = .ok c →
    c.coins.length = 2 ∨ c.coins.length = 3

/-- The adapter of a protocol in a valid configuration is regular. -/
theorem Config.regular_of_validate {c : Config} {p : ProtocolConfig} {base : Protocol}
    (h : c.validate = .ok ()) (hp : p ∈ c.protocols)
    (hbase : protocol p (c.pools.filter (·.protocol == p.id)) = .ok base) :
    (Adapter.whole base).Regular := by
  refine ⟨by cases base <;> rfl, fun {q found pool} hcurve hpool => ?_⟩
  -- A whole adapter has the protocol that it was made of, which is a curve protocol here.
  have hcurve : base = .curve q := by
    cases base with
    | vault _ => cases hcurve
    | lending _ => cases hcurve
    | curve _ => exact hcurve
  subst hcurve
  unfold protocol at hbase
  cases hkind : p.kind with
  | vault => simp [hkind] at hbase
  | lending => simp [hkind] at hbase
  | curve =>
    simp only [hkind, bind_eq_ok, pure_eq_ok, Except.ok.injEq, Protocol.curve.injEq] at hbase
    obtain ⟨curves, hcurves, rfl⟩ := hbase
    have hget : (Table.ofList curves).get? pool = some found := by
      unfold CurveProtocol.pool at hpool
      split at hpool
      · cases hpool
        assumption
      · cases hpool
    have hmem : (pool, found) ∈ curves := by
      rcases Table.get?_foldl_insert hget with hmem | hempty
      · exact hmem
      · cases hempty
    obtain ⟨entry, hentry, hmade⟩ := mem_of_mapM_eq_ok hcurves hmem
    obtain ⟨hpools, hid⟩ := List.mem_filter.1 hentry
    have hshape := checkShape_of_validate h hp hpools (by simpa using hid)
    simp only [hkind, checkShape, throw_eq_error, error_bind, pure_eq_ok,
      ite_error_eq_ok] at hshape
    cases hreceipt : entry.receipt with
    | none => simp [hreceipt] at hmade
    | some receipt =>
      simp only [hreceipt, Except.ok.injEq, Prod.mk.injEq] at hmade
      rw [← hmade.2]
      exact hshape.1

namespace Registry

/-! ## What a command can do to adapters and bindings -/

/-- Two registries with the same adapters and bindings. -/
structure SameWiring (r r' : Registry) : Prop where
  /-- Adapters are the same. -/
  adapters : r'.adapters = r.adapters
  /-- Bindings are the same. -/
  bindings : r'.bindings = r.bindings

variable {r r' : Registry} {c : Command}

/-- Strategies are no part of the wiring. -/
theorem sameWiring_register (r : Registry) (s : Strategy) : r.SameWiring (r.register s) := by
  unfold register
  split <;> exact ⟨rfl, rfl⟩

/-- A number of registrations. -/
theorem sameWiring_foldl_register (r : Registry) (xs : List Strategy) :
    r.SameWiring (xs.foldl register r) := by
  induction xs generalizing r with
  | nil => exact ⟨rfl, rfl⟩
  | cons x rest ih =>
    have hx := sameWiring_register r x
    have hrest := ih (r.register x)
    exact ⟨hrest.adapters.trans hx.adapters, hrest.bindings.trans hx.bindings⟩

/-- **What a command can do to adapters and bindings.** -/
theorem execute_wiring (h : r.execute c = .ok r') :
    r.SameWiring r' ∨
    (∃ a, c = .registerAdapter a ∧ r.adapters.get? a.id = none ∧
      r' = { r with adapters := r.adapters.insert a.id a }) ∨
    ∃ pool protocol stake a, c = .bindPool pool protocol stake ∧
      r.adapters.get? protocol = some a ∧ a.Serves pool stake ∧
      r' = { r with bindings := r.bindings.insert pool ⟨protocol, stake⟩ } := by
  cases c with
  | registerAdapter a =>
    simp only [execute, ite_error_eq_ok', Except.ok.injEq] at h
    exact .inr (.inl ⟨a, rfl, by simpa [Table.contains] using h.1, h.2.symm⟩)
  | bindPool pool protocol stake =>
    obtain ⟨a, -, ha, hserves, hr⟩ := bindPool_eq_ok h
    exact .inr (.inr ⟨pool, protocol, stake, a, rfl, ha, hserves, hr⟩)
  | grantRole role account =>
    cases h
    exact .inl ⟨rfl, rfl⟩
  | revokeRole role account =>
    cases h
    exact .inl ⟨rfl, rfl⟩
  | addPool pool =>
    cases h
    unfold addPool
    split <;> exact .inl ⟨rfl, rfl⟩
  | ratePool pool rating =>
    obtain ⟨record, -, -, rfl⟩ := ratePool_eq_ok h
    exact .inl ⟨rfl, rfl⟩
  | approvePool pool approved =>
    obtain ⟨record, -, rfl⟩ := updatePool_eq_ok h
    exact .inl ⟨rfl, rfl⟩
  | setCapMode | setProtocolCap | setPoolCap | setCapAmount =>
    rw [execute] at h
    obtain ⟨caps, -, -, rfl⟩ := updateCaps_eq_ok h
    exact .inl ⟨rfl, rfl⟩
  | createProfile name canBorrow low high =>
    obtain ⟨range, -, -, rfl⟩ := createProfile_eq_ok h
    exact .inl ⟨rfl, rfl⟩
  | setProfileRange name low high =>
    obtain ⟨policy, range, -, -, rfl⟩ := setProfileRange_eq_ok h
    exact .inl ⟨rfl, rfl⟩
  | addStrategy s =>
    cases h
    exact .inl (sameWiring_register r s)
  | setOverride profile asset strategy =>
    cases strategy with
    | none =>
      cases clearOverride_eq_ok h
      exact .inl ⟨rfl, rfl⟩
    | some hash =>
      obtain ⟨policy, s, -, -, -, -, rfl⟩ := setOverride_eq_ok h
      exact .inl ⟨rfl, rfl⟩
  | changeDefault change profile asset =>
    obtain ⟨state, next, -, -, rfl⟩ := changeDefault_eq_ok h
    exact .inl ⟨rfl, rfl⟩

/-! ## Wired registries -/

/-- **Every adapter is regular, and every binding names an adapter that serves its pool.** -/
structure Wired (r : Registry) : Prop where
  /-- Adapters are as configurations make them. -/
  regular : ∀ {id a}, r.adapters.get? id = some a → a.Regular
  /-- Bindings name adapters that serve their pools. -/
  served : ∀ {pool b}, r.bindings.get? pool = some b →
    ∃ a, r.adapters.get? b.protocol = some a ∧ a.Serves pool b.stake

/-- An empty registry is wired. -/
theorem wired_new (admin : Address) : (new admin).Wired := by
  refine ⟨fun h => ?_, fun h => ?_⟩
  · cases h
  · cases h

/-- Being wired only depends on adapters and bindings. -/
theorem Wired.of_same (hr : r.Wired) (h : r.SameWiring r') : r'.Wired := by
  refine ⟨fun ha => hr.regular (h.adapters ▸ ha), fun hb => ?_⟩
  rw [h.adapters]
  exact hr.served (h.bindings ▸ hb)

/-- A command keeps a registry wired if it registers regular adapters only. -/
theorem Wired.execute (hr : r.Wired) (hc : ∀ a, c = .registerAdapter a → a.Regular)
    (h : r.execute c = .ok r') : r'.Wired := by
  rcases execute_wiring h with hsame | ⟨a, rfl, hnew, rfl⟩ | ⟨pool, protocol, stake, a, rfl, ha,
    hserves, rfl⟩
  · exact hr.of_same hsame
  · refine ⟨fun {id found} hfound => ?_, fun {pool b} hb => ?_⟩
    · rw [Table.get?_insert] at hfound
      by_cases hid : id = a.id
      · rw [if_pos hid, Option.some.injEq] at hfound
        exact hfound ▸ hc a rfl
      · rw [if_neg hid] at hfound
        exact hr.regular hfound
    -- The identifier is new, so what a binding names is still there.
    · obtain ⟨served, hserved, hserves⟩ := hr.served hb
      have hid : b.protocol ≠ a.id := by
        intro heq
        rw [heq, hnew] at hserved
        cases hserved
      exact ⟨served, (Table.get?_insert_of_ne _ _ hid).trans hserved, hserves⟩
  · refine ⟨hr.regular, fun {pool' b} hb => ?_⟩
    rw [Table.get?_insert] at hb
    by_cases hpool : pool' = pool
    · rw [if_pos hpool, Option.some.injEq] at hb
      subst hpool hb
      exact ⟨a, ha, hserves⟩
    · rw [if_neg hpool] at hb
      exact hr.served hb

/-- The adapter of a bound pool is regular and serves the pool. -/
theorem Wired.of_binding {pool : Address} {bound : BoundPool} (hr : r.Wired)
    (h : r.binding? pool = some bound) :
    bound.adapter.Regular ∧ bound.adapter.Serves pool bound.stake := by
  simp only [binding?, Option.bind_eq_bind, Option.bind_eq_some_iff, Option.pure_def,
    Option.some.injEq] at h
  obtain ⟨b, hb, a, ha, rfl⟩ := h
  obtain ⟨served, hserved, hserves⟩ := hr.served hb
  rw [ha, Option.some.injEq] at hserved
  exact ⟨hr.regular ha, hserved ▸ hserves⟩

end Registry

/-! ## Governed registries -/

/-- **A registry that has been governed since its configuration.** The configuration keeps the
rules. Later changes are commands of any callers, which register no further adapter, selections,
and restored selections of other runs. -/
inductive Governed : Registry → Prop
  /-- The registry of a configuration. -/
  | config {c : Config} {r : Registry} (hc : c.validate = .ok ())
      (h : Registry.ofConfig c = .ok r) : Governed r
  /-- A caller who holds the role carries out a command. -/
  | perform {r r' : Registry} {caller : Address} {c : Command} (hr : Governed r)
      (hc : ∀ a, c ≠ .registerAdapter a) (h : r.perform caller c = .ok r') : Governed r'
  /-- A strategy is selected, and a computed default is remembered. -/
  | select {r r' : Registry} {profile : String} {asset : Address} {choice : Selection}
      (hr : Governed r) (h : r.bestStrategy profile asset = .ok (choice, r')) : Governed r'
  /-- Saved selections are restored. -/
  | restore {r : Registry} (hr : Governed r) (saved : SavedRegistry) : Governed (r.restore saved)

/-- The registry of a configuration, once its governance account has added a strategy. -/
theorem Governed.of_addStrategy {c : Config} {r : Registry} {s : Strategy}
    (hc : c.validate = .ok ()) (h : Registry.ofConfig c = .ok r)
    (hadd : r.perform c.governance.admin (.addStrategy s) = .ok (r.register s)) :
    Governed (r.register s) :=
  .perform (.config hc h) (fun _ => Command.noConfusion) hadd

/-- **Governed registries are wired.** -/
theorem Governed.wired {r : Registry} (h : Governed r) : r.Wired := by
  induction h with
  | config hc h =>
    refine Registry.ofConfig_induction_issued Registry.wired_new (fun {r r' cmd} hcmd hr h => ?_) h
    rw [Registry.perform, ite_error_eq_ok] at h
    refine hr.execute (fun a ha => ?_) h.2
    obtain ⟨p, hp, base, hbase, rfl⟩ := hcmd.adapters ha
    exact Config.regular_of_validate hc hp hbase
  | perform hr hc h ih =>
    rw [Registry.perform, ite_error_eq_ok] at h
    exact ih.execute (fun a ha => absurd ha (hc a)) h.2
  | @select r r' profile asset choice hr h ih =>
    obtain ⟨policy, -, hcases⟩ := Registry.bestStrategy_cases h
    rcases hcases with ⟨-, rfl⟩ | ⟨-, rfl⟩ | ⟨s, -, -, -, -, rfl⟩
    · exact ih
    · exact ih
    · have hsame := Registry.sameWiring_register r s
      exact ih.of_same ⟨hsame.adapters, hsame.bindings⟩
  | @restore r hr saved ih =>
    have hsame := Registry.sameWiring_foldl_register r saved.strategies
    exact ih.of_same ⟨hsame.adapters, hsame.bindings⟩

end VaultKeeper
