import VaultKeeper.Proofs.Calls
import VaultKeeper.Registry.Request

/-! # Consistent registries

The tables of a registry refer to each other: a binding names a pool and an adapter, an override a
profile and a strategy. Whatever is asked of a registry, in whatever order and by whomever, granted
or refused, these references lead somewhere, the stored numbers stay in their bounds, and what other
tables refer to is never taken away. Each kind of write is shown to keep this once; a request is one
of these writes or none, and a run is a list of requests. A refusal may be a write, too: what a
command about deposit caps leaves behind when it is refused is what another one would have set.

Default strategies are recorded as they are handed in. They refer to known profiles and registered
strategies as long as those that are recorded do. -/

namespace VaultKeeper

namespace Table

variable {κ ν : Type} [Ord κ] {t : Table κ ν} {k k' : κ} {v w : ν}

/-- A key is there exactly when a value is found. -/
theorem contains_iff : t.contains k = true ↔ ∃ v, t.get? k = some v := Option.isSome_iff_exists

/-- What is found after an insertion is the inserted value, or was there before. -/
theorem get?_insert_cases [DecidableEq κ] [Std.LawfulEqOrd κ] [Std.TransOrd κ]
    (h : (t.insert k v).get? k' = some w) : k' = k ∧ w = v ∨ k' ≠ k ∧ t.get? k' = some w := by
  rw [get?_insert] at h
  by_cases hk : k' = k
  · rw [if_pos hk, Option.some.injEq] at h
    exact .inl ⟨hk, h.symm⟩
  · rw [if_neg hk] at h
    exact .inr ⟨hk, h⟩

/-- When every value is stored under a key of its own, the values are those that are found there. -/
theorem mem_values_iff [Std.LawfulEqOrd κ] {key : ν → κ}
    (hkey : ∀ {k v}, t.get? k = some v → key v = k) : v ∈ t.values ↔ t.get? (key v) = some v := by
  rw [values, List.mem_map]
  constructor
  · rintro ⟨⟨k, found⟩, hentry, rfl⟩
    have hfound := mem_toList_iff.1 hentry
    rw [hkey hfound]
    exact hfound
  · intro h
    exact ⟨(key v, v), mem_toList_iff.2 h, rfl⟩

end Table

/-! ## Requests -/

namespace Registry

variable {r r' : Registry} {c : Command} {s : Strategy} {q : Request}

/-- A request changes a registry as a command does, a registration, a default that is recorded or
computed, or a restoration, or it changes nothing. What is computed is registered before it is
recorded. A refused command, too, leaves a registry behind that some command makes. -/
theorem after_cases (r : Registry) (q : Request) :
    r.after q = r ∨
    (∃ c, r.execute c = .ok (r.after q)) ∨
    (∃ s, r.after q = r.register s) ∨
    (∃ profile tokens hash, q = .record profile tokens hash ∧
      r.after q = r.cacheDefault profile tokens hash) ∨
    (∃ profile policy tokens s, r.profiles.get? profile = some policy ∧
      r.after q = (r.register s).cacheDefault profile tokens s.hash) ∨
    ∃ saved, r.after q = r.restore saved := by
  cases q with
  | command caller c =>
    rcases call_eq_execute r caller c with h | h
    · exact .inl h
    · exact .inr (.inl h)
  | register s => exact .inr (.inr (.inl ⟨s, rfl⟩))
  | record profile tokens hash =>
    exact .inr (.inr (.inr (.inl ⟨profile, tokens, hash, rfl, rfl⟩)))
  | select profile asset =>
    rw [after_select]
    cases h : r.bestStrategy profile asset with
    | error e => exact .inl rfl
    | ok x =>
      obtain ⟨choice, r'⟩ := x
      obtain ⟨policy, hpolicy, hcases⟩ := bestStrategy_cases h
      rcases hcases with ⟨-, hr⟩ | ⟨-, hr⟩ | ⟨s, -, -, -, -, hr⟩
      · exact .inl hr
      · exact .inl hr
      · exact .inr (.inr (.inr (.inr (.inl ⟨profile, policy, _, s, hpolicy, hr⟩))))
  | restore saved => exact .inr (.inr (.inr (.inr (.inr ⟨saved, rfl⟩))))

/-- A command that is performed leaves behind what it gives back. -/
theorem after_of_perform {caller : Address} (h : r.perform caller c = .ok r') :
    r.after (.command caller c) = r' := by
  rw [perform_eq_call] at h
  rw [after, respond]
  cases hanswer : (r.call caller c).1 with
  | error e =>
    rw [hanswer] at h
    cases h
  | ok a =>
    rw [hanswer] at h
    exact Except.ok.inj h

/-! ## What is never taken away -/

/-- **What a registry keeps of an earlier one.** Strategies and adapters stay as they are, pools
keep their place in the order of registration, and profiles their borrowing policy. -/
structure Evolves (r r' : Registry) : Prop where
  /-- Registered strategies stay. -/
  strategies : r.Extends r'
  /-- Registered adapters stay. -/
  adapters : ∀ {id a}, r.adapters.get? id = some a → r'.adapters.get? id = some a
  /-- Pools stay, at the same place. -/
  pools : ∀ {pool record}, r.pools.get? pool = some record →
    ∃ record', r'.pools.get? pool = some record' ∧ record'.registration = record.registration
  /-- Profiles stay, with the same borrowing policy. -/
  profiles : ∀ {name policy}, r.profiles.get? name = some policy →
    ∃ policy', r'.profiles.get? name = some policy' ∧ policy'.canBorrow = policy.canBorrow

namespace Evolves

/-- Nothing is taken away from tables that stay the same. -/
theorem of_eq (hstrategies : r'.strategies = r.strategies) (hadapters : r'.adapters = r.adapters)
    (hpools : r'.pools = r.pools) (hprofiles : r'.profiles = r.profiles) : r.Evolves r' := by
  refine ⟨fun hash s h => ?_, fun h => ?_, fun {pool record} h => ?_, fun {name policy} h => ?_⟩
  · rw [hstrategies]
    exact h
  · rw [hadapters]
    exact h
  · rw [hpools]
    exact ⟨record, h, rfl⟩
  · rw [hprofiles]
    exact ⟨policy, h, rfl⟩

/-- A registry keeps what it has. -/
theorem refl (r : Registry) : r.Evolves r := of_eq rfl rfl rfl rfl

/-- What is kept twice is kept. -/
theorem trans {r'' : Registry} (h : r.Evolves r') (h' : r'.Evolves r'') : r.Evolves r'' := by
  refine ⟨fun hash s hs => ?_, fun ha => ?_, fun hpool => ?_, fun hprofile => ?_⟩
  · exact h'.strategies hash s (h.strategies hash s hs)
  · exact h'.adapters (h.adapters ha)
  · obtain ⟨mid, hmid, hfirst⟩ := h.pools hpool
    obtain ⟨last, hlast, hsecond⟩ := h'.pools hmid
    exact ⟨last, hlast, hsecond.trans hfirst⟩
  · obtain ⟨mid, hmid, hfirst⟩ := h.profiles hprofile
    obtain ⟨last, hlast, hsecond⟩ := h'.profiles hmid
    exact ⟨last, hlast, hsecond.trans hfirst⟩

end Evolves

/-- A registration takes nothing away. -/
theorem evolves_register (r : Registry) (s : Strategy) : r.Evolves (r.register s) := by
  have hext := extends_register r s
  unfold register at hext ⊢
  split
  · exact .refl r
  · rename_i hnew
    rw [if_neg hnew] at hext
    exact { Evolves.refl r with strategies := hext }

/-- Neither does a number of registrations. -/
theorem evolves_foldl_register (r : Registry) (xs : List Strategy) :
    r.Evolves (xs.foldl register r) := by
  induction xs generalizing r with
  | nil => exact .refl r
  | cons x rest ih => exact (evolves_register r x).trans (ih (r.register x))

/-- Changing the record of a known pool takes nothing away when it keeps its place. -/
theorem evolves_setRecord {pool : Address} {record new : PoolRecord}
    (hrecord : r.pools.get? pool = some record) (hplace : new.registration = record.registration) :
    r.Evolves { r with pools := r.pools.insert pool new } := by
  refine { Evolves.refl r with pools := fun {p found} hfound => ?_ }
  by_cases hp : p = pool
  · subst hp
    rw [hrecord, Option.some.injEq] at hfound
    subst hfound
    exact ⟨new, Table.get?_insert_self _ _ _, hplace⟩
  · exact ⟨found, (Table.get?_insert_of_ne _ _ hp).trans hfound, rfl⟩

/-- **No command takes anything away.** -/
theorem evolves_execute (h : r.execute c = .ok r') : r.Evolves r' := by
  cases c with
  | grantRole role account =>
    cases h
    exact .of_eq rfl rfl rfl rfl
  | revokeRole role account =>
    cases h
    exact .of_eq rfl rfl rfl rfl
  | registerAdapter a =>
    obtain ⟨hnew, h⟩ := ite_error_eq_ok'.1 h
    cases h
    refine { Evolves.refl r with adapters := fun {id b} hb => ?_ }
    -- The identifier is new, so no adapter is replaced.
    have hne : id ≠ a.id := by
      rintro rfl
      exact hnew (Table.contains_iff.2 ⟨b, hb⟩)
    exact (Table.get?_insert_of_ne _ _ hne).trans hb
  | addPool pool =>
    cases h
    unfold addPool
    by_cases hknown : r.pools.contains pool = true
    · rw [if_pos hknown]
      exact .refl r
    · rw [if_neg hknown]
      refine { Evolves.refl r with pools := fun {p record} hp => ⟨record, ?_, rfl⟩ }
      have hne : p ≠ pool := by
        rintro rfl
        exact hknown (Table.contains_iff.2 ⟨record, hp⟩)
      exact (Table.get?_insert_of_ne _ _ hne).trans hp
  | ratePool pool rating =>
    obtain ⟨record, hrecord, -, rfl⟩ := ratePool_eq_ok h
    exact evolves_setRecord hrecord rfl
  | approvePool pool approved =>
    obtain ⟨record, hrecord, rfl⟩ := updatePool_eq_ok h
    exact evolves_setRecord hrecord rfl
  | bindPool pool protocol stake =>
    obtain ⟨a, -, -, -, rfl⟩ := bindPool_eq_ok h
    exact .of_eq rfl rfl rfl rfl
  | setCapMode | setProtocolCap | setPoolCap | setCapAmount =>
    rw [execute] at h
    obtain ⟨caps, -, -, rfl⟩ := updateCaps_eq_ok h
    exact .of_eq rfl rfl rfl rfl
  | createProfile name canBorrow low high =>
    obtain ⟨range, hnew, -, rfl⟩ := createProfile_eq_ok h
    refine { Evolves.refl r with profiles := fun {other policy} hpolicy => ⟨policy, ?_, rfl⟩ }
    have hne : other ≠ name := by
      rintro rfl
      rw [hnew] at hpolicy
      cases hpolicy
    exact (Table.get?_insert_of_ne _ _ hne).trans hpolicy
  | setProfileRange name low high =>
    obtain ⟨before, range, hbefore, -, rfl⟩ := setProfileRange_eq_ok h
    refine { Evolves.refl r with profiles := fun {other policy} hpolicy => ?_ }
    by_cases hname : other = name
    · subst hname
      rw [hbefore, Option.some.injEq] at hpolicy
      subst hpolicy
      exact ⟨_, Table.get?_insert_self _ _ _, rfl⟩
    · exact ⟨policy, (Table.get?_insert_of_ne _ _ hname).trans hpolicy, rfl⟩
  | addStrategy s =>
    cases h
    exact evolves_register r s
  | setOverride profile asset strategy =>
    cases strategy with
    | none =>
      cases clearOverride_eq_ok h
      exact .of_eq rfl rfl rfl rfl
    | some hash =>
      obtain ⟨policy, s, -, -, -, -, rfl⟩ := setOverride_eq_ok h
      exact .of_eq rfl rfl rfl rfl
  | changeDefault change profile asset =>
    obtain ⟨state, next, -, -, rfl⟩ := changeDefault_eq_ok h
    exact .of_eq rfl rfl rfl rfl

/-- Recording a default takes nothing away. -/
theorem evolves_cacheDefault (r : Registry) (profile : String) (tokens hash : Digest) :
    r.Evolves (r.cacheDefault profile tokens hash) := .of_eq rfl rfl rfl rfl

/-- **No request takes anything away.** -/
theorem evolves_after (r : Registry) (q : Request) : r.Evolves (r.after q) := by
  rcases after_cases r q with h | ⟨c, h⟩ | ⟨s, h⟩ | ⟨profile, tokens, hash, -, h⟩ |
    ⟨profile, policy, tokens, s, -, h⟩ | ⟨saved, h⟩
  · rw [h]
    exact .refl r
  · exact evolves_execute h
  · rw [h]
    exact evolves_register r s
  · rw [h]
    exact evolves_cacheDefault r profile tokens hash
  · rw [h]
    exact (evolves_register r s).trans (evolves_cacheDefault _ profile tokens s.hash)
  · rw [h]
    exact (evolves_foldl_register r saved.strategies).trans (.of_eq rfl rfl rfl rfl)

/-- **No run takes anything away**, by induction on the requests. -/
theorem evolves_run (r : Registry) (qs : List Request) : r.Evolves (r.run qs) := by
  induction qs generalizing r with
  | nil => exact .refl r
  | cons q rest ih => exact (evolves_after r q).trans (ih (r.after q))

end Registry

/-! ## Bounded caps -/

/-- Every deposit share is at most the whole. -/
structure DepositCaps.Bounded (c : DepositCaps) : Prop where
  /-- The share of the protocol. -/
  protocol : c.protocolBps ≤ 10000
  /-- The shares of single pools. -/
  pools : ∀ {pool bps}, c.poolBps.get? pool = some bps → bps ≤ 10000

namespace DepositCaps

variable {c c' : DepositCaps} {pool : Address} {bps n : Nat}

/-- A share that passes the check is at most the whole. -/
theorem le_of_checkBps (h : checkBps bps = .ok n) : n ≤ 10000 := by
  unfold checkBps at h
  obtain ⟨hsmall, h⟩ := ite_error_eq_ok'.1 h
  cases h
  exact Nat.le_of_not_lt hsmall

/-- Without caps nothing is set. -/
theorem bounded_default : (default : DepositCaps).Bounded := by
  refine ⟨Nat.zero_le _, fun h => ?_⟩
  cases h

/-- Setting the share of the protocol keeps the shares bounded. -/
theorem Bounded.setProtocolBps (hc : c.Bounded) (h : c.setProtocolBps bps = .ok c') :
    c'.Bounded := by
  obtain ⟨n, hn, h⟩ := bind_eq_ok.1 h
  cases h
  exact ⟨le_of_checkBps hn, hc.pools⟩

/-- Setting the share of a pool keeps the shares bounded. -/
theorem Bounded.setPoolBps (hc : c.Bounded) (h : c.setPoolBps pool bps = .ok c') :
    c'.Bounded := by
  obtain ⟨n, hn, h⟩ := bind_eq_ok.1 h
  cases h
  refine ⟨hc.protocol, fun {p share} hshare => ?_⟩
  rcases Table.get?_insert_cases hshare with ⟨-, rfl⟩ | ⟨-, hshare⟩
  · exact le_of_checkBps hn
  · exact hc.pools hshare

end DepositCaps

namespace Registry

/-! ## References -/

/-- A binding of a pool leads somewhere: the pool is known, and the adapter is registered and
configured for the pool, which it can stake where receipts are staked. -/
structure Binds (pools : Table Address PoolRecord) (adapters : Table String Adapter)
    (pool : Address) (b : Binding) : Prop where
  /-- The pool is known. -/
  known : pools.contains pool = true
  /-- The adapter is registered and fits. -/
  served : ∃ a, adapters.get? b.protocol = some a ∧ (a.base.acceptedAssets pool).Succeeds ∧
    (b.stake = true → ∃ p, a.stakeable = .ok p ∧ p.canStake pool = true)

/-- A selection of a profile leads somewhere: the profile exists, and the strategy is registered. -/
structure Selects (profiles : Table String RiskProfile) (strategies : Table Digest Strategy)
    (profile : String) (hash : Digest) : Prop where
  /-- The profile exists. -/
  profile : profiles.contains profile = true
  /-- The strategy is registered. -/
  strategy : strategies.contains hash = true

variable {r r' : Registry} {pool : Address} {b : Binding} {profile protocol name : String}
  {tokens hash : Digest} {c : Command} {s : Strategy} {q : Request}

/-- A profile stays. -/
theorem Evolves.contains_profile (h : r.Evolves r') (hp : r.profiles.contains name = true) :
    r'.profiles.contains name = true := by
  obtain ⟨policy, hpolicy⟩ := Table.contains_iff.1 hp
  obtain ⟨policy', hpolicy', -⟩ := h.profiles hpolicy
  exact Table.contains_iff.2 ⟨policy', hpolicy'⟩

/-- A registered strategy stays registered. -/
theorem Evolves.contains_strategy (h : r.Evolves r') (hs : r.strategies.contains hash = true) :
    r'.strategies.contains hash = true := by
  obtain ⟨s, hfound⟩ := Table.contains_iff.1 hs
  exact Table.contains_iff.2 ⟨s, h.strategies hash s hfound⟩

/-- A registered adapter stays registered. -/
theorem Evolves.contains_adapter (h : r.Evolves r') (ha : r.adapters.contains protocol = true) :
    r'.adapters.contains protocol = true := by
  obtain ⟨a, hfound⟩ := Table.contains_iff.1 ha
  exact Table.contains_iff.2 ⟨a, h.adapters hfound⟩

/-- What a binding refers to stays. -/
theorem Binds.mono (hb : Binds r.pools r.adapters pool b) (h : r.Evolves r') :
    Binds r'.pools r'.adapters pool b := by
  obtain ⟨record, hrecord⟩ := Table.contains_iff.1 hb.known
  obtain ⟨record', hrecord', -⟩ := h.pools hrecord
  obtain ⟨a, ha, hserves⟩ := hb.served
  exact ⟨Table.contains_iff.2 ⟨record', hrecord'⟩, a, h.adapters ha, hserves⟩

/-- What a selection refers to stays. -/
theorem Selects.mono (hs : Selects r.profiles r.strategies profile hash) (h : r.Evolves r') :
    Selects r'.profiles r'.strategies profile hash :=
  ⟨h.contains_profile hs.profile, h.contains_strategy hs.strategy⟩

/-! ## Consistent registries -/

/-- **The tables of a registry fit together.** -/
structure Consistent (r : Registry) : Prop where
  /-- Strategies are kept under the digest of their content, which is complete. -/
  strategies : ∀ {hash s}, r.strategies.get? hash = some s →
    hash = strategyDigest s.underlying s.steps ∧ s.steps ≠ [] ∧ s.underlying ≠ .zero
  /-- Pools are kept under their address, are rated within bounds, and have a place in the order of
  registration that has been given away. -/
  pools : ∀ {pool record}, r.pools.get? pool = some record →
    record.pool = pool ∧ (∀ n ∈ record.rating, n ≤ maxPoolRating) ∧
      record.registration < r.nextRegistration
  /-- No place in the order of registration is given away twice. -/
  apart : ∀ {p q a b}, r.pools.get? p = some a → r.pools.get? q = some b →
    a.registration = b.registration → p = q
  /-- Bindings lead to known pools and to adapters that serve them. -/
  bindings : ∀ {pool b}, r.bindings.get? pool = some b →
    Binds r.pools r.adapters pool b
  /-- Caps belong to registered adapters, and their shares are bounded. -/
  caps : ∀ {protocol caps}, r.caps.get? protocol = some caps →
    r.adapters.contains protocol = true ∧ caps.Bounded
  /-- Profiles are kept under their name, with a valid range. -/
  profiles : ∀ {name policy}, r.profiles.get? name = some policy →
    policy.name = name ∧ policy.range.Valid
  /-- Overrides lead to existing profiles and registered strategies. -/
  overrides : ∀ {profile tokens hash}, r.overrides.get? (profile, tokens) = some hash →
    Selects r.profiles r.strategies profile hash

/-- An empty registry is consistent. -/
theorem consistent_new (admin : Address) : (new admin).Consistent := by
  refine ⟨fun h => ?_, fun h => ?_, fun h => ?_, fun h => ?_, fun h => ?_, fun h => ?_,
    fun h => ?_⟩
  all_goals cases h

namespace Consistent

/-- The caps of a protocol are bounded, set or not. -/
theorem bounded (hr : r.Consistent) (protocol : String) :
    ((r.caps.get? protocol).getD default).Bounded := by
  cases h : r.caps.get? protocol with
  | none => exact DepositCaps.bounded_default
  | some caps => exact (hr.caps h).2

/-- Registering a strategy keeps a registry consistent. -/
theorem register (hr : r.Consistent) (s : Strategy) : (r.register s).Consistent := by
  have hev := evolves_register r s
  have hstrategies : ∀ {hash t}, (r.register s).strategies.get? hash = some t →
      hash = strategyDigest t.underlying t.steps ∧ t.steps ≠ [] ∧ t.underlying ≠ .zero := by
    intro hash t ht
    rcases get?_register ht with ht | ⟨rfl, rfl⟩
    · exact hr.strategies ht
    · exact ⟨t.hash_eq, t.steps_ne_nil, t.underlying_ne_zero⟩
  unfold Registry.register at hev hstrategies ⊢
  split
  · exact hr
  · rename_i hnew
    rw [if_neg hnew] at hev hstrategies
    exact { hr with
      strategies := hstrategies
      overrides := fun h => (hr.overrides h).mono hev }

/-- Registering many strategies keeps a registry consistent. -/
theorem foldl_register (hr : r.Consistent) (xs : List Strategy) :
    (xs.foldl Registry.register r).Consistent := by
  induction xs generalizing r with
  | nil => exact hr
  | cons x rest ih => exact ih (hr.register x)

/-- A new adapter keeps a registry consistent. -/
theorem registerAdapter {a : Adapter} (hr : r.Consistent)
    (hnew : ¬r.adapters.contains a.id = true) :
    { r with adapters := r.adapters.insert a.id a }.Consistent := by
  have hev : r.Evolves { r with adapters := r.adapters.insert a.id a } := by
    apply evolves_execute (c := .registerAdapter a)
    rw [execute, if_neg hnew]
  exact { hr with
    bindings := fun h => (hr.bindings h).mono hev
    caps := fun h => ⟨hev.contains_adapter (hr.caps h).1, (hr.caps h).2⟩ }

/-- A new pool gets the next place in the order of registration. -/
theorem addPool (hr : r.Consistent) (pool : Address) : (r.addPool pool).Consistent := by
  have hev : r.Evolves (r.addPool pool) := evolves_execute (c := .addPool pool) rfl
  unfold Registry.addPool at hev ⊢
  by_cases hknown : r.pools.contains pool = true
  · rw [if_pos hknown]
    exact hr
  rw [if_neg hknown] at hev ⊢
  refine { hr with
    pools := fun {p record} h => ?_
    apart := fun {p q x y} hp hq hsame => ?_
    bindings := fun h => (hr.bindings h).mono hev }
  · rcases Table.get?_insert_cases h with ⟨rfl, rfl⟩ | ⟨-, h⟩
    · refine ⟨rfl, fun n hn => ?_, Nat.lt_succ_self _⟩
      cases hn
    · obtain ⟨hkey, hrating, hplace⟩ := hr.pools h
      exact ⟨hkey, hrating, Nat.lt_succ_of_lt hplace⟩
  -- The next place is above all the others, so only one pool can have it.
  · rcases Table.get?_insert_cases hp with ⟨hpool, hx⟩ | ⟨-, hx⟩
    · rcases Table.get?_insert_cases hq with ⟨hpool', -⟩ | ⟨-, hy⟩
      · exact hpool.trans hpool'.symm
      · have hplace := (hr.pools hy).2.2
        rw [← hsame, hx] at hplace
        exact absurd hplace (Nat.lt_irrefl _)
    · rcases Table.get?_insert_cases hq with ⟨-, hy⟩ | ⟨-, hy⟩
      · have hplace := (hr.pools hx).2.2
        rw [hsame, hy] at hplace
        exact absurd hplace (Nat.lt_irrefl _)
      · exact hr.apart hx hy hsame

/-- Changing the rating and the approval of a pool keeps a registry consistent. -/
theorem setRecord {record new : PoolRecord} (hr : r.Consistent)
    (hrecord : r.pools.get? pool = some record) (hpool : new.pool = record.pool)
    (hplace : new.registration = record.registration)
    (hrating : ∀ n ∈ new.rating, n ≤ maxPoolRating) :
    { r with pools := r.pools.insert pool new }.Consistent := by
  have hev := evolves_setRecord hrecord hplace
  -- Every record comes from one with the same place at the same pool.
  have hbefore : ∀ {p found}, (r.pools.insert pool new).get? p = some found →
      ∃ old, r.pools.get? p = some old ∧ old.registration = found.registration := by
    intro p found h
    rcases Table.get?_insert_cases h with ⟨rfl, rfl⟩ | ⟨-, h⟩
    · exact ⟨record, hrecord, hplace.symm⟩
    · exact ⟨found, h, rfl⟩
  refine { hr with
    pools := fun {p found} h => ?_
    apart := fun {p q x y} hp hq hsame => ?_
    bindings := fun h => (hr.bindings h).mono hev }
  · rcases Table.get?_insert_cases h with ⟨rfl, rfl⟩ | ⟨-, h⟩
    · obtain ⟨hkey, -, hgiven⟩ := hr.pools hrecord
      exact ⟨hpool.trans hkey, hrating, hplace ▸ hgiven⟩
    · exact hr.pools h
  · obtain ⟨x', hx, hxplace⟩ := hbefore hp
    obtain ⟨y', hy, hyplace⟩ := hbefore hq
    exact hr.apart hx hy (hxplace.trans (hsame.trans hyplace.symm))

/-- Binding a known pool to an adapter that serves it keeps a registry consistent. -/
theorem bindPool (hr : r.Consistent) (hb : Binds r.pools r.adapters pool b) :
    { r with bindings := r.bindings.insert pool b }.Consistent := by
  refine { hr with bindings := fun {p found} h => ?_ }
  rcases Table.get?_insert_cases h with ⟨rfl, rfl⟩ | ⟨-, h⟩
  · exact hb
  · exact hr.bindings h

/-- Bounded caps of a registered adapter keep a registry consistent. -/
theorem setCaps {caps : DepositCaps} (hr : r.Consistent)
    (hadapter : r.adapters.contains protocol = true) (hcaps : caps.Bounded) :
    { r with caps := r.caps.insert protocol caps }.Consistent := by
  refine { hr with caps := fun {p found} h => ?_ }
  rcases Table.get?_insert_cases h with ⟨rfl, rfl⟩ | ⟨-, h⟩
  · exact ⟨hadapter, hcaps⟩
  · exact hr.caps h

/-- A profile with a valid range keeps a registry consistent, when no profile is taken away. -/
theorem setProfile {policy : RiskProfile} (hr : r.Consistent) (hname : policy.name = name)
    (hrange : policy.range.Valid)
    (hev : r.Evolves { r with profiles := r.profiles.insert name policy }) :
    { r with profiles := r.profiles.insert name policy }.Consistent := by
  refine { hr with
    profiles := fun {other found} h => ?_
    overrides := fun h => (hr.overrides h).mono hev }
  rcases Table.get?_insert_cases h with ⟨rfl, rfl⟩ | ⟨-, h⟩
  · exact ⟨hname, hrange⟩
  · exact hr.profiles h

/-- A choice that leads somewhere keeps a registry consistent. -/
theorem setOverride (hr : r.Consistent) (hs : Selects r.profiles r.strategies profile hash)
    (tokens : Digest) :
    { r with overrides := r.overrides.insert (profile, tokens) hash }.Consistent := by
  refine { hr with overrides := fun {other key found} h => ?_ }
  rcases Table.get?_insert_cases h with ⟨hkey, rfl⟩ | ⟨-, h⟩
  · cases hkey
    exact hs
  · exact hr.overrides h

/-- Clearing a choice keeps a registry consistent. -/
theorem clearOverride (hr : r.Consistent) (key : String × Digest) :
    { r with overrides := r.overrides.erase key }.Consistent := by
  refine { hr with overrides := fun {other tokens found} h => ?_ }
  rw [Table.get?_erase] at h
  by_cases hkey : (other, tokens) = key
  · rw [if_pos hkey] at h
    cases h
  · rw [if_neg hkey] at h
    exact hr.overrides h

/-- **Every command keeps a registry consistent.** -/
theorem execute (hr : r.Consistent) (h : r.execute c = .ok r') : r'.Consistent := by
  have hev := evolves_execute h
  cases c with
  | grantRole role account =>
    cases h
    exact { hr with }
  | revokeRole role account =>
    cases h
    exact { hr with }
  | registerAdapter a =>
    obtain ⟨hnew, h⟩ := ite_error_eq_ok'.1 h
    cases h
    exact hr.registerAdapter hnew
  | addPool pool =>
    cases h
    exact hr.addPool pool
  | ratePool pool rating =>
    obtain ⟨record, hrecord, hrating, rfl⟩ := ratePool_eq_ok h
    exact hr.setRecord hrecord rfl rfl hrating
  | approvePool pool approved =>
    obtain ⟨record, hrecord, rfl⟩ := updatePool_eq_ok h
    exact hr.setRecord hrecord rfl rfl (hr.pools hrecord).2.1
  | bindPool pool protocol stake =>
    obtain ⟨a, hknown, ha, hserves, rfl⟩ := bindPool_eq_ok h
    refine hr.bindPool ⟨hknown, a, ha, hserves.configured, fun hstake => ?_⟩
    obtain ⟨p, hp, hgauge⟩ := hserves.gauged hstake
    exact ⟨p, hp, CurveProtocol.succeeds_gauge_iff.1 hgauge⟩
  | setCapMode protocol mode =>
    rw [Registry.execute] at h
    obtain ⟨caps, hadapter, hcaps, rfl⟩ := updateCaps_eq_ok h
    cases hcaps
    exact hr.setCaps hadapter { hr.bounded protocol with }
  | setProtocolCap protocol bps =>
    rw [Registry.execute] at h
    obtain ⟨caps, hadapter, hcaps, rfl⟩ := updateCaps_eq_ok h
    exact hr.setCaps hadapter ((hr.bounded protocol).setProtocolBps hcaps)
  | setPoolCap protocol pool bps =>
    rw [Registry.execute] at h
    obtain ⟨caps, hadapter, hcaps, rfl⟩ := updateCaps_eq_ok h
    exact hr.setCaps hadapter ((hr.bounded protocol).setPoolBps hcaps)
  | setCapAmount protocol pool asset amount =>
    rw [Registry.execute] at h
    obtain ⟨caps, hadapter, hcaps, rfl⟩ := updateCaps_eq_ok h
    cases hcaps
    exact hr.setCaps hadapter { hr.bounded protocol with }
  | createProfile name canBorrow low high =>
    obtain ⟨range, -, hrange, rfl⟩ := createProfile_eq_ok h
    exact hr.setProfile rfl hrange hev
  | setProfileRange name low high =>
    obtain ⟨policy, range, hpolicy, hrange, rfl⟩ := setProfileRange_eq_ok h
    exact hr.setProfile (hr.profiles hpolicy).1 hrange hev
  | addStrategy s =>
    cases h
    exact hr.register s
  | setOverride profile asset strategy =>
    cases strategy with
    | none =>
      cases clearOverride_eq_ok h
      exact hr.clearOverride _
    | some hash =>
      obtain ⟨policy, s, hpolicy, hs, -, -, rfl⟩ := setOverride_eq_ok h
      exact hr.setOverride
        ⟨Table.contains_iff.2 ⟨policy, hpolicy⟩, Table.contains_iff.2 ⟨s, hs⟩⟩ _
  | changeDefault change profile asset =>
    obtain ⟨state, next, -, -, rfl⟩ := changeDefault_eq_ok h
    exact { hr with }

/-- **Every restoration keeps a registry consistent**, whatever was saved: overrides that lead
nowhere are dropped. -/
theorem restore (hr : r.Consistent) (saved : SavedRegistry) : (r.restore saved).Consistent := by
  have hall := hr.foldl_register saved.strategies
  refine { hall with overrides := fun {profile tokens hash} h => ?_ }
  rcases Table.get?_foldl_insert h with hsaved | h
  · have hknown := (List.mem_filter.1 hsaved).2
    rw [knowsOverride, Bool.and_eq_true] at hknown
    exact ⟨hknown.1, hknown.2⟩
  · exact hall.overrides h

/-- **Every request keeps a registry consistent.** -/
theorem after (hr : r.Consistent) (q : Request) : (r.after q).Consistent := by
  rcases after_cases r q with h | ⟨c, h⟩ | ⟨s, h⟩ | ⟨profile, tokens, hash, -, h⟩ |
    ⟨profile, policy, tokens, s, -, h⟩ | ⟨saved, h⟩
  · rw [h]
    exact hr
  · exact hr.execute h
  · rw [h]
    exact hr.register s
  · rw [h]
    exact { hr with }
  · rw [h]
    exact { hr.register s with }
  · rw [h]
    exact hr.restore saved

/-- **Every run keeps a registry consistent**, by induction on the requests. -/
theorem run (hr : r.Consistent) (qs : List Request) : (r.run qs).Consistent := by
  induction qs generalizing r with
  | nil => exact hr
  | cons q rest ih => exact ih (hr.after q)

end Consistent

/-! ## Listing the pools -/

/-- **The pools of a consistent registry are listed once each, by their place in the order of
registration.** -/
theorem Consistent.poolRecords (hr : r.Consistent) :
    (∀ record, record ∈ r.poolRecords ↔ r.pools.get? record.pool = some record) ∧
      r.poolRecords.Pairwise fun a b => a.registration < b.registration := by
  have hperm : r.poolRecords.Perm r.pools.values := List.mergeSort_perm _ _
  constructor
  · intro record
    rw [hperm.mem_iff]
    exact Table.mem_values_iff fun h => (hr.pools h).1
  -- The listing is sorted, and since no place is taken twice it is sorted strictly.
  · have hsorted : r.poolRecords.Pairwise fun a b => a.registration ≤ b.registration := by
      have hmerge : r.poolRecords.Pairwise fun a b => decide (a.registration ≤ b.registration) :=
        List.pairwise_mergeSort
          (fun a b c hab hbc => by simp only [decide_eq_true_eq] at *; omega)
          (fun a b => by simp only [Bool.or_eq_true, decide_eq_true_eq]; omega) r.pools.values
      exact hmerge.imp fun h => of_decide_eq_true h
    have hdistinct : r.poolRecords.Pairwise fun a b => a.registration ≠ b.registration := by
      refine (hperm.pairwise_iff fun h => h.symm).2 ?_
      rw [Table.values, List.pairwise_map]
      refine r.pools.increasing.imp_of_mem fun {a b} ha hb hlt hsame => ?_
      have hkey : a.1 = b.1 :=
        hr.apart (Table.mem_toList_iff.1 ha) (Table.mem_toList_iff.1 hb) hsame
      have hself : compare b.1 b.1 = .eq := Std.ReflCmp.compare_self
      rw [hkey, hself] at hlt
      cases hlt
    exact hsorted.imp₂ (fun a b hle hne => Nat.lt_of_le_of_ne hle hne) hdistinct

/-! ## Default strategies -/

/-- **Every default belongs to an existing profile, and what it has cached is registered.** -/
def DefaultsKnown (r : Registry) : Prop :=
  ∀ profile tokens state, r.defaults.get? (profile, tokens) = some state →
    r.profiles.contains profile = true ∧
      ∀ hash ∈ state.cached?, r.strategies.contains hash = true

/-- A request is proper unless it records a default of an unknown profile or of a strategy that is
not registered. -/
def Proper (r : Registry) : Request → Prop
  | .record profile _ hash => Selects r.profiles r.strategies profile hash
  | .command .. | .register _ | .select .. | .restore _ => True

/-- Every request of a run is proper when its turn comes. -/
def ProperRun (r : Registry) : List Request → Prop
  | [] => True
  | q :: rest => r.Proper q ∧ (r.after q).ProperRun rest

/-- A strategy is registered once it has been handed in. -/
theorem contains_register (r : Registry) (s : Strategy) :
    (r.register s).strategies.contains s.hash = true := by
  unfold register
  by_cases hknown : r.strategies.contains s.hash = true
  · rw [if_pos hknown]
    exact hknown
  · rw [if_neg hknown]
    exact Table.contains_iff.2 ⟨s, Table.get?_insert_self _ _ _⟩

namespace DefaultsKnown

/-- Defaults that stay the same stay known. -/
theorem of_evolves (hr : r.DefaultsKnown) (hev : r.Evolves r')
    (hsame : r'.defaults = r.defaults) : r'.DefaultsKnown := by
  intro profile tokens state h
  rw [hsame] at h
  obtain ⟨hprofile, hcached⟩ := hr _ _ _ h
  exact ⟨hev.contains_profile hprofile, fun hash hh => hev.contains_strategy (hcached hash hh)⟩

/-- A default that leads somewhere may be stored. -/
theorem insert {state : DefaultState} (hr : r.DefaultsKnown)
    (hprofile : r.profiles.contains profile = true)
    (hcached : ∀ hash ∈ state.cached?, r.strategies.contains hash = true) (tokens : Digest) :
    { r with defaults := r.defaults.insert (profile, tokens) state }.DefaultsKnown := by
  intro other key found h
  rcases Table.get?_insert_cases h with ⟨hkey, rfl⟩ | ⟨-, h⟩
  · cases hkey
    exact ⟨hprofile, hcached⟩
  · exact hr _ _ _ h

/-- A default of an existing profile and a registered strategy may be recorded. -/
theorem cacheDefault (hr : r.DefaultsKnown) (hs : Selects r.profiles r.strategies profile hash)
    (tokens : Digest) : (r.cacheDefault profile tokens hash).DefaultsKnown := by
  refine hr.insert hs.profile (fun found hfound => ?_) tokens
  -- A paused default stays as it is; otherwise the recorded strategy takes its place.
  cases hstate : r.defaultState profile tokens with
  | unset =>
    rw [hstate] at hfound
    cases hfound
    exact hs.strategy
  | ratingBased paused cached =>
    rw [hstate] at hfound
    cases paused with
    | false =>
      cases hfound
      exact hs.strategy
    | true =>
      have hstored := get?_of_defaultState hstate (by simp)
      exact (hr _ _ _ hstored).2 found hfound

/-- A registration keeps the defaults known. -/
theorem register (hr : r.DefaultsKnown) (s : Strategy) : (r.register s).DefaultsKnown :=
  hr.of_evolves (evolves_register r s) (register_rest r s).2.1

/-- So does a number of registrations. -/
theorem foldl_register (hr : r.DefaultsKnown) (xs : List Strategy) :
    (xs.foldl Registry.register r).DefaultsKnown := by
  induction xs generalizing r with
  | nil => exact hr
  | cons x rest ih => exact ih (hr.register x)

/-- Commands only pause and resume defaults that are there. -/
theorem execute (hr : r.DefaultsKnown) (h : r.execute c = .ok r') : r'.DefaultsKnown := by
  have hev := evolves_execute h
  rcases execute_cases h with ⟨-, -, hsame⟩ | ⟨s, -, rfl⟩ |
    ⟨profile, hash, policy, s, -, -, -, -, rfl⟩ | ⟨profile, asset, -, rfl⟩ |
    ⟨change, profile, asset, state, next, -, hstate, hnext, rfl⟩
  · exact hr.of_evolves hev hsame.defaults
  · exact hr.register s
  · exact hr.of_evolves hev rfl
  · exact hr.of_evolves hev rfl
  · obtain ⟨hprofile, hcached⟩ := hr _ _ _ hstate
    exact hr.insert hprofile (fun hash hh => hcached hash (hnext ▸ hh)) _

/-- Restoring drops the defaults that lead nowhere. -/
theorem restore (hr : r.DefaultsKnown) (saved : SavedRegistry) :
    (r.restore saved).DefaultsKnown := by
  have hall := hr.foldl_register saved.strategies
  intro profile tokens state h
  rcases Table.get?_foldl_insert h with hsaved | h
  · have hknown := (List.mem_filter.1 hsaved).2
    rw [knowsDefault, Bool.and_eq_true] at hknown
    refine ⟨hknown.1, fun hash hh => ?_⟩
    have hcached := hknown.2
    rw [Option.mem_def.1 hh] at hcached
    exact hcached
  · exact hall _ _ _ h

/-- **Every proper request keeps the defaults known.** -/
theorem after (hr : r.DefaultsKnown) (hq : r.Proper q) : (r.after q).DefaultsKnown := by
  rcases after_cases r q with h | ⟨c, h⟩ | ⟨s, h⟩ | ⟨profile, tokens, hash, rfl, h⟩ |
    ⟨profile, policy, tokens, s, hpolicy, h⟩ | ⟨saved, h⟩
  · rw [h]
    exact hr
  · exact hr.execute h
  · rw [h]
    exact hr.register s
  · rw [h]
    exact hr.cacheDefault hq tokens
  -- What a selection computes is registered before it is recorded.
  · rw [h]
    have hev := evolves_register r s
    have hknown : r.profiles.contains profile = true := Table.contains_iff.2 ⟨policy, hpolicy⟩
    exact (hr.register s).cacheDefault ⟨hev.contains_profile hknown, contains_register r s⟩ tokens
  · rw [h]
    exact hr.restore saved

/-- Every run of proper requests keeps the defaults known. -/
theorem run (hr : r.DefaultsKnown) {qs : List Request} (hqs : r.ProperRun qs) :
    (r.run qs).DefaultsKnown := by
  induction qs generalizing r with
  | nil => exact hr
  | cons q rest ih => exact ih (hr.after hqs.1) hqs.2

end DefaultsKnown

end Registry

/-- **Every registry that is reached from an empty one is consistent**, whatever was requested, by
whomever, however often it was refused, and whatever the refused requests have left behind. It lists
its pools once each in the order of their registration, it keeps what it had before any later
requests, and its defaults are known unless a default that was not has been recorded. -/
theorem registry_stays_consistent (admin : Address) (qs : List Request) :
    ((Registry.new admin).run qs).Consistent ∧
      ((∀ record, record ∈ ((Registry.new admin).run qs).poolRecords ↔
          ((Registry.new admin).run qs).pools.get? record.pool = some record) ∧
        ((Registry.new admin).run qs).poolRecords.Pairwise
          fun a b => a.registration < b.registration) ∧
      ((Registry.new admin).ProperRun qs → ((Registry.new admin).run qs).DefaultsKnown) ∧
      ∀ later, ((Registry.new admin).run qs).Evolves ((Registry.new admin).run (qs ++ later)) := by
  have hconsistent : ((Registry.new admin).run qs).Consistent :=
    (Registry.consistent_new admin).run qs
  have hnone : (Registry.new admin).DefaultsKnown := fun _ _ _ h => nomatch h
  refine ⟨hconsistent, hconsistent.poolRecords, fun hproper => hnone.run hproper, fun later => ?_⟩
  rw [Registry.run_append]
  exact Registry.evolves_run _ later

namespace Founding

/-- The account that holds every role. -/
def admin : Address := .ofNat 11

/-- A profile and a pool are set up, and the pool is rated and bound to its vault. A rating by a
stranger is refused. -/
def preparation : List Request :=
  [.command admin (.registerAdapter (.whole (.vault ⟨"vault", .ofList [(.ofNat 5, .ofNat 2)]⟩))),
    .command admin (.addPool (.ofNat 5)),
    .command (.ofNat 99) (.ratePool (.ofNat 5) (some 7)),
    .command admin (.bindPool (.ofNat 5) "vault" false),
    .command admin (.createProfile "growth" false 0 100)]

/-- The asset of the vault is not the zero address. -/
theorem asset_ne_zero : Address.ofNat 2 ≠ .zero := by decide

/-- A deposit into the vault. -/
def strategy : Strategy where
  underlying := .ofNat 2
  steps := [⟨.ofNat 5, .ofNat 5, false⟩]
  hash := strategyDigest (.ofNat 2) [⟨.ofNat 5, .ofNat 5, false⟩]
  steps_ne_nil := by simp
  underlying_ne_zero := asset_ne_zero
  hash_eq := rfl

/-- A share of more than the whole. -/
def excess : Request := .command admin (.setProtocolCap "vault" 10001)

/-- The share is refused. The deposit is registered and recorded as the default of the profile. -/
def recording : List Request :=
  [excess, .register strategy, .record "growth" (tokenHash [.ofNat 2]) strategy.hash]

/-- A registry with a default that was recorded for its profile is consistent, and so is everything
that it refers to, although a refused share has left an entry of deposit caps behind. -/
theorem founding_stays_consistent :
    (Registry.new admin).ProperRun (preparation ++ recording) ∧
      ((Registry.new admin).run (preparation ++ recording)).DefaultsKnown ∧
      ((Registry.new admin).run (preparation ++ recording)).Consistent ∧
      ((Registry.new admin).run preparation).caps.contains "vault" = false ∧
      ((Registry.new admin).run (preparation ++ [excess])).caps.contains "vault" = true := by
  let prepared := (Registry.new admin).run (preparation ++ [excess])
  have hprofile : (prepared.register strategy).profiles.contains "growth" = true := by
    rw [(Registry.register_rest prepared strategy).2.2]
    rfl
  have hrecorded : prepared.ProperRun recording.tail :=
    ⟨trivial, ⟨hprofile, Registry.contains_register prepared strategy⟩, trivial⟩
  have hproper : (Registry.new admin).ProperRun (preparation ++ recording) :=
    ⟨trivial, trivial, trivial, trivial, trivial, trivial, hrecorded⟩
  obtain ⟨hconsistent, -, hdefaults, -⟩ :=
    registry_stays_consistent admin (preparation ++ recording)
  exact ⟨hproper, hdefaults hproper, hconsistent, rfl, rfl⟩

/-- A default may be recorded for a profile that does not exist. -/
theorem recorded_default_unknown :
    ¬((Registry.new admin).run
      [.record "growth" (tokenHash [.ofNat 2]) (.ofNat 3)]).DefaultsKnown := by
  intro hknown
  have hstored : ((Registry.new admin).run
      [.record "growth" (tokenHash [.ofNat 2]) (.ofNat 3)]).defaults.get?
        ("growth", tokenHash [.ofNat 2]) = some (.ratingBased false (.ofNat 3)) :=
    Table.get?_insert_self _ _ _
  obtain ⟨hprofile, -⟩ := hknown _ _ _ hstored
  cases hprofile

end Founding

end VaultKeeper
