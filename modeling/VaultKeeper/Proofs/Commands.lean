import VaultKeeper.Proofs.Outcome
import VaultKeeper.Registry.Command

/-! # Commands, one by one

What a registry looks like after a command that was not refused, and what the command has found in
the registry before it. Whatever is kept by commands is derived from these facts. -/

namespace VaultKeeper

/-- An adapter that a pool may be bound to. -/
structure Adapter.Serves (a : Adapter) (pool : Address) (stake : Bool) : Prop where
  /-- The adapter is configured for the pool. -/
  configured : (a.base.acceptedAssets pool).Succeeds
  /-- Receipts that are to be staked have a gauge. -/
  gauged : stake = true → ∃ p, a.stakeable = .ok p ∧ (p.gauge pool).Succeeds

/-- A pool can stake exactly when it has a gauge. -/
theorem CurveProtocol.succeeds_gauge_iff {p : CurveProtocol} {pool : Address} :
    (p.gauge pool).Succeeds ↔ p.canStake pool = true := by
  unfold canStake gauge CurveProtocol.pool
  cases hpool : p.pools.get? pool with
  | none => simp [← Except.fault?_eq_none_iff]
  | some c =>
    cases hgauge : c.gauge with
    | none => simp [hgauge, ← Except.fault?_eq_none_iff]
    | some g => simp [hgauge]

/-- A range of ratings that is neither empty nor above the highest rating. -/
structure RatingRange.Valid (range : RatingRange) : Prop where
  /-- The range is not empty. -/
  ordered : range.low ≤ range.high
  /-- The range ends at the highest rating or below. -/
  bounded : range.high ≤ maxPoolRating

/-- A range that was made is valid. -/
theorem RatingRange.Valid.of_make {low high : Nat} {range : RatingRange}
    (h : make low high = .ok range) : range.Valid := by
  unfold make at h
  rw [ite_error_eq_ok'] at h
  obtain ⟨hgood, h⟩ := h
  cases h
  have hordered : low ≤ high := by omega
  have hbounded : high ≤ maxPoolRating := by omega
  exact ⟨hordered, hbounded⟩

namespace Registry

variable {r r' : Registry} {pool asset : Address} {profile protocol name : String} {hash : Digest}

/-- A risk profile that is found. -/
theorem profile_eq_ok {policy : RiskProfile} :
    r.profile name = .ok policy ↔ r.profiles.get? name = some policy := by
  unfold Registry.profile
  cases r.profiles.get? name <;> simp

/-- A strategy that is found. -/
theorem strategy_eq_ok {s : Strategy} :
    r.strategy hash = .ok s ↔ r.strategies.get? hash = some s := by
  unfold strategy
  cases r.strategies.get? hash <;> simp

/-- Deposit caps are changed for one protocol, whose adapter is registered. -/
theorem updateCaps_eq_ok {f : DepositCaps → Except AllocationError DepositCaps}
    (h : r.updateCaps protocol f = .ok r') :
    ∃ caps, r.adapters.contains protocol = true ∧
      f ((r.caps.get? protocol).getD default) = .ok caps ∧
      r' = { r with caps := r.caps.insert protocol caps } := by
  simp only [updateCaps, throw_eq_error, error_bind, pure_eq_ok, ite_error_eq_ok, bind_eq_ok,
    Except.ok.injEq] at h
  obtain ⟨hadapter, caps, hcaps, rfl⟩ := h
  exact ⟨caps, hadapter, hcaps, rfl⟩

/-- The record of a known pool is changed. -/
theorem updatePool_eq_ok {f : PoolRecord → PoolRecord} (h : r.updatePool pool f = .ok r') :
    ∃ record, r.pools.get? pool = some record ∧
      r' = { r with pools := r.pools.insert pool (f record) } := by
  unfold updatePool at h
  cases hpool : r.pools.get? pool with
  | none => simp [hpool] at h
  | some record =>
    simp only [hpool, Except.ok.injEq] at h
    exact ⟨record, rfl, h.symm⟩

/-- The rating of a known pool is changed to one that is not above the highest. -/
theorem ratePool_eq_ok {rating : Option Nat} (h : r.ratePool pool rating = .ok r') :
    ∃ record, r.pools.get? pool = some record ∧ (∀ n ∈ rating, n ≤ maxPoolRating) ∧
      r' = { r with pools := r.pools.insert pool { record with rating } } := by
  unfold ratePool at h
  split at h
  · cases h
  · rename_i hrating
    obtain ⟨record, hrecord, hr⟩ := updatePool_eq_ok h
    refine ⟨record, hrecord, fun n hn => ?_, hr⟩
    rw [Option.filter_eq_none_iff] at hrating
    exact Nat.le_of_not_lt fun hlt => hrating n hn (decide_eq_true hlt)

/-- A known pool is bound to an adapter that serves it. -/
theorem bindPool_eq_ok {stake : Bool} (h : r.bindPool pool protocol stake = .ok r') :
    ∃ a, r.pools.contains pool = true ∧ r.adapters.get? protocol = some a ∧ a.Serves pool stake ∧
      r' = { r with bindings := r.bindings.insert pool ⟨protocol, stake⟩ } := by
  unfold bindPool at h
  cases hadapter : r.adapters.get? protocol with
  | none => simp [hadapter] at h
  | some a =>
    cases stake with
    | true =>
      simp only [hadapter, throw_eq_error, error_bind, pure_eq_ok, if_true, ite_error_eq_ok,
        bind_eq_ok, Except.ok.injEq] at h
      obtain ⟨hknown, assets, hassets, p, hp, hstake, rfl⟩ := h
      have hgauge : (p.gauge pool).Succeeds := CurveProtocol.succeeds_gauge_iff.2 hstake
      exact ⟨a, hknown, rfl, ⟨⟨assets, hassets⟩, fun _ => ⟨p, hp, hgauge⟩⟩, rfl⟩
    | false =>
      simp only [hadapter, throw_eq_error, error_bind, pure_eq_ok, Bool.false_eq_true, if_false,
        ite_error_eq_ok, bind_eq_ok, Except.ok.injEq] at h
      obtain ⟨hknown, assets, hassets, rfl⟩ := h
      exact ⟨a, hknown, rfl, ⟨⟨assets, hassets⟩, Bool.noConfusion⟩, rfl⟩

/-- A risk profile is added under a new name, with a valid range. -/
theorem createProfile_eq_ok {canBorrow : Bool} {low high : Nat}
    (h : r.createProfile name canBorrow low high = .ok r') :
    ∃ range, r.profiles.get? name = none ∧ range.Valid ∧
      r' = { r with profiles := r.profiles.insert name ⟨name, canBorrow, range⟩ } := by
  simp only [createProfile, throw_eq_error, error_bind, pure_eq_ok, ite_error_eq_ok', bind_eq_ok,
    Except.ok.injEq] at h
  obtain ⟨hnew, range, hrange, rfl⟩ := h
  exact ⟨range, by simpa [Table.contains] using hnew, .of_make hrange, rfl⟩

/-- A risk profile keeps everything but its range, and the new range is valid. -/
theorem setProfileRange_eq_ok {low high : Nat} (h : r.setProfileRange name low high = .ok r') :
    ∃ policy range, r.profiles.get? name = some policy ∧ range.Valid ∧
      r' = { r with profiles := r.profiles.insert name { policy with range } } := by
  simp only [setProfileRange, pure_eq_ok, bind_eq_ok, Except.ok.injEq] at h
  obtain ⟨range, hrange, policy, hpolicy, rfl⟩ := h
  exact ⟨policy, range, profile_eq_ok.1 hpolicy, .of_make hrange, rfl⟩

/-- A registered strategy of the asset is chosen, and it does not borrow unless the profile may. -/
theorem setOverride_eq_ok (h : r.setOverride profile asset hash = .ok r') :
    ∃ policy s, r.profiles.get? profile = some policy ∧ r.strategies.get? hash = some s ∧
      s.underlying = asset ∧ (s.hasBorrow = true → policy.canBorrow = true) ∧
      r' = { r with overrides := r.overrides.insert (profile, tokenHash [asset]) hash } := by
  simp only [setOverride, throw_eq_error, error_bind, pure_eq_ok, ite_error_eq_ok,
    ite_error_eq_ok', bind_eq_ok, Except.ok.injEq] at h
  obtain ⟨policy, hpolicy, s, hs, hasset, hborrow, rfl⟩ := h
  exact ⟨policy, s, profile_eq_ok.1 hpolicy, strategy_eq_ok.1 hs, hasset, by simpa using hborrow,
    rfl⟩

/-- The choice of a profile and an asset is cleared. -/
theorem clearOverride_eq_ok (h : r.clearOverride profile asset = .ok r') :
    r' = { r with overrides := r.overrides.erase (profile, tokenHash [asset]) } := by
  simp only [clearOverride, pure_eq_ok, bind_eq_ok, Except.ok.injEq] at h
  obtain ⟨_, -, rfl⟩ := h
  rfl

/-- A stored default is paused or resumed and keeps its strategy. -/
theorem changeDefault_eq_ok {change : DefaultChange}
    (h : r.changeDefault change profile asset = .ok r') :
    ∃ state next, r.defaults.get? (profile, tokenHash [asset]) = some state ∧
      next.cached? = state.cached? ∧
      r' = { r with defaults := r.defaults.insert (profile, tokenHash [asset]) next } := by
  simp only [changeDefault, pure_eq_ok, bind_eq_ok, Except.ok.injEq] at h
  obtain ⟨_, -, next, hnext, rfl⟩ := h
  unfold defaultState at hnext
  cases hstate : r.defaults.get? (profile, tokenHash [asset]) with
  | none =>
    rw [hstate] at hnext
    cases hnext
  | some state =>
    rw [hstate, Option.getD_some] at hnext
    refine ⟨state, next, rfl, ?_, rfl⟩
    cases state with
    | unset => cases hnext
    | ratingBased paused cached =>
      cases hnext
      rfl

end Registry

end VaultKeeper
