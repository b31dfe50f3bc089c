import VaultKeeper.Proofs.Moves
import VaultKeeper.Proofs.Reachable

/-! # Borrowing policies

A profile says whether its strategies may borrow. An override is checked against this when it is
set, and the policy of a profile never changes afterwards, so selections respect it within a run. A
restart may bring another policy under the same name. Restoring checks that the profile and the
strategy of an override are known, but not that the profile may run the strategy: the policy is
respected after a restart exactly when the restored overrides happen to be ones that the profiles
may run now. -/

namespace VaultKeeper

namespace Registry

/-- Every stored override of a borrowing strategy belongs to a profile that may borrow. -/
def OverridesAllowed (r : Registry) : Prop :=
  ∀ profile tokens hash s, r.overrides.get? (profile, tokens) = some hash →
    r.strategies.get? hash = some s → s.hasBorrow = true →
    ∃ policy, r.profiles.get? profile = some policy ∧ policy.canBorrow = true

/-- Whether the saved overrides that a restore keeps are ones that the profiles may run now. -/
def Admits (r : Registry) (saved : SavedRegistry) : Prop :=
  ∀ profile tokens hash policy s, ((profile, tokens), hash) ∈ saved.overrides →
    r.profiles.get? profile = some policy → (r.restore saved).strategies.get? hash = some s →
    s.hasBorrow = true → policy.canBorrow = true

/-- **Whatever is selected respects the borrowing policy**: a registered strategy over the asset,
which only borrows if the profile may. -/
def Compliant (V : Vocabulary) (r : Registry) : Prop :=
  ∀ profile asset choice r', V.assets asset → (∀ s ∈ r.computed profile asset, V.strategies s) →
    r.bestStrategy profile asset = .ok (choice, r') →
    ∃ s policy, r'.strategies.get? choice.hash = some s ∧ s.underlying = asset ∧
      r.profiles.get? profile = some policy ∧ (s.hasBorrow = true → policy.canBorrow = true)

end Registry

/-- A registry that is reached by restores whose overrides are admitted. -/
inductive Orderly (V : Vocabulary) : Registry → Prop
  /-- The registry of a configuration. -/
  | config {c : Config} {r : Registry} (h : Registry.ofConfig c = .ok r) : Orderly V r
  /-- A change of a registry. -/
  | change {r r' : Registry} (hr : Orderly V r) (h : Registry.Changes V r r') : Orderly V r'
  /-- Admitted selections of an earlier run are restored. -/
  | restore {r earlier : Registry} (hr : Orderly V r) (he : Reachable V earlier)
      (h : r.Admits earlier.saved) : Orderly V (r.restore earlier.saved)

section

variable {V : Vocabulary} {r r' earlier : Registry}

/-- An orderly run is a run. -/
theorem Orderly.reachable (h : Orderly V r) : Reachable V r := by
  induction h with
  | config h => exact .config h
  | change hr h ih => exact .change ih h
  | restore hr he h ih => exact .restore ih he

namespace Registry

/-! ## Allowed overrides within a run -/

/-- Strategies that are registered later do not matter to stored overrides. -/
theorem OverridesAllowed.extend (hr : r.OverridesAllowed) (hsound : r.Sound V)
    (hext : r.Extends r') (ho : r'.overrides = r.overrides)
    (hpolicies : ∀ {name policy}, r.profiles.get? name = some policy →
      ∃ policy', r'.profiles.get? name = some policy' ∧ policy'.canBorrow = policy.canBorrow) :
    r'.OverridesAllowed := by
  intro profile tokens hash s h hs hborrow
  rw [ho] at h
  obtain ⟨t, ht⟩ := hsound.overrides h
  have hsame : t = s := Option.some.inj ((hext _ _ ht.registered).symm.trans hs)
  obtain ⟨policy, hpolicy, hcan⟩ := hr _ _ _ _ h ht.registered (hsame ▸ hborrow)
  obtain ⟨policy', hpolicy', heq⟩ := hpolicies hpolicy
  exact ⟨policy', hpolicy', heq.trans hcan⟩

/-- Many registrations keep overrides and profiles. -/
theorem foldl_register_rest (r : Registry) (xs : List Strategy) :
    (xs.foldl register r).overrides = r.overrides ∧
      (xs.foldl register r).profiles = r.profiles := by
  induction xs generalizing r with
  | nil => exact ⟨rfl, rfl⟩
  | cons x rest ih =>
    obtain ⟨ho, hp⟩ := ih (r.register x)
    obtain ⟨ho', -, hp'⟩ := register_rest r x
    exact ⟨ho.trans ho', hp.trans hp'⟩

/-- A command keeps overrides allowed: the only one that sets an override checks the policy. -/
theorem OverridesAllowed.perform {caller : Address} {c : Command} (hr : r.OverridesAllowed)
    (hsound : r.Sound V) (h : r.perform caller c = .ok r') : r'.OverridesAllowed := by
  rw [Registry.perform, ite_error_eq_ok] at h
  rcases execute_cases h.2 with ⟨-, -, hsame⟩ | ⟨s, rfl, rfl⟩ |
    ⟨profile, hash, policy, s, rfl, hpolicy, hstrategy, hcan, rfl⟩ | ⟨profile, asset, rfl, rfl⟩ |
    ⟨change, profile, asset, state, next, rfl, -, -, rfl⟩
  · exact hr.extend hsound (fun _ _ hs => hsame.strategies ▸ hs) hsame.overrides hsame.policies
  · obtain ⟨ho, -, hp⟩ := register_rest r s
    exact hr.extend hsound (extends_register r s) ho fun {_ policy} h => ⟨policy, hp ▸ h, rfl⟩
  · intro name tokens digest t h ht hborrow
    rw [Table.get?_insert] at h
    -- The override that is set has passed the check, and every other one stays.
    by_cases hkey : (name, tokens) = (profile, tokenHash [s.underlying])
    · rw [if_pos hkey, Option.some.injEq] at h
      cases hkey
      subst h
      have hsame : t = s := Option.some.inj (ht.symm.trans hstrategy)
      exact ⟨policy, hpolicy, hcan (hsame ▸ hborrow)⟩
    · rw [if_neg hkey] at h
      exact hr _ _ _ _ h ht hborrow
  · intro name tokens digest t h ht hborrow
    rw [Table.get?_erase] at h
    by_cases hkey : (name, tokens) = (profile, tokenHash [asset])
    · rw [if_pos hkey] at h
      cases h
    · rw [if_neg hkey] at h
      exact hr _ _ _ _ h ht hborrow
  · exact hr

/-- A selection keeps overrides allowed, since it sets none. -/
theorem OverridesAllowed.select {profile : String} {asset : Address} {choice : Selection}
    (hr : r.OverridesAllowed) (hsound : r.Sound V)
    (h : r.bestStrategy profile asset = .ok (choice, r')) : r'.OverridesAllowed := by
  obtain ⟨policy, -, ⟨-, rfl⟩ | ⟨-, rfl⟩ | ⟨s, -, -, -, -, rfl⟩⟩ := bestStrategy_cases h
  · exact hr
  · exact hr
  · obtain ⟨ho, -, hp⟩ := register_rest r s
    exact hr.extend hsound (extends_register r s) ho fun {_ policy} h => ⟨policy, hp ▸ h, rfl⟩

/-- Admitted overrides are allowed after they have been restored. -/
theorem OverridesAllowed.restore (hr : r.OverridesAllowed) (hsound : r.Sound V)
    (he : earlier.Sound V) (hV : V.CollisionFree) (hadmits : r.Admits earlier.saved) :
    (r.restore earlier.saved).OverridesAllowed := by
  intro profile tokens hash s h hs hborrow
  obtain ⟨ho, hp⟩ := foldl_register_rest r earlier.saved.strategies
  rcases Table.get?_foldl_insert h with hsaved | hfound
  · obtain ⟨hmem, hknown⟩ := List.mem_filter.1 hsaved
    simp only [knowsOverride, Bool.and_eq_true] at hknown
    obtain ⟨policy, hpolicy⟩ := Option.isSome_iff_exists.1 hknown.1
    rw [hp] at hpolicy
    exact ⟨policy, (congrArg (·.get? profile) hp).trans hpolicy,
      hadmits _ _ _ _ _ hmem hpolicy hs hborrow⟩
  · -- What was there before the overrides came back is judged by the unchanged profiles.
    obtain ⟨-, hext, -⟩ := hsound.foldl_register hV he.strategies_saved
    have hmid : (earlier.saved.strategies.foldl register r).OverridesAllowed :=
      hr.extend hsound hext ho fun {_ policy} h => ⟨policy, hp ▸ h, rfl⟩
    exact hmid _ _ _ _ hfound hs hborrow

end Registry

/-- In an orderly run every stored override is allowed. -/
theorem Orderly.overridesAllowed (hV : V.CollisionFree) (h : Orderly V r) : r.OverridesAllowed := by
  induction h with
  | config h =>
    refine (Registry.ofConfig_induction (P := fun r => r.Sound V ∧ r.OverridesAllowed)
      (fun admin => ⟨Registry.sound_new V admin, ?_⟩) (fun {r r' c} hs ha hr h => ?_) h).2
    · intro profile tokens hash s h
      cases h
    · exact ⟨hr.1.perform (by simp [hs]) (by simp [ha]) h, hr.2.perform hr.1 h⟩
  | change hr h ih =>
    have hsound := hr.reachable.sound hV
    cases h with
    | perform hs ha h => exact ih.perform hsound h
    | select hs ha h => exact ih.select hsound h
  | restore hr he h ih => exact ih.restore (hr.reachable.sound hV) (he.sound hV) hV h

/-- Where stored overrides are allowed, selections respect the borrowing policy. -/
theorem Registry.Sound.compliant (hr : r.Sound V) (hV : V.CollisionFree)
    (hallowed : r.OverridesAllowed) : r.Compliant V := by
  intro profile asset choice r' ha hs h
  obtain ⟨policy, hpolicy, -⟩ := Registry.bestStrategy_cases h
  obtain ⟨-, s, hfound, hasset, hborrows⟩ := hr.selected hV hs ha h
  refine ⟨s, policy, hfound, hasset, hpolicy, fun hborrow => ?_⟩
  obtain ⟨hoverride, rfl⟩ := hborrows hborrow
  obtain ⟨policy', hpolicy', hcan⟩ := hallowed _ _ _ _ hoverride hfound hborrow
  rw [hpolicy] at hpolicy'
  cases hpolicy'
  exact hcan

/-- A stored override of a known profile is selected. -/
theorem Registry.bestStrategy_of_override {profile : String} {asset : Address}
    {policy : RiskProfile} {hash : Digest} (hpolicy : r.profiles.get? profile = some policy)
    (h : r.overrides.get? (profile, tokenHash [asset]) = some hash) :
    r.bestStrategy profile asset = .ok (⟨hash, .override⟩, r) := by
  rw [bestStrategy, profile_eq_ok.2 hpolicy, ok_bind]
  simp only [override?, h]
  rfl

/-- **A restored override is selected, whatever it is.** A saved override whose profile is known and
whose strategy is registered comes back, and nothing is computed for it. -/
theorem Registry.Sound.selects_restored (he : earlier.Sound V) (hr : r.Sound V)
    (hV : V.CollisionFree) {profile : String} {tokens hash : Digest} {policy : RiskProfile}
    (h : ((profile, tokens), hash) ∈ earlier.saved.overrides)
    (hpolicy : r.profiles.get? profile = some policy) :
    ∃ s, V.assets s.underlying ∧ (r.restore earlier.saved).strategies.get? hash = some s ∧
      (r.restore earlier.saved).profiles.get? profile = some policy ∧
      (r.restore earlier.saved).computed profile s.underlying = none ∧
      (r.restore earlier.saved).bestStrategy profile s.underlying =
        .ok (⟨hash, .override⟩, r.restore earlier.saved) := by
  obtain ⟨-, hext⟩ := hr.restore he hV
  obtain ⟨s, hs⟩ := he.overrides (Table.mem_toList_iff.1 h)
  obtain ⟨-, hp⟩ := foldl_register_rest r earlier.saved.strategies
  have hknown : (earlier.saved.strategies.foldl Registry.register r).knowsOverride
      ((profile, tokens), hash) = true := by
    have hstrategy := hext _ _ hs.registered
    rw [strategies_restore] at hstrategy
    simp only [knowsOverride, Table.contains, hp, hpolicy, hstrategy, Option.isSome_some,
      Bool.and_self]
  have hoverride : (r.restore earlier.saved).overrides.get? (profile, tokens) = some hash := by
    refine Table.get?_foldl_insert_of_mem (List.mem_filter.2 ⟨h, hknown⟩) (fun w hw => ?_) _
    have hfound := Table.mem_toList_iff.1 (List.mem_filter.1 hw).1
    rw [Table.mem_toList_iff.1 h] at hfound
    exact (Option.some.inj hfound).symm
  have hkept : (r.restore earlier.saved).profiles.get? profile = some policy :=
    (congrArg (·.get? profile) hp).trans hpolicy
  rw [hs.tokens_eq] at hoverride
  refine ⟨s, hs.asset, hext _ _ hs.registered, hkept, ?_,
    Registry.bestStrategy_of_override hkept hoverride⟩
  rw [computed, override?, hoverride]
  rfl

/-! ## A profile that may no longer borrow -/

/-- An override that the profile may run is set. -/
theorem Registry.setOverride_of_allowed {profile : String} {policy : RiskProfile} {s : Strategy}
    (hpolicy : r.profiles.get? profile = some policy) (hs : r.strategies.get? s.hash = some s)
    (hcan : policy.canBorrow = true) :
    r.setOverride profile s.underlying s.hash = .ok { r with
      overrides := r.overrides.insert (profile, tokenHash [s.underlying]) s.hash } := by
  rw [setOverride, profile_eq_ok.2 hpolicy, ok_bind, strategy_eq_ok.2 hs, ok_bind]
  simp [hcan]

end

namespace Leveraged

/-- A run that hashes the leveraged position and its collateral. -/
def vocabulary : Vocabulary := ⟨(· = strategy), (· = collateral)⟩

/-- One strategy and one asset leave nothing to collide. -/
theorem vocabulary_collisionFree : vocabulary.CollisionFree where
  strategies := by
    rintro s t rfl rfl -
    rfl
  assets := by
    rintro a b rfl rfl -
    rfl

/-- A configuration whose only profile may borrow or not. -/
def config (canBorrow : Bool) : Config where
  service := { name := "allocator" }
  snapshotPath := "chain_snapshot.json"
  governance := { admin := .ofNat 11 }
  protocols := []
  pools := []
  riskProfiles := [⟨"growth", canBorrow, 0, 100⟩]

/-- The only profile. -/
def policy (canBorrow : Bool) : RiskProfile := ⟨"growth", canBorrow, ⟨0, 100⟩⟩

/-- The registry of the configuration. -/
def started (canBorrow : Bool) : Registry :=
  { Registry.new (.ofNat 11) with profiles := .ofList [("growth", policy canBorrow)] }

/-- The configuration is accepted. -/
theorem ofConfig_config (canBorrow : Bool) :
    Registry.ofConfig (config canBorrow) = .ok (started canBorrow) := by
  cases canBorrow with
  | true => rfl
  | false => rfl

/-- The profile of a started registry. -/
theorem profiles_started (canBorrow : Bool) :
    (started canBorrow).profiles.get? "growth" = some (policy canBorrow) := by
  cases canBorrow with
  | true => rfl
  | false => rfl

/-- The registry of a run in which the profile may borrow and the position is chosen for it. -/
def chosen : Registry :=
  let r := (started true).register strategy
  { r with overrides := r.overrides.insert ("growth", tokenHash [collateral]) strategy.hash }

/-- The position is registered once it is chosen. -/
theorem strategies_chosen : chosen.strategies.get? strategy.hash = some strategy := by
  have hfound := Registry.strategy_register (r := started true) (s := strategy) rfl
  rwa [Registry.strategy_eq_ok] at hfound

/-- The choice is one that the operator can make. -/
theorem chosen_reachable : Reachable vocabulary chosen := by
  have hadd : (started true).perform (.ofNat 11) (.addStrategy strategy) =
      .ok ((started true).register strategy) := rfl
  have hprofile : ((started true).register strategy).profiles.get? "growth" =
      some (policy true) :=
    (congrArg (·.get? "growth") (Registry.register_rest _ _).2.2).trans (profiles_started true)
  have hset : ((started true).register strategy).perform (.ofNat 11)
      (.setOverride "growth" collateral (some strategy.hash)) = .ok chosen := by
    rw [Registry.perform, if_pos (by rfl)]
    exact Registry.setOverride_of_allowed hprofile strategies_chosen rfl
  refine .change (.change (.config (ofConfig_config true)) (.perform ?_ ?_ hadd))
    (.perform ?_ ?_ hset)
  · rintro s hs
    exact List.mem_singleton.1 hs
  · rintro a ha
    cases ha
  · rintro s hs
    cases hs
  · rintro a ha
    exact List.mem_singleton.1 ha

/-- The registry after a restart with another configuration. -/
def restarted (canBorrow : Bool) : Registry := (started canBorrow).restore chosen.saved

/-- The saved choice. -/
theorem mem_saved_chosen :
    (("growth", tokenHash [collateral]), strategy.hash) ∈ chosen.saved.overrides :=
  Table.mem_toList_iff.2 (Table.get?_insert_self _ _ _)

/-- The position is registered after the restart. -/
theorem strategies_restarted (canBorrow : Bool) :
    (restarted canBorrow).strategies.get? strategy.hash = some strategy := by
  have hsound := (chosen_reachable.sound vocabulary_collisionFree)
  have hstarted := (Reachable.config (ofConfig_config canBorrow)).sound vocabulary_collisionFree
  exact (hstarted.restore hsound vocabulary_collisionFree).2 _ _ strategies_chosen

end Leveraged

/-- **Selections respect the borrowing policy across restarts exactly when restored overrides are
admitted.** In every reachable registry what is selected is registered and over its asset. It
respects the policy as long as every restore finds the saved overrides to be ones that the profiles
may run now, and a restore that does not find so breaks the policy. -/
theorem selection_respects_policy_iff_admitted (V : Vocabulary) (hV : V.CollisionFree) :
    (∀ r, Reachable V r → ∀ profile asset choice r', V.assets asset →
      (∀ s ∈ r.computed profile asset, V.strategies s) →
      r.bestStrategy profile asset = .ok (choice, r') →
      ∃ s, r'.strategies.get? choice.hash = some s ∧ s.underlying = asset) ∧
    (∀ r, Orderly V r → r.Compliant V) ∧
    ∀ r earlier, Orderly V r → Reachable V earlier →
      ((r.restore earlier.saved).Compliant V ↔ r.Admits earlier.saved) := by
  refine ⟨fun r hr profile asset choice r' ha hs h => ?_, fun r hr => ?_,
    fun r earlier hr he => ⟨fun hcompliant => ?_, fun hadmits => ?_⟩⟩
  · obtain ⟨-, s, hfound, hasset, -⟩ := (hr.sound hV).selected hV hs ha h
    exact ⟨s, hfound, hasset⟩
  · exact (hr.reachable.sound hV).compliant hV (hr.overridesAllowed hV)
  -- A saved override is selected once it is restored, so the policy has to admit it.
  · intro profile tokens hash policy s hmem hpolicy hs hborrow
    obtain ⟨t, ha, ht, hkept, hnone, hbest⟩ :=
      (he.sound hV).selects_restored (hr.reachable.sound hV) hV hmem hpolicy
    obtain ⟨s', policy', hs', -, hpolicy', hcan⟩ :=
      hcompliant profile t.underlying _ _ ha (by simp [hnone]) hbest
    rw [hs] at hs'
    cases hs'
    rw [hkept] at hpolicy'
    cases hpolicy'
    exact hcan hborrow
  · have horderly := Orderly.restore hr he hadmits
    exact (horderly.reachable.sound hV).compliant hV (horderly.overridesAllowed hV)

namespace Leveraged

/-- After a restart selections respect the policy when the profile may still borrow, and not when it
may no longer. -/
theorem restarted_compliant : vocabulary.CollisionFree ∧ (restarted true).Compliant vocabulary ∧
    ¬(restarted false).Compliant vocabulary := by
  have hadmits : ∀ canBorrow, (restarted canBorrow).Compliant vocabulary ↔
      (started canBorrow).Admits chosen.saved := fun canBorrow =>
    (selection_respects_policy_iff_admitted vocabulary vocabulary_collisionFree).2.2
      (started canBorrow) chosen (.config (ofConfig_config canBorrow)) chosen_reachable
  refine ⟨vocabulary_collisionFree, (hadmits true).2 ?_, fun hcompliant => ?_⟩
  · rintro name tokens hash found s - hfound - -
    have hmem := Table.mem_toList_iff.2 hfound
    have hlist : (started true).profiles.toList = [("growth", policy true)] := rfl
    rw [hlist, List.mem_singleton] at hmem
    cases hmem
    rfl
  · have hcan := (hadmits false).1 hcompliant _ _ _ (policy false) strategy mem_saved_chosen
      (profiles_started false) (strategies_restarted false) rfl
    cases hcan

/-- A reachable registry selects a strategy that borrows for a profile that may not. -/
theorem restarted_selects_borrow : vocabulary.CollisionFree ∧
    Reachable vocabulary (restarted false) ∧
    (restarted false).bestStrategy "growth" collateral =
      .ok (⟨strategy.hash, .override⟩, restarted false) ∧
    (restarted false).strategies.get? strategy.hash = some strategy ∧
    strategy.hasBorrow = true ∧
    (restarted false).profiles.get? "growth" = some (policy false) ∧
    (policy false).canBorrow = false := by
  have hstarted := Reachable.config (V := vocabulary) (ofConfig_config false)
  obtain ⟨s, -, hs, hpolicy, -, hbest⟩ :=
    (chosen_reachable.sound vocabulary_collisionFree).selects_restored
      (hstarted.sound vocabulary_collisionFree) vocabulary_collisionFree mem_saved_chosen
      (profiles_started false)
  have hsame : s = strategy := Option.some.inj (hs.symm.trans (strategies_restarted false))
  subst hsame
  exact ⟨vocabulary_collisionFree, .restore hstarted chosen_reachable, hbest,
    strategies_restarted false, rfl, hpolicy, rfl⟩

end Leveraged

end VaultKeeper
