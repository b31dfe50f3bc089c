import VaultKeeper.Proofs.Consistency
import VaultKeeper.Proofs.VaultAssets

/-! # The order of selections

A selection reads the profiles, the pools and their bindings, the override of its own profile and
asset, and whether the default of these is frozen. It writes at most one strategy and the default of
its own profile and asset, which is not frozen before or after. So no selection sees what another
one has written: each answers what it would have answered first. What two selections leave behind
does not depend on their order either, as long as different content has different digests, and what
a keeper selects for its vaults does not depend on the order in which they are served. -/

namespace VaultKeeper

/-- The strategy of a default that is frozen. -/
def DefaultState.frozen? : DefaultState → Option Digest
  | ratingBased true cached => some cached
  | _ => none

/-- Recording a default does not change what is frozen. -/
@[simp] theorem DefaultState.frozen?_cache (s : DefaultState) (h : Digest) :
    (s.cache h).frozen? = s.frozen? := by
  cases s with
  | unset => rfl
  | ratingBased paused cached => cases paused <;> rfl

/-- What a selection is made for: a risk profile and an asset. -/
structure Demand where
  /-- The risk profile. -/
  profile : String
  /-- The asset. -/
  asset : Address
deriving DecidableEq

namespace Demand

/-- The request for a selection. -/
def request (d : Demand) : Request := .select d.profile d.asset

/-- Where the default strategy is kept. -/
def key (d : Demand) : String × Digest := (d.profile, tokenHash [d.asset])

/-- What a vault demands. -/
def ofVault (v : VaultConfig) : Demand := ⟨v.riskProfile, v.asset⟩

end Demand

namespace Registry

variable {r r' : Registry} {d e : Demand} {s t : Strategy} {V : Vocabulary}

/-- The state of the default strategy of a demand. -/
def stateOf (r : Registry) (d : Demand) : DefaultState := (r.defaults.get? d.key).getD .unset

/-- Register a strategy and record it as the default of a demand. -/
def remember (r : Registry) (d : Demand) (s : Strategy) : Registry :=
  (r.register s).cacheDefault d.profile (tokenHash [d.asset]) s.hash

/-- What a selection answers, and the strategy that it computes, if it does. -/
def choice (r : Registry) (d : Demand) : Except AllocationError (Selection × Option Strategy) := do
  let policy ← r.profile d.profile
  match r.overrides.get? d.key, (r.stateOf d).frozen? with
  | some hash, _ => return (⟨hash, .override⟩, none)
  | none, some cached => return (⟨cached, .cachedDefault⟩, none)
  | none, none =>
    match r.rankPools policy d.asset with
    | [] => throw (.noEligibleStrategy d.profile d.asset)
    | best :: _ =>
      let s ← Strategy.single d.asset best.record.pool best.receipt
      return (⟨s.hash, .ratingBased⟩, some s)

/-- What a selection answers, apart from the registry that it leaves. -/
def selected (r : Registry) (d : Demand) : Except AllocationError Selection :=
  (r.bestStrategy d.profile d.asset).map (·.1)

/-! ## What a selection does -/

/-- **A selection remembers what it computes**, and leaves all else as it is. -/
theorem bestStrategy_eq (r : Registry) (d : Demand) :
    r.bestStrategy d.profile d.asset =
      (r.choice d).map fun x => (x.1, x.2.elim r (r.remember d)) := by
  rw [bestStrategy, choice]
  cases r.profile d.profile with
  | error error => rfl
  | ok policy =>
    rw [ok_bind, ok_bind]
    have hoverride : r.override? d.profile (tokenHash [d.asset]) = r.overrides.get? d.key := rfl
    have hstate : r.defaultState d.profile (tokenHash [d.asset]) = r.stateOf d := rfl
    simp only [hoverride, hstate]
    cases r.overrides.get? d.key with
    | some hash => rfl
    | none =>
      have hranked : (match r.rankPools policy d.asset with
          | [] => throw (.noEligibleStrategy d.profile d.asset)
          | best :: _ => do
            let s ← Strategy.single d.asset best.record.pool best.receipt
            return (⟨s.hash, .ratingBased⟩, r.remember d s) :
            Except AllocationError (Selection × Registry)) =
          (match r.rankPools policy d.asset with
          | [] => throw (.noEligibleStrategy d.profile d.asset)
          | best :: _ => do
            let s ← Strategy.single d.asset best.record.pool best.receipt
            return (⟨s.hash, .ratingBased⟩, some s) :
            Except AllocationError (Selection × Option Strategy)).map
              fun x => (x.1, x.2.elim r (r.remember d)) := by
        cases r.rankPools policy d.asset with
        | nil => rfl
        | cons best rest =>
          dsimp only
          cases Strategy.single d.asset best.record.pool best.receipt <;> rfl
      cases r.stateOf d with
      | unset => exact hranked
      | ratingBased paused cached =>
        cases paused with
        | true => rfl
        | false => exact hranked

/-- The answer of a selection. -/
theorem selected_eq (r : Registry) (d : Demand) : r.selected d = (r.choice d).map (·.1) := by
  rw [selected, bestStrategy_eq]
  cases r.choice d <;> rfl

/-- The strategy that a selection computes. -/
theorem computed_eq (r : Registry) (d : Demand) :
    r.computed d.profile d.asset = (r.choice d).toOption.bind (·.2) := by
  have hoverride : r.override? d.profile (tokenHash [d.asset]) = r.overrides.get? d.key := rfl
  have hstate : r.defaultState d.profile (tokenHash [d.asset]) = r.stateOf d := rfl
  rw [computed, choice, hoverride, hstate]
  cases r.profile d.profile with
  | error error => exact ite_self none
  | ok policy =>
    rw [ok_bind]
    cases r.overrides.get? d.key with
    | some hash => rfl
    | none =>
      have hranked : (match r.rankPools policy d.asset with
          | [] => none
          | best :: _ =>
            (Strategy.single d.asset best.record.pool best.receipt).toOption : Option Strategy) =
          (match r.rankPools policy d.asset with
          | [] => throw (.noEligibleStrategy d.profile d.asset)
          | best :: _ => do
            let s ← Strategy.single d.asset best.record.pool best.receipt
            return (⟨s.hash, .ratingBased⟩, some s) :
            Except AllocationError (Selection × Option Strategy)).toOption.bind (·.2) := by
        cases r.rankPools policy d.asset with
        | nil => rfl
        | cons best rest =>
          dsimp only
          cases Strategy.single d.asset best.record.pool best.receipt <;> rfl
      cases r.stateOf d with
      | unset => exact hranked
      | ratingBased paused cached =>
        cases paused with
        | true => rfl
        | false => exact hranked

/-- The registry that a selection leaves. -/
theorem after_request (r : Registry) (d : Demand) :
    r.after d.request = (r.computed d.profile d.asset).elim r (r.remember d) := by
  rw [computed_eq, Demand.request, after_select, bestStrategy_eq]
  cases r.choice d <;> rfl

/-! ## What a selection reads -/

/-- **Two registries in which every selection chooses alike**: they have the same profiles, pools,
bindings and overrides, and the same defaults are frozen. -/
structure SameGround (r r' : Registry) : Prop where
  /-- The profiles. -/
  profiles : r'.profiles = r.profiles
  /-- The pools. -/
  pools : r'.pools = r.pools
  /-- The adapters that pools are bound to. -/
  bindings : ∀ pool, r'.binding? pool = r.binding? pool
  /-- The overrides. -/
  overrides : r'.overrides = r.overrides
  /-- The frozen defaults. -/
  frozen : ∀ d, (r'.stateOf d).frozen? = (r.stateOf d).frozen?

/-- On the same ground pools are ranked alike. -/
theorem SameGround.rankPools_eq (h : SameGround r r') (policy : RiskProfile) (asset : Address) :
    r'.rankPools policy asset = r.rankPools policy asset := by
  have hcandidate : r'.candidate? policy asset = r.candidate? policy asset := by
    funext record
    rw [candidate?, candidate?, h.bindings]
  rw [rankPools, rankPools, poolRecords, poolRecords, h.pools, hcandidate]

/-- On the same ground a selection chooses alike. -/
theorem SameGround.choice_eq (h : SameGround r r') (d : Demand) : r'.choice d = r.choice d := by
  have hprofile : r'.profile d.profile = r.profile d.profile := by
    rw [profile, profile, h.profiles]
  simp only [choice, hprofile, h.overrides, h.frozen, h.rankPools_eq]

/-- What is remembered for one demand leaves the state of the others. -/
theorem stateOf_remember_of_ne (h : e.key ≠ d.key) : (r.remember d s).stateOf e = r.stateOf e := by
  have hfound : (r.remember d s).defaults.get? e.key = r.defaults.get? e.key := by
    rw [← (register_rest r s).2.1]
    exact Table.get?_insert_of_ne _ _ h
  rw [stateOf, hfound, stateOf]

/-- Remembering a strategy replaces the state by one with the strategy recorded. -/
theorem stateOf_remember_self : (r.remember d s).stateOf d = (r.stateOf d).cache s.hash := by
  have hfound : (r.remember d s).defaults.get? d.key =
      some (((r.register s).stateOf d).cache s.hash) := Table.get?_insert_self _ _ _
  rw [stateOf, hfound, Option.getD_some, stateOf, (register_rest r s).2.1, ← stateOf]

/-- **Remembering a strategy changes nothing that a selection reads.** -/
theorem sameGround_remember (r : Registry) (d : Demand) (s : Strategy) :
    SameGround r (r.remember d s) := by
  obtain ⟨hoverrides, -, hprofiles⟩ := register_rest r s
  obtain ⟨hpools, hbindings⟩ :=
    sameMarket_cacheDefault r s d.profile (tokenHash [d.asset]) s.hash
  refine ⟨hprofiles, hpools, hbindings, hoverrides, fun e => ?_⟩
  by_cases hkey : e.key = d.key
  · have hstate : ∀ x : Registry, x.stateOf e = x.stateOf d := by
      intro x
      rw [stateOf, stateOf, hkey]
    rw [hstate, hstate, stateOf_remember_self, DefaultState.frozen?_cache]
  · rw [stateOf_remember_of_ne hkey]

/-- **A selection leaves the ground of every selection as it is.** -/
theorem sameGround_after (r : Registry) (d : Demand) : SameGround r (r.after d.request) := by
  rw [after_request]
  cases r.computed d.profile d.asset with
  | none => exact ⟨rfl, rfl, fun _ => rfl, rfl, fun _ => rfl⟩
  | some s => exact sameGround_remember r d s

/-- On the same ground a selection answers alike and computes alike. -/
theorem SameGround.selected_eq (h : SameGround r r') (d : Demand) :
    r'.selected d = r.selected d ∧
      r'.computed d.profile d.asset = r.computed d.profile d.asset := by
  rw [Registry.selected_eq, computed_eq, h.choice_eq, ← Registry.selected_eq, ← computed_eq]
  exact ⟨rfl, rfl⟩

/-- Two selections compute what each of them computes alone. -/
theorem after_after (r : Registry) (d e : Demand) : (r.after d.request).after e.request =
    (r.computed e.profile e.asset).elim (r.after d.request) ((r.after d.request).remember e) := by
  rw [after_request, ((sameGround_after r d).selected_eq e).2]

/-! ## What a selection writes -/

/-- What is registered is found, and a strategy that was not is found then. -/
theorem get?_strategies_register (r : Registry) (s : Strategy) (hash : Digest) :
    (r.register s).strategies.get? hash =
      (r.strategies.get? hash).or (if hash = s.hash then some s else none) := by
  unfold register
  by_cases hknown : r.strategies.contains s.hash = true
  · rw [if_pos hknown]
    by_cases hhash : hash = s.hash
    · obtain ⟨t, ht⟩ := Table.contains_iff.1 hknown
      rw [hhash, ht, Option.some_or]
    · rw [if_neg hhash, Option.or_none]
  · rw [if_neg hknown]
    change (r.strategies.insert s.hash s).get? hash = _
    rw [Table.get?_insert]
    by_cases hhash : hash = s.hash
    · rw [if_pos hhash, if_pos hhash, hhash, Option.not_isSome_iff_eq_none.1 hknown, Option.none_or]
    · rw [if_neg hhash, if_neg hhash, Option.or_none]

/-- What remembering a strategy writes. -/
theorem remember_eq (r : Registry) (d : Demand) (s : Strategy) : r.remember d s =
    { r with
      strategies := (r.register s).strategies
      defaults := r.defaults.insert d.key ((r.stateOf d).cache s.hash) } := by
  unfold remember register
  split <;> rfl

/-- Registering a strategy again changes nothing. -/
theorem register_of_contains (h : r.strategies.contains s.hash = true) : r.register s = r :=
  if_pos h

/-- **Remembering a strategy twice is remembering it once.** -/
theorem remember_remember (r : Registry) (d : Demand) (s : Strategy) :
    (r.remember d s).remember d s = r.remember d s := by
  have hknown : (r.remember d s).strategies.contains s.hash = true := by
    rw [remember_eq]
    exact contains_register r s
  have hcached : ((r.stateOf d).cache s.hash).cache s.hash = (r.stateOf d).cache s.hash := by
    cases r.stateOf d with
    | unset => rfl
    | ratingBased paused cached => cases paused <;> rfl
  rw [remember_eq (r.remember d s), register_of_contains hknown, stateOf_remember_self, hcached,
    remember_eq, Table.insert_insert]

/-- **Strategies are remembered for different demands in either order**, unless they differ and have
the same digest. -/
theorem remember_comm (hkey : d.key ≠ e.key) (hhash : s.hash = t.hash → s = t) :
    (r.remember d s).remember e t = (r.remember e t).remember d s := by
  have hstrategies : ((r.remember d s).register t).strategies =
      ((r.remember e t).register s).strategies := by
    refine Table.ext_get? fun hash => ?_
    rw [get?_strategies_register, get?_strategies_register, remember_eq, remember_eq]
    change ((r.register s).strategies.get? hash).or _ = ((r.register t).strategies.get? hash).or _
    rw [get?_strategies_register, get?_strategies_register, Option.or_assoc, Option.or_assoc]
    congr 1
    by_cases hs : hash = s.hash
    · by_cases ht : hash = t.hash
      · rw [hhash (hs.symm.trans ht)]
      · rw [if_neg ht, Option.none_or, Option.or_none]
    · rw [if_neg hs, Option.none_or, Option.or_none]
  have hdefaults : (r.remember d s).defaults.insert e.key ((r.stateOf e).cache t.hash) =
      (r.remember e t).defaults.insert d.key ((r.stateOf d).cache s.hash) := by
    rw [remember_eq, remember_eq]
    exact Table.insert_comm _ _ _ hkey
  rw [remember_eq (r.remember d s), remember_eq (r.remember e t),
    stateOf_remember_of_ne hkey.symm, stateOf_remember_of_ne hkey, hstrategies, hdefaults,
    remember_eq, remember_eq]

/-- **What a selection may touch**: one strategy, and the default of its own demand. -/
structure Touches (r : Registry) (d : Demand) (r' : Registry) : Prop where
  /-- Roles, pools, bindings, caps, profiles and overrides stay as they are. -/
  rest : r' = { r with strategies := r'.strategies, defaults := r'.defaults }
  /-- At most one strategy is added. -/
  strategies : r'.strategies = r.strategies ∨
    ∃ s, r.strategies.contains s.hash = false ∧ r'.strategies = r.strategies.insert s.hash s
  /-- The defaults of other demands stay as they are. -/
  defaults : ∀ key, key ≠ d.key → r'.defaults.get? key = r.defaults.get? key

/-- A selection touches nothing else. -/
theorem touches_after (r : Registry) (d : Demand) : r.Touches d (r.after d.request) := by
  rw [after_request]
  cases r.computed d.profile d.asset with
  | none => exact ⟨rfl, .inl rfl, fun _ _ => rfl⟩
  | some s =>
    change r.Touches d (r.remember d s)
    rw [remember_eq]
    refine ⟨rfl, ?_, fun key hkey => Table.get?_insert_of_ne _ _ hkey⟩
    cases hknown : r.strategies.contains s.hash with
    | true => exact .inl (by rw [register_of_contains hknown])
    | false =>
      refine .inr ⟨s, hknown, ?_⟩
      change (r.register s).strategies = _
      rw [register, hknown]
      rfl

/-! ## One selection after another -/

/-- What a selection hashes is in a vocabulary. -/
structure Hashes (V : Vocabulary) (r : Registry) (d : Demand) : Prop where
  /-- The asset. -/
  asset : V.assets d.asset
  /-- The strategy that is computed. -/
  computed : ∀ s ∈ r.computed d.profile d.asset, V.strategies s

/-- What is hashed does not depend on other selections. -/
theorem Hashes.after (h : Hashes V r e) (d : Demand) : Hashes V (r.after d.request) e := by
  refine ⟨h.asset, fun s hs => h.computed s ?_⟩
  rwa [((sameGround_after r d).selected_eq e).2] at hs

/-- Different demands have different keys. -/
theorem Hashes.key_ne (hV : V.CollisionFree) (hd : Hashes V r d) (he : Hashes V r e)
    (hne : d ≠ e) : d.key ≠ e.key := by
  intro hkey
  obtain ⟨hprofile, htokens⟩ := Prod.mk.inj hkey
  have hasset := hV.asset_eq hd.asset he.asset htokens
  cases d
  cases e
  cases hprofile
  cases hasset
  exact hne rfl

/-- **A selection that is made again changes nothing.** -/
theorem after_after_self (r : Registry) (d : Demand) :
    (r.after d.request).after d.request = r.after d.request := by
  rw [after_after, after_request]
  cases r.computed d.profile d.asset with
  | none => rfl
  | some s => exact remember_remember r d s

/-- **Two selections are made in either order.** -/
theorem after_comm (hV : V.CollisionFree) (hd : Hashes V r d) (he : Hashes V r e) :
    (r.after d.request).after e.request = (r.after e.request).after d.request := by
  by_cases hsame : d = e
  · rw [hsame]
  have hkey := hd.key_ne hV he hsame
  rw [after_after, after_after, after_request, after_request]
  cases hs : r.computed d.profile d.asset with
  | none =>
    cases r.computed e.profile e.asset with
    | none => simp only [Option.elim_none]
    | some t => simp only [Option.elim_none, Option.elim_some]
  | some s =>
    cases ht : r.computed e.profile e.asset with
    | none => simp only [Option.elim_none, Option.elim_some]
    | some t =>
      simp only [Option.elim_some]
      exact remember_comm hkey fun hhash =>
        hV.strategy_eq (hd.computed s (Option.mem_def.2 hs)) (he.computed t (Option.mem_def.2 ht))
          hhash

/-- The ground of selections stays as it is in a run of them. -/
theorem sameGround_run (r : Registry) (ds : List Demand) :
    SameGround r (r.run (ds.map Demand.request)) := by
  induction ds generalizing r with
  | nil => exact ⟨rfl, rfl, fun _ => rfl, rfl, fun _ => rfl⟩
  | cons d rest ih =>
    have hfirst := sameGround_after r d
    have hrest := ih (r.after d.request)
    exact ⟨hrest.profiles.trans hfirst.profiles, hrest.pools.trans hfirst.pools,
      fun pool => (hrest.bindings pool).trans (hfirst.bindings pool),
      hrest.overrides.trans hfirst.overrides, fun e => (hrest.frozen e).trans (hfirst.frozen e)⟩

/-- **A run of selections leaves the same registry in any order.** -/
theorem run_perm (hV : V.CollisionFree) {ds es : List Demand} (h : ds.Perm es)
    (hds : ∀ d ∈ ds, Hashes V r d) :
    r.run (ds.map Demand.request) = r.run (es.map Demand.request) := by
  induction h generalizing r with
  | nil => rfl
  | cons d h ih =>
    exact ih fun e he => (hds e (List.mem_cons_of_mem d he)).after d
  | swap d e rest =>
    have hcomm := after_comm hV (hds e List.mem_cons_self)
      (hds d (List.mem_cons_of_mem e List.mem_cons_self))
    exact congrArg (fun x : Registry => x.run (rest.map Demand.request)) hcomm
  | trans h h' ih ih' =>
    exact (ih hds).trans (ih' fun e he => hds e (h.mem_iff.2 he))

end Registry

namespace Keeper

variable {σ : Type}

/-- Serving vaults leaves the registry as a run of their selections does. -/
theorem registry_serveVaults (env : Environment σ) (l : Ledger) (k : Keeper)
    (vs : List VaultConfig) (s : σ) : (serveVaults env l k vs s).1.1.registry =
      k.registry.run ((vs.map Demand.ofVault).map Demand.request) := by
  induction vs generalizing k s with
  | nil => rfl
  | cons v rest ih =>
    have hserved : (serveVault env l k v s).1.1.registry =
        k.registry.after (Demand.ofVault v).request :=
      (registry_serveVault env l k v s).1.trans (registry_planVault k v l)
    rw [serveVaults_cons, ih, hserved]
    rfl

end Keeper

/-- **Selections are idempotent, commute and touch little.** A selection that is made again answers
the same and changes nothing. Two selections answer the same in either order and leave the same
registry. A selection touches at most one strategy and the default of its own demand. So a keeper
selects for each vault what it would select for it first, and vaults that are served in another
order leave the same registry, by whatever executor and at whatever ledger they are served. This
needs that the digests of what is hashed do not collide. -/
theorem selections_commute (V : Vocabulary) (hV : V.CollisionFree) (r : Registry) (d e : Demand)
    (hd : r.Hashes V d) (he : r.Hashes V e) :
    ((r.after d.request).selected d = r.selected d ∧
      (r.after d.request).after d.request = r.after d.request) ∧
    ((r.after d.request).selected e = r.selected e ∧
      (r.after e.request).selected d = r.selected d ∧
      (r.after d.request).after e.request = (r.after e.request).after d.request) ∧
    r.Touches d (r.after d.request) ∧
    ∀ (vs ws : List VaultConfig), vs.Perm ws → (∀ v ∈ vs, r.Hashes V (.ofVault v)) →
      ∀ {σ τ : Type} (env : Environment σ) (env' : Environment τ) (l l' : Ledger) (k k' : Keeper)
        (s : σ) (s' : τ), k.registry = r → k'.registry = r →
        (k.serveVaults env l vs s).1.1.registry = (k'.serveVaults env' l' ws s').1.1.registry ∧
        ∀ before v after, vs = before ++ v :: after →
          (k.serveVaults env l before s).1.1.registry.selected (.ofVault v) =
            r.selected (.ofVault v) := by
  have hground := Registry.sameGround_after r
  refine ⟨⟨((hground d).selected_eq d).1, Registry.after_after_self r d⟩,
    ⟨((hground d).selected_eq e).1, ((hground e).selected_eq d).1, Registry.after_comm hV hd he⟩,
    Registry.touches_after r d, ?_⟩
  intro vs ws hperm hvs σ τ env env' l l' k k' s s' hk hk'
  subst hk
  refine ⟨?_, fun before v after _ => ?_⟩
  · rw [Keeper.registry_serveVaults, Keeper.registry_serveVaults, hk']
    refine Registry.run_perm hV (hperm.map Demand.ofVault) fun d hd => ?_
    obtain ⟨v, hv, rfl⟩ := List.mem_map.1 hd
    exact hvs v hv
  · rw [Keeper.registry_serveVaults]
    exact ((Registry.sameGround_run k.registry _).selected_eq _).1

namespace Served

/-- The registry with a wider range for the second profile, so that it admits the pool as well. -/
def widened : Registry :=
  { deployed with profiles := deployed.profiles.insert "steady" ⟨"steady", false, ⟨0, 10⟩⟩ }

/-- Both profiles compute the same deposit. -/
theorem computed_widened {profile : String}
    (hprofile : widened.profile profile = .ok ⟨profile, false, ⟨0, 10⟩⟩) :
    widened.computed profile (.ofNat 2) = some strategy := by
  have hrecords : widened.poolRecords = [record] := List.mergeSort_singleton record
  have hcandidate : widened.candidate? ⟨profile, false, ⟨0, 10⟩⟩ (.ofNat 2) record =
      some ⟨record, .ofNat 4⟩ := rfl
  have hranks : widened.rankPools ⟨profile, false, ⟨0, 10⟩⟩ (.ofNat 2) =
      [⟨record, .ofNat 4⟩] := by
    rw [Registry.rankPools, hrecords, List.filterMap_cons, hcandidate, List.filterMap_nil]
    exact List.mergeSort_singleton _
  have hactive : ((widened.override? profile (tokenHash [.ofNat 2])).isSome ||
      (widened.defaultState profile (tokenHash [.ofNat 2])).isPaused) = false := rfl
  rw [Registry.computed, hactive, if_neg Bool.false_ne_true, hprofile]
  simp only [hranks]
  rfl

/-- Both profiles hash the deposit only. -/
theorem hashes_widened {profile : String}
    (hprofile : widened.profile profile = .ok ⟨profile, false, ⟨0, 10⟩⟩) :
    widened.Hashes vocabulary ⟨profile, .ofNat 2⟩ := by
  refine ⟨rfl, fun s hs => ?_⟩
  rw [computed_widened hprofile] at hs
  exact (Option.mem_some_iff.1 hs).symm

/-- The deposit is registered and recorded for both profiles, in either order, and so it is when a
keeper serves a vault of each profile. -/
theorem profiles_selected_in_either_order : vocabulary.CollisionFree ∧
    widened.Hashes vocabulary (.ofVault treasury) ∧
    widened.Hashes vocabulary (.ofVault (other "reserve" (.ofNat 2))) ∧
    (widened.after (.select "growth" (.ofNat 2))).computed "steady" (.ofNat 2) = some strategy ∧
    (widened.after (.select "growth" (.ofNat 2))).after (.select "steady" (.ofNat 2)) =
      (widened.after (.select "steady" (.ofNat 2))).after (.select "growth" (.ofNat 2)) ∧
    ∀ vaults, ((Keeper.new widened vaults).serveVaults applies ledger
        [treasury, other "reserve" (.ofNat 2)] ()).1.1.registry =
      ((Keeper.new widened vaults).serveVaults applies ledger
        [other "reserve" (.ofNat 2), treasury] ()).1.1.registry := by
  have hgrowth : widened.Hashes vocabulary (.ofVault treasury) := hashes_widened rfl
  have hsteady : widened.Hashes vocabulary (.ofVault (other "reserve" (.ofNat 2))) :=
    hashes_widened rfl
  have hboth : ∀ v ∈ [treasury, other "reserve" (.ofNat 2)],
      widened.Hashes vocabulary (.ofVault v) := by
    intro v hv
    rcases List.mem_cons.1 hv with rfl | hv
    · exact hgrowth
    · cases List.mem_singleton.1 hv
      exact hsteady
  obtain ⟨-, ⟨-, -, hcomm⟩, -, hserved⟩ :=
    selections_commute vocabulary vocabulary_collisionFree widened _ _ hgrowth hsteady
  have hcomputed := (Registry.sameGround_after widened (.ofVault treasury)).selected_eq
    (.ofVault (other "reserve" (.ofNat 2)))
  refine ⟨vocabulary_collisionFree, hgrowth, hsteady, hcomputed.2.trans (computed_widened rfl),
    hcomm, fun vaults => ?_⟩
  exact (hserved _ _ (.swap _ _ _) hboth applies applies ledger ledger _ _ () () rfl rfl).1

end Served

end VaultKeeper
