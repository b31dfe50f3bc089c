import VaultKeeper.Proofs.StateFiles
import VaultKeeper.Proofs.Submissions

/-! # Restarts

A keeper that is restarted begins with its configuration and takes over what it finds in the state
file, which is what was saved there (`Keeper.resume_eq`). Saved are the selections of the registry
and the states of the vaults; the rest of the registry is the same in every keeper of the
configuration, as long as only cycles and strategy operators have changed it. So a restart loses
nothing (`Keeper.Restorable.sameBooks_restarted`).

From then on two keepers with the same books do the same. What they submit may differ in the
identifiers of the batches and in times, and so may the last batches of their vaults; nothing that a
keeper does depends on these (`Keeper.lockstep_alike`). -/

namespace VaultKeeper

namespace Table

variable {κ ν : Type} [DecidableEq κ] [Ord κ] [Std.LawfulEqOrd κ] [Std.TransOrd κ]

/-- Inserting exactly the entries of a table gives that table, when nothing was there under any other
key. -/
theorem foldl_insert_eq {xs : List (κ × ν)} {t u : Table κ ν}
    (hxs : ∀ k v, (k, v) ∈ xs ↔ t.get? k = some v)
    (hkeys : ∀ k, u.contains k = true → t.contains k = true) :
    xs.foldl (fun t e => t.insert e.1 e.2) u = t := by
  refine Table.ext_get? fun k => ?_
  cases ht : t.get? k with
  | some v =>
    refine get?_foldl_insert_of_mem ((hxs k v).2 ht) (fun w hw => ?_) u
    exact Option.some.inj (((hxs k w).1 hw).symm.trans ht)
  | none =>
    refine Option.eq_none_iff_forall_ne_some.2 fun v hv => ?_
    rcases get?_foldl_insert hv with hmem | hbefore
    · rw [(hxs k v).1 hmem] at ht
      cases ht
    · obtain ⟨w, hw⟩ := contains_iff.1 (hkeys k (contains_iff.2 ⟨v, hbefore⟩))
      rw [hw] at ht
      cases ht

/-- Inserting the entries of a table into an empty one. -/
theorem foldl_insert_toList (t : Table κ ν) :
    t.toList.foldl (fun t e => t.insert e.1 e.2) ∅ = t :=
  foldl_insert_eq (fun _ _ => mem_toList_iff) fun _ h => nomatch h

end Table

namespace Registry

/-! ## What is not saved -/

/-- **The part of a registry that is not saved.** It comes from the configuration. -/
def setup (r : Registry) : Registry := { r with strategies := ∅, overrides := ∅, defaults := ∅ }

variable {r r' : Registry} {c : Command}

/-- A registry is its setup with what is saved. -/
theorem eq_of_setup (hsetup : r'.setup = r.setup) (hstrategies : r'.strategies = r.strategies)
    (hoverrides : r'.overrides = r.overrides) (hdefaults : r'.defaults = r.defaults) : r' = r :=
  calc r' = { r'.setup with
        strategies := r'.strategies, overrides := r'.overrides, defaults := r'.defaults } := rfl
    _ = { r.setup with
        strategies := r.strategies, overrides := r.overrides, defaults := r.defaults } := by
      rw [hsetup, hstrategies, hoverrides, hdefaults]
    _ = r := rfl

/-- Registering a strategy changes nothing but the strategies. -/
theorem register_eq (r : Registry) (s : Strategy) :
    r.register s = { r with strategies := (r.register s).strategies } := by
  unfold register
  split
  · rfl
  · rfl

/-- Registering many strategies changes nothing else either. -/
theorem foldl_register_eq (r : Registry) (xs : List Strategy) :
    xs.foldl register r = { r with strategies := (xs.foldl register r).strategies } := by
  induction xs generalizing r with
  | nil => rfl
  | cons x rest ih =>
    rw [List.foldl_cons, ih, register_eq]

/-- A selection changes what is saved only. -/
theorem setup_select (r : Registry) (profile : String) (asset : Address) :
    (r.after (.select profile asset)).setup = r.setup := by
  rw [after_select]
  cases h : r.bestStrategy profile asset with
  | error e => rfl
  | ok x =>
    obtain ⟨policy, -, ⟨-, hr⟩ | ⟨-, hr⟩ | ⟨s, -, -, -, -, hr⟩⟩ := bestStrategy_cases h
    · exact congrArg setup hr
    · exact congrArg setup hr
    · dsimp only
      rw [hr, register_eq]
      rfl

/-- **So does every command of a strategy operator.** -/
theorem setup_execute (hrole : c.role = .strategyOperator) (h : r.execute c = .ok r') :
    r'.setup = r.setup := by
  cases c with
  | addStrategy s =>
    cases h
    rw [register_eq]
    rfl
  | setOverride profile asset strategy =>
    cases strategy with
    | none =>
      cases clearOverride_eq_ok h
      rfl
    | some hash =>
      obtain ⟨policy, s, -, -, -, -, rfl⟩ := setOverride_eq_ok h
      rfl
  | changeDefault change profile asset =>
    obtain ⟨state, next, -, -, rfl⟩ := changeDefault_eq_ok h
    rfl
  | _ => cases hrole

/-- A configuration selects nothing: its registry is all setup. -/
theorem setup_of_config {c : Config} (h : ofConfig c = .ok r) : r.setup = r := by
  refine ofConfig_induction (P := fun r => r.setup = r) (fun admin => rfl)
    (fun {r r' cmd} hs ha hr h => ?_) h
  rw [perform, ite_error_eq_ok] at h
  rcases execute_cases h.2 with ⟨-, -, hsame⟩ | ⟨s, rfl, -⟩ |
    ⟨profile, hash, policy, s, rfl, -⟩ | ⟨profile, asset, rfl, -⟩ |
    ⟨change, profile, asset, state, next, rfl, -⟩
  · refine eq_of_setup rfl ?_ ?_ ?_
    · exact (congrArg strategies hr).trans hsame.strategies.symm
    · exact (congrArg overrides hr).trans hsame.overrides.symm
    · exact (congrArg defaults hr).trans hsame.defaults.symm
  · cases hs
  · cases ha
  · cases ha
  · cases ha

/-! ## What is saved comes back -/

/-- A strategy is registered after many registrations when it was registered before or is one of
those. -/
theorem get?_foldl_register {xs : List Strategy} {hash : Digest} {s : Strategy}
    (h : (xs.foldl register r).strategies.get? hash = some s) :
    r.strategies.get? hash = some s ∨ s ∈ xs ∧ hash = s.hash := by
  induction xs generalizing r with
  | nil => exact .inl h
  | cons x rest ih =>
    rcases ih h with hx | ⟨hmem, hhash⟩
    · rcases get?_register hx with hbefore | ⟨hhash, rfl⟩
      · exact .inl hbefore
      · exact .inr ⟨List.mem_cons_self, hhash⟩
    · exact .inr ⟨List.mem_cons_of_mem _ hmem, hhash⟩

/-- Every strategy that is handed in is registered afterwards. -/
theorem contains_foldl_register {xs : List Strategy} {s : Strategy} (hs : s ∈ xs) :
    (xs.foldl register r).strategies.contains s.hash = true := by
  induction xs generalizing r with
  | nil => cases hs
  | cons x rest ih =>
    rcases List.mem_cons.1 hs with rfl | hs
    · exact (evolves_foldl_register (r.register s) rest).contains_strategy (contains_register r s)
    · exact ih hs

/-- The saved strategies of a consistent registry are those that are found under their digest. -/
theorem Consistent.mem_saved (hr : r.Consistent) {s : Strategy} :
    s ∈ r.saved.strategies ↔ r.strategies.get? s.hash = some s :=
  Table.mem_values_iff fun {_ s} hs => s.hash_eq.trans (hr.strategies hs).1.symm

/-- **Registering the saved strategies brings all of them back**, and no others. -/
theorem Consistent.foldl_register_saved (hr : r.Consistent) :
    r.saved.strategies.foldl Registry.register r.setup =
      { r with overrides := ∅, defaults := ∅ } := by
  rw [foldl_register_eq]
  refine eq_of_setup rfl (Table.ext_get? fun hash => ?_) rfl rfl
  -- What is found under a digest was saved, and the registry has one strategy for each digest.
  have hback : ∀ {s},
      (r.saved.strategies.foldl Registry.register r.setup).strategies.get? hash = some s →
        r.strategies.get? hash = some s := by
    intro s hs
    rcases get?_foldl_register hs with hnone | ⟨hsaved, rfl⟩
    · cases hnone
    · exact hr.mem_saved.1 hsaved
  cases h : r.strategies.get? hash with
  | none =>
    refine Option.eq_none_iff_forall_ne_some.2 fun s hs => ?_
    rw [hback hs] at h
    cases h
  | some s =>
    have hhash : hash = s.hash := (hr.strategies h).1.trans s.hash_eq.symm
    have hsaved : s ∈ r.saved.strategies := hr.mem_saved.2 (hhash ▸ h)
    obtain ⟨t, ht⟩ := Table.contains_iff.1 (contains_foldl_register (r := r.setup) hsaved)
    rw [← hhash] at ht
    exact ht.trans ((hback ht).symm.trans h)

/-- Every override of a consistent registry can be restored. -/
theorem Consistent.knowsOverride (hr : r.Consistent) :
    ∀ e ∈ r.saved.overrides, r.knowsOverride e = true := by
  intro e he
  have hselects := hr.overrides (Table.mem_toList_iff.1 he)
  exact Bool.and_eq_true_iff.2 ⟨hselects.profile, hselects.strategy⟩

/-- Every default that leads somewhere can be restored. -/
theorem DefaultsKnown.knowsDefault (hr : r.DefaultsKnown) :
    ∀ e ∈ r.saved.defaults, r.knowsDefault e = true := by
  intro e he
  obtain ⟨hprofile, hcached⟩ := hr _ _ _ (Table.mem_toList_iff.1 he)
  refine Bool.and_eq_true_iff.2 ⟨hprofile, ?_⟩
  cases hstate : e.2.cached? with
  | none => rfl
  | some hash => exact hcached hash hstate

/-- **What a registry has saved is restored over its setup, and no entry is dropped.** -/
theorem restore_saved (hr : r.Consistent) (hd : r.DefaultsKnown) :
    r.setup.restore r.saved = r ∧ r.setup.dropped r.saved = 0 := by
  have hoverrides := hr.knowsOverride
  have hdefaults := hd.knowsDefault
  constructor
  · rw [restore, hr.foldl_register_saved]
    refine eq_of_setup rfl rfl ?_ ?_
    · change (r.saved.overrides.filter r.knowsOverride).foldl _ ∅ = r.overrides
      rw [List.filter_eq_self.2 hoverrides]
      exact r.overrides.foldl_insert_toList
    · change (r.saved.defaults.filter r.knowsDefault).foldl _ ∅ = r.defaults
      rw [List.filter_eq_self.2 hdefaults]
      exact r.defaults.foldl_insert_toList
  · rw [dropped, hr.foldl_register_saved]
    change r.saved.overrides.countP (!r.knowsOverride ·) +
      r.saved.defaults.countP (!r.knowsDefault ·) = 0
    rw [Nat.add_eq_zero_iff, List.countP_eq_zero, List.countP_eq_zero]
    refine ⟨fun e he => ?_, fun e he => ?_⟩
    · rw [hoverrides e he]
      decide
    · rw [hdefaults e he]
      decide

end Registry

/-! ## Keepers in operation -/

/-- **A keeper that runs on a configuration.** After the start its registry is changed by its own
cycles and by strategy operators only. -/
inductive Operated (c : Config) : Keeper → Prop
  /-- A new keeper over the registry of the configuration. -/
  | start {r : Registry} (h : Registry.ofConfig c = .ok r) : Operated c (.new r c.vaults)
  /-- The same books with other counts, flags or files. -/
  | equip {k k' : Keeper} (hk : Operated c k) (h : k.SameBooks k') : Operated c k'
  /-- A cycle, whatever the surroundings are and whether it is refused or not. -/
  | cycle {σ : Type} {k : Keeper} (hk : Operated c k) (env : Environment σ) (l : Ledger) (s : σ) :
      Operated c (k.runCycle env l s).1.1
  /-- A strategy operator changes the registry. -/
  | operate {k : Keeper} {caller : Address} {cmd : Command} {r : Registry} (hk : Operated c k)
      (hrole : cmd.role = .strategyOperator) (h : k.registry.perform caller cmd = .ok r) :
      Operated c { k with registry := r }

namespace Keeper

/-- **What a keeper has in common with a fresh one**, so that its saved state can be restored
there. -/
structure Restorable (fresh k : Keeper) : Prop where
  /-- They manage the same vaults. -/
  vaults : k.vaults = fresh.vaults
  /-- What is not saved is the same. -/
  setup : k.registry.setup = fresh.registry
  /-- The registry is consistent. -/
  consistent : k.registry.Consistent
  /-- The defaults lead somewhere. -/
  defaults : k.registry.DefaultsKnown
  /-- The same vaults have a state. -/
  states : ∀ name, k.active.contains name = fresh.active.contains name
  /-- Vault states are kept by name. -/
  named : ∀ {name state}, k.vaultState? name = some state → state.name = name
  /-- What a vault runs is registered. -/
  known : ∀ {name state}, k.vaultState? name = some state →
    knowsStrategy k.registry state = true

/-- A keeper that takes over what another one has saved. -/
def restarted (fresh k : Keeper) (time : Instant) : Keeper :=
  fresh.restore (k.savedState time).registry (k.savedState time).vaults

variable {fresh k k' : Keeper}

/-- **A keeper that starts with the file of another one takes over its state.** -/
theorem resume_eq {f : StateFile} {time : Instant} (htime : time.Proper)
    (h : f.current = some (k.savedState time).bytes) :
    fresh.resume f = .ok (fresh.restarted k time) := by
  have hcurrent : (k.savedState time).Current := ⟨rfl, htime⟩
  rw [resume, StateFile.load_of_current h hcurrent]
  rfl

namespace Restorable

/-- **A restart loses nothing.** The books are the same as those that were saved. -/
theorem sameBooks_restarted (h : fresh.Restorable k) (time : Instant) :
    k.SameBooks (fresh.restarted k time) := by
  obtain ⟨hrestore, -⟩ := Registry.restore_saved h.consistent h.defaults
  rw [h.setup] at hrestore
  -- What is saved are the states of the keeper, each under its name.
  have hvalues : ∀ {state}, state ∈ k.active.values ↔ k.vaultState? state.name = some state :=
    Table.mem_values_iff h.named
  have hactive : (fresh.restore k.registry.saved k.active.values).active = k.active := by
    rw [active_restore]
    refine Table.foldl_insert_eq (fun name state => ?_) fun name hname => ?_
    · rw [hrestore, List.mem_map]
      constructor
      · rintro ⟨v, hv, hentry⟩
        obtain ⟨hname, rfl⟩ := Prod.mk.inj hentry
        rw [← hname]
        exact hvalues.1 (List.mem_filter.1 hv).1
      · intro hstate
        have hname : state.name = name := h.named hstate
        have hvalue : state ∈ k.active.values := hvalues.2 (hname ▸ hstate)
        have hmanaged : fresh.active.contains state.name = true := by
          rw [← h.states, hname]
          exact Table.contains_iff.2 ⟨state, hstate⟩
        exact ⟨state, List.mem_filter.2 ⟨hvalue, Bool.and_eq_true_iff.2 ⟨hmanaged, h.known hstate⟩⟩,
          by rw [hname]⟩
    · rw [h.states]
      exact hname
  exact ⟨hrestore, h.vaults.symm, hactive⟩

/-- No saved entry is dropped. -/
theorem dropped_eq_zero (h : fresh.Restorable k) (time : Instant) :
    fresh.registry.dropped (k.savedState time).registry = 0 := by
  rw [← h.setup]
  exact (Registry.restore_saved h.consistent h.defaults).2

/-- Only the books matter. -/
theorem of_books (h : fresh.Restorable k) (hbooks : k.SameBooks k') : fresh.Restorable k' := by
  refine ⟨hbooks.vaults.trans h.vaults, hbooks.registry ▸ h.setup, hbooks.registry ▸ h.consistent,
    hbooks.registry ▸ h.defaults, hbooks.active ▸ h.states, fun {name state} hstate => ?_,
    fun {name state} hstate => ?_⟩
  · rw [hbooks.vaultState?_eq] at hstate
    exact h.named hstate
  · rw [hbooks.vaultState?_eq] at hstate
    rw [hbooks.registry]
    exact h.known hstate

/-- Of the fresh keeper, too. -/
theorem of_fresh_books {fresh' : Keeper} (h : fresh.Restorable k)
    (hbooks : fresh.SameBooks fresh') : fresh'.Restorable k := by
  refine { h with vaults := ?_, setup := ?_, states := ?_ }
  · rw [hbooks.vaults]
    exact h.vaults
  · rw [hbooks.registry]
    exact h.setup
  · rw [hbooks.active]
    exact h.states

/-- A new keeper has everything in common with itself. -/
theorem start {c : Config} {r : Registry} (h : Registry.ofConfig c = .ok r) :
    (new r c.vaults).Restorable (new r c.vaults) where
  vaults := rfl
  setup := Registry.setup_of_config h
  consistent := (Registry.Reached.of_config h).consistent
  defaults profile tokens state hstate := by
    have hnone : r.defaults = ∅ := (congrArg Registry.defaults (Registry.setup_of_config h)).symm
    rw [new, hnone] at hstate
    cases hstate
  states _ := rfl
  named hstate := by
    obtain ⟨rfl, -⟩ := vaultState?_new hstate
    rfl
  known hstate := by
    obtain ⟨rfl, -⟩ := vaultState?_new hstate
    rfl

/-- The registry may change as long as nothing is taken away from it. -/
theorem setRegistry (h : fresh.Restorable k) {r : Registry} (hsetup : r.setup = k.registry.setup)
    (hconsistent : r.Consistent) (hdefaults : r.DefaultsKnown) (hev : k.registry.Evolves r) :
    fresh.Restorable { k with registry := r } where
  vaults := h.vaults
  setup := hsetup.trans h.setup
  consistent := hconsistent
  defaults := hdefaults
  states := h.states
  named := h.named
  known {name state} hstate := by
    have hknown := h.known hstate
    unfold knowsStrategy at hknown ⊢
    cases hactive : state.activeStrategy with
    | none => rfl
    | some hash =>
      rw [hactive] at hknown
      exact hev.contains_strategy hknown

/-- Planning keeps what is in common. -/
theorem planVault (h : fresh.Restorable k) (v : VaultConfig) (l : Ledger) :
    fresh.Restorable (k.planVault v l).1 := by
  have hselected := h.setRegistry (Registry.setup_select k.registry v.riskProfile v.asset)
    (h.consistent.after _) (h.defaults.after trivial) (Registry.evolves_after _ _)
  obtain ⟨hvaults, hactive⟩ := active_planVault k v l
  exact hselected.of_books ⟨registry_planVault k v l, hvaults, hactive⟩

/-- Submitting a plan keeps what is in common: its strategy is registered. -/
theorem submit (h : fresh.Restorable k) {v : VaultConfig} {l : Ledger} {p : Plan}
    (hp : Planned k.registry v l p) {σ : Type} (env : Environment σ) (s : σ) :
    fresh.Restorable (Keeper.submit env v k p s).1.1 := by
  obtain ⟨hregistry, hvaults⟩ := registry_submit env v k p s
  obtain ⟨earlier, choice, -, hled⟩ := hp.led
  refine ⟨hvaults.trans h.vaults, hregistry ▸ h.setup, hregistry ▸ h.consistent,
    hregistry ▸ h.defaults, fun name => ?_, fun {name state} hstate => ?_,
    fun {name state} hstate => ?_⟩
  · rw [← h.states]
    change ((Keeper.submit env v k p s).1.1.vaultState? name).isSome = (k.vaultState? name).isSome
    rw [vaultState?_submit]
    split
    · exact Option.isSome_map
    · rfl
  · obtain ⟨before, hbefore, rfl | ⟨-, rfl⟩⟩ := submit_cases hstate
    · exact h.named hbefore
    · exact (before.name_after ⟨nextBatch env v p s, _⟩).trans (h.named hbefore)
  · rw [hregistry]
    obtain ⟨before, hbefore, rfl | ⟨-, rfl⟩⟩ := submit_cases hstate
    · exact h.known hbefore
    · have hafter := before.activeStrategy_after
        ⟨nextBatch env v p s, (answer env v p s).1.map (·.status)⟩
      rw [knowsStrategy, hafter]
      split
      · have hregistered : k.registry.strategies.contains p.strategy = true := by
          rw [hled.strategy]
          exact hled.registered
        exact hregistered
      · exact h.known hbefore

end Restorable

end Keeper

/-- **Every keeper in operation has everything in common with a new one** that a restart needs, by
induction on what has happened to it. -/
theorem Operated.restorable {c : Config} {r : Registry} {k : Keeper} (hk : Operated c k)
    (h : Registry.ofConfig c = .ok r) : (Keeper.new r c.vaults).Restorable k := by
  induction hk with
  | start h' =>
    cases h.symm.trans h'
    exact .start h
  | equip _ hbooks ih => exact ih.of_books hbooks
  | cycle _ env l s ih =>
    exact Keeper.runCycle_induction (fun hbooks hk => hk.of_books hbooks)
      (fun _ hk => hk.planVault _ _) (fun _ hp hk => hk.submit hp env _) ih
  | operate _ hrole hcmd ih =>
    rw [Registry.perform, ite_error_eq_ok] at hcmd
    exact ih.setRegistry (Registry.setup_execute hrole hcmd.2) (ih.consistent.execute hcmd.2)
      (ih.defaults.execute hcmd.2) (Registry.evolves_execute hcmd.2)

/-! ## Surroundings that agree -/

/-- **Surroundings whose answers depend on vaults and plans only.** They agree as long as they are
asked about the same vaults and plans, whatever identifiers and times they hand out in between. -/
structure Environment.Agree {σ τ : Type} (env : Environment σ) (env' : Environment τ)
    (R : σ → τ → Prop) : Prop where
  /-- They are healthy at the same time. -/
  health : ∀ {s t}, R s t → (env.isHealthy s).1 = (env'.isHealthy t).1 ∧
    R (env.isHealthy s).2 (env'.isHealthy t).2
  /-- Handing out an identifier on the one side makes no difference. -/
  nextId : ∀ {s t}, R s t → R (env.nextId s).2 t
  /-- Neither does it on the other side. -/
  nextId' : ∀ {s t}, R s t → R s (env'.nextId t).2
  /-- Telling the time on the one side makes no difference. -/
  now : ∀ {s t}, R s t → R (env.now s).2 t
  /-- Neither does it on the other side. -/
  now' : ∀ {s t}, R s t → R s (env'.now t).2
  /-- Batches of the same plan for the same vault are answered alike. -/
  execute : ∀ {s t b b'}, R s t → b'.vault = b.vault → b'.plan = b.plan →
    (env.execute b s).1.map (·.status) = (env'.execute b' t).1.map (·.status) ∧
      R (env.execute b s).2 (env'.execute b' t).2

/-- It makes no difference on which side the time was told. -/
theorem Environment.Agree.of_now {σ τ : Type} {env : Environment σ} {env' : Environment τ}
    {R : σ → τ → Prop} (h : env.Agree env' R) {s s' : σ} {t t' : τ} (hR : R s t)
    (hs : s' = s ∨ s' = (env.now s).2) (ht : t' = t ∨ t' = (env'.now t).2) : R s' t' := by
  have hleft : R s' t := by
    rcases hs with rfl | rfl
    · exact hR
    · exact h.now hR
  rcases ht with rfl | rfl
  · exact hleft
  · exact h.now' hleft

/-- What of a submission depends neither on identifiers nor on times. -/
def Submission.outline (x : Submission) : String × Plan × Option ExecutionStatus :=
  (x.batch.vault, x.batch.plan, x.answer)

/-- What of a vault state does not depend on identifiers: whether there was a batch is part of it,
which one it was is not. -/
def VaultState.outline (state : VaultState) : String × Option Digest × Bool :=
  (state.name, state.activeStrategy, state.lastBatch.isSome)

/-- Watching surroundings that agree, they agree also on what is handed over. -/
theorem Environment.Agree.watched {σ τ : Type} {env : Environment σ} {env' : Environment τ}
    {R : σ → τ → Prop} (h : env.Agree env' R) : env.watched.Agree env'.watched fun s t =>
      R s.1 t.1 ∧ t.2.map Submission.outline = s.2.map Submission.outline where
  health := fun {s t} ⟨hR, hlog⟩ => ⟨(h.health hR).1, (h.health hR).2, hlog⟩
  nextId := fun {s t} ⟨hR, hlog⟩ => ⟨h.nextId hR, hlog⟩
  nextId' := fun {s t} ⟨hR, hlog⟩ => ⟨h.nextId' hR, hlog⟩
  now := fun {s t} ⟨hR, hlog⟩ => ⟨h.now hR, hlog⟩
  now' := fun {s t} ⟨hR, hlog⟩ => ⟨h.now' hR, hlog⟩
  execute := by
    rintro ⟨s, log⟩ ⟨t, log'⟩ b b' ⟨hR, hlog⟩ hvault hplan
    obtain ⟨hanswer, hafter⟩ := h.execute hR hvault hplan
    have hlast : Submission.outline ⟨b', (env'.execute b' t).1.map (·.status)⟩ =
        Submission.outline ⟨b, (env.execute b s).1.map (·.status)⟩ := by
      simp only [Submission.outline, hvault, hplan, hanswer]
    refine ⟨hanswer, hafter, ?_⟩
    simp only [Environment.watched, List.map_append, List.map_singleton, hlast]
    rw [hlog]

namespace VaultState

variable {a a' : VaultState}

/-- What a vault runs is part of its outline. -/
theorem activeStrategy_of_outline (h : a'.outline = a.outline) :
    a'.activeStrategy = a.activeStrategy :=
  congrArg (fun x : String × Option Digest × Bool => x.2.1) h

/-- Vaults that look alike look alike after the same answer to the same plan. -/
theorem outline_after (h : a'.outline = a.outline) {b b' : Batch} (hplan : b'.plan = b.plan)
    (x : Option ExecutionStatus) : (a'.after b' x).outline = (a.after b x).outline := by
  cases x with
  | none => exact h
  | some status =>
    simp only [outline, Prod.mk.injEq] at h
    obtain ⟨hname, hactive, -⟩ := h
    simp only [outline, after, hname, hactive, hplan, Option.isSome_some]

end VaultState

namespace Keeper

/-- After a submission the surroundings are as they were after the answer, but for the time that was
told to log it. -/
theorem surroundings_submit {σ : Type} (env : Environment σ) (v : VaultConfig) (k : Keeper)
    (p : Plan) (s : σ) : (submit env v k p s).2 = (answer env v p s).2 ∨
      (submit env v k p s).2 = (env.now (answer env v p s).2).2 := by
  rw [submit_eq]
  cases answer env v p s with
  | mk x s' =>
    cases x with
    | none => exact .inl rfl
    | some o => exact .inr rfl

/-- Saving asks the surroundings for the time only. -/
theorem surroundings_persist {σ : Type} (env : Environment σ) (k : Keeper) (s : σ) :
    (persist env k s).2 = s ∨ (persist env k s).2 = (env.now s).2 := by
  unfold persist
  cases k.storage with
  | none => exact .inl rfl
  | some storage => exact .inr rfl

/-- **Two keepers that differ in identifiers, counts, flags and files only.** -/
structure Alike (k k' : Keeper) : Prop where
  /-- The registry is the same. -/
  registry : k'.registry = k.registry
  /-- The vaults are the same. -/
  vaults : k'.vaults = k.vaults
  /-- Vaults run the same, and have had a batch or not. -/
  states : ∀ name, (k'.vaultState? name).map VaultState.outline =
    (k.vaultState? name).map VaultState.outline

variable {σ τ : Type} {k k' j j' : Keeper}

/-- Keepers with the same books are alike. -/
theorem SameBooks.alike (h : k.SameBooks k') : k.Alike k' :=
  ⟨h.registry, h.vaults, fun name => by rw [h.vaultState?_eq]⟩

/-- Only the books matter. -/
theorem Alike.of_books (h : k.Alike k') (hk : k.SameBooks j) (hk' : k'.SameBooks j') :
    j.Alike j' := by
  refine ⟨?_, ?_, fun name => ?_⟩
  · rw [hk.registry, hk'.registry]
    exact h.registry
  · rw [hk.vaults, hk'.vaults]
    exact h.vaults
  · rw [hk.vaultState?_eq, hk'.vaultState?_eq]
    exact h.states name

/-- Either keeper has a state of a vault, or neither has one. -/
theorem Alike.state_cases (h : k.Alike k') (name : String) :
    k.vaultState? name = none ∧ k'.vaultState? name = none ∨
      ∃ a a', k.vaultState? name = some a ∧ k'.vaultState? name = some a' ∧
        a'.outline = a.outline := by
  have hstate := h.states name
  cases hk : k.vaultState? name with
  | none =>
    rw [hk, Option.map_none, Option.map_eq_none_iff] at hstate
    exact .inl ⟨rfl, hstate⟩
  | some a =>
    rw [hk, Option.map_some] at hstate
    obtain ⟨a', ha', houtline⟩ := Option.map_eq_some_iff.1 hstate
    exact .inr ⟨a, a', rfl, ha', houtline⟩

/-- **Keepers that are alike make the same plans**, and are alike afterwards. -/
theorem Alike.planVault (h : k.Alike k') (v : VaultConfig) (l : Ledger) :
    (k.planVault v l).2.1 = (k'.planVault v l).2.1 ∧
      (k.planVault v l).1.Alike (k'.planVault v l).1 := by
  have hcurrent : (k'.vaultState? v.name).bind (·.activeStrategy) =
      (k.vaultState? v.name).bind (·.activeStrategy) := by
    rcases h.state_cases v.name with ⟨hk, hk'⟩ | ⟨a, a', hk, hk', houtline⟩
    · rw [hk, hk']
    · rw [hk, hk']
      exact VaultState.activeStrategy_of_outline houtline
  cases hbest : k.registry.bestStrategy v.riskProfile v.asset with
  | error e =>
    obtain ⟨hbooks, hplans⟩ := planVault_of_error (l := l) hbest
    obtain ⟨hbooks', hplans'⟩ := planVault_of_error (l := l) (h.registry ▸ hbest)
    exact ⟨hplans.trans hplans'.symm, h.of_books hbooks hbooks'⟩
  | ok x =>
    obtain ⟨choice, r⟩ := x
    obtain ⟨hbooks, hplans⟩ := planVault_of_ok (l := l) hbest
    obtain ⟨hbooks', hplans'⟩ := planVault_of_ok (l := l) (h.registry ▸ hbest)
    rw [hcurrent] at hplans'
    have hselected : { k with registry := r }.Alike { k' with registry := r } :=
      ⟨rfl, h.vaults, h.states⟩
    exact ⟨hplans.trans hplans'.symm, hselected.of_books hbooks hbooks'⟩

/-- The same answer to the same plan leaves two keepers alike. -/
theorem Alike.heard (h : k.Alike k') (b b' : Batch) (hvault : b'.vault = b.vault)
    (hplan : b'.plan = b.plan) (x : Option ExecutionStatus) :
    (k.heard b x).Alike (k'.heard b' x) := by
  obtain ⟨hregistry, hvaults⟩ := registry_heard k b x
  obtain ⟨hregistry', hvaults'⟩ := registry_heard k' b' x
  refine ⟨?_, ?_, fun name => ?_⟩
  · rw [hregistry, hregistry']
    exact h.registry
  · rw [hvaults, hvaults']
    exact h.vaults
  · rw [vaultState?_heard, vaultState?_heard, hvault]
    split
    · rcases h.state_cases name with ⟨hk, hk'⟩ | ⟨a, a', hk, hk', houtline⟩
      · rw [hk, hk']
        rfl
      · rw [hk, hk']
        exact congrArg some (VaultState.outline_after houtline hplan x)
    · exact h.states name

/-- **In surroundings that agree, keepers that are alike stay alike.** -/
theorem lockstep_alike {env : Environment σ} {env' : Environment τ} {R : σ → τ → Prop}
    (hR : env.Agree env' R) : Lockstep env env' fun k s k' t => k.Alike k' ∧ R s t where
  vaults := by
    rintro k s k' t ⟨halike, -⟩
    exact halike.vaults
  health := by
    rintro k s k' t ⟨halike, hs⟩
    obtain ⟨hhealthy, hnext⟩ := hR.health hs
    exact ⟨hhealthy, ⟨halike.registry, halike.vaults, halike.states⟩, hnext⟩
  plan := by
    rintro k s k' t v l - ⟨halike, hs⟩
    obtain ⟨hplans, hplanned⟩ := halike.planVault v l
    exact ⟨hplans, hplanned, hs⟩
  submit := by
    rintro k s k' t v l p - - ⟨halike, hs⟩
    have hasked : R (env.now (env.nextId s).2).2 (env'.now (env'.nextId t).2).2 :=
      hR.now' (hR.now (hR.nextId' (hR.nextId hs)))
    have hanswers : (answer env v p s).1.map (·.status) = (answer env' v p t).1.map (·.status) ∧
        R (answer env v p s).2 (answer env' v p t).2 := hR.execute hasked rfl rfl
    have hheard := halike.heard (nextBatch env v p s) (nextBatch env' v p t) rfl rfl
      ((answer env v p s).1.map (·.status))
    refine ⟨hheard.of_books (sameBooks_submit env v k p s) ?_, ?_⟩
    · rw [hanswers.1]
      exact sameBooks_submit env' v k' p t
    · exact hR.of_now hanswers.2 (surroundings_submit env v k p s)
        (surroundings_submit env' v k' p t)
  finish := by
    rintro k s k' t ⟨halike, hs⟩
    have hbooks := (sameBooks_count k (·.countCycle)).trans (sameBooks_persist env _ s)
    have hbooks' := (sameBooks_count k' (·.countCycle)).trans (sameBooks_persist env' _ t)
    exact ⟨halike.of_books hbooks hbooks',
      hR.of_now hs (surroundings_persist env _ s) (surroundings_persist env' _ t)⟩

/-- Saving leaves the state of the keeper in the file, where there is one. -/
theorem state_persist {env : Environment σ} {s : σ} {files : Storage}
    (h : (persist env k s).1.storage = some files) :
    files.state.current = some ((persist env k s).1.savedState (env.now s).1).bytes := by
  unfold persist at h ⊢
  cases hstorage : k.storage with
  | none =>
    rw [hstorage] at h
    cases hstorage.symm.trans h
  | some storage =>
    rw [hstorage] at h
    cases h
    rfl

/-- **A cycle ends with saving its state**: that is what the file then holds, with the time of the
clock. -/
theorem state_runCycle {env : Environment σ} {l : Ledger} {s : σ} {files : Storage}
    (hhealthy : (env.isHealthy s).1 = true)
    (h : (runCycle env l k s).1.1.storage = some files) :
    ∃ s', files.state.current =
      some ((runCycle env l k s).1.1.savedState (env.now s').1).bytes := by
  rw [runCycle_eq, if_pos hhealthy] at h ⊢
  exact ⟨_, state_persist h⟩

end Keeper

/-- **Restarts are transparent.** A keeper in operation saves its state into a file, and a fresh
keeper of the same configuration that starts with this file goes on as if nothing had happened. In
surroundings whose answers depend on vaults and plans only, it submits the same plans in the same
order, and its vaults run the same in the end; only identifiers and times may differ. -/
theorem restarts_are_transparent {σ τ : Type} (c : Config) (r : Registry)
    (hc : Registry.ofConfig c = .ok r) (k : Keeper) (hk : Operated c k) (fresh : Keeper)
    (hfresh : (Keeper.new r c.vaults).SameBooks fresh) (time : Instant) (env : Environment σ)
    (env' : Environment τ) (R : σ → τ → Prop) (hR : env.Agree env' R) (s : σ) (t : τ)
    (hst : R s t) (ls : List Ledger) :
    -- What a cycle leaves in the state file is the state at its end, and a keeper that starts with
    -- this file takes it over.
    (∀ l files, (env.isHealthy s).1 = true → (k.runCycle env l s).1.1.storage = some files →
      ∃ s', files.state.current =
          some ((k.runCycle env l s).1.1.savedState (env.now s').1).bytes ∧
        ((env.now s').1.Proper → fresh.resume files.state =
          .ok (fresh.restarted (k.runCycle env l s).1.1 (env.now s').1))) ∧
    (time.Proper → ∀ f : StateFile,
      fresh.resume (f.save (k.savedState time)) = .ok (fresh.restarted k time)) ∧
    -- Restoring a state drops nothing, and brings back the registry and every vault state.
    fresh.registry.dropped (k.savedState time).registry = 0 ∧
    k.SameBooks (fresh.restarted k time) ∧
    (∀ profile asset, (fresh.restarted k time).registry.bestStrategy profile asset =
      k.registry.bestStrategy profile asset) ∧
    Operated c (fresh.restarted k time) ∧
    -- From then on the same plans are submitted in the same order, to the same effect.
    ∃ k₁ s₁ log k₂ t₂ log', k.runCycles env ls s = (k₁, s₁) ∧
      k.runCycles env.watched ls (s, []) = (k₁, s₁, log) ∧
      (fresh.restarted k time).runCycles env' ls t = (k₂, t₂) ∧
      (fresh.restarted k time).runCycles env'.watched ls (t, []) = (k₂, t₂, log') ∧
      log'.map Submission.outline = log.map Submission.outline ∧ k₁.Alike k₂ ∧ R s₁ t₂ := by
  have hrestorable := (hk.restorable hc).of_fresh_books hfresh
  have hbooks := hrestorable.sameBooks_restarted time
  refine ⟨fun l files hhealthy hfiles => ?_, fun htime f => Keeper.resume_eq htime rfl,
    hrestorable.dropped_eq_zero time, hbooks, fun profile asset => by rw [hbooks.registry],
    .equip hk hbooks, ?_⟩
  · obtain ⟨s', hcurrent⟩ := Keeper.state_runCycle hhealthy hfiles
    exact ⟨s', hcurrent, fun htime => Keeper.resume_eq htime hcurrent⟩
  -- Watching changes neither run, and the watched runs go in lockstep.
  obtain ⟨log, hwatched, -⟩ := k.runCycles_watched env ls s
  obtain ⟨log', hwatched', -⟩ := (fresh.restarted k time).runCycles_watched env' ls t
  obtain ⟨halike, hagree, hlogs⟩ := (Keeper.lockstep_alike hR.watched).runCycles ls
    ⟨hbooks.alike, hst, rfl⟩ (s := (s, [])) (t := (t, []))
  rw [hwatched, hwatched'] at halike hagree hlogs
  exact ⟨_, _, log, _, _, log', rfl, hwatched, rfl, hwatched', hlogs, halike, hagree⟩

namespace Served

/-- An executor that applies every batch, under other identifiers. -/
def renumbered : Environment Unit := { applies with nextId := return .ofNat 2 }

/-- Both executors apply whatever they are given. -/
theorem agree_renumbered : applies.Agree renumbered fun _ _ => True where
  health _ := ⟨rfl, trivial⟩
  nextId _ := trivial
  nextId' _ := trivial
  now _ := trivial
  now' _ := trivial
  execute _ _ _ := ⟨rfl, trivial⟩

/-- A keeper that is restarted from the file of another one still runs the deposit, and goes on as
the other one does, although its executor numbers the batches anew. -/
theorem treasury_restarted :
    Registry.ofConfig (deployment "reserve" (.ofNat 7)) = .ok deployed ∧
    Operated (deployment "reserve" (.ofNat 7)) (cycled "reserve" (.ofNat 7)) ∧
    (Keeper.new deployed (deployment "reserve" (.ofNat 7)).vaults).SameBooks
      (keeper "reserve" (.ofNat 7)) ∧
    applies.Agree renumbered (fun _ _ => True) ∧
    ∃ restarted, (keeper "reserve" (.ofNat 7)).resume
        (({} : StateFile).save ((cycled "reserve" (.ofNat 7)).savedState ⟨0, 0⟩)) = .ok restarted ∧
      restarted.vaultState? "treasury" =
        some ⟨"treasury", some strategy.hash, some (.ofNat 1)⟩ ∧
      ∃ k₁ k₂, (cycled "reserve" (.ofNat 7)).runCycles applies [ledger] () = (k₁, ()) ∧
        restarted.runCycles renumbered [ledger] () = (k₂, ()) ∧ k₁.Alike k₂ := by
  have hconfig := ofConfig_deployment "reserve" (.ofNat 7)
  have hoperated : Operated (deployment "reserve" (.ofNat 7)) (cycled "reserve" (.ofNat 7)) := by
    rw [cycled]
    exact .cycle (.start hconfig) applies ledger ()
  have hfresh : (Keeper.new deployed (deployment "reserve" (.ofNat 7)).vaults).SameBooks
      (keeper "reserve" (.ofNat 7)) := .refl _
  obtain ⟨-, hresumed, -, hbooks, -, -, k₁, s₁, log, k₂, t₂, log', hrun, -, hrun', -, -, halike,
    -⟩ := restarts_are_transparent _ deployed hconfig _ hoperated _ hfresh ⟨0, 0⟩ applies renumbered
      (fun _ _ => True) agree_renumbered () () trivial [ledger]
  refine ⟨hconfig, hoperated, hfresh, agree_renumbered, _,
    hresumed ⟨by decide, by decide, by decide⟩ {}, ?_, k₁, k₂, hrun, hrun', halike⟩
  rw [hbooks.vaultState?_eq]
  exact (vaultState?_cycled "reserve" (.ofNat 7) (by decide)).2

end Served

end VaultKeeper
