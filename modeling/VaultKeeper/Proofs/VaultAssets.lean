import VaultKeeper.Proofs.Submissions

/-! # Vault assets

What a managed vault runs is a strategy over the vault's own asset, through any number of cycles,
commands and restarts. The selection for a vault is over its asset, a submission only moves its own
vault, and a restart registers what the saved vaults run. Vault states are kept by name, so all of
this speaks of names: vaults that share their name share their state, and need to share their
asset. -/

namespace VaultKeeper

/-! ## Kept keepers -/

/-- **A keeper that some run of a configuration leads to.** A run hashes only what a vocabulary
holds. It may stop between any two submissions. -/
inductive Kept (V : Vocabulary) (c : Config) : Keeper → Prop
  /-- A new keeper of the configured vaults. -/
  | start {r : Registry} (h : Registry.ofConfig c = .ok r) : Kept V c (.new r c.vaults)
  /-- Counts, flags and files change. -/
  | equip {k k' : Keeper} (hk : Kept V c k) (h : k.SameBooks k') : Kept V c k'
  /-- Plans are made for a vault, and the first few of them are submitted to some executor. -/
  | serve {σ : Type} {k : Keeper} {v : VaultConfig} (hk : Kept V c k) (hv : v ∈ k.vaults)
      (hs : ∀ s ∈ k.registry.computed v.riskProfile v.asset, V.strategies s)
      (env : Environment σ) (l : Ledger) (n : Nat) (s : σ) :
      Kept V c (Keeper.submitAll env v (k.planVault v l).1 ((k.planVault v l).2.1.take n) s).1.1
  /-- A caller who holds the role carries out a command. -/
  | command {k : Keeper} {caller : Address} {cmd : Command} {r : Registry} (hk : Kept V c k)
      (hs : ∀ s ∈ cmd.strategies, V.strategies s) (ha : ∀ a ∈ cmd.assets, V.assets a)
      (h : k.registry.perform caller cmd = .ok r) : Kept V c { k with registry := r }
  /-- The state that a run has saved is restored. -/
  | restore {k earlier : Keeper} (hk : Kept V c k) (he : Kept V c earlier) (t : Instant) :
      Kept V c (k.restore (earlier.savedState t).registry (earlier.savedState t).vaults)

namespace Registry

/-- The selections of a list of vaults hash only what a vocabulary holds. -/
def SelectsWithin (V : Vocabulary) : Registry → List VaultConfig → Prop
  | _, [] => True
  | r, v :: rest => (∀ s ∈ r.computed v.riskProfile v.asset, V.strategies s) ∧
    (r.after (.select v.riskProfile v.asset)).SelectsWithin V rest

/-- A digest names a registered strategy over an asset. -/
def Names (r : Registry) (hash : Digest) (asset : Address) : Prop :=
  ∃ s, r.strategies.get? hash = some s ∧ s.underlying = asset

/-- What is registered stays so. -/
theorem Names.extend {r r' : Registry} {hash : Digest} {asset : Address} (h : r.Names hash asset)
    (hext : r.Extends r') : r'.Names hash asset := by
  obtain ⟨s, hs, hasset⟩ := h
  exact ⟨s, hext _ _ hs, hasset⟩

end Registry

variable {V : Vocabulary} {c : Config} {σ : Type} {k : Keeper} {v : VaultConfig}

/-- Serving vaults keeps a keeper on the run. -/
theorem Kept.serveVaults (hk : Kept V c k) {vs : List VaultConfig}
    (hvs : ∀ v ∈ vs, v ∈ k.vaults) (hs : k.registry.SelectsWithin V vs) (env : Environment σ)
    (l : Ledger) (s : σ) : Kept V c (Keeper.serveVaults env l k vs s).1.1 := by
  induction vs generalizing k s with
  | nil => exact hk
  | cons v rest ih =>
    have hserved := Kept.serve hk (hvs v List.mem_cons_self) hs.1 env l
      (k.planVault v l).2.1.length s
    rw [List.take_length] at hserved
    obtain ⟨hregistry, hvaults⟩ := Keeper.registry_serveVault env l k v s
    refine ih hserved (fun w hw => ?_) ?_ _
    · have hmember := hvs w (List.mem_cons_of_mem _ hw)
      rw [← hvaults] at hmember
      exact hmember
    · have hrest := hs.2
      rw [← Keeper.registry_planVault k v l, ← hregistry] at hrest
      exact hrest

/-- **A cycle keeps a keeper on the run**, whatever the executor answers. -/
theorem Kept.runCycle (hk : Kept V c k) (hs : k.registry.SelectsWithin V k.vaults)
    (env : Environment σ) (l : Ledger) (s : σ) : Kept V c (k.runCycle env l s).1.1 := by
  rw [Keeper.runCycle_eq]
  have hflagged : Kept V c
      { k with health := { k.health with executor := (env.isHealthy s).1 } } :=
    .equip hk ⟨rfl, rfl, rfl⟩
  split
  · have hall : ∀ v ∈ k.vaults, v ∈ k.vaults := fun v hv => hv
    have hserved := hflagged.serveVaults hall hs env l (env.isHealthy s).2
    exact .equip hserved
      ((Keeper.sameBooks_count _ _).trans (Keeper.sameBooks_persist env _ _))
  · exact hflagged

/-! ## What vaults run -/

/-- **What holds of every keeper on a run.** -/
structure Keeper.RunsOwn (V : Vocabulary) (c : Config) (k : Keeper) : Prop where
  /-- It manages the configured vaults. -/
  vaults : k.vaults = c.vaults
  /-- Its registry is reachable. -/
  reachable : Reachable V k.registry
  /-- Vault states are kept by name. -/
  named : ∀ {name state}, k.vaultState? name = some state → state.name = name
  /-- What a vault runs is registered and over the vault's asset. -/
  runs : ∀ v ∈ c.vaults, ∀ state hash, k.vaultState? v.name = some state →
    state.activeStrategy = some hash → k.registry.Names hash v.asset

namespace Keeper.RunsOwn

/-- The registry may change as long as it stays reachable and keeps its strategies. -/
theorem of_extends {r : Registry} (h : k.RunsOwn V c) (hr : Reachable V r)
    (hext : k.registry.Extends r) : { k with registry := r }.RunsOwn V c where
  vaults := h.vaults
  reachable := hr
  named := h.named
  runs v hv state hash hstate hactive := (h.runs v hv state hash hstate hactive).extend hext

/-- Only the books matter. -/
theorem of_books {k' : Keeper} (h : k.RunsOwn V c) (hbooks : k.SameBooks k') :
    k'.RunsOwn V c := by
  refine ⟨hbooks.vaults.trans h.vaults, hbooks.registry ▸ h.reachable,
    fun {name state} hstate => ?_, fun v hv state hash hstate hactive => ?_⟩
  · rw [hbooks.vaultState?_eq] at hstate
    exact h.named hstate
  · rw [hbooks.vaultState?_eq] at hstate
    rw [hbooks.registry]
    exact h.runs v hv state hash hstate hactive

/-- A new keeper's vaults run nothing. -/
theorem start {r : Registry} (h : Registry.ofConfig c = .ok r) : (new r c.vaults).RunsOwn V c where
  vaults := rfl
  reachable := .config h
  named hstate := by
    obtain ⟨rfl, -⟩ := vaultState?_new hstate
    rfl
  runs v _ state hash hstate hactive := by
    obtain ⟨rfl, -⟩ := vaultState?_new hstate
    cases hactive

/-- **Submitting a plan over the vault's asset keeps every vault with its asset.** The vaults of its
name are those that it may move, and they share the asset. -/
theorem submit (hnames : ∀ v ∈ c.vaults, ∀ w ∈ c.vaults, v.name = w.name → v.asset = w.asset)
    (h : k.RunsOwn V c) (hv : v ∈ c.vaults) {p : Plan}
    (hp : k.registry.Names p.strategy v.asset) (env : Environment σ) (s : σ) :
    (Keeper.submit env v k p s).1.1.RunsOwn V c := by
  obtain ⟨hregistry, hvaults⟩ := registry_submit env v k p s
  refine ⟨hvaults.trans h.vaults, hregistry ▸ h.reachable, ?_, ?_⟩
  · intro name state hstate
    obtain ⟨before, hbefore, rfl | ⟨-, rfl⟩⟩ := submit_cases hstate
    · exact h.named hbefore
    · exact (before.name_after ⟨nextBatch env v p s, _⟩).trans (h.named hbefore)
  · intro w hw state hash hstate hactive
    rw [hregistry]
    obtain ⟨before, hbefore, rfl | ⟨hname, rfl⟩⟩ := submit_cases hstate
    · exact h.runs w hw _ hash hbefore hactive
    · have hafter := before.activeStrategy_after
        ⟨nextBatch env v p s, (answer env v p s).1.map (·.status)⟩
      rw [hafter] at hactive
      split at hactive
      · cases hactive
        rw [← hnames v hv w hw hname]
        exact hp
      · exact h.runs w hw before hash hbefore hactive

/-- Submitting a number of such plans keeps every vault with its asset. -/
theorem submitAll (hnames : ∀ v ∈ c.vaults, ∀ w ∈ c.vaults, v.name = w.name → v.asset = w.asset)
    (h : k.RunsOwn V c) (hv : v ∈ c.vaults) {plans : List Plan}
    (hplans : ∀ p ∈ plans, k.registry.Names p.strategy v.asset) (env : Environment σ) (s : σ) :
    (Keeper.submitAll env v k plans s).1.1.RunsOwn V c := by
  induction plans generalizing k s with
  | nil => exact h
  | cons p rest ih =>
    have hfirst := h.submit hnames hv (hplans p List.mem_cons_self) env s
    have hrest : ∀ q ∈ rest, (Keeper.submit env v k p s).1.1.registry.Names q.strategy v.asset := by
      rw [(registry_submit env v k p s).1]
      exact fun q hq => hplans q (List.mem_cons_of_mem _ hq)
    exact ih hfirst hrest _

/-- **Planning leads to strategies over the vault's asset.** -/
theorem planVault (hV : V.CollisionFree) (h : k.RunsOwn V c) (ha : V.assets v.asset)
    (hs : ∀ s ∈ k.registry.computed v.riskProfile v.asset, V.strategies s) (l : Ledger) :
    (k.planVault v l).1.RunsOwn V c ∧
      ∀ p ∈ (k.planVault v l).2.1, (k.planVault v l).1.registry.Names p.strategy v.asset := by
  cases hbest : k.registry.bestStrategy v.riskProfile v.asset with
  | error e =>
    obtain ⟨hbooks, hplans⟩ := planVault_of_error (l := l) hbest
    rw [hplans]
    exact ⟨h.of_books hbooks, fun p hp => absurd hp List.not_mem_nil⟩
  | ok x =>
    obtain ⟨choice, r⟩ := x
    obtain ⟨hbooks, hplans⟩ := planVault_of_ok (l := l) hbest
    have hext : k.registry.Extends r := by
      have hkept := (Registry.evolves_after k.registry (.select v.riskProfile v.asset)).strategies
      rw [Registry.after_select, hbest] at hkept
      exact hkept
    obtain ⟨-, s, hfound, hasset, -⟩ :=
      (h.reachable.sound hV).selected hV hs ha hbest
    refine ⟨(h.of_extends (.change h.reachable (.select hs ha hbest)) hext).of_books hbooks,
      fun p hp => ?_⟩
    rw [hplans, List.mem_filterMap] at hp
    obtain ⟨a, ha, hp⟩ := hp
    rw [hbooks.registry, (led_of_attempt ha hp).strategy]
    exact ⟨s, hfound, hasset⟩

/-- **A restart keeps every vault with its asset**: what the saved vaults run was registered when it
was saved, and is registered again. -/
theorem restore (hV : V.CollisionFree) {earlier : Keeper} (h : k.RunsOwn V c)
    (he : earlier.RunsOwn V c) (t : Instant) :
    (k.restore (earlier.savedState t).registry (earlier.savedState t).vaults).RunsOwn V c := by
  obtain ⟨-, hearlier⟩ := (h.reachable.sound hV).restore (he.reachable.sound hV) hV
  have hown : k.registry.Extends (k.registry.restore earlier.registry.saved) :=
    (Registry.evolves_after k.registry (.restore earlier.registry.saved)).strategies
  -- A saved vault state is one of the earlier keeper, under its own name.
  have hsaved : ∀ {state}, state ∈ (earlier.savedState t).vaults →
      earlier.vaultState? state.name = some state :=
    (Table.mem_values_iff he.named).1
  refine ⟨h.vaults, .restore h.reachable he.reachable, fun {name state} hstate => ?_,
    fun v hv state hash hstate hactive => ?_⟩
  · rcases restore_cases hstate with ⟨-, hname, -⟩ | hstate
    · exact hname
    · exact h.named hstate
  · rcases restore_cases hstate with ⟨hmem, hname, -⟩ | hstate
    · have hruns := he.runs v hv state hash (hname ▸ hsaved hmem) hactive
      exact hruns.extend hearlier
    · exact (h.runs v hv state hash hstate hactive).extend hown

end Keeper.RunsOwn

/-- Vaults that share their name share their asset. -/
def Config.NamesAssets (c : Config) : Prop :=
  ∀ v ∈ c.vaults, ∀ w ∈ c.vaults, v.name = w.name → v.asset = w.asset

/-- **Every keeper on a run keeps every vault with its asset**, by induction on the run. -/
theorem Kept.runsOwn (hV : V.CollisionFree) (hassets : ∀ v ∈ c.vaults, V.assets v.asset)
    (hnames : c.NamesAssets) (hk : Kept V c k) : k.RunsOwn V c := by
  induction hk with
  | start h => exact .start h
  | equip hk h ih => exact ih.of_books h
  | @serve σ k v hk hv hs env l n s ih =>
    have hmember : v ∈ c.vaults := ih.vaults ▸ hv
    obtain ⟨hplanned, hplans⟩ := ih.planVault hV (hassets v hmember) hs l
    exact hplanned.submitAll hnames hmember (fun p hp => hplans p (List.mem_of_mem_take hp)) env s
  | @command k caller cmd r hk hs ha h ih =>
    have hexecuted := h
    rw [Registry.perform, ite_error_eq_ok] at hexecuted
    exact ih.of_extends (.change ih.reachable (.perform hs ha h))
      (Registry.evolves_execute hexecuted.2).strategies
  | restore hk he t ih ihe => exact ih.restore hV ihe t

/-- **Every managed vault runs a strategy for its own asset.** At every point of every run, whatever
executors answer, whoever changes the registry, and however often saved states are restored, the
active strategy of a configured vault is registered and over the asset of the vault. This takes that
vaults which share their name share their asset, and that the hash function does not collide on what
the run hashes. -/
theorem vaults_run_their_own_asset (V : Vocabulary) (hV : V.CollisionFree) (c : Config)
    (hassets : ∀ v ∈ c.vaults, V.assets v.asset) (hnames : c.NamesAssets) (k : Keeper)
    (hk : Kept V c k) : k.vaults = c.vaults ∧ ∀ v ∈ c.vaults, ∀ state hash,
      k.vaultState? v.name = some state → state.activeStrategy = some hash →
      ∃ s, k.registry.strategies.get? hash = some s ∧ s.underlying = v.asset := by
  have hruns := hk.runsOwn hV hassets hnames
  exact ⟨hruns.vaults, hruns.runs⟩

namespace Served

/-- What a run of two vaults of one asset hashes. -/
def vocabulary : Vocabulary := ⟨(· = strategy), (· = .ofNat 2)⟩

/-- One strategy and one asset leave nothing to collide. -/
theorem vocabulary_collisionFree : vocabulary.CollisionFree where
  strategies := by
    rintro s t rfl rfl -
    rfl
  assets := by
    rintro a b rfl rfl -
    rfl

/-- The deposit is what the ratings select for the first vault. -/
theorem computed_treasury :
    deployed.computed treasury.riskProfile treasury.asset = some strategy := by
  have hrecords : deployed.poolRecords = [record] := List.mergeSort_singleton record
  have hcandidate : deployed.candidate? ⟨"growth", false, ⟨0, 10⟩⟩ (.ofNat 2) record =
      some ⟨record, .ofNat 4⟩ := rfl
  have hranks : deployed.rankPools ⟨"growth", false, ⟨0, 10⟩⟩ (.ofNat 2) =
      [⟨record, .ofNat 4⟩] := by
    rw [Registry.rankPools, hrecords, List.filterMap_cons, hcandidate, List.filterMap_nil]
    exact List.mergeSort_singleton _
  have hprofile : deployed.profile treasury.riskProfile = .ok ⟨"growth", false, ⟨0, 10⟩⟩ := rfl
  have hsingle : (Strategy.single (.ofNat 2) (.ofNat 4) (.ofNat 4)).toOption = some strategy := rfl
  rw [Registry.computed, if_neg (by decide), hprofile]
  simp only [show treasury.asset = .ofNat 2 from rfl, hranks]
  exact hsingle

/-- The ratings select nothing for the second vault. -/
theorem computed_other : selected.computed "steady" (.ofNat 2) = none := by
  have hrecords : selected.poolRecords = [record] := List.mergeSort_singleton record
  have hcandidate : selected.candidate? ⟨"steady", false, ⟨0, 1⟩⟩ (.ofNat 2) record = none := rfl
  have hranks : selected.rankPools ⟨"steady", false, ⟨0, 1⟩⟩ (.ofNat 2) = [] := by
    rw [Registry.rankPools, hrecords, List.filterMap_cons, hcandidate, List.filterMap_nil]
    exact List.mergeSort_nil
  have hprofile : selected.profile "steady" = .ok ⟨"steady", false, ⟨0, 1⟩⟩ := rfl
  rw [Registry.computed, hprofile]
  simp only [hranks, ite_self]

/-- The selections of the two vaults hash the deposit only. -/
theorem selectsWithin_vaults : deployed.SelectsWithin vocabulary
    (deployment "reserve" (.ofNat 2)).vaults := by
  refine ⟨fun s hs => ?_, fun s hs => ?_, trivial⟩
  · rw [computed_treasury] at hs
    exact (Option.mem_some_iff.1 hs).symm
  · rw [after_treasury] at hs
    change s ∈ selected.computed "steady" (.ofNat 2) at hs
    rw [computed_other] at hs
    cases hs

/-- A keeper that has moved the first vault runs a strategy over the asset of the vault. -/
theorem treasury_runs_own : vocabulary.CollisionFree ∧
    (∀ v ∈ (deployment "reserve" (.ofNat 2)).vaults, vocabulary.assets v.asset) ∧
    (deployment "reserve" (.ofNat 2)).NamesAssets ∧
    Kept vocabulary (deployment "reserve" (.ofNat 2)) (cycled "reserve" (.ofNat 2)) ∧
    ∃ state hash s, (cycled "reserve" (.ofNat 2)).vaultState? "treasury" = some state ∧
      state.activeStrategy = some hash ∧
      (cycled "reserve" (.ofNat 2)).registry.strategies.get? hash = some s ∧
      s.underlying = treasury.asset := by
  have hassets : ∀ v ∈ (deployment "reserve" (.ofNat 2)).vaults, v.asset = .ofNat 2 := by
    intro v hv
    rcases List.mem_cons.1 hv with rfl | hv
    · rfl
    · cases List.mem_singleton.1 hv
      rfl
  have hnames : (deployment "reserve" (.ofNat 2)).NamesAssets := fun v hv w hw _ =>
    (hassets v hv).trans (hassets w hw).symm
  have hstart : Kept vocabulary (deployment "reserve" (.ofNat 2)) (keeper "reserve" (.ofNat 2)) :=
    .start (ofConfig_deployment "reserve" (.ofNat 2))
  have hkept : Kept vocabulary (deployment "reserve" (.ofNat 2)) (cycled "reserve" (.ofNat 2)) := by
    rw [cycled]
    exact hstart.runCycle selectsWithin_vaults applies ledger ()
  obtain ⟨-, hruns⟩ := vaults_run_their_own_asset vocabulary vocabulary_collisionFree _ hassets
    hnames _ hkept
  have hstate := (vaultState?_cycled "reserve" (.ofNat 2) (by decide)).2
  obtain ⟨s, hs, hasset⟩ := hruns treasury List.mem_cons_self _ _ hstate rfl
  exact ⟨vocabulary_collisionFree, hassets, hnames, hkept, _, _, s, hstate, rfl, hs, hasset⟩

/-- Two vaults may be called alike. Then the second one runs what the first one was moved to, which
is over another asset. -/
theorem shared_name_runs_foreign_asset :
    (deployment "treasury" (.ofNat 7)).validate = .ok () ∧
    Registry.ofConfig (deployment "treasury" (.ofNat 7)) = .ok deployed ∧
    ∃ v ∈ (deployment "treasury" (.ofNat 7)).vaults, ∃ state hash s,
      (cycled "treasury" (.ofNat 7)).vaultState? v.name = some state ∧
      state.activeStrategy = some hash ∧
      (cycled "treasury" (.ofNat 7)).registry.strategies.get? hash = some s ∧
      s.underlying ≠ v.asset := by
  obtain ⟨hregistry, hstate⟩ := vaultState?_cycled "treasury" (.ofNat 7) (by decide)
  have hfound : (cycled "treasury" (.ofNat 7)).registry.strategies.get? strategy.hash =
      some strategy := by
    rw [hregistry]
    exact Registry.strategy_eq_ok.1 strategy_selected
  exact ⟨rfl, ofConfig_deployment _ _, other "treasury" (.ofNat 7),
    List.mem_cons_of_mem _ List.mem_cons_self, _, _, strategy, hstate, rfl, hfound, by decide⟩

end Served

end VaultKeeper
