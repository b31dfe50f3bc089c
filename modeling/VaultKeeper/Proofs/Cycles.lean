import VaultKeeper.Keeper
import VaultKeeper.Proofs.Consistency

/-! # Cycles

What one step of a cycle does to a keeper, and what follows for a number of cycles. A keeper plans
for a vault, hands the plans over one by one, and turns to the next vault. Planning changes what the
registry remembers and no vault state; an answer of the executor changes the state of one vault and
nothing in the registry.

Two keepers run in lockstep when each of these steps keeps what relates them. Then a number of
cycles keeps it (`Keeper.Lockstep.runCycles`), which is how runs are compared. -/

namespace VaultKeeper

/-! ## Programs over a state -/

/-- Running one program after another. -/
theorem stateM_bind {σ α β : Type} (x : StateM σ α) (f : α → StateM σ β) (s : σ) :
    (x >>= f) s = f (x s).1 (x s).2 := rfl

/-- Running a program that only returns. -/
theorem stateM_pure {σ α : Type} (a : α) (s : σ) : (pure a : StateM σ α) s = (a, s) := rfl

/-! ## Compiled plans -/

namespace Registry

variable {r : Registry} {owner : Address} {hash source : Digest} {l : Ledger} {p : Plan}

/-- A plan for rewards is labelled with what it was asked for, and its strategy is registered. -/
theorem compileRewards_eq_ok {q : RewardRequest} (h : r.compileRewards owner hash q l = .ok p) :
    p.strategy = hash ∧ p.operation = q.operation ∧ r.strategies.contains hash = true := by
  simp only [compileRewards, bind_eq_ok] at h
  obtain ⟨s, hs, route, -, groups, -, h⟩ := h
  cases h
  exact ⟨rfl, rfl, by rw [Table.contains, strategy_eq_ok.1 hs]; rfl⟩

/-- A plan for a deposit is labelled with what it was asked for, and its strategy is registered. -/
theorem depositAll_eq_ok (h : r.depositAll owner hash l = .ok p) :
    p.strategy = hash ∧ p.operation = .depositAll ∧ r.strategies.contains hash = true := by
  simp only [depositAll, compileDeposit, bind_eq_ok] at h
  obtain ⟨s, hs, route, -, x, -, h⟩ := h
  cases h
  exact ⟨rfl, rfl, by rw [Table.contains, strategy_eq_ok.1 hs]; rfl⟩

/-- A plan for a rebalance is labelled with its target, which is registered. -/
theorem rebalance_eq_ok (h : r.rebalance owner source hash l = .ok p) :
    p.strategy = hash ∧ p.operation = .rebalance ∧ r.strategies.contains hash = true := by
  simp only [rebalance, bind_eq_ok] at h
  obtain ⟨current, -, next, hnext, h⟩ := h
  split at h
  · simp only [bind_eq_ok] at h
    obtain ⟨exits, -, entries, -, x, -, h⟩ := h
    cases h
    exact ⟨rfl, rfl, by rw [Table.contains, strategy_eq_ok.1 hnext]; rfl⟩
  · cases h

end Registry

/-- What a vault runs after a batch of its own was answered; `none` when there was no answer. -/
def VaultState.after (state : VaultState) (b : Batch) : Option ExecutionStatus → VaultState
  | none => state
  | some status =>
    { state with
      activeStrategy :=
        if status = .applied && b.plan.operation.movesPosition then some b.plan.strategy
        else state.activeStrategy
      lastBatch := some b.id }

namespace Keeper

/-! ## Planning -/

/-- **A plan that a cycle makes for a vault.** The registry is the one that a selection left behind;
the plan is one of those that are attempted for what was selected, and it holds an instruction. -/
def Planned (r : Registry) (v : VaultConfig) (l : Ledger) (p : Plan) : Prop :=
  ∃ (earlier : Registry) (choice : Selection) (current : Option Digest),
    earlier.bestStrategy v.riskProfile v.asset = .ok (choice, r) ∧
    ∃ a ∈ attempts r v current choice.hash l, a.plan? = some p

/-- **What a planned plan is.** It leads to the strategy that was selected, which is registered, and
deposits into it, harvests it or moves to it from another one. -/
structure Led (r : Registry) (v : VaultConfig) (l : Ledger) (hash : Digest) (p : Plan) : Prop where
  /-- The plan holds an instruction. -/
  instructions : 0 < p.instructionCount
  /-- The plan leads to the strategy. -/
  strategy : p.strategy = hash
  /-- The strategy is registered. -/
  registered : r.strategies.contains hash = true
  /-- The plan is one of three. -/
  compiled : p.operation = .depositAll ∧ r.depositAll v.owner hash l = .ok p ∨
    p.operation = .harvestAll ∧ r.harvestAll v.owner hash l = .ok p ∨
    p.operation = .rebalance ∧ ∃ source ≠ hash, r.rebalance v.owner source hash l = .ok p

variable {σ τ : Type} {k k' : Keeper} {v : VaultConfig} {l : Ledger} {p : Plan} {r : Registry}
  {hash : Digest} {current : Option Digest}

/-- An attempt has a plan when it compiled to one with an instruction. -/
theorem Attempt.plan?_eq_some {a : Attempt} (h : a.plan? = some p) :
    a.result = .ok p ∧ 0 < p.instructionCount := by
  obtain ⟨operation, result⟩ := a
  cases result with
  | error e => cases h
  | ok found =>
    obtain ⟨hp, hnoop⟩ := Option.filter_eq_some_iff.1 h
    cases hp
    refine ⟨rfl, Nat.pos_of_ne_zero fun hzero => ?_⟩
    rw [Plan.isNoop, hzero] at hnoop
    cases hnoop

/-- **What is attempted for a vault** is a deposit into what was selected, a harvest of it, or a
rebalance from something else. -/
theorem attempt_cases {a : Attempt} (ha : a ∈ attempts r v current hash l) :
    a = ⟨.depositAll, r.depositAll v.owner hash l⟩ ∨
    a = ⟨.harvestAll, r.harvestAll v.owner hash l⟩ ∨
    ∃ source ≠ hash, a = ⟨.rebalance, r.rebalance v.owner source hash l⟩ := by
  unfold attempts at ha
  cases current with
  | none =>
    simp only [List.mem_ite_nil_right, List.mem_singleton] at ha
    exact .inl ha.2
  | some source =>
    by_cases hsame : source = hash
    · subst hsame
      simp only [ne_eq, not_true_eq_false, if_false, List.mem_append, List.mem_ite_nil_right,
        List.mem_singleton] at ha
      rcases ha with ⟨-, ha⟩ | ⟨-, ha⟩
      · exact .inr (.inl ha)
      · exact .inl ha
    · simp only [ne_eq, hsame, not_false_eq_true, if_true, List.mem_singleton] at ha
      exact .inr (.inr ⟨source, hsame, ha⟩)

/-- A plan that is attempted leads to what was selected. -/
theorem led_of_attempt {a : Attempt} (ha : a ∈ attempts r v current hash l)
    (h : a.plan? = some p) : Led r v l hash p := by
  obtain ⟨hresult, hinstructions⟩ := Attempt.plan?_eq_some h
  rcases attempt_cases ha with rfl | rfl | ⟨source, hne, rfl⟩
  · obtain ⟨hstrategy, hoperation, hknown⟩ := Registry.depositAll_eq_ok hresult
    exact ⟨hinstructions, hstrategy, hknown, .inl ⟨hoperation, hresult⟩⟩
  · obtain ⟨hstrategy, hoperation, hknown⟩ := Registry.compileRewards_eq_ok hresult
    exact ⟨hinstructions, hstrategy, hknown, .inr (.inl ⟨hoperation, hresult⟩)⟩
  · obtain ⟨hstrategy, hoperation, hknown⟩ := Registry.rebalance_eq_ok hresult
    exact ⟨hinstructions, hstrategy, hknown, .inr (.inr ⟨hoperation, source, hne, hresult⟩)⟩

/-- An attempt is labelled with the operation of its plan. -/
theorem operation_of_attempt {a : Attempt} (ha : a ∈ attempts r v current hash l)
    (h : a.plan? = some p) : p.operation = a.operation := by
  obtain ⟨hresult, -⟩ := Attempt.plan?_eq_some h
  rcases attempt_cases ha with rfl | rfl | ⟨source, -, rfl⟩
  · exact (Registry.depositAll_eq_ok hresult).2.1
  · exact (Registry.compileRewards_eq_ok hresult).2.1
  · exact (Registry.rebalance_eq_ok hresult).2.1

/-- A planned plan leads to what some selection answered. -/
theorem Planned.led (h : Planned r v l p) : ∃ (earlier : Registry) (choice : Selection),
    earlier.bestStrategy v.riskProfile v.asset = .ok (choice, r) ∧ Led r v l choice.hash p := by
  obtain ⟨earlier, choice, current, hselected, a, ha, hp⟩ := h
  exact ⟨earlier, choice, hselected, led_of_attempt ha hp⟩

/-! ## Books -/

/-- Two keepers with the same registry, vaults and vault states. Counts, flags and files may
differ. -/
structure SameBooks (k k' : Keeper) : Prop where
  /-- The registry is the same. -/
  registry : k'.registry = k.registry
  /-- The vaults are the same. -/
  vaults : k'.vaults = k.vaults
  /-- Every vault runs the same. -/
  active : k'.active = k.active

namespace SameBooks

/-- A keeper has its own books. -/
theorem refl (k : Keeper) : k.SameBooks k := ⟨rfl, rfl, rfl⟩

/-- Books that are the same as the same ones. -/
theorem trans {k'' : Keeper} (h : k.SameBooks k') (h' : k'.SameBooks k'') : k.SameBooks k'' :=
  ⟨h'.registry.trans h.registry, h'.vaults.trans h.vaults, h'.active.trans h.active⟩

/-- The same vault states are found in the same books. -/
theorem vaultState?_eq (h : k.SameBooks k') (name : String) :
    k'.vaultState? name = k.vaultState? name := by
  rw [vaultState?, h.active]
  rfl

end SameBooks

/-- Counting leaves the books alone. -/
theorem sameBooks_count (k : Keeper) (f : Metrics → Metrics) : k.SameBooks (k.count f) :=
  ⟨rfl, rfl, rfl⟩

/-- Logging leaves the books alone. -/
theorem sameBooks_record (k : Keeper) (x : PlanRecord) : k.SameBooks (k.record x) := ⟨rfl, rfl, rfl⟩

/-- Counting attempts leaves the books alone. -/
theorem sameBooks_countAttempts (k : Keeper) (tried : List Attempt) :
    k.SameBooks (tried.foldl countAttempt k) := by
  induction tried generalizing k with
  | nil => exact .refl k
  | cons a rest ih =>
    refine SameBooks.trans ?_ (ih _)
    unfold countAttempt
    split
    · exact sameBooks_count k _
    · split
      · exact .refl k
      · exact sameBooks_count k _

/-- Saving leaves the books alone. -/
theorem sameBooks_persist (env : Environment σ) (k : Keeper) (s : σ) :
    k.SameBooks (persist env k s).1 := by
  unfold persist
  cases k.storage with
  | none => exact .refl k
  | some storage => exact ⟨rfl, rfl, rfl⟩

/-! ## What planning does -/

/-- A refused selection makes no plans. -/
theorem planVault_of_error {e : AllocationError}
    (h : k.registry.bestStrategy v.riskProfile v.asset = .error e) :
    k.SameBooks (k.planVault v l).1 ∧ (k.planVault v l).2.1 = [] := by
  unfold planVault
  rw [h]
  exact ⟨sameBooks_count k _, rfl⟩

/-- **What planning for a vault does.** The registry becomes that of the selection, and the plans
are those attempted for what was selected that hold an instruction. -/
theorem planVault_of_ok {choice : Selection}
    (h : k.registry.bestStrategy v.riskProfile v.asset = .ok (choice, r)) :
    { k with registry := r }.SameBooks (k.planVault v l).1 ∧
      (k.planVault v l).2.1 = (attempts r v ((k.vaultState? v.name).bind (·.activeStrategy))
        choice.hash l).filterMap Attempt.plan? := by
  unfold planVault
  rw [h]
  exact ⟨(sameBooks_count { k with registry := r } _).trans (sameBooks_countAttempts _ _), rfl⟩

/-- Planning changes neither the vaults nor their states. -/
theorem active_planVault (k : Keeper) (v : VaultConfig) (l : Ledger) :
    (k.planVault v l).1.vaults = k.vaults ∧ (k.planVault v l).1.active = k.active := by
  cases h : k.registry.bestStrategy v.riskProfile v.asset with
  | error e =>
    obtain ⟨hbooks, -⟩ := planVault_of_error (l := l) h
    exact ⟨hbooks.vaults, hbooks.active⟩
  | ok x =>
    obtain ⟨hbooks, -⟩ := planVault_of_ok (l := l) h
    exact ⟨hbooks.vaults, hbooks.active⟩

/-- Planning leaves the registry as the selection does. -/
theorem registry_planVault (k : Keeper) (v : VaultConfig) (l : Ledger) :
    (k.planVault v l).1.registry = k.registry.after (.select v.riskProfile v.asset) := by
  rw [Registry.after_select]
  cases h : k.registry.bestStrategy v.riskProfile v.asset with
  | error e => exact (planVault_of_error h).1.registry
  | ok x => exact (planVault_of_ok h).1.registry

/-- What is planned for a vault is planned against the registry that planning leaves behind. -/
theorem planned_planVault (k : Keeper) (v : VaultConfig) (l : Ledger) :
    ∀ p ∈ (k.planVault v l).2.1, Planned (k.planVault v l).1.registry v l p := by
  intro p hp
  cases h : k.registry.bestStrategy v.riskProfile v.asset with
  | error e =>
    rw [(planVault_of_error h).2] at hp
    cases hp
  | ok x =>
    obtain ⟨hbooks, hplans⟩ := planVault_of_ok (l := l) h
    rw [hplans, List.mem_filterMap] at hp
    rw [hbooks.registry]
    exact ⟨k.registry, x.1, _, h, hp⟩

/-! ## New keepers -/

/-- The vaults of a new keeper run nothing. -/
theorem vaultState?_new {vs : List VaultConfig} {name : String} {state : VaultState}
    (h : (new r vs).vaultState? name = some state) :
    state = { name } ∧ ∃ v ∈ vs, v.name = name := by
  rcases Table.get?_foldl_insert h with hmem | hnone
  · obtain ⟨v, hv, hentry⟩ := List.mem_map.1 hmem
    cases hentry
    exact ⟨rfl, v, hv, rfl⟩
  · cases hnone

/-- Every vault of a new keeper has a state. -/
theorem vaultState?_new_of_mem {vs : List VaultConfig} (hv : v ∈ vs) :
    (new r vs).vaultState? v.name = some { name := v.name } := by
  have hmem : (v.name, ({ name := v.name } : VaultState)) ∈
      vs.map fun v => (v.name, ({ name := v.name } : VaultState)) := List.mem_map.2 ⟨v, hv, rfl⟩
  refine Table.get?_foldl_insert_of_mem hmem (fun state hstate => ?_) ∅
  obtain ⟨w, -, hentry⟩ := List.mem_map.1 hstate
  obtain ⟨hname, rfl⟩ := Prod.mk.inj hentry
  rw [hname]

/-! ## Restarts -/

/-- Restoring vault states inserts those of managed vaults whose strategy is known. -/
theorem active_restore (k : Keeper) (saved : SavedRegistry) (vaults : List VaultState) :
    (k.restore saved vaults).active =
      ((vaults.filter fun v => k.active.contains v.name &&
        knowsStrategy (k.registry.restore saved) v).map fun v => (v.name, v)).foldl
          (fun t e => t.insert e.1 e.2) k.active := by
  rw [List.foldl_map]
  rfl

/-- A vault state that is found after a restart was saved, and its strategy is known, or it was
there before. -/
theorem restore_cases {saved : SavedRegistry} {vaults : List VaultState} {name : String}
    {state : VaultState} (h : (k.restore saved vaults).vaultState? name = some state) :
    (state ∈ vaults ∧ state.name = name ∧
      knowsStrategy (k.registry.restore saved) state = true) ∨
    k.vaultState? name = some state := by
  rw [vaultState?, active_restore] at h
  refine (Table.get?_foldl_insert h).imp_left fun hmem => ?_
  obtain ⟨v, hv, hentry⟩ := List.mem_map.1 hmem
  obtain ⟨hname, rfl⟩ := Prod.mk.inj hentry
  obtain ⟨hsaved, hknown⟩ := List.mem_filter.1 hv
  exact ⟨hsaved, hname, (Bool.and_eq_true_iff.1 hknown).2⟩

/-! ## Submission -/

/-- The batch of a plan that is handed over. -/
def nextBatch (env : Environment σ) (v : VaultConfig) (p : Plan) (s : σ) : Batch :=
  ⟨(env.nextId s).1, v.name, p, (env.now (env.nextId s).2).1⟩

/-- The executor's answer to a plan that is handed over, and the surroundings after it. -/
def answer (env : Environment σ) (v : VaultConfig) (p : Plan) (s : σ) : Option Outcome × σ :=
  env.execute (nextBatch env v p s) (env.now (env.nextId s).2).2

/-- A keeper after an answer that it does not write down; `none` when there was no answer. -/
def heard (k : Keeper) (b : Batch) : Option ExecutionStatus → Keeper
  | none => k.count (·.countExecution "error")
  | some status => (k.count (·.countExecution status.text)).settle b status

/-- **What submitting a plan does.** The batch is handed over, its answer is heard, and an answered
batch is logged. -/
theorem submit_eq (env : Environment σ) (v : VaultConfig) (k : Keeper) (p : Plan) (s : σ) :
    submit env v k p s =
      let known := k.active.contains v.name
      match answer env v p s with
      | (none, s') => ((k.heard (nextBatch env v p s) none, outcomeReport known none), s')
      | (some o, s') => (((k.heard (nextBatch env v p s) (some o.status)).record
          ⟨nextBatch env v p s, o, (env.now s').1⟩, outcomeReport known (some o.status)),
            (env.now s').2) := by
  simp only [submit, stateM_bind, answer, nextBatch]
  split
  · rename_i h
    rw [h]
    rfl
  · rename_i h
    rw [h]
    rfl

/-- The keeper after a submission has the books of one that heard the answer. -/
theorem sameBooks_submit (env : Environment σ) (v : VaultConfig) (k : Keeper) (p : Plan) (s : σ) :
    (k.heard (nextBatch env v p s) ((answer env v p s).1.map (·.status))).SameBooks
      (submit env v k p s).1.1 := by
  rw [submit_eq]
  cases answer env v p s with
  | mk x s' =>
    cases x with
    | none => exact .refl _
    | some o => exact sameBooks_record _ _

/-- Noting an answer writes the state of the batch's vault, if it has one, and nothing else into the
books. -/
theorem sameBooks_settle (k : Keeper) (b : Batch) (status : ExecutionStatus) :
    { k with
      active := match k.active.get? b.vault with
        | none => k.active
        | some state => k.active.insert b.vault (state.after b (some status)) }.SameBooks
      (k.settle b status) := by
  unfold settle
  cases k.active.get? b.vault with
  | none => exact .refl k
  | some state =>
    dsimp only [VaultState.after]
    split
    · exact ⟨rfl, rfl, rfl⟩
    · exact ⟨rfl, rfl, rfl⟩

/-- An answer changes neither the registry nor the list of vaults. -/
theorem registry_heard (k : Keeper) (b : Batch) (x : Option ExecutionStatus) :
    (k.heard b x).registry = k.registry ∧ (k.heard b x).vaults = k.vaults := by
  cases x with
  | none => exact ⟨rfl, rfl⟩
  | some status =>
    have hbooks := sameBooks_settle (k.count (·.countExecution status.text)) b status
    exact ⟨hbooks.registry, hbooks.vaults⟩

/-- So does a submission. -/
theorem registry_submit (env : Environment σ) (v : VaultConfig) (k : Keeper) (p : Plan) (s : σ) :
    (submit env v k p s).1.1.registry = k.registry ∧
      (submit env v k p s).1.1.vaults = k.vaults := by
  have hbooks := sameBooks_submit env v k p s
  obtain ⟨hregistry, hvaults⟩ :=
    registry_heard k (nextBatch env v p s) ((answer env v p s).1.map (·.status))
  exact ⟨hbooks.registry.trans hregistry, hbooks.vaults.trans hvaults⟩

/-- And so does a number of submissions. -/
theorem registry_submitAll (env : Environment σ) (v : VaultConfig) (k : Keeper) (plans : List Plan)
    (s : σ) : (submitAll env v k plans s).1.1.registry = k.registry ∧
      (submitAll env v k plans s).1.1.vaults = k.vaults := by
  induction plans generalizing k s with
  | nil => exact ⟨rfl, rfl⟩
  | cons p rest ih =>
    obtain ⟨hregistry, hvaults⟩ := registry_submit env v k p s
    obtain ⟨hregistry', hvaults'⟩ := ih (submit env v k p s).1.1 (submit env v k p s).2
    exact ⟨hregistry'.trans hregistry, hvaults'.trans hvaults⟩

/-- **What an answer does to the vault states.** It changes that of the batch's own vault. -/
theorem vaultState?_heard (k : Keeper) (b : Batch) (x : Option ExecutionStatus) (name : String) :
    (k.heard b x).vaultState? name =
      if b.vault = name then (k.vaultState? name).map (·.after b x) else k.vaultState? name := by
  cases x with
  | none =>
    have hsame : (fun state : VaultState => state.after b none) = id := rfl
    rw [hsame, Option.map_id_fun, id, ite_self]
    rfl
  | some status =>
    rw [heard, vaultState?, (sameBooks_settle _ b status).active, vaultState?]
    change (match k.active.get? b.vault with
      | none => k.active
      | some state => k.active.insert b.vault (state.after b (some status))).get? name = _
    cases hfound : k.active.get? b.vault with
    | none =>
      by_cases hname : b.vault = name
      · rw [if_pos hname, ← hname, hfound]
        rfl
      · rw [if_neg hname]
    | some state =>
      dsimp only
      by_cases hname : b.vault = name
      · rw [if_pos hname, ← hname, hfound]
        exact Table.get?_insert_self _ _ _
      · rw [if_neg hname]
        exact Table.get?_insert_of_ne _ _ (Ne.symm hname)

/-- **What a submission does to the vault states.** It changes that of its own vault, by the answer
to the batch. -/
theorem vaultState?_submit (env : Environment σ) (v : VaultConfig) (k : Keeper) (p : Plan) (s : σ)
    (name : String) : (submit env v k p s).1.1.vaultState? name =
      if v.name = name then (k.vaultState? name).map
        (·.after (nextBatch env v p s) ((answer env v p s).1.map (·.status)))
      else k.vaultState? name := by
  rw [(sameBooks_submit env v k p s).vaultState?_eq]
  exact vaultState?_heard k _ _ name

/-- A vault state after a submission was there before, or it is that of the submission's vault and
has heard the answer. -/
theorem submit_cases {env : Environment σ} {s : σ} {name : String} {state : VaultState}
    (h : (submit env v k p s).1.1.vaultState? name = some state) :
    ∃ before, k.vaultState? name = some before ∧ (state = before ∨ v.name = name ∧
      state = before.after (nextBatch env v p s) ((answer env v p s).1.map (·.status))) := by
  rw [vaultState?_submit] at h
  split at h
  · rename_i hname
    obtain ⟨before, hbefore, rfl⟩ := Option.map_eq_some_iff.1 h
    exact ⟨before, hbefore, .inr ⟨hname, rfl⟩⟩
  · exact ⟨state, h, .inl rfl⟩

/-! ## Cycles -/

/-- Serving a vault leaves the registry as planning does, and the list of vaults as it is. -/
theorem registry_serveVault (env : Environment σ) (l : Ledger) (k : Keeper) (v : VaultConfig)
    (s : σ) : (serveVault env l k v s).1.1.registry = (k.planVault v l).1.registry ∧
      (serveVault env l k v s).1.1.vaults = k.vaults := by
  obtain ⟨hregistry, hvaults⟩ :=
    registry_submitAll env v (k.planVault v l).1 (k.planVault v l).2.1 s
  exact ⟨hregistry, hvaults.trans (active_planVault k v l).1⟩

/-- Serving a vault submits what is planned for it. -/
theorem serveVault_of_plans {env : Environment σ} {plans : List Plan} {s : σ}
    (h : (k.planVault v l).2.1 = plans) : (serveVault env l k v s).1.1 =
      (submitAll env v (k.planVault v l).1 plans s).1.1 := by
  subst h
  rfl

/-- Without plans nothing is submitted. -/
theorem submitAll_nil (env : Environment σ) (v : VaultConfig) (k : Keeper) (s : σ) :
    (submitAll env v k [] s).1.1 = k := rfl

/-- A single plan is submitted. -/
theorem submitAll_singleton (env : Environment σ) (v : VaultConfig) (k : Keeper) (p : Plan)
    (s : σ) : (submitAll env v k [p] s).1.1 = (submit env v k p s).1.1 := rfl

/-- Without vaults nothing is served. -/
theorem serveVaults_nil (env : Environment σ) (l : Ledger) (k : Keeper) (s : σ) :
    (serveVaults env l k [] s).1.1 = k := rfl

/-- Vaults are served one after the other. -/
theorem serveVaults_cons (env : Environment σ) (l : Ledger) (k : Keeper) (v : VaultConfig)
    (rest : List VaultConfig) (s : σ) : (serveVaults env l k (v :: rest) s).1.1 =
      (serveVaults env l (serveVault env l k v s).1.1 rest (serveVault env l k v s).2).1.1 := rfl

/-- **What a cycle is.** It is refused when the executor is not healthy; otherwise the vaults are
served one after the other, the cycle is counted, and the state is saved. -/
theorem runCycle_eq (env : Environment σ) (l : Ledger) (k : Keeper) (s : σ) :
    runCycle env l k s =
      let flagged := { k with health := { k.health with executor := (env.isHealthy s).1 } }
      if (env.isHealthy s).1 then
        let served := serveVaults env l flagged k.vaults (env.isHealthy s).2
        let saved := persist env (served.1.1.count (·.countCycle)) served.2
        ((saved.1, some served.1.2), saved.2)
      else ((flagged, none), (env.isHealthy s).2) := by
  simp only [runCycle, stateM_bind]
  split
  · rfl
  · rfl

/-- The books after a cycle with a healthy executor are those after serving the vaults. -/
theorem sameBooks_runCycle {env : Environment σ} {s : σ} (h : (env.isHealthy s).1 = true)
    (hflag : k.health.executor = true) :
    (serveVaults env l k k.vaults (env.isHealthy s).2).1.1.SameBooks (runCycle env l k s).1.1 := by
  have hflagged : { k with health := { k.health with executor := true } } = k := by
    rw [← hflag]
  rw [runCycle_eq, h, hflagged]
  exact (sameBooks_count _ _).trans (sameBooks_persist env _ _)

/-- **What two keepers in lockstep keep at each step**: the answer to whether the executor is
healthy, planning for a vault, submitting a plan that was made for it, and the end of a cycle. -/
structure Lockstep (env : Environment σ) (env' : Environment τ)
    (W : Keeper → σ → Keeper → τ → Prop) : Prop where
  /-- They manage the same vaults. -/
  vaults : ∀ {k s k' t}, W k s k' t → k'.vaults = k.vaults
  /-- Their executors are healthy at the same time. -/
  health : ∀ {k s k' t}, W k s k' t → (env.isHealthy s).1 = (env'.isHealthy t).1 ∧
    W { k with health := { k.health with executor := (env.isHealthy s).1 } } (env.isHealthy s).2
      { k' with health := { k'.health with executor := (env'.isHealthy t).1 } }
      (env'.isHealthy t).2
  /-- They make the same plans. -/
  plan : ∀ {k s k' t v l}, v ∈ k.vaults → W k s k' t →
    (k.planVault v l).2.1 = (k'.planVault v l).2.1 ∧
      W (k.planVault v l).1 s (k'.planVault v l).1 t
  /-- They submit plans alike. -/
  submit : ∀ {k s k' t v l p}, v ∈ k.vaults → Planned k.registry v l p → W k s k' t →
    W (submit env v k p s).1.1 (submit env v k p s).2
      (submit env' v k' p t).1.1 (submit env' v k' p t).2
  /-- They end a cycle alike. -/
  finish : ∀ {k s k' t}, W k s k' t →
    W (persist env (k.count (·.countCycle)) s).1 (persist env (k.count (·.countCycle)) s).2
      (persist env' (k'.count (·.countCycle)) t).1 (persist env' (k'.count (·.countCycle)) t).2

/-- Run a cycle on each of some ledgers in turn. -/
def runCycles (env : Environment σ) : Keeper → List Ledger → StateM σ Keeper
  | k, [] => pure k
  | k, l :: rest => do
    let (k, _) ← runCycle env l k
    runCycles env k rest

/-- Running one cycle. -/
theorem runCycles_singleton (env : Environment σ) (k : Keeper) (l : Ledger) (s : σ) :
    (runCycles env k [l] s).1 = (runCycle env l k s).1.1 := rfl

namespace Lockstep

variable {env : Environment σ} {env' : Environment τ} {W : Keeper → σ → Keeper → τ → Prop}
  {s : σ} {t : τ}

/-- Submitting the plans of a vault keeps two keepers in lockstep. -/
theorem submitAll (hW : Lockstep env env' W) (hv : v ∈ k.vaults) {plans : List Plan}
    (hplans : ∀ p ∈ plans, Planned k.registry v l p) (h : W k s k' t) :
    W (submitAll env v k plans s).1.1 (submitAll env v k plans s).2
      (submitAll env' v k' plans t).1.1 (submitAll env' v k' plans t).2 := by
  induction plans generalizing k s k' t with
  | nil => exact h
  | cons p rest ih =>
    obtain ⟨hregistry, hvaults⟩ := registry_submit env v k p s
    have hstep := hW.submit hv (hplans p List.mem_cons_self) h
    have hmember : v ∈ (Keeper.submit env v k p s).1.1.vaults := hvaults ▸ hv
    -- Nothing that is submitted changes the registry that the plans were made against.
    have hrest : ∀ q ∈ rest, Planned (Keeper.submit env v k p s).1.1.registry v l q := by
      rw [hregistry]
      exact fun q hq => hplans q (List.mem_cons_of_mem _ hq)
    exact ih hmember hrest hstep

/-- Serving a vault keeps two keepers in lockstep. -/
theorem serveVault (hW : Lockstep env env' W) (hv : v ∈ k.vaults) (h : W k s k' t) :
    W (serveVault env l k v s).1.1 (serveVault env l k v s).2
      (serveVault env' l k' v t).1.1 (serveVault env' l k' v t).2 := by
  obtain ⟨hplans, hplanned⟩ := hW.plan (l := l) hv h
  have hmember : v ∈ (k.planVault v l).1.vaults := (active_planVault k v l).1 ▸ hv
  have hall := hW.submitAll hmember (planned_planVault k v l) hplanned
  unfold Keeper.serveVault
  simp only [stateM_bind, stateM_pure, ← hplans]
  exact hall

/-- Serving vaults keeps two keepers in lockstep. -/
theorem serveVaults (hW : Lockstep env env' W) {vs : List VaultConfig} (h : W k s k' t)
    (hvs : ∀ v ∈ vs, v ∈ k.vaults) :
    W (serveVaults env l k vs s).1.1 (serveVaults env l k vs s).2
      (serveVaults env' l k' vs t).1.1 (serveVaults env' l k' vs t).2 := by
  induction vs generalizing k s k' t with
  | nil => exact h
  | cons v rest ih =>
    have hstep := hW.serveVault (l := l) (hvs v List.mem_cons_self) h
    have hrest : ∀ w ∈ rest, w ∈ (Keeper.serveVault env l k v s).1.1.vaults := by
      rw [(registry_serveVault env l k v s).2]
      exact fun w hw => hvs w (List.mem_cons_of_mem _ hw)
    exact ih hstep hrest

/-- A cycle keeps two keepers in lockstep. -/
theorem runCycle (hW : Lockstep env env' W) (h : W k s k' t) :
    W (runCycle env l k s).1.1 (runCycle env l k s).2
      (runCycle env' l k' t).1.1 (runCycle env' l k' t).2 := by
  obtain ⟨hhealth, hflagged⟩ := hW.health h
  rw [← hhealth] at hflagged
  rw [runCycle_eq, runCycle_eq, ← hhealth]
  cases hok : (env.isHealthy s).1 with
  | false =>
    rw [hok] at hflagged
    exact hflagged
  | true =>
    rw [hok] at hflagged
    have hfinish := hW.finish (hW.serveVaults (l := l) hflagged fun v (hv : v ∈ k.vaults) => hv)
    simp only [if_true, hW.vaults h] at hfinish ⊢
    exact hfinish

/-- **A number of cycles keeps two keepers in lockstep.** -/
theorem runCycles (hW : Lockstep env env' W) (ls : List Ledger) (h : W k s k' t) :
    W (runCycles env k ls s).1 (runCycles env k ls s).2
      (runCycles env' k' ls t).1 (runCycles env' k' ls t).2 := by
  induction ls generalizing k s k' t with
  | nil => exact h
  | cons l rest ih => exact ih (hW.runCycle h)

end Lockstep

/-- **What is kept by planning and by submitting is kept by a cycle**, when only the books matter to
it. -/
theorem runCycle_induction {P : Keeper → Prop} {env : Environment σ} {s : σ}
    (hbooks : ∀ {k k'}, k.SameBooks k' → P k → P k')
    (hplan : ∀ {k v l}, v ∈ k.vaults → P k → P (k.planVault v l).1)
    (hsubmit : ∀ {k v l p s}, v ∈ k.vaults → Planned k.registry v l p → P k →
      P (submit env v k p s).1.1)
    (h : P k) : P (runCycle env l k s).1.1 := by
  have hW : Lockstep env env fun k s k' t => k' = k ∧ t = s ∧ P k := {
    vaults := by
      rintro _ _ k s ⟨rfl, rfl, -⟩
      rfl
    health := by
      rintro _ _ k s ⟨rfl, rfl, hk⟩
      have hflagged : k.SameBooks
          { k with health := { k.health with executor := (env.isHealthy s).1 } } := ⟨rfl, rfl, rfl⟩
      exact ⟨rfl, rfl, rfl, hbooks hflagged hk⟩
    plan := by
      rintro _ _ k s v l hv ⟨rfl, rfl, hk⟩
      exact ⟨rfl, rfl, rfl, hplan hv hk⟩
    submit := by
      rintro _ _ k s v l p hv hp ⟨rfl, rfl, hk⟩
      exact ⟨rfl, rfl, hsubmit hv hp hk⟩
    finish := by
      rintro _ _ k s ⟨rfl, rfl, hk⟩
      have hsaved := (sameBooks_count k (·.countCycle)).trans (sameBooks_persist env _ s)
      exact ⟨rfl, rfl, hbooks hsaved hk⟩ }
  exact (hW.runCycle ⟨rfl, rfl, h⟩).2.2

end Keeper

end VaultKeeper
