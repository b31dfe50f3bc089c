import VaultKeeper.Proofs.Counting
import VaultKeeper.Proofs.Submissions

/-! # Reports of a cycle

A cycle is one turn for each vault: a strategy is selected, plans are compiled for it, and every
plan with instructions is handed over once. The report of a cycle and the exported counts are
written at different places along the way, and both add up to the same turns: each submission is
counted once by its answer, and each failed selection and compilation once as a failure. -/

namespace VaultKeeper

/-! ## Turns -/

/-- What a cycle does for one vault. -/
structure Turn where
  /-- What was selected, or why nothing was. -/
  choice : Except AllocationError Selection
  /-- What was compiled. -/
  tried : List Keeper.Attempt
  /-- What was handed over, with the answers. -/
  submissions : List Submission

namespace Turn

/-- Whether the selection failed. -/
def refused (t : Turn) : Bool := t.choice.toOption.isNone

end Turn

/-- What a report has to say of some submissions: each is counted by its answer. -/
def CycleReport.ofLog (log : List Submission) : CycleReport :=
  let answered (x : Option ExecutionStatus) := log.countP (·.answer = x)
  { submitted := answered (some .applied) + answered (some .simulated) +
      answered (some .reverted) + answered none
    applied := answered (some .applied)
    failures := answered (some .reverted) + answered none }

/-- **What a report has to say of some turns.** Failed selections and compilations are failures,
besides what became of the submissions. -/
def CycleReport.ofTurns (turns : List Turn) : CycleReport :=
  let failures := turns.countP (·.refused) + (turns.flatMap (·.tried)).countP (·.failed)
  CycleReport.add { failures } (.ofLog (turns.flatMap (·.submissions)))

/-- **What is counted over some turns.** -/
def Counts.ofTurns (turns : List Turn) : Counts :=
  let log := turns.flatMap (·.submissions)
  { executions := log.length
    plansCompiled := log.length
    instructions := (log.map (·.batch.plan.instructionCount)).sum
    compileFailures := turns.countP (·.refused) + (turns.flatMap (·.tried)).countP (·.failed)
    selections := turns.countP (!·.refused) }

namespace CycleReport

/-- Submissions are reported one after the other. -/
theorem ofLog_append (log more : List Submission) :
    ofLog (log ++ more) = (ofLog log).add (ofLog more) := by
  unfold ofLog add
  simp only [List.countP_append, CycleReport.mk.injEq, true_and]
  constructor
  · omega
  · omega

/-- Every submission is answered in one of four ways. -/
theorem submitted_ofLog (log : List Submission) : (ofLog log).submitted = log.length := by
  induction log with
  | nil => rfl
  | cons x rest ih =>
    have hcons : (ofLog (x :: rest)).submitted = (ofLog [x]).submitted + (ofLog rest).submitted :=
      congrArg submitted (ofLog_append [x] rest)
    have hone : (ofLog [x]).submitted = 1 := by
      obtain ⟨b, answer⟩ := x
      match answer with
      | none | some .applied | some .simulated | some .reverted => rfl
    rw [hcons, hone, ih, List.length_cons, Nat.add_comm]

/-- Every submission of some turns is reported. -/
theorem submitted_ofTurns (turns : List Turn) :
    (ofTurns turns).submitted = (turns.flatMap (·.submissions)).length :=
  (Nat.zero_add _).trans (submitted_ofLog _)

/-- A single turn is reported. -/
theorem ofTurns_singleton (t : Turn) : ofTurns [t] =
    CycleReport.add { failures := t.refused.toNat + t.tried.countP (·.failed) }
      (.ofLog t.submissions) := by
  have hrefused : [t].countP (·.refused) = t.refused.toNat := by
    rw [List.countP_singleton]
    cases t.refused <;> rfl
  rw [ofTurns, hrefused, List.flatMap_singleton, List.flatMap_singleton]

/-- One more turn is reported. -/
theorem ofTurns_cons (t : Turn) (rest : List Turn) :
    ofTurns (t :: rest) = (ofTurns [t]).add (ofTurns rest) := by
  unfold ofTurns
  simp only [List.flatMap_cons, List.flatMap_nil, List.append_nil, List.countP_append,
    ofLog_append, add, List.countP_cons, List.countP_nil, CycleReport.mk.injEq]
  omega

end CycleReport

/-- A single turn is counted. -/
theorem Counts.ofTurns_singleton {t : Turn}
    (hplans : t.submissions.map (·.batch.plan) = t.tried.filterMap Keeper.Attempt.plan?) :
    ofTurns [t] = (Counts.add
      { compileFailures := t.refused.toNat, selections := (!t.refused).toNat }
      (Keeper.countsOf t.tried)).add { executions := t.submissions.length } := by
  have hlength : (t.tried.filterMap Keeper.Attempt.plan?).length = t.submissions.length := by
    rw [← hplans, List.length_map]
  have hinstructions : ((t.tried.filterMap Keeper.Attempt.plan?).map (·.instructionCount)).sum =
      (t.submissions.map (·.batch.plan.instructionCount)).sum := by
    rw [← hplans, List.map_map]
    rfl
  unfold ofTurns Keeper.countsOf add
  simp only [List.flatMap_singleton, List.countP_singleton, hlength, hinstructions]
  cases t.refused <;> simp

/-- One more turn is counted. -/
theorem Counts.ofTurns_cons (t : Turn) (rest : List Turn) :
    ofTurns (t :: rest) = (ofTurns [t]).add (ofTurns rest) := by
  unfold ofTurns add
  simp only [List.flatMap_cons, List.flatMap_nil, List.append_nil, List.countP_append,
    List.countP_cons, List.countP_nil, List.length_append, List.map_append, List.sum_append,
    Counts.mk.injEq, true_and, and_true]
  constructor
  · omega
  · omega

/-! ## Submitting -/

/-- An earlier submission is of the vault that it names. -/
theorem ofVault_cons (name : String) (x : Submission) (log : List Submission) :
    ofVault name (x :: log) =
      if x.batch.vault = name then x :: ofVault name log else ofVault name log := by
  rw [ofVault, List.filter_cons]
  simp only [decide_eq_true_eq]
  rfl

namespace Keeper

variable {σ : Type}

/-- What is logged of a plan that is handed over. -/
def submission (env : Environment σ) (v : VaultConfig) (p : Plan) (s : σ) : Submission :=
  ⟨nextBatch env v p s, (answer env v p s).1.map (·.status)⟩

/-- A watched submission is the one that is not watched, and it is logged. -/
theorem submit_watched (env : Environment σ) (v : VaultConfig) (k : Keeper) (p : Plan) (s : σ)
    (log : List Submission) : submit env.watched v k p (s, log) =
      ((submit env v k p s).1, (submit env v k p s).2, log ++ [submission env v p s]) := by
  have hanswer : answer env.watched v p (s, log) =
    ((answer env v p s).1, (answer env v p s).2, log ++ [submission env v p s]) := rfl
  rw [submit_eq env.watched, hanswer, submit_eq env]
  -- A plan is answered or it is not, and either way the log is only written.
  cases answer env v p s with
  | mk x s' =>
    cases x with
    | none => rfl
    | some o => rfl

/-- **An answer is reported as what it is.** -/
theorem report_submit (env : Environment σ) (v : VaultConfig) (k : Keeper) (p : Plan) (s : σ)
    (hknown : k.active.contains v.name = true) :
    (submit env v k p s).1.2 = .ofLog [submission env v p s] := by
  have hreport : ∀ b x, outcomeReport true x = .ofLog [⟨b, x⟩] := by
    intro b x
    match x with
    | none | some .applied | some .simulated | some .reverted => rfl
  rw [submission, ← hreport, submit_eq, hknown]
  cases answer env v p s with
  | mk x s' =>
    cases x with
    | none => rfl
    | some o => rfl

/-- **What handing plans over amounts to.** Each plan is in the log once, in order; each answer is
reported and counted; and the vault follows its submissions. -/
structure HandsOver (k : Keeper) (v : VaultConfig) (plans : List Plan) (log : List Submission)
    (k' : Keeper) (report : CycleReport) : Prop where
  /-- The log holds the plans. -/
  plans : log.map (·.batch.plan) = plans
  /-- The batches name the vault. -/
  named : ∀ x ∈ log, x.batch.vault = v.name
  /-- The answers are reported. -/
  report : report = .ofLog log
  /-- The answers are counted. -/
  counts : k'.counts = k.counts.map (·.add { executions := log.length })
  /-- Vault states follow the log. -/
  states : ∀ name, k'.vaultState? name =
    (k.vaultState? name).map (·.following (ofVault name log))

/-- Plans are handed over one after the other. -/
theorem submitAll_cons (env : Environment σ) (v : VaultConfig) (k : Keeper) (p : Plan)
    (rest : List Plan) (s : σ) : submitAll env v k (p :: rest) s =
      let first := submit env v k p s
      let later := submitAll env v first.1.1 rest first.2
      ((later.1.1, first.1.2.add later.1.2), later.2) := rfl

/-- Nothing is handed over. -/
theorem HandsOver.nil (k : Keeper) (v : VaultConfig) : k.HandsOver v [] [] k {} where
  plans := rfl
  named _ hx := nomatch hx
  report := rfl
  counts := (Counts.map_add_zero k.counts).symm
  states _ := (congrFun Option.map_id _).symm

/-- **One plan is handed over before the others.** -/
theorem HandsOver.cons {env : Environment σ} {v : VaultConfig} {k k' : Keeper} {p : Plan} {s : σ}
    {rest : List Plan} {log : List Submission} {report : CycleReport}
    (hknown : k.active.contains v.name = true)
    (h : (submit env v k p s).1.1.HandsOver v rest log k' report) :
    k.HandsOver v (p :: rest) (submission env v p s :: log) k'
      ((submit env v k p s).1.2.add report) where
  plans := by
    rw [List.map_cons, h.plans]
    rfl
  named x hx := by
    rcases List.mem_cons.1 hx with rfl | hx
    · rfl
    · exact h.named x hx
  report := by
    rw [h.report, report_submit env v k p s hknown, ← CycleReport.ofLog_append]
    rfl
  counts := by
    rw [h.counts, counts_submit, Counts.map_add_add, List.length_cons, Nat.add_comm]
    rfl
  states name := by
    have hvault : (submission env v p s).batch.vault = v.name := rfl
    rw [h.states, vaultState?_submit, ofVault_cons, hvault]
    by_cases hname : v.name = name
    · rw [if_pos hname, if_pos hname, Option.map_map]
      rfl
    · rw [if_neg hname, if_neg hname]

/-- **A watched run hands over every plan once.** -/
theorem submitAll_watched (env : Environment σ) (v : VaultConfig) (k : Keeper)
    (hknown : k.active.contains v.name = true) (plans : List Plan) (s : σ)
    (log : List Submission) :
    ∃ own, submitAll env.watched v k plans (s, log) =
        ((submitAll env v k plans s).1, (submitAll env v k plans s).2, log ++ own) ∧
      k.HandsOver v plans own (submitAll env v k plans s).1.1
        (submitAll env v k plans s).1.2 := by
  induction plans generalizing k s log with
  | nil => exact ⟨[], by rw [List.append_nil]; rfl, .nil k v⟩
  | cons p rest ih =>
    have hlater : (submit env v k p s).1.1.active.contains v.name = true := by
      change ((submit env v k p s).1.1.vaultState? v.name).isSome = true
      rw [vaultState?_submit, if_pos rfl, Option.isSome_map]
      exact hknown
    obtain ⟨own, hwatched, h⟩ := ih (submit env v k p s).1.1 hlater (submit env v k p s).2
      (log ++ [submission env v p s])
    refine ⟨submission env v p s :: own, ?_, .cons hknown h⟩
    rw [submitAll_cons env.watched, submitAll_cons env]
    simp only [submit_watched, hwatched, List.append_assoc, List.singleton_append]

/-! ## Taking turns -/

/-- What is selected for a vault. -/
def choice (r : Registry) (v : VaultConfig) : Except AllocationError Selection :=
  (r.bestStrategy v.riskProfile v.asset).map (·.1)

/-- What is compiled for a vault in some state, once a strategy was selected. -/
def compiled (r : Registry) (v : VaultConfig) (state : Option VaultState) (l : Ledger) :
    List Attempt :=
  match choice r v with
  | .error _ => []
  | .ok selection =>
    attempts (r.after (.select v.riskProfile v.asset)) v (state.bind (·.activeStrategy))
      selection.hash l

/-- Operations in the order in which a cycle carries them out for a vault: a rebalance alone, or a
harvest before a deposit. -/
def InOrder (operations : List Operation) : Prop :=
  operations.Sublist [.rebalance] ∨ operations.Sublist [.harvestAll, .depositAll]

/-- **A vault's operations are attempted in order.** -/
theorem inOrder_attempts (r : Registry) (v : VaultConfig) (current : Option Digest) (hash : Digest)
    (l : Ledger) : InOrder ((attempts r v current hash l).map (·.operation)) := by
  have hdeposit : [Operation.depositAll].Sublist [.harvestAll, .depositAll] :=
    List.sublist_cons_self _ _
  unfold attempts
  cases current with
  | none =>
    refine .inr ?_
    dsimp only
    split
    · exact hdeposit
    · exact List.nil_sublist _
  | some source =>
    dsimp only
    split
    · exact .inl (List.Sublist.refl _)
    -- The strategy stays, so each of the two is attempted or left out.
    · refine .inr ?_
      rw [List.map_append]
      split
      · split
        · exact List.Sublist.refl _
        · exact List.sublist_append_left [Operation.harvestAll] [.depositAll]
      · split
        · exact hdeposit
        · exact List.nil_sublist _

/-- Plans are a part of what was attempted, with the same operations. -/
theorem sublist_plans {tried : List Attempt}
    (h : ∀ a ∈ tried, ∀ p, a.plan? = some p → p.operation = a.operation) :
    ((tried.filterMap Attempt.plan?).map (·.operation)).Sublist (tried.map (·.operation)) := by
  induction tried with
  | nil => exact List.Sublist.refl _
  | cons a rest ih =>
    have hrest := ih fun b hb => h b (List.mem_cons_of_mem _ hb)
    cases hplan : a.plan? with
    | none =>
      rw [List.filterMap_cons_none hplan]
      exact hrest.cons _
    | some p =>
      rw [List.filterMap_cons_some hplan, List.map_cons, List.map_cons,
        h a List.mem_cons_self p hplan]
      exact hrest.cons_cons _

/-- **A vault's plans are in order.** -/
theorem inOrder_compiled (r : Registry) (v : VaultConfig) (state : Option VaultState) (l : Ledger) :
    InOrder (((compiled r v state l).filterMap Attempt.plan?).map (·.operation)) := by
  unfold compiled
  cases choice r v with
  | error e => exact .inl (List.nil_sublist _)
  | ok selection =>
    let tried := attempts (r.after (.select v.riskProfile v.asset)) v
      (state.bind (·.activeStrategy)) selection.hash l
    have hplans : ((tried.filterMap Attempt.plan?).map (·.operation)).Sublist
        (tried.map (·.operation)) := sublist_plans fun _ ha _ => operation_of_attempt ha
    exact (inOrder_attempts _ _ _ _ _).imp hplans.trans hplans.trans

/-- **What planning for a vault makes of it**: the plans, the failures and the counts. -/
theorem planVault_eq (k : Keeper) (v : VaultConfig) (l : Ledger) (t : Turn)
    (hchoice : t.choice = choice k.registry v)
    (htried : t.tried = compiled k.registry v (k.vaultState? v.name) l) :
    (k.planVault v l).2.1 = t.tried.filterMap Attempt.plan? ∧
    (k.planVault v l).2.2 = t.refused.toNat + t.tried.countP (·.failed) ∧
    (k.planVault v l).1.counts = k.counts.map (·.add (Counts.add
      { compileFailures := t.refused.toNat, selections := (!t.refused).toNat }
      (countsOf t.tried))) := by
  rw [Turn.refused, hchoice, htried]
  unfold compiled choice planVault
  cases h : k.registry.bestStrategy v.riskProfile v.asset with
  | error e => exact ⟨rfl, rfl, counts_count fun m => m.counts_countFailure "select" e.kind⟩
  | ok x =>
    obtain ⟨selection, r⟩ := x
    have hafter : k.registry.after (.select v.riskProfile v.asset) = r := by
      rw [Registry.after_select, h]
    rw [hafter]
    refine ⟨rfl, ?_, ?_⟩
    · exact (Nat.zero_add _).symm
    · dsimp only
      rw [counts_countAttempts, counts_count fun m => m.counts_countSelection _,
        Counts.map_add_add]
      rfl

end Keeper

/-- **A turn as a cycle takes it** for a vault in some state. A strategy is selected, what it asks
for is compiled, and every plan with instructions is handed over once, a harvest before a
deposit. -/
structure Turn.Taken (t : Turn) (r : Registry) (v : VaultConfig) (state : Option VaultState)
    (l : Ledger) : Prop where
  /-- What was selected. -/
  choice : t.choice = Keeper.choice r v
  /-- What was compiled for it. -/
  tried : t.tried = Keeper.compiled r v state l
  /-- Every plan with instructions is handed over. -/
  plans : t.submissions.map (·.batch.plan) = t.tried.filterMap Keeper.Attempt.plan?
  /-- The batches name the vault. -/
  named : ∀ x ∈ t.submissions, x.batch.vault = v.name
  /-- They are handed over in order. -/
  order : Keeper.InOrder (t.submissions.map (·.batch.plan.operation))

/-- **The turns of vaults, one after the other.** Each finds the registry that the selections before
it left behind, and the vault states that follow the submissions before it. -/
inductive Turns (l : Ledger) :
    Registry → (String → Option VaultState) → List VaultConfig → List Turn → Prop
  /-- No vault has a turn. -/
  | nil (r : Registry) (states : String → Option VaultState) : Turns l r states [] []
  /-- A vault has its turn before the others. -/
  | cons {r : Registry} {states : String → Option VaultState} {v : VaultConfig} {t : Turn}
      {rest : List VaultConfig} {turns : List Turn} (head : t.Taken r v (states v.name) l)
      (tail : Turns l (r.after (.select v.riskProfile v.asset))
        (fun name => (states name).map (·.following (ofVault name t.submissions))) rest turns) :
      Turns l r states (v :: rest) (t :: turns)

namespace Keeper

variable {σ : Type}

/-- **Serving a vault is one turn**, which is reported and counted. -/
theorem serveVault_watched (env : Environment σ) (l : Ledger) (k : Keeper) (v : VaultConfig)
    (hknown : k.active.contains v.name = true) (s : σ) (log : List Submission) :
    ∃ t : Turn, serveVault env.watched l k v (s, log) =
        ((serveVault env l k v s).1, (serveVault env l k v s).2, log ++ t.submissions) ∧
      t.Taken k.registry v (k.vaultState? v.name) l ∧
      (serveVault env l k v s).1.2 = .ofTurns [t] ∧
      (serveVault env l k v s).1.1.counts = k.counts.map (·.add (.ofTurns [t])) ∧
      ∀ name, (serveVault env l k v s).1.1.vaultState? name =
        (k.vaultState? name).map (·.following (ofVault name t.submissions)) := by
  have hactive := (active_planVault k v l).2
  obtain ⟨own, hwatched, h⟩ := submitAll_watched env v (k.planVault v l).1 (hactive ▸ hknown)
    (k.planVault v l).2.1 s log
  let t : Turn := ⟨choice k.registry v, compiled k.registry v (k.vaultState? v.name) l, own⟩
  obtain ⟨hplans, hfailures, hcounts⟩ := planVault_eq k v l t rfl rfl
  -- Planning never looks at the surroundings, so only the submissions are watched.
  have hserve : ∀ {τ : Type} (e : Environment τ) (u : τ), serveVault e l k v u =
      (((submitAll e v (k.planVault v l).1 (k.planVault v l).2.1 u).1.1,
        CycleReport.add { failures := (k.planVault v l).2.2 }
          (submitAll e v (k.planVault v l).1 (k.planVault v l).2.1 u).1.2),
        (submitAll e v (k.planVault v l).1 (k.planVault v l).2.1 u).2) := fun _ _ => rfl
  have hhanded : own.map (·.batch.plan) = t.tried.filterMap Attempt.plan? := h.plans.trans hplans
  refine ⟨t, ?_, ⟨rfl, rfl, hhanded, h.named, ?_⟩, ?_, ?_, fun name => ?_⟩
  · rw [hserve env.watched, hserve env, hwatched]
  · have horder := inOrder_compiled k.registry v (k.vaultState? v.name) l
    change InOrder ((t.tried.filterMap Attempt.plan?).map (·.operation)) at horder
    rw [← hhanded, List.map_map] at horder
    exact horder
  · rw [hserve env, CycleReport.ofTurns_singleton, ← hfailures]
    exact congrArg (CycleReport.add _) h.report
  · rw [hserve env, Counts.ofTurns_singleton hhanded, ← Counts.map_add_add, ← hcounts]
    exact h.counts
  · have hstate : (k.planVault v l).1.vaultState? name = k.vaultState? name :=
      congrArg (·.get? name) hactive
    rw [hserve env, ← hstate]
    exact h.states name

/-- Vaults have their turns one after the other. -/
theorem serveVaults_eq (env : Environment σ) (l : Ledger) (k : Keeper) (v : VaultConfig)
    (rest : List VaultConfig) (s : σ) : serveVaults env l k (v :: rest) s =
      let first := serveVault env l k v s
      let later := serveVaults env l first.1.1 rest first.2
      ((later.1.1, first.1.2.add later.1.2), later.2) := rfl

/-- **Serving vaults is one turn for each**, and all turns are reported and counted. -/
theorem serveVaults_watched (env : Environment σ) (l : Ledger) (k : Keeper)
    (vs : List VaultConfig) (hknown : ∀ v ∈ vs, k.active.contains v.name = true) (s : σ)
    (log : List Submission) :
    ∃ turns, serveVaults env.watched l k vs (s, log) =
        ((serveVaults env l k vs s).1, (serveVaults env l k vs s).2,
          log ++ turns.flatMap (·.submissions)) ∧
      Turns l k.registry k.vaultState? vs turns ∧
      (serveVaults env l k vs s).1.2 = .ofTurns turns ∧
      (serveVaults env l k vs s).1.1.counts = k.counts.map (·.add (.ofTurns turns)) := by
  induction vs generalizing k s log with
  | nil =>
    exact ⟨[], by rw [List.flatMap_nil, List.append_nil]; rfl, .nil _ _, rfl,
      (Counts.map_add_zero k.counts).symm⟩
  | cons v rest ih =>
    obtain ⟨t, hwatched, htaken, hreport, hcounts, hstates⟩ :=
      serveVault_watched env l k v (hknown v List.mem_cons_self) s log
    have hregistry : (serveVault env l k v s).1.1.registry =
        k.registry.after (.select v.riskProfile v.asset) :=
      (registry_serveVault env l k v s).1.trans (registry_planVault k v l)
    -- No vault loses its state, so the others are served alike.
    have hlater : ∀ w ∈ rest, (serveVault env l k v s).1.1.active.contains w.name = true := by
      intro w hw
      change ((serveVault env l k v s).1.1.vaultState? w.name).isSome = true
      rw [hstates, Option.isSome_map]
      exact hknown w (List.mem_cons_of_mem _ hw)
    obtain ⟨turns, hrest, hturns, hreports, hcounted⟩ := ih (serveVault env l k v s).1.1 hlater
      (serveVault env l k v s).2 (log ++ t.submissions)
    refine ⟨t :: turns, ?_, .cons htaken ?_, ?_, ?_⟩
    · rw [serveVaults_eq env.watched, serveVaults_eq env]
      simp only [hwatched, hrest, List.flatMap_cons, List.append_assoc]
    · rw [← hregistry, ← funext hstates]
      exact hturns
    · rw [serveVaults_eq, CycleReport.ofTurns_cons, ← hreport, ← hreports]
    · rw [serveVaults_eq, Counts.ofTurns_cons, ← Counts.map_add_add, ← hcounts]
      exact hcounted

/-- Saving the state submits nothing and counts nothing. -/
theorem persist_watched (env : Environment σ) (k : Keeper) (s : σ) (log : List Submission) :
    persist env.watched k (s, log) = ((persist env k s).1, (persist env k s).2, log) ∧
      (persist env k s).1.counts = k.counts := by
  unfold persist
  cases k.storage with
  | none => exact ⟨rfl, rfl⟩
  | some storage => exact ⟨rfl, rfl⟩

end Keeper

/-! ## Keepers in use -/

/-- **A keeper that has been put together and used**: it is made of a registry and a list of vaults;
its registry may be changed, it may be given other counts, flags or files, it may take over a saved
state, and it may run cycles. -/
inductive Keeper.Used : Keeper → Prop
  /-- A new keeper. -/
  | start (r : Registry) (vaults : List VaultConfig) : Used (.new r vaults)
  /-- The registry is changed. -/
  | change {k : Keeper} (hk : Used k) (r : Registry) : Used { k with registry := r }
  /-- The same books with other counts, flags or files. -/
  | equip {k k' : Keeper} (hk : Used k) (h : k.SameBooks k') : Used k'
  /-- A saved state is taken over. -/
  | restore {k : Keeper} (hk : Used k) (saved : SavedRegistry) (vaults : List VaultState) :
      Used (k.restore saved vaults)
  /-- A cycle, whatever the surroundings are. -/
  | cycle {σ : Type} {k : Keeper} (hk : Used k) (env : Environment σ) (l : Ledger) (s : σ) :
      Used (k.runCycle env l s).1.1

/-- Every vault of a keeper has a state. -/
def Keeper.Stated (k : Keeper) : Prop := ∀ v ∈ k.vaults, k.active.contains v.name = true

namespace Keeper

/-- Only the books matter. -/
theorem Stated.of_books {k k' : Keeper} (h : k.Stated) (hbooks : k.SameBooks k') : k'.Stated := by
  intro v hv
  rw [hbooks.vaults] at hv
  rw [hbooks.active]
  exact h v hv

/-- **Every vault has a state, whatever has happened to its keeper.** -/
theorem Used.stated {k : Keeper} (hk : Used k) : k.Stated := by
  induction hk with
  | start r vaults =>
    intro v hv
    exact Table.contains_iff.2 ⟨_, vaultState?_new_of_mem hv⟩
  | change hk r ih => exact ih
  | equip hk h ih => exact ih.of_books h
  | restore hk saved vaults ih =>
    intro v hv
    rw [active_restore]
    exact Table.contains_foldl_insert (ih v hv)
  | cycle hk env l s ih =>
    -- Planning leaves the states alone, and a submission changes one of them but drops none.
    refine runCycle_induction (fun hbooks h => h.of_books hbooks) ?_ ?_ ih
    · intro k v l hv h
      obtain ⟨hvaults, hactive⟩ := active_planVault k v l
      intro w hw
      rw [hvaults] at hw
      rw [hactive]
      exact h w hw
    · intro k v l p s hv hp h w hw
      rw [(registry_submit env v k p s).2] at hw
      change ((submit env v k p s).1.1.vaultState? w.name).isSome = true
      rw [vaultState?_submit]
      split
      · rw [Option.isSome_map]
        exact h w hw
      · exact h w hw

end Keeper

/-- **A cycle accounts for every batch.** When the executor is healthy, a cycle is one turn for each
vault, in order. What it hands over are the submissions of these turns and nothing else, its report
is what they add up to, and so is what it adds to the counts. -/
theorem cycle_accounts_for_every_batch {σ : Type} (env : Environment σ) (k : Keeper)
    (hk : k.Used) (l : Ledger) (s : σ) (hhealthy : (env.isHealthy s).1 = true) :
    ∃ k' report s' turns, k.runCycle env l s = ((k', some report), s') ∧
      -- Watching the surroundings changes nothing; the log holds the submissions of all turns.
      k.runCycle env.watched l (s, []) =
        ((k', some report), s', turns.flatMap (·.submissions)) ∧
      Turns l k.registry k.vaultState? k.vaults turns ∧
      report = .ofTurns turns ∧
      k'.counts = k.counts.map (·.add {
        executions := report.submitted
        plansCompiled := report.submitted
        instructions :=
          ((turns.flatMap (·.submissions)).map (·.batch.plan.instructionCount)).sum
        compileFailures := turns.countP (·.refused) + (turns.flatMap (·.tried)).countP (·.failed)
        selections := turns.countP (!·.refused)
        cycles := 1 }) := by
  let flagged : Keeper := { k with health := { k.health with executor := true } }
  obtain ⟨turns, hwatched, hturns, hreport, hcounts⟩ := Keeper.serveVaults_watched env l flagged
    k.vaults hk.stated (env.isHealthy s).2 []
  let served := Keeper.serveVaults env l flagged k.vaults (env.isHealthy s).2
  let saved := Keeper.persist env (served.1.1.count (·.countCycle)) served.2
  refine ⟨saved.1, served.1.2, saved.2, turns, ?_, ?_, hturns, hreport, ?_⟩
  · rw [Keeper.runCycle_eq, hhealthy]
    rfl
  · have hhealthy' : (env.watched.isHealthy (s, [])).1 = true := hhealthy
    have hstart : (env.watched.isHealthy (s, [])).2 = ((env.isHealthy s).2, []) := rfl
    have hsaved := (Keeper.persist_watched env (served.1.1.count (·.countCycle)) served.2
      (turns.flatMap (·.submissions))).1
    rw [Keeper.runCycle_eq, hhealthy', hstart]
    simp only [if_true, flagged] at hwatched ⊢
    rw [hwatched]
    exact congrArg (fun x => ((x.1, some served.1.2), x.2)) hsaved
  · have hsaved := (Keeper.persist_watched env (served.1.1.count (·.countCycle)) served.2 []).2
    have hsubmitted : served.1.2.submitted = (turns.flatMap (·.submissions)).length := by
      rw [hreport, CycleReport.submitted_ofTurns]
    rw [hsaved, Keeper.counts_count fun m => m.counts_countCycle, hcounts, Counts.map_add_add,
      hsubmitted]
    rfl

/-! ## Two vaults -/

namespace Served

/-- The keeper of two vaults, which counts. -/
def counting : Keeper := { keeper "reserve" (.ofNat 7) with metrics := some {} }

/-- The first vault is given a deposit. -/
theorem taken_treasury {t : Turn}
    (h : t.Taken deployed treasury (counting.vaultState? treasury.name) ledger) :
    t.refused = false ∧ t.tried.countP (·.failed) = 0 ∧ t.submissions.length = 1 := by
  have hchoice : Keeper.choice deployed treasury = .ok ⟨strategy.hash, .ratingBased⟩ := by
    rw [Keeper.choice, bestStrategy_treasury]
    rfl
  obtain ⟨p, hp, hnoop⟩ := depositAll_selected
  have hattempts : Keeper.attempts selected treasury none strategy.hash ledger =
      [⟨.depositAll, selected.depositAll (.ofNat 1) strategy.hash ledger⟩] := rfl
  have hstate : counting.vaultState? treasury.name = some { name := "treasury" } :=
    vaultState?_keeper "reserve" (.ofNat 7)
  have htried : t.tried = [⟨.depositAll, .ok p⟩] := by
    rw [h.tried, Keeper.compiled, hchoice, hstate]
    dsimp only
    rw [after_treasury, Option.bind_some, hattempts, hp]
  have hplans := congrArg List.length h.plans
  rw [List.length_map, htried] at hplans
  refine ⟨by rw [Turn.refused, h.choice, hchoice]; rfl, by rw [htried]; rfl, ?_⟩
  rw [hplans]
  simp [Keeper.Attempt.plan?, Except.toOption, Option.filter, hnoop]

/-- Nothing is selected for the second vault. -/
theorem taken_other {t : Turn} {state : Option VaultState}
    (h : t.Taken selected (other "reserve" (.ofNat 7)) state ledger) :
    t.refused = true ∧ t.tried = [] ∧ t.submissions = [] := by
  have hchoice : Keeper.choice selected (other "reserve" (.ofNat 7)) =
      .error (.noEligibleStrategy "steady" (.ofNat 7)) := by
    have hbest : selected.bestStrategy (other "reserve" (.ofNat 7)).riskProfile
        (other "reserve" (.ofNat 7)).asset = .error (.noEligibleStrategy "steady" (.ofNat 7)) :=
      bestStrategy_other (by decide)
    rw [Keeper.choice, hbest]
    rfl
  have htried : t.tried = [] := by
    rw [h.tried, Keeper.compiled, hchoice]
  have hplans := h.plans
  rw [htried] at hplans
  exact ⟨by rw [Turn.refused, h.choice, hchoice]; rfl, htried, List.map_eq_nil_iff.1 hplans⟩

/-- One vault is served and the other one is refused. -/
theorem both_vaults_counted : counting.Used ∧ (applies.isHealthy ()).1 = true ∧
    ∃ k' report s' turns, counting.runCycle applies ledger () = ((k', some report), s') ∧
      report = .ofTurns turns ∧ report.submitted = 1 ∧
      ∃ c, k'.counts = some c ∧ c.executions = 1 ∧ c.plansCompiled = 1 ∧ c.compileFailures = 1 ∧
        c.selections = 1 ∧ c.cycles = 1 := by
  have hused : counting.Used := .equip (.start deployed _) ⟨rfl, rfl, rfl⟩
  obtain ⟨k', report, s', turns, hrun, -, hturns, hreport, hcounts⟩ :=
    cycle_accounts_for_every_batch applies counting hused ledger () rfl
  have hstart : counting.counts = some {} := rfl
  have hvaults : counting.vaults = [treasury, other "reserve" (.ofNat 7)] := rfl
  have hafter : counting.registry.after (.select treasury.riskProfile treasury.asset) =
      selected := after_treasury
  rw [hvaults] at hturns
  rw [hstart, Option.map_some] at hcounts
  -- The first vault deposits, and nothing is selected for the second one.
  cases hturns with
  | @cons _ _ _ first _ _ head tail =>
    cases tail with
    | @cons _ _ _ second _ _ head' tail' =>
      cases tail'
      rw [hafter] at head'
      obtain ⟨haccepted, hcompiled, hlength⟩ := taken_treasury head
      obtain ⟨hrefused, htried, hnothing⟩ := taken_other head'
      have hsubmitted : report.submitted = 1 := by
        rw [hreport, CycleReport.submitted_ofTurns]
        simp [hlength, hnothing]
      refine ⟨hused, rfl, k', report, s', _, hrun, hreport, hsubmitted, _, hcounts, ?_⟩
      refine ⟨?_, ?_, ?_, ?_, ?_⟩
      all_goals simp [Counts.add, hsubmitted, haccepted, hrefused, hcompiled, htried]

end Served

end VaultKeeper
