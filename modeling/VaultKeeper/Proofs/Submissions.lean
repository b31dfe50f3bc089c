import Mathlib.Data.List.Nodup
import VaultKeeper.Proofs.Cycles
import VaultKeeper.Proofs.Ranking

/-! # Submissions

Which batches a keeper hands over, and what their answers do to its vaults. The surroundings of a
keeper are watched: they answer as before, and keep a log of every batch with its answer. Watching
changes nothing, and the log accounts for every vault state at the end of a run: each is what the
vault's own batches make of it, one after the other. -/

namespace VaultKeeper

/-! ## Watched surroundings -/

/-- A batch that was handed over, with its answer; `none` when there was none. -/
structure Submission where
  /-- The batch. -/
  batch : Batch
  /-- What the executor answered. -/
  answer : Option ExecutionStatus
deriving DecidableEq

/-- The operations that move a position are the deposits and the rebalance. -/
theorem Operation.movesPosition_iff (o : Operation) :
    o.movesPosition = true ↔ o = .depositAll ∨ o = .depositSome ∨ o = .rebalance := by
  cases o <;> decide

namespace Submission

/-- A submission moves its vault: the batch was applied, and its operation is a deposit of all or of
some assets or a rebalance. -/
def Moves (x : Submission) : Prop :=
  x.answer = some .applied ∧ (x.batch.plan.operation = .depositAll ∨
    x.batch.plan.operation = .depositSome ∨ x.batch.plan.operation = .rebalance)

instance (x : Submission) : Decidable x.Moves := inferInstanceAs (Decidable (_ ∧ _))

end Submission

/-- Surroundings that answer as before and log what is handed over. -/
def Environment.watched {σ : Type} (env : Environment σ) :
    Environment (σ × List Submission) where
  isHealthy := fun (s, log) => ((env.isHealthy s).1, (env.isHealthy s).2, log)
  nextId := fun (s, log) => ((env.nextId s).1, (env.nextId s).2, log)
  now := fun (s, log) => ((env.now s).1, (env.now s).2, log)
  execute b := fun (s, log) =>
    ((env.execute b s).1, (env.execute b s).2, log ++ [⟨b, (env.execute b s).1.map (·.status)⟩])

/-! ## What a log does to a vault -/

/-- What some steps leave in a field, when each step either sets the field or keeps it: the value of
the last step that sets it, or the initial one. -/
theorem foldl_eq_getLast? {α β γ : Type} {step : γ → α → γ} {field : γ → Option β} {f : α → β}
    {p : α → Bool} (hstep : ∀ c a, field (step c a) = if p a then some (f a) else field c)
    (c : γ) (xs : List α) :
    field (xs.foldl step c) = ((xs.filter p).getLast?.map f).or (field c) := by
  induction xs generalizing c with
  | nil => rfl
  | cons x rest ih =>
    rw [List.foldl_cons, ih, hstep]
    cases hx : p x with
    | false =>
      rw [List.filter_cons_of_neg (by simp [hx])]
      rfl
    | true =>
      rw [List.filter_cons_of_pos hx, List.getLast?_cons]
      cases (rest.filter p).getLast? with
      | none => rfl
      | some y => rfl

namespace VaultState

/-- What a vault runs after some submissions of its own. -/
def following (state : VaultState) (log : List Submission) : VaultState :=
  log.foldl (fun state x => state.after x.batch x.answer) state

/-- One more submission. -/
theorem following_concat (state : VaultState) (log : List Submission) (x : Submission) :
    state.following (log ++ [x]) = (state.following log).after x.batch x.answer := by
  rw [following, List.foldl_append]
  rfl

/-- **A submission changes what its vault runs exactly when it moves the vault.** -/
theorem activeStrategy_after (state : VaultState) (x : Submission) :
    (state.after x.batch x.answer).activeStrategy =
      if x.Moves then some x.batch.plan.strategy else state.activeStrategy := by
  obtain ⟨b, answer⟩ := x
  cases answer with
  | none =>
    have hstays : ¬Submission.Moves ⟨b, none⟩ := fun h => nomatch h.1
    rw [if_neg hstays]
    rfl
  | some status =>
    simp only [after, Submission.Moves, Option.some.injEq, ← Operation.movesPosition_iff,
      Bool.and_eq_true, decide_eq_true_eq]

/-- A submission keeps the name of its vault. -/
theorem name_after (state : VaultState) (x : Submission) :
    (state.after x.batch x.answer).name = state.name := by
  obtain ⟨b, answer⟩ := x
  cases answer with
  | none => rfl
  | some status => rfl

/-- A submission is noted as the last one exactly when it was answered. -/
theorem lastBatch_after (state : VaultState) (x : Submission) :
    (state.after x.batch x.answer).lastBatch =
      if x.answer.isSome then some x.batch.id else state.lastBatch := by
  obtain ⟨b, answer⟩ := x
  cases answer with
  | none => rfl
  | some status => rfl

/-- A vault runs the strategy of the last submission that moved it. -/
theorem activeStrategy_following (state : VaultState) (log : List Submission) :
    (state.following log).activeStrategy =
      ((log.filter (·.Moves)).getLast?.map (·.batch.plan.strategy)).or state.activeStrategy := by
  refine foldl_eq_getLast? (fun state x => ?_) state log
  simp only [activeStrategy_after, decide_eq_true_eq]

/-- The last batch of a vault is the last one that was answered. -/
theorem lastBatch_following (state : VaultState) (log : List Submission) :
    (state.following log).lastBatch =
      ((log.filter (·.answer.isSome)).getLast?.map (·.batch.id)).or state.lastBatch :=
  foldl_eq_getLast? lastBatch_after state log

end VaultState

/-! ## Accounts -/

/-- The submissions of the vault with a name. -/
def ofVault (name : String) (log : List Submission) : List Submission :=
  log.filter (·.batch.vault = name)

/-- One more submission is of the vault that it names. -/
theorem ofVault_concat (name : String) (log : List Submission) (x : Submission) :
    ofVault name (log ++ [x]) =
      if x.batch.vault = name then ofVault name log ++ [x] else ofVault name log := by
  rw [ofVault, List.filter_append]
  by_cases hname : x.batch.vault = name
  · rw [if_pos hname, List.filter_cons_of_pos (by simpa using hname)]
    rfl
  · rw [if_neg hname, List.filter_cons_of_neg (by simpa using hname)]
    exact List.append_nil _

namespace Keeper

/-- **A log that accounts for a keeper.** Every vault state is what the vault's own submissions made
of it, and every submission was planned for a vault. -/
structure Accounts (k : Keeper) (log : List Submission) (k' : Keeper) : Prop where
  /-- The list of vaults stays as it is. -/
  vaults : k'.vaults = k.vaults
  /-- A vault state follows its own submissions. -/
  states : ∀ name, k'.vaultState? name =
    (k.vaultState? name).map (·.following (ofVault name log))
  /-- A submitted batch is a plan that was made for its vault. -/
  planned : ∀ x ∈ log, ∃ v ∈ k.vaults, x.batch.vault = v.name ∧
    ∃ r l, Planned r v l x.batch.plan

variable {σ : Type} {k k' k'' : Keeper} {log : List Submission}

/-- Nothing was submitted, and nothing has changed. -/
theorem Accounts.refl (k : Keeper) : k.Accounts [] k :=
  ⟨rfl, fun _ => (congrFun Option.map_id _).symm, fun _ hx => nomatch hx⟩

/-- A log only accounts for vault states. -/
theorem Accounts.of_active (h : k.Accounts log k') (hvaults : k''.vaults = k'.vaults)
    (hactive : k''.active = k'.active) : k.Accounts log k'' where
  vaults := hvaults.trans h.vaults
  states := by
    unfold vaultState?
    rw [hactive]
    exact h.states
  planned := h.planned

/-- **A submission is accounted for by one entry of the log.** -/
theorem Accounts.submit (h : k.Accounts log k') {v : VaultConfig} (hv : v ∈ k.vaults)
    {r : Registry} {l : Ledger} {p : Plan} (hp : Planned r v l p) (env : Environment σ) (s : σ) :
    k.Accounts
      (log ++ [⟨nextBatch env v p s, (answer env v p s).1.map (·.status)⟩])
      (Keeper.submit env v k' p s).1.1 := by
  refine ⟨(registry_submit env v k' p s).2.trans h.vaults, fun name => ?_, fun x hx => ?_⟩
  · rw [vaultState?_submit, h.states name, ofVault_concat]
    by_cases hname : v.name = name
    · simp only [hname, nextBatch, if_true, Option.map_map, VaultState.following_concat]
      rfl
    · simp only [hname, nextBatch, if_false]
  · rcases List.mem_append.1 hx with hx | hx
    · exact h.planned x hx
    · cases List.mem_singleton.1 hx
      exact ⟨v, hv, rfl, r, l, hp⟩

/-- **A watched run goes as the run that is not watched, and its log accounts for it.** -/
theorem lockstep_watched (env : Environment σ) (k : Keeper) :
    Lockstep env env.watched fun k' s k'' t => k'' = k' ∧ t.1 = s ∧ k.Accounts t.2 k' where
  vaults := by
    rintro k' s k'' t ⟨rfl, -, -⟩
    rfl
  health := by
    rintro k' _ k'' ⟨s, log⟩ ⟨rfl, rfl, haccounts⟩
    exact ⟨rfl, rfl, rfl, haccounts.of_active rfl rfl⟩
  plan := by
    rintro k' _ k'' ⟨s, log⟩ v l - ⟨rfl, rfl, haccounts⟩
    obtain ⟨hvaults, hactive⟩ := active_planVault k'' v l
    exact ⟨rfl, rfl, rfl, haccounts.of_active hvaults hactive⟩
  submit := by
    rintro k' _ k'' ⟨s, log⟩ v l p hv hp ⟨rfl, rfl, haccounts⟩
    have hlogged := haccounts.submit (haccounts.vaults ▸ hv) hp env s
    have hanswer : answer env.watched v p (s, log) = ((answer env v p s).1, (answer env v p s).2,
        log ++ [⟨nextBatch env v p s, (answer env v p s).1.map (·.status)⟩]) := rfl
    rw [submit_eq env.watched, hanswer]
    rw [submit_eq env] at hlogged ⊢
    cases h : answer env v p s with
    | mk x s' =>
      rw [h] at hlogged
      cases x with
      | none => exact ⟨rfl, rfl, hlogged⟩
      | some o => exact ⟨rfl, rfl, hlogged⟩
  finish := by
    rintro k' _ k'' ⟨s, log⟩ ⟨rfl, rfl, haccounts⟩
    have hbooks := (sameBooks_count k'' (·.countCycle)).trans (sameBooks_persist env _ s)
    unfold persist at hbooks ⊢
    cases hstorage : (k''.count (·.countCycle)).storage with
    | none =>
      rw [hstorage] at hbooks
      exact ⟨rfl, rfl, haccounts.of_active hbooks.vaults hbooks.active⟩
    | some storage =>
      rw [hstorage] at hbooks
      exact ⟨rfl, rfl, haccounts.of_active hbooks.vaults hbooks.active⟩

/-- A watched run is the run that is not watched, with a log that accounts for it. -/
theorem runCycles_watched (env : Environment σ) (k : Keeper) (ls : List Ledger) (s : σ) :
    ∃ log, k.runCycles env.watched ls (s, []) =
        ((k.runCycles env ls s).1, (k.runCycles env ls s).2, log) ∧
      k.Accounts log (k.runCycles env ls s).1 := by
  obtain ⟨hkeeper, hstate, haccounts⟩ :=
    (lockstep_watched env k).runCycles ls ⟨rfl, rfl, Accounts.refl k⟩ (s := s) (t := (s, []))
  exact ⟨_, Prod.ext hkeeper (Prod.ext hstate rfl), haccounts⟩

/-- **A cycle that is refused** leaves the registry and every vault state alone. -/
theorem sameBooks_refused (env : Environment σ) (l : Ledger) (k : Keeper) (s : σ)
    (h : (env.isHealthy s).1 = false) : (runCycle env l k s).1.2 = none ∧
      k.SameBooks (runCycle env l k s).1.1 ∧ (runCycle env l k s).2 = (env.isHealthy s).2 := by
  rw [runCycle_eq, h]
  exact ⟨rfl, ⟨rfl, rfl, rfl⟩, rfl⟩

end Keeper

/-- **What became of a vault over a run.** Its own submissions are carried out one after the other;
each changes the active strategy exactly when it moves the vault, that is when it is an applied
deposit of all or of some assets or an applied rebalance. So at the end the vault runs the strategy
of the last one that did, and its last batch is the last one that was answered. -/
structure VaultState.Follows (before after : VaultState) (own : List Submission) : Prop where
  /-- The submissions are carried out in order. -/
  state : after = before.following own
  /-- Each of them either moves the vault or leaves its strategy as it is. -/
  step : ∀ earlier x later, own = earlier ++ x :: later →
    (before.following (earlier ++ [x])).activeStrategy =
      if x.answer = some .applied ∧ (x.batch.plan.operation = .depositAll ∨
          x.batch.plan.operation = .depositSome ∨ x.batch.plan.operation = .rebalance)
      then some x.batch.plan.strategy else (before.following earlier).activeStrategy
  /-- The active strategy is that of the last submission that moved the vault. -/
  active : after.activeStrategy =
    ((own.filter (·.Moves)).getLast?.map (·.batch.plan.strategy)).or before.activeStrategy
  /-- The last batch is the last one with an answer. -/
  last : after.lastBatch =
    ((own.filter (·.answer.isSome)).getLast?.map (·.batch.id)).or before.lastBatch

/-- Carrying out submissions is what becomes of a vault over them. -/
theorem VaultState.follows_following (before : VaultState) (own : List Submission) :
    before.Follows (before.following own) own where
  state := rfl
  step earlier x _ _ := by
    rw [following_concat, activeStrategy_after]
    rfl
  active := activeStrategy_following before own
  last := lastBatch_following before own

/-- **A batch that was made for a vault.** It holds an instruction and leads to the strategy that
was selected for the vault, also when it rebalances. -/
structure Submission.MadeFor (x : Submission) (v : VaultConfig) : Prop where
  /-- The batch names the vault. -/
  vault : x.batch.vault = v.name
  /-- The batch holds an instruction. -/
  instructions : 0 < x.batch.plan.instructionCount
  /-- Its plan leads to what was selected. -/
  selected : ∃ (earlier r : Registry) (choice : Selection) (l : Ledger),
    earlier.bestStrategy v.riskProfile v.asset = .ok (choice, r) ∧
    Keeper.Led r v l choice.hash x.batch.plan

/-- **Positions move on applied batches only.** Whatever the executor answers, the states of all
vaults at the end of a run are accounted for by what was submitted. -/
theorem positions_move_on_applied_batches {σ : Type} (env : Environment σ) (k : Keeper)
    (hnames : (k.vaults.map (·.name)).Nodup) (ls : List Ledger) (s : σ) :
    ∃ k' s' log, k.runCycles env ls s = (k', s') ∧
      -- Watching the surroundings changes nothing.
      k.runCycles env.watched ls (s, []) = (k', s', log) ∧
      -- Every vault follows its own submissions.
      (∀ v ∈ k.vaults, ∀ before, k.vaultState? v.name = some before →
        ∃ after, k'.vaultState? v.name = some after ∧ before.Follows after (ofVault v.name log)) ∧
      -- Every submission belongs to one vault and has something to do.
      (∀ x ∈ log, ∃ v ∈ k.vaults, x.MadeFor v ∧ ∀ w ∈ k.vaults, w.name = x.batch.vault → w = v) ∧
      -- A cycle that is refused changes nothing and submits nothing.
      ∀ l, (env.isHealthy s').1 = false → k'.SameBooks (k'.runCycle env l s').1.1 ∧
        (k'.runCycle env.watched l (s', log)).2.2 = log := by
  obtain ⟨log, hwatched, haccounts⟩ := k.runCycles_watched env ls s
  refine ⟨_, _, log, rfl, hwatched, fun v hv before hbefore => ?_, fun x hx => ?_,
    fun l hrefused => ?_⟩
  · refine ⟨before.following (ofVault v.name log), ?_, before.follows_following _⟩
    rw [haccounts.states, hbefore]
    rfl
  · obtain ⟨v, hv, hvault, r, l, hplanned⟩ := haccounts.planned x hx
    obtain ⟨earlier, choice, hselected, hled⟩ := hplanned.led
    refine ⟨v, hv, ⟨hvault, hled.instructions, earlier, r, choice, l, hselected, hled⟩,
      fun w hw hname => ?_⟩
    exact List.inj_on_of_nodup_map hnames hw hv (hname.trans hvault)
  · obtain ⟨-, hbooks, -⟩ := Keeper.sameBooks_refused env l _ _ hrefused
    obtain ⟨-, -, hsame⟩ := Keeper.sameBooks_refused env.watched l (k.runCycles env ls s).1
      ((k.runCycles env ls s).2, log) hrefused
    exact ⟨hbooks, by rw [hsame]; rfl⟩

/-! ## A served vault

A vault with an idle balance is served by an executor that applies every batch. A second vault has a
profile that admits no pool. -/

namespace Served

/-- The first vault. -/
def treasury : VaultConfig :=
  { name := "treasury", owner := .ofNat 1, asset := .ofNat 2, riskProfile := "growth" }

/-- The second vault. -/
def other (second : String) (asset : Address) : VaultConfig :=
  { name := second, owner := .ofNat 3, asset, riskProfile := "steady" }

/-- Two vaults, and one pool for the asset of the first. -/
def deployment (second : String) (asset : Address) : Config where
  service := { name := "allocator" }
  snapshotPath := "chain_snapshot.json"
  governance := { admin := .ofNat 11 }
  protocols := [{ id := "vaults", kind := .vault }]
  pools := [{ address := .ofNat 4, protocol := "vaults", rating := some 9, approved := true,
              coins := [.ofNat 2] }]
  riskProfiles := [{ name := "growth", minRating := 0, maxRating := 10 },
    { name := "steady", minRating := 0, maxRating := 1 }]
  vaults := [treasury, other second asset]

/-- The registry of the configuration. -/
def deployed : Registry :=
  (Registry.ofConfig (deployment "reserve" (.ofNat 7))).toOption.getD default

/-- The registry does not depend on the vaults. -/
theorem ofConfig_deployment (second : String) (asset : Address) :
    Registry.ofConfig (deployment second asset) = .ok deployed := rfl

/-- The only pool. -/
def record : PoolRecord := ⟨.ofNat 4, some 9, true, 0⟩

/-- A deposit into the only pool. -/
def strategy : Strategy where
  underlying := .ofNat 2
  steps := [⟨.ofNat 4, .ofNat 4, false⟩]
  hash := strategyDigest (.ofNat 2) [⟨.ofNat 4, .ofNat 4, false⟩]
  steps_ne_nil := by simp
  underlying_ne_zero := Founding.asset_ne_zero
  hash_eq := rfl

/-- The registry once the deposit was selected. -/
def selected : Registry :=
  (deployed.register strategy).cacheDefault "growth" (tokenHash [.ofNat 2]) strategy.hash

/-- No other pool is registered. -/
theorem record_unique {found : PoolRecord} {pool : Address}
    (h : deployed.pools.get? pool = some found) : found = record := by
  have hmem := Table.mem_toList_iff.2 h
  have hlist : deployed.pools.toList = [(.ofNat 4, record)] := rfl
  simp only [hlist, List.mem_singleton, Prod.mk.injEq] at hmem
  exact hmem.2

/-- A configured registry is consistent. -/
theorem consistent_deployed : deployed.Consistent :=
  (Registry.Reached.of_config (ofConfig_deployment "reserve" (.ofNat 7))).consistent

/-- The deposit is selected for the first vault. -/
theorem bestStrategy_treasury : deployed.bestStrategy treasury.riskProfile treasury.asset =
    .ok (⟨strategy.hash, .ratingBased⟩, selected) := by
  have hbest : deployed.Best ⟨"growth", false, ⟨0, 10⟩⟩ (.ofNat 2) record :=
    ⟨⟨rfl, rfl, ⟨9, rfl, by decide, by decide⟩, _, rfl, rfl⟩,
      fun _ hknown hne => absurd (record_unique hknown.known) hne⟩
  exact (Registry.bestStrategy_eq_iff consistent_deployed (by decide)).2
    (.best (s := strategy) rfl rfl rfl hbest ⟨_, rfl, rfl⟩ rfl rfl)

/-- The selection leaves the registry behind that has remembered it. -/
theorem after_treasury :
    deployed.after (.select treasury.riskProfile treasury.asset) = selected := by
  rw [Registry.after_select, bestStrategy_treasury]

/-- A selection keeps the registry consistent. -/
theorem consistent_selected : selected.Consistent := by
  rw [← after_treasury]
  exact consistent_deployed.after _

/-- Nothing is selected for the second vault. -/
theorem bestStrategy_other {asset : Address} (hasset : asset ≠ .zero) :
    selected.bestStrategy "steady" asset = .error (.noEligibleStrategy "steady" asset) := by
  have hprofile : selected.profiles.get? "steady" = some ⟨"steady", false, ⟨0, 1⟩⟩ := rfl
  have hoverrides : selected.overrides = ∅ := rfl
  have hset : selected.overrides.get? ("steady", tokenHash [asset]) = none := by
    rw [hoverrides, Table.get?_empty]
  have hdefault : selected.defaults.get? ("steady", tokenHash [asset]) = none :=
    Table.get?_insert_of_ne _ _ (by simp)
  have hpaused : (selected.defaultState "steady" (tokenHash [asset])).isPaused = false := by
    rw [Registry.defaultState, hdefault]
    rfl
  refine (Registry.bestStrategy_eq_iff consistent_selected hasset).2
    (.none hprofile hset hpaused ?_)
  rintro found ⟨hknown, -, ⟨n, hn, -, hle⟩, -⟩
  cases record_unique hknown
  cases hn
  exact absurd hle (by decide)

/-- The first vault's owner holds some of its asset. -/
def ledger : Ledger :=
  ((default : Snapshot).setBalance (.ofNat 2) (.ofNat 1) (.ofNat 100)).ledger

/-- The deposit is found once it was selected. -/
theorem strategy_selected : selected.strategy strategy.hash = .ok strategy := by
  have hfound : (deployed.register strategy).strategy strategy.hash = .ok strategy :=
    Registry.strategy_register rfl
  rw [Registry.strategy_eq_ok] at hfound ⊢
  exact hfound

/-- The deposit compiles to a plan with calls in it. -/
theorem depositAll_selected : ∃ p, selected.depositAll (.ofNat 1) strategy.hash ledger = .ok p ∧
    p.isNoop = false := by
  rw [Registry.depositAll, Registry.compileDeposit, strategy_selected]
  exact ⟨_, rfl, rfl⟩

/-- An executor that applies every batch. -/
def applies : Environment Unit where
  isHealthy := return true
  nextId := return .ofNat 1
  now := return ⟨0, 0⟩
  execute b := return some ⟨b.id, .applied, b.plan.instructionCount, none⟩

variable (second : String) (asset : Address)

/-- The keeper of the configuration. -/
def keeper : Keeper := .new deployed (deployment second asset).vaults

/-- The keeper once it has served the first vault. -/
def moved : Keeper := ((keeper second asset).serveVault applies ledger treasury ()).1.1

/-- The keeper after a cycle. -/
def cycled : Keeper := ((keeper second asset).runCycle applies ledger ()).1.1

/-- The first vault of the keeper holds no position. -/
theorem vaultState?_keeper :
    (keeper second asset).vaultState? treasury.name = some { name := "treasury" } :=
  Keeper.vaultState?_new_of_mem List.mem_cons_self

/-- A deposit is planned for the first vault. -/
theorem planVault_treasury : ∃ p, p.strategy = strategy.hash ∧ p.operation = .depositAll ∧
    ((keeper second asset).planVault treasury ledger).2.1 = [p] ∧
    ((keeper second asset).planVault treasury ledger).1.registry = selected := by
  obtain ⟨p, hp, hnoop⟩ := depositAll_selected
  obtain ⟨hstrategy, hoperation, -⟩ := Registry.depositAll_eq_ok hp
  have hattempts : Keeper.attempts selected treasury none strategy.hash ledger =
      [⟨.depositAll, selected.depositAll (.ofNat 1) strategy.hash ledger⟩] := rfl
  have hbest : (keeper second asset).registry.bestStrategy treasury.riskProfile treasury.asset =
    .ok (⟨strategy.hash, .ratingBased⟩, selected) := bestStrategy_treasury
  obtain ⟨hbooks, hplans⟩ := Keeper.planVault_of_ok (l := ledger) hbest
  refine ⟨p, hstrategy, hoperation, ?_, hbooks.registry⟩
  rw [hplans, vaultState?_keeper, Option.bind_some, hattempts, hp]
  simp [Keeper.Attempt.plan?, Except.toOption, Option.filter, hnoop]

/-- Serving the first vault moves it. -/
theorem vaultState?_moved : (moved second asset).registry = selected ∧
    (moved second asset).vaultState? "treasury" =
      some ⟨"treasury", some strategy.hash, some (.ofNat 1)⟩ := by
  obtain ⟨p, hstrategy, hoperation, hplans, hselected⟩ := planVault_treasury second asset
  have hregistry : (moved second asset).registry = selected := by
    rw [moved, (Keeper.registry_serveVault applies ledger (keeper second asset) treasury ()).1,
      hselected]
  refine ⟨hregistry, ?_⟩
  have hmoved : moved second asset = (Keeper.submit applies treasury
      ((keeper second asset).planVault treasury ledger).1 p ()).1.1 := by
    rw [moved, Keeper.serveVault_of_plans hplans, Keeper.submitAll_singleton]
  have hbefore : ((keeper second asset).planVault treasury ledger).1.vaultState? "treasury" =
      some { name := "treasury" } := by
    rw [Keeper.vaultState?, (Keeper.active_planVault _ treasury ledger).2]
    exact vaultState?_keeper second asset
  rw [hmoved, Keeper.vaultState?_submit, if_pos (show treasury.name = "treasury" from rfl), hbefore]
  change some ({ name := "treasury",
                 activeStrategy := if p.operation.movesPosition then some p.strategy else none,
                 lastBatch := some (.ofNat 1) } : VaultState) = _
  rw [hoperation, hstrategy]
  rfl

/-- After a cycle the first vault runs the deposit, whatever the second one is. -/
theorem vaultState?_cycled (hasset : asset ≠ .zero) : (cycled second asset).registry = selected ∧
    (cycled second asset).vaultState? "treasury" =
      some ⟨"treasury", some strategy.hash, some (.ofNat 1)⟩ := by
  obtain ⟨hregistry, hstate⟩ := vaultState?_moved second asset
  have hbest : (moved second asset).registry.bestStrategy "steady" asset =
      .error (.noEligibleStrategy "steady" asset) := by
    rw [hregistry]
    exact bestStrategy_other hasset
  obtain ⟨hbooks, hplans⟩ := Keeper.planVault_of_error (v := other second asset) (l := ledger) hbest
  have hserved : (Keeper.serveVaults applies ledger (keeper second asset)
      [treasury, other second asset] ()).1.1 =
        ((moved second asset).planVault (other second asset) ledger).1 := by
    rw [Keeper.serveVaults_cons, Keeper.serveVaults_cons, Keeper.serveVaults_nil, ← moved,
      Keeper.serveVault_of_plans hplans, Keeper.submitAll_nil]
  have hhealthy : (applies.isHealthy ()).1 = true := rfl
  have hflag : (keeper second asset).health.executor = true := rfl
  have hvaults : (keeper second asset).vaults = [treasury, other second asset] := rfl
  have hcycled := Keeper.sameBooks_runCycle (l := ledger) hhealthy hflag
  rw [hvaults, hserved, ← cycled] at hcycled
  have hsame := hbooks.trans hcycled
  rw [hsame.registry, hsame.vaultState?_eq]
  exact ⟨hregistry, hstate⟩

/-- The first vault runs the deposit because a submission that was applied moved it there. -/
theorem treasury_moved : ((keeper "reserve" (.ofNat 7)).vaults.map (·.name)).Nodup ∧
    ∃ k' s' log, (keeper "reserve" (.ofNat 7)).runCycles applies [ledger] () = (k', s') ∧
      (keeper "reserve" (.ofNat 7)).runCycles applies.watched [ledger] ((), []) = (k', s', log) ∧
      (k'.vaultState? "treasury").bind (·.activeStrategy) = some strategy.hash ∧
      ∃ x ∈ log, x.Moves ∧ x.batch.plan.strategy = strategy.hash := by
  have hnames : ((keeper "reserve" (.ofNat 7)).vaults.map (·.name)).Nodup := by decide
  obtain ⟨k', s', log, hrun, hwatched, hfollows, -⟩ :=
    positions_move_on_applied_batches applies (keeper "reserve" (.ofNat 7)) hnames [ledger] ()
  obtain ⟨after, hafter, hfollowed⟩ :=
    hfollows treasury List.mem_cons_self _ (vaultState?_keeper "reserve" (.ofNat 7))
  have hstate : k'.vaultState? "treasury" =
      some ⟨"treasury", some strategy.hash, some (.ofNat 1)⟩ := by
    have hkeeper : k' = cycled "reserve" (.ofNat 7) := by
      rw [cycled, ← Keeper.runCycles_singleton, hrun]
    rw [hkeeper]
    exact (vaultState?_cycled "reserve" (.ofNat 7) (by decide)).2
  have hactive := hfollowed.active
  cases hstate.symm.trans hafter
  -- Nothing ran before, so what runs now was set by a submission.
  cases hlast : ((ofVault treasury.name log).filter (·.Moves)).getLast? with
  | none =>
    rw [hlast] at hactive
    cases hactive
  | some x =>
    rw [hlast] at hactive
    obtain ⟨hx, hmoves⟩ := List.mem_filter.1 (List.mem_of_getLast? hlast)
    exact ⟨hnames, k', s', log, hrun, hwatched, by rw [hstate]; rfl, x, (List.mem_filter.1 hx).1,
      of_decide_eq_true hmoves, (Option.some.inj hactive).symm⟩

end Served

end VaultKeeper
