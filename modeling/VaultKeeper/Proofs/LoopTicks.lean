import Mathlib.Data.List.Induction
import VaultKeeper.Keeper.Loop
import VaultKeeper.Proofs.CycleReports
import VaultKeeper.Proofs.Restart
import VaultKeeper.Proofs.StateFiles

/-! # Ticks of the loop

A run of the loop is the ticks that are due before it is asked to stop, one after the other, and a
save when it stops. The surroundings of the keeper are observed: they answer as before, and list the
answers about the executor together with the batches. Each tick adds what it does to the list, and
the flags of readiness follow the list by induction on the ticks. -/

namespace VaultKeeper

/-! ## Observed surroundings -/

/-- What is seen of a keeper from outside. -/
inductive Observation
  /-- It asked whether the executor accepts batches, and was told. -/
  | asked (healthy : Bool)
  /-- It handed over a batch, and was answered or not. -/
  | submitted (x : Submission)
deriving DecidableEq

/-- What the keeper was told about the executor. -/
def Observation.answer? : Observation → Option Bool
  | asked healthy => some healthy
  | submitted _ => none

/-- The answers about the executor, in order. -/
def answers (seen : List Observation) : List Bool := seen.filterMap Observation.answer?

/-- Surroundings that answer as before and list what they see. -/
def Environment.observed {σ : Type} (env : Environment σ) :
    Environment (σ × List Observation) where
  isHealthy := fun (s, seen) =>
    ((env.isHealthy s).1, (env.isHealthy s).2, seen ++ [.asked (env.isHealthy s).1])
  nextId := fun (s, seen) => ((env.nextId s).1, (env.nextId s).2, seen)
  now := fun (s, seen) => ((env.now s).1, (env.now s).2, seen)
  execute b := fun (s, seen) => ((env.execute b s).1, (env.execute b s).2,
    seen ++ [.submitted ⟨b, (env.execute b s).1.map (·.status)⟩])

/-- Later answers come after earlier ones. -/
theorem answers_append (seen more : List Observation) :
    answers (seen ++ more) = answers seen ++ answers more := List.filterMap_append

/-- Batches tell nothing about the executor. -/
theorem answers_submitted (log : List Submission) : answers (log.map .submitted) = [] := by
  rw [answers, List.filterMap_map]
  exact List.filterMap_eq_nil_iff.2 fun _ _ => rfl

namespace Keeper

variable {σ α β : Type} {k k' k'' : Keeper} {s : σ}

/-! ## Serving vaults -/

/-- **Two keepers with the same marks.** What they plan and what they know of vaults may differ. -/
structure SameMarks (k k' : Keeper) : Prop where
  /-- The flags are the same. -/
  health : k'.health = k.health
  /-- As many cycles were counted. -/
  cycles : k'.metrics.map (·.cycles) = k.metrics.map (·.cycles)
  /-- States are kept by both or by neither. -/
  storage : k'.storage.isSome = k.storage.isSome

namespace SameMarks

/-- A keeper has its own marks. -/
theorem refl (k : Keeper) : k.SameMarks k := ⟨rfl, rfl, rfl⟩

/-- Marks that are the same as the same ones. -/
theorem trans (h : k.SameMarks k') (h' : k'.SameMarks k'') : k.SameMarks k'' :=
  ⟨h'.health.trans h.health, h'.cycles.trans h.cycles, h'.storage.trans h.storage⟩

/-- As many cycles are counted after one more. -/
theorem countCycle (h : k.SameMarks k') :
    (k.count (·.countCycle)).SameMarks (k'.count (·.countCycle)) := by
  refine ⟨h.health, ?_, h.storage⟩
  have hcounted := congrArg (Option.map (· + 1)) h.cycles
  rw [Option.map_map, Option.map_map] at hcounted
  rw [count, count, Option.map_map, Option.map_map]
  exact hcounted

end SameMarks

/-- Counting anything but cycles leaves the marks alone. -/
theorem sameMarks_count (k : Keeper) {f : Metrics → Metrics}
    (hf : ∀ m, (f m).cycles = m.cycles) : k.SameMarks (k.count f) := by
  refine ⟨rfl, ?_, rfl⟩
  rw [count, Option.map_map]
  exact congrArg (k.metrics.map ·) (funext hf)

/-- Counting attempts leaves the marks alone. -/
theorem sameMarks_countAttempts (k : Keeper) (tried : List Attempt) :
    k.SameMarks (tried.foldl countAttempt k) := by
  induction tried generalizing k with
  | nil => exact .refl k
  | cons a rest ih =>
    refine SameMarks.trans ?_ (ih _)
    unfold countAttempt
    split
    · exact sameMarks_count k fun _ => rfl
    · split
      · exact .refl k
      · exact sameMarks_count k fun _ => rfl

/-- Planning leaves the marks alone. -/
theorem sameMarks_planVault (k : Keeper) (v : VaultConfig) (l : Ledger) :
    k.SameMarks (k.planVault v l).1 := by
  unfold planVault
  split
  · exact sameMarks_count k fun _ => rfl
  · rename_i selection registry _
    have hregistry : k.SameMarks { k with registry } := ⟨rfl, rfl, rfl⟩
    have hcounted := sameMarks_count { k with registry }
      (f := (·.countSelection selection.source.text)) fun _ => rfl
    exact (hregistry.trans hcounted).trans (sameMarks_countAttempts _ _)

/-- Noting an outcome leaves the marks alone. -/
theorem sameMarks_settle (k : Keeper) (b : Batch) (status : ExecutionStatus) :
    k.SameMarks (k.settle b status) := by
  unfold settle
  split
  · exact .refl k
  · dsimp only
    split
    · refine ⟨rfl, ?_, rfl⟩
      rw [Option.map_map]
      rfl
    · exact ⟨rfl, rfl, rfl⟩

/-- Hearing an answer leaves the marks alone. -/
theorem sameMarks_heard (k : Keeper) (b : Batch) (x : Option ExecutionStatus) :
    k.SameMarks (k.heard b x) := by
  cases x with
  | none => exact sameMarks_count k fun _ => rfl
  | some status =>
    have hcounted : k.SameMarks (k.count (·.countExecution status.text)) :=
      sameMarks_count k fun _ => rfl
    exact hcounted.trans (sameMarks_settle _ b status)

/-- Logging leaves the marks alone. -/
theorem sameMarks_record (k : Keeper) (x : PlanRecord) : k.SameMarks (k.record x) :=
  ⟨rfl, rfl, Option.isSome_map⟩

/-- Saving leaves the marks alone. -/
theorem sameMarks_persist (env : Environment σ) (k : Keeper) (s : σ) :
    k.SameMarks (persist env k s).1 := by
  unfold persist
  cases h : k.storage with
  | none => exact .refl k
  | some storage =>
    refine ⟨rfl, rfl, ?_⟩
    rw [h]
    rfl

/-- **A save** leaves the state of the keeper in the file, and it can be loaded from there. -/
theorem exists_saved_state (env : Environment σ) (s : σ) (h : k.storage.isSome = true) :
    let final := (persist env k s).1
    let time := (env.now s).1
    ∃ files, final.storage = some files ∧
      files.state.current = some (final.savedState time).bytes ∧
      (time.Proper → files.state.load = .ok (some (final.savedState time))) := by
  intro final time
  obtain ⟨files, hfiles⟩ :=
    Option.isSome_iff_exists.1 ((sameMarks_persist env k s).storage.trans h)
  have hsaved := state_persist hfiles
  exact ⟨files, hfiles, hsaved, fun htime => StateFile.load_of_current hsaved ⟨rfl, htime⟩⟩

/-- **A program that serves vaults.** Nothing is seen of it but the batches that it hands over, and
it leaves the marks alone. -/
structure Serves (k : Keeper) (s : σ) (run : StateM σ (Keeper × α))
    (seen : StateM (σ × List Observation) (Keeper × α)) : Prop where
  /-- The marks stay as they are. -/
  marks : k.SameMarks (run s).1.1
  /-- Batches are seen. -/
  observed : ∃ log : List Submission, ∀ earlier,
    seen (s, earlier) = ((run s).1, (run s).2, earlier ++ log.map .submitted)

namespace Serves

/-- Returning a keeper with the same marks. -/
theorem pure (h : k.SameMarks k') (a : α) (s : σ) :
    k.Serves s (Pure.pure (k', a)) (Pure.pure (k', a)) :=
  ⟨h, [], fun earlier => by rw [List.map_nil, List.append_nil]; rfl⟩

/-- What serves vaults serves them for every keeper with the same marks. -/
theorem of_marks {run : StateM σ (Keeper × α)}
    {seen : StateM (σ × List Observation) (Keeper × α)} (hmarks : k.SameMarks k')
    (h : k'.Serves s run seen) : k.Serves s run seen := ⟨hmarks.trans h.marks, h.observed⟩

/-- **One program after the other.** -/
theorem bind {run : StateM σ (Keeper × α)} {seen : StateM (σ × List Observation) (Keeper × α)}
    {f : Keeper × α → StateM σ (Keeper × β)}
    {g : Keeper × α → StateM (σ × List Observation) (Keeper × β)} (h : k.Serves s run seen)
    (hf : (run s).1.1.Serves (run s).2 (f (run s).1) (g (run s).1)) :
    k.Serves s (run >>= f) (seen >>= g) := by
  obtain ⟨log, hlog⟩ := h.observed
  obtain ⟨more, hmore⟩ := hf.observed
  refine ⟨h.marks.trans hf.marks, log ++ more, fun earlier => ?_⟩
  rw [stateM_bind, stateM_bind, hlog, hmore, List.map_append, List.append_assoc]

/-- Handing over one plan. -/
theorem submit (env : Environment σ) (v : VaultConfig) (k : Keeper) (p : Plan) (s : σ) :
    k.Serves s (Keeper.submit env v k p) (Keeper.submit env.observed v k p) where
  marks := by
    rw [submit_eq]
    have hheard := k.sameMarks_heard (nextBatch env v p s)
    cases answer env v p s with
    | mk x s' =>
      cases x with
      | none => exact hheard none
      | some o => exact (hheard _).trans (sameMarks_record _ _)
  observed := by
    refine ⟨[submission env v p s], fun earlier => ?_⟩
    have hanswer : answer env.observed v p (s, earlier) = ((answer env v p s).1,
      (answer env v p s).2, earlier ++ [.submitted (submission env v p s)]) := rfl
    rw [submit_eq env.observed, hanswer, submit_eq env]
    -- The batch is seen whether it is answered or not.
    cases answer env v p s with
    | mk x s' =>
      cases x with
      | none => rfl
      | some o => rfl

/-- Handing over plans. -/
theorem submitAll (env : Environment σ) (v : VaultConfig) (k : Keeper) (plans : List Plan)
    (s : σ) : k.Serves s (Keeper.submitAll env v k plans)
      (Keeper.submitAll env.observed v k plans) := by
  induction plans generalizing k s with
  | nil => exact .pure (.refl k) _ s
  | cons p rest ih => exact (submit env v k p s).bind ((ih _ _).bind (.pure (.refl _) _ _))

/-- Serving one vault. -/
theorem serveVault (env : Environment σ) (l : Ledger) (k : Keeper) (v : VaultConfig) (s : σ) :
    k.Serves s (Keeper.serveVault env l k v) (Keeper.serveVault env.observed l k v) := by
  have hall := submitAll env v (k.planVault v l).1 (k.planVault v l).2.1 s
  exact .of_marks (k.sameMarks_planVault v l) (hall.bind (.pure (.refl _) _ _))

/-- **Serving vaults.** -/
theorem serveVaults (env : Environment σ) (l : Ledger) (k : Keeper) (vs : List VaultConfig)
    (s : σ) : k.Serves s (Keeper.serveVaults env l k vs)
      (Keeper.serveVaults env.observed l k vs) := by
  induction vs generalizing k s with
  | nil => exact .pure (.refl k) _ s
  | cons v rest ih => exact (serveVault env l k v s).bind ((ih _ _).bind (.pure (.refl _) _ _))

end Serves

/-! ## Cycles -/

/-- An answer about the executor is seen. -/
theorem isHealthy_observed (env : Environment σ) (s : σ) (earlier : List Observation) :
    env.observed.isHealthy (s, earlier) = ((env.isHealthy s).1, (env.isHealthy s).2,
      earlier ++ [.asked (env.isHealthy s).1]) := rfl

/-- Nothing is seen of a save. -/
theorem persist_observed (env : Environment σ) (k : Keeper) (s : σ) (earlier : List Observation) :
    persist env.observed k (s, earlier) = ((persist env k s).1, (persist env k s).2, earlier) := by
  unfold persist
  cases k.storage with
  | none => rfl
  | some storage => rfl

/-- **A cycle that is refused** sets the flag of the executor back, and is seen by the answer. -/
theorem runCycle_of_refused (l : Ledger) (k : Keeper) {env : Environment σ} {s : σ}
    (h : (env.isHealthy s).1 = false) :
    runCycle env l k s =
        (({ k with health := { k.health with executor := false } }, none), (env.isHealthy s).2) ∧
      ∀ earlier, runCycle env.observed l k (s, earlier) =
        ((runCycle env l k s).1, (runCycle env l k s).2, earlier ++ [.asked false]) := by
  have hrefused : runCycle env l k s =
      (({ k with health := { k.health with executor := false } }, none), (env.isHealthy s).2) := by
    rw [runCycle_eq, h]
    rfl
  refine ⟨hrefused, fun earlier => ?_⟩
  rw [hrefused, runCycle_eq, isHealthy_observed, h]
  rfl

/-- **A cycle with a healthy executor** is seen by the answer and the batches. It is counted, and
the flag of the executor is set. -/
theorem runCycle_observed (env : Environment σ) (l : Ledger) (k : Keeper) (s : σ)
    (h : (env.isHealthy s).1 = true) :
    ∃ (k' : Keeper) (report : CycleReport) (s' : σ) (log : List Submission),
      runCycle env l k s = ((k', some report), s') ∧
      (∀ earlier, runCycle env.observed l k (s, earlier) =
        ((k', some report), s', earlier ++ .asked true :: log.map .submitted)) ∧
      ({ k with health := { k.health with executor := true } }.count (·.countCycle)).SameMarks
        k' := by
  obtain ⟨hmarks, log, hlog⟩ := Serves.serveVaults env l
    { k with health := { k.health with executor := true } } k.vaults (env.isHealthy s).2
  refine ⟨_, _, _, log, by rw [runCycle_eq, h]; rfl, fun earlier => ?_, ?_⟩
  · rw [runCycle_eq, isHealthy_observed, h]
    dsimp only
    rw [if_pos rfl, hlog, persist_observed, List.append_assoc, List.singleton_append]
  · exact hmarks.countCycle.trans (sameMarks_persist env _ _)

/-! ## Ticks -/

/-- Whether a snapshot can be read from a file. -/
def readable (file : Option String) : Bool := (file.bind Snapshot.ofText?).isSome

/-- **What one tick amounts to**: from a keeper `k` in surroundings `s` to `k'` and `s'`, with what
is seen of it. -/
structure Ticked (env : Environment σ) (file : Option String) (k : Keeper) (s : σ) (k' : Keeper)
    (s' : σ) (own : List Observation) : Prop where
  /-- Batches are handed over when the snapshot was read and the executor is healthy. -/
  submits : ∀ x, .submitted x ∈ own → readable file = true ∧ (env.isHealthy s).1 = true
  /-- Without a snapshot only a flag changes, and nobody is asked anything. -/
  unread : readable file = false → k' = { k with health := k'.health } ∧ s' = s ∧ own = []
  /-- With an executor that is not healthy only flags change. -/
  refused : readable file = true → (env.isHealthy s).1 = false →
    k' = { k with health := k'.health } ∧ own = [.asked false]
  /-- Otherwise one cycle runs on the snapshot, and it is counted. -/
  cycle : ∀ snapshot, file.bind Snapshot.ofText? = some snapshot → (env.isHealthy s).1 = true →
    ∃ (report : CycleReport) (log : List Submission),
      runCycle env snapshot.ledger (k.noteSnapshot true) s = ((k', some report), s') ∧
      own = .asked true :: log.map .submitted ∧
      k'.metrics.map (·.cycles) = k.metrics.map (·.cycles + 1)
  /-- The flags are what was found out last. -/
  flags : k'.health =
    ⟨readable file, (answers own).getLast?.getD k.health.executor, k.health.running⟩
  /-- States are kept as before or not at all. -/
  storage : k'.storage.isSome = k.storage.isSome

/-- A tick without a snapshot. -/
theorem tick_of_unread {env : Environment σ} {file : Option String}
    (h : file.bind Snapshot.ofText? = none) (k : Keeper) (s : σ) :
    tick env k file s = (k.noteSnapshot false, s) := by
  rw [tick, h]
  rfl

/-- A tick with a snapshot. -/
theorem tick_of_read {env : Environment σ} {file : Option String} {snapshot : Snapshot}
    (h : file.bind Snapshot.ofText? = some snapshot) (k : Keeper) (s : σ) :
    tick env k file s =
      let cycle := runCycle env snapshot.ledger (k.noteSnapshot true) s
      (cycle.1.1, cycle.2) := by
  rw [tick, h]
  rfl

/-- **An observed tick** goes as the one that is not observed. -/
theorem tick_observed (env : Environment σ) (k : Keeper) (file : Option String) (s : σ) :
    ∃ own, (∀ earlier, tick env.observed k file (s, earlier) =
        ((tick env k file s).1, (tick env k file s).2, earlier ++ own)) ∧
      Ticked env file k s (tick env k file s).1 (tick env k file s).2 own := by
  cases hread : file.bind Snapshot.ofText? with
  | none =>
    have hreadable : readable file = false := by rw [readable, hread]; rfl
    refine ⟨[], fun earlier => ?_, ?_⟩
    · rw [tick_of_unread hread, tick_of_unread hread, List.append_nil]
    · rw [tick_of_unread hread]
      refine ⟨nofun, fun _ => ⟨rfl, rfl, rfl⟩, ?_, ?_, ?_, rfl⟩
      · rw [hreadable]
        nofun
      · rw [hread]
        nofun
      · rw [hreadable]
        rfl
  | some snapshot =>
    have hreadable : readable file = true := by rw [readable, hread]; rfl
    cases hhealthy : (env.isHealthy s).1 with
    | false =>
      obtain ⟨hcycle, hseen⟩ := runCycle_of_refused snapshot.ledger (k.noteSnapshot true) hhealthy
      refine ⟨[.asked false], fun earlier => ?_, ?_⟩
      · rw [tick_of_read hread, tick_of_read hread, hseen]
      · rw [tick_of_read hread, hcycle]
        refine ⟨by simp, ?_, fun _ _ => ⟨rfl, rfl⟩, ?_, ?_, rfl⟩
        · rw [hreadable]
          nofun
        · rw [hhealthy]
          nofun
        · rw [hreadable]
          rfl
    | true =>
      obtain ⟨k', report, s', log, hcycle, hseen, hmarks⟩ :=
        runCycle_observed env snapshot.ledger (k.noteSnapshot true) s hhealthy
      refine ⟨.asked true :: log.map .submitted, fun earlier => ?_, ?_⟩
      · rw [tick_of_read hread, tick_of_read hread, hseen, hcycle]
      · rw [tick_of_read hread, hcycle]
        refine ⟨fun _ _ => ⟨hreadable, hhealthy⟩, ?_, ?_, fun other hother _ => ?_, ?_,
          hmarks.storage⟩
        · rw [hreadable]
          nofun
        · rw [hhealthy]
          nofun
        · cases hread.symm.trans hother
          refine ⟨report, log, hcycle, rfl, hmarks.cycles.trans ?_⟩
          rw [count, Option.map_map]
          rfl
        · have hanswers : answers (.asked true :: log.map .submitted) = [true] :=
            congrArg (true :: ·) (answers_submitted log)
          rw [hmarks.health, hanswers, hreadable]
          rfl

/-! ## Runs -/

/-- Ticks one after the other. -/
def ticks (env : Environment σ) : Keeper → List (Option String) → StateM σ Keeper
  | k, [] => Pure.pure k
  | k, file :: rest => do ticks env (← tick env k file) rest

/-- What is seen of some ticks. -/
def observations (env : Environment σ) (k : Keeper) (files : List (Option String)) (s : σ) :
    List Observation := (ticks env.observed k files (s, [])).2.2

/-- One tick before the others. -/
theorem ticks_cons (env : Environment σ) (k : Keeper) (file : Option String)
    (rest : List (Option String)) (s : σ) : ticks env k (file :: rest) s =
      ticks env (tick env k file s).1 rest (tick env k file s).2 := rfl

/-- Some ticks after others. -/
theorem ticks_append (env : Environment σ) (k : Keeper) (files more : List (Option String))
    (s : σ) : ticks env k (files ++ more) s =
      ticks env (ticks env k files s).1 more (ticks env k files s).2 := by
  induction files generalizing k s with
  | nil => rfl
  | cons file rest ih => rw [List.cons_append, ticks_cons, ticks_cons, ih]

/-- **Observed ticks** go as those that are not observed. -/
theorem ticks_observed (env : Environment σ) (k : Keeper) (files : List (Option String)) (s : σ)
    (earlier : List Observation) : ticks env.observed k files (s, earlier) =
      ((ticks env k files s).1, (ticks env k files s).2,
        earlier ++ observations env k files s) := by
  induction files generalizing k s earlier with
  | nil => exact Prod.ext rfl (Prod.ext rfl (List.append_nil _).symm)
  | cons file rest ih =>
    obtain ⟨own, hown, -⟩ := tick_observed env k file s
    have hstep : ∀ seen, ticks env.observed k (file :: rest) (s, seen) =
        ticks env.observed (tick env k file s).1 rest ((tick env k file s).2, seen ++ own) := by
      intro seen
      rw [ticks_cons, hown]
    rw [observations, hstep, hstep, ih, ih, List.nil_append, List.append_assoc]
    rfl

/-- **Every tick of a run** is a tick, and what is seen of it comes last. -/
theorem ticked_concat (env : Environment σ) (k : Keeper) (files : List (Option String))
    (file : Option String) (s : σ) :
    ∃ own, observations env k (files ++ [file]) s = observations env k files s ++ own ∧
      Ticked env file (ticks env k files s).1 (ticks env k files s).2
        (ticks env k (files ++ [file]) s).1 (ticks env k (files ++ [file]) s).2 own := by
  obtain ⟨own, hown, hticked⟩ :=
    tick_observed env (ticks env k files s).1 file (ticks env k files s).2
  refine ⟨own, ?_, ?_⟩
  · have hlast : ticks env.observed k (files ++ [file]) (s, []) =
        tick env.observed (ticks env k files s).1 file
          ((ticks env k files s).2, observations env k files s) := by
      rw [ticks_append, ticks_observed env k files s, List.nil_append]
      rfl
    rw [observations, hlast, hown]
  · rw [ticks_append]
    exact hticked

/-- **The flags after some ticks** are what was found out last. -/
theorem health_ticks (env : Environment σ) (k : Keeper) (files : List (Option String)) (s : σ) :
    (ticks env k files s).1.health =
      ⟨(files.map readable).getLast?.getD k.health.snapshot,
        (answers (observations env k files s)).getLast?.getD k.health.executor,
        k.health.running⟩ := by
  induction files using List.reverseRecOn with
  | nil => rfl
  | append_singleton files file ih =>
    obtain ⟨own, hown, hticked⟩ := ticked_concat env k files file s
    rw [hticked.flags, ih, hown, answers_append, List.getLast?_append, List.map_append,
      List.map_singleton, List.getLast?_concat]
    -- A tick that asked nobody leaves the last answer as it was.
    cases (answers own).getLast? with
    | none => rfl
    | some healthy => rfl

/-- States are kept over some ticks, or not at all. -/
theorem isSome_storage_ticks (env : Environment σ) (k : Keeper) (files : List (Option String))
    (s : σ) : (ticks env k files s).1.storage.isSome = k.storage.isSome := by
  induction files using List.reverseRecOn with
  | nil => rfl
  | append_singleton files file ih =>
    obtain ⟨own, -, hticked⟩ := ticked_concat env k files file s
    exact hticked.storage.trans ih

/-- The ticks that are due before the loop is asked to stop. -/
def due (ws : List WakeUp) : List (Option String) := (ws.takeWhile (!·.stop)).map (·.file)

/-- **A run is its ticks**, and a save when it was asked to stop. -/
theorem serve_eq (env : Environment σ) (k : Keeper) (ws : List WakeUp) (s : σ) :
    serve env k ws s =
      let last := ticks env k (due ws) s
      if ws.any (·.stop) then persist env (last.1.noteRunning false) last.2 else last := by
  induction ws generalizing k s with
  | nil => rfl
  | cons w rest ih =>
    rw [serve, due, List.takeWhile_cons, List.any_cons]
    cases w.stop with
    | true => rfl
    | false => exact ih _ _

/-- Nothing counts that is due together with a request to stop, or later. -/
theorem due_stop {w : WakeUp} (hw : w.stop = true) (earlier later : List WakeUp) :
    due (earlier ++ w :: later) = due (earlier ++ [⟨true, none⟩]) := by
  rw [due, due]
  congr 1
  induction earlier with
  | nil => simp [hw]
  | cons first rest ih => simp only [List.cons_append, List.takeWhile_cons, ih]

end Keeper

open Keeper

/-- **The loop acts on good ticks and tells whether it is ready.** A run is made of the ticks that
are due before a request to stop, each of which does what `Keeper.Ticked` says. While it runs, the
loop is ready exactly when the last snapshot was read and the last answer about the executor was
good. -/
theorem loop_acts_on_good_ticks {σ : Type} (env : Environment σ) (k : Keeper) (ws : List WakeUp)
    (s : σ) :
    let start := k.noteRunning true
    let last := start.ticks env (due ws) s
    let final := k.run env ws s
    let time := (env.now last.2).1
    -- After the ticks that are due comes a save when there was a request to stop.
    final = (if ws.any (·.stop) then persist env (last.1.noteRunning false) last.2 else last) ∧
    -- A tick that is due together with the request is not served.
    (∀ earlier w later, ws = earlier ++ w :: later → w.stop = true →
      final = k.run env (earlier ++ [⟨true, none⟩]) s) ∧
    -- Observing a run changes nothing, and nothing is seen but its ticks.
    k.run env.observed ws (s, []) = (final.1, final.2, start.observations env (due ws) s) ∧
    -- Every tick does what it should.
    (∀ earlier file later, due ws = earlier ++ file :: later →
      ∃ own, start.observations env (earlier ++ [file]) s =
          start.observations env earlier s ++ own ∧
        Ticked env file (start.ticks env earlier s).1 (start.ticks env earlier s).2
          (start.ticks env (earlier ++ [file]) s).1 (start.ticks env (earlier ++ [file]) s).2
          own) ∧
    -- After every tick the loop is ready when the last snapshot and the last answer were good.
    (∀ earlier later, due ws = earlier ++ later →
      (start.ticks env earlier s).1.health.isReady =
        ((earlier.map readable).getLast?.getD k.health.snapshot &&
          (answers (start.observations env earlier s)).getLast?.getD k.health.executor)) ∧
    -- In a new keeper both are taken to be good.
    (∀ r vaults, (Keeper.new r vaults).health.snapshot = true ∧
      (Keeper.new r vaults).health.executor = true) ∧
    -- A loop that has stopped is not ready, and the state that it has saved is the last one.
    (ws.any (·.stop) = true → final.1.health.isReady = false ∧
      (k.storage.isSome = true → ∃ files, final.1.storage = some files ∧
        files.state.current = some (final.1.savedState time).bytes ∧
        (time.Proper → files.state.load = .ok (some ⟨SavedState.currentVersion, time,
          final.1.registry.saved, final.1.active.values⟩)))) := by
  intro start last final time
  have hfinal : final =
      if ws.any (·.stop) then persist env (last.1.noteRunning false) last.2 else last :=
    serve_eq env start ws s
  refine ⟨hfinal, fun earlier w later hws hw => ?_, ?_, fun earlier file _ _ => ?_,
    fun earlier _ _ => ?_, fun _ _ => ⟨rfl, rfl⟩, fun hstop => ?_⟩
  · have hdue : due ws = due (earlier ++ [⟨true, none⟩]) := by rw [hws, due_stop hw]
    have hstop : ws.any (·.stop) = (earlier ++ [(⟨true, none⟩ : WakeUp)]).any (·.stop) := by
      simp [hws, hw]
    rw [hfinal, run, serve_eq, ← hdue, ← hstop]
  · rw [hfinal, run, serve_eq, ticks_observed]
    cases ws.any (·.stop) with
    | true => exact persist_observed env _ _ _
    | false => rfl
  · exact ticked_concat env start earlier file s
  · rw [health_ticks, Health.isReady]
    rfl
  · rw [if_pos hstop] at hfinal
    rw [hfinal]
    refine ⟨?_, fun hkept => ?_⟩
    · rw [(sameMarks_persist env _ _).health]
      rfl
    · exact exists_saved_state env last.2 ((isSome_storage_ticks env start _ s).trans hkept)

namespace Served

/-- The keeper of two vaults, which counts and keeps its state. -/
def keeping : Keeper := { counting with storage := some {} }

/-- The text of a snapshot in which nobody owns anything. -/
def emptyText : String := "\x7b\x7d"

/-- A tick without a snapshot, a tick with one, and a request to stop when another tick is due. -/
def wakeUps : List WakeUp := [⟨false, none⟩, ⟨false, some emptyText⟩, ⟨true, some emptyText⟩]

/-- The keeper is ready after the second tick only. It runs one cycle, and stops with its state
saved. -/
theorem stops_after_one_cycle :
    ((keeping.noteRunning true).ticks applies [none] ()).1.health.isReady = false ∧
    ((keeping.noteRunning true).ticks applies [none, some emptyText] ()).1.health.isReady = true ∧
    ∃ final files, (keeping.run applies wakeUps ()).1 = final ∧ final.health.isReady = false ∧
      final.metrics.map (·.cycles) = some 1 ∧ final.storage = some files ∧
      files.state.load =
        .ok (some ⟨1, ⟨0, 0⟩, final.registry.saved, final.active.values⟩) := by
  obtain ⟨hfinal, -, -, hticks, hready, -, hstop⟩ :=
    loop_acts_on_good_ticks applies keeping wakeUps ()
  have hasked : wakeUps.any (·.stop) = true := rfl
  obtain ⟨hstopped, hkept⟩ := hstop hasked
  obtain ⟨files, hfiles, -, hload⟩ := hkept rfl
  -- The first tick leaves the counts alone, and the second one runs a cycle.
  obtain ⟨first, -, hfirst⟩ := hticks [] none [some emptyText] rfl
  obtain ⟨second, hsecond, htick⟩ := hticks [none] (some emptyText) [] rfl
  obtain ⟨hflagged, -, -⟩ := hfirst.unread rfl
  obtain ⟨report, log, -, hseen, hcycles⟩ := htick.cycle default rfl rfl
  have hanswers : answers second = [true] := by
    rw [hseen]
    exact congrArg (true :: ·) (answers_submitted log)
  refine ⟨hready [none] [some emptyText] rfl, ?_, _, files, rfl, hstopped, ?_, hfiles,
    hload ⟨by decide, by decide, by decide⟩⟩
  · have hall := congrArg answers hsecond
    rw [answers_append, hanswers, List.singleton_append] at hall
    rw [hready [none, some emptyText] [] rfl, hall, List.getLast?_concat]
    rfl
  · rw [hfinal, if_pos hasked, (sameMarks_persist applies _ _).cycles]
    have hnone : ((keeping.noteRunning true).ticks applies [none] ()).1.metrics = some {} :=
      congrArg Keeper.metrics hflagged
    refine hcycles.trans ?_
    rw [hnone]
    rfl

end Served

end VaultKeeper
