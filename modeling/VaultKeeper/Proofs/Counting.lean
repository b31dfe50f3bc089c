import Mathlib.Algebra.GroupWithZero.Nat
import VaultKeeper.Proofs.Cycles

/-! # What a keeper counts

The exported counts are kept by label. Summed over labels they are followed through a cycle as what
each step adds to them: a selection, an attempt to compile, an answer of the executor, and the end
of the cycle. A keeper without metrics counts nothing, and what is added to nothing is nothing. -/

namespace VaultKeeper

/-! ## Totals -/

namespace Table

variable {κ : Type} [Ord κ]

/-- The sum of the values of a table. -/
def total (t : Table κ Nat) : Nat := t.values.sum

/-- A key in front of all others has no value yet. -/
theorem find?_eq_none_of_lt {ν : Type} {k : κ} {l : List (κ × ν)}
    (h : ∀ e ∈ l, compare k e.1 = .lt) : find? k l = none := by
  induction l with
  | nil => rfl
  | cons e rest ih =>
    have hlt := h e List.mem_cons_self
    rw [find?, if_neg (by rw [hlt]; exact Ordering.noConfusion)]
    exact ih fun e he => h e (List.mem_cons_of_mem _ he)

variable [Std.TransOrd κ]

/-- Adding to one entry adds to the sum. -/
theorem sum_place {l : List (κ × Nat)} (h : l.Pairwise fun a b => compare a.1 b.1 = .lt)
    (k : κ) (n : Nat) :
    ((place k ((find? k l).getD 0 + n) l).map (·.2)).sum = (l.map (·.2)).sum + n := by
  induction l with
  | nil => simp [place, find?]
  | cons e rest ih =>
    obtain ⟨hhead, htail⟩ := List.pairwise_cons.1 h
    unfold place find?
    -- The value is put in front, replaces the first one, or belongs further down.
    cases hk : compare k e.1 with
    | lt =>
      -- All keys are larger, so the key has had no value.
      have hnone : find? k rest = none :=
        find?_eq_none_of_lt fun e' he' => Std.TransCmp.lt_trans hk (hhead e' he')
      simp only [hnone, reduceCtorEq, if_false, Option.getD_none, List.map_cons, List.sum_cons]
      omega
    | eq =>
      simp only [if_true, Option.getD_some, List.map_cons, List.sum_cons]
      omega
    | gt =>
      have hrest := ih htail
      simp only [reduceCtorEq, if_false, List.map_cons, List.sum_cons]
      omega

/-- **Adding to one count adds to the total.** -/
theorem total_bump (t : Table κ Nat) (k : κ) (n : Nat) :
    (Metrics.bump t k n).total = t.total + n := sum_place t.increasing k n

end Table

/-! ## What is counted -/

/-- What the keeper counts, summed over labels. -/
@[ext] structure Counts where
  /-- Answers of the executor, failures to answer among them. -/
  executions : Nat := 0
  /-- Plans with instructions. -/
  plansCompiled : Nat := 0
  /-- Instructions of these plans. -/
  instructions : Nat := 0
  /-- Failed selections and compilations. -/
  compileFailures : Nat := 0
  /-- Selections that succeeded. -/
  selections : Nat := 0
  /-- Cycles. -/
  cycles : Nat := 0
deriving DecidableEq

namespace Counts

/-- Sum of counts. -/
def add (a b : Counts) : Counts where
  executions := a.executions + b.executions
  plansCompiled := a.plansCompiled + b.plansCompiled
  instructions := a.instructions + b.instructions
  compileFailures := a.compileFailures + b.compileFailures
  selections := a.selections + b.selections
  cycles := a.cycles + b.cycles

theorem add_assoc (a b c : Counts) : (a.add b).add c = a.add (b.add c) := by
  simp only [add, Nat.add_assoc]

/-- Counts that are added one after the other. -/
theorem map_add_add (x : Option Counts) (a b : Counts) :
    (x.map (·.add a)).map (·.add b) = x.map (·.add (a.add b)) := by
  rw [Option.map_map]
  congr 1
  exact funext fun c => add_assoc c a b

/-- Adding nothing. -/
theorem map_add_zero (x : Option Counts) : x.map (·.add {}) = x := congrFun Option.map_id x

end Counts

namespace Metrics

/-- The totals of all families. -/
def counts (m : Metrics) : Counts where
  executions := m.executions.total
  plansCompiled := m.plansCompiled.total
  instructions := m.instructionsEmitted.total
  compileFailures := m.compileFailures.total
  selections := m.selections.total
  cycles := m.cycles

@[simp] theorem counts_countSelection (m : Metrics) (source : String) :
    (m.countSelection source).counts = m.counts.add { selections := 1 } := by
  ext
  all_goals simp [counts, countSelection, Counts.add, Table.total_bump]

@[simp] theorem counts_countFailure (m : Metrics) (operation reason : String) :
    (m.countFailure operation reason).counts = m.counts.add { compileFailures := 1 } := by
  ext
  all_goals simp [counts, countFailure, Counts.add, Table.total_bump]

@[simp] theorem counts_countPlan (m : Metrics) (operation : String) (instructions groups : Nat) :
    (m.countPlan operation instructions groups).counts =
      m.counts.add { plansCompiled := 1, instructions } := by
  ext
  all_goals simp [counts, countPlan, Counts.add, Table.total_bump]

@[simp] theorem counts_countExecution (m : Metrics) (status : String) :
    (m.countExecution status).counts = m.counts.add { executions := 1 } := by
  ext
  all_goals simp [counts, countExecution, Counts.add, Table.total_bump]

@[simp] theorem counts_countCycle (m : Metrics) :
    m.countCycle.counts = m.counts.add { cycles := 1 } := rfl

end Metrics

namespace Keeper

/-- What a keeper has counted, when it counts. -/
def counts (k : Keeper) : Option Counts := k.metrics.map Metrics.counts

variable {k : Keeper}

/-- Counting adds to the counts. -/
theorem counts_count {f : Metrics → Metrics} {d : Counts}
    (h : ∀ m, (f m).counts = m.counts.add d) : (k.count f).counts = k.counts.map (·.add d) := by
  simp only [counts, count, Option.map_map]
  congr 1
  exact funext h

/-- Noting an outcome adds nothing. -/
theorem counts_settle (k : Keeper) (b : Batch) (status : ExecutionStatus) :
    (k.settle b status).counts = k.counts := by
  unfold settle
  split
  · rfl
  · dsimp only
    split
    · simp only [counts, Option.map_map]
      rfl
    · rfl

/-- **An answer is counted once**, whatever it is. -/
theorem counts_submit {σ : Type} (env : Environment σ) (v : VaultConfig) (k : Keeper) (p : Plan)
    (s : σ) : (submit env v k p s).1.1.counts = k.counts.map (·.add { executions := 1 }) := by
  have hcounted : ∀ text, (k.count (·.countExecution text)).counts =
      k.counts.map (·.add { executions := 1 }) :=
    fun text => counts_count fun m => m.counts_countExecution text
  rw [submit_eq]
  cases answer env v p s with
  | mk x s' =>
    cases x with
    | none => exact hcounted "error"
    | some o =>
      change ((k.count (·.countExecution o.status.text)).settle _ o.status).counts = _
      rw [counts_settle, hcounted]

/-! ## Planning -/

/-- Whether an attempt failed to compile. -/
def Attempt.failed (a : Attempt) : Bool := a.result.toOption.isNone

/-- What some attempts are counted as. -/
def countsOf (tried : List Attempt) : Counts :=
  let plans := tried.filterMap Attempt.plan?
  { plansCompiled := plans.length
    instructions := (plans.map (·.instructionCount)).sum
    compileFailures := tried.countP (·.failed) }

/-- One more attempt. -/
theorem countsOf_cons (a : Attempt) (rest : List Attempt) :
    countsOf (a :: rest) = (countsOf [a]).add (countsOf rest) := by
  have hplans : (a :: rest).filterMap Attempt.plan? =
      [a].filterMap Attempt.plan? ++ rest.filterMap Attempt.plan? := by
    rw [← List.filterMap_append, List.singleton_append]
  have hfailed : (a :: rest).countP (·.failed) =
      [a].countP (·.failed) + rest.countP (·.failed) := by
    rw [← List.countP_append, List.singleton_append]
  ext
  all_goals simp only [countsOf, Counts.add, hplans, hfailed, List.length_append, List.map_append,
    List.sum_append]

/-- An attempt is counted as a plan with instructions, as a failure, or not at all. -/
theorem counts_countAttempt (k : Keeper) (a : Attempt) :
    (k.countAttempt a).counts = k.counts.map (·.add (countsOf [a])) := by
  obtain ⟨operation, result⟩ := a
  cases result with
  | error e => exact counts_count fun m => m.counts_countFailure operation.text e.kind
  | ok p =>
    unfold countAttempt
    dsimp only
    cases hnoop : p.isNoop with
    | true =>
      have hnone : countsOf [⟨operation, .ok p⟩] = {} := by
        simp [countsOf, Attempt.plan?, Except.toOption, Option.filter, hnoop, Attempt.failed]
      rw [if_pos rfl, hnone, Counts.map_add_zero]
    | false =>
      have hplan : countsOf [⟨operation, .ok p⟩] =
          { plansCompiled := 1, instructions := p.instructionCount } := by
        simp [countsOf, Attempt.plan?, Except.toOption, Option.filter, hnoop, Attempt.failed]
      rw [hplan]
      exact counts_count fun m => m.counts_countPlan operation.text p.instructionCount p.stepCount

/-- **Every attempt is counted once.** -/
theorem counts_countAttempts (k : Keeper) (tried : List Attempt) :
    (tried.foldl countAttempt k).counts = k.counts.map (·.add (countsOf tried)) := by
  induction tried generalizing k with
  | nil => exact (Counts.map_add_zero k.counts).symm
  | cons a rest ih =>
    rw [List.foldl_cons, ih, counts_countAttempt, Counts.map_add_add, countsOf_cons a rest]

end Keeper

end VaultKeeper
