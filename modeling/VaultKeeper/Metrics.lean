import VaultKeeper.Table

/-! # Metrics

Counters, a histogram and a gauge over the work of the keeper, and their exposition as text. Each
family is a list of samples by label value; families without samples are left out, except the
counter of cycles, which always has one.
-/

namespace VaultKeeper

/-- The counts of the keeper. Tables are indexed by label values. -/
structure Metrics where
  /-- Compiled plans, by operation. -/
  plansCompiled : Table String Nat := ∅
  /-- Instructions of compiled plans, by operation. -/
  instructionsEmitted : Table String Nat := ∅
  /-- Failed selections and compilations, by operation and reason. -/
  compileFailures : Table (String × String) Nat := ∅
  /-- Selections, by source. -/
  selections : Table String Nat := ∅
  /-- Outcomes, by status. -/
  executions : Table String Nat := ∅
  /-- Completed cycles. -/
  cycles : Nat := 0
  /-- Group counts of compiled plans, by operation. -/
  planSteps : Table String (List Nat) := ∅
  /-- Step counts of active strategies, by vault. -/
  activeSteps : Table String Nat := ∅

namespace Metrics

instance : Inhabited Metrics := ⟨{}⟩

/-- Add to a count. -/
def bump {κ : Type} [Ord κ] [Std.TransOrd κ] (t : Table κ Nat) (k : κ) (n : Nat) : Table κ Nat :=
  t.insert k ((t.get? k).getD 0 + n)

/-- Count a selection. -/
def countSelection (m : Metrics) (source : String) : Metrics :=
  { m with selections := bump m.selections source 1 }

/-- Count a failed selection or compilation. -/
def countFailure (m : Metrics) (operation reason : String) : Metrics :=
  { m with compileFailures := bump m.compileFailures (operation, reason) 1 }

/-- Count a compiled plan with its instructions and groups. -/
def countPlan (m : Metrics) (operation : String) (instructions groups : Nat) : Metrics :=
  { m with
    plansCompiled := bump m.plansCompiled operation 1
    instructionsEmitted := bump m.instructionsEmitted operation instructions
    planSteps := m.planSteps.insert operation (groups :: (m.planSteps.get? operation).getD []) }

/-- Count an outcome. -/
def countExecution (m : Metrics) (status : String) : Metrics :=
  { m with executions := bump m.executions status 1 }

/-- Count a completed cycle. -/
def countCycle (m : Metrics) : Metrics := { m with cycles := m.cycles + 1 }

/-- Note the step count of a vault's active strategy. -/
def setActiveSteps (m : Metrics) (vault : String) (steps : Nat) : Metrics :=
  { m with activeSteps := m.activeSteps.insert vault steps }

/-! ## Exposition -/

/-- How a character of a label value is written. -/
def escapeChar : Char → List Char
  | '\\' => ['\\', '\\']
  | '"' => ['\\', '"']
  | '\n' => ['\\', 'n']
  | c => [c]

/-- A label with its value. -/
def label (name value : String) : String :=
  name ++ "=\"" ++ String.ofList (value.toList.flatMap escapeChar) ++ "\""

/-- A sample: name, labels and value. -/
def sample (name : String) (labels : List String) (value : Nat) : String :=
  if labels.isEmpty then s!"{name} {value}"
  else name ++ "\x7b" ++ ",".intercalate labels ++ "\x7d " ++ toString value

/-- A family with its help and type; nothing without samples. -/
def family (name help type : String) (samples : List String) : List String :=
  if samples.isEmpty then []
  else s!"# HELP {name} {help}" :: s!"# TYPE {name} {type}" :: samples

/-- Samples with a single label. -/
def samplesBy (name labelName : String) (t : Table String Nat) : List String :=
  t.toList.map fun (k, n) => sample name [label labelName k] n

/-- The upper bounds of the histogram of group counts. -/
def stepBounds : List Nat := [1, 2, 3, 4, 6, 8, 12]

/-- The buckets, the sum and the count of one histogram. -/
def histogram (name : String) (own : String) (observed : List Nat) : List String :=
  let bucket (bound : String) (n : Nat) := sample (name ++ "_bucket") [own, label "le" bound] n
  stepBounds.map (fun b => bucket (toString b) (observed.countP (· ≤ b))) ++
    [bucket "+Inf" observed.length, sample (name ++ "_sum") [own] (observed.foldl (· + ·) 0),
      sample (name ++ "_count") [own] observed.length]

/-- The lines of all families, in order of their names. -/
def render (m : Metrics) : List String :=
  let named (suffix : String) := "yield_allocator_" ++ suffix
  family (named "active_strategy_steps") "Step count of each vault's active strategy" "gauge"
      (samplesBy (named "active_strategy_steps") "vault" m.activeSteps) ++
    family (named "compile_failures_total") "Plans that failed to compile or select" "counter"
      (m.compileFailures.toList.map fun ((operation, reason), n) =>
        sample (named "compile_failures_total") [label "operation" operation,
          label "reason" reason] n) ++
    family (named "cycles_total") "Keeper cycles completed" "counter"
      [sample (named "cycles_total") [] m.cycles] ++
    family (named "executions_total") "Executor outcomes by status" "counter"
      (samplesBy (named "executions_total") "status" m.executions) ++
    family (named "instructions_emitted_total") "Instructions emitted across compiled plans"
      "counter" (samplesBy (named "instructions_emitted_total") "operation"
        m.instructionsEmitted) ++
    family (named "plan_steps") "Instruction groups per plan" "histogram"
      (m.planSteps.toList.flatMap fun (operation, observed) =>
        histogram (named "plan_steps") (label "operation" operation) observed) ++
    family (named "plans_compiled_total") "Plans compiled" "counter"
      (samplesBy (named "plans_compiled_total") "operation" m.plansCompiled) ++
    family (named "selections_total") "Best-strategy resolutions by source" "counter"
      (samplesBy (named "selections_total") "source" m.selections)

end Metrics

end VaultKeeper
