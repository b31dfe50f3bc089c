import VaultKeeper.Compile
import VaultKeeper.Proofs.Resolution

/-! # Schedules

Compiling a route is running a schedule. A **task** is one of the six things that are done at a
leg, and each makes exactly one group; a **job** is a task at a leg. Which jobs a plan consists of
follows from the route alone (`entrySchedule`, `exitSchedule`), and the overlay only decides the
amounts. So a property of whole plans is a property of single jobs that is carried along the
schedule, and the shape of a plan is the shape of its schedule. -/

namespace VaultKeeper

/-! ## Doing things one after the other -/

namespace Leg

/-- Two parts succeed in sequence exactly when the second succeeds on what the first leaves. -/
theorem andThen_eq_ok_iff {first second : Overlay → Compiled} {o o' : Overlay}
    {groups : List Group} :
    andThen first second o = .ok (o', groups) ↔
      ∃ mid before after, first o = .ok (mid, before) ∧ second mid = .ok (o', after) ∧
        groups = before ++ after := by
  simp only [andThen, bind_eq_ok, pure_eq_ok, Except.ok.injEq, Prod.mk.injEq, Prod.exists]
  constructor
  · rintro ⟨mid, before, hfirst, last, after, hsecond, rfl, rfl⟩
    exact ⟨mid, before, after, hfirst, hsecond, rfl⟩
  · rintro ⟨mid, before, after, hfirst, hsecond, rfl⟩
    exact ⟨mid, before, hfirst, o', after, hsecond, rfl, rfl⟩

/-- Nothing to do before a part. -/
theorem andThen_nothing_left (second : Overlay → Compiled) :
    andThen (fun o => .ok (o, [])) second = second := by
  funext o
  cases h : second o with
  | ok p => simp [andThen, h]
  | error e => simp [andThen, h]

/-- Nothing to do after a part. -/
theorem andThen_nothing_right (first : Overlay → Compiled) :
    andThen first (fun o => .ok (o, [])) = first := by
  funext o
  cases h : first o with
  | ok p => simp [andThen, h]
  | error e => simp [andThen, h]

/-- How three parts are bracketed does not matter. -/
theorem andThen_assoc (first second third : Overlay → Compiled) :
    andThen (andThen first second) third = andThen first (andThen second third) := by
  funext o
  cases h₁ : first o with
  | error e => simp [andThen, h₁]
  | ok p =>
    cases h₂ : second p.1 with
    | error e => simp [andThen, h₁, h₂]
    | ok q =>
      cases h₃ : third q.1 with
      | error e => simp [andThen, h₁, h₂, h₃]
      | ok s => simp [andThen, h₁, h₂, h₃]

/-! ## What is done at a leg -/

section

variable {l : Leg} {owner : Address} {requested : Amount} {o o' : Overlay} {groups : List Group}

/-- A deposit moves the admitted part of the request from the input into minted receipts. -/
theorem deposit_eq_ok (h : l.deposit owner requested o = .ok (o', groups)) :
    ∃ paid minted receipt calls,
      l.base.depositAmount owner l.input l.pool requested l.bound.caps o.ledger = .ok paid ∧
      l.base.minted l.input l.pool paid o.ledger = .ok minted ∧
      l.base.receipt l.input l.pool = .ok receipt ∧
      l.base.depositSome owner l.input l.pool requested l.bound.caps o.ledger = .ok calls ∧
      o' = (o.debit l.input owner paid).credit receipt owner minted ∧
      groups = [l.group .deposit calls] := by
  simp only [deposit, bind_eq_ok, pure_eq_ok, Except.ok.injEq, Prod.mk.injEq] at h
  obtain ⟨paid, hpaid, minted, hminted, receipt, hreceipt, calls, hcalls, rfl, rfl⟩ := h
  exact ⟨paid, minted, receipt, calls, hpaid, hminted, hreceipt, hcalls, rfl, rfl⟩

/-- A loan adds the remaining capacity to the balance and to the debt. -/
theorem borrow_eq_ok (h : l.borrow owner o = .ok (o', groups)) :
    ∃ lender borrowed calls, l.bound.adapter.lender = .ok lender ∧
      lender.borrowCapacity owner l.input l.pool l.output o.ledger = .ok borrowed ∧
      lender.borrowAll owner l.input l.pool l.output o.ledger = .ok calls ∧
      o' = (o.credit l.output owner borrowed).addDebt l.pool l.output owner borrowed ∧
      groups = [l.group .borrow calls] := by
  simp only [borrow, bind_eq_ok, pure_eq_ok, Except.ok.injEq, Prod.mk.injEq] at h
  obtain ⟨lender, hlender, borrowed, hborrowed, calls, hcalls, rfl, rfl⟩ := h
  exact ⟨lender, borrowed, calls, hlender, hborrowed, hcalls, rfl, rfl⟩

/-- A stake moves the whole balance of receipts into the gauge. -/
theorem stake_eq_ok (h : l.stake owner o = .ok (o', groups)) :
    ∃ stakeable gauge staked calls, l.bound.adapter.stakeable = .ok stakeable ∧
      stakeable.gauge l.pool = .ok gauge ∧
      l.base.receiptBalance owner l.input l.pool o.ledger = .ok staked ∧
      stakeable.stakeAll owner l.input l.pool o.ledger = .ok calls ∧
      o' = (o.debit l.output owner staked).credit gauge owner staked ∧
      groups = [l.group .stake calls] := by
  simp only [stake, bind_eq_ok, pure_eq_ok, Except.ok.injEq, Prod.mk.injEq] at h
  obtain ⟨stakeable, hstakeable, gauge, hgauge, staked, hstaked, calls, hcalls, rfl, rfl⟩ := h
  exact ⟨stakeable, gauge, staked, calls, hstakeable, hgauge, hstaked, hcalls, rfl, rfl⟩

/-- A repayment takes what the balance covers from the balance and from the debt. -/
theorem repay_eq_ok (h : l.repay owner o = .ok (o', groups)) :
    ∃ lender repaid calls, l.bound.adapter.lender = .ok lender ∧
      repaid = LendingProtocol.repayable owner l.pool l.output o.ledger ∧
      lender.repayAll owner l.pool l.output o.ledger = .ok calls ∧
      o' = (o.debit l.output owner repaid).reduceDebt l.pool l.output owner repaid ∧
      groups = [l.group .repay calls] := by
  simp only [repay, bind_eq_ok, pure_eq_ok, Except.ok.injEq, Prod.mk.injEq] at h
  obtain ⟨lender, hlender, calls, hcalls, rfl, rfl⟩ := h
  exact ⟨lender, _, calls, hlender, rfl, hcalls, rfl, rfl⟩

/-- A withdrawal turns the receipts that can be withdrawn into the input. -/
theorem withdraw_eq_ok (h : l.withdraw owner o = .ok (o', groups)) :
    ∃ receipt receipts redeemed calls, l.base.receipt l.input l.pool = .ok receipt ∧
      l.base.withdrawable owner l.input l.pool o.ledger = .ok receipts ∧
      l.base.redeemed l.input l.pool receipts o.ledger = .ok redeemed ∧
      l.base.withdrawAll owner l.input l.pool o.ledger = .ok calls ∧
      o' = (o.debit receipt owner receipts).credit l.input owner redeemed ∧
      groups = [l.group .withdraw calls] := by
  simp only [withdraw, bind_eq_ok, pure_eq_ok, Except.ok.injEq, Prod.mk.injEq] at h
  obtain ⟨receipt, hreceipt, receipts, hreceipts, redeemed, hredeemed, calls, hcalls, rfl, rfl⟩ := h
  exact ⟨receipt, receipts, redeemed, calls, hreceipt, hreceipts, hredeemed, hcalls, rfl, rfl⟩

/-- A staked position is left by turning staked and loose receipts into the input. -/
theorem unstakeAndWithdraw_eq_ok (h : l.unstakeAndWithdraw owner o = .ok (o', groups)) :
    ∃ receipt stakeable gauge staked loose redeemed calls,
      l.base.receipt l.input l.pool = .ok receipt ∧
      l.bound.adapter.stakeable = .ok stakeable ∧
      stakeable.gauge l.pool = .ok gauge ∧
      stakeable.staked owner l.pool o.ledger = .ok staked ∧
      l.base.receiptBalance owner l.input l.pool o.ledger = .ok loose ∧
      l.base.redeemed l.input l.pool (staked.addSat loose) o.ledger = .ok redeemed ∧
      stakeable.unstakeAndWithdrawAll owner l.input l.pool o.ledger = .ok calls ∧
      o' = ((o.debit gauge owner staked).debit receipt owner loose).credit l.input owner redeemed ∧
      groups = [l.group .unstakeAndWithdraw calls] := by
  simp only [unstakeAndWithdraw, bind_eq_ok, pure_eq_ok, Except.ok.injEq, Prod.mk.injEq] at h
  obtain ⟨receipt, hreceipt, stakeable, hstakeable, gauge, hgauge, staked, hstaked, loose, hloose,
    redeemed, hredeemed, calls, hcalls, rfl, rfl⟩ := h
  exact ⟨receipt, stakeable, gauge, staked, loose, redeemed, calls, hreceipt, hstakeable, hgauge,
    hstaked, hloose, hredeemed, hcalls, rfl, rfl⟩

end

end Leg

/-! ## Jobs -/

/-- What is done at a leg. -/
inductive Task
  /-- Deposit an amount, or all that has reached the leg. -/
  | deposit (requested : Option Amount)
  /-- Borrow against the deposit. -/
  | borrow
  /-- Stake the receipts. -/
  | stake
  /-- Repay the loan. -/
  | repay
  /-- Redeem receipts. -/
  | withdraw
  /-- Take staked receipts out and redeem them with the loose ones. -/
  | unstakeAndWithdraw
deriving DecidableEq

/-- The kind of the group that a task makes. -/
def Task.kind : Task → GroupKind
  | deposit _ => .deposit
  | borrow => .borrow
  | stake => .stake
  | repay => .repay
  | withdraw => .withdraw
  | unstakeAndWithdraw => .unstakeAndWithdraw

/-- A task at a leg. -/
structure Job where
  /-- The leg. -/
  leg : Leg
  /-- What is done there. -/
  task : Task

namespace Job

/-- Do a job: change the overlay and make the group. -/
def run (owner : Address) (j : Job) (o : Overlay) : Compiled :=
  match j.task with
  | .deposit requested =>
    j.leg.deposit owner (requested.getD (o.ledger.balance j.leg.input owner)) o
  | .borrow => j.leg.borrow owner o
  | .stake => j.leg.stake owner o
  | .repay => j.leg.repay owner o
  | .withdraw => j.leg.withdraw owner o
  | .unstakeAndWithdraw => j.leg.unstakeAndWithdraw owner o

/-- **A job makes one group**, headed by the leg and the task. -/
theorem run_eq_ok {owner : Address} {j : Job} {o o' : Overlay} {groups : List Group}
    (h : j.run owner o = .ok (o', groups)) :
    ∃ calls, groups = [j.leg.group j.task.kind calls] := by
  obtain ⟨l, t⟩ := j
  cases t with
  | deposit requested =>
    obtain ⟨_, _, _, calls, -, -, -, -, -, rfl⟩ := Leg.deposit_eq_ok h
    exact ⟨calls, rfl⟩
  | borrow =>
    obtain ⟨_, _, calls, -, -, -, -, rfl⟩ := Leg.borrow_eq_ok h
    exact ⟨calls, rfl⟩
  | stake =>
    obtain ⟨_, _, _, calls, -, -, -, -, -, rfl⟩ := Leg.stake_eq_ok h
    exact ⟨calls, rfl⟩
  | repay =>
    obtain ⟨_, _, calls, -, -, -, -, rfl⟩ := Leg.repay_eq_ok h
    exact ⟨calls, rfl⟩
  | withdraw =>
    obtain ⟨_, _, _, calls, -, -, -, -, -, rfl⟩ := Leg.withdraw_eq_ok h
    exact ⟨calls, rfl⟩
  | unstakeAndWithdraw =>
    obtain ⟨_, _, _, _, _, _, calls, -, -, -, -, -, -, -, -, rfl⟩ := Leg.unstakeAndWithdraw_eq_ok h
    exact ⟨calls, rfl⟩

end Job

/-- Do jobs one after the other. -/
def runJobs (owner : Address) : List Job → Overlay → Compiled
  | [], o => .ok (o, [])
  | j :: rest, o => Leg.andThen (j.run owner) (runJobs owner rest) o

/-- A single job. -/
theorem runJobs_singleton (owner : Address) (j : Job) : runJobs owner [j] = j.run owner :=
  Leg.andThen_nothing_right (j.run owner)

/-- Two lists of jobs, one after the other. -/
theorem runJobs_append (owner : Address) (first second : List Job) :
    runJobs owner (first ++ second) = Leg.andThen (runJobs owner first) (runJobs owner second) := by
  induction first with
  | nil => exact (Leg.andThen_nothing_left _).symm
  | cons j rest ih =>
    have hcons : ∀ jobs,
        runJobs owner (j :: jobs) = Leg.andThen (j.run owner) (runJobs owner jobs) := fun _ => rfl
    rw [List.cons_append, hcons, ih, hcons, Leg.andThen_assoc]

/-! ## The schedule of a route -/

namespace Leg

/-- Entering a leg: deposit, then borrow when the step says so. -/
def entryJobs (requested : Option Amount) (l : Leg) : List Job :=
  ⟨l, .deposit requested⟩ :: if l.step.isBorrow then [⟨l, .borrow⟩] else []

/-- Leaving a leg: repay when the step borrows, then redeem. -/
def exitJobs (staked : Bool) (l : Leg) : List Job :=
  (if l.step.isBorrow then [⟨l, .repay⟩] else []) ++
    [⟨l, if staked then .unstakeAndWithdraw else .withdraw⟩]

/-- Entering a leg is running its entry jobs. -/
theorem enter_eq (l : Leg) (owner : Address) (requested : Option Amount) :
    l.enter owner requested = runJobs owner (l.entryJobs requested) := by
  unfold entryJobs
  cases hborrow : l.step.isBorrow with
  | true =>
    funext o
    -- The second job runs like the list that consists of it alone.
    have h : runJobs owner [⟨l, .deposit requested⟩, ⟨l, .borrow⟩] =
        andThen (Job.run owner ⟨l, .deposit requested⟩) (Job.run owner ⟨l, .borrow⟩) := by
      rw [← runJobs_singleton owner ⟨l, .borrow⟩]
      rfl
    simp only [enter, hborrow, if_true, h]
    rfl
  | false =>
    funext o
    simp only [enter, hborrow, Bool.false_eq_true, if_false, runJobs_singleton]
    rfl

/-- Leaving a leg is running its exit jobs. -/
theorem leave_eq (l : Leg) (owner : Address) (staked : Bool) :
    l.leave owner staked = runJobs owner (l.exitJobs staked) := by
  -- The redemption always comes last; what precedes it depends on the step.
  have hredeem : (if staked then l.unstakeAndWithdraw owner else l.withdraw owner) =
      Job.run owner ⟨l, if staked then .unstakeAndWithdraw else .withdraw⟩ := by
    cases staked <;> rfl
  funext o
  unfold exitJobs
  rw [runJobs_append, runJobs_singleton, ← hredeem]
  cases hborrow : l.step.isBorrow with
  | true =>
    simp only [leave, hborrow, if_true, runJobs_singleton]
    rfl
  | false =>
    simp only [leave, hborrow, Bool.false_eq_true, if_false]
    exact congrFun (andThen_nothing_left _).symm o

end Leg

/-- The jobs that enter every leg. A requested amount goes into the first leg only. -/
def entryLegJobs : (requested : Option Amount) → List Leg → List Job
  | _, [] => []
  | requested, l :: rest => l.entryJobs requested ++ entryLegJobs none rest

/-- **The schedule of entering a route**: every leg in turn, then the stake of the last one. -/
def entrySchedule (requested : Option Amount) (route : List Leg) : List Job :=
  entryLegJobs requested route ++
    (route.getLast?.filter (·.stakes)).toList.map fun top => ⟨top, .stake⟩

/-- The jobs that leave every leg of a reversed route; only the first may be staked. -/
def exitLegJobs : (staked : Bool) → (reversed : List Leg) → List Job
  | _, [] => []
  | staked, l :: rest => l.exitJobs staked ++ exitLegJobs false rest

/-- **The schedule of leaving a route**: every leg, the last one first. -/
def exitSchedule (route : List Leg) : List Job := exitLegJobs (stakesTop route) route.reverse

/-- Entering every leg is running the entry jobs. -/
theorem enterLegs_eq (owner : Address) (requested : Option Amount) (route : List Leg) :
    enterLegs owner requested route = runJobs owner (entryLegJobs requested route) := by
  induction route generalizing requested with
  | nil => rfl
  | cons l rest ih =>
    rw [entryLegJobs, runJobs_append, ← ih none, ← Leg.enter_eq]
    rfl

/-- Entering a route is running its entry schedule. -/
theorem enterRoute_eq (owner : Address) (requested : Option Amount) (route : List Leg) :
    enterRoute owner requested route = runJobs owner (entrySchedule requested route) := by
  funext o
  unfold enterRoute entrySchedule
  cases htop : route.getLast?.filter (·.stakes) with
  | some top =>
    rw [runJobs_append, ← enterLegs_eq]
    exact congrArg (fun f => Leg.andThen (enterLegs owner requested route) f o)
      (runJobs_singleton owner ⟨top, .stake⟩).symm
  | none =>
    rw [Option.toList_none, List.map_nil, List.append_nil, enterLegs_eq]

/-- Leaving every leg is running the exit jobs. -/
theorem leaveLegs_eq (owner : Address) (staked : Bool) (reversed : List Leg) :
    leaveLegs owner staked reversed = runJobs owner (exitLegJobs staked reversed) := by
  induction reversed generalizing staked with
  | nil => rfl
  | cons l rest ih =>
    rw [exitLegJobs, runJobs_append, ← ih false, ← Leg.leave_eq]
    rfl

/-- Leaving a route is running its exit schedule. -/
theorem leaveRoute_eq (owner : Address) (route : List Leg) :
    leaveRoute owner route = runJobs owner (exitSchedule route) :=
  leaveLegs_eq owner (stakesTop route) route.reverse

/-! ## What a schedule consists of -/

/-- Whether a task suits its leg: loans belong to borrowing steps and stakes to staking bindings. -/
def Job.Suits (j : Job) : Prop :=
  match j.task with
  | .borrow | .repay => j.leg.step.isBorrow = true
  | .stake | .unstakeAndWithdraw => j.leg.stakes = true
  | .deposit _ | .withdraw => True

/-- The entry jobs of a leg. -/
theorem Leg.mem_entryJobs {requested : Option Amount} {l : Leg} {j : Job} :
    j ∈ l.entryJobs requested ↔
      j = ⟨l, .deposit requested⟩ ∨ l.step.isBorrow = true ∧ j = ⟨l, .borrow⟩ := by
  unfold entryJobs
  by_cases h : l.step.isBorrow <;> simp [h]

/-- The exit jobs of a leg. -/
theorem Leg.mem_exitJobs {staked : Bool} {l : Leg} {j : Job} :
    j ∈ l.exitJobs staked ↔ l.step.isBorrow = true ∧ j = ⟨l, .repay⟩ ∨
      j = ⟨l, if staked then .unstakeAndWithdraw else .withdraw⟩ := by
  unfold exitJobs
  by_cases h : l.step.isBorrow <;> simp [h]

/-- The entry jobs of a route suit its legs, and only a requested amount is deposited as such. -/
theorem mem_entryLegJobs {requested : Option Amount} {route : List Leg} {j : Job}
    (h : j ∈ entryLegJobs requested route) :
    j.leg ∈ route ∧ j.Suits ∧ ∀ a, j.task = .deposit (some a) → requested = some a := by
  induction route generalizing requested with
  | nil => cases h
  | cons l rest ih =>
    rcases List.mem_append.1 h with h | h
    · rcases Leg.mem_entryJobs.1 h with rfl | ⟨hborrow, rfl⟩
      · exact ⟨List.mem_cons_self, trivial, fun a ha => by cases ha; rfl⟩
      · exact ⟨List.mem_cons_self, hborrow, fun a ha => by cases ha⟩
    · obtain ⟨hleg, hsuits, hrequest⟩ := ih h
      exact ⟨List.mem_cons_of_mem _ hleg, hsuits, fun a ha => by cases hrequest a ha⟩

/-- The jobs of entering a route suit its legs, and only a requested amount is deposited as such. -/
theorem mem_entrySchedule {requested : Option Amount} {route : List Leg} {j : Job}
    (h : j ∈ entrySchedule requested route) :
    j.leg ∈ route ∧ j.Suits ∧ ∀ a, j.task = .deposit (some a) → requested = some a := by
  rcases List.mem_append.1 h with h | h
  · exact mem_entryLegJobs h
  · obtain ⟨top, htop, rfl⟩ := List.mem_map.1 h
    rw [Option.mem_toList, Option.filter_eq_some_iff] at htop
    exact ⟨List.mem_of_getLast? htop.1, htop.2, fun a ha => by cases ha⟩

/-- The exit jobs of a reversed route suit its legs when the first leg stakes where it says so. -/
theorem mem_exitLegJobs {staked : Bool} {reversed : List Leg} {j : Job}
    (hstaked : staked = true → ∀ top ∈ reversed.head?, top.stakes = true)
    (h : j ∈ exitLegJobs staked reversed) :
    j.leg ∈ reversed ∧ j.Suits ∧ ∀ a, j.task ≠ .deposit a := by
  induction reversed generalizing staked with
  | nil => cases h
  | cons l rest ih =>
    rcases List.mem_append.1 h with h | h
    · rcases Leg.mem_exitJobs.1 h with ⟨hborrow, rfl⟩ | rfl
      · exact ⟨List.mem_cons_self, hborrow, fun a ha => by cases ha⟩
      · cases staked with
        | true => exact ⟨List.mem_cons_self, hstaked rfl l rfl, fun a ha => by cases ha⟩
        | false => exact ⟨List.mem_cons_self, trivial, fun a ha => by cases ha⟩
    -- Behind the first leg nothing is staked, so there is nothing to assume.
    · obtain ⟨hleg, hrest⟩ := ih (fun hf => Bool.noConfusion hf) h
      exact ⟨List.mem_cons_of_mem _ hleg, hrest⟩

/-- The jobs of leaving a route suit its legs, and none is a deposit. -/
theorem mem_exitSchedule {route : List Leg} {j : Job} (h : j ∈ exitSchedule route) :
    j.leg ∈ route ∧ j.Suits ∧ ∀ a, j.task ≠ .deposit a := by
  have hstaked : stakesTop route = true → ∀ top ∈ route.reverse.head?, top.stakes = true := by
    intro hstakes top htop
    rw [List.head?_reverse, Option.mem_def] at htop
    simpa [stakesTop, htop] using hstakes
  obtain ⟨hleg, hrest⟩ := mem_exitLegJobs hstaked h
  exact ⟨List.mem_reverse.1 hleg, hrest⟩

/-! ## Traces -/

/-- One group of a plan, with the overlays before and after it. -/
structure Emission where
  /-- The job that makes the group. -/
  job : Job
  /-- The overlay that the job finds. -/
  before : Overlay
  /-- The group. -/
  group : Group
  /-- The overlay that the job leaves. -/
  after : Overlay

/-- **A run of the compiler, group by group.** Each job finds the overlay that the job before it
has left. -/
inductive Trace (owner : Address) : Overlay → List Emission → Overlay → Prop
  /-- Nothing is done. -/
  | nil (o : Overlay) : Trace owner o [] o
  /-- One job, then the rest. -/
  | cons {e : Emission} {rest : List Emission} {o : Overlay}
      (head : e.job.run owner e.before = .ok (e.after, [e.group]))
      (tail : Trace owner e.after rest o) : Trace owner e.before (e :: rest) o

/-- Jobs that succeed leave a trace of exactly these jobs and their groups. -/
theorem trace_of_runJobs {owner : Address} {jobs : List Job} {o o' : Overlay}
    {groups : List Group} (h : runJobs owner jobs o = .ok (o', groups)) :
    ∃ es, Trace owner o es o' ∧ es.map (·.job) = jobs ∧ es.map (·.group) = groups := by
  induction jobs generalizing o groups with
  | nil =>
    cases h
    exact ⟨[], .nil _, rfl, rfl⟩
  | cons j rest ih =>
    -- The first job makes one group, so its emission is known before the rest runs.
    obtain ⟨mid, first, later, hj, hrest, rfl⟩ := Leg.andThen_eq_ok_iff.1 h
    obtain ⟨calls, rfl⟩ := Job.run_eq_ok hj
    obtain ⟨es, htrace, hjobs, hgroups⟩ := ih hrest
    let e : Emission := ⟨j, o, j.leg.group j.task.kind calls, mid⟩
    refine ⟨e :: es, Trace.cons (e := e) hj htrace, ?_, ?_⟩
    · rw [List.map_cons, hjobs]
    · rw [List.map_cons, hgroups, List.singleton_append]

/-- Two traces, one after the other. -/
theorem Trace.append {owner : Address} {o mid o' : Overlay} {es es' : List Emission}
    (h : Trace owner o es mid) (h' : Trace owner mid es' o') : Trace owner o (es ++ es') o' := by
  induction h with
  | nil o => exact h'
  | cons head tail ih => exact .cons head (ih h')

/-- A trace of one group goes from the overlay before it to the one after it. -/
theorem Trace.eq_of_singleton {owner : Address} {o o' : Overlay} {e : Emission}
    (h : Trace owner o [e] o') : e.before = o ∧ e.after = o' := by
  obtain ⟨j, before, g, after⟩ := e
  cases h with
  | cons head tail =>
    cases tail
    exact ⟨rfl, rfl⟩

/-- Every group of a trace is what its job makes of the overlay before it. -/
theorem Trace.run_eq {owner : Address} {o o' : Overlay} {es : List Emission}
    (h : Trace owner o es o') :
    ∀ e ∈ es, e.job.run owner e.before = .ok (e.after, [e.group]) := by
  induction h with
  | nil o => simp
  | cons head tail ih =>
    intro e he
    rcases List.mem_cons.1 he with rfl | he
    · exact head
    · exact ih e he

/-- Every group of a trace is numbered by the leg of its job. -/
theorem Trace.stepIndex_eq {owner : Address} {o o' : Overlay} {es : List Emission}
    (h : Trace owner o es o') : ∀ e ∈ es, e.group.stepIndex = e.job.leg.index := by
  intro e he
  obtain ⟨calls, hgroup⟩ := Job.run_eq_ok (h.run_eq e he)
  rw [List.singleton_inj.1 hgroup]
  rfl

end VaultKeeper
