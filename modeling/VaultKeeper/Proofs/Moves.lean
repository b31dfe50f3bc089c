import VaultKeeper.Proofs.Schedule

/-! # Moves

The plans that move a position: deposits, withdrawals, and the change from one strategy to another.
Each is a schedule that the registry determines, run over an empty overlay of the ledger
(`Registry.compile_eq`). A plan that is compiled therefore has a trace, whose jobs are at resolved
legs and suit them. -/

namespace VaultKeeper

/-- A request to move a position. -/
inductive Move
  /-- Deposit the whole balance. -/
  | depositAll (hash : Digest)
  /-- Deposit an amount. -/
  | depositSome (hash : Digest) (amount : Amount)
  /-- Unwind every step. -/
  | withdrawAll (hash : Digest)
  /-- Withdraw from one strategy and deposit into another. -/
  | rebalance (source target : Digest)
deriving DecidableEq

namespace Move

/-- The strategy that a plan is made for. -/
def strategy : Move → Digest
  | depositAll hash | depositSome hash _ | withdrawAll hash | rebalance _ hash => hash

/-- The operation of a plan. -/
def operation : Move → Operation
  | depositAll _ => .depositAll
  | depositSome _ _ => .depositSome
  | withdrawAll _ => .withdrawAll
  | rebalance _ _ => .rebalance

end Move

namespace Registry

/-- The plan of a move. -/
def compile (r : Registry) (owner : Address) (l : Ledger) : Move → Except AllocationError Plan
  | .depositAll hash => r.depositAll owner hash l
  | .depositSome hash amount => r.depositSome owner hash amount l
  | .withdrawAll hash => r.withdrawAll owner hash l
  | .rebalance source target => r.rebalance owner source target l

/-- **The schedule of a move**, which depends on the registry alone. -/
def schedule (r : Registry) : Move → Except AllocationError (List Job)
  | .depositAll hash => do
    return entrySchedule none (← r.route .enter (← r.strategy hash))
  | .depositSome hash amount => do
    return entrySchedule (some amount) (← r.route .enter (← r.strategy hash))
  | .withdrawAll hash => do
    return exitSchedule (← r.route .exit (← r.strategy hash))
  | .rebalance source target => do
    let current ← r.strategy source
    let next ← r.strategy target
    unless current.underlying = next.underlying do
      throw (.strategyMismatch target current.underlying)
    let exits ← r.route .exit current
    let entries ← r.route .enter next
    return exitSchedule exits ++ entrySchedule none entries

variable {r : Registry} {owner : Address} {l : Ledger} {m : Move} {plan : Plan} {jobs : List Job}

/-- **A plan is its schedule, run over an empty overlay.** -/
theorem compile_eq (r : Registry) (owner : Address) (l : Ledger) (m : Move) :
    r.compile owner l m = do
      let jobs ← r.schedule m
      let (_, groups) ← runJobs owner jobs (.ofLedger l)
      return ⟨m.strategy, m.operation, groups⟩ := by
  cases m with
  | depositAll hash =>
    simp only [compile, depositAll, compileDeposit, schedule, bind_assoc, pure_bind, enterRoute_eq]
    rfl
  | depositSome hash amount =>
    simp only [compile, depositSome, compileDeposit, schedule, bind_assoc, pure_bind, enterRoute_eq]
    rfl
  | withdrawAll hash =>
    simp only [compile, withdrawAll, schedule, bind_assoc, pure_bind, leaveRoute_eq]
    rfl
  | rebalance source target =>
    simp only [compile, rebalance, schedule, bind_assoc, enterRoute_eq, leaveRoute_eq,
      ← runJobs_append]
    -- Both halves of a rebalance run over one overlay, so their schedules can be joined.
    refine bind_congr fun current => bind_congr fun next => ?_
    by_cases hsame : current.underlying = next.underlying
    · simp only [hsame, if_true, bind_assoc, pure_bind]
      rfl
    · simp only [hsame, if_false, throw_eq_error, error_bind]

/-- A plan is compiled exactly when its schedule runs. -/
theorem compile_eq_ok_iff :
    r.compile owner l m = .ok plan ↔
      ∃ jobs o, r.schedule m = .ok jobs ∧ runJobs owner jobs (.ofLedger l) = .ok (o, plan.groups) ∧
        plan.strategy = m.strategy ∧ plan.operation = m.operation := by
  obtain ⟨strategy, operation, groups⟩ := plan
  simp only [compile_eq, bind_eq_ok, pure_eq_ok, Except.ok.injEq, Plan.mk.injEq, Prod.exists]
  constructor
  · rintro ⟨jobs, hjobs, o, _, hrun, rfl, rfl, rfl⟩
    exact ⟨jobs, o, hjobs, hrun, rfl, rfl⟩
  · rintro ⟨jobs, o, hjobs, hrun, rfl, rfl⟩
    exact ⟨jobs, hjobs, o, groups, hrun, rfl, rfl, rfl⟩

/-- **What a move does to an overlay**: the balances and debts that it leaves behind, and the groups
that it makes. -/
def simulate (r : Registry) (owner : Address) (m : Move) (o : Overlay) : Compiled := do
  runJobs owner (← r.schedule m) o

/-- A plan is compiled exactly when its move can be simulated over the ledger. -/
theorem compile_eq_ok_iff_simulate :
    r.compile owner l m = .ok plan ↔
      ∃ o, r.simulate owner m (.ofLedger l) = .ok (o, plan.groups) ∧
        plan.strategy = m.strategy ∧ plan.operation = m.operation := by
  simp only [compile_eq_ok_iff, simulate, bind_eq_ok]
  constructor
  · rintro ⟨jobs, o, hjobs, hrun, hrest⟩
    exact ⟨o, ⟨jobs, hjobs, hrun⟩, hrest⟩
  · rintro ⟨o, ⟨jobs, hjobs, hrun⟩, hrest⟩
    exact ⟨jobs, o, hjobs, hrun, hrest⟩

section

variable {hash target : Digest} {s next : Strategy} {o : Overlay} {x : Overlay × List Group}

/-- The schedule of depositing everything. -/
theorem schedule_depositAll {route : List Leg} (hs : r.strategy hash = .ok s)
    (hroute : r.route .enter s = .ok route) :
    r.schedule (.depositAll hash) = .ok (entrySchedule none route) := by
  rw [schedule, hs, ok_bind, hroute, ok_bind]
  rfl

/-- The schedule of withdrawing everything. -/
theorem schedule_withdrawAll {route : List Leg} (hs : r.strategy hash = .ok s)
    (hroute : r.route .exit s = .ok route) :
    r.schedule (.withdrawAll hash) = .ok (exitSchedule route) := by
  rw [schedule, hs, ok_bind, hroute, ok_bind]
  rfl

/-- Depositing everything is entering the route of the strategy. -/
theorem simulate_depositAll_eq_ok (hs : r.strategy hash = .ok s) :
    r.simulate owner (.depositAll hash) o = .ok x ↔
      ∃ route, r.route .enter s = .ok route ∧ enterRoute owner none route o = .ok x := by
  rw [simulate, schedule, hs, ok_bind, bind_assoc, bind_eq_ok]
  simp only [pure_bind, enterRoute_eq]

/-- Withdrawing everything is leaving the route of the strategy. -/
theorem simulate_withdrawAll_eq_ok (hs : r.strategy hash = .ok s) :
    r.simulate owner (.withdrawAll hash) o = .ok x ↔
      ∃ route, r.route .exit s = .ok route ∧ leaveRoute owner route o = .ok x := by
  rw [simulate, schedule, hs, ok_bind, bind_assoc, bind_eq_ok]
  simp only [pure_bind, leaveRoute_eq]

/-- A rebalance is leaving one route and then entering the other one. -/
theorem simulate_rebalance_eq_ok (hs : r.strategy hash = .ok s) (ht : r.strategy target = .ok next)
    (hsame : s.underlying = next.underlying) :
    r.simulate owner (.rebalance hash target) o = .ok x ↔
      ∃ exits entries, r.route .exit s = .ok exits ∧ r.route .enter next = .ok entries ∧
        Leg.andThen (leaveRoute owner exits) (enterRoute owner none entries) o = .ok x := by
  rw [simulate, schedule, hs, ok_bind, ht, ok_bind, if_pos hsame]
  simp only [bind_assoc, pure_bind, bind_eq_ok, runJobs_append, leaveRoute_eq, enterRoute_eq]
  constructor
  · rintro ⟨exits, hexits, entries, hentries, h⟩
    exact ⟨exits, entries, hexits, hentries, h⟩
  · rintro ⟨exits, entries, hexits, hentries, h⟩
    exact ⟨exits, hexits, entries, hentries, h⟩

end

/-- **Every compiled plan has a trace**, which starts from the ledger, runs the schedule and makes
the groups of the plan. -/
theorem trace_of_compile (h : r.compile owner l m = .ok plan) :
    ∃ jobs es o, r.schedule m = .ok jobs ∧ Trace owner (.ofLedger l) es o ∧
      es.map (·.job) = jobs ∧ es.map (·.group) = plan.groups := by
  obtain ⟨jobs, o, hjobs, hrun, -, -⟩ := compile_eq_ok_iff.1 h
  obtain ⟨es, htrace, hes, hgroups⟩ := trace_of_runJobs hrun
  exact ⟨jobs, es, o, hjobs, htrace, hes, hgroups⟩

/-- The jobs of a schedule are at resolved legs and suit them. Only a deposit of some amount asks
for an amount, and funds are only deposited into approved pools. -/
theorem mem_schedule (h : r.schedule m = .ok jobs) {j : Job} (hj : j ∈ jobs) :
    j.leg.Resolved r .exit ∧ j.Suits ∧
      ∀ requested, j.task = .deposit requested → j.leg.Resolved r .enter ∧
        ∀ a, requested = some a → ∃ hash, m = .depositSome hash a := by
  -- What holds of entering and of leaving is stated once, since a rebalance does both.
  have hentry : ∀ {q route}, (∀ x ∈ route, Leg.Resolved r .enter x) →
      (∀ a, q = some a → ∃ hash, m = .depositSome hash a) → j ∈ entrySchedule q route →
      j.leg.Resolved r .exit ∧ j.Suits ∧ ∀ requested, j.task = .deposit requested →
        j.leg.Resolved r .enter ∧ ∀ a, requested = some a → ∃ hash, m = .depositSome hash a := by
    intro q route hroute hq hmem
    obtain ⟨hleg, hsuits, hrequest⟩ := mem_entrySchedule hmem
    refine ⟨(hroute _ hleg).exit, hsuits, fun requested htask => ⟨hroute _ hleg, ?_⟩⟩
    rintro a rfl
    exact hq a (hrequest a htask)
  have hexit : ∀ {route}, (∀ x ∈ route, Leg.Resolved r .exit x) → j ∈ exitSchedule route →
      j.leg.Resolved r .exit ∧ j.Suits ∧ ∀ requested, j.task = .deposit requested →
        j.leg.Resolved r .enter ∧ ∀ a, requested = some a → ∃ hash, m = .depositSome hash a := by
    intro route hroute hmem
    obtain ⟨hleg, hsuits, hother⟩ := mem_exitSchedule hmem
    exact ⟨hroute _ hleg, hsuits, fun requested htask => absurd htask (hother requested)⟩
  unfold schedule at h
  cases m with
  | depositAll hash =>
    obtain ⟨s, -, h⟩ := bind_eq_ok.1 h
    obtain ⟨route, hroute, h⟩ := bind_eq_ok.1 h
    cases h
    exact hentry (resolved_of_route hroute) (fun a ha => by cases ha) hj
  | depositSome hash amount =>
    obtain ⟨s, -, h⟩ := bind_eq_ok.1 h
    obtain ⟨route, hroute, h⟩ := bind_eq_ok.1 h
    cases h
    refine hentry (resolved_of_route hroute) (fun a ha => ?_) hj
    cases ha
    exact ⟨hash, rfl⟩
  | withdrawAll hash =>
    obtain ⟨s, -, h⟩ := bind_eq_ok.1 h
    obtain ⟨route, hroute, h⟩ := bind_eq_ok.1 h
    cases h
    exact hexit (resolved_of_route hroute) hj
  | rebalance source target =>
    obtain ⟨current, -, h⟩ := bind_eq_ok.1 h
    obtain ⟨next, -, h⟩ := bind_eq_ok.1 h
    simp only [throw_eq_error, error_bind, pure_eq_ok, ite_error_eq_ok, bind_eq_ok] at h
    obtain ⟨-, exits, hexits, entries, hentries, h⟩ := h
    cases h
    rcases List.mem_append.1 hj with hj | hj
    · exact hexit (resolved_of_route hexits) hj
    · exact hentry (resolved_of_route hentries) (fun a ha => by cases ha) hj

/-- A strategy whose digest is new can be looked up once it is registered. -/
theorem strategy_register {s : Strategy} (h : r.strategies.get? s.hash = none) :
    (r.register s).strategy s.hash = .ok s := by
  simp [register, strategy, Table.contains, h]

/-- A registration changes no route. -/
theorem route_register (r : Registry) (s : Strategy) (d : Direction) (t : Strategy) :
    (r.register s).route d t = r.route d t := by
  have hsame : (r.register s).binding? = r.binding? ∧
      (r.register s).isApproved = r.isApproved := by
    unfold register
    split
    · exact ⟨rfl, rfl⟩
    · exact ⟨rfl, rfl⟩
  exact legs_congr (congrFun hsame.1) fun _ step _ => congrFun hsame.2 step.pool

end Registry

/-! ## A leveraged position

Collateral is supplied to a lending market, a coin is borrowed against it, and the coin goes into a
curve pool whose receipts are staked. -/

namespace Leveraged

/-- The account that holds the collateral. -/
def owner : Address := .ofNat 1

/-- The collateral. -/
def collateral : Address := .ofNat 2

/-- The borrowed coin. -/
def coin : Address := .ofNat 3

/-- The lending market. -/
def market : Address := .ofNat 4

/-- The curve pool. -/
def pool : Address := .ofNat 5

/-- The receipt token of the curve pool. -/
def receipt : Address := .ofNat 6

/-- The protocol of the lending market. -/
def lending : LendingProtocol :=
  ⟨"lending", 8000, .ofList [(market, ⟨.ofList [(collateral, .ofNat 8)], [coin]⟩)]⟩

/-- The protocol of the curve pool. -/
def curve : CurveProtocol :=
  ⟨"curve", ⟨.ofNat 9, 50⟩, 50,
    .ofList [(pool, ⟨[coin, .ofNat 10], receipt, some (.ofNat 7), none⟩)]⟩

/-- The strategy. -/
def strategy : Strategy where
  underlying := collateral
  steps := [⟨market, coin, true⟩, ⟨pool, receipt, false⟩]
  hash := strategyDigest collateral [⟨market, coin, true⟩, ⟨pool, receipt, false⟩]
  steps_ne_nil := by simp
  underlying_ne_zero := by decide
  hash_eq := rfl

/-- The deposit caps of the lending market. -/
def caps : DepositCaps :=
  { mode := .amount, amounts := .ofList [((market, collateral), 600)] }

/-- Both pools are approved and bound, and deposits of collateral are limited. -/
def registry : Registry :=
  Registry.register
    { Registry.new (.ofNat 11) with
      adapters := .ofList [("lending", .whole (.lending lending)), ("curve", .whole (.curve curve))]
      caps := .ofList [("lending", caps)]
      pools := .ofList [(market, ⟨market, some 10, true, 0⟩), (pool, ⟨pool, some 10, true, 1⟩)]
      bindings := .ofList [(market, ⟨"lending", false⟩), (pool, ⟨"curve", true⟩)] }
    strategy

/-- The owner holds collateral, and the curve pool holds both of its coins. -/
def snapshot : Snapshot :=
  { balances := .ofList [((collateral, owner), 1000), ((coin, pool), 5000),
      ((.ofNat 10, pool), 5000)]
    supplies := .ofList [(receipt, 8000)]
    prices := .ofList [(collateral, 2), (coin, 1), (.ofNat 10, 1)] }

/-- The route of the strategy. -/
def route : List Leg :=
  [⟨0, collateral, ⟨market, coin, true⟩, ⟨.whole (.lending lending), false, caps⟩⟩,
    ⟨1, coin, ⟨pool, receipt, false⟩, ⟨.whole (.curve curve), true, default⟩⟩]

/-- The strategy is registered. -/
theorem strategy_eq : registry.strategy strategy.hash = .ok strategy :=
  Registry.strategy_register rfl

/-- The strategy resolves. -/
theorem route_eq : registry.route .enter strategy = .ok route := rfl

/-- Pools are bound to the lending market and the curve pool. -/
theorem adapter_of_binding {p : Address} {bound : BoundPool}
    (h : registry.binding? p = some bound) :
    bound.adapter = .whole (.curve curve) ∨ bound.adapter = .whole (.lending lending) := by
  simp only [Registry.binding?, Option.bind_eq_bind, Option.bind_eq_some_iff, Option.pure_def,
    Option.some.injEq] at h
  obtain ⟨b, -, adapter, hadapter, rfl⟩ := h
  have hlist : registry.adapters.toList =
      [("curve", .whole (.curve curve)), ("lending", .whole (.lending lending))] := rfl
  have hmem := Table.mem_toList_iff.2 hadapter
  rw [hlist] at hmem
  rcases List.mem_cons.1 hmem with hmem | hmem
  · exact .inl (congrArg Prod.snd hmem)
  · exact .inr (congrArg Prod.snd (List.mem_singleton.1 hmem))

/-- The gauge of the curve pool is not its receipt token. -/
theorem gaugesApart : registry.GaugesApart := by
  intro p bound q c gauge h hbase hc hgauge
  rcases adapter_of_binding h with h | h
  · rw [h] at hbase
    cases hbase
    have hfound : curve.pools.get? p = some c := by
      unfold CurveProtocol.pool at hc
      split at hc
      · cases hc
        assumption
      · cases hc
    have hlist : curve.pools.toList =
        [(pool, ⟨[coin, .ofNat 10], receipt, some (.ofNat 7), none⟩)] := rfl
    have hmem := Table.mem_toList_iff.2 hfound
    rw [hlist, List.mem_singleton] at hmem
    cases hmem
    cases hgauge
    decide
  · rw [h] at hbase
    cases hbase

/-- The whole collateral can be deposited. -/
theorem exists_plan :
    ∃ plan, registry.depositAll owner strategy.hash snapshot.ledger = .ok plan := by
  obtain ⟨p, hp⟩ : ∃ p, enterRoute owner none route (.ofLedger snapshot.ledger) = .ok p :=
    exists_eq_ok rfl
  refine ⟨⟨strategy.hash, .depositAll, p.2⟩, ?_⟩
  rw [Registry.depositAll, Registry.compileDeposit, strategy_eq, ok_bind, route_eq, ok_bind, hp]
  rfl

end Leveraged

end VaultKeeper
