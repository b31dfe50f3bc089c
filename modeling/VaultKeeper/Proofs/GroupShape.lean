import VaultKeeper.Proofs.Moves
import VaultKeeper.Valuation

/-! # The shape of a plan

Which groups a plan consists of depends on the strategy and on the elected stakes alone. A deposit
walks the steps forward and ends with the stake of the last one; a withdrawal walks them backward
and starts with the step that was staked. Groups without instructions are kept, so the step counts
that are announced beforehand are the lengths of the plans. -/

namespace VaultKeeper

/-- What a group does and where, without its instructions. -/
structure Heading where
  /-- Index of the strategy step. -/
  index : Nat
  /-- The pool of the step. -/
  pool : Address
  /-- What the group does. -/
  kind : GroupKind
deriving DecidableEq

/-- The heading of a group. -/
def Group.heading (g : Group) : Heading := ⟨g.stepIndex, g.pool, g.kind⟩

/-- The heading of the group that a job makes. -/
def Job.heading (j : Job) : Heading := ⟨j.leg.index, j.leg.pool, j.task.kind⟩

/-! ## The shape of a strategy -/

namespace Step

/-- Entering step `i` is a deposit, followed by a loan when the step borrows. -/
def entryHeadings (s : Step) (i : Nat) : List Heading :=
  ⟨i, s.pool, .deposit⟩ :: if s.isBorrow then [⟨i, s.pool, .borrow⟩] else []

/-- Leaving step `i` is a repayment when the step borrows, followed by a redemption. -/
def exitHeadings (s : Step) (i : Nat) (staked : Bool) : List Heading :=
  (if s.isBorrow then [⟨i, s.pool, .repay⟩] else []) ++
    [⟨i, s.pool, if staked then .unstakeAndWithdraw else .withdraw⟩]

/-- An entered step has one group, and one more when it borrows. -/
theorem length_entryHeadings (s : Step) (i : Nat) :
    (s.entryHeadings i).length = 1 + s.isBorrow.toNat := by
  unfold entryHeadings
  cases s.isBorrow <;> rfl

/-- A left step has one group, and one more when it borrows. -/
theorem length_exitHeadings (s : Step) (i : Nat) (staked : Bool) :
    (s.exitHeadings i staked).length = 1 + s.isBorrow.toNat := by
  unfold exitHeadings
  cases s.isBorrow <;> rfl

end Step

namespace Registry

/-- Whether the receipts of a step are staked when it is the last one: its pool's binding has
elected staking, and the step does not borrow. -/
def stakesStep (r : Registry) (s : Step) : Bool :=
  (r.bindings.get? s.pool).any (·.stake) && !s.isBorrow

/-- The last step of a strategy with its index, when its receipts are staked. -/
def stakedTop? (r : Registry) (s : Strategy) : Option (Step × Nat) :=
  s.steps.zipIdx.getLast?.filter fun top => r.stakesStep top.1

/-- **The groups of entering a strategy**: those of every step in order, then the stake of the last
step. -/
def entryShape (r : Registry) (s : Strategy) : List Heading :=
  (s.steps.zipIdx.flatMap fun x => x.1.entryHeadings x.2) ++
    (r.stakedTop? s).toList.map fun top => ⟨top.2, top.1.pool, .stake⟩

/-- **The groups of leaving a strategy**: those of every step from the last to the first, where only
the last step can be staked. -/
def exitShape (r : Registry) (s : Strategy) : List Heading :=
  s.steps.zipIdx.reverse.flatMap fun x =>
    x.1.exitHeadings x.2 (x.2 + 1 = s.steps.length && r.stakesStep x.1)

end Registry

/-- A step contributes one group, and one more when it borrows. -/
theorem length_flatMap_zipIdx {f : Step × Nat → List Heading}
    (hf : ∀ x, (f x).length = 1 + x.1.isBorrow.toNat) (steps : List Step) (i : Nat) :
    ((steps.zipIdx i).flatMap f).length = steps.length + steps.countP (·.isBorrow) := by
  induction steps generalizing i with
  | nil => rfl
  | cons s rest ih =>
    rw [List.zipIdx_cons, List.flatMap_cons, List.length_append, hf, ih, List.length_cons,
      List.countP_cons]
    cases s.isBorrow <;> simp <;> omega

namespace Registry

variable {r : Registry} {s : Strategy}

/-- How many groups it takes to enter a strategy. -/
theorem length_entryShape (r : Registry) (s : Strategy) :
    (r.entryShape s).length = s.steps.length + s.borrowSteps + (r.stakedTop? s).isSome.toNat := by
  rw [entryShape, List.length_append, List.length_map,
    length_flatMap_zipIdx fun x => x.1.length_entryHeadings x.2, Strategy.borrowSteps]
  cases r.stakedTop? s <;> rfl

/-- How many groups it takes to leave a strategy. -/
theorem length_exitShape (r : Registry) (s : Strategy) :
    (r.exitShape s).length = s.steps.length + s.borrowSteps := by
  -- The order of the steps does not matter for the number of groups.
  have hreverse : (r.exitShape s).length = (s.steps.zipIdx.flatMap fun x =>
      x.1.exitHeadings x.2 (x.2 + 1 = s.steps.length && r.stakesStep x.1)).length := by
    simp only [exitShape, List.length_flatMap, List.map_reverse, List.sum_reverse]
  rw [hreverse, length_flatMap_zipIdx fun x => x.1.length_exitHeadings x.2 _, Strategy.borrowSteps]

end Registry

/-! ## The shape of a schedule -/

variable {r : Registry} {d : Direction} {s : Strategy} {route : List Leg}

/-- The groups of a run are headed by its jobs. -/
theorem headings_of_runJobs {owner : Address} {jobs : List Job} {o o' : Overlay}
    {groups : List Group} (h : runJobs owner jobs o = .ok (o', groups)) :
    groups.map Group.heading = jobs.map Job.heading := by
  induction jobs generalizing o groups with
  | nil =>
    cases h
    rfl
  | cons j rest ih =>
    obtain ⟨mid, first, later, hj, hrest, rfl⟩ := Leg.andThen_eq_ok_iff.1 h
    obtain ⟨calls, rfl⟩ := Job.run_eq_ok hj
    rw [List.map_append, ih hrest, List.map_cons]
    rfl

/-- Whether a resolved leg stakes is decided by its step. -/
theorem Leg.Resolved.stakes_eq {l : Leg} (h : l.Resolved r d) : l.stakes = r.stakesStep l.step := by
  have hbinding := h.binding
  simp only [Registry.binding?, Option.bind_eq_bind, Option.bind_eq_some_iff,
    Option.pure_def, Option.some.injEq] at hbinding
  obtain ⟨b, hb, adapter, -, hbound⟩ := hbinding
  unfold Leg.stakes Registry.stakesStep
  rw [show r.bindings.get? l.step.pool = some b from hb, ← hbound]
  rfl

/-- The entry jobs of a route, step by step. -/
theorem headings_entryLegJobs (requested : Option Amount) (route : List Leg) :
    (entryLegJobs requested route).map Job.heading =
      route.flatMap fun l => l.step.entryHeadings l.index := by
  induction route generalizing requested with
  | nil => rfl
  | cons l rest ih =>
    have hentry : (l.entryJobs requested).map Job.heading = l.step.entryHeadings l.index := by
      unfold Leg.entryJobs Step.entryHeadings
      cases l.step.isBorrow <;> rfl
    rw [entryLegJobs, List.map_append, hentry, ih, List.flatMap_cons]

/-- The exit jobs of a leg. -/
theorem headings_exitJobs (l : Leg) (staked : Bool) :
    (l.exitJobs staked).map Job.heading = l.step.exitHeadings l.index staked := by
  unfold Leg.exitJobs Step.exitHeadings
  cases l.step.isBorrow <;> cases staked <;> rfl

/-- The exit jobs of a route none of whose legs is staked. -/
theorem headings_exitLegJobs_loose (reversed : List Leg) :
    (exitLegJobs false reversed).map Job.heading =
      reversed.flatMap fun l => l.step.exitHeadings l.index false := by
  induction reversed with
  | nil => rfl
  | cons l rest ih => rw [exitLegJobs, List.map_append, headings_exitJobs, ih, List.flatMap_cons]

/-- The last leg of a route stands for the last step of the strategy. -/
theorem getLast?_of_route (h : r.route d s = .ok route) :
    s.steps.zipIdx.getLast? = route.getLast?.map fun l => (l.step, l.index) := by
  rw [← Registry.zipIdx_of_route h, List.getLast?_map]

/-- The last leg of a route stakes exactly when the last step does. -/
theorem stakedTop?_of_route (h : r.route d s = .ok route) :
    r.stakedTop? s = (route.getLast?.filter (·.stakes)).map fun l => (l.step, l.index) := by
  rw [Registry.stakedTop?, getLast?_of_route h]
  cases htop : route.getLast? with
  | none => rfl
  | some top =>
    have hstakes := (Registry.resolved_of_route h top (List.mem_of_getLast? htop)).stakes_eq
    simp only [Option.map_some, Option.filter_some, ← hstakes]
    cases top.stakes <;> rfl

/-- **Entering a route makes the groups of entering its strategy.** -/
theorem headings_entrySchedule (h : r.route d s = .ok route) (requested : Option Amount) :
    (entrySchedule requested route).map Job.heading = r.entryShape s := by
  rw [entrySchedule, List.map_append, headings_entryLegJobs, Registry.entryShape,
    stakedTop?_of_route h, ← Registry.zipIdx_of_route h, List.flatMap_map, List.map_map]
  cases route.getLast?.filter (·.stakes) <;> rfl

/-- The legs of a route are numbered from zero. -/
theorem index_of_route (h : r.route d s = .ok route) :
    route.map (·.index) = List.range s.steps.length := by
  have hindex : (route.map fun l => (l.step, l.index)).map Prod.snd = route.map (·.index) := by
    rw [List.map_map]
    rfl
  rw [← hindex, Registry.zipIdx_of_route h, List.zipIdx_map_snd, List.range_eq_range']

/-- **Leaving a route makes the groups of leaving its strategy.** -/
theorem headings_exitSchedule (h : r.route d s = .ok route) :
    (exitSchedule route).map Job.heading = r.exitShape s := by
  have hindex := index_of_route h
  have hlength := Registry.length_of_route h
  rw [Registry.exitShape, ← Registry.zipIdx_of_route h, ← List.map_reverse, List.flatMap_map]
  rcases List.eq_nil_or_concat route with rfl | ⟨init, top, htop⟩
  · rfl
  rw [List.concat_eq_append] at htop
  subst htop
  rw [List.length_append, List.length_singleton] at hlength
  rw [← hlength, List.map_append, List.range_succ] at hindex
  obtain ⟨hinit, htop⟩ := List.append_inj hindex (by simp)
  -- Only the last leg has the last index, so only the last leg can be left as a staked one.
  have hloose : init.reverse.map (fun l => l.step.exitHeadings l.index
      (l.index + 1 = s.steps.length && r.stakesStep l.step)) =
        init.reverse.map fun l => l.step.exitHeadings l.index false := by
    refine List.map_congr_left fun l hl => ?_
    have hlt : l.index ∈ List.range init.length :=
      hinit ▸ List.mem_map_of_mem (List.mem_reverse.1 hl)
    rw [List.mem_range] at hlt
    rw [decide_eq_false (by omega), Bool.false_and]
  have hlast : top.index + 1 = s.steps.length := by
    have : top.index = init.length := by simpa using htop
    omega
  have hstakes : stakesTop (init ++ [top]) = r.stakesStep top.step := by
    rw [stakesTop, List.getLast?_concat, Option.any_some]
    exact (Registry.resolved_of_route h top (by simp)).stakes_eq
  rw [exitSchedule, List.reverse_concat, exitLegJobs, List.map_append, headings_exitJobs,
    headings_exitLegJobs_loose, List.flatMap_cons, List.flatMap_def, List.flatMap_def, hloose,
    decide_eq_true hlast, Bool.true_and, hstakes]

/-! ## The shape of compiled plans -/

namespace Registry

variable {owner : Address} {l : Ledger} {hash : Digest} {m : Move} {plan : Plan}

/-- The groups of a plan are headed by its schedule. -/
theorem headings_of_compile (h : r.compile owner l m = .ok plan) :
    ∃ jobs, r.schedule m = .ok jobs ∧ plan.groups.map Group.heading = jobs.map Job.heading := by
  obtain ⟨jobs, o, hjobs, hrun, -, -⟩ := compile_eq_ok_iff.1 h
  exact ⟨jobs, hjobs, headings_of_runJobs hrun⟩

/-- The groups of a deposit. -/
theorem headings_of_deposit (hs : r.strategy hash = .ok s)
    (hm : m = .depositAll hash ∨ ∃ amount, m = .depositSome hash amount)
    (h : r.compile owner l m = .ok plan) :
    (∃ route, r.route .enter s = .ok route) ∧ plan.groups.map Group.heading = r.entryShape s := by
  obtain ⟨jobs, hjobs, hgroups⟩ := headings_of_compile h
  rcases hm with rfl | ⟨amount, rfl⟩ <;>
  · rw [schedule, hs, ok_bind, bind_eq_ok] at hjobs
    obtain ⟨route, hroute, hjobs⟩ := hjobs
    cases hjobs
    exact ⟨⟨route, hroute⟩, hgroups.trans (headings_entrySchedule hroute _)⟩

/-- The groups of a withdrawal. -/
theorem headings_of_withdrawal (hs : r.strategy hash = .ok s)
    (h : r.compile owner l (.withdrawAll hash) = .ok plan) :
    (∃ route, r.route .exit s = .ok route) ∧ plan.groups.map Group.heading = r.exitShape s := by
  obtain ⟨jobs, hjobs, hgroups⟩ := headings_of_compile h
  rw [schedule, hs, ok_bind, bind_eq_ok] at hjobs
  obtain ⟨route, hroute, hjobs⟩ := hjobs
  cases hjobs
  exact ⟨⟨route, hroute⟩, hgroups.trans (headings_exitSchedule hroute)⟩

/-- The groups of a change from one strategy to another. -/
theorem headings_of_rebalance {target : Digest} {t : Strategy} (hs : r.strategy hash = .ok s)
    (ht : r.strategy target = .ok t) (h : r.compile owner l (.rebalance hash target) = .ok plan) :
    (∃ exits, r.route .exit s = .ok exits) ∧ (∃ entries, r.route .enter t = .ok entries) ∧
      plan.groups.map Group.heading = r.exitShape s ++ r.entryShape t := by
  obtain ⟨jobs, hjobs, hgroups⟩ := headings_of_compile h
  simp only [schedule, hs, ht, ok_bind, throw_eq_error, error_bind, pure_eq_ok, ite_error_eq_ok,
    bind_eq_ok] at hjobs
  obtain ⟨-, exits, hexits, entries, hentries, hjobs⟩ := hjobs
  cases hjobs
  refine ⟨⟨exits, hexits⟩, ⟨entries, hentries⟩, ?_⟩
  rw [hgroups, List.map_append, headings_exitSchedule hexits, headings_entrySchedule hentries]

/-- The announced length of a deposit is the length of its shape. Steps are counted along the route
of leaving, which is the same one. -/
theorem depositStepCount_eq (hs : r.strategy hash = .ok s) (h : r.route d s = .ok route) :
    r.depositStepCount hash = .ok (r.entryShape s).length := by
  have hstakes : stakesTop route = (r.stakedTop? s).isSome := by
    rw [stakedTop?_of_route h, stakesTop]
    cases route.getLast? with
    | none => rfl
    | some top => cases htop : top.stakes <;> simp [htop]
  rw [depositStepCount, hs, ok_bind, route_exit h, ok_bind, pure_eq_ok, length_of_route h, hstakes,
    length_entryShape]

/-- The announced length of a withdrawal is the length of its shape. -/
theorem withdrawStepCount_eq (hs : r.strategy hash = .ok s) (h : r.route d s = .ok route) :
    r.withdrawStepCount hash = .ok (r.exitShape s).length := by
  rw [withdrawStepCount, hs, ok_bind, route_exit h, ok_bind, pure_eq_ok, length_of_route h,
    length_exitShape]

/-- The announced length of a plan for rewards is the number of its groups. -/
theorem claimStepCount_eq {q : RewardRequest} (h : r.compileRewards owner hash q l = .ok plan) :
    r.claimStepCount hash = .ok plan.groups.length := by
  unfold compileRewards at h
  obtain ⟨s, hs, h⟩ := bind_eq_ok.1 h
  obtain ⟨route, hroute, h⟩ := bind_eq_ok.1 h
  obtain ⟨groups, hgroups, h⟩ := bind_eq_ok.1 h
  cases h
  rw [claimStepCount, hs, ok_bind, hroute, ok_bind]
  -- The plan and the count ask the same question: whether the last leg pays rewards.
  unfold rewardGroups at hgroups
  cases htop : route.getLast? with
  | none =>
    rw [htop] at hgroups
    cases hgroups
    rfl
  | some top =>
    simp only [htop] at hgroups ⊢
    obtain ⟨source, hsource, hgroups⟩ := bind_eq_ok.1 hgroups
    rw [hsource, ok_bind]
    cases source with
    | none =>
      cases hgroups
      rfl
    | some p =>
      obtain ⟨calls, -, hgroups⟩ := bind_eq_ok.1 hgroups
      cases hgroups
      rfl

/-- **Every plan has the shape of its strategy, and the announced number of groups.** A deposit has
the groups of entering the strategy, a withdrawal those of leaving it, and a rebalance has the ones
of leaving the first strategy and then the ones of entering the second. -/
theorem compiled_groups (r : Registry) (owner : Address) (l : Ledger) (hash : Digest)
    (s : Strategy) (hs : r.strategy hash = .ok s) :
    (∀ plan, (r.depositAll owner hash l = .ok plan ∨
        ∃ amount, r.depositSome owner hash amount l = .ok plan) →
      plan.groups.map Group.heading = r.entryShape s ∧
        r.depositStepCount hash = .ok plan.groups.length) ∧
    (∀ plan, r.withdrawAll owner hash l = .ok plan →
      plan.groups.map Group.heading = r.exitShape s ∧
        r.withdrawStepCount hash = .ok plan.groups.length) ∧
    (∀ plan, (r.claimAll owner hash l = .ok plan ∨ r.harvestAll owner hash l = .ok plan ∨
        ∃ amount, r.harvestSome owner hash amount l = .ok plan) →
      r.claimStepCount hash = .ok plan.groups.length) ∧
    ∀ target t plan, r.strategy target = .ok t → r.rebalance owner hash target l = .ok plan →
      plan.groups.map Group.heading = r.exitShape s ++ r.entryShape t ∧
        ∃ exits entries, r.withdrawStepCount hash = .ok exits ∧
          r.depositStepCount target = .ok entries ∧ plan.groups.length = exits + entries := by
  have hlength : ∀ {groups : List Group} {headings : List Heading},
      groups.map Group.heading = headings → headings.length = groups.length := by
    rintro groups _ rfl
    exact List.length_map _
  refine ⟨fun plan h => ?_, fun plan h => ?_, fun plan h => ?_, fun target t plan ht h => ?_⟩
  · obtain ⟨⟨route, hroute⟩, hgroups⟩ : (∃ route, r.route .enter s = .ok route) ∧
        plan.groups.map Group.heading = r.entryShape s := by
      rcases h with h | ⟨amount, h⟩
      · exact headings_of_deposit (m := .depositAll hash) hs (.inl rfl) h
      · exact headings_of_deposit (m := .depositSome hash amount) hs (.inr ⟨amount, rfl⟩) h
    refine ⟨hgroups, ?_⟩
    rw [depositStepCount_eq hs hroute, hlength hgroups]
  · obtain ⟨⟨route, hroute⟩, hgroups⟩ := headings_of_withdrawal hs h
    refine ⟨hgroups, ?_⟩
    rw [withdrawStepCount_eq hs hroute, hlength hgroups]
  · rcases h with h | h | ⟨amount, h⟩
    · exact claimStepCount_eq h
    · exact claimStepCount_eq h
    · exact claimStepCount_eq h
  · obtain ⟨⟨exits, hexits⟩, ⟨entries, hentries⟩, hgroups⟩ := headings_of_rebalance hs ht h
    refine ⟨hgroups, _, _, withdrawStepCount_eq hs hexits, depositStepCount_eq ht hentries, ?_⟩
    rw [← hlength hgroups, List.length_append]

end Registry

namespace Leveraged

/-- The deposit of the leveraged position has the four groups of its strategy. -/
theorem deposit_groups :
    registry.strategy strategy.hash = .ok strategy ∧
      ∃ plan, registry.depositAll owner strategy.hash snapshot.ledger = .ok plan ∧
        plan.groups.map Group.heading = [⟨0, market, .deposit⟩, ⟨0, market, .borrow⟩,
          ⟨1, pool, .deposit⟩, ⟨1, pool, .stake⟩] ∧
        registry.depositStepCount strategy.hash = .ok plan.groups.length := by
  obtain ⟨plan, hplan⟩ := exists_plan
  obtain ⟨hgroups, hcount⟩ := (Registry.compiled_groups registry owner snapshot.ledger
    strategy.hash strategy strategy_eq).1 plan (.inl hplan)
  exact ⟨strategy_eq, plan, hplan, hgroups, hcount⟩

end Leveraged

end VaultKeeper
