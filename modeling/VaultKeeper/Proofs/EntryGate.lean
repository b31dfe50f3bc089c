import VaultKeeper.Proofs.Calls
import VaultKeeper.Proofs.Totality
import VaultKeeper.Valuation

/-! # Risk metadata gates entry

Two registries are compared that differ in what risk operators adjust: approvals and ratings of
pools, and ranges of risk profiles. A leg finds the same adapter in both, and only a leg that is
entered asks for an approval. So whatever leaves a strategy, harvests it or measures it comes out the
same, and whatever enters it comes out the same wherever both registries approve its pools. -/

namespace VaultKeeper

/-- A pool record without what a risk operator adjusts: its pool and its place in the order of
registration. -/
def PoolRecord.fixedPart (record : PoolRecord) : Address × Nat := (record.pool, record.registration)

/-- A risk profile without its range. -/
def RiskProfile.fixedPart (policy : RiskProfile) : String × Bool := (policy.name, policy.canBorrow)

/-- A command of the risk operators that adds neither a pool nor a profile. -/
structure Command.AdjustsRisk (c : Command) : Prop where
  /-- It belongs to the risk operators. -/
  role : c.role = .riskOperator
  /-- It adds no pool. -/
  noPool : ∀ pool, c ≠ .addPool pool
  /-- It adds no profile. -/
  noProfile : ∀ name canBorrow low high, c ≠ .createProfile name canBorrow low high

namespace Registry

variable {r r' r'' : Registry} {pool : Address} {name : String} {c : Command}

/-- **Registries that differ only in approvals, ratings and ranges.** They list the same pools and
the same profiles. -/
structure RiskVariant (r r' : Registry) : Prop where
  /-- Nothing but pools and profiles differs. -/
  rest : r' = { r with pools := r'.pools, profiles := r'.profiles }
  /-- Pools differ in their approvals and ratings. -/
  pools : ∀ pool,
    (r'.pools.get? pool).map PoolRecord.fixedPart = (r.pools.get? pool).map PoolRecord.fixedPart
  /-- Profiles differ in their ranges. -/
  profiles : ∀ name, (r'.profiles.get? name).map RiskProfile.fixedPart =
    (r.profiles.get? name).map RiskProfile.fixedPart

namespace RiskVariant

/-- A registry differs from itself in nothing. -/
theorem refl (r : Registry) : r.RiskVariant r := ⟨rfl, fun _ => rfl, fun _ => rfl⟩

/-- Adjustments add up. -/
theorem trans (h : r.RiskVariant r') (h' : r'.RiskVariant r'') : r.RiskVariant r'' := by
  refine ⟨?_, fun pool => (h'.pools pool).trans (h.pools pool),
    fun name => (h'.profiles name).trans (h.profiles name)⟩
  rw [h'.rest, h.rest]

/-- The record of a pool may change in its approval and its rating. -/
theorem setRecord {record new : PoolRecord} (hrecord : r.pools.get? pool = some record)
    (hfixed : new.fixedPart = record.fixedPart) :
    r.RiskVariant { r with pools := r.pools.insert pool new } := by
  refine ⟨rfl, fun p => ?_, fun _ => rfl⟩
  by_cases hp : p = pool
  · subst hp
    rw [Table.get?_insert_self, hrecord, Option.map_some, Option.map_some, hfixed]
  · rw [Table.get?_insert_of_ne _ _ hp]

/-- A profile may change in its range. -/
theorem setProfile {policy new : RiskProfile} (hpolicy : r.profiles.get? name = some policy)
    (hfixed : new.fixedPart = policy.fixedPart) :
    r.RiskVariant { r with profiles := r.profiles.insert name new } := by
  refine ⟨rfl, fun _ => rfl, fun other => ?_⟩
  by_cases hname : other = name
  · subst hname
    rw [Table.get?_insert_self, hpolicy, Option.map_some, Option.map_some, hfixed]
  · rw [Table.get?_insert_of_ne _ _ hname]

/-- **Every adjustment changes approvals, ratings and ranges only.** -/
theorem of_execute (hc : c.AdjustsRisk) (h : r.execute c = .ok r') : r.RiskVariant r' := by
  cases c with
  | ratePool pool rating =>
    obtain ⟨record, hrecord, -, rfl⟩ := ratePool_eq_ok h
    exact setRecord hrecord rfl
  | approvePool pool approved =>
    obtain ⟨record, hrecord, rfl⟩ := updatePool_eq_ok h
    exact setRecord hrecord rfl
  | setProfileRange name low high =>
    obtain ⟨policy, range, hpolicy, -, rfl⟩ := setProfileRange_eq_ok h
    exact setProfile hpolicy rfl
  | addPool pool => exact absurd rfl (hc.noPool pool)
  | createProfile name canBorrow low high => exact absurd rfl (hc.noProfile name canBorrow low high)
  | _ => exact nomatch hc.role

/-- An adjustment writes nothing before it is checked. -/
theorem prepare_of_adjustsRisk (hc : c.AdjustsRisk) (r : Registry) : r.prepare c = r := by
  have hcaps : c.capsOf? = none := by
    cases c with
    | setCapMode | setProtocolCap | setPoolCap | setCapAmount => exact nomatch hc.role
    | _ => rfl
  rw [prepare, hcaps]

/-- A call for an adjustment changes approvals, ratings and ranges only, granted or refused. -/
theorem of_call (hc : c.AdjustsRisk) (r : Registry) (caller : Address) :
    r.RiskVariant (r.call caller c).2 := by
  rcases call_cases r caller c with ⟨-, h⟩ | ⟨r', -, hexecute, h⟩ | ⟨e, -, -, h⟩
  · rw [h]
    exact refl r
  · rw [h]
    exact of_execute hc hexecute
  · rw [h, prepare_of_adjustsRisk hc]
    exact refl r

/-- **So does every sequence of them**, whoever calls. -/
theorem of_afterCalls {calls : List (Address × Command)} (hcalls : ∀ x ∈ calls, x.2.AdjustsRisk)
    (r : Registry) : r.RiskVariant (r.afterCalls calls) :=
  afterCalls_induction (fun x hx _ hr => hr.trans (of_call (hcalls x hx) _ x.1)) (refl r)

/-- Both registries know the same strategies. -/
theorem strategy (h : r.RiskVariant r') (hash : Digest) : r'.strategy hash = r.strategy hash := by
  rw [h.rest]
  rfl

/-- Both registries bind every pool alike. -/
theorem binding? (h : r.RiskVariant r') (pool : Address) : r'.binding? pool = r.binding? pool := by
  rw [h.rest]
  rfl

end RiskVariant

/-! ## Routes -/

variable {d : Direction} {owner : Address} {hash : Digest} {s : Strategy} {l : Ledger}

/-- A strategy with a pool that is not approved has no route for entering. -/
theorem route_enter_of_unapproved (h : ∃ step ∈ s.steps, r.isApproved step.pool = false)
    (route : List Leg) : r.route .enter s ≠ .ok route := by
  intro hroute
  obtain ⟨step, hstep, hrevoked⟩ := h
  rw [← steps_of_route hroute, List.mem_map] at hstep
  obtain ⟨leg, hleg, rfl⟩ := hstep
  have happroved : r.isApproved leg.pool = true := (resolved_of_route hroute leg hleg).approved rfl
  rw [Leg.pool, hrevoked] at happroved
  cases happroved

namespace RiskVariant

/-- **Both registries leave every strategy along the same route.** -/
theorem route_exit (h : r.RiskVariant r') (s : Strategy) : r'.route .exit s = r.route .exit s :=
  legs_congr h.binding? fun hd => nomatch hd

/-- **Both registries enter a strategy along the same route** when both approve its pools. -/
theorem route_enter (h : r.RiskVariant r')
    (happroved : ∀ step ∈ s.steps, r.isApproved step.pool = true ∧ r'.isApproved step.pool = true) :
    r'.route .enter s = r.route .enter s := by
  refine legs_congr h.binding? fun _ step hstep => ?_
  obtain ⟨hr, hr'⟩ := happroved step hstep
  rw [hr, hr']

/-! ## Plans and values -/

/-- Withdrawals come out the same. -/
theorem withdrawAll (h : r.RiskVariant r') (owner : Address) (hash : Digest) (l : Ledger) :
    r'.withdrawAll owner hash l = r.withdrawAll owner hash l := by
  simp only [Registry.withdrawAll, h.strategy, h.route_exit]

/-- Claims and harvests come out the same. -/
theorem compileRewards (h : r.RiskVariant r') (owner : Address) (hash : Digest)
    (q : RewardRequest) (l : Ledger) :
    r'.compileRewards owner hash q l = r.compileRewards owner hash q l := by
  simp only [Registry.compileRewards, h.strategy, h.route_exit]

/-- Positions have the same value. -/
theorem balanceInUnderlying (h : r.RiskVariant r') (owner : Address) (hash : Digest) (l : Ledger) :
    r'.balanceInUnderlying owner hash l = r.balanceInUnderlying owner hash l := by
  simp only [Registry.balanceInUnderlying, h.strategy, h.route_exit]

/-- Deposits have the same number of groups. -/
theorem depositStepCount (h : r.RiskVariant r') (hash : Digest) :
    r'.depositStepCount hash = r.depositStepCount hash := by
  simp only [Registry.depositStepCount, h.strategy, h.route_exit]

/-- Withdrawals have the same number of groups. -/
theorem withdrawStepCount (h : r.RiskVariant r') (hash : Digest) :
    r'.withdrawStepCount hash = r.withdrawStepCount hash := by
  simp only [Registry.withdrawStepCount, h.strategy, h.route_exit]

/-- Claims have the same number of groups. -/
theorem claimStepCount (h : r.RiskVariant r') (hash : Digest) :
    r'.claimStepCount hash = r.claimStepCount hash := by
  simp only [Registry.claimStepCount, h.strategy, h.route_exit]

/-- Deposits come out the same when both registries approve the pools of the strategy. -/
theorem compileDeposit (h : r.RiskVariant r')
    (happroved : ∀ s, r.strategies.get? hash = some s → ∀ step ∈ s.steps,
      r.isApproved step.pool = true ∧ r'.isApproved step.pool = true)
    (owner : Address) (requested : Option Amount) (l : Ledger) :
    r'.compileDeposit owner hash requested l = r.compileDeposit owner hash requested l := by
  rw [Registry.compileDeposit, Registry.compileDeposit, h.strategy]
  cases hs : r.strategy hash with
  | error e => rfl
  | ok s => rw [ok_bind, ok_bind, h.route_enter (happroved s (strategy_eq_ok.1 hs))]

/-- Rebalances come out the same when both registries approve the pools of the strategy that is
entered. Those of the strategy that is left do not matter. -/
theorem rebalance {target : Digest} (h : r.RiskVariant r')
    (happroved : ∀ s, r.strategies.get? target = some s → ∀ step ∈ s.steps,
      r.isApproved step.pool = true ∧ r'.isApproved step.pool = true)
    (owner : Address) (source : Digest) (l : Ledger) :
    r'.rebalance owner source target l = r.rebalance owner source target l := by
  rw [Registry.rebalance, Registry.rebalance, h.strategy, h.strategy]
  cases hs : r.strategy target with
  | error e => rfl
  | ok s =>
    simp only [h.route_exit, h.route_enter (happroved s (strategy_eq_ok.1 hs)), ok_bind]

end RiskVariant

/-- No deposit into a strategy with a pool that is not approved has a plan. -/
theorem compileDeposit_of_unapproved (hs : r.strategies.get? hash = some s)
    (hrevoked : ∃ step ∈ s.steps, r.isApproved step.pool = false) (requested : Option Amount)
    (plan : Plan) : r.compileDeposit owner hash requested l ≠ .ok plan := by
  intro h
  rw [compileDeposit, strategy_eq_ok.2 hs, ok_bind, bind_eq_ok] at h
  obtain ⟨route, hroute, -⟩ := h
  exact route_enter_of_unapproved hrevoked route hroute

/-- No rebalance into a strategy with a pool that is not approved has a plan. -/
theorem rebalance_of_unapproved (hs : r.strategies.get? hash = some s)
    (hrevoked : ∃ step ∈ s.steps, r.isApproved step.pool = false) (source : Digest)
    (plan : Plan) : r.rebalance owner source hash l ≠ .ok plan := by
  intro h
  simp only [rebalance, strategy_eq_ok.2 hs, ok_bind, throw_eq_error, error_bind, pure_eq_ok,
    bind_eq_ok, ite_error_eq_ok] at h
  obtain ⟨current, -, -, exits, -, route, hroute, -⟩ := h
  exact route_enter_of_unapproved hrevoked route hroute

end Registry

/-- **Risk metadata gates entry and only entry.** Calls that adjust it, by whomever and in whatever
order, lead to a registry that differs in approvals, ratings and ranges only. Of two registries that
differ so, for every strategy, owner, amount and ledger:

- withdrawals, harvests, claims, the value of a position and all counts of groups are the same;
- deposits and rebalances into a strategy with a pool that is not approved never have a plan;
- deposits and rebalances into a strategy whose pools are approved in both are the same, whatever is
  approved of the strategy that is left. -/
theorem risk_gates_entry_only (r : Registry) :
    (∀ calls : List (Address × Command), (∀ x ∈ calls, x.2.AdjustsRisk) →
      r.RiskVariant (r.afterCalls calls)) ∧
    ∀ r', r.RiskVariant r' →
      (∀ owner hash amount l,
        r'.withdrawAll owner hash l = r.withdrawAll owner hash l ∧
        r'.harvestAll owner hash l = r.harvestAll owner hash l ∧
        r'.harvestSome owner hash amount l = r.harvestSome owner hash amount l ∧
        r'.claimAll owner hash l = r.claimAll owner hash l ∧
        r'.balanceInUnderlying owner hash l = r.balanceInUnderlying owner hash l ∧
        r'.depositStepCount hash = r.depositStepCount hash ∧
        r'.withdrawStepCount hash = r.withdrawStepCount hash ∧
        r'.claimStepCount hash = r.claimStepCount hash) ∧
      (∀ hash s, r'.strategies.get? hash = some s →
        (∃ step ∈ s.steps, r'.isApproved step.pool = false) →
        ∀ owner amount source l plan,
          r'.depositAll owner hash l ≠ .ok plan ∧
          r'.depositSome owner hash amount l ≠ .ok plan ∧
          r'.rebalance owner source hash l ≠ .ok plan) ∧
      ∀ hash, (∀ s, r.strategies.get? hash = some s → ∀ step ∈ s.steps,
          r.isApproved step.pool = true ∧ r'.isApproved step.pool = true) →
        ∀ owner amount source l,
          r'.depositAll owner hash l = r.depositAll owner hash l ∧
          r'.depositSome owner hash amount l = r.depositSome owner hash amount l ∧
          r'.rebalance owner source hash l = r.rebalance owner source hash l := by
  refine ⟨fun calls hcalls => .of_afterCalls hcalls r, fun r' h => ⟨?_, ?_, ?_⟩⟩
  · intro owner hash amount l
    exact ⟨h.withdrawAll owner hash l, h.compileRewards owner hash .harvestAll l,
      h.compileRewards owner hash (.harvestSome amount) l, h.compileRewards owner hash .claim l,
      h.balanceInUnderlying owner hash l, h.depositStepCount hash, h.withdrawStepCount hash,
      h.claimStepCount hash⟩
  · intro hash s hs hrevoked owner amount source l plan
    exact ⟨Registry.compileDeposit_of_unapproved hs hrevoked none plan,
      Registry.compileDeposit_of_unapproved hs hrevoked (some amount) plan,
      Registry.rebalance_of_unapproved hs hrevoked source plan⟩
  · intro hash happroved owner amount source l
    exact ⟨h.compileDeposit happroved owner none l, h.compileDeposit happroved owner (some amount) l,
      h.rebalance happroved owner source l⟩

namespace Leveraged

/-- The curve pool is revoked, the market is rated anew, and a stranger is turned away. -/
def revocation : List (Address × Command) :=
  [(.ofNat 11, .approvePool pool false), (.ofNat 11, .ratePool market (some 90)),
    (.ofNat 99, .approvePool pool true)]

/-- Every call of the revocation adjusts risk metadata. -/
theorem revocation_adjusts : ∀ x ∈ revocation, x.2.AdjustsRisk := by
  intro x hx
  simp only [revocation, List.mem_cons, List.not_mem_nil, or_false] at hx
  rcases hx with rfl | rfl | rfl
  all_goals exact ⟨rfl, fun _ => Command.noConfusion, fun _ _ _ _ => Command.noConfusion⟩

/-- After the revocation the strategy can be left as before, but no longer entered. Where the
revocation is taken back it can be entered as before. -/
theorem revoked_strategy_is_left :
    (∀ owner l, ((deployed.register strategy).afterCalls revocation).withdrawAll owner
        strategy.hash l = (deployed.register strategy).withdrawAll owner strategy.hash l) ∧
      (∀ owner l plan, ((deployed.register strategy).afterCalls revocation).depositAll owner
        strategy.hash l ≠ .ok plan) ∧
      ∀ owner l, ((deployed.register strategy).afterCalls
          (revocation ++ [(.ofNat 11, .approvePool pool true)])).depositAll owner strategy.hash l =
        (deployed.register strategy).depositAll owner strategy.hash l := by
  have hknown : (deployed.register strategy).strategies.get? strategy.hash = some strategy :=
    Registry.strategy_eq_ok.1 (Registry.strategy_register rfl)
  have hadjusts : ∀ x ∈ revocation ++ [(.ofNat 11, .approvePool pool true)],
      x.2.AdjustsRisk := by
    intro x hx
    rcases List.mem_append.1 hx with hx | hx
    · exact revocation_adjusts x hx
    · cases List.mem_singleton.1 hx
      exact ⟨rfl, fun _ => Command.noConfusion, fun _ _ _ _ => Command.noConfusion⟩
  obtain ⟨hreach, hcompare⟩ := risk_gates_entry_only (deployed.register strategy)
  have hrevoked := hreach revocation revocation_adjusts
  obtain ⟨hleave, hgate, -⟩ := hcompare _ hrevoked
  obtain ⟨-, -, henter⟩ := hcompare _ (hreach _ hadjusts)
  refine ⟨fun owner l => (hleave owner strategy.hash 0 l).1, fun owner l plan => ?_,
    fun owner l => ?_⟩
  · refine (hgate strategy.hash strategy ?_ ⟨_, List.mem_cons_of_mem _ List.mem_cons_self, ?_⟩ owner
      0 strategy.hash l plan).1
    · exact Registry.strategy_eq_ok.1 ((hrevoked.strategy _).trans (Registry.strategy_eq_ok.2 hknown))
    · rfl
  · refine (henter strategy.hash (fun s hs step hstep => ?_) owner 0 strategy.hash l).1
    rw [hknown, Option.some.injEq] at hs
    subst hs
    simp only [strategy, List.mem_cons, List.not_mem_nil, or_false] at hstep
    rcases hstep with rfl | rfl
    · exact ⟨rfl, rfl⟩
    · exact ⟨rfl, rfl⟩

end Leveraged

end VaultKeeper
