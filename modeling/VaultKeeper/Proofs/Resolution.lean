import VaultKeeper.Proofs.Outcome
import VaultKeeper.Route

/-! # Resolved routes

What is known about the legs of a route once a strategy has been resolved. A resolved leg carries
the step it stands for and the binding of the step's pool, the pool accepts the asset that reaches
it, and the step yields what it promises. A route has one leg for each step, in the order of the
steps, and a strategy that resolves for entering resolves to the same route for leaving. -/

namespace VaultKeeper

/-- The receipt token of an accepted coin is that of the configured pool. -/
theorem CurveProtocol.pool_of_receipt {p : CurveProtocol} {asset pool receipt : Address}
    (h : p.receipt asset pool = .ok receipt) :
    ∃ c, p.pool pool = .ok c ∧ c.receipt = receipt := by
  obtain ⟨_, -, h⟩ := bind_eq_ok.1 h
  obtain ⟨c, hc, h⟩ := bind_eq_ok.1 h
  cases h
  exact ⟨c, hc, rfl⟩

namespace Adapter

variable {a : Adapter}

/-- The lender of a protocol with all its capabilities is the protocol. -/
theorem base_of_lender {p : LendingProtocol} (hwhole : a = .whole a.base)
    (h : a.lender = .ok p) : a.base = .lending p := by
  rw [hwhole] at h
  cases hbase : a.base with
  | lending q =>
    rw [hbase] at h
    cases h
    rfl
  | vault q =>
    rw [hbase] at h
    cases h
  | curve q =>
    rw [hbase] at h
    cases h

/-- The staking of a protocol with all its capabilities is that of the protocol. -/
theorem base_of_stakeable {p : CurveProtocol} (hwhole : a = .whole a.base)
    (h : a.stakeable = .ok p) : a.base = .curve p := by
  rw [hwhole] at h
  cases hbase : a.base with
  | curve q =>
    rw [hbase] at h
    cases h
    rfl
  | vault q =>
    rw [hbase] at h
    cases h
  | lending q =>
    rw [hbase] at h
    cases h

/-- Receipts are staked with the protocol that takes the deposits. -/
def StakesDeposits (a : Adapter) : Prop :=
  ∀ p, a.stakeable = .ok p → a.base = .curve p

/-- **One protocol is behind every part of an adapter**, whichever parts are attached. -/
structure Single (a : Adapter) : Prop where
  /-- It stakes the receipts. -/
  staking : a.StakesDeposits
  /-- It pays the rewards. -/
  rewards : ∀ p, a.rewarding = .ok p → a.base = .curve p
  /-- It lends. -/
  lending : ∀ p, a.lender = .ok p → a.base = .lending p

/-- One protocol is behind an adapter that has every capability of the protocol. -/
theorem single_whole (q : Protocol) : (whole q).Single := by
  have hwhole : whole q = whole (whole q).base := by cases q <;> rfl
  refine ⟨fun p hp => base_of_stakeable hwhole hp, fun p hp => ?_,
    fun p hp => base_of_lender hwhole hp⟩
  cases q with
  | vault q => cases hp
  | lending q => cases hp
  | curve q =>
    cases hp
    rfl

end Adapter

/-- What is staked was not borrowed. -/
theorem Leg.isBorrow_of_stakes {l : Leg} (h : l.stakes = true) : l.step.isBorrow = false := by
  simp only [Leg.stakes, Bool.and_eq_true, Bool.not_eq_true'] at h
  exact h.2

variable {r r' : Registry} {d : Direction}

/-- **What resolution has checked about a leg.** -/
structure Leg.Resolved (r : Registry) (d : Direction) (l : Leg) : Prop where
  /-- The leg carries the binding of its pool. -/
  binding : r.binding? l.pool = some l.bound
  /-- Funds only enter approved pools. -/
  approved : d = .enter → r.isApproved l.pool = true
  /-- The pool accepts the asset that reaches it. -/
  accepts : ∃ assets, l.base.acceptedAssets l.pool = .ok assets ∧ l.input ∈ assets
  /-- A borrowing step asks for an asset that the pool lends. -/
  lends : l.step.isBorrow = true → ∃ lender assets, l.bound.adapter.lender = .ok lender ∧
    lender.borrowable l.pool = .ok assets ∧ l.output ∈ assets
  /-- Any other step yields the receipt token of its deposit. -/
  yields : l.step.isBorrow = false → l.base.receipt l.input l.pool = .ok l.output

/-- A leg that may be entered may be left. -/
theorem Leg.Resolved.exit {l : Leg} (h : l.Resolved r d) : l.Resolved r .exit :=
  ⟨h.binding, fun hd => Direction.noConfusion hd, h.accepts, h.lends, h.yields⟩

namespace Registry

/-- One protocol is behind every part of every binding's adapter. -/
def Single (r : Registry) : Prop :=
  ∀ pool bound, r.binding? pool = some bound → bound.adapter.Single

/-- No bound curve pool has its receipt token for a gauge, so staked and loose receipts are kept
apart. -/
def GaugesApart (r : Registry) : Prop :=
  ∀ {pool bound p c gauge}, r.binding? pool = some bound → bound.adapter.base = .curve p →
    p.pool pool = .ok c → c.gauge = some gauge → gauge ≠ c.receipt

/-- A step that resolves makes a leg that has passed every check. -/
theorem resolved_of_leg {index : Nat} {input : Address} {s : Step} {l : Leg}
    (h : r.leg d index input s = .ok l) :
    l.index = index ∧ l.input = input ∧ l.step = s ∧ l.Resolved r d := by
  unfold leg at h
  cases hb : r.binding? s.pool with
  | none => simp [hb] at h
  | some bound =>
    cases hborrow : s.isBorrow with
    | true =>
      simp only [hb, hborrow, throw_eq_error, error_bind, pure_eq_ok, if_true, Bool.and_eq_true,
        decide_eq_true_eq, Bool.not_eq_true', ite_error_eq_ok, ite_error_eq_ok', bind_eq_ok,
        Except.ok.injEq] at h
      obtain ⟨hopen, assets, hassets, hin, lender, hlender, loans, hloans, hout, rfl⟩ := h
      refine ⟨rfl, rfl, rfl, hb, ?_, ⟨assets, hassets, hin⟩,
        fun _ => ⟨lender, loans, hlender, hloans, hout⟩, ?_⟩
      · simpa [Leg.pool] using hopen
      · simp [hborrow]
    | false =>
      simp only [hb, hborrow, throw_eq_error, error_bind, pure_eq_ok, Bool.false_eq_true, if_false,
        Bool.and_eq_true, decide_eq_true_eq, Bool.not_eq_true', ite_error_eq_ok, ite_error_eq_ok',
        bind_eq_ok, Except.ok.injEq] at h
      obtain ⟨hopen, assets, hassets, hin, receipt, hreceipt, rfl, rfl⟩ := h
      refine ⟨rfl, rfl, rfl, hb, ?_, ⟨assets, hassets, hin⟩, ?_, fun _ => hreceipt⟩
      · simpa [Leg.pool] using hopen
      · simp [hborrow]

/-- A leg that has passed every check is what its step resolves to. -/
theorem leg_of_resolved {l : Leg} (h : l.Resolved r d) :
    r.leg d l.index l.input l.step = .ok l := by
  obtain ⟨index, input, s, bound⟩ := l
  obtain ⟨hb, hopen, ⟨assets, hassets, hin⟩, hlends, hyields⟩ := h
  simp only [Leg.pool, Leg.base, Leg.output] at hb hopen hassets hin hlends hyields
  unfold leg
  cases hborrow : s.isBorrow with
  | true =>
    obtain ⟨lender, loans, hlender, hloans, hout⟩ := hlends hborrow
    simpa [hb, hborrow, hassets, hin, hlender, hloans, hout] using hopen
  | false =>
    have hreceipt := hyields hborrow
    simpa [hb, hborrow, hassets, hin, hreceipt] using hopen

/-- A step that resolves for entering resolves to the same leg for leaving. -/
theorem leg_exit {index : Nat} {input : Address} {s : Step} {l : Leg}
    (h : r.leg d index input s = .ok l) : r.leg .exit index input s = .ok l := by
  obtain ⟨rfl, rfl, rfl, hl⟩ := resolved_of_leg h
  exact leg_of_resolved hl.exit

/-- The steps of a route resolve one by one. -/
theorem legs_cons_eq_ok_iff {index : Nat} {input : Address} {s : Step} {rest : List Step}
    {route : List Leg} :
    r.legs d index input (s :: rest) = .ok route ↔
      ∃ l legs, r.leg d index input s = .ok l ∧ r.legs d (index + 1) s.output rest = .ok legs ∧
        route = l :: legs := by
  simp only [legs, bind_eq_ok, pure_eq_ok, Except.ok.injEq]
  constructor
  · rintro ⟨l, hl, legs, hlegs, rfl⟩
    exact ⟨l, legs, hl, hlegs, rfl⟩
  · rintro ⟨l, legs, hl, hlegs, rfl⟩
    exact ⟨l, hl, legs, hlegs, rfl⟩

/-- A leg depends on the binding of its pool and, when it is entered, on the approval. -/
theorem leg_congr {index : Nat} {input : Address} {step : Step}
    (hbinding : r'.binding? step.pool = r.binding? step.pool)
    (happroved : d = .enter → r'.isApproved step.pool = r.isApproved step.pool) :
    r'.leg d index input step = r.leg d index input step := by
  unfold leg
  rw [hbinding]
  cases d with
  | enter => rw [happroved rfl]
  | exit => rfl

/-- Legs depend on the bindings of their pools and, when they are entered, on the approvals. -/
theorem legs_congr {index : Nat} {input : Address} {steps : List Step}
    (hbinding : ∀ pool, r'.binding? pool = r.binding? pool)
    (happroved : d = .enter → ∀ step ∈ steps, r'.isApproved step.pool = r.isApproved step.pool) :
    r'.legs d index input steps = r.legs d index input steps := by
  induction steps generalizing index input with
  | nil => rfl
  | cons step rest ih =>
    have hfirst : r'.leg d index input step = r.leg d index input step :=
      leg_congr (hbinding step.pool) fun hd => happroved hd step List.mem_cons_self
    have hrest : r'.legs d (index + 1) step.output rest = r.legs d (index + 1) step.output rest :=
      ih fun hd other hother => happroved hd other (List.mem_cons_of_mem step hother)
    rw [legs, legs, hfirst, hrest]

/-- Every leg of a route has passed every check. -/
theorem resolved_of_legs {index : Nat} {input : Address} {steps : List Step} {route : List Leg}
    (h : r.legs d index input steps = .ok route) : ∀ l ∈ route, l.Resolved r d := by
  induction steps generalizing index input route with
  | nil =>
    cases h
    simp
  | cons s rest ih =>
    obtain ⟨l, legs, hl, hlegs, rfl⟩ := legs_cons_eq_ok_iff.1 h
    intro m hm
    rcases List.mem_cons.1 hm with rfl | hm
    · exact (resolved_of_leg hl).2.2.2
    · exact ih hlegs m hm

/-- A route has one leg for each step, numbered in the order of the steps. -/
theorem zipIdx_of_legs {index : Nat} {input : Address} {steps : List Step} {route : List Leg}
    (h : r.legs d index input steps = .ok route) :
    route.map (fun l => (l.step, l.index)) = steps.zipIdx index := by
  induction steps generalizing index input route with
  | nil =>
    cases h
    rfl
  | cons s rest ih =>
    obtain ⟨l, legs, hl, hlegs, rfl⟩ := legs_cons_eq_ok_iff.1 h
    obtain ⟨hindex, -, hstep, -⟩ := resolved_of_leg hl
    rw [List.map_cons, List.zipIdx_cons, ih hlegs, hindex, hstep]

/-- Steps that resolve for entering resolve to the same legs for leaving. -/
theorem legs_exit {index : Nat} {input : Address} {steps : List Step} {route : List Leg}
    (h : r.legs d index input steps = .ok route) : r.legs .exit index input steps = .ok route := by
  induction steps generalizing index input route with
  | nil => exact h
  | cons s rest ih =>
    obtain ⟨l, legs, hl, hlegs, rfl⟩ := legs_cons_eq_ok_iff.1 h
    exact legs_cons_eq_ok_iff.2 ⟨l, legs, leg_exit hl, ih hlegs, rfl⟩

variable {s : Strategy} {route : List Leg}

/-- Every leg of a strategy's route has passed every check. -/
theorem resolved_of_route (h : r.route d s = .ok route) : ∀ l ∈ route, l.Resolved r d :=
  resolved_of_legs h

/-- The route of a strategy numbers the steps from zero. -/
theorem zipIdx_of_route (h : r.route d s = .ok route) :
    route.map (fun l => (l.step, l.index)) = s.steps.zipIdx :=
  zipIdx_of_legs h

/-- The legs of a route carry the steps of the strategy. -/
theorem steps_of_route (h : r.route d s = .ok route) : route.map (·.step) = s.steps := by
  have hfst := congrArg (List.map Prod.fst) (zipIdx_of_route h)
  rwa [List.map_map, List.zipIdx_map_fst] at hfst

/-- A route has a leg. -/
theorem route_ne_nil (h : r.route d s = .ok route) : route ≠ [] := by
  rintro rfl
  exact s.steps_ne_nil (steps_of_route h).symm

/-- The route of a strategy has one leg for each step. -/
theorem length_of_route (h : r.route d s = .ok route) : route.length = s.steps.length := by
  simpa using congrArg List.length (zipIdx_of_route h)

/-- **A strategy that can be entered can be left along the same route.** -/
theorem route_exit (h : r.route d s = .ok route) : r.route .exit s = .ok route :=
  legs_exit h

end Registry

end VaultKeeper
