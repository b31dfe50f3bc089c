import VaultKeeper.Proofs.Balances
import VaultKeeper.Proofs.Moves
import VaultKeeper.Proofs.Reachable

/-! # Going on from an overlay

A job reads an overlay through its answers only, and what it leaves behind answers according to the
answers that it found. So a plan that goes on from an overlay cannot be told from one that starts
with an empty overlay on top of it. Hence a rebalance, which does a withdrawal and a deposit on one
overlay, is the withdrawal followed by the deposit that is compiled against what the withdrawal
leaves behind. -/

namespace VaultKeeper

/-! ## What overlays answer after a change -/

attribute [ext] Ledger

namespace Ledger

/-- A ledger with one balance replaced. -/
def setBalance (l : Ledger) (token account : Address) (amount : Amount) : Ledger :=
  { l with
    balance := fun token' account' =>
      if token' = token ∧ account' = account then amount else l.balance token' account' }

/-- A ledger with one debt replaced. -/
def setDebt (l : Ledger) (pool asset account : Address) (amount : Amount) : Ledger :=
  { l with
    debt := fun pool' asset' account' =>
      if pool' = pool ∧ asset' = asset ∧ account' = account then amount
      else l.debt pool' asset' account' }

end Ledger

namespace Overlay

variable (o : Overlay) (pool token asset account : Address) (amount : Amount)

/-- Replacing a balance replaces one answer. -/
theorem ledger_setBalance :
    (o.setBalance token account amount).ledger = o.ledger.setBalance token account amount := by
  have hbalance : (o.setBalance token account amount).ledger.balance =
      (o.ledger.setBalance token account amount).balance := by
    funext token' account'
    exact balance_setBalance o token account token' account' amount
  exact Ledger.ext hbalance rfl rfl rfl rfl

/-- Replacing a debt replaces one answer. -/
theorem ledger_setDebt :
    (o.setDebt pool asset account amount).ledger = o.ledger.setDebt pool asset account amount := by
  have hdebt : (o.setDebt pool asset account amount).ledger.debt =
      (o.ledger.setDebt pool asset account amount).debt := by
    funext pool' asset' account'
    exact debt_setDebt o pool asset account pool' asset' account' amount
  exact Ledger.ext rfl rfl rfl hdebt rfl

/-- The answers after a credit follow from those before. -/
theorem ledger_credit : (o.credit token account amount).ledger =
    o.ledger.setBalance token account ((o.ledger.balance token account).addSat amount) :=
  o.ledger_setBalance token account _

/-- The answers after a debit follow from those before. -/
theorem ledger_debit : (o.debit token account amount).ledger =
    o.ledger.setBalance token account ((o.ledger.balance token account).subSat amount) :=
  o.ledger_setBalance token account _

/-- The answers after a loan follow from those before. -/
theorem ledger_addDebt : (o.addDebt pool asset account amount).ledger =
    o.ledger.setDebt pool asset account ((o.ledger.debt pool asset account).addSat amount) :=
  o.ledger_setDebt pool asset account _

/-- The answers after a repayment follow from those before. -/
theorem ledger_reduceDebt : (o.reduceDebt pool asset account amount).ledger =
    o.ledger.setDebt pool asset account ((o.ledger.debt pool asset account).subSat amount) :=
  o.ledger_setDebt pool asset account _

end Overlay

/-! ## What can be seen of a part of a plan -/

/-- What can be seen of a part of a plan: the answers of the overlay that it leaves behind, and the
groups. -/
def seen (x : Compiled) : Except AllocationError (Ledger × List Group) :=
  (fun p => (p.1.ledger, p.2)) <$> x

@[simp] theorem seen_ok (o : Overlay) (groups : List Group) :
    seen (.ok (o, groups)) = .ok (o.ledger, groups) := rfl

@[simp] theorem seen_error (e : AllocationError) : seen (.error e) = .error e := rfl

/-- What is asked before a part is not part of what can be seen. -/
@[simp] theorem seen_bind {α : Type} (x : Except AllocationError α) (f : α → Compiled) :
    seen (x >>= f) = x >>= fun a => seen (f a) := by
  cases x <;> rfl

/-- A part that looks like a successful one is successful, and leaves the same behind. -/
theorem eq_ok_of_seen {x : Compiled} {l : Ledger} {groups : List Group}
    (h : seen x = .ok (l, groups)) : ∃ o, x = .ok (o, groups) ∧ o.ledger = l := by
  cases x with
  | error e => cases h
  | ok p =>
    obtain ⟨o, groups'⟩ := p
    rw [seen_ok, Except.ok.injEq, Prod.mk.injEq] at h
    obtain ⟨hledger, rfl⟩ := h
    exact ⟨o, rfl, hledger⟩

/-- A part that looks like a refused one is refused. -/
theorem eq_error_of_seen {x : Compiled} {e : AllocationError} (h : seen x = .error e) :
    x = .error e := by
  cases x with
  | error e' =>
    cases h
    rfl
  | ok p => cases h

/-- A part of a plan that reads an overlay through its answers. -/
def ReadsAnswers (f : Overlay → Compiled) : Prop :=
  ∀ {o o' : Overlay}, o.ledger = o'.ledger → seen (f o) = seen (f o')

/-- Two such parts, one after the other. -/
theorem ReadsAnswers.andThen {f g : Overlay → Compiled} (hf : ReadsAnswers f)
    (hg : ReadsAnswers g) : ReadsAnswers (Leg.andThen f g) := by
  intro o o' h
  have hfirst := hf h
  cases hx : f o with
  | error e =>
    rw [hx, seen_error] at hfirst
    simp only [Leg.andThen, hx, eq_error_of_seen hfirst.symm, error_bind]
  | ok p =>
    obtain ⟨mid, groups⟩ := p
    rw [hx, seen_ok] at hfirst
    obtain ⟨mid', hy, hmid⟩ := eq_ok_of_seen hfirst.symm
    -- What the first part leaves behind answers the same, so the second part looks the same.
    have hsecond := hg hmid.symm
    cases hz : g mid with
    | error e =>
      rw [hz, seen_error] at hsecond
      simp only [Leg.andThen, hx, hy, hz, eq_error_of_seen hsecond.symm, ok_bind, error_bind]
    | ok q =>
      obtain ⟨last, more⟩ := q
      rw [hz, seen_ok] at hsecond
      obtain ⟨last', hw, hlast⟩ := eq_ok_of_seen hsecond.symm
      simp only [Leg.andThen, hx, hy, hz, hw, ok_bind, pure_eq_ok, seen_ok, hlast]

/-! ## Jobs -/

namespace Job

variable {j : Job} {owner : Address}

/-- **A job reads an overlay through its answers.** -/
theorem readsAnswers (j : Job) (owner : Address) : ReadsAnswers (j.run owner) := by
  intro o o' h
  obtain ⟨l, task⟩ := j
  cases task with
  | deposit requested =>
    simp only [run, Leg.deposit, seen_bind, pure_eq_ok, seen_ok, Overlay.ledger_credit,
      Overlay.ledger_debit, h]
  | borrow =>
    simp only [run, Leg.borrow, seen_bind, pure_eq_ok, seen_ok, Overlay.ledger_addDebt,
      Overlay.ledger_credit, h]
  | stake =>
    simp only [run, Leg.stake, seen_bind, pure_eq_ok, seen_ok, Overlay.ledger_credit,
      Overlay.ledger_debit, h]
  | repay =>
    simp only [run, Leg.repay, seen_bind, pure_eq_ok, seen_ok, Overlay.ledger_reduceDebt,
      Overlay.ledger_debit, h]
  | withdraw =>
    simp only [run, Leg.withdraw, seen_bind, pure_eq_ok, seen_ok, Overlay.ledger_credit,
      Overlay.ledger_debit, h]
  | unstakeAndWithdraw =>
    simp only [run, Leg.unstakeAndWithdraw, seen_bind, pure_eq_ok, seen_ok, Overlay.ledger_credit,
      Overlay.ledger_debit, h]

end Job

/-- **Jobs that go on from an overlay cannot tell it from another one with the same answers.** -/
theorem readsAnswers_runJobs (owner : Address) (jobs : List Job) :
    ReadsAnswers (runJobs owner jobs) := by
  induction jobs with
  | nil =>
    intro o o' h
    simp only [runJobs, seen_ok, h]
  | cons j rest ih => exact ReadsAnswers.andThen (j.readsAnswers owner) ih

namespace Registry

variable {r : Registry} {owner : Address} {l : Ledger} {m : Move} {plan : Plan}

/-- **Going on from an overlay looks like starting on top of it.** -/
theorem seen_simulate (r : Registry) (owner : Address) (m : Move) (o : Overlay) :
    seen (r.simulate owner m o) = seen (r.simulate owner m (.ofLedger o.ledger)) := by
  simp only [simulate, seen_bind]
  exact bind_congr fun jobs => readsAnswers_runJobs owner jobs (Overlay.ledger_ofLedger _).symm

/-- A move can be simulated from an overlay exactly when its plan is compiled on top of it. -/
theorem simulate_groups_iff {o : Overlay} {groups : List Group} :
    (∃ o', r.simulate owner m o = .ok (o', groups)) ↔
      ∃ plan, r.compile owner o.ledger m = .ok plan ∧ plan.groups = groups := by
  have hseen := r.seen_simulate owner m o
  constructor
  · rintro ⟨o', ho'⟩
    rw [ho', seen_ok] at hseen
    obtain ⟨fresh, hfresh, -⟩ := eq_ok_of_seen hseen.symm
    exact ⟨⟨m.strategy, m.operation, groups⟩,
      compile_eq_ok_iff_simulate.2 ⟨fresh, hfresh, rfl, rfl⟩, rfl⟩
  · rintro ⟨plan, hplan, rfl⟩
    obtain ⟨fresh, hfresh, -⟩ := compile_eq_ok_iff_simulate.1 hplan
    rw [hfresh, seen_ok] at hseen
    obtain ⟨o', ho', -⟩ := eq_ok_of_seen hseen
    exact ⟨o', ho'⟩

/-- The simulation of a rebalance is that of the withdrawal, and then that of the deposit. -/
theorem simulate_rebalance {source target : Digest} {current next : Strategy}
    (hsource : r.strategy source = .ok current) (htarget : r.strategy target = .ok next)
    (hsame : current.underlying = next.underlying) {o o' : Overlay} {groups : List Group} :
    r.simulate owner (.rebalance source target) o = .ok (o', groups) ↔
      ∃ mid exits entries, r.simulate owner (.withdrawAll source) o = .ok (mid, exits) ∧
        r.simulate owner (.depositAll target) mid = .ok (o', entries) ∧
        groups = exits ++ entries := by
  rw [simulate_rebalance_eq_ok hsource htarget hsame]
  constructor
  · rintro ⟨exits, entries, hexits, hentries, h⟩
    obtain ⟨mid, before, after, hbefore, hafter, rfl⟩ := Leg.andThen_eq_ok_iff.1 h
    exact ⟨mid, before, after,
      (simulate_withdrawAll_eq_ok hsource).2 ⟨exits, hexits, hbefore⟩,
      (simulate_depositAll_eq_ok htarget).2 ⟨entries, hentries, hafter⟩, rfl⟩
  · rintro ⟨mid, before, after, hbefore, hafter, rfl⟩
    obtain ⟨exits, hexits, hbefore⟩ := (simulate_withdrawAll_eq_ok hsource).1 hbefore
    obtain ⟨entries, hentries, hafter⟩ := (simulate_depositAll_eq_ok htarget).1 hafter
    exact ⟨exits, entries, hexits, hentries,
      Leg.andThen_eq_ok_iff.2 ⟨mid, before, after, hbefore, hafter, rfl⟩⟩

/-- A rebalance that can be simulated over a ledger is compiled. -/
theorem rebalance_of_simulate {source target : Digest} {x : Overlay × List Group}
    (h : r.simulate owner (.rebalance source target) (.ofLedger l) = .ok x) :
    r.rebalance owner source target l = .ok ⟨target, .rebalance, x.2⟩ := by
  show r.compile owner l (.rebalance source target) = _
  exact compile_eq_ok_iff_simulate.2 ⟨x.1, h, rfl, rfl⟩

/-- **A rebalance is a withdrawal followed by a deposit.** It is compiled exactly when the
withdrawal is compiled, and the deposit is compiled against what the simulated withdrawal leaves
behind. Its groups are those of the withdrawal, and then those of the deposit. Going on from an
overlay never looks different from starting on top of it. -/
theorem rebalance_is_withdrawal_then_deposit (r : Registry) (owner : Address) (l : Ledger)
    (source target : Digest) (current next : Strategy) (hsource : r.strategy source = .ok current)
    (htarget : r.strategy target = .ok next) (hsame : current.underlying = next.underlying) :
    (∀ plan, r.rebalance owner source target l = .ok plan ↔
      ∃ left exits entries, r.withdrawAll owner source l = .ok exits ∧
        r.simulate owner (.withdrawAll source) (.ofLedger l) = .ok (left, exits.groups) ∧
        r.depositAll owner target left.ledger = .ok entries ∧
        plan = ⟨target, .rebalance, exits.groups ++ entries.groups⟩) ∧
    ∀ m o, seen (r.simulate owner m o) = seen (r.simulate owner m (.ofLedger o.ledger)) := by
  refine ⟨fun plan => ?_, r.seen_simulate owner⟩
  have hmove : r.rebalance owner source target l =
      r.compile owner l (.rebalance source target) := rfl
  rw [hmove, compile_eq_ok_iff_simulate]
  constructor
  · rintro ⟨o, hsim, hstrategy, hoperation⟩
    obtain ⟨left, exits, entries, hexits, hentries, hgroups⟩ :=
      (simulate_rebalance hsource htarget hsame).1 hsim
    -- The deposit went on from what the withdrawal left behind, so it can start on top of it.
    obtain ⟨deposit, hdeposit, rfl⟩ := simulate_groups_iff.1 ⟨o, hentries⟩
    have hwithdrawal : r.compile owner l (.withdrawAll source) =
        .ok ⟨source, .withdrawAll, exits⟩ :=
      compile_eq_ok_iff_simulate.2 ⟨left, hexits, rfl, rfl⟩
    refine ⟨left, ⟨source, .withdrawAll, exits⟩, deposit, hwithdrawal, hexits, hdeposit, ?_⟩
    obtain ⟨strategy, operation, groups⟩ := plan
    rw [Plan.mk.injEq]
    exact ⟨hstrategy, hoperation, hgroups⟩
  · rintro ⟨left, exits, entries, -, hexits, hentries, rfl⟩
    have hdeposit : r.compile owner left.ledger (.depositAll target) = .ok entries := hentries
    obtain ⟨o, ho⟩ := simulate_groups_iff.2 ⟨entries, hdeposit, rfl⟩
    exact ⟨o, (simulate_rebalance hsource htarget hsame).2 ⟨left, _, _, hexits, ho, rfl⟩, rfl, rfl⟩

end Registry

namespace Leveraged

/-- A deposit of the collateral that borrows nothing. -/
def plain : Strategy where
  underlying := collateral
  steps := [⟨market, .ofNat 8, false⟩]
  hash := strategyDigest collateral [⟨market, .ofNat 8, false⟩]
  steps_ne_nil := by simp
  underlying_ne_zero := strategy.underlying_ne_zero
  hash_eq := rfl

/-- The route of the deposit. -/
def plainRoute : List Leg :=
  [⟨0, collateral, ⟨market, .ofNat 8, false⟩, ⟨.whole (.lending lending), false, caps⟩⟩]

/-- Both strategies are registered. -/
def switching : Registry := registry.register plain

/-- The owner runs the leveraged position: collateral is supplied, a coin is owed, and receipts of
the curve pool are staked. -/
def opened : Snapshot :=
  { snapshot with
    balances := .ofList [((.ofNat 8, owner), 600), ((.ofNat 7, owner), 400), ((coin, pool), 5000),
      ((.ofNat 10, pool), 5000)]
    debts := .ofList [((market, coin, owner), 300)] }

/-- Registering the deposit changes no route. -/
theorem route_switching (d : Direction) (s : Strategy) :
    switching.route d s = registry.route d s := registry.route_register plain d s

/-- The leveraged strategy stays registered. -/
theorem strategy_switching : switching.strategy strategy.hash = .ok strategy :=
  Registry.strategy_eq_ok.2
    (Registry.extends_register registry plain _ _ (Registry.strategy_eq_ok.1 strategy_eq))

/-- The deposit is found under its digest, unless this happens to be the digest of the leveraged
strategy. -/
theorem exists_strategy_plain : ∃ next, switching.strategy plain.hash = .ok next ∧
    (plain.hash ≠ strategy.hash → next = plain) ∧ (next = plain ∨ next = strategy) := by
  by_cases hhash : plain.hash = strategy.hash
  · refine ⟨strategy, ?_, fun hne => absurd hhash hne, .inr rfl⟩
    rw [hhash]
    exact strategy_switching
  · have hnew : registry.strategies.get? plain.hash = none := by
      have hstrategies : registry.strategies = Table.insert ∅ strategy.hash strategy := rfl
      rw [hstrategies, Table.get?_insert_of_ne _ _ hhash]
      rfl
    exact ⟨plain, Registry.strategy_register hnew, fun _ => rfl, .inl rfl⟩

/-- The leveraged position is left on the route on which it was entered. -/
theorem exit_switching : switching.route .exit strategy = .ok route :=
  (route_switching .exit strategy).trans (Registry.route_exit route_eq)

/-- Leaving the position pays back the debt and sets the collateral free. -/
theorem exists_left : ∃ p, leaveRoute owner route (.ofLedger opened.ledger) = .ok p ∧
    p.1.ledger.balance collateral owner = 600 ∧ p.1.ledger.debt market coin owner = 0 :=
  ⟨_, rfl, rfl, rfl⟩

/-- Either strategy can be entered once the position is left. -/
theorem exists_switch {next : Strategy} (h : next = plain ∨ next = strategy) :
    strategy.underlying = next.underlying ∧
      ∃ entries x, switching.route .enter next = .ok entries ∧
        Leg.andThen (leaveRoute owner route) (enterRoute owner none entries)
          (.ofLedger opened.ledger) = .ok x := by
  rcases h with rfl | rfl
  · obtain ⟨x, hx⟩ : ∃ x, Leg.andThen (leaveRoute owner route) (enterRoute owner none plainRoute)
        (.ofLedger opened.ledger) = .ok x := exists_eq_ok rfl
    exact ⟨rfl, plainRoute, x, route_switching _ _, hx⟩
  · obtain ⟨x, hx⟩ : ∃ x, Leg.andThen (leaveRoute owner route) (enterRoute owner none route)
        (.ofLedger opened.ledger) = .ok x := exists_eq_ok rfl
    exact ⟨rfl, route, x, (route_switching _ _).trans route_eq, hx⟩

/-- The leveraged position of an owner is left for the deposit in one plan, which is a withdrawal
and then a deposit. The withdrawal pays back the debt and sets the collateral free, and the deposit
supplies it again. -/
theorem rebalance_splits : ∃ next, switching.strategy strategy.hash = .ok strategy ∧
    switching.strategy plain.hash = .ok next ∧ (plain.hash ≠ strategy.hash → next = plain) ∧
    strategy.underlying = next.underlying ∧
    ∃ plan left exits entries,
      switching.rebalance owner strategy.hash plain.hash opened.ledger = .ok plan ∧
      switching.withdrawAll owner strategy.hash opened.ledger = .ok exits ∧
      switching.simulate owner (.withdrawAll strategy.hash) (.ofLedger opened.ledger) =
        .ok (left, exits.groups) ∧
      opened.ledger.balance collateral owner = 0 ∧ left.ledger.balance collateral owner = 600 ∧
      opened.ledger.debt market coin owner = 300 ∧ left.ledger.debt market coin owner = 0 ∧
      switching.depositAll owner plain.hash left.ledger = .ok entries ∧
      plan.groups = exits.groups ++ entries.groups := by
  obtain ⟨next, hnext, hplain, hcases⟩ := exists_strategy_plain
  obtain ⟨hsame, entries, x, hentry, hx⟩ := exists_switch hcases
  have hplan : switching.rebalance owner strategy.hash plain.hash opened.ledger =
      .ok ⟨plain.hash, .rebalance, x.2⟩ := by
    apply Registry.rebalance_of_simulate
    exact (Registry.simulate_rebalance_eq_ok strategy_switching hnext hsame).2
      ⟨route, entries, exit_switching, hentry, hx⟩
  obtain ⟨left, exits, deposit, hexits, hleft, hdeposit, hgroups⟩ :=
    ((Registry.rebalance_is_withdrawal_then_deposit switching owner opened.ledger strategy.hash
      plain.hash strategy next strategy_switching hnext hsame).1 _).1 hplan
  -- What the simulated withdrawal leaves behind is what leaving the route leaves behind.
  obtain ⟨p, hp, hfree, hpaid⟩ := exists_left
  obtain ⟨exited, hexited, hrun⟩ :=
    (Registry.simulate_withdrawAll_eq_ok strategy_switching).1 hleft
  obtain rfl : route = exited := Except.ok.inj (exit_switching.symm.trans hexited)
  obtain rfl : p = (left, exits.groups) := Except.ok.inj (hp.symm.trans hrun)
  exact ⟨next, strategy_switching, hnext, hplain, hsame, _, left, exits, deposit, hplan, hexits,
    hleft, rfl, hfree, rfl, hpaid, hdeposit, congrArg Plan.groups hgroups⟩

end Leveraged

end VaultKeeper
