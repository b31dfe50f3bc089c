import VaultKeeper.Proofs.GroupShape
import VaultKeeper.Proofs.NetValue
import VaultKeeper.Proofs.RoundTrip

/-! # Exit value

A position without loans is valued at exactly what leaving it pays out. The two walks over a route
have little in common: a valuation folds a number through conversions that only read the ledger,
and a withdrawal redeems what it finds on an overlay that every leg changes. They agree because the
receipts that reach a leg on the overlay are just the ones that the leg behind it has paid out, and
because no pool notices what the owner has done in between. -/

namespace VaultKeeper

open Ledger (SameApartFrom ChangesOnly)

/-! ## What leaving a leg pays out -/

namespace Amount

/-- Sums do not depend on the order of their parts. -/
theorem addSat_comm (a b : Amount) : a.addSat b = b.addSat a := by
  ext
  rw [toNat_addSat, toNat_addSat, Nat.add_comm]

/-- Adding to nothing. -/
theorem zero_addSat (a : Amount) : (0 : Amount).addSat a = a := by
  rw [addSat_comm, addSat_zero]

/-- Nothing but zeros adds up to nothing. -/
theorem sum_eq_zero {xs : List Amount} (h : ∀ a ∈ xs, a = 0) : Amount.sum xs = 0 := by
  unfold Amount.sum
  induction xs with
  | nil => rfl
  | cons a rest ih =>
    rw [List.foldl_cons, h a List.mem_cons_self, addSat_zero]
    exact ih fun x hx => h x (List.mem_cons_of_mem _ hx)

end Amount

namespace Leg

/-- The receipts that leaving a leg redeems: staked and loose ones together, or all that can be
withdrawn. -/
def redeemable (l : Leg) (owner : Address) (staked : Bool) (c : Ledger) :
    Except AllocationError Amount := do
  if staked then
    let held ← (← l.bound.adapter.stakeable).staked owner l.pool c
    return held.addSat (← l.base.receiptBalance owner l.input l.pool c)
  else
    l.base.withdrawable owner l.input l.pool c

/-- What leaving a leg pays out. -/
def payout (l : Leg) (owner : Address) (staked : Bool) (c : Ledger) :
    Except AllocationError Amount := do
  l.base.redeemed l.input l.pool (← l.redeemable owner staked c) c

end Leg

/-- **An account is paid an amount of one token for some of its other tokens.** -/
def Overlay.PaidFor (owner token : Address) (amount : Amount) (tokens : List Address)
    (o o' : Overlay) : Prop :=
  ∃ given : Overlay, ChangesOnly owner tokens [] o.ledger given.ledger ∧
    o' = given.credit token owner amount

namespace Overlay.PaidFor

variable {owner token : Address} {amount : Amount} {tokens : List Address} {o mid o' : Overlay}

/-- The same tokens may have been moved before. -/
theorem of_changesOnly (hchange : ChangesOnly owner tokens [] o.ledger mid.ledger)
    (h : PaidFor owner token amount tokens mid o') : PaidFor owner token amount tokens o o' := by
  obtain ⟨given, hgiven, rfl⟩ := h
  exact ⟨given, hchange.trans hgiven, rfl⟩

/-- Nothing else is changed. -/
theorem changesOnly (h : PaidFor owner token amount tokens o o') :
    ChangesOnly owner (token :: tokens) [] o.ledger o'.ledger := by
  obtain ⟨given, hchange, rfl⟩ := h
  exact (hchange.mono (List.subset_cons_self _ _) (List.Subset.refl _)).trans
    (Overlay.changesOnly_credit _ _ List.mem_cons_self)

/-- The payment is added to what was held of its token. -/
theorem balance (h : PaidFor owner token amount tokens o o') (hnot : token ∉ tokens) :
    o'.ledger.balance token owner = (o.ledger.balance token owner).addSat amount := by
  obtain ⟨given, hchange, rfl⟩ := h
  rw [Overlay.balance_credit_self, hchange.held hnot]

end Overlay.PaidFor

/-- **Leaving a leg of a path pays out what it redeems**, for its receipts and what stands for
staked ones. -/
theorem Path.paidFor_of_leave {owner token : Address} {l : Leg} {rest : List Leg}
    {o o' : Overlay} {groups : List Group} (h : Path owner token (l :: rest))
    (hplain : l.step.isBorrow = false)
    (hrun : l.leave owner (rest.isEmpty && l.stakes) o = .ok (o', groups)) :
    ∃ paid, l.payout owner (rest.isEmpty && l.stakes) o.ledger = .ok paid ∧
      Overlay.PaidFor owner token paid (routeTokens (l :: rest)) o o' := by
  obtain ⟨receipt, hreceipt, -⟩ := h.known l List.mem_cons_self
  have hmem : receipt ∈ routeTokens (l :: rest) :=
    (sublist_routeTokens l rest).subset (List.mem_append_left _ (h.mem_tokens hreceipt).1)
  rw [Leg.leave_of_plain hplain] at hrun
  rw [← h.input_eq]
  cases hstaked : rest.isEmpty && l.stakes with
  | false =>
    rw [hstaked, if_neg Bool.false_ne_true] at hrun
    obtain ⟨receipt', receipts, redeemed, -, hreceipt', hreceipts, hredeemed, -, rfl, -⟩ :=
      Leg.withdraw_eq_ok hrun
    rw [hreceipt, Except.ok.injEq] at hreceipt'
    subst hreceipt'
    refine ⟨redeemed, ?_, _, Overlay.changesOnly_debit o receipts hmem, rfl⟩
    rw [Leg.payout, Leg.redeemable, if_neg Bool.false_ne_true, hreceipts, ok_bind, hredeemed]
  | true =>
    obtain ⟨hempty, hstakes⟩ := Bool.and_eq_true_iff.1 hstaked
    rw [List.isEmpty_iff] at hempty
    subst hempty
    rw [hstaked, if_pos rfl] at hrun
    obtain ⟨receipt', stakeable, gauge, staked, loose, redeemed, -, hreceipt', hstakeable, hgauge,
      hheld, hloose, hredeemed, -, rfl, -⟩ := Leg.unstakeAndWithdraw_eq_ok hrun
    rw [hreceipt, Except.ok.injEq] at hreceipt'
    subst hreceipt'
    have hgaugeMem : gauge ∈ routeTokens [l] := by
      rw [routeTokens_singleton, Leg.stakingToken?_eq hstakes hstakeable hgauge]
      exact List.mem_append_right _ List.mem_cons_self
    refine ⟨redeemed, ?_, _, (o.changesOnly_debit staked hgaugeMem).trans
      (Overlay.changesOnly_debit _ loose hmem), rfl⟩
    rw [Leg.payout, Leg.redeemable, if_pos rfl, hstakeable, ok_bind, hheld, ok_bind, hloose,
      ok_bind, pure_eq_ok, ok_bind, hredeemed]

/-- Leaving a route is leaving the legs behind the first one, and then the first one, whose receipts
are staked only if it is the last one. -/
theorem leaveRoute_cons (owner : Address) (l : Leg) (rest : List Leg) :
    leaveRoute owner (l :: rest) =
      Leg.andThen (leaveRoute owner rest) (l.leave owner (rest.isEmpty && l.stakes)) := by
  cases rest with
  | nil =>
    rw [leaveRoute_singleton]
    exact (Leg.andThen_nothing_left _).symm
  | cons next rest => exact leaveRoute_cons_cons owner l next rest

/-! ## Positions that consist of their last receipts -/

/-- **A position that consists of the receipts of its last leg**: there are no loans and no debts,
nothing is held of what the other legs yield, and there are no rewards to claim. -/
structure Unencumbered (owner : Address) (c : Ledger) (legs : List Leg) : Prop where
  /-- No leg borrows. -/
  plain : ∀ l ∈ legs, l.step.isBorrow = false
  /-- Nothing is owed at a pool. -/
  owed : ∀ l ∈ legs, ∀ asset, c.debt l.pool asset owner = 0
  /-- Nothing is held of the outputs, the last one apart. -/
  fresh : ∀ token ∈ (legs.map (·.output)).dropLast, c.balance token owner = 0
  /-- The last leg stakes what it takes in. -/
  staking : ∀ top ∈ legs.getLast?, top.stakes = true → top.bound.adapter.StakesDeposits
  /-- There is nothing to claim. -/
  rewards : ∀ source, c.rewards source owner = 0

namespace Unencumbered

variable {owner : Address} {c : Ledger} {l : Leg} {rest : List Leg}

/-- What lies behind the first leg. -/
theorem tail (h : Unencumbered owner c (l :: rest)) : Unencumbered owner c rest where
  plain x hx := h.plain x (List.mem_cons_of_mem _ hx)
  owed x hx := h.owed x (List.mem_cons_of_mem _ hx)
  fresh token htoken := by
    cases rest with
    | nil => cases htoken
    | cons next rest => exact h.fresh token (List.mem_cons_of_mem _ htoken)
  staking top htop := by
    cases rest with
    | nil => cases htop
    | cons next rest => exact h.staking top (by rwa [List.getLast?_cons_cons])
  rewards := h.rewards

end Unencumbered

/-- Without debts nothing is owed. -/
theorem LendingProtocol.debtValue_eq_zero {p : LendingProtocol} {owner pool asset : Address}
    {x : Snapshot} {c : Ledger} {owed : Amount} (hquote : c.quote = x.quote)
    (hdebts : ∀ asset, c.debt pool asset owner = 0)
    (h : p.debtValue owner pool asset c = .ok owed) : owed = 0 := by
  obtain ⟨m, -, h⟩ := bind_eq_ok.1 h
  cases h
  refine Amount.sum_eq_zero fun a ha => ?_
  obtain ⟨b, -, rfl⟩ := List.mem_map.1 ha
  rw [hdebts, hquote]
  exact Snapshot.quote_zero ..

/-- **Without debts all receipts can be withdrawn.** -/
theorem Protocol.withdrawable_eq {p : Protocol} {owner asset pool receipt : Address}
    {x : Snapshot} {c : Ledger} {receipts : Amount} (hquote : c.quote = x.quote)
    (hdebts : ∀ asset, c.debt pool asset owner = 0)
    (hreceipt : p.receipt asset pool = .ok receipt)
    (h : p.withdrawable owner asset pool c = .ok receipts) :
    receipts = c.balance receipt owner := by
  cases p with
  | vault p => exact receiptBalance_eq_ok hreceipt h
  | curve p => exact receiptBalance_eq_ok hreceipt h
  | lending p =>
    have hmarket : p.receipt asset pool = .ok receipt := hreceipt
    obtain ⟨held, hheld, h⟩ := bind_eq_ok.1 h
    obtain ⟨owed, howed, h⟩ := bind_eq_ok.1 h
    rw [LendingProtocol.collateral, hmarket] at hheld
    cases hheld
    rw [LendingProtocol.debtValue_eq_zero hquote hdebts howed, if_neg (fun h => h.2 rfl),
      Amount.mulDiv_zero_left, Amount.subSat_zero] at h
    cases h
    rfl

namespace Path

variable {owner token : Address} {l : Leg} {rest legs : List Leg} {x : Snapshot} {c : Ledger}
  {o mid o' : Overlay} {groups : List Group} {paid value : Amount}

/-- Without debts and without a stake a leg redeems the balance of its output. -/
theorem payout_loose (h : Path owner token (l :: rest)) (hplain : l.step.isBorrow = false)
    (hquote : c.quote = x.quote) (hdebts : ∀ asset, c.debt l.pool asset owner = 0)
    (hpaid : l.payout owner false c = .ok paid) :
    l.base.redeemed l.input l.pool (c.balance l.output owner) c = .ok paid := by
  obtain ⟨receipt, hreceipt, hyield⟩ := h.known l List.mem_cons_self
  rw [Leg.payout, Leg.redeemable, if_neg Bool.false_ne_true] at hpaid
  obtain ⟨receipts, hreceipts, hredeemed⟩ := bind_eq_ok.1 hpaid
  rwa [Protocol.withdrawable_eq hquote hdebts hreceipt hreceipts, hyield hplain] at hredeemed

/-- A leg that stakes what it takes in redeems staked and loose receipts. -/
theorem payout_staked (h : Path owner token (l :: rest)) {p : CurveProtocol}
    (hstakeable : l.bound.adapter.stakeable = .ok p) (hbase : l.base = .curve p)
    (hpaid : l.payout owner true c = .ok paid) :
    ∃ held, p.stakedAndLoose owner l.input l.pool c = .ok held ∧
      p.redeemed l.input l.pool held c = .ok paid := by
  obtain ⟨receipt, hreceipt, -⟩ := h.known l List.mem_cons_self
  rw [Leg.payout, Leg.redeemable, if_pos rfl, hstakeable, ok_bind] at hpaid
  obtain ⟨receipts, hreceipts, hredeemed⟩ := bind_eq_ok.1 hpaid
  obtain ⟨staked, hstaked, hreceipts⟩ := bind_eq_ok.1 hreceipts
  obtain ⟨loose, hloose, hreceipts⟩ := bind_eq_ok.1 hreceipts
  obtain ⟨gauge, hgauge, -⟩ := bind_eq_ok.1 hstaked
  cases hreceipts
  rw [CurveProtocol.staked_eq_ok hgauge hstaked, Protocol.receiptBalance_eq_ok hreceipt hloose,
    Amount.addSat_comm] at hredeemed
  rw [hbase] at hreceipt hredeemed
  refine ⟨_, ?_, hredeemed⟩
  have hcurve : p.receipt l.input l.pool = .ok receipt := hreceipt
  obtain ⟨config, hconfig, -⟩ := CurveProtocol.pool_of_receipt hcurve
  rw [CurveProtocol.stakedAndLoose, hcurve, ok_bind, hconfig, ok_bind,
    CurveProtocol.gauge_eq_ok hconfig hgauge]
  rfl

/-- **The last leg is valued at what leaving it pays out**, staked or not. -/
theorem topValue_eq_payout (h : Path owner token [l]) (hsole : Unencumbered owner c [l])
    (hquote : c.quote = x.quote) (hpaid : l.payout owner l.stakes c = .ok paid) :
    l.topValue owner c = .ok paid := by
  obtain ⟨receipt, hreceipt, hyield⟩ := h.known l List.mem_cons_self
  have hplain := hsole.plain l List.mem_cons_self
  have hstakes : l.stakes = l.bound.stake := by
    rw [Leg.stakes, hplain, Bool.not_false, Bool.and_true]
  -- Pending rewards are all that a valuation adds to the redeemed receipts.
  have hpending : ∀ {p : CurveProtocol}, l.base = .curve p →
      p.pendingRewardValue owner l.input l.pool c = .ok 0 := by
    intro p hbase
    rw [hbase] at hreceipt
    obtain ⟨pending, hpending⟩ :=
      CurveProtocol.succeeds_pendingRewardValue
        (CurveProtocol.succeeds_pool ⟨receipt, hreceipt⟩) owner l.input c
    rwa [CurveProtocol.pendingRewardValue_eq_zero hquote hsole.rewards hpending] at hpending
  rw [Leg.topValue, hplain, if_neg Bool.false_ne_true, ← hstakes]
  cases hstaked : l.stakes with
  | true =>
    rw [hstaked] at hpaid
    have hown := hsole.staking l rfl hstaked
    obtain ⟨p, hstakeable⟩ : ∃ p, l.bound.adapter.stakeable = .ok p := by
      rw [Leg.payout, Leg.redeemable, if_pos rfl] at hpaid
      obtain ⟨_, hredeemable, -⟩ := bind_eq_ok.1 hpaid
      obtain ⟨p, hp, -⟩ := bind_eq_ok.1 hredeemable
      exact ⟨p, hp⟩
    have hbase : l.base = .curve p := hown p hstakeable
    obtain ⟨held, hheld, hredeemed⟩ := h.payout_staked hstakeable hbase hpaid
    rw [if_pos rfl, hstakeable, ok_bind, CurveProtocol.stakedValue, hheld, ok_bind, hredeemed,
      ok_bind, hpending hbase, ok_bind, Amount.addSat_zero, pure_eq_ok]
  | false =>
    rw [hstaked] at hpaid
    have hredeemed := h.payout_loose hplain hquote (hsole.owed l List.mem_cons_self) hpaid
    have hbalance : l.base.receiptBalance owner l.input l.pool c =
        .ok (c.balance l.output owner) := by
      rw [Protocol.receiptBalance, hreceipt, hyield hplain]
      rfl
    rw [if_neg Bool.false_ne_true, Protocol.holdingsValue, hbalance, ok_bind, hredeemed, ok_bind]
    cases hbase : l.base with
    | vault p => rfl
    | lending p => rfl
    | curve p =>
      show (p.pendingRewardValue owner l.input l.pool c >>= fun pending =>
        pure (paid.addSat pending)) = .ok paid
      rw [hpending hbase, ok_bind, Amount.addSat_zero, pure_eq_ok]

/-! ## Leaving a route -/

/-- **Legs have been left at their value**: what they are worth has been paid out. Nothing happens
when there are no legs. -/
def LeftAtValue (owner token : Address) (legs : List Leg) (o o' : Overlay) : Prop :=
  match legs with
  | [] => o' = o
  | l :: rest => ∃ value, routeValue owner o.ledger (l :: rest) = .ok value ∧
    Overlay.PaidFor owner token value (routeTokens (l :: rest)) o o'

/-- **A leg pays out the value of the route from it on**, once the legs behind it have been left at
their value. -/
theorem routeValue_eq_payout (h : Path owner token (l :: rest))
    (hsole : Unencumbered owner o.ledger (l :: rest)) (hquote : o.ledger.quote = x.quote)
    (hbehind : LeftAtValue owner l.output rest o mid)
    (hpayout : l.payout owner (rest.isEmpty && l.stakes) mid.ledger = .ok paid)
    (hpaid : Overlay.PaidFor owner token paid (routeTokens (l :: rest)) mid o') :
    routeValue owner o.ledger (l :: rest) = .ok paid ∧
      Overlay.PaidFor owner token paid (routeTokens (l :: rest)) o o' := by
  have hplain := hsole.plain l List.mem_cons_self
  cases rest with
  | nil =>
    cases hbehind
    exact ⟨h.topValue_eq_payout hsole hquote hpayout, hpaid⟩
  | cons next rest =>
    obtain ⟨outcome, houtcome, hlater⟩ := hbehind
    have hchange := hlater.changesOnly
    obtain ⟨receipt, hreceipt, -⟩ := h.known l List.mem_cons_self
    -- The receipts that the leg finds are what the legs behind it have paid out.
    have hfound : mid.ledger.balance l.output owner = outcome := by
      have hnot : l.output ∉ routeTokens (next :: rest) := (List.nodup_cons.1 h.tail.distinct).1
      rw [hlater.balance hnot, hsole.fresh l.output List.mem_cons_self, Amount.zero_addSat]
    have hdebts : ∀ asset, mid.ledger.debt l.pool asset owner = 0 := by
      intro asset
      rw [hchange.owed l.pool List.not_mem_nil]
      exact hsole.owed l List.mem_cons_self asset
    have hredeemed : l.base.redeemed l.input l.pool outcome o.ledger = .ok paid := by
      have hforeign := h.foreign l List.mem_cons_self
      rw [← hfound, ← Protocol.redeemed_congr hchange.toSameApartFrom hforeign.pool hreceipt
        (hforeign.receipt hreceipt)]
      exact h.payout_loose hplain (hchange.quote.trans hquote) hdebts hpayout
    have hvalue : routeValue owner o.ledger (l :: next :: rest) = .ok paid := by
      show (routeValue owner o.ledger (next :: rest) >>= fun v =>
        l.innerValue owner v o.ledger) = _
      rw [houtcome, ok_bind, Leg.innerValue, hplain, if_neg Bool.false_ne_true, hredeemed]
    -- Both payments are made for tokens of the path.
    have htokens := (sublist_routeTokens l (next :: rest)).subset
    have hsub : l.output :: routeTokens (next :: rest) ⊆ routeTokens (l :: next :: rest) :=
      List.cons_subset.2 ⟨htokens (List.mem_append_left _ (h.mem_tokens hreceipt).2),
        fun _ hx => htokens (List.mem_append_right _ hx)⟩
    exact ⟨hvalue, hpaid.of_changesOnly (hchange.mono hsub (List.Subset.refl _))⟩

/-- **Legs are left at their value.** -/
theorem leftAtValue_of_leaveRoute (h : Path owner token legs)
    (hsole : Unencumbered owner o.ledger legs) (hquote : o.ledger.quote = x.quote)
    (hrun : leaveRoute owner legs o = .ok (o', groups)) : LeftAtValue owner token legs o o' := by
  -- Legs are left from the end, so the induction from the front is on what lies behind a leg.
  induction legs generalizing token o' groups with
  | nil =>
    cases hrun
    rfl
  | cons l rest ih =>
    rw [leaveRoute_cons] at hrun
    obtain ⟨mid, _, _, hlater, hfirst, -⟩ := Leg.andThen_eq_ok_iff.1 hrun
    have hbehind : LeftAtValue owner l.output rest o mid := ih h.tail hsole.tail hlater
    obtain ⟨paid, hpayout, hpaid⟩ := h.paidFor_of_leave (hsole.plain l List.mem_cons_self) hfirst
    exact ⟨paid, h.routeValue_eq_payout hsole hquote hbehind hpayout hpaid⟩

end Path

/-! ## Withdrawals -/

/-- **A group leaves a leg and credits an amount of a token**: the amount is what the leg pays out,
and it is paid for other tokens. -/
def Emission.Credits (owner token : Address) (amount : Amount) (e : Emission) : Prop :=
  e.job.leg.payout owner (e.job.task = .unstakeAndWithdraw) e.before.ledger = .ok amount ∧
    ∃ tokens, token ∉ tokens ∧ Overlay.PaidFor owner token amount tokens e.before e.after

/-- The first leg of a route has the number zero, and no other leg has. -/
theorem index_of_route_cons {r : Registry} {d : Direction} {s : Strategy} {l : Leg}
    {rest : List Leg} (h : r.route d s = .ok (l :: rest)) :
    l.index = 0 ∧ ∀ x ∈ rest, x.index ≠ 0 := by
  have hindex := index_of_route h
  rw [← Registry.length_of_route h, List.length_cons, List.range_succ_eq_map, List.map_cons,
    List.cons.injEq] at hindex
  refine ⟨hindex.1, fun x hx hzero => ?_⟩
  have hmem : x.index ∈ rest.map (·.index) := List.mem_map_of_mem hx
  rw [hindex.2, hzero] at hmem
  obtain ⟨n, -, hn⟩ := List.mem_map.1 hmem
  exact Nat.succ_ne_zero n hn

/-- **Leaving a path ends with a group for its first leg**, which credits what the leg pays out
after the legs behind it have been left. -/
theorem Path.credits_of_leaveRoute {owner token : Address} {l : Leg} {rest : List Leg}
    {o o' : Overlay} {groups : List Group} (h : Path owner token (l :: rest))
    (hplain : l.step.isBorrow = false)
    (hrun : leaveRoute owner (l :: rest) o = .ok (o', groups)) :
    ∃ es e mid paid, leaveRoute owner rest o = .ok (mid, es.map (·.group)) ∧
      l.payout owner (rest.isEmpty && l.stakes) mid.ledger = .ok paid ∧
      Overlay.PaidFor owner token paid (routeTokens (l :: rest)) mid o' ∧
      Trace owner o (es ++ [e]) o' ∧ groups = (es ++ [e]).map (·.group) ∧
      (∀ y ∈ es, y.job.leg ∈ rest) ∧ e.job.leg = l ∧ e.Credits owner token paid := by
  rw [leaveRoute_cons] at hrun
  obtain ⟨mid, before, last, hlater, hfirst, rfl⟩ := Leg.andThen_eq_ok_iff.1 hrun
  obtain ⟨paid, hpayout, hpaid⟩ := h.paidFor_of_leave hplain hfirst
  -- A leg without a loan is left by a single job.
  have hbehind := hlater
  rw [leaveRoute_eq] at hbehind
  rw [Leg.leave_eq] at hfirst
  obtain ⟨es, htrace, hjobs, rfl⟩ := trace_of_runJobs hbehind
  obtain ⟨es', htrace', hjobs', rfl⟩ := trace_of_runJobs hfirst
  rw [Leg.exitJobs, hplain, if_neg Bool.false_ne_true, List.nil_append] at hjobs'
  obtain ⟨e, rfl, hjob⟩ := List.map_eq_singleton_iff.1 hjobs'
  refine ⟨es, e, mid, paid, hlater, hpayout, hpaid, htrace.append htrace',
    (List.map_append ..).symm, fun y hy => ?_, ?_, ?_, ?_⟩
  · have hmem : y.job ∈ exitSchedule rest := hjobs ▸ List.mem_map_of_mem hy
    exact (mem_exitSchedule hmem).1
  · rw [hjob]
  · have hstaked : (rest.isEmpty && l.stakes) = decide (e.job.task = .unstakeAndWithdraw) := by
      rw [hjob]
      cases rest.isEmpty && l.stakes <;> rfl
    have hleg : e.job.leg = l := by rw [hjob]
    rw [hleg, ← hstaked, htrace'.eq_of_singleton.1]
    exact hpayout
  · obtain ⟨hbefore, hafter⟩ := htrace'.eq_of_singleton
    rw [hbefore, hafter]
    exact ⟨_, (List.nodup_cons.1 h.distinct).1, hpaid⟩

/-- **A position is valued at exactly what leaving it pays out.** On a strategy without loans whose
underlying asset, outputs and staking token are pairwise distinct, let an owner who is none of the
pools and outputs hold nothing of the outputs in between, owe nothing and have nothing to claim.
Whatever the withdrawal of everything credits in the group of the first step, which is its last
group, is the value of the position, provided that the last step is not staked with another protocol
than the one that takes its deposits. In a registry that is wired, both the withdrawal and the
valuation succeed. -/
theorem exit_value_is_paid_out (r : Registry) (hash : Digest) (s : Strategy) (route : List Leg)
    (owner : Address) (x : Snapshot) (hs : r.strategy hash = .ok s)
    (hroute : r.route .exit s = .ok route) (hplain : s.hasBorrow = false)
    (hdistinct : (s.underlying :: (s.steps.map (·.output) ++ (topStake? route).toList)).Nodup)
    (hforeign : ∀ step ∈ s.steps, owner ≠ step.pool ∧ owner ≠ step.output)
    (hfresh : ∀ token ∈ (s.steps.map (·.output)).dropLast, x.ledger.balance token owner = 0)
    (hdebts : ∀ step ∈ s.steps, ∀ asset, x.ledger.debt step.pool asset owner = 0)
    (hrewards : ∀ source, x.ledger.rewards source owner = 0)
    (hstaking : ∀ top ∈ route.getLast?, top.stakes = true → top.bound.adapter.StakesDeposits) :
    (∀ plan, r.compile owner x.ledger (.withdrawAll hash) = .ok plan →
      ∃ es e after value, Trace owner (.ofLedger x.ledger) (es ++ [e]) after ∧
        plan.groups = (es ++ [e]).map (·.group) ∧ (∀ y ∈ es, y.group.stepIndex ≠ 0) ∧
        e.group.stepIndex = 0 ∧ e.Credits owner s.underlying value ∧
        r.balanceInUnderlying owner hash x.ledger = .ok value) ∧
    (r.Wired → ∃ plan value, r.compile owner x.ledger (.withdrawAll hash) = .ok plan ∧
      r.balanceInUnderlying owner hash x.ledger = .ok value) := by
  have hvalue : r.balanceInUnderlying owner hash x.ledger = routeValue owner x.ledger route := by
    rw [Registry.balanceInUnderlying, hs, ok_bind, hroute, ok_bind]
  constructor
  · intro plan hplan
    obtain ⟨after, hrun, -, -⟩ := Registry.compile_eq_ok_iff_simulate.1 hplan
    obtain ⟨_, hexit, hrun⟩ := (Registry.simulate_withdrawAll_eq_ok hs).1 hrun
    rw [hroute] at hexit
    cases hexit
    have hpath := Registry.path_of_plain hroute hplain hdistinct hforeign
    obtain ⟨hlegs, houtputs, -⟩ := Registry.plain_of_route hroute hplain
    have hsole : Unencumbered owner x.ledger route :=
      ⟨fun l hl => (hlegs l hl).2, fun l hl => hdebts l.step (hlegs l hl).1, houtputs ▸ hfresh,
        hstaking, hrewards⟩
    cases route with
    | nil => exact absurd rfl (Registry.route_ne_nil hroute)
    | cons l rest =>
      obtain ⟨hfirst, hothers⟩ := index_of_route_cons hroute
      obtain ⟨es, e, mid, value, hlater, hpayout, hpaid, htrace, hgroups, hrest, rfl, hcredits⟩ :=
        hpath.credits_of_leaveRoute (hsole.plain l List.mem_cons_self) hrun
      have hbehind := hpath.tail.leftAtValue_of_leaveRoute (o := .ofLedger x.ledger) hsole.tail rfl
        hlater
      obtain ⟨hworth, -⟩ := hpath.routeValue_eq_payout (o := .ofLedger x.ledger) hsole rfl hbehind
        hpayout hpaid
      have hindex := htrace.stepIndex_eq
      refine ⟨es, e, after, value, htrace, hgroups, fun y hy => ?_, ?_, hcredits, ?_⟩
      · rw [hindex y (List.mem_append_left _ hy)]
        exact hothers y.job.leg (hrest y hy)
      · rw [hindex e (List.mem_append_right _ List.mem_cons_self)]
        exact hfirst
      · exact hvalue.trans hworth
  · intro hr
    obtain ⟨⟨after, groups⟩, hrun⟩ := Registry.succeeds_simulate hr
      ⟨_, Registry.schedule_withdrawAll hs hroute⟩ owner (.ofLedger x.ledger)
    obtain ⟨value, hworth⟩ := succeeds_routeValue (Registry.fit_of_route hr hroute) owner x.ledger
    exact ⟨⟨_, _, groups⟩, value,
      Registry.compile_eq_ok_iff_simulate.2 ⟨after, hrun, rfl, rfl⟩, hvalue.trans hworth⟩

namespace Supplied

open Leveraged (owner coin pool)

/-- Some of the receipts of the curve pool are staked, and some are not. -/
def position : Snapshot :=
  { balances := .ofList [((asset, owner), 50), ((receipt, owner), 300), ((gauge, owner), 700),
      ((supplied, pool), 5000), ((coin, pool), 7000)]
    supplies := .ofList [(receipt, 8000)]
    prices := .ofList [(supplied, 2), (coin, 1)] }

/-- The receipts are taken out, redeemed, and turned back into the asset, as they are valued. -/
theorem position_credits_value :
    registry.strategy strategy.hash = .ok strategy ∧
    registry.route .exit strategy = .ok route ∧ strategy.hasBorrow = false ∧
    (strategy.underlying ::
      (strategy.steps.map (·.output) ++ (topStake? route).toList)).Nodup ∧
    (∀ step ∈ strategy.steps, owner ≠ step.pool ∧ owner ≠ step.output) ∧
    (∀ token ∈ (strategy.steps.map (·.output)).dropLast,
      position.ledger.balance token owner = 0) ∧
    (∀ step ∈ strategy.steps, ∀ asset, position.ledger.debt step.pool asset owner = 0) ∧
    (∀ source, position.ledger.rewards source owner = 0) ∧
    (∀ top ∈ route.getLast?, top.stakes = true → top.bound.adapter.StakesDeposits) ∧
    registry.Wired ∧ registry.balanceInUnderlying owner strategy.hash position.ledger = .ok 1062 ∧
    ∃ plan es e after,
      registry.compile owner position.ledger (.withdrawAll strategy.hash) = .ok plan ∧
      Trace owner (.ofLedger position.ledger) (es ++ [e]) after ∧
      plan.groups = (es ++ [e]).map (·.group) ∧ e.group.stepIndex = 0 ∧
      e.Credits owner asset 1062 := by
  have hstrategy : registry.strategy strategy.hash = .ok strategy :=
    Registry.strategy_register rfl
  have hentry : registry.route .enter strategy = .ok route := rfl
  have hroute := Registry.route_exit hentry
  have hdistinct : (strategy.underlying ::
      (strategy.steps.map (·.output) ++ (topStake? route).toList)).Nodup := by decide
  have hforeign : ∀ step ∈ strategy.steps, owner ≠ step.pool ∧ owner ≠ step.output := by decide
  have hfresh : ∀ token ∈ (strategy.steps.map (·.output)).dropLast,
      position.ledger.balance token owner = 0 := by decide
  have hdebts : ∀ step ∈ strategy.steps, ∀ asset,
      position.ledger.debt step.pool asset owner = 0 := fun _ _ _ => rfl
  have hrewards : ∀ source, position.ledger.rewards source owner = 0 := fun _ => rfl
  have hstaking : ∀ top ∈ route.getLast?, top.stakes = true →
      top.bound.adapter.StakesDeposits := fun top htop _ p hp =>
    Adapter.base_of_stakeable
      (Registry.fit_of_route governed.wired hroute top (List.mem_of_getLast? htop)).regular.whole hp
  obtain ⟨hagrees, hruns⟩ := exit_value_is_paid_out registry strategy.hash strategy route owner
    position hstrategy hroute rfl hdistinct hforeign hfresh hdebts hrewards hstaking
  obtain ⟨plan, -, hplan, -⟩ := hruns governed.wired
  obtain ⟨es, e, after, value, htrace, hgroups, -, hindex, hcredits, hvalue⟩ := hagrees plan hplan
  have hworth : registry.balanceInUnderlying owner strategy.hash position.ledger = .ok 1062 := by
    rw [Registry.balanceInUnderlying, hstrategy, ok_bind, hroute]
    rfl
  rw [hworth, Except.ok.injEq] at hvalue
  subst hvalue
  exact ⟨hstrategy, hroute, rfl, hdistinct, hforeign, hfresh, hdebts, hrewards, hstaking,
    governed.wired, hworth, plan, es, e, after, hplan, htrace, hgroups, hindex, hcredits⟩

end Supplied

/-! ## A mixed adapter

Deposits are taken by one curve protocol, and receipts are staked by another one, which knows the
same pool with another coin. -/

namespace Mixed

open Leveraged (owner coin pool receipt)

/-- The account that holds every role. -/
def admin : Address := .ofNat 11

/-- The asset. -/
def asset : Address := .ofNat 2

/-- The gauge of the pool. -/
def gauge : Address := .ofNat 7

/-- A curve protocol whose pool holds the asset and another coin. -/
def curve (id : String) (other : Address) : CurveProtocol :=
  ⟨id, ⟨.ofNat 9, 0⟩, 0, .ofList [(pool, ⟨[asset, other], receipt, some gauge, none⟩)]⟩

/-- One protocol takes deposits, and another one stakes. -/
def adapter : Adapter :=
  { base := .curve (curve "curve" coin), staking := some (curve "staking" (.ofNat 10)) }

/-- The pool is bound to the adapter, and its receipts are staked. -/
def setup : List Command := [.registerAdapter adapter, .addPool pool, .bindPool pool "curve" true]

/-- A single deposit, which ends in a stake. -/
def strategy : Strategy where
  underlying := asset
  steps := [⟨pool, receipt, false⟩]
  hash := strategyDigest asset [⟨pool, receipt, false⟩]
  steps_ne_nil := List.cons_ne_nil _ _
  underlying_ne_zero := by decide
  hash_eq := rfl

/-- The registry after the setup. -/
def prepared : Except AllocationError Registry :=
  setup.foldlM (fun r c => Registry.perform r admin c) (Registry.new admin)

/-- The registry, with the strategy. -/
def registry : Registry := (prepared.toOption.getD default).register strategy

/-- The only leg. -/
def leg : Leg := ⟨0, asset, ⟨pool, receipt, false⟩, ⟨adapter, true, default⟩⟩

/-- The owner has staked a twentieth of all receipts. -/
def snapshot : Snapshot :=
  { balances := .ofList [((gauge, owner), 100), ((asset, pool), 1000), ((coin, pool), 1000)]
    supplies := .ofList [(receipt, 2000)]
    prices := .ofList [(asset, 1), (coin, 1)] }

/-- **A mixed adapter values staked receipts by other coins than it redeems them for.** Leaving the
pool credits 100, which is what the protocol that takes deposits pays for the receipts, but the
protocol that stakes them does not see one of the coins and values them at 50. -/
theorem mixed_position_undervalued :
    (∃ r, prepared = .ok r ∧ r.perform admin (.addStrategy strategy) = .ok registry) ∧
    registry.strategy strategy.hash = .ok strategy ∧
    registry.route .exit strategy = .ok [leg] ∧ strategy.hasBorrow = false ∧
    (strategy.underlying ::
      (strategy.steps.map (·.output) ++ (topStake? [leg]).toList)).Nodup ∧
    (∀ step ∈ strategy.steps, owner ≠ step.pool ∧ owner ≠ step.output) ∧
    (∀ token ∈ (strategy.steps.map (·.output)).dropLast,
      snapshot.ledger.balance token owner = 0) ∧
    (∀ step ∈ strategy.steps, ∀ asset, snapshot.ledger.debt step.pool asset owner = 0) ∧
    (∀ source, snapshot.ledger.rewards source owner = 0) ∧
    registry.balanceInUnderlying owner strategy.hash snapshot.ledger = .ok 50 ∧
    ∃ plan e after,
      registry.compile owner snapshot.ledger (.withdrawAll strategy.hash) = .ok plan ∧
      Trace owner (.ofLedger snapshot.ledger) [e] after ∧ plan.groups = [e.group] ∧
      e.group.stepIndex = 0 ∧ e.Credits owner asset 100 := by
  have hstrategy : registry.strategy strategy.hash = .ok strategy :=
    Registry.strategy_register rfl
  have hroute : registry.route .exit strategy = .ok [leg] := rfl
  refine ⟨⟨_, rfl, rfl⟩, hstrategy, hroute, rfl, by decide, by decide, by decide,
    fun _ _ _ => rfl, fun _ => rfl, ?_, ?_⟩
  · rw [Registry.balanceInUnderlying, hstrategy, ok_bind, hroute]
    rfl
  · obtain ⟨⟨after, groups⟩, hrun⟩ :
        ∃ p, leaveRoute owner [leg] (.ofLedger snapshot.ledger) = .ok p := exists_eq_ok rfl
    have hpath : Path owner asset [leg] :=
      Registry.path_of_plain (s := strategy) hroute rfl (by decide) (by decide)
    obtain ⟨es, e, mid, paid, hnothing, hpayout, -, htrace, hgroups, -, hleg, hcredits⟩ :=
      hpath.credits_of_leaveRoute rfl hrun
    obtain ⟨rfl, hnone⟩ := Prod.mk.inj (Except.ok.inj hnothing)
    obtain rfl := List.map_eq_nil_iff.1 hnone.symm
    have hworth : leg.payout owner true snapshot.ledger = .ok 100 := rfl
    have hamount : paid = 100 := Except.ok.inj (hpayout.symm.trans hworth)
    refine ⟨⟨_, _, groups⟩, e, after, Registry.compile_eq_ok_iff_simulate.2 ⟨after, ?_, rfl, rfl⟩,
      htrace, hgroups, ?_, hamount ▸ hcredits⟩
    · exact (Registry.simulate_withdrawAll_eq_ok hstrategy).2 ⟨[leg], hroute, hrun⟩
    · rw [htrace.stepIndex_eq e List.mem_cons_self, hleg]
      rfl

end Mixed

end VaultKeeper
