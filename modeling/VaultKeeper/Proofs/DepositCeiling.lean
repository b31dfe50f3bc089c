import VaultKeeper.Proofs.Admission
import VaultKeeper.Proofs.Balances
import VaultKeeper.Proofs.Moves

/-! # Deposit ceilings along a plan

A deposit is clamped before it is made, and the ceiling is a bound on the value of a position, which
is only known after receipts have been minted and valued again. Both conversions round down, so
what a deposit adds to the value of a position is at most the deposit. Hence no deposit of a plan
lifts a position above the ceiling, wherever in the plan it stands. -/

namespace VaultKeeper

/-! ## Rounding -/

namespace Amount

/-- Scaling rounds down, also when it divides first. -/
theorem toNat_mulDiv_le (a b c : Amount) : (mulDiv a b c).toNat ≤ a.toNat * b.toNat / c.toNat := by
  unfold mulDiv
  by_cases hc : c.toNat = 0
  · rw [if_pos hc]
    exact Nat.zero_le _
  rw [if_neg hc]
  by_cases hfit : a.toNat * b.toNat < 2 ^ 256
  · rw [if_pos hfit, toNat_ofNat]
    exact Nat.min_le_left _ _
  · rw [if_neg hfit, toNat_ofNat]
    calc min (a.toNat / c.toNat * b.toNat) (2 ^ 256 - 1)
        ≤ a.toNat / c.toNat * b.toNat := Nat.min_le_left _ _
      _ ≤ a.toNat * b.toNat / c.toNat := by
          rw [Nat.mul_comm, Nat.mul_comm a.toNat]
          exact Nat.mul_div_le_mul_div_assoc _ _ _

/-- Scaling nothing gives nothing. -/
theorem mulDiv_zero_left (b c : Amount) : mulDiv 0 b c = 0 := by
  have hle := toNat_mulDiv_le 0 b c
  rw [toNat_zero, Nat.zero_mul, Nat.zero_div, Nat.le_zero] at hle
  exact eq_zero_iff.2 hle

/-- Scaling is exact up to rounding when the product fits. -/
theorem toNat_mulDiv_of_lt {a b c : Amount} (hfit : a.toNat * b.toNat < 2 ^ 256) :
    (mulDiv a b c).toNat = a.toNat * b.toNat / c.toNat := by
  unfold mulDiv
  by_cases hc : c.toNat = 0
  · rw [if_pos hc, hc, Nat.div_zero]
    rfl
  · rw [if_neg hc, if_pos hfit, toNat_ofNat_of_lt]
    exact Nat.lt_of_le_of_lt (Nat.div_le_self _ _) hfit

/-- **Minting and valuing lose by rounding.** Shares that are minted for an amount, at the price at
which all shares are valued, add at most the amount to the value of a holding. -/
theorem toNat_mulDiv_grown_le {held grown minted paid value supply : Amount}
    (hminted : minted = if supply = 0 ∨ value = 0 then paid else paid.mulDiv supply value)
    (hgrown : grown.toNat ≤ held.toNat + minted.toNat)
    (hfit : held.toNat * value.toNat < 2 ^ 256) :
    (grown.mulDiv value supply).toNat ≤ (held.mulDiv value supply).toNat + paid.toNat := by
  have hlater := toNat_mulDiv_le grown value supply
  rw [toNat_mulDiv_of_lt hfit]
  -- Without shares or value a position is worth nothing afterwards.
  by_cases hsupply : supply = 0
  · rw [hsupply, mulDiv_zero_right]
    exact Nat.zero_le _
  by_cases hvalue : value = 0
  · rw [hvalue, toNat_zero, Nat.mul_zero, Nat.zero_div, Nat.le_zero] at hlater
    rw [hvalue, hlater]
    exact Nat.zero_le _
  rw [if_neg (by simp [hsupply, hvalue])] at hminted
  -- Otherwise the minted shares are worth at most the amount, before any rounding of the sum.
  have hpos : 0 < supply.toNat := Nat.pos_of_ne_zero fun h => hsupply (eq_zero_iff.2 h)
  have hshares : minted.toNat * value.toNat ≤ paid.toNat * supply.toNat :=
    calc minted.toNat * value.toNat
        ≤ paid.toNat * supply.toNat / value.toNat * value.toNat :=
          Nat.mul_le_mul_right _ (hminted ▸ toNat_mulDiv_le paid supply value)
      _ ≤ paid.toNat * supply.toNat := Nat.div_mul_le_self _ _
  calc (grown.mulDiv value supply).toNat
      ≤ grown.toNat * value.toNat / supply.toNat := hlater
    _ ≤ (held.toNat * value.toNat + paid.toNat * supply.toNat) / supply.toNat := by
        refine Nat.div_le_div_right ?_
        calc grown.toNat * value.toNat
            ≤ (held.toNat + minted.toNat) * value.toNat := Nat.mul_le_mul_right _ hgrown
          _ = held.toNat * value.toNat + minted.toNat * value.toNat := Nat.add_mul _ _ _
          _ ≤ held.toNat * value.toNat + paid.toNat * supply.toNat :=
              Nat.add_le_add_left hshares _
    _ = held.toNat * value.toNat / supply.toNat + paid.toNat :=
        Nat.add_mul_div_right _ _ hpos

end Amount

/-! ## What other accounts do not notice -/

/-- Two ledgers that may differ in what one account holds or owes, but in nothing that pools are
valued by. -/
structure Ledger.SameApartFrom (account : Address) (l l' : Ledger) : Prop where
  /-- Supplies are the same. -/
  supply : l'.supply = l.supply
  /-- Prices are the same. -/
  quote : l'.quote = l.quote
  /-- Balances of other accounts are the same. -/
  balance : ∀ {other} token, other ≠ account → l'.balance token other = l.balance token other

/-- A simulated deposit only concerns its owner. -/
theorem Overlay.sameApartFrom_deposit (o : Overlay) (owner input receipt : Address)
    (paid minted : Amount) :
    Ledger.SameApartFrom owner o.ledger
      ((o.debit input owner paid).credit receipt owner minted).ledger where
  supply := rfl
  quote := rfl
  balance token hother := by
    rw [balance_credit_of_ne _ _ (.inr hother), balance_debit_of_ne _ _ (.inr hother)]

namespace Protocol

variable {p : Protocol} {owner asset pool receipt : Address} {l l' : Ledger}

/-- The value of a pool does not depend on the balances of an account that is neither the pool nor
its receipt token. -/
theorem poolValue_congr (h : Ledger.SameApartFrom owner l l') (hpool : owner ≠ pool)
    (hreceipt : p.receipt asset pool = .ok receipt) (hne : owner ≠ receipt) :
    p.poolValue asset pool l' = p.poolValue asset pool l := by
  cases p with
  | vault p => simp only [poolValue, VaultProtocol.poolValue, h.balance asset hpool.symm]
  | lending p =>
    have hsame : p.receipt asset pool = .ok receipt := hreceipt
    simp only [poolValue, LendingProtocol.poolValue, hsame, ok_bind, h.balance asset hne.symm]
  | curve p =>
    simp only [poolValue, CurveProtocol.poolValue, h.balance _ hpool.symm, h.quote]

/-- The value of receipts does not depend on them either. -/
theorem redeemed_congr (h : Ledger.SameApartFrom owner l l') (hpool : owner ≠ pool)
    (hreceipt : p.receipt asset pool = .ok receipt) (hne : owner ≠ receipt) (receipts : Amount) :
    p.redeemed asset pool receipts l' = p.redeemed asset pool receipts l := by
  have hvalue := poolValue_congr h hpool hreceipt hne
  cases p with
  | vault p =>
    have hvault : p.poolValue asset pool l' = p.poolValue asset pool l := hvalue
    simp only [redeemed, VaultProtocol.redeemed, hvault, h.supply]
  | lending p => rfl
  | curve p =>
    have hcurve : p.poolValue asset pool l' = p.poolValue asset pool l := hvalue
    simp only [redeemed, CurveProtocol.redeemed, hcurve, h.supply]

/-! ## How a position grows -/

/-- The receipts that make up the position of an owner; staked ones count too. -/
def heldReceipts (p : Protocol) (owner asset pool : Address) (l : Ledger) :
    Except AllocationError Amount :=
  match p with
  | curve p => p.stakedAndLoose owner asset pool l
  | vault _ | lending _ => p.receiptBalance owner asset pool l

/-- The value of a position is that of its receipts. -/
theorem positionValue_eq (p : Protocol) (owner asset pool : Address) (l : Ledger) :
    p.positionValue owner asset pool l =
      p.heldReceipts owner asset pool l >>= fun held => p.redeemed asset pool held l := by
  cases p <;> rfl

/-- Whether receipts can be valued does not depend on their number. -/
theorem exists_redeemed {held earlier : Amount} (h : p.redeemed asset pool held l = .ok earlier)
    (grown : Amount) : ∃ later, p.redeemed asset pool grown l = .ok later := by
  cases p with
  | vault p =>
    obtain ⟨value, hvalue, -⟩ := bind_eq_ok.1 h
    exact ⟨_, bind_eq_ok.2 ⟨value, hvalue, rfl⟩⟩
  | lending p =>
    obtain ⟨receipt, hreceipt, -⟩ := bind_eq_ok.1 h
    exact ⟨_, bind_eq_ok.2 ⟨receipt, hreceipt, rfl⟩⟩
  | curve p =>
    obtain ⟨receipt, hreceipt, h⟩ := bind_eq_ok.1 h
    obtain ⟨value, hvalue, -⟩ := bind_eq_ok.1 h
    exact ⟨_, bind_eq_ok.2 ⟨receipt, hreceipt, bind_eq_ok.2 ⟨value, hvalue, rfl⟩⟩⟩

/-- **Minted receipts are worth at most what was paid for them.** -/
theorem toNat_redeemed_grown_le {held grown minted paid value earlier later : Amount}
    (hvalue : p.poolValue asset pool l = .ok value)
    (hminted : p.minted asset pool paid l = .ok minted)
    (hearlier : p.redeemed asset pool held l = .ok earlier)
    (hlater : p.redeemed asset pool grown l = .ok later)
    (hgrown : grown.toNat ≤ held.toNat + minted.toNat)
    (hfit : held.toNat * value.toNat < 2 ^ 256) : later.toNat ≤ earlier.toNat + paid.toNat := by
  cases p with
  | vault p =>
    have hvault : p.poolValue asset pool l = .ok value := hvalue
    simp only [Protocol.minted, VaultProtocol.minted, hvault, ok_bind, pure_eq_ok,
      Except.ok.injEq] at hminted
    simp only [redeemed, VaultProtocol.redeemed, hvault, ok_bind, pure_eq_ok,
      Except.ok.injEq] at hearlier hlater
    rw [← hearlier, ← hlater]
    exact Amount.toNat_mulDiv_grown_le hminted.symm hgrown hfit
  | lending p =>
    simp only [Protocol.minted, LendingProtocol.minted, bind_eq_ok, pure_eq_ok,
      Except.ok.injEq] at hminted
    simp only [redeemed, LendingProtocol.redeemed, bind_eq_ok, pure_eq_ok,
      Except.ok.injEq] at hearlier hlater
    obtain ⟨_, -, rfl⟩ := hminted
    obtain ⟨_, -, rfl⟩ := hearlier
    obtain ⟨_, -, rfl⟩ := hlater
    exact hgrown
  | curve p =>
    have hcurve : p.poolValue asset pool l = .ok value := hvalue
    simp only [Protocol.minted, CurveProtocol.minted, hcurve, ok_bind, bind_eq_ok, pure_eq_ok,
      Except.ok.injEq] at hminted
    simp only [redeemed, CurveProtocol.redeemed, hcurve, ok_bind, bind_eq_ok, pure_eq_ok,
      Except.ok.injEq] at hearlier hlater
    obtain ⟨token, htoken, hminted⟩ := hminted
    obtain ⟨_, htoken', rfl⟩ := hearlier
    obtain ⟨_, htoken'', rfl⟩ := hlater
    rw [htoken] at htoken' htoken''
    cases htoken'
    cases htoken''
    exact Amount.toNat_mulDiv_grown_le hminted.symm hgrown hfit

end Protocol

/-- A simulated deposit adds at most the minted receipts to the balance of the receipt token. -/
theorem Overlay.toNat_receipts_le (o : Overlay) (owner input receipt : Address)
    (paid minted : Amount) :
    (((o.debit input owner paid).credit receipt owner minted).ledger.balance receipt owner).toNat ≤
      (o.ledger.balance receipt owner).toNat + minted.toNat := by
  have hdebit := toNat_balance_debit_le o input owner receipt owner paid
  rw [balance_credit_self, Amount.toNat_addSat]
  omega

/-- It adds nothing to any other balance. -/
theorem Overlay.toNat_other_le (o : Overlay) {receipt token : Address} (owner input : Address)
    (paid minted : Amount) (h : token ≠ receipt) :
    (((o.debit input owner paid).credit receipt owner minted).ledger.balance token owner).toNat ≤
      (o.ledger.balance token owner).toNat := by
  rw [balance_credit_of_ne _ _ (.inl h)]
  exact toNat_balance_debit_le o input owner token owner paid

/-- **A simulated deposit adds at most the minted receipts to the position.** -/
theorem Protocol.heldReceipts_deposit {p : Protocol} {owner asset pool receipt : Address}
    {o : Overlay} {held : Amount}
    (hapart : ∀ q c gauge, p = .curve q → q.pool pool = .ok c → c.gauge = some gauge →
      gauge ≠ c.receipt)
    (hreceipt : p.receipt asset pool = .ok receipt)
    (hheld : p.heldReceipts owner asset pool o.ledger = .ok held) (input : Address)
    (paid minted : Amount) :
    ∃ grown, p.heldReceipts owner asset pool
        ((o.debit input owner paid).credit receipt owner minted).ledger = .ok grown ∧
      grown.toNat ≤ held.toNat + minted.toNat := by
  have hloose := o.toNat_receipts_le owner input receipt paid minted
  have hplain : p.receiptBalance owner asset pool o.ledger = .ok held →
      ∃ grown, p.receiptBalance owner asset pool
          ((o.debit input owner paid).credit receipt owner minted).ledger = .ok grown ∧
        grown.toNat ≤ held.toNat + minted.toNat := by
    intro h
    rw [receiptBalance, hreceipt, ok_bind] at h ⊢
    cases h
    exact ⟨_, rfl, hloose⟩
  cases p with
  | vault p => exact hplain hheld
  | lending p => exact hplain hheld
  | curve p =>
    have hsame : p.receipt asset pool = .ok receipt := hreceipt
    obtain ⟨c, hc, hcreceipt⟩ := CurveProtocol.pool_of_receipt hsame
    cases hg : c.gauge with
    | none =>
      simp only [heldReceipts, CurveProtocol.stakedAndLoose, hsame, hc, hg, ok_bind, pure_eq_ok,
        Except.ok.injEq] at hheld ⊢
      refine ⟨_, rfl, ?_⟩
      rw [← hheld]
      exact hloose
    | some gauge =>
      -- Staked receipts are a balance of the gauge, which the deposit does not touch.
      have hne : gauge ≠ receipt := hcreceipt ▸ hapart p c gauge rfl hc hg
      have hstaked := o.toNat_other_le owner input paid minted hne
      simp only [heldReceipts, CurveProtocol.stakedAndLoose, hsame, hc, hg, ok_bind, pure_eq_ok,
        Except.ok.injEq] at hheld ⊢
      refine ⟨_, rfl, ?_⟩
      rw [← hheld, Amount.toNat_addSat, Amount.toNat_addSat]
      omega

/-! ## Deposits of a plan -/

/-- A step from one overlay to the next keeps the position at a leg below the ceiling, or below what
it was. The ceiling is that of the pool's value, which stays as it is. -/
def Leg.WithinCeiling (l : Leg) (owner : Address) (before after : Overlay) : Prop :=
  ∃ held value ceiling earlier later,
    l.base.heldReceipts owner l.input l.pool before.ledger = .ok held ∧
    l.base.poolValue l.input l.pool before.ledger = .ok value ∧
    l.base.poolValue l.input l.pool after.ledger = .ok value ∧
    l.bound.caps.limit l.pool l.input value = some ceiling ∧
    l.base.positionValue owner l.input l.pool before.ledger = .ok earlier ∧
    l.base.positionValue owner l.input l.pool after.ledger = .ok later ∧
    (held.toNat * value.toNat < 2 ^ 256 → later.toNat ≤ max ceiling.toNat earlier.toNat)

/-- **A limited deposit does not lift a position above its ceiling.** -/
theorem Leg.deposit_withinCeiling {l : Leg} {owner : Address} {requested : Amount}
    {o o' : Overlay} {groups : List Group}
    (hapart : ∀ q c gauge, l.base = .curve q → q.pool l.pool = .ok c → c.gauge = some gauge →
      gauge ≠ c.receipt)
    (hmode : l.bound.caps.mode ≠ .unlimited) (hpool : owner ≠ l.pool)
    (hne : ∀ receipt, l.base.receipt l.input l.pool = .ok receipt → owner ≠ receipt)
    (h : l.deposit owner requested o = .ok (o', groups)) : l.WithinCeiling owner o o' := by
  obtain ⟨paid, minted, receipt, -, hpaid, hminted, hreceipt, -, rfl, -⟩ := deposit_eq_ok h
  obtain ⟨value, earlier, hvalue, hearlier, hclamp⟩ := Protocol.depositAmount_of_limited hmode hpaid
  obtain ⟨ceiling, hlimit⟩ := DepositCaps.exists_limit hmode l.pool l.input value
  obtain ⟨held, hheld, hworth⟩ := bind_eq_ok.1 (Protocol.positionValue_eq .. ▸ hearlier)
  obtain ⟨grown, hgrown, hle⟩ :=
    Protocol.heldReceipts_deposit hapart hreceipt hheld l.input paid minted
  obtain ⟨later, hlater⟩ := Protocol.exists_redeemed hworth grown
  -- The owner is no part of what the pool is valued by, so the price of receipts stays the same.
  have hsame := o.sameApartFrom_deposit owner l.input receipt paid minted
  have hprice := Protocol.poolValue_congr hsame hpool hreceipt (hne receipt hreceipt)
  have hworth' := Protocol.redeemed_congr hsame hpool hreceipt (hne receipt hreceipt) grown
  refine ⟨held, value, ceiling, earlier, later, hheld, hvalue, hprice.trans hvalue, hlimit,
    hearlier, ?_, fun hfit => ?_⟩
  · rw [Protocol.positionValue_eq, hgrown, ok_bind, hworth', hlater]
  · have hgrowth := Protocol.toNat_redeemed_grown_le hvalue hminted hworth hlater hle hfit
    have hroom : paid.toNat ≤ ceiling.toNat - earlier.toNat := by
      rw [hclamp]
      exact DepositCaps.clamp_le_of_limit hlimit
    omega

/-- **Deposit caps hold along whole plans.** Every compiled plan comes from a run of the compiler
over the ledger, and each limited deposit of the run leaves the owner's position below the ceiling,
or below what it was, unless the owner is the pool or its receipt token. -/
theorem compiled_deposits_within_ceiling (r : Registry) (hr : r.GaugesApart) (owner : Address)
    (l : Ledger) (m : Move) (plan : Plan) (h : r.compile owner l m = .ok plan) :
    ∃ es o, Trace owner (.ofLedger l) es o ∧ r.schedule m = .ok (es.map (·.job)) ∧
      plan.groups = es.map (·.group) ∧
      ∀ e ∈ es, ∀ requested, e.job.task = .deposit requested →
        r.binding? e.job.leg.pool = some e.job.leg.bound ∧
        (e.job.leg.bound.caps.mode ≠ .unlimited → owner ≠ e.job.leg.pool →
          (∀ receipt, e.job.leg.base.receipt e.job.leg.input e.job.leg.pool = .ok receipt →
            owner ≠ receipt) →
          e.job.leg.WithinCeiling owner e.before e.after) := by
  obtain ⟨jobs, es, o, hjobs, htrace, rfl, hgroups⟩ := Registry.trace_of_compile h
  refine ⟨es, o, htrace, hjobs, hgroups.symm, fun e he requested htask => ?_⟩
  obtain ⟨hleg, -, -⟩ := Registry.mem_schedule hjobs (List.mem_map_of_mem he)
  refine ⟨hleg.binding, fun hmode hpool hne => ?_⟩
  have hrun := htrace.run_eq e he
  simp only [Job.run, htask] at hrun
  exact Leg.deposit_withinCeiling (fun _ _ _ => hr hleg.binding) hmode hpool hne hrun

namespace Leveraged

/-- The deposit of collateral into the lending market stays within its ceiling. -/
theorem collateral_withinCeiling :
    registry.GaugesApart ∧ ∃ plan,
      registry.compile owner snapshot.ledger (.depositAll strategy.hash) = .ok plan ∧
      ∃ es o, Trace owner (.ofLedger snapshot.ledger) es o ∧ plan.groups = es.map (·.group) ∧
        ∃ e ∈ es, e.job.leg.pool = market ∧ e.job.leg.bound.caps = caps ∧
          e.job.leg.WithinCeiling owner e.before e.after := by
  obtain ⟨plan, hplan⟩ := exists_plan
  obtain ⟨es, o, htrace, hjobs, hgroups, hdeposits⟩ := compiled_deposits_within_ceiling registry
    gaugesApart owner snapshot.ledger (.depositAll strategy.hash) plan hplan
  refine ⟨gaugesApart, plan, hplan, es, o, htrace, hgroups, ?_⟩
  rw [Registry.schedule, strategy_eq, ok_bind, route_eq, ok_bind] at hjobs
  obtain ⟨e, rest, rfl, hjob, -⟩ := List.map_eq_cons_iff.1 (Except.ok.inj hjobs).symm
  have hfirst := hdeposits e List.mem_cons_self none (by rw [hjob])
  refine ⟨e, List.mem_cons_self, by rw [hjob]; rfl, by rw [hjob], hfirst.2 ?_ ?_ ?_⟩
  · rw [hjob]
    exact CapMode.noConfusion
  · rw [hjob]
    decide
  · rw [hjob]
    intro receipt hreceipt
    cases hreceipt
    decide

end Leveraged

end VaultKeeper
