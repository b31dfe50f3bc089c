import VaultKeeper.Proofs.Backing

/-! # Net value

After a deposit a position is worth at most what went into it. A leg without a loan is worth no more
than what was paid for its receipts, and a leg with a loan no more than its collateral, since what
the loan has become is worth no more than the debt. This takes a route on which no token occurs
twice: the receipts of a market are counted at every leg that yields them, so a loop through one
market is valued above what went into it. -/

namespace VaultKeeper

open Ledger (SameApartFrom ChangesOnly)

/-! ## Quotes -/

namespace Snapshot

variable {x : Snapshot} {source target : Address} {amount part : Amount}

/-- An amount is converted at the recorded prices without an overflow. -/
def QuotesExactly (x : Snapshot) (source target : Address) (amount : Amount) : Prop :=
  ∀ {p q}, x.prices.get? source = some p → x.prices.get? target = some q →
    amount.toNat * p.toNat < 2 ^ 256

/-- At a price of one nothing overflows. -/
theorem quotesExactly_of_one (h : x.prices.get? source = some 1) :
    x.QuotesExactly source target amount := by
  intro p q hp _
  rw [h, Option.some.injEq] at hp
  rw [← hp, show (1 : Amount).toNat = 1 from rfl, Nat.mul_one]
  exact amount.lt_bound

/-- Nothing is worth nothing. -/
theorem quote_zero (x : Snapshot) (source target : Address) : x.quote source target 0 = 0 := by
  unfold quote
  split
  · rfl
  · split
    · exact Amount.mulDiv_zero_left _ _
    · rfl

/-- A part of an amount is worth no more than the amount. -/
theorem toNat_quote_le (h : x.QuotesExactly source target amount) (hle : part ≤ amount) :
    (x.quote source target part).toNat ≤ (x.quote source target amount).toNat := by
  unfold quote
  split
  · exact hle
  · split
    · rename_i p q hp hq
      rw [Amount.toNat_mulDiv_of_lt (h hp hq)]
      exact Nat.le_trans (Amount.toNat_mulDiv_le part p q)
        (Nat.div_le_div_right (Nat.mul_le_mul_right _ hle))
    · exact Nat.le_refl _

end Snapshot

/-! ## What a leg is worth -/

/-- A loan is worth no more than its collateral while what it has become is covered by the debt. -/
theorem LendingProtocol.borrowValue_le {p : LendingProtocol} {x : Snapshot}
    {owner asset pool borrowed receipt : Address} {held value : Amount} {c : Ledger}
    (hquote : c.quote = x.quote)
    (hexact : x.QuotesExactly borrowed asset (c.debt pool borrowed owner))
    (hreceipt : p.receipt asset pool = .ok receipt) (hheld : held ≤ c.debt pool borrowed owner)
    (h : p.borrowValue owner asset pool borrowed held c = .ok value) :
    value ≤ c.balance receipt owner := by
  rw [borrowValue, collateral, hreceipt] at h
  cases h
  have hle := Snapshot.toNat_quote_le hexact hheld
  rw [hquote, Amount.le_def, Amount.toNat_subSat, Amount.toNat_addSat]
  omega

/-- Without rewards nothing is pending. -/
theorem CurveProtocol.pendingRewardValue_eq_zero {p : CurveProtocol} {x : Snapshot}
    {owner asset pool : Address} {value : Amount} {c : Ledger} (hquote : c.quote = x.quote)
    (hrewards : ∀ source, c.rewards source owner = 0)
    (h : p.pendingRewardValue owner asset pool c = .ok value) : value = 0 := by
  obtain ⟨config, -, h⟩ := bind_eq_ok.1 h
  split at h
  · cases h
    rw [hquote, hrewards]
    exact Snapshot.quote_zero ..
  · cases h
    rfl

namespace Path

variable {owner token : Address} {l : Leg} {rest legs : List Leg} {x : Snapshot} {c : Ledger}
  {limit next : Nat} {value : Amount}

/-- Staked and loose receipts are what is held of the output of a staked leg. -/
theorem stakedAndLoose_le (h : Path owner token [l]) (hstakes : l.stakes = true)
    {p : CurveProtocol} (hp : l.bound.adapter.stakeable = .ok p) (hbase : l.base = .curve p)
    {held : Amount} (hheld : p.stakedAndLoose owner l.input l.pool c = .ok held) :
    held.toNat ≤ l.holding owner c := by
  obtain ⟨receipt, hreceipt, hyield⟩ := h.known l List.mem_cons_self
  rw [hbase] at hreceipt
  have hcurve : p.receipt l.input l.pool = .ok receipt := hreceipt
  obtain ⟨config, hconfig, -⟩ := CurveProtocol.pool_of_receipt hcurve
  rw [Leg.holding, ← hyield (Leg.isBorrow_of_stakes hstakes)]
  rw [CurveProtocol.stakedAndLoose, hcurve, ok_bind, hconfig, ok_bind] at hheld
  cases hg : config.gauge with
  | none =>
    rw [hg] at hheld
    cases hheld
    exact Nat.le_add_right _ _
  | some g =>
    have hgauge : p.gauge l.pool = .ok g := by
      rw [CurveProtocol.gauge, hconfig, ok_bind, hg]
      rfl
    rw [hg] at hheld
    cases hheld
    rw [Leg.stakingToken?_eq hstakes hp hgauge, Option.elim_some, Amount.toNat_addSat]
    exact Nat.min_le_left _ _

/-- **The last leg is valued like one that yields what is held of its output**, staked or not. -/
theorem innerValue_of_topValue (h : Path owner token [l])
    (hwhole : l.bound.adapter = .whole l.base) (hquote : c.quote = x.quote)
    (hrewards : ∀ source, c.rewards source owner = 0) (hvalue : l.topValue owner c = .ok value) :
    ∃ held, held.toNat ≤ l.holding owner c ∧ l.innerValue owner held c = .ok value := by
  obtain ⟨receipt, hreceipt, hyield⟩ := h.known l List.mem_cons_self
  unfold Leg.topValue at hvalue
  unfold Leg.innerValue
  cases hborrow : l.step.isBorrow with
  | true =>
    rw [if_pos hborrow] at hvalue
    exact ⟨c.balance l.output owner, Nat.le_add_right _ _, hvalue⟩
  | false =>
    rw [hborrow, if_neg Bool.false_ne_true] at hvalue
    cases hstake : l.bound.stake with
    | true =>
      have hstakes : l.stakes = true := by rw [Leg.stakes, hstake, hborrow]; rfl
      rw [if_pos hstake] at hvalue
      obtain ⟨p, hp, hvalue⟩ := bind_eq_ok.1 hvalue
      have hbase : l.base = .curve p := Adapter.base_of_stakeable hwhole hp
      obtain ⟨held, hheld, hvalue⟩ := bind_eq_ok.1 hvalue
      obtain ⟨worth, hworth, hvalue⟩ := bind_eq_ok.1 hvalue
      obtain ⟨pending, hpending, hvalue⟩ := bind_eq_ok.1 hvalue
      cases hvalue
      rw [CurveProtocol.pendingRewardValue_eq_zero hquote hrewards hpending, Amount.addSat_zero]
      refine ⟨held, h.stakedAndLoose_le hstakes hp hbase hheld, ?_⟩
      rw [if_neg Bool.false_ne_true, hbase]
      exact hworth
    | false =>
      rw [hstake, if_neg Bool.false_ne_true] at hvalue
      obtain ⟨held, hheld, hvalue⟩ := bind_eq_ok.1 hvalue
      obtain ⟨worth, hworth, hvalue⟩ := bind_eq_ok.1 hvalue
      refine ⟨held, ?_, ?_⟩
      · rw [Protocol.receiptBalance_eq_ok hreceipt hheld, hyield hborrow]
        exact Nat.le_add_right _ _
      · rw [if_neg Bool.false_ne_true, hworth]
        cases hbase : l.base with
        | vault p => rw [hbase] at hvalue; exact hvalue
        | lending p => rw [hbase] at hvalue; exact hvalue
        | curve p =>
          rw [hbase] at hvalue
          obtain ⟨pending, hpending, hvalue⟩ := bind_eq_ok.1 hvalue
          cases hvalue
          rw [CurveProtocol.pendingRewardValue_eq_zero hquote hrewards hpending,
            Amount.addSat_zero]

/-- **A leg is worth at most what stands behind it**, when its output is worth no more than what it
passed on. -/
theorem innerValue_le (h : Path owner token (l :: rest)) (hprices : SameApartFrom owner x.ledger c)
    (hwhole : l.bound.adapter = .whole l.base)
    (hexact : l.step.isBorrow = true →
      x.QuotesExactly l.output l.input (c.debt l.pool l.output owner))
    (hback : l.Backed owner x.ledger c limit next) {outcome : Amount} (hle : outcome.toNat ≤ next)
    (hvalue : l.innerValue owner outcome c = .ok value) :
    value.toNat + (c.balance token owner).toNat ≤ limit := by
  rw [← h.input_eq]
  cases hback with
  | plain hplain hminted hinput hnext =>
    rw [Leg.innerValue, hplain, if_neg Bool.false_ne_true] at hvalue
    have hpaid := h.redeemed_le hprices hminted hvalue (Nat.le_trans hle hnext)
    omega
  | loan hborrow hbase hreceipt hinput hnext =>
    rw [Leg.innerValue, if_pos hborrow] at hvalue
    obtain ⟨p, hp, hvalue⟩ := bind_eq_ok.1 hvalue
    have hlender : l.base = .lending p := Adapter.base_of_lender hwhole hp
    rw [hbase, Protocol.lending.injEq] at hlender
    subst hlender
    have hcollateral := LendingProtocol.borrowValue_le hprices.quote (hexact hborrow) hreceipt
      (Nat.le_trans hle hnext) hvalue
    rw [Amount.le_def] at hcollateral
    omega

/-- **A backed path is worth at most what has reached it**, less what is left of it. -/
theorem routeValue_le (h : Path owner token legs) (hne : legs ≠ [])
    (hprices : SameApartFrom owner x.ledger c) (hrewards : ∀ source, c.rewards source owner = 0)
    (hwhole : ∀ l ∈ legs, l.bound.adapter = .whole l.base)
    (hexact : ∀ l ∈ legs, l.step.isBorrow = true →
      x.QuotesExactly l.output l.input (c.debt l.pool l.output owner))
    (hback : RouteBacked owner x.ledger c (topHolding owner c legs) limit legs)
    (hvalue : routeValue owner c legs = .ok value) :
    value.toNat + (c.balance token owner).toNat ≤ limit := by
  induction legs generalizing token limit value with
  | nil => exact absurd rfl hne
  | cons l rest ih =>
    have hfirst := hwhole l List.mem_cons_self
    obtain ⟨next, hleg, hroute⟩ := hback
    cases rest with
    | nil =>
      obtain ⟨held, hheld, hvalue⟩ := h.innerValue_of_topValue hfirst hprices.quote hrewards hvalue
      exact h.innerValue_le hprices hfirst (hexact l List.mem_cons_self) hleg
        (Nat.le_trans hheld hroute) hvalue
    | cons following rest =>
      obtain ⟨outcome, houtcome, hvalue⟩ := bind_eq_ok.1 hvalue
      rw [topHolding_cons_cons] at hroute
      have hrest := ih h.tail (List.cons_ne_nil _ _)
        (fun x hx => hwhole x (List.mem_cons_of_mem _ hx))
        (fun x hx => hexact x (List.mem_cons_of_mem _ hx)) hroute houtcome
      exact h.innerValue_le hprices hfirst (hexact l List.mem_cons_self) hleg
        (Nat.le_trans (Nat.le_add_right _ _) hrest) hvalue

end Path

/-! ## Deposits -/

/-- **A deposit creates no value.** On a strategy whose route yields no token twice, an owner who
holds none of what it yields, has no rewards to claim and is none of its pools and receipt tokens
values the position after a deposit of everything at no more than what went into it. What is left of
the underlying asset comes on top. Only the debts have to be converted without an overflow. In a
registry that is wired, both the deposit and the valuation succeed. -/
theorem deposit_creates_no_value (r : Registry) (hash : Digest) (s : Strategy) (route : List Leg)
    (owner : Address) (x : Snapshot) (hs : r.strategy hash = .ok s)
    (hroute : r.route .enter s = .ok route)
    (hwhole : ∀ l ∈ route, l.bound.adapter = .whole l.base)
    (hdistinct : (s.underlying :: routeTokens route).Nodup)
    (hforeign : ∀ l ∈ route, l.Foreign owner)
    (hfresh : ∀ token ∈ routeTokens route, x.ledger.balance token owner = 0)
    (hrewards : ∀ source, x.ledger.rewards source owner = 0) :
    (∀ o groups value,
      r.simulate owner (.depositAll hash) (.ofLedger x.ledger) = .ok (o, groups) →
      (∀ l ∈ route, l.step.isBorrow = true →
        x.QuotesExactly l.output l.input (o.ledger.debt l.pool l.output owner)) →
      r.balanceInUnderlying owner hash o.ledger = .ok value →
      value.toNat + (o.ledger.balance s.underlying owner).toNat ≤
        (x.ledger.balance s.underlying owner).toNat) ∧
    (r.Wired → ∃ o groups value,
      r.simulate owner (.depositAll hash) (.ofLedger x.ledger) = .ok (o, groups) ∧
      r.balanceInUnderlying owner hash o.ledger = .ok value) := by
  constructor
  · intro o groups value hdeposit hexact hvalue
    rw [Registry.balanceInUnderlying, hs, ok_bind, Registry.route_exit hroute] at hvalue
    have hpath := Registry.path_of_route hroute hforeign (fun l hl _ => hwhole l hl) hdistinct
    -- The deposit backs every leg, and the position is worth no more than what backs it.
    obtain ⟨hchange, hback⟩ := Registry.routeBacked_of_depositAll hs hroute hpath hfresh hdeposit
    have hrewards' : ∀ source, o.ledger.rewards source owner = 0 := by
      rw [hchange.rewards]
      exact hrewards
    exact hpath.routeValue_le (Registry.route_ne_nil hroute) hchange.toSameApartFrom hrewards'
      hwhole hexact hback hvalue
  · intro hr
    obtain ⟨⟨o, groups⟩, ho⟩ := Registry.succeeds_simulate hr
      ⟨_, Registry.schedule_depositAll hs hroute⟩ owner (.ofLedger x.ledger)
    obtain ⟨value, hvalue⟩ := succeeds_routeValue (Registry.fit_of_route hr hroute) owner o.ledger
    refine ⟨o, groups, value, ho, ?_⟩
    rw [Registry.balanceInUnderlying, hs, ok_bind, Registry.route_exit hroute]
    exact hvalue

namespace Leveraged

/-- The route of the strategy in the registry of the configuration. -/
def deployedRoute : List Leg :=
  [⟨0, collateral, ⟨market, coin, true⟩, ⟨.whole (.lending lending), false, {}⟩⟩,
    ⟨1, coin, ⟨pool, receipt, false⟩, ⟨.whole (.curve curve), true, {}⟩⟩]

/-- The owner is none of the pools and receipt tokens. -/
theorem foreign_deployedRoute : ∀ l ∈ deployedRoute, l.Foreign owner := by
  intro l hl
  rcases List.mem_cons.1 hl with rfl | hl
  · refine ⟨by decide, fun {receipt} h => ?_⟩
    cases h
    decide
  · rw [List.mem_singleton.1 hl]
    refine ⟨by decide, fun {receipt} h => ?_⟩
    cases h
    decide

/-- The coin has the price one, so that no debt in it overflows. -/
theorem quotesExactly_deployedRoute (c : Ledger) : ∀ l ∈ deployedRoute, l.step.isBorrow = true →
    snapshot.QuotesExactly l.output l.input (c.debt l.pool l.output owner) := by
  intro l hl hborrow
  rcases List.mem_cons.1 hl with rfl | hl
  · exact Snapshot.quotesExactly_of_one rfl
  · rw [List.mem_singleton.1 hl] at hborrow
    cases hborrow

/-- The leveraged position, whose coin is borrowed, staked as receipts and owed, is worth at most
the collateral that went into it. -/
theorem position_worth_at_most_collateral :
    (deployed.register strategy).strategy strategy.hash = .ok strategy ∧
    (deployed.register strategy).route .enter strategy = .ok deployedRoute ∧
    (∀ l ∈ deployedRoute, l.bound.adapter = .whole l.base) ∧
    (strategy.underlying :: routeTokens deployedRoute).Nodup ∧
    (∀ l ∈ deployedRoute, l.Foreign owner) ∧
    (∀ token ∈ routeTokens deployedRoute, snapshot.ledger.balance token owner = 0) ∧
    (∀ source, snapshot.ledger.rewards source owner = 0) ∧
    (deployed.register strategy).Wired ∧ ∃ o groups value,
      (deployed.register strategy).simulate owner (.depositAll strategy.hash)
        (.ofLedger snapshot.ledger) = .ok (o, groups) ∧
      (∀ l ∈ deployedRoute, l.step.isBorrow = true →
        snapshot.QuotesExactly l.output l.input (o.ledger.debt l.pool l.output owner)) ∧
      (deployed.register strategy).balanceInUnderlying owner strategy.hash o.ledger = .ok value ∧
      value.toNat + (o.ledger.balance collateral owner).toNat ≤ 1000 := by
  have hr : (deployed.register strategy).Wired := governed_deployed.wired
  have hs : (deployed.register strategy).strategy strategy.hash = .ok strategy :=
    Registry.strategy_register rfl
  have hroute : (deployed.register strategy).route .enter strategy = .ok deployedRoute := rfl
  have hwhole : ∀ l ∈ deployedRoute, l.bound.adapter = .whole l.base :=
    fun l hl => (Registry.fit_of_route hr hroute l hl).regular.whole
  have hdistinct : (strategy.underlying :: routeTokens deployedRoute).Nodup := by decide
  have hfresh : ∀ token ∈ routeTokens deployedRoute, snapshot.ledger.balance token owner = 0 := by
    decide
  have hrewards : ∀ source, snapshot.ledger.rewards source owner = 0 := fun _ => rfl
  obtain ⟨hle, hruns⟩ := deposit_creates_no_value (deployed.register strategy) strategy.hash
    strategy deployedRoute owner snapshot hs hroute hwhole hdistinct foreign_deployedRoute hfresh
    hrewards
  obtain ⟨o, groups, value, ho, hvalue⟩ := hruns hr
  have hexact := quotesExactly_deployedRoute o.ledger
  exact ⟨hs, hroute, hwhole, hdistinct, foreign_deployedRoute, hfresh, hrewards, hr, o, groups,
    value, ho, hexact, hvalue, hle o groups value ho hexact hvalue⟩

end Leveraged

/-! ## A looped position

An asset is supplied to a lending market, half of it is borrowed again, and what was borrowed is
supplied to the same market. -/

namespace Looped

open Leveraged (owner market)

/-- The asset. -/
def asset : Address := .ofNat 2

/-- The receipt token of the market. -/
def receipt : Address := .ofNat 3

/-- A configuration of the market. -/
def deployment : Config where
  service := { name := "allocator" }
  snapshotPath := "chain_snapshot.json"
  governance := { admin := .ofNat 11 }
  protocols := [{ id := "lending", kind := .lending, ltvBps := 5000 }]
  pools := [
    { address := market, protocol := "lending", rating := some 10, approved := true,
      coins := [asset], receipts := [receipt], borrowable := [asset] }]
  riskProfiles := []

/-- The strategy. -/
def strategy : Strategy where
  underlying := asset
  steps := [⟨market, asset, true⟩, ⟨market, receipt, false⟩]
  hash := strategyDigest asset [⟨market, asset, true⟩, ⟨market, receipt, false⟩]
  steps_ne_nil := List.cons_ne_nil _ _
  underlying_ne_zero := by decide
  hash_eq := rfl

/-- The registry of the configuration, with the strategy. -/
def registry : Registry :=
  ((Registry.ofConfig deployment).toOption.getD default).register strategy

/-- The owner holds the asset, and so does the market. -/
def snapshot : Snapshot :=
  (({} : Snapshot).setBalance asset owner 1000 |>.setBalance asset receipt 50000).setPrice asset 1

/-- The protocol of the market. -/
def lending : LendingProtocol :=
  ⟨"lending", 5000, .ofList [(market, ⟨.ofList [(asset, receipt)], [asset]⟩)]⟩

/-- The route of the strategy. -/
def route : List Leg :=
  [⟨0, asset, ⟨market, asset, true⟩, ⟨.whole (.lending lending), false, {}⟩⟩,
    ⟨1, asset, ⟨market, receipt, false⟩, ⟨.whole (.lending lending), false, {}⟩⟩]

/-- The registry has been governed since its configuration. -/
theorem governed : Governed registry := .of_addStrategy (c := deployment) rfl rfl rfl

/-- The owner is neither the market nor its receipt token. -/
theorem foreign_route : ∀ l ∈ route, l.Foreign owner := by
  have hreceipt : ∀ {found}, (Protocol.lending lending).receipt asset market = .ok found →
      owner ≠ found := by
    intro found h
    cases h
    decide
  intro l hl
  rcases List.mem_cons.1 hl with rfl | hl
  · exact ⟨by decide, hreceipt⟩
  · rw [List.mem_singleton.1 hl]
    exact ⟨by decide, hreceipt⟩

/-- The owner holds nothing but the asset. -/
theorem balance_of_ne {token : Address} (h : token ≠ asset) :
    snapshot.ledger.balance token owner = 0 := by
  simp [snapshot, Snapshot.setBalance, Snapshot.setPrice, Snapshot.ledger, Table.get?_insert, h]

/-- **The receipts of a market are counted at every leg that yields them.** An owner who holds 1000
of an asset and nothing else enters a loop of two legs through one market. The collateral is then
1500 and the debt 500, which makes 1000, but the position is valued at 2500: the receipts are valued
at the last leg, and once more as the collateral of the loan. -/
theorem position_counted_twice :
    Governed registry ∧ registry.strategy strategy.hash = .ok strategy ∧
    registry.route .enter strategy = .ok route ∧ (∀ l ∈ route, l.Foreign owner) ∧
    (∀ token, token ≠ asset → snapshot.ledger.balance token owner = 0) ∧
    (∀ source, snapshot.ledger.rewards source owner = 0) ∧
    (∀ pool borrowed, snapshot.ledger.debt pool borrowed owner = 0) ∧
    snapshot.ledger.balance asset owner = 1000 ∧
    ∃ o groups, registry.simulate owner (.depositAll strategy.hash) (.ofLedger snapshot.ledger) =
        .ok (o, groups) ∧
      (∀ l ∈ route, l.step.isBorrow = true →
        snapshot.QuotesExactly l.output l.input (o.ledger.debt l.pool l.output owner)) ∧
      o.ledger.balance receipt owner = 1500 ∧ o.ledger.debt market asset owner = 500 ∧
      registry.balanceInUnderlying owner strategy.hash o.ledger = .ok 2500 := by
  have hs : registry.strategy strategy.hash = .ok strategy := Registry.strategy_register rfl
  have hroute : registry.route .enter strategy = .ok route := rfl
  refine ⟨governed, hs, hroute, foreign_route, fun _ => balance_of_ne, fun _ => rfl,
    fun _ _ => rfl, rfl, _, _, (Registry.simulate_depositAll_eq_ok hs).2 ⟨route, hroute, rfl⟩,
    ?_, rfl, rfl, ?_⟩
  · intro l hl hborrow
    rcases List.mem_cons.1 hl with rfl | hl
    · exact Snapshot.quotesExactly_of_one rfl
    · rw [List.mem_singleton.1 hl] at hborrow
      cases hborrow
  · rw [Registry.balanceInUnderlying, hs, ok_bind, Registry.route_exit hroute]
    rfl

end Looped

end VaultKeeper
