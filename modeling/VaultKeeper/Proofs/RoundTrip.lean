import VaultKeeper.Proofs.Backing

/-! # Round trips

Depositing a whole balance and withdrawing it again never leaves the owner with more than before.
Every leg pays out at most what was paid into it, since it redeems no more receipts than it has
minted, and what was never paid in is still there. The amounts may be anything: neither the caps of
the deposit nor an overflow in a price can break the bound. -/

namespace VaultKeeper

open Ledger (SameApartFrom ChangesOnly)

/-! ## Leaving a route from its end -/

/-- Leaving a route with a single leg, whose receipts are staked when it says so. -/
theorem leaveRoute_singleton (owner : Address) (l : Leg) :
    leaveRoute owner [l] = l.leave owner l.stakes :=
  Leg.andThen_nothing_right (l.leave owner l.stakes)

/-- The last one of several legs is not staked. -/
theorem leaveLegs_append_singleton (owner : Address) (staked : Bool) {reversed : List Leg}
    (hne : reversed ≠ []) (l : Leg) : leaveLegs owner staked (reversed ++ [l]) =
      Leg.andThen (leaveLegs owner staked reversed) (l.leave owner false) := by
  have hcons : ∀ staked x rest, leaveLegs owner staked (x :: rest) =
      Leg.andThen (x.leave owner staked) (leaveLegs owner false rest) := fun _ _ _ => rfl
  have hsingle : ∀ staked x, leaveLegs owner staked [x] = x.leave owner staked :=
    fun staked x => Leg.andThen_nothing_right (x.leave owner staked)
  induction reversed generalizing staked with
  | nil => exact absurd rfl hne
  | cons x rest ih =>
    rw [List.cons_append, hcons, hcons]
    cases rest with
    | nil =>
      have hnothing : Leg.andThen (x.leave owner staked) (leaveLegs owner false []) =
          x.leave owner staked := Leg.andThen_nothing_right (x.leave owner staked)
      rw [List.nil_append, hsingle, hnothing]
    | cons y rest => rw [ih false (List.cons_ne_nil y rest), Leg.andThen_assoc]

/-- Leaving a route is leaving the legs behind the first one, and then the first one. -/
theorem leaveRoute_cons_cons (owner : Address) (l next : Leg) (rest : List Leg) :
    leaveRoute owner (l :: next :: rest) =
      Leg.andThen (leaveRoute owner (next :: rest)) (l.leave owner false) := by
  have hstaked : stakesTop (l :: next :: rest) = stakesTop (next :: rest) := by
    rw [stakesTop, List.getLast?_cons_cons]
    rfl
  have hne : (next :: rest).reverse ≠ [] := by simp
  funext o
  rw [leaveRoute, hstaked, List.reverse_cons, leaveLegs_append_singleton owner _ hne l]
  rfl

/-- Leaving a leg without a loan is redeeming its receipts. -/
theorem Leg.leave_of_plain {l : Leg} (hplain : l.step.isBorrow = false) (owner : Address)
    (staked : Bool) : l.leave owner staked =
      if staked then l.unstakeAndWithdraw owner else l.withdraw owner := by
  funext o
  rw [leave, hplain, if_neg Bool.false_ne_true]

namespace Path

variable {owner token : Address} {l : Leg} {rest : List Leg} {prices : Ledger}
  {o o' : Overlay} {groups : List Group} {paid minted : Amount}

/-- A withdrawal pays out at most what was paid in, when no more receipts are left than were
minted. -/
theorem withdraw_le (h : Path owner token (l :: rest)) (hplain : l.step.isBorrow = false)
    (hprices : SameApartFrom owner prices o.ledger)
    (hminted : l.base.minted l.input l.pool paid prices = .ok minted)
    (hheld : (o.ledger.balance l.output owner).toNat ≤ minted.toNat)
    (hrun : l.withdraw owner o = .ok (o', groups)) :
    ChangesOnly owner (token :: l.tokens) [] o.ledger o'.ledger ∧
      (o'.ledger.balance token owner).toNat ≤
        (o.ledger.balance token owner).toNat + paid.toNat := by
  obtain ⟨receipt, hreceipt, hyield⟩ := h.known l List.mem_cons_self
  obtain ⟨receipt', receipts, redeemed, -, hreceipt', hreceipts, hredeemed, -, rfl, -⟩ :=
    Leg.withdraw_eq_ok hrun
  rw [hreceipt, Except.ok.injEq] at hreceipt'
  subst hreceipt'
  have hle := Amount.le_def.1 (Protocol.withdrawable_le hreceipt hreceipts)
  rw [hyield hplain] at hle
  have hpaid := h.redeemed_le hprices hminted hredeemed (Nat.le_trans hle hheld)
  have hmem := (h.mem_tokens hreceipt).1
  have hne := (h.input_ne hreceipt).1
  rw [h.input_eq] at hne ⊢
  refine ⟨(o.changesOnly_debit receipts (List.mem_cons_of_mem _ hmem)).trans
    (Overlay.changesOnly_credit _ redeemed List.mem_cons_self), ?_⟩
  rw [Overlay.balance_credit_self, Overlay.balance_debit_of_ne _ _ (.inl hne), Amount.toNat_addSat]
  omega

/-- Leaving a staked leg pays out at most what was paid in, when no more receipts are held than
were minted. -/
theorem unstake_le (h : Path owner token [l]) (hstakes : l.stakes = true)
    (hprices : SameApartFrom owner prices o.ledger)
    (hminted : l.base.minted l.input l.pool paid prices = .ok minted)
    (hheld : l.holding owner o.ledger ≤ minted.toNat)
    (hrun : l.unstakeAndWithdraw owner o = .ok (o', groups)) :
    ChangesOnly owner (token :: routeTokens [l]) [] o.ledger o'.ledger ∧
      (o'.ledger.balance token owner).toNat ≤
        (o.ledger.balance token owner).toNat + paid.toNat := by
  obtain ⟨receipt, hreceipt, hyield⟩ := h.known l List.mem_cons_self
  obtain ⟨receipt', stakeable, gauge, staked, loose, redeemed, -, hreceipt', hstakeable, hgauge,
    hstaked, hloose, hredeemed, -, rfl, -⟩ := Leg.unstakeAndWithdraw_eq_ok hrun
  rw [hreceipt, Except.ok.injEq] at hreceipt'
  subst hreceipt'
  have htoken := Leg.stakingToken?_eq hstakes hstakeable hgauge
  have hsum : (staked.addSat loose).toNat ≤ l.holding owner o.ledger := by
    rw [Leg.holding, htoken, Option.elim_some, CurveProtocol.staked_eq_ok hgauge hstaked,
      Protocol.receiptBalance_eq_ok hreceipt hloose, hyield (Leg.isBorrow_of_stakes hstakes),
      Amount.toNat_addSat]
    omega
  have hpaid := h.redeemed_le hprices hminted hredeemed (Nat.le_trans hsum hheld)
  have htokens : routeTokens [l] = l.tokens ++ [gauge] := by
    rw [routeTokens_singleton, htoken]
    rfl
  have hsub : (l.tokens ++ [gauge]).Sublist (routeTokens [l]) := by
    simp only [htokens, List.Sublist.refl]
  have hmem := (h.mem_tokens hreceipt).1
  have hne := (h.input_ne hreceipt).1
  have hne' : l.input ≠ gauge := fun heq => (h.split hsub).2.1 (heq ▸ List.mem_cons_self)
  rw [h.input_eq] at hne hne' ⊢
  rw [htokens]
  refine ⟨((o.changesOnly_debit staked ?_).trans (Overlay.changesOnly_debit _ loose ?_)).trans
    (Overlay.changesOnly_credit _ redeemed List.mem_cons_self), ?_⟩
  · exact List.mem_cons_of_mem _ (List.mem_append_right _ List.mem_cons_self)
  · exact List.mem_cons_of_mem _ (List.mem_append_left _ hmem)
  · rw [Overlay.balance_credit_self, Overlay.balance_debit_of_ne _ _ (.inl hne),
      Overlay.balance_debit_of_ne _ _ (.inl hne'), Amount.toNat_addSat]
    omega

/-- **Leaving a backed path pays out at most what has reached it.** -/
theorem leave_le {legs : List Leg} {limit : Nat} (h : Path owner token legs) (hne : legs ≠ [])
    (hplain : ∀ l ∈ legs, l.step.isBorrow = false) (hprices : SameApartFrom owner prices o.ledger)
    (hback : RouteBacked owner prices o.ledger (topHolding owner o.ledger legs) limit legs)
    (hrun : leaveRoute owner legs o = .ok (o', groups)) :
    ChangesOnly owner (token :: routeTokens legs) [] o.ledger o'.ledger ∧
      (o'.ledger.balance token owner).toNat ≤ limit := by
  -- Legs are left from the end, but the induction is from the front: what lies behind the first leg
  -- pays out, by induction, what the first leg then redeems.
  induction legs generalizing token limit o' groups with
  | nil => exact absurd rfl hne
  | cons l rest ih =>
    have hfirst := hplain l List.mem_cons_self
    obtain ⟨next, hleg, hroute⟩ := hback
    cases hleg with
    | loan hborrow => rw [hfirst] at hborrow; cases hborrow
    | @plain paid minted _ hminted hinput hnext =>
      rw [h.input_eq] at hinput
      cases rest with
      | nil =>
        have hheld : l.holding owner o.ledger ≤ minted.toNat := Nat.le_trans hroute hnext
        rw [leaveRoute_singleton, Leg.leave_of_plain hfirst] at hrun
        cases hstakes : l.stakes with
        | true =>
          rw [hstakes, if_pos rfl] at hrun
          obtain ⟨hchange, hle⟩ := h.unstake_le hstakes hprices hminted hheld hrun
          exact ⟨hchange, Nat.le_trans hle hinput⟩
        | false =>
          rw [hstakes, if_neg Bool.false_ne_true] at hrun
          obtain ⟨hchange, hle⟩ := h.withdraw_le hfirst hprices hminted
            (Nat.le_trans (Nat.le_add_right _ _) hheld) hrun
          exact ⟨hchange.mono (h.subset_tokens (sublist_routeTokens l [])).1 (List.Subset.refl _),
            Nat.le_trans hle hinput⟩
      | cons following rest =>
        rw [topHolding_cons_cons] at hroute
        rw [leaveRoute_cons_cons, Leg.leave_of_plain hfirst, if_neg Bool.false_ne_true] at hrun
        obtain ⟨mid, _, _, hlater, hrun, -⟩ := Leg.andThen_eq_ok_iff.1 hrun
        obtain ⟨hchange', hle'⟩ := ih h.tail (List.cons_ne_nil _ _)
          (fun x hx => hplain x (List.mem_cons_of_mem _ hx)) hroute hlater
        obtain ⟨hchange, hle⟩ := h.withdraw_le hfirst (hprices.trans hchange'.toSameApartFrom)
          hminted (Nat.le_trans hle' hnext) hrun
        obtain ⟨hsub, hsub'⟩ := h.subset_tokens (sublist_routeTokens l (following :: rest))
        refine ⟨(hchange'.mono hsub' (List.Subset.refl _)).trans
          (hchange.mono hsub (List.Subset.refl _)), ?_⟩
        -- The legs behind do not touch what is left of the input.
        have hkept : mid.ledger.balance token owner = o.ledger.balance token owner :=
          hchange'.held (h.input_eq ▸ h.input_notMem (sublist_routeTokens l (following :: rest)))
        rw [hkept] at hle
        exact Nat.le_trans hle hinput

end Path

/-! ## There and back -/

/-- Legs that yield their receipts make a route of their outputs. -/
theorem routeTokens_of_plain {route : List Leg} (h : ∀ l ∈ route, l.step.isBorrow = false ∧
    l.base.receipt l.input l.pool = .ok l.output) :
    routeTokens route = route.map (·.output) ++ (topStake? route).toList := by
  have htokens : route.flatMap Leg.tokens = route.map (·.output) := by
    induction route with
    | nil => rfl
    | cons l rest ih =>
      obtain ⟨hplain, hreceipt⟩ := h l List.mem_cons_self
      have hl : l.tokens = [l.output] := by
        simp [Leg.tokens, hplain, hreceipt, Except.toOption]
      rw [List.flatMap_cons, List.map_cons, hl, ih fun x hx => h x (List.mem_cons_of_mem _ hx)]
      rfl
  rw [routeTokens, htokens]

/-- The route of a strategy without loans has no loans either, and yields the outputs of the
strategy. -/
theorem Registry.plain_of_route {r : Registry} {d : Direction} {s : Strategy} {route : List Leg}
    (h : r.route d s = .ok route) (hplain : s.hasBorrow = false) :
    (∀ l ∈ route, l.step ∈ s.steps ∧ l.step.isBorrow = false) ∧
      route.map (·.output) = s.steps.map (·.output) ∧
      routeTokens route = s.steps.map (·.output) ++ (topStake? route).toList := by
  have hsteps := Registry.steps_of_route h
  have hlegs : ∀ l ∈ route, l.step ∈ s.steps ∧ l.step.isBorrow = false := by
    intro l hl
    have hmem : l.step ∈ s.steps := hsteps ▸ List.mem_map_of_mem hl
    exact ⟨hmem, Bool.eq_false_iff.2 (List.any_eq_false.1 hplain l.step hmem)⟩
  have houtputs : route.map (·.output) = s.steps.map (·.output) := by
    rw [← hsteps, List.map_map]
    rfl
  refine ⟨hlegs, houtputs, ?_⟩
  rw [← houtputs, routeTokens_of_plain fun l hl => ⟨(hlegs l hl).2, ?_⟩]
  exact (Registry.resolved_of_route h l hl).yields (hlegs l hl).2

/-- **The route of a strategy without loans is a path** when no token occurs twice and the owner is
none of the pools and outputs. -/
theorem Registry.path_of_plain {r : Registry} {d : Direction} {s : Strategy} {route : List Leg}
    {owner : Address} (h : r.route d s = .ok route) (hplain : s.hasBorrow = false)
    (hdistinct : (s.underlying :: (s.steps.map (·.output) ++ (topStake? route).toList)).Nodup)
    (hforeign : ∀ step ∈ s.steps, owner ≠ step.pool ∧ owner ≠ step.output) :
    Path owner s.underlying route := by
  obtain ⟨hlegs, -, htokens⟩ := Registry.plain_of_route h hplain
  refine Registry.path_of_route h (fun l hl => ⟨(hforeign _ (hlegs l hl).1).1, ?_⟩)
    (fun l hl hborrow => ?_) (htokens ▸ hdistinct)
  · intro receipt hreceipt
    rw [(Registry.resolved_of_route h l hl).yields (hlegs l hl).2, Except.ok.injEq] at hreceipt
    exact hreceipt ▸ (hforeign _ (hlegs l hl).1).2
  · rw [(hlegs l hl).2] at hborrow
    cases hborrow

/-- **Rounding never creates assets.** On a strategy without loans whose underlying asset, outputs
and staking token are pairwise distinct, an owner who holds none of what the strategy yields, and
is none of its pools and receipt tokens, has at most the initial balance after a deposit of
everything and a withdrawal of everything. Both succeed in a registry that is wired. -/
theorem round_trip_never_gains (r : Registry) (hash : Digest) (s : Strategy) (route : List Leg)
    (owner : Address) (l : Ledger) (hs : r.strategy hash = .ok s)
    (hroute : r.route .enter s = .ok route) (hplain : s.hasBorrow = false)
    (hdistinct : (s.underlying :: (s.steps.map (·.output) ++ (topStake? route).toList)).Nodup)
    (hforeign : ∀ step ∈ s.steps, owner ≠ step.pool ∧ owner ≠ step.output)
    (hfresh : ∀ token ∈ s.steps.map (·.output) ++ (topStake? route).toList,
      l.balance token owner = 0) :
    (∀ mid after groups groups',
      r.simulate owner (.depositAll hash) (.ofLedger l) = .ok (mid, groups) →
      r.simulate owner (.withdrawAll hash) mid = .ok (after, groups') →
      after.ledger.balance s.underlying owner ≤ l.balance s.underlying owner) ∧
    (r.Wired → ∃ mid after groups groups',
      r.simulate owner (.depositAll hash) (.ofLedger l) = .ok (mid, groups) ∧
      r.simulate owner (.withdrawAll hash) mid = .ok (after, groups')) := by
  have hsteps := Registry.steps_of_route hroute
  have hresolved := Registry.resolved_of_route hroute
  have hmem : ∀ x ∈ route, x.step ∈ s.steps := fun x hx => hsteps ▸ List.mem_map_of_mem hx
  have hloose : ∀ x ∈ route, x.step.isBorrow = false := fun x hx =>
    Bool.eq_false_iff.2 (List.any_eq_false.1 hplain x.step (hmem x hx))
  have hyields := fun x hx => (hresolved x hx).yields (hloose x hx)
  have htokens : routeTokens route = s.steps.map (·.output) ++ (topStake? route).toList := by
    rw [routeTokens_of_plain fun x hx => ⟨hloose x hx, hyields x hx⟩, ← hsteps, List.map_map]
    rfl
  rw [← htokens] at hdistinct hfresh
  constructor
  · intro mid after groups groups' hdeposit hwithdraw
    obtain ⟨_, hexit, hwithdraw⟩ := (Registry.simulate_withdrawAll_eq_ok hs).1 hwithdraw
    rw [Registry.route_exit hroute] at hexit
    cases hexit
    have hpath : Path owner s.underlying route := by
      refine Registry.path_of_route hroute (fun x hx => ⟨(hforeign _ (hmem x hx)).1, ?_⟩)
        (fun x hx hborrow => ?_) hdistinct
      · intro receipt hreceipt
        rw [hyields x hx, Except.ok.injEq] at hreceipt
        exact hreceipt ▸ (hforeign _ (hmem x hx)).2
      · rw [hloose x hx] at hborrow
        cases hborrow
    -- The deposit backs every leg, and the withdrawal takes no more than what backs it.
    obtain ⟨hchange, hback⟩ := Registry.routeBacked_of_depositAll hs hroute hpath hfresh hdeposit
    exact (hpath.leave_le (Registry.route_ne_nil hroute) hloose hchange.toSameApartFrom hback
      hwithdraw).2
  · intro hr
    have hdeposits := Registry.schedule_depositAll hs hroute
    have hwithdraws := Registry.schedule_withdrawAll hs (Registry.route_exit hroute)
    obtain ⟨⟨mid, groups⟩, hmid⟩ :=
      Registry.succeeds_simulate hr ⟨_, hdeposits⟩ owner (.ofLedger l)
    obtain ⟨⟨after, groups'⟩, hafter⟩ := Registry.succeeds_simulate hr ⟨_, hwithdraws⟩ owner mid
    exact ⟨mid, after, groups, groups', hmid, hafter⟩

/-! ## A supplied position

An asset is supplied to a lending market, and the receipts go, as far as a cap admits them, into a
curve pool whose own receipts are staked. -/

namespace Supplied

open Leveraged (owner coin market pool)

/-- The asset. -/
def asset : Address := .ofNat 2

/-- The receipt token of the lending market, which is a coin of the curve pool. -/
def supplied : Address := .ofNat 8

/-- The receipt token of the curve pool. -/
def receipt : Address := .ofNat 6

/-- The gauge of the curve pool. -/
def gauge : Address := .ofNat 7

/-- A configuration that limits what may be held in the curve pool. -/
def deployment : Config where
  service := { name := "allocator" }
  snapshotPath := "chain_snapshot.json"
  governance := { admin := .ofNat 11 }
  protocols := [
    { id := "lending", kind := .lending },
    { id := "curve", kind := .curve, router := some (.ofNat 9),
      depositCap := { mode := .amount, amounts := [⟨pool, supplied, "4000"⟩] } }]
  pools := [
    { address := market, protocol := "lending", rating := some 10, approved := true,
      coins := [asset], receipts := [supplied] },
    { address := pool, protocol := "curve", rating := some 10, approved := true, stake := true,
      coins := [supplied, coin], receipt := some receipt, gauge := some gauge }]
  riskProfiles := []

/-- The strategy. -/
def strategy : Strategy where
  underlying := asset
  steps := [⟨market, supplied, false⟩, ⟨pool, receipt, false⟩]
  hash := strategyDigest asset [⟨market, supplied, false⟩, ⟨pool, receipt, false⟩]
  steps_ne_nil := List.cons_ne_nil _ _
  underlying_ne_zero := by decide
  hash_eq := rfl

/-- The registry of the configuration, with the strategy. -/
def registry : Registry :=
  ((Registry.ofConfig deployment).toOption.getD default).register strategy

/-- The owner holds more than the curve pool may take, which holds both of its coins. -/
def snapshot : Snapshot :=
  { balances := .ofList [((asset, owner), 10001), ((supplied, pool), 5000), ((coin, pool), 7000)]
    supplies := .ofList [(receipt, 8000)]
    prices := .ofList [(supplied, 2), (coin, 1)] }

/-- The registry has been governed since its configuration. -/
theorem governed : Governed registry := .of_addStrategy (c := deployment) rfl rfl rfl

/-- The route of the strategy. -/
def route : List Leg := (registry.route .enter strategy).toOption.getD []

/-- The supplied position can be entered, with a stake in the end, and left, and the owner ends up
with at most the initial balance. -/
theorem supplied_never_gains :
    registry.strategy strategy.hash = .ok strategy ∧
    registry.route .enter strategy = .ok route ∧ strategy.hasBorrow = false ∧
    (strategy.underlying ::
      (strategy.steps.map (·.output) ++ (topStake? route).toList)).Nodup ∧
    (∀ step ∈ strategy.steps, owner ≠ step.pool ∧ owner ≠ step.output) ∧
    (∀ token ∈ strategy.steps.map (·.output) ++ (topStake? route).toList,
      snapshot.ledger.balance token owner = 0) ∧
    registry.Wired ∧ topStake? route = some gauge ∧ ∃ mid after groups groups',
      registry.simulate owner (.depositAll strategy.hash) (.ofLedger snapshot.ledger) =
        .ok (mid, groups) ∧
      registry.simulate owner (.withdrawAll strategy.hash) mid = .ok (after, groups') ∧
      after.ledger.balance asset owner ≤ snapshot.ledger.balance asset owner := by
  have hstrategy : registry.strategy strategy.hash = .ok strategy :=
    Registry.strategy_register rfl
  have hroute : registry.route .enter strategy = .ok route := rfl
  have hdistinct : (strategy.underlying ::
      (strategy.steps.map (·.output) ++ (topStake? route).toList)).Nodup := by decide
  have hforeign : ∀ step ∈ strategy.steps, owner ≠ step.pool ∧ owner ≠ step.output := by decide
  have hfresh : ∀ token ∈ strategy.steps.map (·.output) ++ (topStake? route).toList,
      snapshot.ledger.balance token owner = 0 := by decide
  obtain ⟨hle, hruns⟩ := round_trip_never_gains registry strategy.hash strategy route owner
    snapshot.ledger hstrategy hroute rfl hdistinct hforeign hfresh
  obtain ⟨mid, after, groups, groups', hmid, hafter⟩ := hruns governed.wired
  exact ⟨hstrategy, hroute, rfl, hdistinct, hforeign, hfresh, governed.wired, rfl, mid, after,
    groups, groups', hmid, hafter, hle mid after groups groups' hmid hafter⟩

end Supplied

end VaultKeeper
