import VaultKeeper.Proofs.Moves
import VaultKeeper.Valuation

/-! # What a harvest sells

Rewards are those of the last step of a strategy. Whether its pool pays any is all that the number
of groups depends on. If it does, a claim is made when there is something to claim, and a harvest
sells what the owner will hold once the claim is through: the balance and the pending rewards
together, or less of it on request. -/

namespace VaultKeeper

/-- The step of a strategy that pays rewards, and what becomes of them. -/
structure RewardStep where
  /-- The index of the step. -/
  index : Nat
  /-- The pool of the step. -/
  pool : Address
  /-- The gauge that pays. -/
  gauge : Address
  /-- The token that is paid. -/
  token : Address
  /-- The asset that the token is sold for. -/
  target : Address
  /-- The router that sells it. -/
  router : SwapRouter

namespace RewardStep

variable (x : RewardStep) (owner : Address) (l : Ledger)

/-- What the gauge still owes to the owner. -/
def pending : Amount := l.rewards x.gauge owner

/-- What the owner holds of the token after a claim. -/
def available : Amount := (l.balance x.token owner).addSat (x.pending owner l)

/-- The claim, when there is something to claim. -/
def claims : List Instruction :=
  if x.pending owner l = 0 then [] else [Call.claimRewards.sentTo x.gauge]

/-- The sale of an amount of the token for at least its quote less the tolerance of the router. No
amount and no token that is wanted itself are sold. -/
def sale (sold : Amount) : List Instruction :=
  if sold = 0 ∨ x.token = x.target then []
  else
    let least := (l.quote x.token x.target sold).lessBps x.router.slippageBps
    [(Call.approve x.router.address sold).sentTo x.token,
      (Call.swapExact sold least [x.token, x.target] owner .largest).sentTo x.router.address]

/-- What a request sells; a claim sells nothing. -/
def sold : RewardRequest → Amount
  | .claim => 0
  | .harvestAll => x.available owner l
  | .harvestSome amount => min amount (x.available owner l)

/-- The group of a request: the claim first, then the sale. -/
def group (q : RewardRequest) : Group :=
  ⟨x.index, x.pool, q.groupKind, x.claims owner l ++ x.sale owner l (x.sold owner l q)⟩

/-- Nothing is sold for nothing. -/
@[simp] theorem sale_zero : x.sale owner l 0 = [] := if_pos (.inl rfl)

variable {x owner l}

/-- A request for as much as there is, or for more, sells everything. -/
theorem sold_of_available_le {amount : Amount} (h : x.available owner l ≤ amount) :
    x.sold owner l (.harvestSome amount) = x.sold owner l .harvestAll := by
  have hle : (x.available owner l).toNat ≤ amount.toNat := h
  refine Amount.ext ?_
  show (min amount (x.available owner l)).toNat = (x.available owner l).toNat
  rw [Amount.toNat_min]
  omega

end RewardStep

/-! ## Pools that pay rewards -/

/-- The pool of a leg pays rewards: the protocol that was attached for rewards has it configured
with a gauge and a reward token. -/
inductive Leg.Pays (top : Leg) (target : Address) : RewardStep → Prop
  /-- The gauge and the token are those of the pool, and the router that of the protocol. -/
  | intro {p : CurveProtocol} {c : CurvePool} {gauge token : Address}
      (attached : top.bound.adapter.rewards = some p) (configured : p.pool top.pool = .ok c)
      (staked : c.gauge = some gauge) (paid : c.rewardToken = some token) :
      Pays top target ⟨top.index, top.pool, gauge, token, target, p.router⟩

/-- An amount that is swapped for another asset is approved first; nothing else is swapped. -/
theorem SwapRouter.swap_eq (r : SwapRouter) (source target recipient : Address) (amount : Amount)
    (l : Ledger) : r.swap source target amount recipient l =
      if amount = 0 ∨ source = target then []
      else [(Call.approve r.address amount).sentTo source,
        (Call.swapExact amount ((l.quote source target amount).lessBps r.slippageBps)
          [source, target] recipient .largest).sentTo r.address] := by
  unfold swap
  by_cases h : amount = 0 ∨ source = target
  · rw [if_pos h, if_pos h]
  · rw [if_neg h, if_neg h]
    exact if_neg fun hzero => h (.inl hzero)

namespace CurveProtocol

variable {p : CurveProtocol} {pool gauge token : Address} {c : CurvePool}

/-- A pool with a gauge pays its reward token. -/
theorem rewardToken_eq (hc : p.pool pool = .ok c) (hg : c.gauge = some gauge) :
    p.rewardToken pool = .ok c.rewardToken := by
  rw [rewardToken, hc, ok_bind, hg]
  rfl

/-- What can be claimed is what the gauge owes. -/
theorem unclaimed_eq (hc : p.pool pool = .ok c) (hg : c.gauge = some gauge) (owner : Address)
    (l : Ledger) : p.unclaimed owner pool l = .ok (l.rewards gauge owner) := by
  rw [unclaimed, hc, ok_bind, hg]
  rfl

/-- A claim is made at the gauge, when it owes anything. -/
theorem claim_eq (hc : p.pool pool = .ok c) (hg : c.gauge = some gauge)
    (ht : c.rewardToken = some token) (owner : Address) (l : Ledger) :
    p.claim owner pool l =
      .ok (if l.rewards gauge owner = 0 then [] else [Call.claimRewards.sentTo gauge]) := by
  have hgauge : p.gauge pool = .ok gauge := by
    rw [CurveProtocol.gauge, hc, ok_bind, hg]
    rfl
  rw [claim, rewardToken_eq hc hg, ht, ok_bind, unclaimed_eq hc hg, ok_bind]
  by_cases hnone : l.rewards gauge owner = 0
  · rw [if_pos (.inr hnone), if_pos hnone]
    rfl
  · rw [if_neg (by simpa using hnone), if_neg hnone, hgauge]
    rfl

/-- A sale is made after the claim, of what there is by then. -/
theorem harvestSome_eq (hc : p.pool pool = .ok c) (hg : c.gauge = some gauge)
    (ht : c.rewardToken = some token) (owner target : Address) (amount : Amount) (l : Ledger) :
    p.harvestSome owner pool target amount l =
      .ok ((if l.rewards gauge owner = 0 then [] else [Call.claimRewards.sentTo gauge]) ++
        p.router.swap token target
          (min amount ((l.balance token owner).addSat (l.rewards gauge owner))) owner l) := by
  rw [harvestSome, rewardToken_eq hc hg, ht, ok_bind]
  show (p.unclaimed owner pool l >>= _) = _
  rw [unclaimed_eq hc hg, ok_bind, claim_eq hc hg ht]
  rfl

/-- A harvest of everything asks for what there is after the claim. -/
theorem harvestAll_eq (hc : p.pool pool = .ok c) (hg : c.gauge = some gauge)
    (ht : c.rewardToken = some token) (owner target : Address) (l : Ledger) :
    p.harvestAll owner pool target l = p.harvestSome owner pool target
      ((l.balance token owner).addSat (l.rewards gauge owner)) l := by
  rw [harvestAll, rewardToken_eq hc hg, ht, ok_bind]
  show (p.unclaimed owner pool l >>= _) = _
  rw [unclaimed_eq hc hg, ok_bind]

end CurveProtocol

namespace Leg.Pays

variable {top : Leg} {target : Address} {x : RewardStep}

/-- The protocol of a pool that pays, and what it makes of a request. -/
theorem exists_source (h : top.Pays target x) :
    ∃ p, top.rewardSource? = .ok (some p) ∧ ∀ (q : RewardRequest) owner l,
      q.calls p owner top.pool target l =
        .ok (x.claims owner l ++ x.sale owner l (x.sold owner l q)) := by
  cases h with
  | @intro p c gauge token hattached hc hg ht =>
  refine ⟨p, ?_, fun q owner l => ?_⟩
  · rw [rewardSource?, hattached]
    show (p.rewardToken top.pool >>= _) = _
    rw [CurveProtocol.rewardToken_eq hc hg, ht]
    rfl
  · cases q with
    | claim =>
      rw [RewardStep.sold, RewardStep.sale_zero, List.append_nil]
      exact CurveProtocol.claim_eq hc hg ht owner l
    | harvestSome amount =>
      show p.harvestSome owner top.pool target amount l = _
      rw [CurveProtocol.harvestSome_eq hc hg ht, SwapRouter.swap_eq]
      rfl
    | harvestAll =>
      -- A harvest of everything asks for as much as there is.
      have hmin : ∀ a : Amount, min a a = a := fun a => if_pos (Nat.le_refl a.toNat)
      show p.harvestAll owner top.pool target l = _
      rw [CurveProtocol.harvestAll_eq hc hg ht, CurveProtocol.harvestSome_eq hc hg ht, hmin,
        SwapRouter.swap_eq]
      rfl

/-- A leg pays rewards in one way only. -/
theorem unique {y : RewardStep} (hx : top.Pays target x) (hy : top.Pays target y) : x = y := by
  cases hx with
  | @intro p c gauge token hattached hc hg ht =>
  cases hy with
  | @intro p' c' gauge' token' hattached' hc' hg' ht' =>
  cases hattached.symm.trans hattached'
  cases hc.symm.trans hc'
  cases hg.symm.trans hg'
  cases ht.symm.trans ht'
  rfl

end Leg.Pays

/-- A leg pays rewards, makes no group, or is refused, whatever is requested. -/
theorem Leg.pays_cases (top : Leg) (target : Address) :
    (∃ x, top.Pays target x) ∨ top.rewardSource? = .ok none ∨ ∃ e, top.rewardSource? = .error e := by
  unfold rewardSource?
  cases hattached : top.bound.adapter.rewards with
  | none => exact .inr (.inl rfl)
  | some p =>
    cases hc : p.pool top.pool with
    | error e =>
      refine .inr (.inr ⟨e, ?_⟩)
      show (p.rewardToken top.pool >>= _) = _
      rw [CurveProtocol.rewardToken, hc]
      rfl
    | ok c =>
      have htoken : p.rewardToken top.pool =
          .ok (if c.gauge.isSome then c.rewardToken else none) := by
        rw [CurveProtocol.rewardToken, hc]
        rfl
      show _ ∨ (p.rewardToken top.pool >>= _) = _ ∨ _
      rw [htoken]
      cases hg : c.gauge with
      | none => exact .inr (.inl rfl)
      | some gauge =>
        cases ht : c.rewardToken with
        | none => exact .inr (.inl rfl)
        | some token => exact .inl ⟨_, .intro hattached hc hg ht⟩

namespace Registry

variable {r : Registry} {hash : Digest} {x : RewardStep}

/-- The last step of a strategy pays rewards. -/
inductive Pays (r : Registry) (hash : Digest) (x : RewardStep) : Prop
  /-- The strategy resolves, and its last leg pays for the underlying asset. -/
  | intro {s : Strategy} {route : List Leg} {top : Leg} (stored : r.strategy hash = .ok s)
      (resolved : r.route .exit s = .ok route) (last : route.getLast? = some top)
      (pays : top.Pays s.underlying x)

/-- A strategy pays rewards in one way only. -/
theorem Pays.unique {y : RewardStep} (hx : r.Pays hash x) (hy : r.Pays hash y) : x = y := by
  obtain ⟨hs, hroute, hlast, hpays⟩ := hx
  obtain ⟨hs', hroute', hlast', hpays'⟩ := hy
  cases hs.symm.trans hs'
  cases hroute.symm.trans hroute'
  cases hlast.symm.trans hlast'
  exact hpays.unique hpays'

/-- A strategy whose last step pays is counted with one group. -/
theorem Pays.claimStepCount (h : r.Pays hash x) : r.claimStepCount hash = .ok 1 := by
  obtain ⟨hs, hroute, hlast, hpays⟩ := h
  obtain ⟨p, hsource, -⟩ := hpays.exists_source
  rw [Registry.claimStepCount, hs, ok_bind, hroute, ok_bind, hlast]
  show (Leg.rewardSource? _ >>= _) = _
  rw [hsource]
  rfl

/-- **A strategy whose last step pays has one group for every request**: the claim and the sale. -/
theorem Pays.compileRewards (h : r.Pays hash x) (owner : Address) (q : RewardRequest) (l : Ledger) :
    r.compileRewards owner hash q l = .ok ⟨hash, q.operation, [x.group owner l q]⟩ := by
  cases h with
  | @intro s route top hs hroute hlast hpays =>
  obtain ⟨p, hsource, hcalls⟩ := hpays.exists_source
  have hgroups : rewardGroups owner s.underlying q route l = .ok [x.group owner l q] := by
    rw [rewardGroups, hlast]
    show (Leg.rewardSource? _ >>= _) = _
    rw [hsource, ok_bind]
    show (q.calls p owner _ _ l >>= _) = _
    rw [hcalls, ok_bind]
    -- The group is headed by the leg that pays.
    cases hpays
    rfl
  rw [Registry.compileRewards, hs, ok_bind, hroute, ok_bind, hgroups, ok_bind, pure_eq_ok]

/-- **What is requested does not decide whether there is a group.** The last step of a strategy
pays, or no request makes a group, or every request is refused alike, and the count says which. -/
theorem rewards_cases (r : Registry) (hash : Digest) :
    (∃ x, r.Pays hash x) ∨
    (r.claimStepCount hash = .ok 0 ∧
      ∀ owner q l, r.compileRewards owner hash q l = .ok ⟨hash, q.operation, []⟩) ∨
    ∃ e, r.claimStepCount hash = .error e ∧
      ∀ owner q l, r.compileRewards owner hash q l = .error e := by
  unfold claimStepCount compileRewards
  cases hs : r.strategy hash with
  | error e => exact .inr (.inr ⟨e, rfl, fun _ _ _ => rfl⟩)
  | ok s =>
    simp only [ok_bind]
    cases hroute : r.route .exit s with
    | error e => exact .inr (.inr ⟨e, rfl, fun _ _ _ => rfl⟩)
    | ok route =>
      simp only [ok_bind, rewardGroups]
      cases hlast : route.getLast? with
      | none => exact .inr (.inl ⟨rfl, fun _ _ _ => rfl⟩)
      | some top =>
        rcases top.pays_cases s.underlying with ⟨x, hpays⟩ | hnone | ⟨e, herror⟩
        · exact .inl ⟨x, .intro hs hroute hlast hpays⟩
        · simp only [hnone]
          exact .inr (.inl ⟨rfl, fun _ _ _ => rfl⟩)
        · simp only [herror]
          exact .inr (.inr ⟨e, rfl, fun _ _ _ => rfl⟩)

end Registry

/-- **A harvest sells exactly what is owned once the claim is through.** Whether a strategy has a
group for its rewards, or is refused, is what the step count says, for every owner, amount and
ledger. The group claims when there are pending rewards, then approves and swaps what was requested
or what the owner has, whichever is less, for at least its quote less the tolerance, unless that is
nothing or the reward is the underlying asset. A harvest of everything is one of at least as much as
there is, and a claim is the first part of a harvest. -/
theorem harvest_sells_what_is_owned (r : Registry) (hash : Digest) (owner : Address) (l : Ledger) :
    (∀ amount, (r.harvestSome owner hash amount l).map Plan.stepCount = r.claimStepCount hash) ∧
    (r.claimStepCount hash = .ok 1 ↔ ∃ x, r.Pays hash x) ∧
    (∀ x, r.Pays hash x → ∀ amount,
      r.harvestSome owner hash amount l = .ok ⟨hash, .harvestSome,
        [⟨x.index, x.pool, .harvest,
          x.claims owner l ++ x.sale owner l (min amount (x.available owner l))⟩]⟩ ∧
      r.claimAll owner hash l =
        .ok ⟨hash, .claimAll, [⟨x.index, x.pool, .claim, x.claims owner l⟩]⟩) ∧
    (∀ amount, (∀ x, r.Pays hash x → x.available owner l ≤ amount) →
      (r.harvestAll owner hash l).map Plan.groups =
        (r.harvestSome owner hash amount l).map Plan.groups) := by
  have hsome : ∀ x, r.Pays hash x → ∀ amount, r.harvestSome owner hash amount l =
      .ok ⟨hash, .harvestSome, [x.group owner l (.harvestSome amount)]⟩ :=
    fun x hx amount => hx.compileRewards owner (.harvestSome amount) l
  have hclaim : ∀ x, r.Pays hash x → r.claimAll owner hash l =
      .ok ⟨hash, .claimAll, [⟨x.index, x.pool, .claim, x.claims owner l⟩]⟩ := by
    intro x hx
    rw [Registry.claimAll, hx.compileRewards]
    simp [RewardStep.group, RewardStep.sold, RewardRequest.operation, RewardRequest.groupKind]
  have hcounted : (∃ x, r.Pays hash x) → r.claimStepCount hash = .ok 1 := by
    rintro ⟨x, hx⟩
    exact hx.claimStepCount
  refine ⟨fun amount => ?_, ⟨fun h => ?_, hcounted⟩,
    fun x hx amount => ⟨hsome x hx amount, hclaim x hx⟩, fun amount hle => ?_⟩
  · rcases r.rewards_cases hash with ⟨x, hx⟩ | ⟨hcount, hnone⟩ | ⟨e, hcount, herror⟩
    · rw [hsome x hx, hx.claimStepCount]
      rfl
    · rw [Registry.harvestSome, hnone, hcount]
      rfl
    · rw [Registry.harvestSome, herror, hcount]
      rfl
  · rcases r.rewards_cases hash with hx | ⟨hcount, -⟩ | ⟨e, hcount, -⟩
    · exact hx
    · rw [hcount] at h
      cases h
    · rw [hcount] at h
      cases h
  · rcases r.rewards_cases hash with ⟨x, hx⟩ | ⟨-, hnone⟩ | ⟨e, -, herror⟩
    · rw [hsome x hx, Registry.harvestAll, hx.compileRewards, RewardStep.group, RewardStep.group,
        RewardStep.sold_of_available_le (hle x hx)]
      rfl
    · rw [Registry.harvestAll, hnone, Registry.harvestSome, hnone]
      rfl
    · rw [Registry.harvestAll, herror, Registry.harvestSome, herror]

namespace Rewarded

/-- The account that holds the position. -/
def owner : Address := .ofNat 1

/-- The coin that is deposited. -/
def coin : Address := .ofNat 2

/-- The curve pool. -/
def pool : Address := .ofNat 3

/-- The receipt token of the pool. -/
def receipt : Address := .ofNat 4

/-- The protocol of the pool, whose gauge pays a token. -/
def curve : CurveProtocol :=
  ⟨"curve", ⟨.ofNat 7, 100⟩, 50,
    .ofList [(pool, ⟨[coin, .ofNat 8], receipt, some (.ofNat 5), some (.ofNat 6)⟩)]⟩

/-- The strategy. -/
def strategy : Strategy where
  underlying := coin
  steps := [⟨pool, receipt, false⟩]
  hash := strategyDigest coin [⟨pool, receipt, false⟩]
  steps_ne_nil := by simp
  underlying_ne_zero := by decide
  hash_eq := rfl

/-- The pool is bound, and the strategy is stored. -/
def registry : Registry :=
  Registry.register
    { Registry.new (.ofNat 9) with
      adapters := .ofList [("curve", .whole (.curve curve))]
      pools := .ofList [(pool, ⟨pool, some 10, true, 1⟩)]
      bindings := .ofList [(pool, ⟨"curve", true⟩)] }
    strategy

/-- The owner holds thirty of the token, and the gauge owes seventy. -/
def snapshot : Snapshot :=
  { balances := .ofList [((.ofNat 6, owner), 30)]
    rewards := .ofList [((.ofNat 5, owner), 70)]
    prices := .ofList [(.ofNat 6, 3), (coin, 2)] }

/-- The step that pays. -/
def source : RewardStep := ⟨0, pool, .ofNat 5, .ofNat 6, coin, curve.router⟩

/-- The last step of the strategy pays. -/
theorem pays : registry.Pays strategy.hash source := by
  have hstored : registry.strategy strategy.hash = .ok strategy := Registry.strategy_register rfl
  have hroute : registry.route .exit strategy =
      .ok [⟨0, coin, ⟨pool, receipt, false⟩, ⟨.whole (.curve curve), true, default⟩⟩] := rfl
  exact .intro hstored hroute rfl (.intro rfl rfl rfl rfl)

/-- Of a hundred rewards, fifty are sold on request for at least seventy-four coins, which is the
quote less one in a hundred. A request for a hundred sells everything. -/
theorem fifty_are_sold :
    registry.harvestSome owner strategy.hash 50 snapshot.ledger =
      .ok ⟨strategy.hash, .harvestSome, [⟨0, pool, .harvest,
        [Call.claimRewards.sentTo (.ofNat 5), (Call.approve (.ofNat 7) 50).sentTo (.ofNat 6),
          (Call.swapExact 50 74 [.ofNat 6, coin] owner .largest).sentTo (.ofNat 7)]⟩]⟩ ∧
    (registry.harvestAll owner strategy.hash snapshot.ledger).map Plan.groups =
      (registry.harvestSome owner strategy.hash 100 snapshot.ledger).map Plan.groups := by
  obtain ⟨-, -, hgroups, hall⟩ :=
    harvest_sells_what_is_owned registry strategy.hash owner snapshot.ledger
  refine ⟨(hgroups source pays 50).1, hall 100 fun x hx => ?_⟩
  rw [hx.unique pays]
  decide

end Rewarded

end VaultKeeper
