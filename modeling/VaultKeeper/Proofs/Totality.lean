import VaultKeeper.Proofs.Checks
import VaultKeeper.Proofs.Moves
import VaultKeeper.Valuation

/-! # Nothing fails behind resolution

Once a strategy has resolved in a wired registry, everything that is computed from its route
succeeds: every question to a protocol has an answer, every job can be done on every overlay, and
the value of a position is found on every ledger. A request is therefore refused exactly when the
lookup of its strategies or their resolution is, and with the same error. -/

namespace VaultKeeper

open Except (Succeeds)

/-! ## What protocols answer for an accepted asset -/

namespace VaultProtocol

variable {p : VaultProtocol} {owner asset pool : Address} {amount : Amount} {l : Ledger}

/-- A vault that takes an asset has a value. -/
theorem succeeds_poolValue (h : (p.receipt asset pool).Succeeds) (l : Ledger) :
    (p.poolValue asset pool l).Succeeds :=
  h.bind fun _ _ => Except.succeeds_pure _

/-- Shares can be minted. -/
theorem succeeds_minted (h : (p.receipt asset pool).Succeeds) (amount : Amount) (l : Ledger) :
    (p.minted asset pool amount l).Succeeds :=
  (succeeds_poolValue h l).bind fun _ _ => Except.succeeds_pure _

/-- Shares can be redeemed. -/
theorem succeeds_redeemed (h : (p.receipt asset pool).Succeeds) (shares : Amount) (l : Ledger) :
    (p.redeemed asset pool shares l).Succeeds :=
  (succeeds_poolValue h l).bind fun _ _ => Except.succeeds_pure _

end VaultProtocol

namespace LendingProtocol

variable {p : LendingProtocol} {owner asset pool borrowed : Address} {l : Ledger}

/-- A market that takes an asset is configured. -/
theorem succeeds_market (h : (p.receipt asset pool).Succeeds) : (p.market pool).Succeeds := by
  obtain ⟨receipt, hreceipt⟩ := h
  obtain ⟨m, hm, -⟩ := bind_eq_ok.1 hreceipt
  exact ⟨m, hm⟩

/-- The debt at a configured market has a value. -/
theorem succeeds_debtValue (h : (p.market pool).Succeeds) (owner asset : Address) (l : Ledger) :
    (p.debtValue owner pool asset l).Succeeds :=
  h.bind fun _ _ => Except.succeeds_pure _

/-- The collateral in an accepted asset is known. -/
theorem succeeds_collateral (h : (p.receipt asset pool).Succeeds) (owner : Address) (l : Ledger) :
    (p.collateral owner asset pool l).Succeeds :=
  h.bind fun _ _ => Except.succeeds_pure _

/-- What debt does not lock is known. -/
theorem succeeds_withdrawable (h : (p.receipt asset pool).Succeeds) (owner : Address)
    (l : Ledger) : (p.withdrawable owner asset pool l).Succeeds := by
  refine (succeeds_collateral h owner l).bind fun held _ =>
    (succeeds_debtValue (succeeds_market h) owner asset l).bind fun owed _ => ?_
  split
  · exact Except.succeeds_pure _
  · exact Except.succeeds_pure _

/-- A market knows how much of an asset that it lends may still be borrowed. -/
theorem succeeds_borrowCapacity {assets : List Address} (h : (p.receipt asset pool).Succeeds)
    (hassets : p.borrowable pool = .ok assets) (hin : borrowed ∈ assets) (owner : Address)
    (l : Ledger) : (p.borrowCapacity owner asset pool borrowed l).Succeeds := by
  rw [borrowCapacity, hassets, ok_bind, if_pos hin]
  exact (succeeds_collateral h owner l).bind fun _ _ =>
    (succeeds_debtValue (succeeds_market h) owner borrowed l).bind fun _ _ =>
      Except.succeeds_pure _

/-- It can be borrowed. -/
theorem succeeds_borrowAll {assets : List Address} (h : (p.receipt asset pool).Succeeds)
    (hassets : p.borrowable pool = .ok assets) (hin : borrowed ∈ assets) (owner : Address)
    (l : Ledger) : (p.borrowAll owner asset pool borrowed l).Succeeds :=
  (succeeds_borrowCapacity h hassets hin owner l).bind fun _ _ => Except.succeeds_pure _

/-- Debt can be repaid. -/
theorem succeeds_repayAll (h : (p.receipt asset pool).Succeeds) (owner borrowed : Address)
    (l : Ledger) : (p.repayAll owner pool borrowed l).Succeeds :=
  (succeeds_market h).bind fun _ _ => Except.succeeds_pure _

/-- A borrowing position has a value. -/
theorem succeeds_borrowValue (h : (p.receipt asset pool).Succeeds) (owner borrowed : Address)
    (held : Amount) (l : Ledger) : (p.borrowValue owner asset pool borrowed held l).Succeeds :=
  (succeeds_collateral h owner l).bind fun _ _ => Except.succeeds_pure _

end LendingProtocol

namespace CurveProtocol

variable {p : CurveProtocol} {owner asset pool : Address} {amount : Amount} {l : Ledger}

/-- Every pool of the protocol has two or three coins. -/
def Sized (p : CurveProtocol) : Prop :=
  ∀ {c pool}, p.pool pool = .ok c → c.coins.length = 2 ∨ c.coins.length = 3

/-- An accepted coin has an index. -/
theorem succeeds_coinIndex (h : (p.receipt asset pool).Succeeds) :
    (p.coinIndex asset pool).Succeeds := by
  obtain ⟨receipt, hreceipt⟩ := h
  obtain ⟨index, hindex, -⟩ := bind_eq_ok.1 hreceipt
  exact ⟨index, hindex⟩

/-- A pool that accepts a coin is configured. -/
theorem succeeds_pool (h : (p.receipt asset pool).Succeeds) : (p.pool pool).Succeeds := by
  obtain ⟨receipt, hreceipt⟩ := h
  obtain ⟨c, hc, -⟩ := pool_of_receipt hreceipt
  exact ⟨c, hc⟩

/-- A pool has a value. -/
theorem succeeds_poolValue (h : (p.receipt asset pool).Succeeds) (l : Ledger) :
    (p.poolValue asset pool l).Succeeds :=
  (succeeds_coinIndex h).bind fun _ _ => (succeeds_pool h).bind fun _ _ => Except.succeeds_pure _

/-- Receipts can be minted. -/
theorem succeeds_minted (h : (p.receipt asset pool).Succeeds) (amount : Amount) (l : Ledger) :
    (p.minted asset pool amount l).Succeeds :=
  h.bind fun _ _ => (succeeds_poolValue h l).bind fun _ _ => Except.succeeds_pure _

/-- Receipts can be redeemed. -/
theorem succeeds_redeemed (h : (p.receipt asset pool).Succeeds) (receipts : Amount) (l : Ledger) :
    (p.redeemed asset pool receipts l).Succeeds :=
  h.bind fun _ _ => (succeeds_poolValue h l).bind fun _ _ => Except.succeeds_pure _

/-- Receipts are counted, staked ones included. -/
theorem succeeds_stakedAndLoose (h : (p.receipt asset pool).Succeeds) (owner : Address)
    (l : Ledger) : (p.stakedAndLoose owner asset pool l).Succeeds := by
  refine h.bind fun _ _ => (succeeds_pool h).bind fun c _ => ?_
  cases c.gauge with
  | none => exact Except.succeeds_pure _
  | some g => exact Except.succeeds_pure _

/-- Unclaimed rewards have a value. -/
theorem succeeds_pendingRewardValue (h : (p.pool pool).Succeeds) (owner asset : Address)
    (l : Ledger) : (p.pendingRewardValue owner asset pool l).Succeeds := by
  refine h.bind fun c _ => ?_
  cases c.gauge with
  | none => exact Except.succeeds_pure _
  | some g =>
    cases c.rewardToken with
    | none => exact Except.succeeds_pure _
    | some r => exact Except.succeeds_pure _

/-- Everything that an owner holds in a pool has a value. -/
theorem succeeds_stakedValue (h : (p.receipt asset pool).Succeeds) (owner : Address)
    (l : Ledger) : (p.stakedValue owner asset pool l).Succeeds :=
  (succeeds_stakedAndLoose h owner l).bind fun _ _ => (succeeds_redeemed h _ l).bind fun _ _ =>
    (succeeds_pendingRewardValue (succeeds_pool h) owner asset l).bind fun _ _ =>
      Except.succeeds_pure _

/-- There are calls to add and remove the liquidity of a pool of two or three coins. -/
theorem succeeds_checkSize (hp : p.Sized) {c : CurvePool} (hc : p.pool pool = .ok c) :
    (p.checkSize pool c.coins).Succeeds :=
  ⟨(), if_pos (hp hc)⟩

/-- A coin can be added. -/
theorem succeeds_deposit (hp : p.Sized) (h : (p.receipt asset pool).Succeeds) (amount : Amount)
    (l : Ledger) : (p.deposit asset pool amount l).Succeeds := by
  refine (succeeds_coinIndex h).bind fun index _ => ?_
  split
  · exact Except.succeeds_pure _
  · exact (succeeds_pool h).bind fun c hc => (succeeds_minted h amount l).bind fun _ _ =>
      (succeeds_checkSize hp hc).bind fun _ _ => Except.succeeds_pure _

/-- Receipts can be turned into a coin. -/
theorem succeeds_withdraw (hp : p.Sized) (h : (p.receipt asset pool).Succeeds) (receipts : Amount)
    (l : Ledger) : (p.withdraw asset pool receipts l).Succeeds := by
  refine (succeeds_coinIndex h).bind fun index _ => ?_
  split
  · exact Except.succeeds_pure _
  · exact (succeeds_pool h).bind fun c hc =>
      (succeeds_checkSize hp hc).bind fun _ _ => Except.succeeds_pure _

/-! ### Staking and rewards -/

/-- Staked receipts are counted where there is a gauge. -/
theorem succeeds_staked (hg : (p.gauge pool).Succeeds) (owner : Address) (l : Ledger) :
    (p.staked owner pool l).Succeeds :=
  hg.bind fun _ _ => Except.succeeds_pure _

/-- Receipts can be staked where there is a gauge. -/
theorem succeeds_stakeAll (h : (p.receipt asset pool).Succeeds) (hg : (p.gauge pool).Succeeds)
    (owner : Address) (l : Ledger) : (p.stakeAll owner asset pool l).Succeeds :=
  h.bind fun _ _ => hg.bind fun _ _ => (succeeds_pool h).bind fun _ _ => Except.succeeds_pure _

/-- Staked receipts can be taken out and redeemed. -/
theorem succeeds_unstakeAndWithdrawAll (hp : p.Sized) (h : (p.receipt asset pool).Succeeds)
    (hg : (p.gauge pool).Succeeds) (owner : Address) (l : Ledger) :
    (p.unstakeAndWithdrawAll owner asset pool l).Succeeds := by
  refine (succeeds_staked hg owner l).bind fun staked _ => h.bind fun receipt _ => ?_
  have hunstake : (p.unstake pool staked).Succeeds := hg.bind fun _ _ => Except.succeeds_pure _
  exact hunstake.bind fun _ _ => (succeeds_withdraw hp h _ l).bind fun _ _ =>
    Except.succeeds_pure _

/-- What an owner can claim is known. -/
theorem succeeds_unclaimed (h : (p.pool pool).Succeeds) (owner : Address) (l : Ledger) :
    (p.unclaimed owner pool l).Succeeds := by
  refine h.bind fun c _ => ?_
  cases c.gauge with
  | none => exact Except.succeeds_pure _
  | some g => exact Except.succeeds_pure _

/-- Whether a pool pays a reward token is known. -/
theorem succeeds_rewardToken (h : (p.pool pool).Succeeds) : (p.rewardToken pool).Succeeds :=
  h.bind fun _ _ => Except.succeeds_pure _

/-- A pool that pays a reward token has a gauge. -/
theorem succeeds_gauge_of_reward {reward : Address} (h : p.rewardToken pool = .ok (some reward)) :
    (p.gauge pool).Succeeds := by
  obtain ⟨c, hc, h⟩ := bind_eq_ok.1 h
  rw [pure_eq_ok, Except.ok.injEq] at h
  cases hg : c.gauge with
  | none => simp [hg] at h
  | some g => exact ⟨g, by simp [gauge, hc, hg]⟩

/-- Rewards can be claimed. -/
theorem succeeds_claim (h : (p.pool pool).Succeeds) (owner : Address) (l : Ledger) :
    (p.claim owner pool l).Succeeds := by
  refine (succeeds_rewardToken h).bind fun reward hreward =>
    (succeeds_unclaimed h owner l).bind fun pending _ => ?_
  by_cases hnone : reward.isNone ∨ pending = 0
  · rw [if_pos hnone]
    exact Except.succeeds_pure _
  rw [if_neg hnone]
  -- There is a reward token, so there is a gauge to claim from.
  cases reward with
  | none => exact absurd (.inl rfl) hnone
  | some token =>
    exact (succeeds_gauge_of_reward hreward).bind fun _ _ => Except.succeeds_pure _

/-- Rewards can be claimed and sold in part. -/
theorem succeeds_harvestSome (h : (p.pool pool).Succeeds) (owner target : Address)
    (amount : Amount) (l : Ledger) : (p.harvestSome owner pool target amount l).Succeeds := by
  refine (succeeds_rewardToken h).bind fun reward _ => ?_
  cases reward with
  | none => exact Except.succeeds_pure _
  | some token =>
    exact (succeeds_unclaimed h owner l).bind fun _ _ => (succeeds_claim h owner l).bind
      fun _ _ => Except.succeeds_pure _

/-- Rewards can be claimed and sold. -/
theorem succeeds_harvestAll (h : (p.pool pool).Succeeds) (owner target : Address) (l : Ledger) :
    (p.harvestAll owner pool target l).Succeeds := by
  refine (succeeds_rewardToken h).bind fun reward _ => ?_
  cases reward with
  | none => exact Except.succeeds_pure _
  | some token =>
    exact (succeeds_unclaimed h owner l).bind fun _ _ => succeeds_harvestSome h owner target _ l

end CurveProtocol

/-- Every request for rewards is met by a configured pool. -/
theorem RewardRequest.succeeds_calls {p : CurveProtocol} {pool : Address}
    (h : (p.pool pool).Succeeds) (q : RewardRequest) (owner target : Address) (l : Ledger) :
    (q.calls p owner pool target l).Succeeds := by
  cases q with
  | claim => exact CurveProtocol.succeeds_claim h owner l
  | harvestAll => exact CurveProtocol.succeeds_harvestAll h owner target l
  | harvestSome amount => exact CurveProtocol.succeeds_harvestSome h owner target amount l

namespace Protocol

variable {p : Protocol} {owner asset pool : Address} {l : Ledger}

/-- Every curve pool of the protocol has two or three coins. -/
def Sized (p : Protocol) : Prop := ∀ {q}, p = .curve q → q.Sized

/-- A pool that accepts an asset has a value. -/
theorem succeeds_poolValue (h : (p.receipt asset pool).Succeeds) (l : Ledger) :
    (p.poolValue asset pool l).Succeeds := by
  cases p with
  | vault p => exact VaultProtocol.succeeds_poolValue h l
  | lending p => exact Succeeds.bind h fun _ _ => Except.succeeds_pure _
  | curve p => exact CurveProtocol.succeeds_poolValue h l

/-- Receipts can be minted. -/
theorem succeeds_minted (h : (p.receipt asset pool).Succeeds) (amount : Amount) (l : Ledger) :
    (p.minted asset pool amount l).Succeeds := by
  cases p with
  | vault p => exact VaultProtocol.succeeds_minted h amount l
  | lending p => exact Succeeds.bind h fun _ _ => Except.succeeds_pure _
  | curve p => exact CurveProtocol.succeeds_minted h amount l

/-- Receipts can be redeemed. -/
theorem succeeds_redeemed (h : (p.receipt asset pool).Succeeds) (receipts : Amount) (l : Ledger) :
    (p.redeemed asset pool receipts l).Succeeds := by
  cases p with
  | vault p => exact VaultProtocol.succeeds_redeemed h receipts l
  | lending p => exact Succeeds.bind h fun _ _ => Except.succeeds_pure _
  | curve p => exact CurveProtocol.succeeds_redeemed h receipts l

/-- Receipts are counted. -/
theorem succeeds_receiptBalance (h : (p.receipt asset pool).Succeeds) (owner : Address)
    (l : Ledger) : (p.receiptBalance owner asset pool l).Succeeds :=
  h.bind fun _ _ => Except.succeeds_pure _

/-- The exposure of an owner is known. -/
theorem succeeds_positionValue (h : (p.receipt asset pool).Succeeds) (owner : Address)
    (l : Ledger) : (p.positionValue owner asset pool l).Succeeds := by
  have hheld : (p.receiptBalance owner asset pool l).Succeeds := succeeds_receiptBalance h owner l
  cases p with
  | vault p => exact hheld.bind fun _ _ => succeeds_redeemed h _ l
  | lending p => exact hheld.bind fun _ _ => succeeds_redeemed h _ l
  | curve p =>
    exact (CurveProtocol.succeeds_stakedAndLoose h owner l).bind fun _ _ => succeeds_redeemed h _ l

/-- What an owner holds in a pool has a value. -/
theorem succeeds_holdingsValue (h : (p.receipt asset pool).Succeeds) (owner : Address)
    (l : Ledger) : (p.holdingsValue owner asset pool l).Succeeds := by
  refine (succeeds_receiptBalance h owner l).bind fun _ _ =>
    (succeeds_redeemed h _ l).bind fun _ _ => ?_
  cases p with
  | vault p => exact Except.succeeds_pure _
  | lending p => exact Except.succeeds_pure _
  | curve p =>
    exact (CurveProtocol.succeeds_pendingRewardValue (CurveProtocol.succeeds_pool h) owner asset
      l).bind fun _ _ => Except.succeeds_pure _

/-- What an owner can redeem is known. -/
theorem succeeds_withdrawable (h : (p.receipt asset pool).Succeeds) (owner : Address)
    (l : Ledger) : (p.withdrawable owner asset pool l).Succeeds := by
  cases p with
  | vault p => exact succeeds_receiptBalance h owner l
  | lending p => exact LendingProtocol.succeeds_withdrawable h owner l
  | curve p => exact succeeds_receiptBalance h owner l

/-- What the caps admit is known. -/
theorem succeeds_depositAmount (h : (p.receipt asset pool).Succeeds) (owner : Address)
    (requested : Amount) (caps : DepositCaps) (l : Ledger) :
    (p.depositAmount owner asset pool requested caps l).Succeeds := by
  unfold depositAmount
  split
  · exact Except.succeeds_pure _
  · exact (succeeds_poolValue h l).bind fun _ _ => (succeeds_positionValue h owner l).bind
      fun _ _ => Except.succeeds_pure _

/-- An amount can be deposited. -/
theorem succeeds_deposit (hp : p.Sized) (h : (p.receipt asset pool).Succeeds) (owner : Address)
    (amount : Amount) (l : Ledger) : (p.deposit owner asset pool amount l).Succeeds := by
  cases p with
  | vault p => exact Succeeds.bind h fun _ _ => Except.succeeds_pure _
  | lending p => exact Succeeds.bind h fun _ _ => Except.succeeds_pure _
  | curve p => exact CurveProtocol.succeeds_deposit (hp rfl) h amount l

/-- As much of a request as the caps admit can be deposited. -/
theorem succeeds_depositSome (hp : p.Sized) (h : (p.receipt asset pool).Succeeds)
    (owner : Address) (requested : Amount) (caps : DepositCaps) (l : Ledger) :
    (p.depositSome owner asset pool requested caps l).Succeeds :=
  h.bind fun _ _ => (succeeds_depositAmount h owner requested caps l).bind fun _ _ =>
    succeeds_deposit hp h owner _ l

/-- Everything that can be redeemed can be withdrawn. -/
theorem succeeds_withdrawAll (hp : p.Sized) (h : (p.receipt asset pool).Succeeds)
    (owner : Address) (l : Ledger) : (p.withdrawAll owner asset pool l).Succeeds := by
  refine (succeeds_withdrawable h owner l).bind fun receipts _ => ?_
  cases p with
  | vault p => exact Succeeds.bind h fun _ _ => Except.succeeds_pure _
  | lending p => exact Succeeds.bind h fun _ _ => Except.succeeds_pure _
  | curve p => exact CurveProtocol.succeeds_withdraw (hp rfl) h receipts l

end Protocol

/-! ## Jobs at a resolved leg -/

/-- What is known of a leg that was resolved in a wired registry. -/
structure Leg.Fit (l : Leg) : Prop where
  /-- The adapter is as configurations make it. -/
  regular : l.bound.adapter.Regular
  /-- The pool accepts the asset that reaches it. -/
  receipt : (l.base.receipt l.input l.pool).Succeeds
  /-- Receipts that are to be staked have a gauge. -/
  gauged : l.bound.stake = true →
    ∃ p, l.bound.adapter.stakeable = .ok p ∧ (p.gauge l.pool).Succeeds
  /-- A borrowing step asks for an asset that the pool lends. -/
  lends : l.step.isBorrow = true → ∃ p assets, l.bound.adapter.lender = .ok p ∧
    p.borrowable l.pool = .ok assets ∧ l.output ∈ assets

/-- A resolved leg of a wired registry is fit. -/
theorem Leg.Resolved.fit {r : Registry} {d : Direction} {l : Leg} (h : l.Resolved r d)
    (hr : r.Wired) : l.Fit := by
  obtain ⟨hregular, hserves⟩ := hr.of_binding h.binding
  obtain ⟨assets, hassets, hin⟩ := h.accepts
  exact ⟨hregular, Protocol.succeeds_receipt hassets hin, hserves.gauged, h.lends⟩

namespace Leg.Fit

variable {l : Leg}

/-- The pools of the protocol can be used. -/
theorem sized (h : l.Fit) : l.base.Sized :=
  fun {_} hbase {_ _} hc => h.regular.sized hbase hc

/-- The lender is the protocol of the leg, so it knows the input. -/
theorem receipt_of_lender {p : LendingProtocol} (h : l.Fit) (hp : l.bound.adapter.lender = .ok p) :
    (p.receipt l.input l.pool).Succeeds := by
  have hreceipt := h.receipt
  rw [show l.base = .lending p from Adapter.base_of_lender h.regular.whole hp] at hreceipt
  exact hreceipt

/-- What stakes is the protocol of the leg, so it knows the input, and its pools can be used. -/
theorem base_of_stakeable {p : CurveProtocol} (h : l.Fit)
    (hp : l.bound.adapter.stakeable = .ok p) :
    (p.receipt l.input l.pool).Succeeds ∧ p.Sized := by
  have hbase : l.base = .curve p := Adapter.base_of_stakeable h.regular.whole hp
  have hreceipt := h.receipt
  rw [hbase] at hreceipt
  exact ⟨hreceipt, h.sized hbase⟩

/-- A deposit can be done. -/
theorem succeeds_deposit (h : l.Fit) (owner : Address) (requested : Amount) (o : Overlay) :
    (l.deposit owner requested o).Succeeds :=
  (Protocol.succeeds_depositAmount h.receipt owner requested l.bound.caps o.ledger).bind
    fun paid _ => (Protocol.succeeds_minted h.receipt paid o.ledger).bind fun _ _ =>
      h.receipt.bind fun _ _ =>
        (Protocol.succeeds_depositSome h.sized h.receipt owner requested l.bound.caps
          o.ledger).bind fun _ _ => Except.succeeds_pure _

/-- A borrowing step can borrow. -/
theorem succeeds_borrow (h : l.Fit) (hborrow : l.step.isBorrow = true) (owner : Address)
    (o : Overlay) : (l.borrow owner o).Succeeds := by
  obtain ⟨p, assets, hp, hassets, hin⟩ := h.lends hborrow
  have hreceipt := h.receipt_of_lender hp
  rw [Leg.borrow, hp, ok_bind]
  exact (LendingProtocol.succeeds_borrowCapacity hreceipt hassets hin owner o.ledger).bind
    fun _ _ => (LendingProtocol.succeeds_borrowAll hreceipt hassets hin owner o.ledger).bind
      fun _ _ => Except.succeeds_pure _

/-- A leg that stakes can stake. -/
theorem succeeds_stake (h : l.Fit) (hstake : l.bound.stake = true) (owner : Address)
    (o : Overlay) : (l.stake owner o).Succeeds := by
  obtain ⟨p, hp, hgauge⟩ := h.gauged hstake
  obtain ⟨hreceipt, -⟩ := h.base_of_stakeable hp
  rw [Leg.stake, hp, ok_bind]
  exact hgauge.bind fun _ _ =>
    (Protocol.succeeds_receiptBalance h.receipt owner o.ledger).bind fun _ _ =>
      (CurveProtocol.succeeds_stakeAll hreceipt hgauge owner o.ledger).bind fun _ _ =>
        Except.succeeds_pure _

/-- A borrowing step can repay. -/
theorem succeeds_repay (h : l.Fit) (hborrow : l.step.isBorrow = true) (owner : Address)
    (o : Overlay) : (l.repay owner o).Succeeds := by
  obtain ⟨p, assets, hp, -, -⟩ := h.lends hborrow
  rw [Leg.repay, hp, ok_bind]
  exact (LendingProtocol.succeeds_repayAll (h.receipt_of_lender hp) owner l.output o.ledger).bind
    fun _ _ => Except.succeeds_pure _

/-- A withdrawal can be done. -/
theorem succeeds_withdraw (h : l.Fit) (owner : Address) (o : Overlay) :
    (l.withdraw owner o).Succeeds :=
  h.receipt.bind fun _ _ =>
    (Protocol.succeeds_withdrawable h.receipt owner o.ledger).bind fun receipts _ =>
      (Protocol.succeeds_redeemed h.receipt receipts o.ledger).bind fun _ _ =>
        (Protocol.succeeds_withdrawAll h.sized h.receipt owner o.ledger).bind fun _ _ =>
          Except.succeeds_pure _

/-- A leg that stakes can be left. -/
theorem succeeds_unstakeAndWithdraw (h : l.Fit) (hstake : l.bound.stake = true) (owner : Address)
    (o : Overlay) : (l.unstakeAndWithdraw owner o).Succeeds := by
  obtain ⟨p, hp, hgauge⟩ := h.gauged hstake
  obtain ⟨hreceipt, hsized⟩ := h.base_of_stakeable hp
  rw [Leg.unstakeAndWithdraw, hp]
  refine h.receipt.bind fun _ _ => ?_
  rw [ok_bind]
  exact hgauge.bind fun _ _ => (CurveProtocol.succeeds_staked hgauge owner o.ledger).bind
    fun staked _ => (Protocol.succeeds_receiptBalance h.receipt owner o.ledger).bind
      fun loose _ => (Protocol.succeeds_redeemed h.receipt (staked.addSat loose) o.ledger).bind
        fun _ _ => (CurveProtocol.succeeds_unstakeAndWithdrawAll hsized hreceipt hgauge owner
          o.ledger).bind fun _ _ => Except.succeeds_pure _

/-- **A job that suits its leg can be done on every overlay.** -/
theorem succeeds_run {j : Job} (h : j.leg.Fit) (hsuits : j.Suits) (owner : Address)
    (o : Overlay) : (j.run owner o).Succeeds := by
  obtain ⟨l, task⟩ := j
  have hstake : l.stakes = true → l.bound.stake = true := by
    intro hstakes
    rw [Leg.stakes, Bool.and_eq_true] at hstakes
    exact hstakes.1
  cases task with
  | deposit requested => exact h.succeeds_deposit owner _ o
  | borrow => exact h.succeeds_borrow hsuits owner o
  | stake => exact h.succeeds_stake (hstake hsuits) owner o
  | repay => exact h.succeeds_repay hsuits owner o
  | withdraw => exact h.succeeds_withdraw owner o
  | unstakeAndWithdraw => exact h.succeeds_unstakeAndWithdraw (hstake hsuits) owner o

/-- What is left to value in a leg has a value. -/
theorem succeeds_topValue (h : l.Fit) (owner : Address) (c : Ledger) :
    (l.topValue owner c).Succeeds := by
  unfold Leg.topValue
  by_cases hborrow : l.step.isBorrow = true
  · obtain ⟨p, assets, hp, -, -⟩ := h.lends hborrow
    rw [if_pos hborrow, hp, ok_bind]
    exact LendingProtocol.succeeds_borrowValue (h.receipt_of_lender hp) owner l.output _ c
  rw [if_neg hborrow]
  by_cases hstake : l.bound.stake = true
  · obtain ⟨p, hp, -⟩ := h.gauged hstake
    rw [if_pos hstake, hp, ok_bind]
    exact CurveProtocol.succeeds_stakedValue (h.base_of_stakeable hp).1 owner c
  · rw [if_neg hstake]
    exact Protocol.succeeds_holdingsValue h.receipt owner c

/-- A leg whose output has a value has one. -/
theorem succeeds_innerValue (h : l.Fit) (owner : Address) (value : Amount) (c : Ledger) :
    (l.innerValue owner value c).Succeeds := by
  unfold Leg.innerValue
  by_cases hborrow : l.step.isBorrow = true
  · obtain ⟨p, assets, hp, -, -⟩ := h.lends hborrow
    rw [if_pos hborrow, hp, ok_bind]
    exact LendingProtocol.succeeds_borrowValue (h.receipt_of_lender hp) owner l.output value c
  · rw [if_neg hborrow]
    exact Protocol.succeeds_redeemed h.receipt value c

/-- Whether a leg pays rewards is known, and what pays them is configured for its pool. -/
theorem succeeds_rewardSource (h : l.Fit) : l.rewardSource?.Succeeds ∧
    ∀ p, l.rewardSource? = .ok (some p) → (p.pool l.pool).Succeeds := by
  unfold Leg.rewardSource?
  cases hrewards : l.bound.adapter.rewards with
  | none => exact ⟨⟨none, rfl⟩, fun p hp => by cases hp⟩
  | some q =>
    -- Only curve protocols pay rewards, so the pool is known to accept the input.
    have hbase : l.bound.adapter.base = .curve q := by
      have hwhole := h.regular.whole
      rw [hwhole] at hrewards
      cases hfamily : l.bound.adapter.base with
      | vault _ =>
        rw [hfamily] at hrewards
        cases hrewards
      | lending _ =>
        rw [hfamily] at hrewards
        cases hrewards
      | curve _ =>
        rw [hfamily] at hrewards
        cases hrewards
        rfl
    have hreceipt := h.receipt
    rw [show l.base = .curve q from hbase] at hreceipt
    have hpool : (q.pool l.pool).Succeeds := CurveProtocol.succeeds_pool hreceipt
    refine ⟨(CurveProtocol.succeeds_rewardToken hpool).bind fun _ _ => Except.succeeds_pure _,
      fun p hp => ?_⟩
    obtain ⟨reward, -, hp⟩ := bind_eq_ok.1 hp
    cases reward with
    | none => cases hp
    | some token =>
      cases hp
      exact hpool

end Leg.Fit

/-! ## Whole routes -/

/-- Jobs that suit fit legs can be done one after the other. -/
theorem succeeds_runJobs {jobs : List Job} (h : ∀ j ∈ jobs, j.leg.Fit ∧ j.Suits)
    (owner : Address) (o : Overlay) : (runJobs owner jobs o).Succeeds := by
  induction jobs generalizing o with
  | nil => exact ⟨(o, []), rfl⟩
  | cons j rest ih =>
    obtain ⟨hfit, hsuits⟩ := h j List.mem_cons_self
    exact (hfit.succeeds_run hsuits owner o).bind fun x _ =>
      (ih (fun j hj => h j (List.mem_cons_of_mem _ hj)) x.1).bind fun _ _ => Except.succeeds_pure _

/-- A route of fit legs has a value. -/
theorem succeeds_routeValue {route : List Leg} (h : ∀ l ∈ route, l.Fit) (owner : Address)
    (c : Ledger) : (routeValue owner c route).Succeeds := by
  induction route with
  | nil => exact ⟨0, rfl⟩
  | cons l rest ih =>
    have hrest := ih fun l hl => h l (List.mem_cons_of_mem _ hl)
    cases rest with
    | nil => exact (h l List.mem_cons_self).succeeds_topValue owner c
    | cons next rest =>
      exact hrest.bind fun value _ => (h l List.mem_cons_self).succeeds_innerValue owner value c

/-- The rewards of a route of fit legs can be handled. -/
theorem succeeds_rewardGroups {route : List Leg} (h : ∀ l ∈ route, l.Fit) (owner target : Address)
    (q : RewardRequest) (c : Ledger) : (rewardGroups owner target q route c).Succeeds := by
  unfold rewardGroups
  cases htop : route.getLast? with
  | none => exact ⟨[], rfl⟩
  | some top =>
    obtain ⟨hsource, hpool⟩ := (h top (List.mem_of_getLast? htop)).succeeds_rewardSource
    refine hsource.bind fun source hp => ?_
    cases source with
    | none => exact ⟨[], rfl⟩
    | some p =>
      exact (q.succeeds_calls (hpool p hp) owner target c).bind fun _ _ => Except.succeeds_pure _

namespace Registry

/-! ## Requests -/

variable {r : Registry}

/-- The legs of a route in a wired registry are fit. -/
theorem fit_of_route {d : Direction} {s : Strategy} {route : List Leg} (hr : r.Wired)
    (h : r.route d s = .ok route) : ∀ l ∈ route, l.Fit :=
  fun l hl => (resolved_of_route h l hl).fit hr

/-- A strategy by its digest, resolved. -/
def resolve (r : Registry) (d : Direction) (hash : Digest) :
    Except AllocationError (List Leg) := do
  r.route d (← r.strategy hash)

/-- The two strategies of a rebalance, which are over one asset, resolved. -/
def resolveBoth (r : Registry) (source target : Digest) :
    Except AllocationError (List Leg × List Leg) := do
  let current ← r.strategy source
  let next ← r.strategy target
  unless current.underlying = next.underlying do
    throw (.strategyMismatch target current.underlying)
  let exits ← r.route .exit current
  return (exits, ← r.route .enter next)

/-- The jobs of a schedule can be done on every overlay. -/
theorem succeeds_schedule {m : Move} {jobs : List Job} (hr : r.Wired)
    (h : r.schedule m = .ok jobs) (owner : Address) (o : Overlay) :
    (runJobs owner jobs o).Succeeds := by
  refine succeeds_runJobs (fun j hj => ?_) owner o
  obtain ⟨hresolved, hsuits, -⟩ := mem_schedule h hj
  exact ⟨hresolved.fit hr, hsuits⟩

/-- A move with a schedule can be simulated on every overlay. -/
theorem succeeds_simulate {m : Move} (hr : r.Wired) (h : (r.schedule m).Succeeds)
    (owner : Address) (o : Overlay) : (r.simulate owner m o).Succeeds :=
  h.bind fun _ hjobs => succeeds_schedule hr hjobs owner o

/-- **A move is refused only when its schedule is**, and with the same error. -/
theorem fault?_compile (hr : r.Wired) (owner : Address) (l : Ledger) (m : Move) :
    (r.compile owner l m).fault? = (r.schedule m).fault? := by
  rw [compile_eq]
  exact Except.fault?_bind_of_succeeds fun jobs hjobs =>
    (succeeds_schedule hr hjobs owner _).bind fun _ _ => Except.succeeds_pure _

/-- A deposit is refused when its strategy is not found or does not resolve. -/
theorem fault?_compileDeposit (hr : r.Wired) (owner : Address) (hash : Digest)
    (requested : Option Amount) (l : Ledger) :
    (r.compileDeposit owner hash requested l).fault? = (r.resolve .enter hash).fault? := by
  have hschedule : ∀ requested, Except.fault? (do
      return entrySchedule requested (← r.route .enter (← r.strategy hash))) =
        (r.resolve .enter hash).fault? := by
    intro requested
    rw [← bind_assoc]
    exact Except.fault?_bind_of_succeeds fun _ _ => Except.succeeds_pure _
  cases requested with
  | none => exact (fault?_compile hr owner l (.depositAll hash)).trans (hschedule none)
  | some amount =>
    exact (fault?_compile hr owner l (.depositSome hash amount)).trans (hschedule (some amount))

/-- A withdrawal is refused when its strategy is not found or does not resolve. -/
theorem fault?_withdrawAll (hr : r.Wired) (owner : Address) (hash : Digest) (l : Ledger) :
    (r.withdrawAll owner hash l).fault? = (r.resolve .exit hash).fault? := by
  refine (fault?_compile hr owner l (.withdrawAll hash)).trans ?_
  rw [schedule, ← bind_assoc]
  exact Except.fault?_bind_of_succeeds fun _ _ => Except.succeeds_pure _

/-- A rebalance is refused when its strategies are not found, are over different assets or do not
resolve. -/
theorem fault?_rebalance (hr : r.Wired) (owner : Address) (source target : Digest) (l : Ledger) :
    (r.rebalance owner source target l).fault? = (r.resolveBoth source target).fault? := by
  refine (fault?_compile hr owner l (.rebalance source target)).trans ?_
  have hschedule : r.schedule (.rebalance source target) = do
      let routes ← r.resolveBoth source target
      return exitSchedule routes.1 ++ entrySchedule none routes.2 := by
    simp only [schedule, resolveBoth, bind_assoc]
    refine bind_congr fun current => bind_congr fun next => ?_
    by_cases hsame : current.underlying = next.underlying
    · simp only [hsame, if_true, bind_assoc, pure_bind]
    · simp only [hsame, if_false, throw_eq_error, error_bind]
  rw [hschedule]
  exact Except.fault?_bind_of_succeeds fun _ _ => Except.succeeds_pure _

/-- Rewards are refused when their strategy is not found or does not resolve. -/
theorem fault?_compileRewards (hr : r.Wired) (owner : Address) (hash : Digest) (q : RewardRequest)
    (l : Ledger) : (r.compileRewards owner hash q l).fault? = (r.resolve .exit hash).fault? := by
  refine Except.fault?_bind_congr fun s _ => ?_
  exact Except.fault?_bind_of_succeeds fun route hroute =>
    (succeeds_rewardGroups (fit_of_route hr hroute) owner s.underlying q l).bind
      fun _ _ => Except.succeeds_pure _

/-- A valuation is refused when its strategy is not found or does not resolve. -/
theorem fault?_balanceInUnderlying (hr : r.Wired) (owner : Address) (hash : Digest) (l : Ledger) :
    (r.balanceInUnderlying owner hash l).fault? = (r.resolve .exit hash).fault? := by
  refine Except.fault?_bind_congr fun s _ => ?_
  exact Except.fault?_bind_of_succeeds fun route hroute =>
    succeeds_routeValue (fit_of_route hr hroute) owner l

/-! ## All failures happen in resolution -/

/-- **What resolving a strategy comes to.** -/
structure Decides (r : Registry) (d : Direction) (s : Strategy) : Prop where
  /-- A strategy resolves exactly when all of its checks hold. -/
  resolves_iff : (r.route d s).Succeeds ↔ ∀ x ∈ r.strategyChecks d s, x.holds = true
  /-- Otherwise the error is that of the first check that does not hold. -/
  error : (r.route d s).fault? = firstError (r.strategyChecks d s)
  /-- There is one leg for each step, in the order of the steps, and it takes in what reaches the
  step. -/
  legs : ∀ route, r.route d s = .ok route →
    route.map (fun l => (l.step, l.index)) = s.steps.zipIdx ∧
      ∀ l ∈ route, s.inputOf? l.index = some l.input

/-- **What requests come to once their strategies have resolved**: every one of them is met. -/
structure Answers (r : Registry) (owner : Address) (l : Ledger) : Prop where
  /-- Deposits are compiled. -/
  deposits : ∀ hash, (r.resolve .enter hash).Succeeds →
    (r.depositAll owner hash l).Succeeds ∧ ∀ a, (r.depositSome owner hash a l).Succeeds
  /-- Withdrawals are compiled. -/
  withdrawals : ∀ hash, (r.resolve .exit hash).Succeeds → (r.withdrawAll owner hash l).Succeeds
  /-- Rewards are handled. -/
  rewards : ∀ hash, (r.resolve .exit hash).Succeeds → (r.harvestAll owner hash l).Succeeds ∧
    (∀ a, (r.harvestSome owner hash a l).Succeeds) ∧ (r.claimAll owner hash l).Succeeds
  /-- A rebalance between strategies over one asset is compiled. -/
  rebalances : ∀ source target, (r.resolveBoth source target).Succeeds →
    (r.rebalance owner source target l).Succeeds
  /-- Positions are valued. -/
  values : ∀ hash, (r.resolve .exit hash).Succeeds →
    (r.balanceInUnderlying owner hash l).Succeeds

/-- **What requests are refused for**: the lookup and the resolution of their strategies, which know
neither the owner nor the ledger nor an amount. -/
structure RefusesAsResolved (r : Registry) (owner : Address) (l : Ledger) : Prop where
  /-- Deposits. -/
  deposits : ∀ hash, (r.depositAll owner hash l).fault? = (r.resolve .enter hash).fault? ∧
    ∀ a, (r.depositSome owner hash a l).fault? = (r.resolve .enter hash).fault?
  /-- Withdrawals. -/
  withdrawals : ∀ hash, (r.withdrawAll owner hash l).fault? = (r.resolve .exit hash).fault?
  /-- Rewards. -/
  rewards : ∀ hash, (r.harvestAll owner hash l).fault? = (r.resolve .exit hash).fault? ∧
    (∀ a, (r.harvestSome owner hash a l).fault? = (r.resolve .exit hash).fault?) ∧
    (r.claimAll owner hash l).fault? = (r.resolve .exit hash).fault?
  /-- Rebalances. -/
  rebalances : ∀ source target,
    (r.rebalance owner source target l).fault? = (r.resolveBoth source target).fault?
  /-- Valuations. -/
  values : ∀ hash, (r.balanceInUnderlying owner hash l).fault? = (r.resolve .exit hash).fault?

/-- A wired registry decides every strategy by its checks. -/
theorem Wired.decides (hr : r.Wired) (d : Direction) (s : Strategy) : r.Decides d s where
  resolves_iff := succeeds_route_iff hr d s
  error := fault?_route hr d s
  legs _ h := ⟨zipIdx_of_route h, input_of_route h⟩

/-- A wired registry refuses requests as it refuses to resolve their strategies. -/
theorem Wired.refusesAsResolved (hr : r.Wired) (owner : Address) (l : Ledger) :
    r.RefusesAsResolved owner l where
  deposits hash := ⟨fault?_compileDeposit hr owner hash none l,
    fun a => fault?_compileDeposit hr owner hash (some a) l⟩
  withdrawals hash := fault?_withdrawAll hr owner hash l
  rewards hash := ⟨fault?_compileRewards hr owner hash .harvestAll l,
    fun a => fault?_compileRewards hr owner hash (.harvestSome a) l,
    fault?_compileRewards hr owner hash .claim l⟩
  rebalances source target := fault?_rebalance hr owner source target l
  values hash := fault?_balanceInUnderlying hr owner hash l

/-- What is refused as it is resolved is answered once it is resolved. -/
theorem RefusesAsResolved.answers {owner : Address} {l : Ledger}
    (h : r.RefusesAsResolved owner l) : r.Answers owner l where
  deposits hash hs := ⟨(Except.succeeds_congr (h.deposits hash).1).2 hs,
    fun a => (Except.succeeds_congr ((h.deposits hash).2 a)).2 hs⟩
  withdrawals hash hs := (Except.succeeds_congr (h.withdrawals hash)).2 hs
  rewards hash hs := ⟨(Except.succeeds_congr (h.rewards hash).1).2 hs,
    fun a => (Except.succeeds_congr ((h.rewards hash).2.1 a)).2 hs,
    (Except.succeeds_congr (h.rewards hash).2.2).2 hs⟩
  rebalances source target hs := (Except.succeeds_congr (h.rebalances source target)).2 hs
  values hash hs := (Except.succeeds_congr (h.values hash)).2 hs

end Registry

/-- **All failures happen in resolution.** In a registry that has been governed since a valid
configuration, a strategy resolves exactly when all of its checks hold, and otherwise the error is
that of the first failing check of the first failing step. Once its strategies have resolved, every
request is met, for every owner, amount and ledger, and a request that is refused is refused with
the error of resolution. -/
theorem failures_happen_in_resolution (r : Registry) (h : Governed r) :
    (∀ d s, r.Decides d s) ∧
      ∀ owner l, r.Answers owner l ∧ r.RefusesAsResolved owner l := by
  have hr : r.Wired := h.wired
  refine ⟨fun d s => hr.decides d s, fun owner l => ?_⟩
  have hrefuses := hr.refusesAsResolved owner l
  exact ⟨hrefuses.answers, hrefuses⟩

namespace Leveraged

/-- A configuration of the lending market and the curve pool. -/
def deployment : Config where
  service := { name := "allocator" }
  snapshotPath := "chain_snapshot.json"
  governance := { admin := .ofNat 11 }
  protocols := [
    { id := "lending", kind := .lending, ltvBps := 8000 },
    { id := "curve", kind := .curve, router := some (.ofNat 9) }]
  pools := [
    { address := market, protocol := "lending", rating := some 10, approved := true,
      coins := [collateral], receipts := [.ofNat 8], borrowable := [coin] },
    { address := pool, protocol := "curve", rating := some 10, approved := true, stake := true,
      coins := [coin, .ofNat 10], receipt := some receipt, gauge := some (.ofNat 7) }]
  riskProfiles := []

/-- The registry of the configuration. -/
def deployed : Registry := (Registry.ofConfig deployment).toOption.getD default

/-- The strategy is added by the governance account. -/
theorem governed_deployed : Governed (deployed.register strategy) :=
  .of_addStrategy (c := deployment) rfl rfl rfl

/-- The strategy can be deposited into by every owner and on every ledger. -/
theorem deposit_never_refused : Governed (deployed.register strategy) ∧ ∀ owner l,
    ((deployed.register strategy).depositAll owner strategy.hash l).Succeeds := by
  obtain ⟨-, hrequests⟩ := failures_happen_in_resolution _ governed_deployed
  refine ⟨governed_deployed, fun owner l => ((hrequests owner l).1.deposits strategy.hash ?_).1⟩
  rw [Registry.resolve, Registry.strategy_register rfl, ok_bind]
  exact exists_eq_ok rfl

end Leveraged

end VaultKeeper
