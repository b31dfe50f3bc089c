import VaultKeeper.Proofs.AmountAgreement

/-! # No standing allowance

A call that takes tokens from its sender needs an allowance, and an allowance that is not used up
can be used later by whoever controls the spender. In every group of every plan an approval of some
amount is therefore followed at once by the call that takes just this amount of just this token, and
no call takes tokens without such an approval in front of it. What a call takes follows from the
configuration of the contract that it is sent to: a vault takes its asset, a market the asset that
is named, a curve pool its coins by their index, a gauge the receipts of its pool, and a router the
first token of the path. -/

namespace VaultKeeper

/-! ## What calls take -/

/-- Whether calls of an action take tokens from their sender. -/
def Action.draws : Action → Bool
  | deposit | stake | repay | swap => true
  | approve | withdraw | unstake | borrow | claim => false

/-- The amounts that a call names as its input: one for each coin where liquidity is added, and none
where rewards are claimed. -/
def Call.inputs : Call → List Amount
  | approve _ amount | depositAssets amount _ | redeemShares amount _ _ | supply _ amount _
  | withdraw _ amount _ | borrow _ amount _ | repay _ amount _ | removeLiquidity amount _
  | exchange _ _ amount _ | stake amount | unstake amount | swapExact amount _ _ _ _ => [amount]
  | addLiquidity amounts _ => amounts
  | claimRewards => []

namespace Protocol

/-- The tokens, with their amounts, that a call takes from its sender when it is sent to `target` in
the course of work at a pool. A contract that the protocol does not know takes nothing. -/
def pulled (p : Protocol) (pool target : Address) (c : Call) : List (Address × Amount) :=
  match p, c with
  | .vault p, .depositAssets amount _ =>
    match p.asset target with
    | .ok asset => [(asset, amount)]
    | .error _ => []
  | .lending p, .supply asset amount _ | .lending p, .repay asset amount _ =>
    match p.market target with
    | .ok _ => [(asset, amount)]
    | .error _ => []
  | .curve p, .addLiquidity amounts _ =>
    match p.pool target with
    | .ok c => (c.coins.zip amounts).filter fun x => x.2 ≠ 0
    | .error _ => []
  | .curve p, .exchange source _ amount _ =>
    match p.pool target with
    | .ok c => c.coins[source]?.toList.map fun coin => (coin, amount)
    | .error _ => []
  | .curve p, .stake amount =>
    match p.pool pool with
    | .ok c => if c.gauge = some target then [(c.receipt, amount)] else []
    | .error _ => []
  | .curve p, .swapExact amount _ path _ _ =>
    if p.router.address = target then path.head?.toList.map fun token => (token, amount) else []
  | _, _ => []

variable {p : Protocol} {pool target token : Address} {amount : Amount} {c : Call}

/-- Only calls of some actions take tokens. -/
theorem draws_of_mem_pulled (h : (token, amount) ∈ p.pulled pool target c) :
    c.action.draws = true := by
  unfold pulled at h
  split at h
  case h_8 => cases h
  all_goals rfl

/-- What a call takes is among its inputs. -/
theorem mem_inputs_of_mem_pulled (h : (token, amount) ∈ p.pulled pool target c) :
    amount ∈ c.inputs := by
  unfold pulled at h
  split at h
  case h_4 =>
    -- Liquidity is added with an amount for each coin, and what is taken is one of them.
    split at h
    · exact (List.of_mem_zip (List.mem_filter.1 h).1).2
    · cases h
  case h_8 => cases h
  all_goals
    split at h
    · grind [Call.inputs]
    · cases h

/-! ## Calls that leave no allowance -/

/-- The second call takes exactly what the first one approves, and it is sent to the approved
spender. -/
def Spends (p : Protocol) (pool : Address) (first second : Instruction) : Prop :=
  ∃ token target amount c, amount ≠ 0 ∧ first = (Call.approve target amount).sentTo token ∧
    second = c.sentTo target ∧ p.pulled pool target c = [(token, amount)]

/-- **Calls at a pool that leave no allowance behind and need none**: approvals with the calls that
spend them, and calls that take no tokens. No call but a claim is about nothing. -/
inductive Settled (p : Protocol) (pool : Address) : List Instruction → Prop
  /-- No calls. -/
  | nil : Settled p pool []
  /-- A call that neither approves nor takes tokens, then the rest. -/
  | plain {c : Call} {rest : List Instruction} (target : Address) (happrove : c.action ≠ .approve)
      (hdraws : c.action.draws = false)
      (hinputs : c.action = .claim ∨ ∃ amount ∈ c.inputs, amount ≠ 0)
      (tail : Settled p pool rest) : Settled p pool (c.sentTo target :: rest)
  /-- An approval and the call that takes what it approves, then the rest. -/
  | spent {token target : Address} {amount : Amount} {c : Call} {rest : List Instruction}
      (hamount : amount ≠ 0) (hpulled : p.pulled pool target c = [(token, amount)])
      (tail : Settled p pool rest) :
      Settled p pool ((Call.approve target amount).sentTo token :: c.sentTo target :: rest)

namespace Settled

variable {calls more : List Instruction}

/-- Settled calls, one list after the other. -/
theorem append (h : p.Settled pool calls) (hmore : p.Settled pool more) :
    p.Settled pool (calls ++ more) := by
  induction h with
  | nil => exact hmore
  | plain target happrove hdraws hinputs tail ih => exact .plain target happrove hdraws hinputs ih
  | spent hamount hpulled tail ih => exact .spent hamount hpulled ih

/-- Settled calls for each element of a list. -/
theorem flatMap {β : Type} {xs : List β} {f : β → List Instruction}
    (h : ∀ x ∈ xs, p.Settled pool (f x)) : p.Settled pool (xs.flatMap f) := by
  induction xs with
  | nil => exact .nil
  | cons x xs ih =>
    rw [List.flatMap_cons]
    exact (h x List.mem_cons_self).append (ih fun y hy => h y (List.mem_cons_of_mem _ hy))

/-- A call behind the approval of what it takes; both are left out for nothing. -/
theorem approveAnd (hpulled : p.pulled pool target c = [(token, amount)]) :
    p.Settled pool (approveAnd token target amount (c.sentTo target)) := by
  unfold VaultKeeper.approveAnd
  by_cases hzero : amount = 0
  · rw [if_pos hzero]
    exact .nil
  · rw [if_neg hzero]
    exact .spent hzero hpulled .nil

/-- A call that takes no tokens and is left out when it is about nothing. -/
theorem unless_zero (target : Address) (happrove : c.action ≠ .approve)
    (hdraws : c.action.draws = false) (hinput : amount ∈ c.inputs) :
    p.Settled pool (if amount = 0 then [] else [c.sentTo target]) := by
  by_cases hzero : amount = 0
  · rw [if_pos hzero]
    exact .nil
  · rw [if_neg hzero]
    exact .plain target happrove hdraws (.inr ⟨amount, hinput, hzero⟩) .nil

end Settled

/-! ## What settled calls look like, call by call -/

/-- **No allowance is left standing behind a list of calls**, and none is used that was not given
right before. -/
structure Covers (p : Protocol) (pool : Address) (calls : List Instruction) : Prop where
  /-- Every instruction makes a call without native value, and no call but a claim is about
  nothing. -/
  moves : ∀ x ∈ calls, x.value = 0 ∧ ∃ (c : Call) (target : Address), x = c.sentTo target ∧
    (x.action ≠ .claim → ∃ amount ∈ c.inputs, amount ≠ 0)
  /-- Every approval is spent by the call behind it. -/
  spent : ∀ i x, calls[i]? = some x → x.action = .approve →
    ∃ next, calls[i + 1]? = some next ∧ p.Spends pool x next
  /-- Every call that takes tokens spends the approval in front of it. -/
  approved : ∀ i x, calls[i]? = some x → x.action.draws = true →
    ∃ j before, i = j + 1 ∧ calls[j]? = some before ∧ p.Spends pool before x

/-- **Settled calls leave no allowance standing**: the induction takes a plain call or an approval
with its spender from the front, which shifts the places of the others by one or by two. -/
theorem Settled.covers {calls : List Instruction} (h : p.Settled pool calls) :
    p.Covers pool calls := by
  induction h with
  | nil =>
    refine ⟨fun x hx => ?_, fun i x hx _ => ?_, fun i x hx _ => ?_⟩
    · cases hx
    · cases hx
    · cases hx
  | @plain c rest target happrove hdraws hinputs tail ih =>
    refine ⟨fun x hx => ?_, fun i x hx haction => ?_, fun i x hx haction => ?_⟩
    · rcases List.mem_cons.1 hx with rfl | hx
      · exact ⟨rfl, c, target, rfl, fun hclaim => hinputs.resolve_left hclaim⟩
      · exact ih.moves x hx
    · cases i with
      | zero =>
        cases hx
        exact absurd haction happrove
      | succ i => exact ih.spent i x hx haction
    · cases i with
      | zero =>
        cases hx
        rw [show (c.sentTo target).action = c.action from rfl, hdraws] at haction
        cases haction
      | succ i =>
        obtain ⟨j, before, rfl, hbefore, hspends⟩ := ih.approved i x hx haction
        exact ⟨j + 1, before, rfl, hbefore, hspends⟩
  | @spent token target amount c rest hamount hpulled tail ih =>
    have hspends : p.Spends pool ((Call.approve target amount).sentTo token) (c.sentTo target) :=
      ⟨token, target, amount, c, hamount, rfl, rfl, hpulled⟩
    have hmem : (token, amount) ∈ p.pulled pool target c := by
      rw [hpulled]
      exact List.mem_singleton_self _
    have hdraws : (c.sentTo target).action.draws = true := draws_of_mem_pulled hmem
    refine ⟨fun x hx => ?_, fun i x hx haction => ?_, fun i x hx haction => ?_⟩
    · rcases List.mem_cons.1 hx with rfl | hx
      · exact ⟨rfl, .approve target amount, token, rfl,
          fun _ => ⟨amount, List.mem_singleton_self _, hamount⟩⟩
      rcases List.mem_cons.1 hx with rfl | hx
      · exact ⟨rfl, c, target, rfl, fun _ => ⟨amount, mem_inputs_of_mem_pulled hmem, hamount⟩⟩
      · exact ih.moves x hx
    · match i with
      | 0 =>
        cases hx
        exact ⟨_, rfl, hspends⟩
      | 1 =>
        cases hx
        rw [haction] at hdraws
        cases hdraws
      | i + 2 => exact ih.spent i x hx haction
    · match i with
      | 0 =>
        cases hx
        cases haction
      | 1 =>
        cases hx
        exact ⟨0, _, rfl, rfl, hspends⟩
      | i + 2 =>
        obtain ⟨j, before, rfl, hbefore, hbetween⟩ := ih.approved i x hx haction
        exact ⟨j + 2, before, rfl, hbefore, hbetween⟩

end Protocol

/-! ## The calls of each family -/

namespace VaultProtocol

variable {p : VaultProtocol} {owner asset pool : Address} {amount : Amount}
  {calls : List Instruction}

/-- A deposit takes the asset of the vault. -/
theorem settled_deposit (h : p.deposit owner asset pool amount = .ok calls) :
    (Protocol.vault p).Settled pool calls := by
  obtain ⟨receipt, hreceipt, h⟩ := bind_eq_ok.1 h
  cases h
  obtain ⟨held, hheld, hsame⟩ := bind_eq_ok.1 hreceipt
  obtain ⟨hasset, -⟩ := ite_error_eq_ok.1 hsame
  have hpulled : (Protocol.vault p).pulled pool pool (.depositAssets amount owner) =
      [(asset, amount)] := by
    rw [Protocol.pulled]
    simp only [hheld, hasset]
  exact .approveAnd hpulled

/-- A redemption takes no tokens. -/
theorem settled_withdraw (h : p.withdraw owner asset pool amount = .ok calls) :
    (Protocol.vault p).Settled pool calls := by
  obtain ⟨receipt, -, h⟩ := bind_eq_ok.1 h
  cases h
  exact .unless_zero pool Action.noConfusion rfl (List.mem_singleton_self _)

end VaultProtocol

namespace LendingProtocol

variable {p : LendingProtocol} {owner asset pool borrowed : Address} {amount : Amount} {l : Ledger}
  {calls : List Instruction}

/-- Supplying takes the supplied asset. -/
theorem settled_deposit (h : p.deposit owner asset pool amount = .ok calls) :
    (Protocol.lending p).Settled pool calls := by
  obtain ⟨receipt, hreceipt, h⟩ := bind_eq_ok.1 h
  cases h
  obtain ⟨market, hmarket, -⟩ := bind_eq_ok.1 hreceipt
  have hpulled : (Protocol.lending p).pulled pool pool (.supply asset amount owner) =
      [(asset, amount)] := by
    rw [Protocol.pulled]
    simp only [hmarket]
  exact .approveAnd hpulled

/-- Taking supplied assets out takes no tokens. -/
theorem settled_withdraw (h : p.withdraw owner asset pool amount = .ok calls) :
    (Protocol.lending p).Settled pool calls := by
  obtain ⟨receipt, -, h⟩ := bind_eq_ok.1 h
  cases h
  exact .unless_zero pool Action.noConfusion rfl (List.mem_singleton_self _)

/-- A loan takes no tokens. -/
theorem settled_borrowAll (h : p.borrowAll owner asset pool borrowed l = .ok calls) :
    (Protocol.lending p).Settled pool calls := by
  obtain ⟨capacity, -, h⟩ := bind_eq_ok.1 h
  cases h
  exact .unless_zero pool Action.noConfusion rfl (List.mem_singleton_self _)

/-- A repayment takes the borrowed asset. -/
theorem settled_repayAll (h : p.repayAll owner pool borrowed l = .ok calls) :
    (Protocol.lending p).Settled pool calls := by
  obtain ⟨market, hmarket, h⟩ := bind_eq_ok.1 h
  cases h
  have hpulled : (Protocol.lending p).pulled pool pool
      (.repay borrowed (repayable owner pool borrowed l) owner) =
        [(borrowed, repayable owner pool borrowed l)] := by
    rw [Protocol.pulled]
    simp only [hmarket]
  exact .approveAnd hpulled

end LendingProtocol

/-- Where one coin is added, one coin is taken. -/
theorem zip_single {coins : List Address} {index : Nat} {asset : Address} {amount : Amount}
    (hcoin : coins[index]? = some asset) (hamount : amount ≠ 0) :
    (coins.zip ((coins.map fun _ => (0 : Amount)).set index amount)).filter (fun x => x.2 ≠ 0) =
      [(asset, amount)] := by
  induction coins generalizing index with
  | nil => cases hcoin
  | cons coin rest ih =>
    cases index with
    | zero =>
      have hothers :
          (rest.zip (rest.map fun _ => (0 : Amount))).filter (fun x => x.2 ≠ 0) = [] := by
        rw [List.filter_eq_nil_iff]
        intro x hx
        obtain ⟨_, -, hzero⟩ := List.mem_map.1 (List.of_mem_zip hx).2
        simp [← hzero]
      cases hcoin
      rw [List.map_cons, List.set_cons_zero, List.zip_cons_cons,
        List.filter_cons_of_pos (by simpa using hamount), hothers]
    | succ index =>
      rw [List.map_cons, List.set_cons_succ, List.zip_cons_cons,
        List.filter_cons_of_neg (by simp)]
      exact ih hcoin

namespace CurveProtocol

variable {p : CurveProtocol} {owner asset pool target : Address} {amount : Amount} {l : Ledger}
  {calls : List Instruction}

/-- The index of a coin is where the coin stands. -/
theorem coin_of_index {index : Nat} {c : CurvePool} (hindex : p.coinIndex asset pool = .ok index)
    (hc : p.pool pool = .ok c) : c.coins[index]? = some asset := by
  rw [coinIndex, hc, ok_bind] at hindex
  cases hfound : c.coins.idxOf? asset with
  | none =>
    rw [hfound] at hindex
    cases hindex
  | some i =>
    rw [hfound] at hindex
    cases hindex
    obtain ⟨hi, hasset, -⟩ := List.idxOf?_eq_some_iff.1 hfound
    rw [List.getElem?_eq_getElem hi, hasset]

/-- Adding one coin takes this coin. -/
theorem settled_deposit (h : p.deposit asset pool amount l = .ok calls) :
    (Protocol.curve p).Settled pool calls := by
  obtain ⟨index, hindex, -⟩ := bind_eq_ok.1 h
  rcases p.deposit_eq_ok hindex h with ⟨-, rfl⟩ | ⟨hamount, c, minMint, hc, rfl⟩
  · exact .nil
  · have hpulled : (Protocol.curve p).pulled pool pool
        (.addLiquidity ((c.coins.map fun _ => (0 : Amount)).set index amount) minMint) =
          [(asset, amount)] := by
      rw [Protocol.pulled]
      simp only [hc]
      exact zip_single (coin_of_index hindex hc) hamount
    exact .spent hamount hpulled .nil

/-- An exchange takes the coin that is exchanged. -/
theorem settled_exchange {c : CurvePool} {source goal : Nat} {coin : Address} {received : Amount}
    (hc : p.pool pool = .ok c) (hcoin : c.coins[source]? = some coin) :
    (Protocol.curve p).Settled pool (p.exchange pool source goal coin asset received l) := by
  unfold exchange
  by_cases hskip : source = goal ∨ received = 0
  · rw [if_pos hskip]
    exact .nil
  · rw [if_neg hskip]
    have hreceived : received ≠ 0 := fun hzero => hskip (.inr hzero)
    have hpulled : ∀ minOut, (Protocol.curve p).pulled pool pool
        (.exchange source goal received minOut) = [(coin, received)] := by
      intro minOut
      rw [Protocol.pulled]
      simp only [hc, hcoin]
      rfl
    exact .spent hreceived (hpulled _) .nil

/-- Redeeming receipts takes no tokens, and each coin that is exchanged afterwards is approved. -/
theorem settled_withdraw (h : p.withdraw asset pool amount l = .ok calls) :
    (Protocol.curve p).Settled pool calls := by
  unfold withdraw at h
  obtain ⟨goal, -, h⟩ := bind_eq_ok.1 h
  by_cases hzero : amount = 0
  · rw [if_pos hzero] at h
    cases h
    exact .nil
  rw [if_neg hzero] at h
  obtain ⟨c, hc, h⟩ := bind_eq_ok.1 h
  obtain ⟨_, -, h⟩ := bind_eq_ok.1 h
  cases h
  refine .plain pool Action.noConfusion rfl (.inr ⟨amount, List.mem_singleton_self _, hzero⟩)
    (.flatMap ?_)
  rintro ⟨⟨coin, received⟩, source⟩ hx
  -- The place of a share is the place of its coin.
  have hplace := List.mem_zipIdx_iff_getElem?.1 hx
  exact settled_exchange hc (List.getElem?_zip_eq_some.1 hplace).1

/-- A stake takes the receipts of the pool. -/
theorem settled_stake (h : p.stake pool amount = .ok calls) :
    (Protocol.curve p).Settled pool calls := by
  obtain ⟨gauge, hgauge, h⟩ := bind_eq_ok.1 h
  obtain ⟨c, hc, h⟩ := bind_eq_ok.1 h
  cases h
  have hpulled : (Protocol.curve p).pulled pool gauge (.stake amount) = [(c.receipt, amount)] := by
    rw [Protocol.pulled]
    simp only [hc, gauge_eq_ok hc hgauge, if_true]
  exact .approveAnd hpulled

/-- Taking staked receipts out takes no tokens. -/
theorem settled_unstake (h : p.unstake pool amount = .ok calls) :
    (Protocol.curve p).Settled pool calls := by
  obtain ⟨gauge, -, h⟩ := bind_eq_ok.1 h
  cases h
  exact .unless_zero gauge Action.noConfusion rfl (List.mem_singleton_self _)

/-- Leaving a staked position is taking receipts out and redeeming them. -/
theorem settled_unstakeAndWithdrawAll
    (h : p.unstakeAndWithdrawAll owner asset pool l = .ok calls) :
    (Protocol.curve p).Settled pool calls := by
  obtain ⟨staked, -, h⟩ := bind_eq_ok.1 h
  obtain ⟨receipt, -, h⟩ := bind_eq_ok.1 h
  obtain ⟨unstakes, hunstakes, h⟩ := bind_eq_ok.1 h
  obtain ⟨withdrawals, hwithdrawals, h⟩ := bind_eq_ok.1 h
  cases h
  exact (settled_unstake hunstakes).append (settled_withdraw hwithdrawals)

/-- A claim takes no tokens. -/
theorem settled_claim (h : p.claim owner pool l = .ok calls) :
    (Protocol.curve p).Settled pool calls := by
  unfold claim at h
  obtain ⟨reward, -, h⟩ := bind_eq_ok.1 h
  obtain ⟨pending, -, h⟩ := bind_eq_ok.1 h
  by_cases hnothing : reward.isNone ∨ pending = 0
  · rw [if_pos hnothing] at h
    cases h
    exact .nil
  · rw [if_neg hnothing] at h
    obtain ⟨gauge, -, h⟩ := bind_eq_ok.1 h
    cases h
    exact .plain gauge Action.noConfusion rfl (.inl rfl) .nil

/-- A sale takes the token that is sold. -/
theorem settled_swap (source : Address) (recipient : Address) :
    (Protocol.curve p).Settled pool (p.router.swap source target amount recipient l) := by
  unfold SwapRouter.swap
  by_cases hnothing : amount = 0 ∨ source = target
  · rw [if_pos hnothing]
    exact .nil
  · rw [if_neg hnothing]
    have hpulled : ∀ minOut, (Protocol.curve p).pulled pool p.router.address
        (.swapExact amount minOut [source, target] recipient .largest) = [(source, amount)] := by
      intro minOut
      rw [Protocol.pulled, if_pos rfl]
      rfl
    exact .approveAnd (hpulled _)

/-- A harvest is a claim and a sale. -/
theorem settled_harvestSome (h : p.harvestSome owner pool target amount l = .ok calls) :
    (Protocol.curve p).Settled pool calls := by
  unfold harvestSome at h
  obtain ⟨reward, -, h⟩ := bind_eq_ok.1 h
  cases reward with
  | none =>
    cases h
    exact .nil
  | some reward =>
    obtain ⟨unclaimed, -, h⟩ := bind_eq_ok.1 h
    obtain ⟨claims, hclaims, h⟩ := bind_eq_ok.1 h
    cases h
    exact (settled_claim hclaims).append (settled_swap reward owner)

/-- Harvesting everything is harvesting as much as there is. -/
theorem settled_harvestAll (h : p.harvestAll owner pool target l = .ok calls) :
    (Protocol.curve p).Settled pool calls := by
  unfold harvestAll at h
  obtain ⟨reward, -, h⟩ := bind_eq_ok.1 h
  cases reward with
  | none =>
    cases h
    exact .nil
  | some reward =>
    obtain ⟨unclaimed, -, h⟩ := bind_eq_ok.1 h
    exact settled_harvestSome h

end CurveProtocol

namespace Protocol

variable {p : Protocol} {owner asset pool : Address} {amount : Amount} {caps : DepositCaps}
  {l : Ledger} {calls : List Instruction}

/-- Deposits of every family are settled. -/
theorem settled_deposit (h : p.deposit owner asset pool amount l = .ok calls) :
    p.Settled pool calls := by
  cases p with
  | vault p => exact p.settled_deposit h
  | lending p => exact p.settled_deposit h
  | curve p => exact p.settled_deposit h

/-- A deposit that is clamped to the caps is settled. -/
theorem settled_depositSome (h : p.depositSome owner asset pool amount caps l = .ok calls) :
    p.Settled pool calls := by
  obtain ⟨receipt, -, h⟩ := bind_eq_ok.1 h
  obtain ⟨admitted, -, h⟩ := bind_eq_ok.1 h
  exact settled_deposit h

/-- Withdrawals of every family are settled. -/
theorem settled_withdrawAll (h : p.withdrawAll owner asset pool l = .ok calls) :
    p.Settled pool calls := by
  obtain ⟨receipts, -, h⟩ := bind_eq_ok.1 h
  cases p with
  | vault p => exact p.settled_withdraw h
  | lending p => exact p.settled_withdraw h
  | curve p => exact p.settled_withdraw h

end Protocol

/-! ## Groups and plans -/

/-- **Every job makes a settled group**, whatever the overlay holds. -/
theorem Job.settled_of_run {owner : Address} {j : Job} {o o' : Overlay} {g : Group}
    (hsingle : j.leg.bound.adapter.Single) (h : j.run owner o = .ok (o', [g])) :
    g.pool = j.leg.pool ∧ j.leg.base.Settled j.leg.pool g.instructions := by
  obtain ⟨l, task⟩ := j
  cases task with
  | deposit requested =>
    obtain ⟨_, _, _, calls, -, -, -, hcalls, -, hg⟩ := Leg.deposit_eq_ok h
    cases hg
    exact ⟨rfl, Protocol.settled_depositSome hcalls⟩
  | borrow =>
    obtain ⟨lender, _, calls, hlender, -, hcalls, -, hg⟩ := Leg.borrow_eq_ok h
    cases hg
    have hbase : l.base = .lending lender := hsingle.lending lender hlender
    refine ⟨rfl, ?_⟩
    rw [hbase]
    exact lender.settled_borrowAll hcalls
  | stake =>
    obtain ⟨stakeable, _, _, calls, hstakeable, -, -, hcalls, -, hg⟩ := Leg.stake_eq_ok h
    cases hg
    have hbase : l.base = .curve stakeable := hsingle.staking stakeable hstakeable
    obtain ⟨receipt, -, hcalls⟩ := bind_eq_ok.1 hcalls
    refine ⟨rfl, ?_⟩
    rw [hbase]
    exact stakeable.settled_stake hcalls
  | repay =>
    obtain ⟨lender, _, calls, hlender, -, hcalls, -, hg⟩ := Leg.repay_eq_ok h
    cases hg
    have hbase : l.base = .lending lender := hsingle.lending lender hlender
    refine ⟨rfl, ?_⟩
    rw [hbase]
    exact lender.settled_repayAll hcalls
  | withdraw =>
    obtain ⟨_, _, _, calls, -, -, -, hcalls, -, hg⟩ := Leg.withdraw_eq_ok h
    cases hg
    exact ⟨rfl, Protocol.settled_withdrawAll hcalls⟩
  | unstakeAndWithdraw =>
    obtain ⟨_, stakeable, _, _, _, _, calls, -, hstakeable, -, -, -, -, hcalls, -, hg⟩ :=
      Leg.unstakeAndWithdraw_eq_ok h
    cases hg
    have hbase : l.base = .curve stakeable := hsingle.staking stakeable hstakeable
    refine ⟨rfl, ?_⟩
    rw [hbase]
    exact stakeable.settled_unstakeAndWithdrawAll hcalls

/-- The source of a leg's rewards is the protocol of its pool. -/
theorem Leg.base_of_rewardSource {x : Leg} {p : CurveProtocol} (hsingle : x.bound.adapter.Single)
    (h : x.rewardSource? = .ok (some p)) : x.base = .curve p := by
  unfold rewardSource? at h
  cases hrewards : x.bound.adapter.rewards with
  | none =>
    rw [hrewards] at h
    cases h
  | some q =>
    rw [hrewards] at h
    have hattached : x.bound.adapter.rewarding = .ok q := by
      rw [Adapter.rewarding, hrewards]
      rfl
    have hbase : x.base = .curve q := hsingle.rewards q hattached
    obtain ⟨reward, -, h⟩ := bind_eq_ok.1 h
    cases reward with
    | none => cases h
    | some token =>
      cases h
      exact hbase

/-- The calls of every request for rewards are settled. -/
theorem RewardRequest.settled_calls {q : RewardRequest} {p : CurveProtocol}
    {owner pool target : Address} {l : Ledger} {calls : List Instruction}
    (h : q.calls p owner pool target l = .ok calls) : (Protocol.curve p).Settled pool calls := by
  cases q with
  | claim => exact p.settled_claim h
  | harvestAll => exact p.settled_harvestAll h
  | harvestSome amount => exact p.settled_harvestSome h

/-- The group of the rewards is settled. -/
theorem settled_of_rewardGroups {owner target : Address} {q : RewardRequest} {route : List Leg}
    {l : Ledger} {groups : List Group} (hsingle : ∀ x ∈ route, x.bound.adapter.Single)
    (h : rewardGroups owner target q route l = .ok groups) :
    ∀ g ∈ groups, ∃ x ∈ route, g.pool = x.pool ∧ x.base.Settled x.pool g.instructions := by
  intro g hg
  unfold rewardGroups at h
  cases htop : route.getLast? with
  | none =>
    rw [htop] at h
    cases h
    cases hg
  | some top =>
    simp only [htop] at h
    obtain ⟨source, hsource, h⟩ := bind_eq_ok.1 h
    cases source with
    | none =>
      cases h
      cases hg
    | some p =>
      obtain ⟨calls, hcalls, h⟩ := bind_eq_ok.1 h
      cases h
      rw [List.mem_singleton.1 hg]
      have hmem : top ∈ route := List.mem_of_getLast? htop
      refine ⟨top, hmem, rfl, ?_⟩
      rw [Leg.base_of_rewardSource (hsingle top hmem) hsource]
      exact q.settled_calls hcalls

namespace Registry

variable {r : Registry} {owner : Address} {l : Ledger} {plan : Plan}

/-- A plan of some operation: a move of a position, or a request for rewards. -/
def Compiles (r : Registry) (owner : Address) (l : Ledger) (plan : Plan) : Prop :=
  (∃ m, r.compile owner l m = .ok plan) ∨
    ∃ hash q, r.compileRewards owner hash q l = .ok plan

/-- The groups of a move are settled. -/
theorem settled_of_compile (hr : r.Single) {m : Move} (h : r.compile owner l m = .ok plan) :
    ∀ g ∈ plan.groups, ∃ bound, r.binding? g.pool = some bound ∧
      bound.adapter.base.Settled g.pool g.instructions := by
  obtain ⟨jobs, es, o, hjobs, htrace, rfl, hgroups⟩ := trace_of_compile h
  intro g hg
  rw [← hgroups] at hg
  obtain ⟨e, he, rfl⟩ := List.mem_map.1 hg
  obtain ⟨hleg, -, -⟩ := mem_schedule hjobs (List.mem_map_of_mem he)
  have hsingle : e.job.leg.bound.adapter.Single := hr _ _ hleg.binding
  obtain ⟨hpool, hsettled⟩ := Job.settled_of_run hsingle (htrace.run_eq e he)
  rw [hpool]
  exact ⟨e.job.leg.bound, hleg.binding, hsettled⟩

/-- The groups of a request for rewards are settled. -/
theorem settled_of_compileRewards (hr : r.Single) {hash : Digest} {q : RewardRequest}
    (h : r.compileRewards owner hash q l = .ok plan) :
    ∀ g ∈ plan.groups, ∃ bound, r.binding? g.pool = some bound ∧
      bound.adapter.base.Settled g.pool g.instructions := by
  obtain ⟨s, -, h⟩ := bind_eq_ok.1 h
  obtain ⟨route, hroute, h⟩ := bind_eq_ok.1 h
  obtain ⟨groups, hgroups, h⟩ := bind_eq_ok.1 h
  cases h
  intro g hg
  have hresolved := resolved_of_route hroute
  have hsingle : ∀ x ∈ route, x.bound.adapter.Single :=
    fun x hx => hr _ _ (hresolved x hx).binding
  obtain ⟨x, hx, hpool, hsettled⟩ := settled_of_rewardGroups hsingle hgroups g hg
  rw [hpool]
  exact ⟨x.bound, (hresolved x hx).binding, hsettled⟩

end Registry

/-- **No plan leaves an allowance standing.** In every group of every plan, whatever the operation,
the owner, the amounts and the ledger are, each approval is of some amount and is spent at once, to
the unit, by the call behind it, and every deposit, repayment, stake and swap spends the approval in
front of it. No call but a claim is about nothing, and no call carries native value. -/
theorem no_standing_allowance (r : Registry) (hr : r.Single) (owner : Address) (l : Ledger)
    (plan : Plan) (h : r.Compiles owner l plan) :
    ∀ g ∈ plan.groups, ∃ bound, r.binding? g.pool = some bound ∧
      bound.adapter.base.Covers g.pool g.instructions := by
  intro g hg
  have hsettled : ∃ bound, r.binding? g.pool = some bound ∧
      bound.adapter.base.Settled g.pool g.instructions := by
    rcases h with ⟨m, h⟩ | ⟨hash, q, h⟩
    · exact Registry.settled_of_compile hr h g hg
    · exact Registry.settled_of_compileRewards hr h g hg
  obtain ⟨bound, hbound, hsettled⟩ := hsettled
  exact ⟨bound, hbound, hsettled.covers⟩

namespace Leveraged

/-- The deposit of the leveraged position leaves no allowance in its four groups. -/
theorem deposit_spends_allowances :
    registry.Single ∧ ∃ plan, registry.Compiles owner snapshot.ledger plan ∧
      plan.groups.map (fun g => g.instructions.map (·.action)) =
        [[.approve, .deposit], [.borrow], [.approve, .deposit], [.approve, .stake]] ∧
      ∀ g ∈ plan.groups, ∃ bound, registry.binding? g.pool = some bound ∧
        bound.adapter.base.Covers g.pool g.instructions := by
  obtain ⟨p, hp, hactions⟩ : ∃ p, enterRoute owner none route (.ofLedger snapshot.ledger) = .ok p ∧
      p.2.map (fun g => g.instructions.map (·.action)) =
        [[.approve, .deposit], [.borrow], [.approve, .deposit], [.approve, .stake]] :=
    ⟨_, rfl, rfl⟩
  have hplan : registry.compile owner snapshot.ledger (.depositAll strategy.hash) =
      .ok ⟨strategy.hash, .depositAll, p.2⟩ := by
    rw [Registry.compile, Registry.depositAll, Registry.compileDeposit, strategy_eq, ok_bind,
      route_eq, ok_bind, hp]
    rfl
  have hcompiles : registry.Compiles owner snapshot.ledger ⟨strategy.hash, .depositAll, p.2⟩ :=
    .inl ⟨.depositAll strategy.hash, hplan⟩
  exact ⟨single, _, hcompiles, hactions,
    no_standing_allowance registry single owner snapshot.ledger _ hcompiles⟩

end Leveraged

end VaultKeeper
