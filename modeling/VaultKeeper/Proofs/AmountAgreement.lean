import VaultKeeper.Proofs.Admission
import VaultKeeper.Proofs.Balances
import VaultKeeper.Proofs.Calldata
import VaultKeeper.Proofs.Moves

/-! # Agreement of calldata and simulation

While a plan is compiled, every amount is computed twice: the protocol that writes the calls
computes it for the calldata, and the compiler computes it for the overlay that the next step is
planned on. Both agree in every group of every plan, for all families of protocols and in both
directions. The amounts are read from the bytes of the calls, and each change of the overlay takes
no more than the balance it is taken from. Only a requested deposit may exceed the balance. -/

namespace VaultKeeper

/-! ## Where the amounts stand -/

namespace Protocol

/-- The argument word that holds the amount of an action. Lending markets name the asset first, a
curve pool takes one amount for each coin, and an approval names the spender first. -/
def amountWord (p : Protocol) (asset pool : Address) (a : Action) : Nat :=
  match p, a with
  | .curve p, .deposit =>
    match p.coinIndex asset pool with
    | .ok i => i
    | .error _ => 0
  | _, .approve | .lending _, _ => 1
  | _, _ => 0

/-- The argument words of a deposit that hold the amounts of other coins. -/
def idleWords (p : Protocol) (asset pool : Address) : List Nat :=
  match p with
  | .curve p =>
    match p.pool pool with
    | .ok c => (List.range c.coins.length).filter
        (· ≠ (Protocol.curve p).amountWord asset pool .deposit)
    | .error _ => []
  | .vault _ | .lending _ => []

end Protocol

/-! ## The amounts that protocols encode -/

namespace CurveProtocol

variable {p : CurveProtocol} {asset pool : Address} {amount : Amount} {l : Ledger}
  {calls : List Instruction}

/-- The index of a coin is a place in the list of coins. -/
theorem coinIndex_lt {index : Nat} {c : CurvePool} (hindex : p.coinIndex asset pool = .ok index)
    (hc : p.pool pool = .ok c) : index < c.coins.length := by
  simp only [coinIndex, hc, ok_bind] at hindex
  cases hfound : c.coins.idxOf? asset with
  | none =>
    rw [hfound] at hindex
    cases hindex
  | some i =>
    rw [hfound] at hindex
    cases hindex
    obtain ⟨hi, -⟩ := List.idxOf?_eq_some_iff.1 hfound
    exact hi

/-- The gauge of a pool is the configured one. -/
theorem gauge_eq_ok {c : CurvePool} {gauge : Address} (hc : p.pool pool = .ok c)
    (h : p.gauge pool = .ok gauge) : c.gauge = some gauge := by
  rw [CurveProtocol.gauge, hc, ok_bind] at h
  cases hg : c.gauge with
  | none =>
    rw [hg] at h
    cases h
  | some g =>
    rw [hg] at h
    cases h
    rfl

/-- The staked receipts of an owner are the balance of the gauge. -/
theorem staked_eq_ok {owner gauge : Address} {staked : Amount} (hgauge : p.gauge pool = .ok gauge)
    (h : p.staked owner pool l = .ok staked) : staked = l.balance gauge owner := by
  rw [CurveProtocol.staked, hgauge, ok_bind] at h
  cases h
  rfl

/-- The calls that add one coin. -/
theorem deposit_eq_ok {index : Nat} (hindex : p.coinIndex asset pool = .ok index)
    (h : p.deposit asset pool amount l = .ok calls) :
    amount = 0 ∧ calls = [] ∨ amount ≠ 0 ∧ ∃ c minMint, p.pool pool = .ok c ∧
      calls = [(Call.approve pool amount).sentTo asset,
        (Call.addLiquidity ((c.coins.map fun _ => (0 : Amount)).set index amount) minMint).sentTo
          pool] := by
  simp only [deposit, hindex, ok_bind] at h
  by_cases hzero : amount = 0
  · rw [if_pos hzero] at h
    cases h
    exact .inl ⟨hzero, rfl⟩
  · rw [if_neg hzero] at h
    simp only [bind_eq_ok, pure_eq_ok, Except.ok.injEq] at h
    obtain ⟨c, hc, minted, -, -, -, rfl⟩ := h
    exact .inr ⟨hzero, c, _, hc, rfl⟩

/-- Every coin but the deposited one is added in the amount zero. -/
theorem asks_addLiquidity {coins : List Address} {index i : Nat} (hi : i < coins.length)
    (amount minMint : Amount) :
    (Call.addLiquidity ((coins.map fun _ => (0 : Amount)).set index amount) minMint).Asks
      .deposit i (if i = index then amount else 0) := by
  have hlength : i < ((coins.map fun _ => (0 : Amount)).set index amount).length := by
    simpa using hi
  refine ⟨rfl, ?_⟩
  rw [Call.arguments, List.getElem?_append_left (by simpa using hi), List.getElem?_map,
    List.getElem?_eq_getElem hlength, List.getElem_set]
  by_cases h : i = index
  · rw [if_pos h.symm, if_pos h]
    rfl
  · rw [if_neg (fun h' => h h'.symm), if_neg h]
    simp

/-- The calls that exchange a coin approve and swap. -/
theorem action_exchange {source target : Nat} {coin : Address} {x : Instruction}
    (hx : x ∈ p.exchange pool source target coin asset amount l) :
    x.action = .approve ∨ x.action = .swap := by
  unfold exchange at hx
  split at hx
  · cases hx
  · rcases List.mem_cons.1 hx with rfl | hx
    · exact .inl rfl
    · rw [List.mem_singleton.1 hx]
      exact .inr rfl

/-- Exchanges of any number of coins ask for nothing but approvals and swaps. -/
theorem encodedAmount_exchanges {β : Type} {xs : List β} {f : β → List Instruction} {i : Nat}
    {a : Action} (hf : ∀ y, ∀ x ∈ f y, x.action = .approve ∨ x.action = .swap)
    (happrove : a ≠ .approve) (hswap : a ≠ .swap) : encodedAmount i a (xs.flatMap f) = 0 := by
  refine encodedAmount_eq_zero fun x hx => ?_
  obtain ⟨y, -, hy⟩ := List.mem_flatMap.1 hx
  rcases hf y x hy with hx | hx
  · exact hx ▸ happrove.symm
  · exact hx ▸ hswap.symm

/-- A redemption asks for the redeemed receipts, and takes nothing out of a gauge. -/
theorem encodedAmount_withdraw (h : p.withdraw asset pool amount l = .ok calls) :
    encodedAmount 0 .withdraw calls = amount.toNat ∧ encodedAmount 0 .unstake calls = 0 := by
  unfold withdraw at h
  obtain ⟨target, -, h⟩ := bind_eq_ok.1 h
  by_cases hzero : amount = 0
  · rw [if_pos hzero] at h
    cases h
    rw [hzero]
    exact ⟨rfl, rfl⟩
  rw [if_neg hzero] at h
  obtain ⟨c, -, h⟩ := bind_eq_ok.1 h
  obtain ⟨_, -, h⟩ := bind_eq_ok.1 h
  cases h
  -- Behind the redemption there are only exchanges of the other coins.
  have hcall : ∀ shares, (Call.removeLiquidity amount shares).Asks .withdraw 0 amount :=
    fun _ => ⟨rfl, rfl⟩
  constructor
  · rw [encodedAmount_cons (hcall _), encodedAmount_exchanges (fun _ _ => action_exchange)
      Action.noConfusion Action.noConfusion, Nat.add_zero]
  · rw [encodedAmount_cons_of_ne Action.noConfusion, encodedAmount_exchanges
      (fun _ _ => action_exchange) Action.noConfusion Action.noConfusion]

/-- A stake asks for the staked receipts, and so does its approval. -/
theorem encodedAmount_stake (h : p.stake pool amount = .ok calls) :
    encodedAmount 0 .stake calls = amount.toNat ∧
      encodedAmount 1 .approve calls = amount.toNat := by
  unfold stake at h
  obtain ⟨gauge, -, h⟩ := bind_eq_ok.1 h
  obtain ⟨c, -, h⟩ := bind_eq_ok.1 h
  cases h
  have hcall : (Call.stake amount).Asks .stake 0 amount := ⟨rfl, rfl⟩
  exact encodedAmount_approveAnd hcall (by decide) _ _ _

/-- Taking staked receipts out asks for them, and redeems nothing. -/
theorem encodedAmount_unstake (h : p.unstake pool amount = .ok calls) :
    encodedAmount 0 .unstake calls = amount.toNat ∧ encodedAmount 0 .withdraw calls = 0 := by
  unfold unstake at h
  obtain ⟨gauge, -, h⟩ := bind_eq_ok.1 h
  cases h
  have hcall : (Call.unstake amount).Asks .unstake 0 amount := ⟨rfl, rfl⟩
  refine ⟨encodedAmount_unless_zero hcall _, encodedAmount_eq_zero fun x hx => ?_⟩
  split at hx
  · cases hx
  · rw [List.mem_singleton.1 hx]
    exact Action.noConfusion

end CurveProtocol

namespace LendingProtocol

variable {p : LendingProtocol} {owner asset pool borrowed : Address} {l : Ledger}
  {calls : List Instruction}

/-- A loan asks for the remaining capacity. -/
theorem encodedAmount_borrowAll {amount : Amount}
    (hamount : p.borrowCapacity owner asset pool borrowed l = .ok amount)
    (h : p.borrowAll owner asset pool borrowed l = .ok calls) :
    encodedAmount 1 .borrow calls = amount.toNat := by
  rw [borrowAll, hamount, ok_bind] at h
  cases h
  have hcall : (Call.borrow borrowed amount owner).Asks .borrow 1 amount := ⟨rfl, rfl⟩
  exact encodedAmount_unless_zero hcall _

/-- A repayment asks for what the balance covers, and so does its approval. -/
theorem encodedAmount_repayAll (h : p.repayAll owner pool borrowed l = .ok calls) :
    encodedAmount 1 .repay calls = (repayable owner pool borrowed l).toNat ∧
      encodedAmount 1 .approve calls = (repayable owner pool borrowed l).toNat := by
  unfold repayAll at h
  obtain ⟨_, -, h⟩ := bind_eq_ok.1 h
  cases h
  have hcall : (Call.repay borrowed (repayable owner pool borrowed l) owner).Asks .repay 1
      (repayable owner pool borrowed l) := ⟨rfl, rfl⟩
  exact encodedAmount_approveAnd hcall (by decide) _ _ _

end LendingProtocol

namespace Protocol

variable {p : Protocol} {owner asset pool : Address} {amount : Amount} {l : Ledger}
  {calls : List Instruction}

/-- **What a deposit encodes.** The amount of the asset, an approval of the same amount, and nothing
for other coins. -/
theorem encodedAmount_deposit (h : p.deposit owner asset pool amount l = .ok calls) :
    encodedAmount (p.amountWord asset pool .deposit) .deposit calls = amount.toNat ∧
      encodedAmount (p.amountWord asset pool .approve) .approve calls = amount.toNat ∧
      ∀ i ∈ p.idleWords asset pool, encodedAmount i .deposit calls = 0 := by
  cases p with
  | vault p =>
    obtain ⟨_, -, h⟩ := bind_eq_ok.1 h
    cases h
    have hcall : (Call.depositAssets amount owner).Asks .deposit 0 amount := ⟨rfl, rfl⟩
    obtain ⟨hdeposit, happrove⟩ := encodedAmount_approveAnd hcall (by decide) asset pool pool
    exact ⟨hdeposit, happrove, fun i hi => absurd hi List.not_mem_nil⟩
  | lending p =>
    obtain ⟨_, -, h⟩ := bind_eq_ok.1 h
    cases h
    have hcall : (Call.supply asset amount owner).Asks .deposit 1 amount := ⟨rfl, rfl⟩
    obtain ⟨hdeposit, happrove⟩ := encodedAmount_approveAnd hcall (by decide) asset pool pool
    exact ⟨hdeposit, happrove, fun i hi => absurd hi List.not_mem_nil⟩
  | curve p =>
    obtain ⟨index, hindex, -⟩ := bind_eq_ok.1 h
    have hword : (Protocol.curve p).amountWord asset pool .deposit = index := by
      simp only [amountWord, hindex]
    rcases p.deposit_eq_ok hindex h with ⟨rfl, rfl⟩ | ⟨-, c, minMint, hc, rfl⟩
    · exact ⟨rfl, rfl, fun i _ => rfl⟩
    -- The call names every coin of the pool, also those that are not deposited.
    have hcall : ∀ {i}, i < c.coins.length → encodedAmount i .deposit
        [(Call.approve pool amount).sentTo asset, (Call.addLiquidity
          ((c.coins.map fun _ => (0 : Amount)).set index amount) minMint).sentTo pool] =
        (if i = index then amount else 0).toNat := by
      intro i hi
      rw [encodedAmount_cons_of_ne Action.noConfusion,
        encodedAmount_cons (CurveProtocol.asks_addLiquidity hi amount minMint)]
      rfl
    refine ⟨?_, ?_, fun i hi => ?_⟩
    · rw [hword, hcall (CurveProtocol.coinIndex_lt hindex hc), if_pos rfl]
    · rw [show (Protocol.curve p).amountWord asset pool .approve = 1 from rfl,
        encodedAmount_cons (Call.asks_approve pool amount),
        encodedAmount_cons_of_ne Action.noConfusion]
      rfl
    · simp only [idleWords, hc, hword, List.mem_filter, List.mem_range, decide_eq_true_eq] at hi
      rw [hcall hi.1, if_neg hi.2]
      rfl

/-- What a redemption encodes. -/
theorem encodedAmount_withdrawSome (h : p.withdrawSome owner asset pool amount l = .ok calls) :
    encodedAmount (p.amountWord asset pool .withdraw) .withdraw calls = amount.toNat := by
  cases p with
  | vault p =>
    obtain ⟨_, -, h⟩ := bind_eq_ok.1 h
    cases h
    have hcall : (Call.redeemShares amount owner owner).Asks .withdraw 0 amount := ⟨rfl, rfl⟩
    exact encodedAmount_unless_zero hcall _
  | lending p =>
    obtain ⟨_, -, h⟩ := bind_eq_ok.1 h
    cases h
    have hcall : (Call.withdraw asset amount owner).Asks .withdraw 1 amount := ⟨rfl, rfl⟩
    exact encodedAmount_unless_zero hcall _
  | curve p => exact (p.encodedAmount_withdraw h).1

/-- The receipts of an owner are the balance of the receipt token. -/
theorem receiptBalance_eq_ok {receipt : Address} {receipts : Amount}
    (hreceipt : p.receipt asset pool = .ok receipt)
    (h : p.receiptBalance owner asset pool l = .ok receipts) :
    receipts = l.balance receipt owner := by
  rw [receiptBalance, hreceipt, ok_bind] at h
  cases h
  rfl

/-- Redeemable receipts are part of the balance of the receipt token. -/
theorem withdrawable_le {receipt : Address} {receipts : Amount}
    (hreceipt : p.receipt asset pool = .ok receipt)
    (h : p.withdrawable owner asset pool l = .ok receipts) :
    receipts ≤ l.balance receipt owner := by
  cases p with
  | vault p =>
    rw [receiptBalance_eq_ok hreceipt h]
    exact Nat.le_refl _
  | curve p =>
    rw [receiptBalance_eq_ok hreceipt h]
    exact Nat.le_refl _
  | lending p =>
    -- What secures the debt is kept back, so the rest of the balance can be redeemed.
    have hheld : p.collateral owner asset pool l = .ok (l.balance receipt owner) := by
      rw [LendingProtocol.collateral, show p.receipt asset pool = .ok receipt from hreceipt]
      rfl
    simp only [withdrawable, LendingProtocol.withdrawable, hheld, ok_bind] at h
    obtain ⟨owed, -, h⟩ := bind_eq_ok.1 h
    split at h
    · cases h
      exact Nat.zero_le _
    · cases h
      exact Nat.sub_le _ _

end Protocol

/-! ## Agreement at a leg -/

namespace Leg

/-- The amount that a group of a leg asks for, to be used for an action. -/
def encoded (l : Leg) (a : Action) (g : Group) : Nat :=
  encodedAmount (l.base.amountWord l.input l.pool a) a g.instructions

/-- The deposited amount is the debit of the input, and minted receipts are credited. Nothing else
is deposited, and what is not requested is covered by the balance. A deposit above the balance
leaves nothing of it. -/
def DepositAgrees (l : Leg) (owner : Address) (requested : Option Amount) (before : Overlay)
    (g : Group) (after : Overlay) : Prop :=
  ∃ paid minted receipt, l.base.minted l.input l.pool paid before.ledger = .ok minted ∧
    l.base.receipt l.input l.pool = .ok receipt ∧
    after = (before.debit l.input owner paid).credit receipt owner minted ∧
    l.encoded .deposit g = paid.toNat ∧ l.encoded .approve g = paid.toNat ∧
    (∀ i ∈ l.base.idleWords l.input l.pool, encodedAmount i .deposit g.instructions = 0) ∧
    (requested = none → paid ≤ before.ledger.balance l.input owner) ∧
    (before.ledger.balance l.input owner < paid →
      (before.debit l.input owner paid).ledger.balance l.input owner = 0 ∧
      (l.input ≠ receipt → after.ledger.balance l.input owner = 0))

/-- The borrowed amount is the credit of the output and the added debt. -/
def BorrowAgrees (l : Leg) (owner : Address) (before : Overlay) (g : Group) (after : Overlay) :
    Prop :=
  ∃ borrowed,
    after = (before.credit l.output owner borrowed).addDebt l.pool l.output owner borrowed ∧
    l.encoded .borrow g = borrowed.toNat

/-- The staked amount is the debit of the receipt token, whose whole balance it is, and the credit
of the staking token. -/
def StakeAgrees (l : Leg) (owner : Address) (before : Overlay) (g : Group) (after : Overlay) :
    Prop :=
  ∃ staked stakeable gauge, l.base.receipt l.input l.pool = .ok l.output ∧
    l.bound.adapter.stakeable = .ok stakeable ∧ stakeable.gauge l.pool = .ok gauge ∧
    after = (before.debit l.output owner staked).credit gauge owner staked ∧
    l.encoded .stake g = staked.toNat ∧ l.encoded .approve g = staked.toNat ∧
    staked = before.ledger.balance l.output owner

/-- The repaid amount is the debit of the borrowed asset and the reduction of the debt, both of
which cover it. -/
def RepayAgrees (l : Leg) (owner : Address) (before : Overlay) (g : Group) (after : Overlay) :
    Prop :=
  ∃ repaid,
    after = (before.debit l.output owner repaid).reduceDebt l.pool l.output owner repaid ∧
    l.encoded .repay g = repaid.toNat ∧ l.encoded .approve g = repaid.toNat ∧
    repaid ≤ before.ledger.balance l.output owner ∧
    repaid ≤ before.ledger.debt l.pool l.output owner

/-- The redeemed amount is the debit of the receipt token, whose balance covers it. -/
def WithdrawAgrees (l : Leg) (owner : Address) (before : Overlay) (g : Group) (after : Overlay) :
    Prop :=
  ∃ receipts redeemed receipt, l.base.receipt l.input l.pool = .ok receipt ∧
    l.base.redeemed l.input l.pool receipts before.ledger = .ok redeemed ∧
    after = (before.debit receipt owner receipts).credit l.input owner redeemed ∧
    l.encoded .withdraw g = receipts.toNat ∧
    receipts ≤ before.ledger.balance receipt owner

/-- The unstaked amount is the debit of the staking token, and the redeemed amount is the sum of it
and the debit of the receipt token; both are whole balances. -/
def UnstakeAgrees (l : Leg) (owner : Address) (before : Overlay) (g : Group) (after : Overlay) :
    Prop :=
  ∃ staked loose redeemed receipt stakeable gauge, l.base.receipt l.input l.pool = .ok receipt ∧
    l.bound.adapter.stakeable = .ok stakeable ∧ stakeable.gauge l.pool = .ok gauge ∧
    l.base.redeemed l.input l.pool (staked.addSat loose) before.ledger = .ok redeemed ∧
    after = ((before.debit gauge owner staked).debit receipt owner loose).credit l.input owner
      redeemed ∧
    l.encoded .unstake g = staked.toNat ∧ l.encoded .withdraw g = (staked.addSat loose).toNat ∧
    staked = before.ledger.balance gauge owner ∧
    loose = (before.debit gauge owner staked).ledger.balance receipt owner

variable {l : Leg} {owner : Address} {o o' : Overlay} {g : Group}

/-- A deposit agrees. -/
theorem depositAgrees {requested : Option Amount}
    (h : l.deposit owner (requested.getD (o.ledger.balance l.input owner)) o = .ok (o', [g])) :
    l.DepositAgrees owner requested o g o' := by
  obtain ⟨paid, minted, receipt, calls, hpaid, hminted, hreceipt, hcalls, rfl, hg⟩ :=
    deposit_eq_ok h
  cases hg
  obtain ⟨_, -, hcalls⟩ := bind_eq_ok.1 hcalls
  rw [hpaid, ok_bind] at hcalls
  obtain ⟨hdeposit, happrove, hidle⟩ := Protocol.encodedAmount_deposit hcalls
  refine ⟨paid, minted, receipt, hminted, hreceipt, rfl, hdeposit, happrove, hidle, ?_, ?_⟩
  · rintro rfl
    exact Protocol.depositAmount_le hpaid
  · intro hexcess
    have hempty := Overlay.balance_debit_eq_zero (Nat.le_of_lt hexcess)
    refine ⟨hempty, fun hne => ?_⟩
    rw [Overlay.balance_credit_of_ne _ _ (.inl hne)]
    exact hempty

/-- A loan agrees. -/
theorem borrowAgrees (hsingle : l.bound.adapter.Single)
    (h : l.borrow owner o = .ok (o', [g])) : l.BorrowAgrees owner o g o' := by
  obtain ⟨lender, borrowed, calls, hlender, hborrowed, hcalls, rfl, hg⟩ := borrow_eq_ok h
  cases hg
  refine ⟨borrowed, rfl, ?_⟩
  have hbase : l.base = .lending lender := hsingle.lending lender hlender
  rw [encoded, hbase]
  exact LendingProtocol.encodedAmount_borrowAll hborrowed hcalls

/-- A stake agrees. -/
theorem stakeAgrees (hsingle : l.bound.adapter.Single)
    (hreceipt : l.base.receipt l.input l.pool = .ok l.output)
    (h : l.stake owner o = .ok (o', [g])) : l.StakeAgrees owner o g o' := by
  obtain ⟨stakeable, gauge, staked, calls, hstakeable, hgauge, hstaked, hcalls, rfl, hg⟩ :=
    stake_eq_ok h
  cases hg
  have hbase : l.base = .curve stakeable := hsingle.staking stakeable hstakeable
  have hbalance := Protocol.receiptBalance_eq_ok hreceipt hstaked
  have hsame : stakeable.receipt l.input l.pool = .ok l.output := by
    rw [hbase] at hreceipt
    exact hreceipt
  rw [CurveProtocol.stakeAll, hsame, ok_bind, ← hbalance] at hcalls
  obtain ⟨hstake, happrove⟩ := CurveProtocol.encodedAmount_stake hcalls
  refine ⟨staked, stakeable, gauge, hreceipt, hstakeable, hgauge, rfl, ?_, ?_, hbalance⟩
  · rw [encoded, hbase]
    exact hstake
  · rw [encoded, hbase]
    exact happrove

/-- A repayment agrees. -/
theorem repayAgrees (hsingle : l.bound.adapter.Single)
    (h : l.repay owner o = .ok (o', [g])) : l.RepayAgrees owner o g o' := by
  obtain ⟨lender, repaid, calls, hlender, rfl, hcalls, rfl, hg⟩ := repay_eq_ok h
  cases hg
  obtain ⟨hrepay, happrove⟩ := LendingProtocol.encodedAmount_repayAll hcalls
  have hbase : l.base = .lending lender := hsingle.lending lender hlender
  refine ⟨_, rfl, ?_, ?_, ?_, ?_⟩
  · rw [encoded, hbase]
    exact hrepay
  · rw [encoded, hbase]
    exact happrove
  · rw [LendingProtocol.repayable, Amount.le_def, Amount.toNat_min]
    exact Nat.min_le_right _ _
  · rw [LendingProtocol.repayable, Amount.le_def, Amount.toNat_min]
    exact Nat.min_le_left _ _

/-- A withdrawal agrees. -/
theorem withdrawAgrees (h : l.withdraw owner o = .ok (o', [g])) :
    l.WithdrawAgrees owner o g o' := by
  obtain ⟨receipt, receipts, redeemed, calls, hreceipt, hreceipts, hredeemed, hcalls, rfl, hg⟩ :=
    withdraw_eq_ok h
  cases hg
  rw [Protocol.withdrawAll, hreceipts, ok_bind] at hcalls
  exact ⟨receipts, redeemed, receipt, hreceipt, hredeemed, rfl,
    Protocol.encodedAmount_withdrawSome hcalls, Protocol.withdrawable_le hreceipt hreceipts⟩

/-- Leaving a staked position agrees. -/
theorem unstakeAgrees (hsingle : l.bound.adapter.Single)
    (hne : ∀ p c gauge, l.base = .curve p → p.pool l.pool = .ok c → c.gauge = some gauge →
      gauge ≠ c.receipt)
    (h : l.unstakeAndWithdraw owner o = .ok (o', [g])) : l.UnstakeAgrees owner o g o' := by
  obtain ⟨receipt, stakeable, gauge, staked, loose, redeemed, calls, hreceipt, hstakeable, hgauge,
    hstaked, hloose, hredeemed, hcalls, rfl, hg⟩ := unstakeAndWithdraw_eq_ok h
  cases hg
  have hbase : l.base = .curve stakeable := hsingle.staking stakeable hstakeable
  have hsame : stakeable.receipt l.input l.pool = .ok receipt := by
    rw [hbase] at hreceipt
    exact hreceipt
  obtain ⟨c, hc, hcreceipt⟩ := CurveProtocol.pool_of_receipt hsame
  -- The first debit is of the gauge, so the loose receipts are still there for the second one.
  have hother : gauge ≠ receipt :=
    hcreceipt ▸ hne stakeable c gauge hbase hc (CurveProtocol.gauge_eq_ok hc hgauge)
  have hbalance := CurveProtocol.staked_eq_ok hgauge hstaked
  have hrest := Protocol.receiptBalance_eq_ok hreceipt hloose
  rw [CurveProtocol.unstakeAndWithdrawAll, hstaked, ok_bind, hsame, ok_bind, ← hrest] at hcalls
  obtain ⟨unstakes, hunstakes, hcalls⟩ := bind_eq_ok.1 hcalls
  obtain ⟨withdrawals, hwithdrawals, hcalls⟩ := bind_eq_ok.1 hcalls
  cases hcalls
  -- Each of the two parts asks for one of the amounts and for nothing of the other.
  obtain ⟨hunstake, hnone⟩ := CurveProtocol.encodedAmount_unstake hunstakes
  obtain ⟨hwithdraw, hneither⟩ := CurveProtocol.encodedAmount_withdraw hwithdrawals
  refine ⟨staked, loose, redeemed, receipt, stakeable, gauge, hreceipt, hstakeable, hgauge,
    hredeemed, rfl, ?_, ?_, hbalance, ?_⟩
  · rw [encoded, hbase]
    calc encodedAmount 0 .unstake (unstakes ++ withdrawals)
        = staked.toNat + 0 := by rw [encodedAmount_append, hunstake, hneither]
      _ = staked.toNat := Nat.add_zero _
  · rw [encoded, hbase]
    calc encodedAmount 0 .withdraw (unstakes ++ withdrawals)
        = 0 + (staked.addSat loose).toNat := by rw [encodedAmount_append, hnone, hwithdraw]
      _ = (staked.addSat loose).toNat := Nat.zero_add _
  · rw [Overlay.balance_debit_of_ne o staked (.inl hother.symm)]
    exact hrest

end Leg

/-! ## Agreement of whole plans -/

/-- **The amounts that a group encodes are the changes that were made to the overlay for it.** -/
def Emission.Agrees (owner : Address) (e : Emission) : Prop :=
  match e.job.task with
  | .deposit requested => e.job.leg.DepositAgrees owner requested e.before e.group e.after
  | .borrow => e.job.leg.BorrowAgrees owner e.before e.group e.after
  | .stake => e.job.leg.StakeAgrees owner e.before e.group e.after
  | .repay => e.job.leg.RepayAgrees owner e.before e.group e.after
  | .withdraw => e.job.leg.WithdrawAgrees owner e.before e.group e.after
  | .unstakeAndWithdraw => e.job.leg.UnstakeAgrees owner e.before e.group e.after

section

variable {r : Registry} {owner : Address}

/-- Every job at a resolved leg that it suits makes a group that agrees. -/
theorem Emission.agrees_of_run (hr : r.Single) (hgauges : r.GaugesApart) {e : Emission}
    (hleg : e.job.leg.Resolved r .exit) (hsuits : e.job.Suits)
    (h : e.job.run owner e.before = .ok (e.after, [e.group])) :
    e.Agrees owner := by
  obtain ⟨⟨l, task⟩, before, g, after⟩ := e
  have hsingle : l.bound.adapter.Single := hr _ _ hleg.binding
  cases task with
  | deposit requested => exact Leg.depositAgrees h
  | borrow => exact Leg.borrowAgrees hsingle h
  | stake =>
    have hplain : l.step.isBorrow = false := Leg.isBorrow_of_stakes hsuits
    exact Leg.stakeAgrees hsingle (hleg.yields hplain) h
  | repay => exact Leg.repayAgrees hsingle h
  | withdraw => exact Leg.withdrawAgrees h
  | unstakeAndWithdraw =>
    exact Leg.unstakeAgrees hsingle (fun _ _ _ => hgauges hleg.binding) h

/-- **Calldata and simulation never disagree.** Every compiled plan comes from a run of the compiler
over the ledger, and in each of its groups the encoded amounts are the changes of the overlay. Only
the deposit of a requested amount may ask for more than the balance, of which nothing is left then.
It is enough that one protocol is behind the parts of each adapter, whichever parts there are. -/
theorem compiled_amounts_agree (r : Registry) (hr : r.Single) (hgauges : r.GaugesApart)
    (owner : Address) (l : Ledger) (m : Move) (plan : Plan) (h : r.compile owner l m = .ok plan) :
    ∃ es o, Trace owner (.ofLedger l) es o ∧ r.schedule m = .ok (es.map (·.job)) ∧
      plan.groups = es.map (·.group) ∧
      ∀ e ∈ es, e.Agrees owner ∧
        ∀ a, e.job.task = .deposit (some a) → ∃ hash, m = .depositSome hash a := by
  obtain ⟨jobs, es, o, hjobs, htrace, rfl, hgroups⟩ := Registry.trace_of_compile h
  refine ⟨es, o, htrace, hjobs, hgroups.symm, fun e he => ?_⟩
  obtain ⟨hleg, hsuits, hrequest⟩ := Registry.mem_schedule hjobs (List.mem_map_of_mem he)
  exact ⟨Emission.agrees_of_run hr hgauges hleg hsuits (htrace.run_eq e he),
    fun a ha => (hrequest (some a) ha).2 a rfl⟩

end

namespace Leveraged

/-- Both adapters are whole. -/
theorem single : registry.Single := by
  intro pool bound h
  rcases adapter_of_binding h with h | h
  · rw [h]
    exact Adapter.single_whole _
  · rw [h]
    exact Adapter.single_whole _

/-- The deposit of the leveraged position agrees in each of its groups. -/
theorem deposit_agrees :
    registry.Single ∧ registry.GaugesApart ∧ ∃ plan,
      registry.compile owner snapshot.ledger (.depositAll strategy.hash) = .ok plan ∧
      ∃ es o, Trace owner (.ofLedger snapshot.ledger) es o ∧
        registry.schedule (.depositAll strategy.hash) = .ok (es.map (·.job)) ∧
        plan.groups = es.map (·.group) ∧
        ∀ e ∈ es, e.Agrees owner ∧ ∀ a, e.job.task = .deposit (some a) →
          ∃ hash, Move.depositAll strategy.hash = .depositSome hash a := by
  obtain ⟨plan, hplan⟩ := exists_plan
  exact ⟨single, gaugesApart, plan, hplan, compiled_amounts_agree registry single gaugesApart owner
    snapshot.ledger (.depositAll strategy.hash) plan hplan⟩

end Leveraged

end VaultKeeper
