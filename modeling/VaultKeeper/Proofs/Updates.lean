import VaultKeeper.Adapter
import VaultKeeper.Proofs.Continuation

/-! # Updates that are written out

Planned steps change balances and debts in an overlay. The same changes can be written into the
snapshot underneath instead: each entry is set to what the snapshot answers, plus or minus an
amount. Nothing that is asked afterwards tells the two apart, and no adapter does.

Sums and differences saturate, so an update cannot be taken back, and the order of updates of one
entry matters. Between updates of different entries it does not. -/

namespace VaultKeeper

/-- An entry that planned steps change. -/
inductive Entry
  /-- The balance of a token that an account holds. -/
  | balance (token account : Address)
  /-- What an account owes in an asset at a lending pool. -/
  | debt (pool asset account : Address)
deriving DecidableEq

/-- A change of one entry. -/
inductive Update
  /-- Add to a balance. -/
  | credit (token account : Address) (amount : Amount)
  /-- Take from a balance. -/
  | debit (token account : Address) (amount : Amount)
  /-- Add to a debt. -/
  | addDebt (pool asset account : Address) (amount : Amount)
  /-- Take from a debt. -/
  | reduceDebt (pool asset account : Address) (amount : Amount)

namespace Update

/-- The entry that is changed. -/
def entry : Update → Entry
  | credit token account _ | debit token account _ => .balance token account
  | addDebt pool asset account _ | reduceDebt pool asset account _ => .debt pool asset account

/-- What becomes of the amount of the entry. -/
def apply : Update → Amount → Amount
  | credit _ _ amount, held | addDebt _ _ _ amount, held => held.addSat amount
  | debit _ _ amount, held | reduceDebt _ _ _ amount, held => held.subSat amount

end Update

/-- The amount of an entry. -/
def Ledger.entry (l : Ledger) : Entry → Amount
  | .balance token account => l.balance token account
  | .debt pool asset account => l.debt pool asset account

/-- An update as a planned step makes it. -/
def Overlay.update (o : Overlay) : Update → Overlay
  | .credit token account amount => o.credit token account amount
  | .debit token account amount => o.debit token account amount
  | .addDebt pool asset account amount => o.addDebt pool asset account amount
  | .reduceDebt pool asset account amount => o.reduceDebt pool asset account amount

/-- An entry that is recorded. -/
def Snapshot.write (s : Snapshot) : Entry → Amount → Snapshot
  | .balance token account, amount => s.setBalance token account amount
  | .debt pool asset account, amount => s.setDebt pool asset account amount

/-- An update that is written out: its entry is set to what becomes of the recorded amount. -/
def Snapshot.update (s : Snapshot) (u : Update) : Snapshot :=
  s.write u.entry (u.apply (s.ledger.entry u.entry))

/-! ## Replaced entries -/

namespace Ledger

/-- A ledger with one entry replaced. -/
def set (l : Ledger) : Entry → Amount → Ledger
  | .balance token account, amount => l.setBalance token account amount
  | .debt pool asset account, amount => l.setDebt pool asset account amount

variable (l : Ledger) (e : Entry) (amount : Amount)

/-- The replaced entry, and every other one. -/
theorem entry_set (e' : Entry) :
    (l.set e amount).entry e' = if e' = e then amount else l.entry e' := by
  cases e <;> cases e' <;> simp [set, entry, setBalance, setDebt]

@[simp] theorem supply_set : (l.set e amount).supply = l.supply := by cases e <;> rfl

@[simp] theorem rewards_set : (l.set e amount).rewards = l.rewards := by cases e <;> rfl

@[simp] theorem quote_set : (l.set e amount).quote = l.quote := by cases e <;> rfl

end Ledger

/-! ## States whose entries can be replaced -/

/-- Something that answers like a ledger, and whose entries can be replaced one by one. -/
structure Store (σ : Type) where
  /-- What a state answers. -/
  ledger : σ → Ledger
  /-- A state with one entry replaced. -/
  write : σ → Entry → Amount → σ
  /-- Replacing an entry replaces one answer. -/
  ledger_write : ∀ s e amount, ledger (write s e amount) = (ledger s).set e amount
  /-- Different entries are replaced in either order. -/
  write_comm : ∀ s {e e'} amount amount', e ≠ e' →
    write (write s e amount) e' amount' = write (write s e' amount') e amount

namespace Store

variable {σ τ : Type} (S : Store σ) (T : Store τ) {s : σ} {t : τ} {u v : Update}

/-- Set the entry of an update to what the update makes of it. -/
def update (s : σ) (u : Update) : σ := S.write s u.entry (u.apply ((S.ledger s).entry u.entry))

/-- The answers after an update follow from those before. -/
theorem ledger_update (s : σ) (u : Update) : S.ledger (S.update s u) =
    (S.ledger s).set u.entry (u.apply ((S.ledger s).entry u.entry)) :=
  S.ledger_write s _ _

/-- **States that answer alike still do after the same updates.** -/
theorem ledger_run (us : List Update) (h : S.ledger s = T.ledger t) :
    S.ledger (us.foldl S.update s) = T.ledger (us.foldl T.update t) := by
  induction us generalizing s t with
  | nil => exact h
  | cons u rest ih =>
    refine ih ?_
    rw [ledger_update, ledger_update, h]

/-- **An entry sees its own updates only**, in their order. -/
theorem entry_run (us : List Update) (s : σ) (e : Entry) :
    (S.ledger (us.foldl S.update s)).entry e =
      (us.filter (·.entry = e)).foldl (fun held u => u.apply held) ((S.ledger s).entry e) := by
  induction us generalizing s with
  | nil => rfl
  | cons u rest ih =>
    rw [List.foldl_cons, ih, ledger_update, Ledger.entry_set]
    by_cases h : u.entry = e
    · subst h
      rw [if_pos rfl, List.filter_cons_of_pos (by simp), List.foldl_cons]
    · rw [if_neg (Ne.symm h), List.filter_cons_of_neg (by simpa using h)]

/-- Supplies, rewards and prices are not updated. -/
theorem rest_run (us : List Update) (s : σ) :
    (S.ledger (us.foldl S.update s)).supply = (S.ledger s).supply ∧
    (S.ledger (us.foldl S.update s)).rewards = (S.ledger s).rewards ∧
    (S.ledger (us.foldl S.update s)).quote = (S.ledger s).quote := by
  induction us generalizing s with
  | nil => exact ⟨rfl, rfl, rfl⟩
  | cons u rest ih => simpa [ledger_update] using ih (S.update s u)

/-- **Updates of different entries are made in either order.** -/
theorem update_comm (s : σ) (h : u.entry ≠ v.entry) :
    S.update (S.update s u) v = S.update (S.update s v) u := by
  -- Neither update sees what the other one has written.
  have hv : (S.ledger (S.update s u)).entry v.entry = (S.ledger s).entry v.entry := by
    rw [ledger_update, Ledger.entry_set, if_neg h.symm]
  have hu : (S.ledger (S.update s v)).entry u.entry = (S.ledger s).entry u.entry := by
    rw [ledger_update, Ledger.entry_set, if_neg h]
  show S.write (S.update s u) v.entry (v.apply ((S.ledger (S.update s u)).entry v.entry)) =
    S.write (S.update s v) u.entry (u.apply ((S.ledger (S.update s v)).entry u.entry))
  rw [hv, hu]
  exact S.write_comm s _ _ h

end Store

/-! ## Overlays and snapshots -/

namespace Overlay

/-- A changed entry. -/
def write (o : Overlay) : Entry → Amount → Overlay
  | .balance token account, amount => o.setBalance token account amount
  | .debt pool asset account, amount => o.setDebt pool asset account amount

/-- Changing an entry replaces one answer. -/
theorem ledger_write (o : Overlay) (e : Entry) (amount : Amount) :
    (o.write e amount).ledger = o.ledger.set e amount := by
  cases e with
  | balance token account => exact o.ledger_setBalance token account amount
  | debt pool asset account => exact o.ledger_setDebt pool asset account amount

/-- Different entries are changed in either order. -/
theorem write_comm (o : Overlay) {e e' : Entry} (amount amount' : Amount) (h : e ≠ e') :
    (o.write e amount).write e' amount' = (o.write e' amount').write e amount := by
  -- A balance and a debt are kept in tables of their own.
  cases e <;> cases e' <;> simp only [write, setBalance, setDebt] <;> congr 1
  · exact Table.insert_comm _ _ _ (by simpa using h)
  · exact Table.insert_comm _ _ _ (by simpa using h)

/-- The changed entries of an overlay. -/
def store : Store Overlay := ⟨ledger, write, ledger_write, write_comm⟩

/-- A planned step sets one entry. -/
theorem store_update : store.update = update := by
  funext o u
  cases u <;> rfl

/-- Updates leave the ledger underneath as it is. -/
theorem base_run (us : List Update) (o : Overlay) : (us.foldl update o).base = o.base := by
  induction us generalizing o with
  | nil => rfl
  | cons u rest ih =>
    have hstep : (o.update u).base = o.base := by cases u <;> rfl
    rw [List.foldl_cons, ih, hstep]

end Overlay

namespace Snapshot

/-- Recording a balance replaces one answer. -/
theorem ledger_setBalance (s : Snapshot) (token account : Address) (amount : Amount) :
    (s.setBalance token account amount).ledger = s.ledger.setBalance token account amount := by
  have hbalance : (s.setBalance token account amount).ledger.balance =
      (s.ledger.setBalance token account amount).balance := by
    funext token' account'
    by_cases h : token' = token ∧ account' = account <;>
      simp [setBalance, ledger, Ledger.setBalance, Table.get?_insert, h]
  exact Ledger.ext hbalance rfl rfl rfl rfl

/-- Recording a debt replaces one answer. -/
theorem ledger_setDebt (s : Snapshot) (pool asset account : Address) (amount : Amount) :
    (s.setDebt pool asset account amount).ledger =
      s.ledger.setDebt pool asset account amount := by
  have hdebt : (s.setDebt pool asset account amount).ledger.debt =
      (s.ledger.setDebt pool asset account amount).debt := by
    funext pool' asset' account'
    by_cases h : pool' = pool ∧ asset' = asset ∧ account' = account <;>
      simp [setDebt, ledger, Ledger.setDebt, Table.get?_insert, h]
  exact Ledger.ext rfl rfl rfl hdebt rfl

/-- Recording an entry replaces one answer. -/
theorem ledger_write (s : Snapshot) (e : Entry) (amount : Amount) :
    (s.write e amount).ledger = s.ledger.set e amount := by
  cases e with
  | balance token account => exact s.ledger_setBalance token account amount
  | debt pool asset account => exact s.ledger_setDebt pool asset account amount

/-- Different entries are recorded in either order. -/
theorem write_comm (s : Snapshot) {e e' : Entry} (amount amount' : Amount) (h : e ≠ e') :
    (s.write e amount).write e' amount' = (s.write e' amount').write e amount := by
  cases e <;> cases e' <;> simp only [write, setBalance, setDebt] <;> congr 1
  · exact Table.insert_comm _ _ _ (by simpa using h)
  · exact Table.insert_comm _ _ _ (by simpa using h)

/-- The recorded entries of a snapshot. -/
def store : Store Snapshot := ⟨ledger, write, ledger_write, write_comm⟩

end Snapshot

/-! ## What adapters are asked -/

/-- The methods of adapters that read a ledger, with their other arguments. -/
inductive Method
  /-- The value of a pool. -/
  | poolValue (asset pool : Address)
  /-- The receipts minted for a deposit. -/
  | minted (asset pool : Address) (amount : Amount)
  /-- What receipts are redeemed for. -/
  | redeemed (asset pool : Address) (receipts : Amount)
  /-- The receipts that an owner holds. -/
  | receiptBalance (owner asset pool : Address)
  /-- The value of everything an owner holds in a pool. -/
  | holdingsValue (owner asset pool : Address)
  /-- The exposure that counts against a deposit cap. -/
  | positionValue (owner asset pool : Address)
  /-- The receipts that can be redeemed right now. -/
  | withdrawable (owner asset pool : Address)
  /-- The part of a request that the deposit caps admit. -/
  | depositAmount (owner asset pool : Address) (requested : Amount) (caps : DepositCaps)
  /-- Deposit as much of a request as the caps admit. -/
  | depositSome (owner asset pool : Address) (requested : Amount) (caps : DepositCaps)
  /-- Deposit as much of the balance as the caps admit. -/
  | depositAll (owner asset pool : Address) (caps : DepositCaps)
  /-- Redeem receipts. -/
  | withdrawSome (owner asset pool : Address) (receipts : Amount)
  /-- Redeem everything that can be redeemed. -/
  | withdrawAll (owner asset pool : Address)
  /-- The staked receipts of an owner. -/
  | staked (owner pool : Address)
  /-- Stake receipts. -/
  | stakeSome (pool : Address) (receipts : Amount)
  /-- Stake every loose receipt. -/
  | stakeAll (owner asset pool : Address)
  /-- Take staked receipts out. -/
  | unstakeSome (pool : Address) (receipts : Amount)
  /-- Take every staked receipt out. -/
  | unstakeAll (owner pool : Address)
  /-- Take every staked receipt out and redeem it with the loose ones. -/
  | unstakeAndWithdrawAll (owner asset pool : Address)
  /-- The value of all receipts and unclaimed rewards. -/
  | stakedValue (owner asset pool : Address)
  /-- What an owner can claim. -/
  | unclaimed (owner pool : Address)
  /-- Claim the rewards of a pool. -/
  | claim (owner pool : Address)
  /-- Claim, then sell some of the reward token. -/
  | harvestSome (owner pool target : Address) (amount : Amount)
  /-- Claim, then sell the whole balance of the reward token. -/
  | harvestAll (owner pool target : Address)
  /-- What an owner owes in one asset. -/
  | debt (owner pool borrowed : Address)
  /-- What an owner may still borrow. -/
  | borrowCapacity (owner asset pool borrowed : Address)
  /-- Borrow as much as the collateral allows. -/
  | borrowAll (owner asset pool borrowed : Address)
  /-- Repay as much debt as the balance covers. -/
  | repayAll (owner pool borrowed : Address)
  /-- The collateral and what is held of the borrowed asset, less the debt. -/
  | borrowValue (owner asset pool borrowed : Address) (held : Amount)

/-- What a method gives back. -/
inductive Reply
  /-- A quantity. -/
  | amount (a : Amount)
  /-- The calls to make. -/
  | calls (cs : List Instruction)

/-- Ask an adapter. A method of a capability that was not attached is an error. -/
def Adapter.ask (a : Adapter) (m : Method) (l : Ledger) : Except AllocationError Reply :=
  match m with
  | .poolValue asset pool => .amount <$> a.base.poolValue asset pool l
  | .minted asset pool amount => .amount <$> a.base.minted asset pool amount l
  | .redeemed asset pool receipts => .amount <$> a.base.redeemed asset pool receipts l
  | .receiptBalance owner asset pool => .amount <$> a.base.receiptBalance owner asset pool l
  | .holdingsValue owner asset pool => .amount <$> a.base.holdingsValue owner asset pool l
  | .positionValue owner asset pool => .amount <$> a.base.positionValue owner asset pool l
  | .withdrawable owner asset pool => .amount <$> a.base.withdrawable owner asset pool l
  | .depositAmount owner asset pool requested caps =>
    .amount <$> a.base.depositAmount owner asset pool requested caps l
  | .depositSome owner asset pool requested caps =>
    .calls <$> a.base.depositSome owner asset pool requested caps l
  | .depositAll owner asset pool caps => .calls <$> a.base.depositAll owner asset pool caps l
  | .withdrawSome owner asset pool receipts =>
    .calls <$> a.base.withdrawSome owner asset pool receipts l
  | .withdrawAll owner asset pool => .calls <$> a.base.withdrawAll owner asset pool l
  | .staked owner pool => do return .amount (← (← a.stakeable).staked owner pool l)
  | .stakeSome pool receipts => do return .calls (← (← a.stakeable).stake pool receipts)
  | .stakeAll owner asset pool => do return .calls (← (← a.stakeable).stakeAll owner asset pool l)
  | .unstakeSome pool receipts => do return .calls (← (← a.stakeable).unstake pool receipts)
  | .unstakeAll owner pool => do return .calls (← (← a.stakeable).unstakeAll owner pool l)
  | .unstakeAndWithdrawAll owner asset pool => do
    return .calls (← (← a.stakeable).unstakeAndWithdrawAll owner asset pool l)
  | .stakedValue owner asset pool => do
    return .amount (← (← a.stakeable).stakedValue owner asset pool l)
  | .unclaimed owner pool => do return .amount (← (← a.rewarding).unclaimed owner pool l)
  | .claim owner pool => do return .calls (← (← a.rewarding).claim owner pool l)
  | .harvestSome owner pool target amount => do
    return .calls (← (← a.rewarding).harvestSome owner pool target amount l)
  | .harvestAll owner pool target => do
    return .calls (← (← a.rewarding).harvestAll owner pool target l)
  | .debt owner pool borrowed => do
    let _ ← a.lender
    return .amount (l.debt pool borrowed owner)
  | .borrowCapacity owner asset pool borrowed => do
    return .amount (← (← a.lender).borrowCapacity owner asset pool borrowed l)
  | .borrowAll owner asset pool borrowed => do
    return .calls (← (← a.lender).borrowAll owner asset pool borrowed l)
  | .repayAll owner pool borrowed => do
    return .calls (← (← a.lender).repayAll owner pool borrowed l)
  | .borrowValue owner asset pool borrowed held => do
    return .amount (← (← a.lender).borrowValue owner asset pool borrowed held l)

/-! ## Overlays and written-out snapshots -/

/-- **Nothing tells an overlay from the snapshot that the same updates are written into**, whatever
the snapshot underneath and whatever the updates. Balances, supplies, rewards, debts and quotes are
the same for all arguments, and so are the answers of every adapter. The ledger underneath stays as
it is and answers for every entry without an update. Updates of different entries are made in either
order. -/
theorem overlay_answers_as_written_out (s : Snapshot) (us : List Update) :
    let o := us.foldl Overlay.update (.ofLedger s.ledger)
    let s' := us.foldl Snapshot.update s
    (∀ token account, o.ledger.balance token account = s'.ledger.balance token account) ∧
    (∀ token, o.ledger.supply token = s'.ledger.supply token) ∧
    (∀ source account, o.ledger.rewards source account = s'.ledger.rewards source account) ∧
    (∀ pool asset account,
      o.ledger.debt pool asset account = s'.ledger.debt pool asset account) ∧
    (∀ source target amount,
      o.ledger.quote source target amount = s'.ledger.quote source target amount) ∧
    (∀ (a : Adapter) (m : Method), a.ask m o.ledger = a.ask m s'.ledger) ∧
    o.base = s.ledger ∧
    (∀ e, (∀ u ∈ us, u.entry ≠ e) → o.ledger.entry e = s.ledger.entry e) ∧
    o.ledger.supply = s.ledger.supply ∧ o.ledger.rewards = s.ledger.rewards ∧
    o.ledger.quote = s.ledger.quote ∧
    (∀ (x : Overlay) (u v : Update), u.entry ≠ v.entry →
      (x.update u).update v = (x.update v).update u) ∧
    ∀ (x : Snapshot) (u v : Update), u.entry ≠ v.entry →
      (x.update u).update v = (x.update v).update u := by
  intro o s'
  -- Both start with the answers of the snapshot, and go on with the same updates.
  have hanswers : o.ledger = s'.ledger := by
    have hrun := Overlay.store.ledger_run Snapshot.store us
      (s := .ofLedger s.ledger) (t := s) (Overlay.ledger_ofLedger s.ledger)
    rwa [Overlay.store_update] at hrun
  have hbase : o.base = s.ledger := Overlay.base_run us _
  have hentry : ∀ e, (∀ u ∈ us, u.entry ≠ e) → o.ledger.entry e = s.ledger.entry e := by
    intro e h
    have hnone : us.filter (·.entry = e) = [] := by simpa using h
    have hrun := Snapshot.store.entry_run us s e
    rw [hnone] at hrun
    rw [hanswers]
    exact hrun
  obtain ⟨hsupply, hrewards, hquote⟩ := Snapshot.store.rest_run us s
  refine ⟨fun _ _ => by rw [hanswers], fun _ => by rw [hanswers], fun _ _ => by rw [hanswers],
    fun _ _ _ => by rw [hanswers], fun _ _ _ => by rw [hanswers], fun _ _ => by rw [hanswers],
    hbase, hentry, ?_, ?_, ?_, fun x u v h => ?_, fun x u v h => ?_⟩
  · rw [hanswers]
    exact hsupply
  · rw [hanswers]
    exact hrewards
  · rw [hanswers]
    exact hquote
  · rw [← Overlay.store_update]
    exact Overlay.store.update_comm x h
  · exact Snapshot.store.update_comm x h

namespace Saturated

/-- The asset that is held. -/
def asset : Address := .ofNat 1

/-- The owner of the asset. -/
def owner : Address := .ofNat 2

/-- The owner holds as much as can be counted. -/
def snapshot : Snapshot := Snapshot.setBalance {} asset owner .largest

/-- A credit that a debit takes back. -/
def updates : List Update := [.credit asset owner 5, .debit asset owner 5]

/-- The overlay after the updates. -/
def planned : Overlay := updates.foldl Overlay.update (.ofLedger snapshot.ledger)

/-- The credit does not fit and the debit does, in the overlay as in the snapshot. The ledger
underneath still has the whole amount, and nothing is owed or held elsewhere. -/
theorem credit_is_lost :
    planned.ledger.balance asset owner =
      (updates.foldl Snapshot.update snapshot).ledger.balance asset owner ∧
    planned.ledger.balance asset owner = Amount.largest.subSat 5 ∧
    planned.base.balance asset owner = Amount.largest ∧
    (∀ e, e ≠ .balance asset owner → planned.ledger.entry e = 0) := by
  obtain ⟨hbalance, -, -, -, -, -, hbase, hentry, -⟩ :=
    overlay_answers_as_written_out snapshot updates
  have hothers : ∀ e, e ≠ .balance asset owner → snapshot.ledger.entry e = 0 := by
    intro e he
    cases e with
    | balance token account =>
      have hne : ((token, account) : Address × Address) ≠ (asset, owner) := by simpa using he
      simp only [snapshot, Ledger.entry, Snapshot.setBalance, Snapshot.ledger,
        Table.get?_insert_of_ne _ _ hne]
      rfl
    | debt pool token account => rfl
  refine ⟨hbalance asset owner, rfl, ?_, fun e he => ?_⟩
  · rw [show planned.base = snapshot.ledger from hbase]
    rfl
  · have hnone : ∀ u ∈ updates, u.entry ≠ e := by
      simpa [updates, Update.entry] using he.symm
    rw [← hothers e he]
    exact hentry e hnone

end Saturated

end VaultKeeper
