import Mathlib.Algebra.GroupWithZero.Nat
import VaultKeeper.Proofs.DepositCeiling
import VaultKeeper.Proofs.Multicall

/-! # The loan-to-value limit

Debt at a lending market is bounded by a share of the collateral. Borrowing everything reaches the
limit exactly: debts are added up over the lent assets, each of them once, and the loan is quoted at
itself. Withdrawing everything that debt does not lock stays within the limit only when the locked
collateral is a whole number of units, because it is rounded down. -/

namespace VaultKeeper

/-! ## Locked collateral -/

namespace Amount

variable {held owed : Amount} {ltv : Nat}

/-- A share is rounded down. -/
theorem toNat_applyBps_le (a : Amount) (bps : Nat) :
    (a.applyBps bps).toNat ≤ a.toNat * bps / 10000 :=
  calc (a.applyBps bps).toNat
      ≤ a.toNat * (ofNat bps).toNat / 10000 := toNat_mulDiv_le a (ofNat bps) (ofNat 10000)
    _ ≤ a.toNat * bps / 10000 :=
        Nat.div_le_div_right (Nat.mul_le_mul_left _ (Nat.min_le_left _ _))

/-- The collateral that a debt locks at a loan-to-value ratio. -/
def locked (owed : Amount) (ltv : Nat) : Amount := owed.mulDiv (ofNat 10000) (ofNat ltv)

/-- What is locked is rounded down. -/
theorem toNat_locked_le (hlt : ltv < 10000) (owed : Amount) :
    (owed.locked ltv).toNat ≤ owed.toNat * 10000 / ltv := by
  have hle := toNat_mulDiv_le owed (ofNat 10000) (ofNat ltv)
  rwa [toNat_ofNat_of_lt (show ltv < 2 ^ 256 by omega)] at hle

/-- A share of collateral that covers a debt does so before it is rounded. -/
theorem mul_le_of_covered (h : owed ≤ held.applyBps ltv) :
    owed.toNat * 10000 ≤ held.toNat * ltv := by
  have hshare := Nat.le_trans h (toNat_applyBps_le held ltv)
  exact Nat.le_trans (Nat.mul_le_mul_right _ hshare) (Nat.div_mul_le_self _ _)

/-- A debt locks no more than the collateral that covers it. -/
theorem locked_le (hpos : 0 < ltv) (hlt : ltv < 10000) (h : owed ≤ held.applyBps ltv) :
    owed.locked ltv ≤ held :=
  calc (owed.locked ltv).toNat
      ≤ owed.toNat * 10000 / ltv := toNat_locked_le hlt owed
    _ ≤ held.toNat * ltv / ltv := Nat.div_le_div_right (mul_le_of_covered h)
    _ = held.toNat := Nat.mul_div_cancel _ hpos

/-- What a covered debt locks: a debt that is too large to be scaled is divided first. -/
theorem toNat_locked (hpos : 0 < ltv) (hlt : ltv < 10000) (h : owed ≤ held.applyBps ltv) :
    (owed.locked ltv).toNat =
      if owed.toNat * 10000 < 2 ^ 256 then owed.toNat * 10000 / ltv
      else owed.toNat / ltv * 10000 := by
  have hratio : (ofNat ltv).toNat = ltv := toNat_ofNat_of_lt (by omega)
  have hwhole : (ofNat 10000).toNat = 10000 := rfl
  split
  case isTrue hfit => rw [locked, toNat_mulDiv_of_lt (by rwa [hwhole]), hwhole, hratio]
  case isFalse hfit =>
    -- The collateral bounds what is locked, so dividing first does not saturate.
    have hbound : owed.toNat / ltv * 10000 ≤ held.toNat :=
      calc owed.toNat / ltv * 10000
          ≤ owed.toNat * 10000 / ltv := by
            rw [Nat.mul_comm, Nat.mul_comm owed.toNat]
            exact Nat.mul_div_le_mul_div_assoc _ _ _
        _ ≤ held.toNat * ltv / ltv := Nat.div_le_div_right (mul_le_of_covered h)
        _ = held.toNat := Nat.mul_div_cancel _ hpos
    rw [locked, mulDiv, if_neg (by omega), hwhole, if_neg hfit, hratio,
      toNat_ofNat_of_lt (Nat.lt_of_le_of_lt hbound held.lt_bound)]

/-- The share of what a covered debt locks is rounded once. -/
theorem toNat_applyBps_locked (hpos : 0 < ltv) (hlt : ltv < 10000)
    (h : owed ≤ held.applyBps ltv) :
    ((owed.locked ltv).applyBps ltv).toNat = (owed.locked ltv).toNat * ltv / 10000 := by
  have hratio : (ofNat ltv).toNat = ltv := toNat_ofNat_of_lt (by omega)
  have hwhole : (ofNat 10000).toNat = 10000 := rfl
  by_cases hproduct : (owed.locked ltv).toNat * ltv < 2 ^ 256
  · rw [applyBps, toNat_mulDiv_of_lt (by rwa [hratio]), hratio, hwhole]
  -- A product that does not fit comes from a debt that was divided first.
  have hmul : (owed.locked ltv).toNat * ltv ≤ owed.toNat * 10000 :=
    Nat.le_trans (Nat.mul_le_mul_right _ (toNat_locked_le hlt owed)) (Nat.div_mul_le_self _ _)
  have hlocked : (owed.locked ltv).toNat = owed.toNat / ltv * 10000 := by
    rw [toNat_locked hpos hlt h, if_neg (by omega)]
  have hmuldiv : owed.toNat / ltv * ltv < 2 ^ 256 :=
    Nat.lt_of_le_of_lt (Nat.div_mul_le_self _ _) owed.lt_bound
  rw [applyBps, mulDiv, hwhole, if_neg (by omega), hratio, if_neg hproduct, hlocked,
    Nat.mul_div_cancel _ (by omega), toNat_ofNat_of_lt hmuldiv, Nat.mul_right_comm,
    Nat.mul_div_cancel _ (by omega)]

/-- Whether the collateral that a debt locks is a whole number of units, so that rounding loses
nothing of it. A debt that is too large to be scaled is divided before it is scaled. -/
def LocksWhole (owed : Amount) (ltv : Nat) : Prop :=
  if owed.toNat * 10000 < 2 ^ 256 then ltv ∣ owed.toNat * 10000 else ltv ∣ owed.toNat

instance (owed : Amount) (ltv : Nat) : Decidable (owed.LocksWhole ltv) :=
  inferInstanceAs (Decidable
    (if owed.toNat * 10000 < 2 ^ 256 then ltv ∣ owed.toNat * 10000 else ltv ∣ owed.toNat))

/-- **What a debt locks covers it exactly when it is a whole number of units.** -/
theorem le_applyBps_locked_iff (hpos : 0 < ltv) (hlt : ltv < 10000)
    (h : owed ≤ held.applyBps ltv) :
    owed ≤ (owed.locked ltv).applyBps ltv ↔ owed.LocksWhole ltv := by
  rw [le_def, toNat_applyBps_locked hpos hlt h, Nat.le_div_iff_mul_le (by omega),
    toNat_locked hpos hlt h, LocksWhole]
  split
  · rw [Nat.dvd_iff_div_mul_eq]
    have := Nat.div_mul_le_self (owed.toNat * 10000) ltv
    omega
  · rw [Nat.dvd_iff_div_mul_eq, Nat.mul_right_comm]
    have := Nat.div_mul_le_self owed.toNat ltv
    omega

/-- What a debt locks covers all of it but one unit, or all but a remainder when it is divided
first. -/
theorem le_applyBps_locked_add (hpos : 0 < ltv) (hlt : ltv < 10000)
    (h : owed ≤ held.applyBps ltv) :
    owed.toNat ≤ ((owed.locked ltv).applyBps ltv).toNat +
      if owed.toNat * 10000 < 2 ^ 256 then 1 else ltv - 1 := by
  rw [toNat_applyBps_locked hpos hlt h, toNat_locked hpos hlt h]
  split
  · have hmod := Nat.mod_lt (owed.toNat * 10000) hpos
    have hdiv := Nat.div_add_mod' (owed.toNat * 10000) ltv
    omega
  · have hmod := Nat.mod_lt owed.toNat hpos
    have hdiv := Nat.div_add_mod' owed.toNat ltv
    rw [Nat.mul_right_comm, Nat.mul_div_cancel _ (by omega)]
    omega

end Amount


/-! ## What a withdrawal leaves -/

/-- The loan-to-value share of the collateral in an asset covers all debt at the market. -/
def LendingProtocol.Covers (p : LendingProtocol) (owner asset pool : Address) (l : Ledger) : Prop :=
  ∃ held owed, p.collateral owner asset pool l = .ok held ∧
    p.debtValue owner pool asset l = .ok owed ∧ owed ≤ held.applyBps p.ltvBps

/-- Collateral is the balance of the receipt token. -/
theorem LendingProtocol.collateral_eq {p : LendingProtocol} {asset pool receipt : Address}
    (hreceipt : p.receipt asset pool = .ok receipt) (owner : Address) (l : Ledger) :
    p.collateral owner asset pool l = .ok (l.balance receipt owner) := by
  rw [collateral, hreceipt]
  rfl

/-- What covered debt locks cannot be withdrawn, and all else can. -/
theorem LendingProtocol.withdrawable_eq {p : LendingProtocol} {owner asset pool : Address}
    {l : Ledger} {held owed : Amount} (hpos : 0 < p.ltvBps)
    (hheld : p.collateral owner asset pool l = .ok held)
    (howed : p.debtValue owner pool asset l = .ok owed) :
    p.withdrawable owner asset pool l = .ok (held.subSat (owed.locked p.ltvBps)) := by
  rw [withdrawable, hheld, ok_bind, howed, ok_bind, if_neg fun h => by omega]
  rfl

/-- **A withdrawal leaves debt covered exactly when the debt locks a whole number of units.** The
locked collateral is rounded down, and it is all that is left after everything else has been
withdrawn. So covered debt may be uncovered afterwards, by one unit, or by less than the ratio for a
debt that is too large to be scaled before it is divided. -/
theorem covers_after_withdrawal_iff (p : LendingProtocol) (owner asset pool receipt : Address)
    (o : Overlay) (hpos : 0 < p.ltvBps) (hlt : p.ltvBps < 10000)
    (hreceipt : p.receipt asset pool = .ok receipt)
    (hcovers : p.Covers owner asset pool o.ledger) :
    ∃ receipts owed, p.withdrawable owner asset pool o.ledger = .ok receipts ∧
      p.debtValue owner pool asset o.ledger = .ok owed ∧
      let after := (o.debit receipt owner receipts).ledger
      p.debtValue owner pool asset after = .ok owed ∧
      (p.Covers owner asset pool after ↔ owed.LocksWhole p.ltvBps) ∧
      ∃ kept, p.collateral owner asset pool after = .ok kept ∧
        owed.toNat ≤ (kept.applyBps p.ltvBps).toNat +
          if owed.toNat * 10000 < 2 ^ 256 then 1 else p.ltvBps - 1 := by
  obtain ⟨held, owed, hheld, howed, hcovered⟩ := hcovers
  have hbalance : o.ledger.balance receipt owner = held :=
    Except.ok.inj ((p.collateral_eq hreceipt owner o.ledger).symm.trans hheld)
  let receipts := held.subSat (owed.locked p.ltvBps)
  -- Nothing is left but the locked collateral, and the debt is what it was.
  have hkept : p.collateral owner asset pool (o.debit receipt owner receipts).ledger =
      .ok (owed.locked p.ltvBps) := by
    have hle := Amount.le_def.1 (Amount.locked_le hpos hlt hcovered)
    rw [p.collateral_eq hreceipt, Overlay.balance_debit_self, hbalance]
    congr 1
    ext
    rw [Amount.toNat_subSat, Amount.toNat_subSat]
    omega
  have howed' : p.debtValue owner pool asset (o.debit receipt owner receipts).ledger = .ok owed :=
    howed
  refine ⟨receipts, owed, LendingProtocol.withdrawable_eq hpos hheld howed, howed, howed', ?_,
    _, hkept, Amount.le_applyBps_locked_add hpos hlt hcovered⟩
  rw [← Amount.le_applyBps_locked_iff hpos hlt hcovered]
  constructor
  · -- There is only one value for the collateral and for the debt.
    rintro ⟨kept, owed', hkept', howed'', hle⟩
    rw [hkept, Except.ok.injEq] at hkept'
    rw [howed', Except.ok.injEq] at howed''
    rwa [← hkept', ← howed''] at hle
  · intro hle
    exact ⟨_, _, hkept, howed', hle⟩

/-! ### A market at eighty percent

An owner has supplied 1000 units and owes a coin of the same price. -/

namespace Indebted

open Leveraged (owner collateral coin market)

/-- The receipt token of the collateral. -/
def receipt : Address := .ofNat 8

/-- Another asset that the market lends. -/
def other : Address := .ofNat 10

/-- What the market takes and lends. -/
def assets : LendingMarket :=
  ((LendingMarket.withReserve {} collateral receipt).withBorrowable coin).withBorrowable other

/-- The protocol of the market. -/
def lending : LendingProtocol := ⟨"lending", 8000, .ofList [(market, assets)]⟩

/-- The owner holds receipts and owes some of the coin. -/
def snapshot (owed : Amount) : Snapshot :=
  { balances := .ofList [((receipt, owner), 1000)]
    debts := .ofList [((market, coin, owner), owed)]
    prices := .ofList [(collateral, 1), (coin, 1), (other, 3)] }

/-- The position. -/
def position (owed : Amount) : Overlay := .ofLedger (snapshot owed).ledger

/-- A debt of 400 locks 500 units, and stays covered by them. -/
theorem whole_lock_stays_covered :
    0 < lending.ltvBps ∧ lending.ltvBps < 10000 ∧
    lending.receipt collateral market = .ok receipt ∧
    lending.Covers owner collateral market (position 400).ledger ∧
    lending.withdrawable owner collateral market (position 400).ledger = .ok 500 ∧
    lending.Covers owner collateral market ((position 400).debit receipt owner 500).ledger := by
  have hcovers : lending.Covers owner collateral market (position 400).ledger :=
    ⟨1000, 400, rfl, rfl, by decide⟩
  have hwithdrawable :
      lending.withdrawable owner collateral market (position 400).ledger = .ok 500 := rfl
  have howed : lending.debtValue owner market collateral (position 400).ledger = .ok 400 := rfl
  obtain ⟨receipts, owed, hreceipts, howed', -, hiff, -⟩ := covers_after_withdrawal_iff lending
    owner collateral market receipt (position 400) (by decide) (by decide) rfl hcovers
  rw [hwithdrawable, Except.ok.injEq] at hreceipts
  rw [howed, Except.ok.injEq] at howed'
  subst hreceipts howed'
  exact ⟨by decide, by decide, rfl, hcovers, hwithdrawable, hiff.2 (by decide)⟩

/-- **A rounded lock uncovers debt.** A debt of 401 locks 501.25 units. All but 501 can be
withdrawn, and eighty percent of these, rounded down, is 400. -/
theorem rounded_lock_uncovers_debt :
    0 < lending.ltvBps ∧ lending.ltvBps < 10000 ∧
    lending.receipt collateral market = .ok receipt ∧
    lending.Covers owner collateral market (position 401).ledger ∧
    lending.withdrawable owner collateral market (position 401).ledger = .ok 499 ∧
    ¬ lending.Covers owner collateral market ((position 401).debit receipt owner 499).ledger := by
  refine ⟨by decide, by decide, rfl, ⟨1000, 401, rfl, rfl, by decide⟩, rfl, ?_⟩
  rintro ⟨kept, owed, hkept, howed, hle⟩
  have hkept' : (501 : Amount) = kept := Except.ok.inj hkept
  have howed' : (401 : Amount) = owed := Except.ok.inj howed
  subst hkept' howed'
  exact absurd hle (by decide)

end Indebted

/-! ## Sums of debts -/

/-- When one entry of a list without repetition grows, the sum grows by as much. -/
theorem sum_map_grown {α : Type} {xs : List α} (hnodup : xs.Nodup) {a : α} (ha : a ∈ xs)
    {f g : α → Nat} {n : Nat} (hgrown : g a = f a + n) (hsame : ∀ b, b ≠ a → g b = f b) :
    (xs.map g).sum = (xs.map f).sum + n := by
  induction xs with
  | nil => cases ha
  | cons b rest ih =>
    obtain ⟨hb, hrest⟩ := List.nodup_cons.1 hnodup
    simp only [List.map_cons, List.sum_cons]
    by_cases hba : b = a
    · -- The entry stands here, so it stands nowhere later.
      subst hba
      have htail : rest.map g = rest.map f :=
        List.map_congr_left fun c hc => hsame c fun heq => hb (heq ▸ hc)
      rw [hgrown, htail]
      omega
    · have hmem : a ∈ rest := (List.mem_cons.1 ha).resolve_left fun heq => hba heq.symm
      rw [hsame b hba, ih hrest hmem]
      omega

namespace Amount

/-- An entry is at most the saturating sum. -/
theorem toNat_le_sum {a : Amount} {xs : List Amount} (h : a ∈ xs) : a.toNat ≤ (sum xs).toNat := by
  obtain ⟨before, after, rfl⟩ := List.append_of_mem h
  have hbound := a.lt_bound
  rw [toNat_sum]
  change _ ≤ min ((before ++ a :: after).map toNat).sum _
  rw [List.map_append, List.map_cons, List.sum_append, List.sum_cons]
  omega

/-- **A saturating sum grows with one of its entries**, as long as it does not saturate. -/
theorem toNat_sum_grown {α : Type} {xs : List α} (hnodup : xs.Nodup) {a : α} (ha : a ∈ xs)
    {f g : α → Amount} {n : Amount} (hgrown : g a = (f a).addSat n)
    (hsame : ∀ b, b ≠ a → g b = f b) (hfit : (sum (xs.map f)).toNat + n.toNat < 2 ^ 256) :
    (sum (xs.map g)).toNat = (sum (xs.map f)).toNat + n.toNat := by
  have hentry : (f a).toNat ≤ (sum (xs.map f)).toNat := toNat_le_sum (List.mem_map_of_mem ha)
  have hsum := sum_map_grown hnodup ha (f := fun b => (f b).toNat) (g := fun b => (g b).toNat)
    (n := n.toNat) (by rw [hgrown, toNat_addSat]; omega) fun b hb => by rw [hsame b hb]
  have htotal : ∀ h : α → Amount, (sum (xs.map h)).toNat =
      min (xs.map fun b => (h b).toNat).sum (2 ^ 256 - 1) := by
    intro h
    rw [toNat_sum, List.map_map]
    rfl
  rw [htotal] at hfit ⊢
  rw [htotal]
  omega

end Amount

/-! ## Borrowing up to the limit -/

/-- An amount of an asset is quoted at itself in that asset. -/
theorem Snapshot.quote_self (x : Snapshot) (asset : Address) (amount : Amount) :
    x.quote asset asset amount = amount := if_pos rfl

/-- **A market that is put together asset by asset.** -/
inductive LendingMarket.Built : LendingMarket → Prop
  /-- A market without assets. -/
  | empty : Built {}
  /-- An asset is accepted. -/
  | reserve {m : LendingMarket} (hm : Built m) (asset receipt : Address) :
      Built (m.withReserve asset receipt)
  /-- An asset is lent. -/
  | loan {m : LendingMarket} (hm : Built m) (asset : Address) : Built (m.withBorrowable asset)

/-- No asset is lent twice. -/
theorem LendingMarket.Built.nodup {m : LendingMarket} (h : m.Built) : m.borrowable.Nodup := by
  induction h with
  | empty => exact List.nodup_nil
  | reserve hm asset receipt ih => exact ih
  | loan hm asset ih =>
    unfold withBorrowable
    split
    case isTrue hknown => exact ih
    case isFalse hnew =>
      refine List.nodup_append.2 ⟨ih, by simp, fun b hb c hc heq => hnew ?_⟩
      rwa [← List.mem_singleton.1 hc, ← heq]

namespace LendingProtocol

variable {p : LendingProtocol} {m : LendingMarket} {owner asset pool borrowed receipt : Address}
  {x : Snapshot} {o : Overlay} {owed loan : Amount}

/-- Debt is the sum over the lent assets. -/
theorem debtValue_eq (hm : p.market pool = .ok m) (owner asset : Address) (l : Ledger) :
    p.debtValue owner pool asset l =
      .ok (Amount.sum (m.borrowable.map fun b => l.quote b asset (l.debt pool b owner))) := by
  rw [debtValue, hm]
  rfl

/-- Capacity is what is left of the limit. -/
theorem borrowCapacity_eq (hm : p.market pool = .ok m) (hin : borrowed ∈ m.borrowable)
    (hreceipt : p.receipt asset pool = .ok receipt) {l : Ledger}
    (howed : p.debtValue owner pool borrowed l = .ok owed) :
    p.borrowCapacity owner asset pool borrowed l =
      .ok ((l.quote asset borrowed ((l.balance receipt owner).applyBps p.ltvBps)).subSat owed) := by
  have hassets : p.borrowable pool = .ok m.borrowable := by
    rw [borrowable, hm]
    rfl
  rw [borrowCapacity, hassets, ok_bind, if_pos hin, p.collateral_eq hreceipt, howed]
  rfl

/-- **A loan adds itself to the debt**, as long as the debt does not saturate. -/
theorem debtValue_addDebt (hbase : o.base = x.ledger) (hm : p.market pool = .ok m)
    (hnodup : m.borrowable.Nodup) (hin : borrowed ∈ m.borrowable)
    (howed : p.debtValue owner pool borrowed o.ledger = .ok owed)
    (hfit : owed.toNat + loan.toNat < 2 ^ 256) :
    ∃ total, p.debtValue owner pool borrowed (o.addDebt pool borrowed owner loan).ledger =
        .ok total ∧ total.toNat = owed.toNat + loan.toNat := by
  have hquote : o.ledger.quote = x.quote := congrArg Ledger.quote hbase
  rw [debtValue_eq hm, Except.ok.injEq] at howed
  refine ⟨_, debtValue_eq hm owner borrowed _, ?_⟩
  subst howed
  -- Only the entry of the borrowed asset differs, and it stands in the list once.
  refine Amount.toNat_sum_grown hnodup hin ?_ ?_ hfit
  · -- The borrowed asset is quoted at itself, so the loan is not rounded.
    rw [Overlay.debt_addDebt_self]
    change o.ledger.quote _ _ _ = _
    rw [hquote, x.quote_self, x.quote_self]
  · intro b hb
    rw [Overlay.addDebt, Overlay.debt_setDebt, if_neg fun h => hb h.2.1]
    rfl

end LendingProtocol

/-- **Borrowing everything reaches the limit exactly.** At a market that is put together asset by
asset, over an overlay on a snapshot, the loan is what is missing between the debt and the quoted
loan-to-value share of the collateral, and no call is made when nothing is missing. With the loan
credited and owed, the debt is the larger of the limit and the earlier debt, nothing more can be
borrowed, and borrowing everything again makes no call. -/
theorem borrow_all_reaches_limit (p : LendingProtocol) (m : LendingMarket)
    (owner asset pool borrowed receipt : Address) (x : Snapshot) (o : Overlay)
    (hbase : o.base = x.ledger) (hm : p.market pool = .ok m) (hbuilt : m.Built)
    (hreceipt : p.receipt asset pool = .ok receipt) (hin : borrowed ∈ m.borrowable)
    (hne : borrowed ≠ receipt) :
    ∃ owed, p.debtValue owner pool borrowed o.ledger = .ok owed ∧
      let limit :=
        o.ledger.quote asset borrowed ((o.ledger.balance receipt owner).applyBps p.ltvBps)
      let loan := limit.subSat owed
      let calls := if owed < limit then [(Call.borrow borrowed loan owner).sentTo pool] else []
      let after := (o.credit borrowed owner loan).addDebt pool borrowed owner loan
      p.borrowAll owner asset pool borrowed o.ledger = .ok calls ∧
      (∃ total, p.debtValue owner pool borrowed after.ledger = .ok total ∧
        total.toNat = max limit.toNat owed.toNat) ∧
      p.borrowCapacity owner asset pool borrowed after.ledger = .ok 0 ∧
      p.borrowAll owner asset pool borrowed after.ledger = .ok [] ∧
      ∀ l : Leg, l.bound.adapter.lender = .ok p → l.input = asset → l.pool = pool →
        l.output = borrowed → l.borrow owner o = .ok (after, [l.group .borrow calls]) := by
  have howed := LendingProtocol.debtValue_eq hm owner borrowed o.ledger
  refine ⟨_, howed, ?_⟩
  generalize Amount.sum _ = owed at howed ⊢
  intro limit loan calls after
  have hcapacity : p.borrowCapacity owner asset pool borrowed o.ledger = .ok loan :=
    LendingProtocol.borrowCapacity_eq hm hin hreceipt howed
  have hcalls : p.borrowAll owner asset pool borrowed o.ledger = .ok calls := by
    have hzero : loan = 0 ↔ ¬ owed < limit := by
      rw [Amount.eq_zero_iff, Amount.lt_def, Amount.toNat_subSat]
      omega
    rw [LendingProtocol.borrowAll, hcapacity, ok_bind, pure_eq_ok]
    simp only [hzero, calls, ite_not]
  have hfit : owed.toNat + loan.toNat < 2 ^ 256 := by
    have hlimit := limit.lt_bound
    have howed := owed.lt_bound
    rw [Amount.toNat_subSat]
    omega
  obtain ⟨total, htotal, hsum⟩ := LendingProtocol.debtValue_addDebt
    (o := o.credit borrowed owner loan) hbase hm hbuilt.nodup hin howed hfit
  have hmax : total.toNat = max limit.toNat owed.toNat := by
    rw [hsum, Amount.toNat_subSat]
    omega
  -- The loan is no collateral, so the limit stays where it was.
  have hheld : after.ledger.balance receipt owner = o.ledger.balance receipt owner := by
    rw [Overlay.balance_addDebt, Overlay.balance_credit_of_ne _ _ (.inl hne.symm)]
  have hexhausted : p.borrowCapacity owner asset pool borrowed after.ledger = .ok 0 := by
    rw [LendingProtocol.borrowCapacity_eq hm hin hreceipt htotal, hheld]
    change Except.ok (limit.subSat total) = _
    rw [Except.ok.injEq, Amount.eq_zero_iff, Amount.toNat_subSat]
    omega
  refine ⟨hcalls, ⟨total, htotal, hmax⟩, hexhausted, ?_, ?_⟩
  · rw [LendingProtocol.borrowAll, hexhausted]
    rfl
  · rintro l hlender rfl rfl rfl
    rw [Leg.borrow, hlender, ok_bind, hcapacity, ok_bind, hcalls]
    rfl

namespace Indebted

open Leveraged (owner collateral coin market)

/-- The position, with 7 units of another asset owed since the snapshot. -/
def leveraged : Overlay := (position 400).addDebt market other owner 7

/-- A debt of 421 leaves room for a loan of 379 below the limit of 800. -/
theorem loan_reaches_limit :
    let after := (leveraged.credit coin owner 379).addDebt market coin owner 379
    leveraged.base = (snapshot 400).ledger ∧ lending.market market = .ok assets ∧
    assets.Built ∧ lending.receipt collateral market = .ok receipt ∧
    coin ∈ assets.borrowable ∧ coin ≠ receipt ∧
    lending.debtValue owner market coin leveraged.ledger = .ok 421 ∧
    lending.borrowAll owner collateral market coin leveraged.ledger =
      .ok [(Call.borrow coin 379 owner).sentTo market] ∧
    lending.debtValue owner market coin after.ledger = .ok 800 ∧
    lending.borrowCapacity owner collateral market coin after.ledger = .ok 0 ∧
    lending.borrowAll owner collateral market coin after.ledger = .ok [] := by
  have hbuilt : assets.Built := ((LendingMarket.Built.empty.reserve _ _).loan _).loan _
  have howed : lending.debtValue owner market coin leveraged.ledger = .ok 421 := rfl
  obtain ⟨owed, howed', hcalls, ⟨total, htotal, hmax⟩, hcapacity, hagain, -⟩ :=
    borrow_all_reaches_limit lending assets owner collateral market coin receipt (snapshot 400)
      leveraged rfl rfl hbuilt rfl (by decide) (by decide)
  rw [howed, Except.ok.injEq] at howed'
  subst howed'
  have heq : total = 800 := Amount.ext hmax
  exact ⟨rfl, rfl, hbuilt, rfl, by decide, by decide, howed, hcalls, heq ▸ htotal, hcapacity,
    hagain⟩

end Indebted

end VaultKeeper
