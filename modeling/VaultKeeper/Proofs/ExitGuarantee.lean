import Mathlib.Algebra.BigOperators.Ring.Finset
import Mathlib.Algebra.Order.BigOperators.Group.List
import Mathlib.Algebra.Order.Floor.Semifield
import Mathlib.Data.Nat.Cast.Order.Field
import Mathlib.Data.Rat.Floor
import Mathlib.Tactic.GCongr
import Mathlib.Tactic.Linarith
import Mathlib.Tactic.Positivity
import VaultKeeper.Proofs.Allowance
import VaultKeeper.Proofs.LoanToValue
import VaultKeeper.Proofs.NetValue

/-! # What a curve exit guarantees

Leaving a curve pool credits the owner with the quoted value of the receipts, before any call is
made. The calls guarantee less: every share is rounded down and reduced by the tolerance, and where
it is exchanged the quote of what is left is rounded and reduced again. So the credit is covered
only when the tolerance is taken off it twice, up to a few units for each coin. Sums are taken over
the rationals, where nothing is rounded. -/

namespace VaultKeeper

/-! ## Exact values -/

namespace Amount

/-- What an amount falls short of an exact value, apart from rounding it down. -/
def shortfall (a : Amount) (exact : ℚ) : ℕ := ⌊exact⌋₊ - a.toNat

/-- Rounding and the shortfall are all that is lost. -/
theorem le_add_shortfall (a : Amount) (exact : ℚ) : exact ≤ a.toNat + 1 + a.shortfall exact := by
  have hfloor : (⌊exact⌋₊ : ℚ) ≤ a.toNat + a.shortfall exact := by
    exact_mod_cast (by rw [shortfall]; omega : ⌊exact⌋₊ ≤ a.toNat + a.shortfall exact)
  have hround := Nat.lt_floor_add_one exact
  linarith

/-- A scaled amount is at most its exact value. -/
theorem mulDiv_le (a b c : Amount) : ((mulDiv a b c).toNat : ℚ) ≤ a.toNat * b.toNat / c.toNat :=
  calc ((mulDiv a b c).toNat : ℚ)
      ≤ (a.toNat * b.toNat / c.toNat : ℕ) := by exact_mod_cast toNat_mulDiv_le a b c
    _ ≤ (a.toNat * b.toNat : ℕ) / (c.toNat : ℕ) := Nat.cast_div_le
    _ = a.toNat * b.toNat / c.toNat := by rw [Nat.cast_mul]

/-- Scaling only rounds when the product fits. -/
theorem shortfall_mulDiv {a b c : Amount} (hfit : a.toNat * b.toNat < 2 ^ 256) :
    (mulDiv a b c).shortfall (a.toNat * b.toNat / c.toNat) = 0 := by
  rw [shortfall, toNat_mulDiv_of_lt hfit, ← Nat.cast_mul, Nat.floor_div_eq_div, Nat.sub_self]

/-- The part that a tolerance leaves of an exact value. -/
def keptPart (bps : Nat) : ℚ := (10000 - bps : ℕ) / 10000

theorem keptPart_nonneg (bps : Nat) : 0 ≤ keptPart bps := by
  unfold keptPart
  positivity

theorem keptPart_le_one (bps : Nat) : keptPart bps ≤ 1 := by
  have hle : ((10000 - bps : ℕ) : ℚ) ≤ 10000 := by exact_mod_cast Nat.sub_le 10000 bps
  unfold keptPart
  linarith

/-- Taking a tolerance off only rounds when the product fits. -/
theorem shortfall_lessBps {a : Amount} {bps : Nat} (hfit : a.toNat * 10000 < 2 ^ 256) :
    (a.lessBps bps).shortfall (keptPart bps * a.toNat) = 0 := by
  have hpart : (ofNat (10000 - bps)).toNat = 10000 - bps := toNat_ofNat_of_lt (by omega)
  have hexact : keptPart bps * a.toNat =
      a.toNat * (ofNat (10000 - bps)).toNat / (ofNat 10000).toNat := by
    rw [hpart, keptPart, show (ofNat 10000).toNat = 10000 from rfl]
    push_cast
    ring
  rw [hexact, lessBps, applyBps]
  refine shortfall_mulDiv (Nat.lt_of_le_of_lt (Nat.mul_le_mul_left _ ?_) hfit)
  omega

/-- Nothing is left of nothing. -/
theorem lessBps_zero (bps : Nat) : (0 : Amount).lessBps bps = 0 :=
  mulDiv_zero_left (ofNat (10000 - bps)) (ofNat 10000)

/-- What an amount less a tolerance loses against the exact value less the tolerance: a unit for
each of two roundings, and any shortfalls. -/
def loss (a : Amount) (bps : Nat) (exact : ℚ) : ℚ :=
  2 + a.shortfall exact + (a.lessBps bps).shortfall (keptPart bps * a.toNat)

theorem loss_nonneg (a : Amount) (bps : Nat) (exact : ℚ) : 0 ≤ a.loss bps exact := by
  unfold loss
  positivity

/-- **A tolerance is taken off with a bounded loss.** -/
theorem keptPart_mul_le (a : Amount) (bps : Nat) (exact : ℚ) :
    keptPart bps * exact ≤ (a.lessBps bps).toNat + a.loss bps exact := by
  have hscaled := mul_le_mul_of_nonneg_left (a.le_add_shortfall exact) (keptPart_nonneg bps)
  have hkept := (a.lessBps bps).le_add_shortfall (keptPart bps * a.toNat)
  have hrounding : keptPart bps * (1 + a.shortfall exact) ≤ 1 + a.shortfall exact :=
    mul_le_of_le_one_left (by positivity) (keptPart_le_one bps)
  unfold loss
  linarith

end Amount

namespace Snapshot

/-- The price of one asset in units of another; zero when one of them is not priced. -/
def rate (x : Snapshot) (source target : Address) : ℚ :=
  if source = target then 1
  else match x.prices.get? source, x.prices.get? target with
    | some p, some q => p.toNat / q.toNat
    | _, _ => 0

theorem rate_self (x : Snapshot) (asset : Address) : x.rate asset asset = 1 := if_pos rfl

theorem rate_nonneg (x : Snapshot) (source target : Address) : 0 ≤ x.rate source target := by
  unfold rate
  split
  · exact zero_le_one
  · split
    · positivity
    · exact le_refl 0

/-- **A quote either is its exact value or scales by the prices.** -/
theorem quote_exact_or_scaled (x : Snapshot) (source target : Address) (a : Amount) :
    ((x.quote source target a).toNat : ℚ) = x.rate source target * a.toNat ∨
      ∃ p q, x.prices.get? source = some p ∧ x.quote source target a = a.mulDiv p q ∧
        x.rate source target * a.toNat = a.toNat * p.toNat / q.toNat := by
  by_cases heq : source = target
  · rw [quote, rate, if_pos heq, if_pos heq, one_mul]
    exact .inl rfl
  rw [quote, rate, if_neg heq, if_neg heq]
  cases hp : x.prices.get? source with
  | none => exact .inl (by simp)
  | some p =>
    cases hq : x.prices.get? target with
    | none => exact .inl (by simp)
    | some q => exact .inr ⟨p, q, rfl, rfl, by rw [div_mul_eq_mul_div, mul_comm]⟩

/-- A quote is at most its exact value. -/
theorem quote_le (x : Snapshot) (source target : Address) (a : Amount) :
    ((x.quote source target a).toNat : ℚ) ≤ x.rate source target * a.toNat := by
  obtain heq | ⟨p, q, -, hquote, hexact⟩ := x.quote_exact_or_scaled source target a
  · exact le_of_eq heq
  · rw [hquote, hexact]
    exact Amount.mulDiv_le a p q

/-- A quote only rounds when the product with the price fits. -/
theorem shortfall_quote {x : Snapshot} {source target : Address} {a : Amount}
    (hfit : ∀ p, x.prices.get? source = some p → a.toNat * p.toNat < 2 ^ 256) :
    (x.quote source target a).shortfall (x.rate source target * a.toNat) = 0 := by
  obtain heq | ⟨p, q, hp, hquote, hexact⟩ := x.quote_exact_or_scaled source target a
  · rw [← heq, Amount.shortfall, Nat.floor_natCast, Nat.sub_self]
  · rw [hquote, hexact]
    exact Amount.shortfall_mulDiv (hfit p hp)

end Snapshot

/-! ## What an exit guarantees -/

/-- What the calls of an exit guarantee of the coin at an index: the least amount of this coin that
the redemption pays out, and the least outputs of the exchanges. -/
def guaranteed (target : Nat) (calls : List Instruction) : Nat :=
  encodedAmount (1 + target) .withdraw calls + encodedAmount 3 .swap calls

/-- The calls of a list of parts together. -/
theorem encodedAmount_flatMap {α : Type} (i : Nat) (a : Action) (xs : List α)
    (f : α → List Instruction) :
    encodedAmount i a (xs.flatMap f) = (xs.map fun y => encodedAmount i a (f y)).sum := by
  induction xs with
  | nil => rfl
  | cons x rest ih =>
    rw [List.flatMap_cons, encodedAmount_append, ih, List.map_cons, List.sum_cons]

/-- A coin of a pool has an index. -/
theorem CurveProtocol.exists_coinIndex {p : CurveProtocol} {c : CurvePool} {asset pool : Address}
    (hc : p.pool pool = .ok c) (hasset : asset ∈ c.coins) :
    ∃ target, p.coinIndex asset pool = .ok target := by
  rw [coinIndex, hc, ok_bind]
  cases hindex : c.coins.idxOf? asset with
  | none => exact absurd hasset (List.idxOf?_eq_none_iff.1 hindex)
  | some target => exact ⟨target, rfl⟩

/-- Receipts of a curve pool that are redeemed for one of its coins. -/
structure CurveExit where
  /-- The protocol of the pool. -/
  protocol : CurveProtocol
  /-- The pool. -/
  pool : Address
  /-- Its configuration. -/
  config : CurvePool
  /-- The wanted coin. -/
  asset : Address
  /-- The receipts. -/
  receipts : Amount
  /-- The ledger. -/
  ledger : Ledger

namespace CurveExit

variable (e : CurveExit) (x : Snapshot) (coin : Address)

/-- The tolerance. -/
def slippage : Nat := e.protocol.slippageBps

/-- The share of a coin that the receipts stand for. -/
def share : Amount :=
  (e.ledger.balance coin e.pool).mulDiv e.receipts (e.ledger.supply e.config.receipt)

/-- The share before any rounding. -/
def exactShare : ℚ :=
  (e.ledger.balance coin e.pool).toNat * e.receipts.toNat /
    (e.ledger.supply e.config.receipt).toNat

/-- The least amount of a coin that is paid out. -/
def received : Amount := (e.share coin).lessBps e.slippage

/-- The least amount of a coin that is paid out, in units of the wanted coin. -/
def quoted : Amount := e.ledger.quote coin e.asset (e.received coin)

/-- What the exit guarantees for a coin: the wanted coin is paid out, and others are exchanged. -/
def secured : Amount :=
  if coin = e.asset then e.received coin else (e.quoted coin).lessBps e.slippage

/-- What rounding, and scaling that does not fit, cost at a coin, in units of the wanted coin. -/
def loss : ℚ :=
  let paid := (e.share coin).loss e.slippage (e.exactShare coin)
  if coin = e.asset then paid
  else x.rate coin e.asset * paid +
    (e.quoted coin).loss e.slippage (x.rate coin e.asset * (e.received coin).toNat)

/-- Every product that is computed for a coin fits into 256 bits. -/
structure Fits : Prop where
  /-- The product for the share. -/
  share : (e.ledger.balance coin e.pool).toNat * e.receipts.toNat < 2 ^ 256
  /-- The product for its tolerance. -/
  received : (e.share coin).toNat * 10000 < 2 ^ 256
  /-- The product for its quote. -/
  quoted : ∀ p, x.prices.get? coin = some p → (e.received coin).toNat * p.toNat < 2 ^ 256
  /-- The product for the tolerance of the exchange. -/
  secured : (e.quoted coin).toNat * 10000 < 2 ^ 256

variable {e x coin}

/-- **What is guaranteed for a coin is its value, less the tolerance of each step and a loss.** -/
theorem kept_value_le_secured :
    Amount.keptPart e.slippage ^ 2 * (x.rate coin e.asset * e.exactShare coin) ≤
      (e.secured coin).toNat + e.loss x coin := by
  have hkept := Amount.keptPart_nonneg e.slippage
  have hone := Amount.keptPart_le_one e.slippage
  have hpaid := (e.share coin).keptPart_mul_le e.slippage (e.exactShare coin)
  have hloss := (e.share coin).loss_nonneg e.slippage (e.exactShare coin)
  unfold secured loss
  by_cases hcoin : coin = e.asset
  · -- The wanted coin is not exchanged, so the second tolerance is not needed for it.
    rw [if_pos hcoin, if_pos hcoin, hcoin, x.rate_self, one_mul, ← hcoin]
    calc Amount.keptPart e.slippage ^ 2 * e.exactShare coin
        = Amount.keptPart e.slippage * (Amount.keptPart e.slippage * e.exactShare coin) := by ring
      _ ≤ Amount.keptPart e.slippage * ((e.received coin).toNat +
            (e.share coin).loss e.slippage (e.exactShare coin)) :=
          mul_le_mul_of_nonneg_left hpaid hkept
      _ ≤ (e.received coin).toNat + (e.share coin).loss e.slippage (e.exactShare coin) :=
          mul_le_of_le_one_left (by positivity) hone
  · rw [if_neg hcoin, if_neg hcoin]
    have hrate := x.rate_nonneg coin e.asset
    have hexchanged := (e.quoted coin).keptPart_mul_le e.slippage
      (x.rate coin e.asset * (e.received coin).toNat)
    -- The loss of the redemption is quoted, and the second tolerance only makes it smaller.
    have hcost : Amount.keptPart e.slippage * (x.rate coin e.asset *
          (e.share coin).loss e.slippage (e.exactShare coin)) ≤
        x.rate coin e.asset * (e.share coin).loss e.slippage (e.exactShare coin) :=
      mul_le_of_le_one_left (by positivity) hone
    calc Amount.keptPart e.slippage ^ 2 * (x.rate coin e.asset * e.exactShare coin)
        = Amount.keptPart e.slippage * (x.rate coin e.asset *
            (Amount.keptPart e.slippage * e.exactShare coin)) := by ring
      _ ≤ Amount.keptPart e.slippage * (x.rate coin e.asset * ((e.received coin).toNat +
            (e.share coin).loss e.slippage (e.exactShare coin))) :=
          mul_le_mul_of_nonneg_left (mul_le_mul_of_nonneg_left hpaid hrate) hkept
      _ ≤ _ := by linarith

/-- Where all products fit, two units of a coin are lost when it is paid out, and two more of the
wanted coin when it is exchanged. -/
theorem loss_of_fits (h : e.Fits x coin) (hquote : e.ledger.quote = x.quote) :
    e.loss x coin = if coin = e.asset then 2 else 2 * x.rate coin e.asset + 2 := by
  have hshare : (e.share coin).shortfall (e.exactShare coin) = 0 :=
    Amount.shortfall_mulDiv h.share
  have hquoted : (e.quoted coin).shortfall
      (x.rate coin e.asset * (e.received coin).toNat) = 0 := by
    rw [quoted, hquote]
    exact Snapshot.shortfall_quote h.quoted
  have hpaid : (e.share coin).loss e.slippage (e.exactShare coin) = 2 := by
    rw [Amount.loss, hshare, Amount.shortfall_lessBps h.received]
    norm_num
  have hexchanged : (e.quoted coin).loss e.slippage
      (x.rate coin e.asset * (e.received coin).toNat) = 2 := by
    rw [Amount.loss, hquoted, Amount.shortfall_lessBps h.secured]
    norm_num
  rw [loss, hpaid, hexchanged, mul_comm (x.rate coin e.asset)]

/-! ### The credit -/

/-- **The credit is at most the value of all shares.** -/
theorem credit_le {credit : Amount} (hquote : e.ledger.quote = x.quote)
    (hconfig : e.protocol.pool e.pool = .ok e.config)
    (hcredit : e.protocol.redeemed e.asset e.pool e.receipts e.ledger = .ok credit) :
    (credit.toNat : ℚ) ≤
      (e.config.coins.map fun coin => x.rate coin e.asset * e.exactShare coin).sum := by
  obtain ⟨receipt, hreceipt, h⟩ := bind_eq_ok.1 hcredit
  obtain ⟨value, hvalue, h⟩ := bind_eq_ok.1 h
  obtain ⟨c, hc, rfl⟩ := CurveProtocol.pool_of_receipt hreceipt
  rw [hconfig, Except.ok.injEq] at hc
  subst hc
  cases h
  obtain ⟨_, -, hvalue⟩ := bind_eq_ok.1 hvalue
  rw [hconfig, ok_bind, pure_eq_ok, Except.ok.injEq] at hvalue
  -- The value of the pool is at most that of its balances before any rounding.
  have hsum : (value.toNat : ℚ) ≤ (e.config.coins.map fun coin =>
      x.rate coin e.asset * (e.ledger.balance coin e.pool).toNat).sum := by
    have hle : value.toNat ≤ (e.config.coins.map fun coin =>
        (x.quote coin e.asset (e.ledger.balance coin e.pool)).toNat).sum := by
      rw [← hvalue, Amount.toNat_sum, List.map_map, hquote]
      exact Nat.min_le_left _ _
    calc (value.toNat : ℚ)
        ≤ ((e.config.coins.map fun coin =>
            (x.quote coin e.asset (e.ledger.balance coin e.pool)).toNat).sum : ℕ) := by
          exact_mod_cast hle
      _ = (e.config.coins.map fun coin =>
            ((x.quote coin e.asset (e.ledger.balance coin e.pool)).toNat : ℚ)).sum := by
          rw [Nat.cast_list_sum, List.map_map]
          rfl
      _ ≤ _ := List.sum_le_sum fun coin _ => x.quote_le coin e.asset _
  -- The receipts' part of this value is spread over the coins.
  calc ((e.receipts.mulDiv value (e.ledger.supply e.config.receipt)).toNat : ℚ)
      ≤ e.receipts.toNat * value.toNat / (e.ledger.supply e.config.receipt).toNat :=
        Amount.mulDiv_le _ _ _
    _ = e.receipts.toNat / (e.ledger.supply e.config.receipt).toNat * value.toNat := by ring
    _ ≤ e.receipts.toNat / (e.ledger.supply e.config.receipt).toNat *
          (e.config.coins.map fun coin =>
            x.rate coin e.asset * (e.ledger.balance coin e.pool).toNat).sum :=
        mul_le_mul_of_nonneg_left hsum (by positivity)
    _ = (e.config.coins.map fun coin => x.rate coin e.asset * e.exactShare coin).sum := by
        rw [← List.sum_map_mul_left]
        congr 1
        refine List.map_congr_left fun coin _ => ?_
        unfold exactShare
        ring

/-! ### The guarantee -/

/-- An exchange into the wanted coin asks for the least output that the exit guarantees. -/
theorem encodedAmount_exchange (hquote : e.ledger.quote = x.quote) {index target : Nat} :
    encodedAmount 3 .swap (e.protocol.exchange e.pool index target coin e.asset (e.received coin)
        e.ledger) =
      if index = target then 0 else ((e.quoted coin).lessBps e.slippage).toNat := by
  unfold CurveProtocol.exchange
  by_cases hindex : index = target
  · rw [if_pos (.inl hindex), if_pos hindex]
    rfl
  rw [if_neg hindex]
  by_cases hzero : e.received coin = 0
  · -- No exchange is made for nothing, and nothing is quoted at nothing.
    rw [if_pos (.inr hzero), quoted, hzero, hquote, x.quote_zero, Amount.lessBps_zero]
    rfl
  · have hcall : ∀ dx minOut, (Call.exchange index target dx minOut).Asks .swap 3 minOut :=
      fun _ _ => ⟨rfl, rfl⟩
    rw [if_neg fun h => h.elim hindex hzero, encodedAmount_cons_of_ne Action.noConfusion,
      encodedAmount_cons (hcall _ _), encodedAmount_nil, Nat.add_zero]
    rfl

/-- Without receipts nothing is secured. -/
theorem secured_eq_zero (hquote : e.ledger.quote = x.quote) (hzero : e.receipts = 0) :
    e.secured coin = 0 := by
  have hreceived : e.received coin = 0 := by
    have hshare : e.share coin = 0 := by
      have hle := Amount.toNat_mulDiv_le (e.ledger.balance coin e.pool) e.receipts
        (e.ledger.supply e.config.receipt)
      rw [hzero, Amount.toNat_zero, Nat.mul_zero, Nat.zero_div, Nat.le_zero] at hle
      rw [share, hzero]
      exact Amount.eq_zero_iff.2 hle
    rw [received, hshare, Amount.lessBps_zero]
  rw [secured, quoted, hreceived, hquote, x.quote_zero, Amount.lessBps_zero, ite_self]

/-- The calls of an exit: the receipts are redeemed, and every coin is exchanged. -/
def calls (e : CurveExit) (target : Nat) : List Instruction :=
  (Call.removeLiquidity e.receipts (e.config.coins.map e.received)).sentTo e.pool ::
    e.config.coins.zipIdx.flatMap fun entry =>
      e.protocol.exchange e.pool entry.2 target entry.1 e.asset (e.received entry.1) e.ledger

/-- **An exit of a pool of two or three coins has its calls**, and none without receipts. -/
theorem withdraw_eq (hconfig : e.protocol.pool e.pool = .ok e.config)
    (hsize : e.config.coins.length = 2 ∨ e.config.coins.length = 3) {target : Nat}
    (htarget : e.protocol.coinIndex e.asset e.pool = .ok target) :
    e.protocol.withdraw e.asset e.pool e.receipts e.ledger =
      .ok (if e.receipts = 0 then [] else e.calls target) := by
  rw [CurveProtocol.withdraw, htarget, ok_bind]
  by_cases hzero : e.receipts = 0
  · rw [if_pos hzero, if_pos hzero]
    rfl
  · have hchecked : e.protocol.checkSize e.pool e.config.coins = .ok () := if_pos hsize
    have hzip : e.config.coins.zip (e.config.coins.map e.received) =
        e.config.coins.map fun coin => (coin, e.received coin) := List.map_prod_left_eq_zip.symm
    rw [if_neg hzero, if_neg hzero, hconfig, ok_bind, hchecked, ok_bind]
    change Except.ok ((Call.removeLiquidity e.receipts (e.config.coins.map e.received)).sentTo
      e.pool :: (e.config.coins.zip (e.config.coins.map e.received)).zipIdx.flatMap _) = _
    rw [hzip, List.zipIdx_map, List.flatMap_map]
    rfl

/-- The wanted coin stands at one index only. -/
theorem index_eq_iff (hnodup : e.config.coins.Nodup) {target : Nat}
    (hplace : e.config.coins[target]? = some e.asset) {entry : Address × Nat}
    (hentry : entry ∈ e.config.coins.zipIdx) : entry.2 = target ↔ entry.1 = e.asset := by
  have hcoin := List.mem_zipIdx_iff_getElem?.1 hentry
  obtain ⟨htarget, -⟩ := List.getElem?_eq_some_iff.1 hplace
  constructor
  · intro hindex
    rw [hindex, hplace, Option.some.injEq] at hcoin
    exact hcoin.symm
  · intro hasset
    rw [hasset, ← hplace] at hcoin
    exact ((List.getElem?_inj htarget hnodup).1 hcoin.symm).symm

/-- **The calls guarantee what is secured for every coin.** -/
theorem guaranteed_calls (hquote : e.ledger.quote = x.quote) (hnodup : e.config.coins.Nodup)
    {target : Nat} (hplace : e.config.coins[target]? = some e.asset) :
    guaranteed target (e.calls target) =
      (e.config.coins.map fun coin => (e.secured coin).toNat).sum := by
  -- The wanted coin is what the redemption pays out at its index.
  have hpaid : (Call.removeLiquidity e.receipts (e.config.coins.map e.received)).Asks .withdraw
      (1 + target) (e.received e.asset) := by
    refine ⟨rfl, ?_⟩
    rw [Call.arguments, Nat.add_comm, List.getElem?_cons_succ, List.getElem?_map, List.getElem?_map,
      hplace]
    rfl
  have hexchanged : encodedAmount 3 .swap (e.calls target) = (e.config.coins.map fun coin =>
      if coin = e.asset then 0 else ((e.quoted coin).lessBps e.slippage).toNat).sum := by
    rw [calls, encodedAmount_cons_of_ne Action.noConfusion, encodedAmount_flatMap]
    conv_rhs => rw [← List.zipIdx_map_fst 0 e.config.coins, List.map_map]
    congr 1
    refine List.map_congr_left fun entry hentry => ?_
    simp only [encodedAmount_exchange hquote, index_eq_iff hnodup hplace hentry,
      Function.comp_apply]
  have hmem : e.asset ∈ e.config.coins := List.mem_of_getElem? hplace
  rw [guaranteed, hexchanged, calls, encodedAmount_cons hpaid, CurveProtocol.encodedAmount_exchanges
    (fun _ _ => CurveProtocol.action_exchange) Action.noConfusion Action.noConfusion, Nat.add_zero,
    Nat.add_comm]
  -- All other coins are exchanged, so the entry of the wanted one is what the exchanges lack.
  refine (sum_map_grown hnodup hmem ?_ fun coin hcoin => ?_).symm
  · rw [secured, if_pos rfl, if_pos rfl, Nat.zero_add]
  · rw [secured, if_neg hcoin, if_neg hcoin]

/-- An exit credits an amount to the owner, and its calls guarantee another one. -/
def Trades (e : CurveExit) (credit guarantee : Nat) : Prop :=
  ∃ target redeemed calls, e.protocol.coinIndex e.asset e.pool = .ok target ∧
    e.protocol.redeemed e.asset e.pool e.receipts e.ledger = .ok redeemed ∧
    e.protocol.withdraw e.asset e.pool e.receipts e.ledger = .ok calls ∧
    redeemed.toNat = credit ∧ guaranteed target calls = guarantee

/-- A pool of two or three distinct coins can be left for one of them, and what the calls guarantee
is what is secured for every coin. -/
theorem exists_trades (e : CurveExit) (hquote : e.ledger.quote = x.quote)
    (hconfig : e.protocol.pool e.pool = .ok e.config)
    (hsize : e.config.coins.length = 2 ∨ e.config.coins.length = 3)
    (hnodup : e.config.coins.Nodup) (hasset : e.asset ∈ e.config.coins) :
    ∃ redeemed, e.protocol.redeemed e.asset e.pool e.receipts e.ledger = .ok redeemed ∧
      e.Trades redeemed.toNat (e.config.coins.map fun coin => (e.secured coin).toNat).sum := by
  obtain ⟨target, htarget⟩ := CurveProtocol.exists_coinIndex hconfig hasset
  have hreceipt : (e.protocol.receipt e.asset e.pool).Succeeds := by
    refine ⟨e.config.receipt, ?_⟩
    rw [CurveProtocol.receipt, htarget, ok_bind, hconfig]
    rfl
  obtain ⟨redeemed, hredeemed⟩ := CurveProtocol.succeeds_redeemed hreceipt e.receipts e.ledger
  refine ⟨redeemed, hredeemed, target, redeemed, _, htarget, hredeemed,
    e.withdraw_eq hconfig hsize htarget, rfl, ?_⟩
  by_cases hzero : e.receipts = 0
  · -- Without receipts there are no calls, and nothing is promised.
    rw [if_pos hzero]
    simp [guaranteed, secured_eq_zero hquote hzero]
  · rw [if_neg hzero]
    exact guaranteed_calls hquote hnodup (CurveProtocol.coin_of_index htarget hconfig)

/-- **The credit, less both tolerances, is at most what is secured and what is lost.** -/
theorem kept_credit_le {redeemed : Amount} (hquote : e.ledger.quote = x.quote)
    (hconfig : e.protocol.pool e.pool = .ok e.config)
    (hredeemed : e.protocol.redeemed e.asset e.pool e.receipts e.ledger = .ok redeemed) :
    Amount.keptPart e.slippage ^ 2 * redeemed.toNat ≤
      ((e.config.coins.map fun coin => (e.secured coin).toNat).sum : ℕ) +
        (e.config.coins.map fun coin => e.loss x coin).sum :=
  calc Amount.keptPart e.slippage ^ 2 * redeemed.toNat
      ≤ Amount.keptPart e.slippage ^ 2 * (e.config.coins.map fun coin =>
          x.rate coin e.asset * e.exactShare coin).sum :=
        mul_le_mul_of_nonneg_left (credit_le hquote hconfig hredeemed) (sq_nonneg _)
    _ = (e.config.coins.map fun coin => Amount.keptPart e.slippage ^ 2 *
          (x.rate coin e.asset * e.exactShare coin)).sum := (List.sum_map_mul_left _ _ _).symm
    _ ≤ (e.config.coins.map fun coin => ((e.secured coin).toNat : ℚ) + e.loss x coin).sum :=
        List.sum_le_sum fun coin _ => kept_value_le_secured
    _ = _ := by
        rw [List.sum_map_add, Nat.cast_list_sum, List.map_map]
        rfl

end CurveExit

/-- **The credit of an exit, less both tolerances, is guaranteed up to rounding.** A pool of two or
three distinct coins is left for one of them. The credit is the quoted value of the receipts; the
tolerance is taken off it when the shares are paid out, and again when the other coins are
exchanged. Besides, each coin loses a few units, and more only where a product does not fit into 256
bits and is divided first. -/
theorem exit_credit_is_guaranteed (e : CurveExit) (x : Snapshot)
    (hquote : e.ledger.quote = x.quote) (hconfig : e.protocol.pool e.pool = .ok e.config)
    (hsize : e.config.coins.length = 2 ∨ e.config.coins.length = 3)
    (hnodup : e.config.coins.Nodup) (hasset : e.asset ∈ e.config.coins) :
    ∃ credit guarantee, e.Trades credit guarantee ∧
      Amount.keptPart e.slippage ^ 2 * credit ≤
        guarantee + (e.config.coins.map fun coin => e.loss x coin).sum ∧
      ((∀ coin ∈ e.config.coins, e.Fits x coin) →
        Amount.keptPart e.slippage ^ 2 * credit ≤
          guarantee + (e.config.coins.map fun coin =>
            if coin = e.asset then 2 else 2 * x.rate coin e.asset + 2).sum) := by
  obtain ⟨redeemed, hredeemed, htrades⟩ := e.exists_trades hquote hconfig hsize hnodup hasset
  have hcovered := CurveExit.kept_credit_le hquote hconfig hredeemed
  refine ⟨_, _, htrades, hcovered, fun hfits => ?_⟩
  have hloss : (e.config.coins.map fun coin => e.loss x coin) = e.config.coins.map fun coin =>
      if coin = e.asset then 2 else 2 * x.rate coin e.asset + 2 :=
    List.map_congr_left fun coin hcoin => CurveExit.loss_of_fits (hfits coin hcoin) hquote
  rwa [hloss] at hcovered

/-! ## A pool of two coins -/

namespace TwoCoins

open Leveraged (coin pool receipt)

/-- The other coin of the pool. -/
def other : Address := .ofNat 10

/-- The configuration of the pool. -/
def config : CurvePool := ⟨[coin, other], receipt, none, none⟩

/-- The balances of the pool and the supply of its receipts; the other coin is worth twice as
much. -/
def snapshot (first second supply : Amount) : Snapshot :=
  { balances := .ofList [((coin, pool), first), ((other, pool), second)]
    supplies := .ofList [(receipt, supply)]
    prices := .ofList [(coin, 1), (other, 2)] }

/-- Receipts that are redeemed for the first coin. -/
def redemption (slippage : Nat) (first second supply receipts : Amount) : CurveExit where
  protocol := ⟨"curve", ⟨.ofNat 9, 0⟩, slippage, .ofList [(pool, config)]⟩
  pool := pool
  config := config
  asset := coin
  receipts := receipts
  ledger := (snapshot first second supply).ledger

/-- The coins are distinct. -/
theorem nodup_coins : config.coins.Nodup := by decide

/-- The first coin is the wanted one. -/
theorem mem_coins : coin ∈ config.coins := by decide

/-- What a redemption credits and guarantees. -/
theorem trades {slippage : Nat} {first second supply receipts : Amount} {guarantee : Nat}
    (credited : Amount)
    (hcredit : (redemption slippage first second supply receipts).protocol.redeemed coin pool
      receipts (snapshot first second supply).ledger = .ok credited)
    (hguarantee : (config.coins.map fun c =>
      ((redemption slippage first second supply receipts).secured c).toNat).sum = guarantee) :
    (redemption slippage first second supply receipts).Trades credited.toNat guarantee := by
  obtain ⟨redeemed, hredeemed, htrades⟩ :=
    (redemption slippage first second supply receipts).exists_trades
      (x := snapshot first second supply) rfl rfl (.inl rfl) nodup_coins mem_coins
  have heq : credited = redeemed := Except.ok.inj (hcredit.symm.trans hredeemed)
  subst heq hguarantee
  exact htrades

/-- Both tolerances and eight units cover the credit for half of all receipts. -/
theorem half_is_guaranteed :
    let e := redemption 100 1000 500 2000 1000
    let x := snapshot 1000 500 2000
    e.ledger.quote = x.quote ∧ e.protocol.pool e.pool = .ok e.config ∧
    e.config.coins.length = 2 ∧ e.config.coins.Nodup ∧ e.asset ∈ e.config.coins ∧
    (∀ c ∈ e.config.coins, e.Fits x c) ∧
    ∃ credit guarantee, e.Trades credit guarantee ∧
      Amount.keptPart 100 ^ 2 * credit ≤ guarantee + 8 := by
  intro e x
  have hfits : ∀ c ∈ e.config.coins, e.Fits x c := by
    intro c hc
    rcases List.mem_cons.1 hc with rfl | hc
    · exact ⟨by decide, by decide, fun p hp => by cases hp; decide, by decide⟩
    · rw [List.mem_singleton.1 hc]
      exact ⟨by decide, by decide, fun p hp => by cases hp; decide, by decide⟩
  obtain ⟨credit, guarantee, htrades, -, hcovered⟩ :=
    exit_credit_is_guaranteed e x rfl rfl (.inl rfl) nodup_coins mem_coins
  refine ⟨rfl, rfl, rfl, nodup_coins, mem_coins, hfits, credit, guarantee, htrades, ?_⟩
  have hloss : (e.config.coins.map fun c =>
      if c = e.asset then 2 else 2 * x.rate c e.asset + 2).sum = 8 := by
    have hrate : x.rate other coin = (2 : ℕ) / (1 : ℕ) := if_neg (by decide)
    change (if coin = coin then (2 : ℚ) else _) +
      ((if other = coin then 2 else 2 * x.rate other coin + 2) + 0) = 8
    rw [if_pos rfl, if_neg (by decide), hrate]
    norm_num
  rw [← hloss]
  exact hcovered hfits

/-- **The credit of an exit is not guaranteed.** With a tolerance of one percent, half of all
receipts are credited 1000, and 984 are guaranteed. Without a tolerance, one of nine receipts is
credited 1, and both shares of the coins are rounded down to nothing. All receipts of a large pool
are credited all of it, but the share is divided first, and its remainder is not guaranteed. -/
theorem credit_exceeds_guarantee :
    (redemption 100 1000 500 2000 1000).Trades 1000 984 ∧
    (redemption 0 3 3 9 1).Trades 1 0 ∧
    ∃ guarantee, (redemption 0 .largest 0 (.ofNat (2 ^ 200)) (.ofNat (2 ^ 200))).Trades
      (2 ^ 256 - 1) guarantee ∧ guarantee + 2 ^ 200 - 1 ≤ 2 ^ 256 - 1 := by
  exact ⟨trades 1000 rfl rfl, trades 1 rfl rfl, _, trades .largest rfl rfl, by decide⟩

end TwoCoins

end VaultKeeper
