import Mathlib.Algebra.Order.Ring.Abs
import Mathlib.Algebra.Order.Ring.Rat
import Mathlib.Data.Nat.Cast.Order.Field
import Mathlib.Tactic.FieldSimp
import Mathlib.Tactic.Linarith
import Mathlib.Tactic.Push
import Mathlib.Tactic.Ring
import VaultKeeper.Proofs.Configured

/-! # Percentages that have basis points

A percentage is rounded to whole basis points before it is compared with the ends of its range. So
it has basis points exactly when its hundredfold is nearest to a number from zero to ten thousand:
half a basis point below zero and half a basis point above the whole are let in as well. Far beyond
the range, where the hundredfold does not fit in a mantissa, there is no answer at all. -/

namespace VaultKeeper

/-! ## The nearest whole number -/

/-- `n` is the whole number nearest to `x`, and the even one if two are equally near. -/
structure NearestEven (x : ℚ) (n : ℤ) : Prop where
  /-- No whole number is nearer. -/
  nearest : ∀ k : ℤ, |x - n| ≤ |x - k|
  /-- If another one is as near, this one is even. -/
  even : ∀ k : ℤ, k ≠ n → |x - n| = |x - k| → Even n

section NearestEven

variable {x y : ℚ} {m n k : ℤ}

/-- A nearest whole number is less than a half away, or exactly a half away and even. -/
theorem nearestEven_iff : NearestEven x n ↔ |x - n| < 1 / 2 ∨ (|x - n| = 1 / 2 ∧ Even n) := by
  constructor
  · intro h
    -- Only the two neighbours of `n` can be as near as `n` is.
    have habove := h.nearest (n + 1)
    have hbelow := h.nearest (n - 1)
    push_cast at habove hbelow
    rcases lt_trichotomy |x - n| (1 / 2) with hlt | heq | hgt
    · exact .inl hlt
    · refine .inr ⟨heq, ?_⟩
      rcases abs_choice (x - n) with hsign | hsign
      · refine h.even (n + 1) (by omega) ?_
        have hx : x - ((n + 1 : ℤ) : ℚ) = -(1 / 2) := by push_cast; linarith
        rw [heq, hx, abs_neg, abs_of_pos (by norm_num)]
      · refine h.even (n - 1) (by omega) ?_
        have hx : x - ((n - 1 : ℤ) : ℚ) = 1 / 2 := by push_cast; linarith
        rw [heq, hx, abs_of_pos (by norm_num)]
    · exfalso
      rcases abs_cases (x - n) with ⟨hn, -⟩ | ⟨hn, -⟩ <;>
        rcases abs_cases (x - (n + 1)) with ⟨ha, -⟩ | ⟨ha, -⟩ <;>
        rcases abs_cases (x - (n - 1)) with ⟨hb, -⟩ | ⟨hb, -⟩ <;> linarith
  · intro h
    have hhalf : |x - n| ≤ 1 / 2 := by
      rcases h with h | ⟨h, -⟩ <;> linarith
    -- Any other whole number is at least one away from `n`.
    have hfar : ∀ k : ℤ, k ≠ n → 1 - |x - n| ≤ |x - k| := by
      intro k hk
      have hone : (1 : ℚ) ≤ |(n : ℚ) - k| := by
        have hint : (1 : ℤ) ≤ |n - k| := Int.one_le_abs (sub_ne_zero.2 hk.symm)
        exact_mod_cast hint
      have htriangle := abs_sub_le (n : ℚ) x k
      rw [abs_sub_comm (n : ℚ) x] at htriangle
      linarith
    constructor
    · intro k
      by_cases hk : k = n
      · rw [hk]
      · have := hfar k hk
        linarith
    · intro k hk hsame
      have := hfar k hk
      rcases h with h | ⟨-, heven⟩
      · linarith
      · exact heven

/-- A nearest whole number is at most a half away. -/
theorem NearestEven.error_le (h : NearestEven x n) : |x - n| ≤ 1 / 2 := by
  rcases nearestEven_iff.1 h with h | ⟨h, -⟩
  · exact h.le
  · exact h.le

/-- **Rounding is monotone.** -/
theorem NearestEven.mono (hxy : x ≤ y) (hm : NearestEven x m) (hn : NearestEven y n) : m ≤ n := by
  by_contra hlt
  have hstep : (n : ℚ) + 1 ≤ m := by exact_mod_cast Int.add_one_le_iff.2 (not_le.1 hlt)
  have hx := abs_le.1 hm.error_le
  have hy := abs_le.1 hn.error_le
  -- Both numbers are the midpoint of `n` and `m`, which would both be even.
  have hmid : (m : ℚ) = n + 1 := by linarith
  have hxm : |x - m| = 1 / 2 := by
    rw [show x - m = -(1 / 2) by linarith, abs_neg, abs_of_pos (by norm_num)]
  have hyn : |y - n| = 1 / 2 := by
    rw [show y - n = 1 / 2 by linarith, abs_of_pos (by norm_num)]
  have hmeven : Even m := by
    rcases nearestEven_iff.1 hm with h | ⟨-, h⟩
    · exact absurd hxm h.ne
    · exact h
  have hneven : Even n := by
    rcases nearestEven_iff.1 hn with h | ⟨-, h⟩
    · exact absurd hyn h.ne
    · exact h
  have hsucc : m = n + 1 := by exact_mod_cast hmid
  rw [hsucc, Int.even_add_one] at hmeven
  exact hmeven hneven

/-- There is only one nearest whole number. -/
theorem NearestEven.unique (hm : NearestEven x m) (hn : NearestEven x n) : m = n :=
  le_antisymm (hm.mono le_rfl hn) (hn.mono le_rfl hm)

/-- Rounding does not depend on the sign. -/
theorem NearestEven.neg (h : NearestEven x n) : NearestEven (-x) (-n) := by
  have habs : |-x - ((-n : ℤ) : ℚ)| = |x - n| := by
    rw [Int.cast_neg, sub_neg_eq_add, neg_add_eq_sub, abs_sub_comm]
  rw [nearestEven_iff, habs, even_neg]
  exact nearestEven_iff.1 h

/-- An even number is nearest to the midpoint above it. -/
theorem nearestEven_add_half (hk : Even k) : NearestEven (k + 1 / 2) k := by
  refine nearestEven_iff.2 (.inr ⟨?_, hk⟩)
  rw [add_sub_cancel_left, abs_of_pos (by norm_num)]

/-- What rounds to at most an even number is at most half a unit above it. -/
theorem NearestEven.le_iff (h : NearestEven x n) (hk : Even k) : n ≤ k ↔ x ≤ k + 1 / 2 := by
  constructor
  · intro hle
    have hcast : (n : ℚ) ≤ k := by exact_mod_cast hle
    have := abs_le.1 h.error_le
    linarith
  · intro hle
    exact h.mono hle (nearestEven_add_half hk)

/-- What rounds to at least an even number is at most half a unit below it. -/
theorem NearestEven.ge_iff (h : NearestEven x n) (hk : Even k) : k ≤ n ↔ k - 1 / 2 ≤ x := by
  have hneg := h.neg.le_iff (even_neg.2 hk)
  rw [neg_le_neg_iff, Int.cast_neg] at hneg
  rw [hneg]
  constructor <;> intro hle <;> linarith

end NearestEven

/-- A rounded quotient is the whole number nearest to the quotient. -/
theorem Binary64.nearestEven_divRound (a : ℕ) {b : ℕ} (hb : 0 < b) :
    NearestEven ((a : ℚ) / b) (divRound a b : ℕ) := by
  have hbq : (0 : ℚ) < b := by exact_mod_cast hb
  have hsplit : (a : ℚ) / b = (a / b : ℕ) + (a % b : ℕ) / b := by
    rw [div_eq_iff hbq.ne', add_mul, div_mul_cancel₀ _ hbq.ne']
    exact_mod_cast (Nat.div_add_mod' a b).symm
  have hnonneg : (0 : ℚ) ≤ (a % b : ℕ) / b := by positivity
  have hless : ((a % b : ℕ) : ℚ) / b < 1 := by
    rw [div_lt_one hbq]
    exact_mod_cast Nat.mod_lt a hb
  rw [nearestEven_iff]
  unfold divRound
  rcases lt_trichotomy (2 * (a % b)) b with hlt | heq | hgt
  · -- The quotient is nearer to the whole number below it.
    have hhalf : ((a % b : ℕ) : ℚ) / b < 1 / 2 := by
      rw [div_lt_div_iff₀ hbq two_pos, one_mul, mul_comm]
      exact_mod_cast hlt
    rw [if_pos (.inl hlt), Int.cast_natCast, hsplit, add_sub_cancel_left, abs_of_nonneg hnonneg]
    exact .inl hhalf
  · have hhalf : ((a % b : ℕ) : ℚ) / b = 1 / 2 := by
      rw [div_eq_div_iff hbq.ne' two_ne_zero, one_mul, mul_comm]
      exact_mod_cast heq
    -- A tie goes to the even one of the two neighbours.
    by_cases heven : a / b % 2 = 0
    · rw [if_pos (.inr ⟨heq, heven⟩), Int.cast_natCast, hsplit, add_sub_cancel_left, hhalf,
        abs_of_pos (by norm_num)]
      exact .inr ⟨rfl, by exact_mod_cast Nat.even_iff.2 heven⟩
    · rw [if_neg (by omega), Int.cast_natCast, hsplit, hhalf, Nat.cast_add_one,
        add_sub_add_left_eq_sub]
      refine .inr ⟨by norm_num, ?_⟩
      exact_mod_cast Nat.even_add_one.2 (by rwa [Nat.even_iff])
  · -- The quotient is nearer to the whole number above it.
    have hhalf : 1 / 2 < ((a % b : ℕ) : ℚ) / b := by
      rw [div_lt_div_iff₀ two_pos hbq, one_mul, mul_comm]
      exact_mod_cast hgt
    rw [if_neg (by omega), Int.cast_natCast, hsplit, Nat.cast_add_one, add_sub_add_left_eq_sub,
      abs_sub_comm, abs_of_pos (by linarith)]
    exact .inl (by linarith)

/-! ## Basis points -/

namespace Decimal

variable {d e : Decimal} {m n : ℕ}

/-- The number that a decimal number stands for. -/
def toRat (d : Decimal) : ℚ := (if d.negative then -1 else 1) * (d.mantissa / 10 ^ d.scale)

/-- **The percentages that have basis points**: those from zero to one hundred, and half a basis
point around them. -/
def Tolerated (d : Decimal) : Prop := -(1 / 200) ≤ d.toRat ∧ d.toRat ≤ 100 + 1 / 200

/-- The hundredfold of a percentage, as a ratio. -/
theorem hundredfold_eq (d : Decimal) : 100 * d.toRat =
    (if d.negative then -1 else 1) * (((d.mantissa * 100 : ℕ) : ℚ) / ((10 ^ d.scale : ℕ) : ℚ)) := by
  rw [toRat]
  push_cast
  ring

/-- The hundredfold of a percentage without its sign. -/
theorem abs_hundredfold (d : Decimal) :
    |100 * d.toRat| = ((d.mantissa * 100 : ℕ) : ℚ) / ((10 ^ d.scale : ℕ) : ℚ) := by
  rw [hundredfold_eq]
  cases d.negative
  · rw [if_neg Bool.false_ne_true, one_mul, abs_of_nonneg (by positivity)]
  · rw [if_pos rfl, neg_one_mul, abs_neg, abs_of_nonneg (by positivity)]

/-- The hundredfold does not fit in a mantissa exactly when there are no places for it. -/
theorem mantissaBound_le_iff (d : Decimal) :
    mantissaBound ≤ d.mantissa * 100 / 10 ^ d.scale ↔ 2 ^ 96 ≤ |100 * d.toRat| := by
  have hpos : 0 < 10 ^ d.scale := by positivity
  have hposq : (0 : ℚ) < ((10 ^ d.scale : ℕ) : ℚ) := by exact_mod_cast hpos
  rw [abs_hundredfold, le_div_iff₀ hposq, Nat.le_div_iff_mul_le hpos, mantissaBound]
  exact_mod_cast Iff.rfl

/-- The whole number nearest to the hundredfold of a percentage. -/
theorem nearestEven_hundredfold (d : Decimal) : NearestEven (100 * d.toRat)
    ((if d.negative then -1 else 1) *
      (Binary64.divRound (d.mantissa * 100) (10 ^ d.scale) : ℕ)) := by
  have hmagnitude := Binary64.nearestEven_divRound (d.mantissa * 100)
    (show 0 < 10 ^ d.scale by positivity)
  rw [hundredfold_eq]
  cases d.negative
  · rw [if_neg Bool.false_ne_true, if_neg Bool.false_ne_true, one_mul, one_mul]
    exact hmagnitude
  · rw [if_pos rfl, if_pos rfl, neg_one_mul, neg_one_mul]
    exact hmagnitude.neg

/-- **A percentage has no answer exactly when its hundredfold does not fit in a mantissa.** -/
theorem toBps_eq_overflow_iff : d.toBps = .error .overflow ↔ 2 ^ 96 ≤ |100 * d.toRat| := by
  rw [← mantissaBound_le_iff, toBps]
  by_cases hlarge : mantissaBound ≤ d.mantissa * 100 / 10 ^ d.scale
  · simp [hlarge]
  · simp only [if_neg hlarge]
    refine ⟨fun h => ?_, fun h => absurd h hlarge⟩
    split at h
    · cases h
    · cases h

/-- **The basis points of a percentage** are the whole number nearest to its hundredfold, if that is
neither negative nor above the whole. -/
theorem toBps_eq_ok_iff : d.toBps = .ok n ↔ NearestEven (100 * d.toRat) n ∧ n ≤ 10000 := by
  have hnearest := d.nearestEven_hundredfold
  set bps := Binary64.divRound (d.mantissa * 100) (10 ^ d.scale) with hbps
  constructor
  · intro h
    simp only [toBps, ite_error_eq_ok', Bool.or_eq_true, Bool.and_eq_true, decide_eq_true_eq,
      not_or, not_and, not_not, Except.ok.injEq] at h
    obtain ⟨-, ⟨hsign, hle⟩, rfl⟩ := h
    rw [← hbps] at hsign hle ⊢
    refine ⟨?_, Nat.le_of_not_lt hle⟩
    cases hneg : d.negative with
    | false => simpa only [hneg, Bool.false_eq_true, if_false, one_mul] using hnearest
    | true =>
      -- A negative percentage has basis points only if it is rounded to zero.
      rw [hsign hneg] at hnearest ⊢
      simpa using hnearest
  · rintro ⟨hn, hle⟩
    have hsame := hnearest.unique hn
    have hvalue : bps = n ∧ (d.negative = true → bps = 0) := by
      cases hneg : d.negative with
      | false =>
        rw [hneg, if_neg Bool.false_ne_true, one_mul] at hsame
        exact ⟨by exact_mod_cast hsame, fun h => nomatch h⟩
      | true =>
        rw [hneg, if_pos rfl] at hsame
        omega
    -- What is rounded to a number in range is far too small to overflow.
    have hsmall : ¬mantissaBound ≤ d.mantissa * 100 / 10 ^ d.scale := by
      rw [mantissaBound_le_iff, not_le]
      have hn' : ((n : ℤ) : ℚ) ≤ 10000 := by exact_mod_cast hle
      have hclose := hn.error_le
      have htriangle := abs_sub_abs_le_abs_sub (100 * d.toRat) ((n : ℤ) : ℚ)
      rw [abs_of_nonneg (show (0 : ℚ) ≤ ((n : ℤ) : ℚ) by positivity)] at htriangle
      linarith
    obtain ⟨rfl, hzero⟩ := hvalue
    simp only [toBps, if_neg hsmall, ← hbps]
    rw [if_neg]
    simp only [Bool.or_eq_true, Bool.and_eq_true, decide_eq_true_eq, not_or, not_and, not_not]
    exact ⟨hzero, Nat.not_lt.2 hle⟩

/-- A percentage has basis points exactly when it is at most half a basis point out of range. -/
theorem exists_toBps_iff : (∃ n, d.toBps = .ok n) ↔ d.Tolerated := by
  obtain ⟨z, hz⟩ : ∃ z : ℤ, NearestEven (100 * d.toRat) z := ⟨_, d.nearestEven_hundredfold⟩
  have hlow := hz.ge_iff (k := 0) (by decide)
  have hhigh := hz.le_iff (k := 10000) (by decide)
  have hrange : d.Tolerated ↔ 0 ≤ z ∧ z ≤ 10000 := by
    rw [Tolerated, hlow, hhigh]
    push_cast
    constructor <;> rintro ⟨h, h'⟩ <;> constructor <;> linarith
  rw [hrange]
  constructor
  · rintro ⟨n, hn⟩
    obtain ⟨hnearest, hle⟩ := toBps_eq_ok_iff.1 hn
    rw [hz.unique hnearest]
    omega
  · rintro ⟨hnonneg, hle⟩
    refine ⟨z.toNat, toBps_eq_ok_iff.2 ⟨?_, by omega⟩⟩
    rwa [Int.toNat_of_nonneg hnonneg]

/-- A percentage is refused as out of range when it has an answer, but no basis points. -/
theorem toBps_eq_outOfRange_iff : d.toBps = .error .outOfRange ↔
    ¬d.Tolerated ∧ ¬2 ^ 96 ≤ |100 * d.toRat| := by
  rw [← exists_toBps_iff, ← toBps_eq_overflow_iff]
  cases d.toBps with
  | ok n => simp
  | error e => cases e <;> simp

/-- Larger percentages have at least as many basis points. -/
theorem toBps_mono (hle : d.toRat ≤ e.toRat) (hm : d.toBps = .ok m) (hn : e.toBps = .ok n) :
    m ≤ n := by
  have hhundred : 100 * d.toRat ≤ 100 * e.toRat := by linarith
  exact_mod_cast (toBps_eq_ok_iff.1 hm).1.mono hhundred (toBps_eq_ok_iff.1 hn).1

end Decimal

/-! ## Validation -/

/-- A percentage of a configuration, with the fault that is its own. -/
structure Share where
  /-- The percentage. -/
  percent : Decimal
  /-- What is reported when the percentage is out of range. -/
  own : ConfigFault

namespace Share

/-- What a share that is not tolerated is refused with. -/
def fault (s : Share) : ConfigFault :=
  if 2 ^ 96 ≤ |100 * s.percent.toRat| then .percentOverflow s.percent else s.own

instance (d : Decimal) : Decidable d.Tolerated := inferInstanceAs (Decidable (_ ∧ _))

/-- A tolerated share passes its check, and any other one is refused. -/
theorem checkPercent_eq (s : Share) : Config.checkPercent s.percent s.own =
    if s.percent.Tolerated then .ok () else .error s.fault := by
  unfold Config.checkPercent
  cases h : s.percent.toBps with
  | ok n => rw [if_pos (Decimal.exists_toBps_iff.1 ⟨n, h⟩)]
  | error e =>
    have hnone : ¬s.percent.Tolerated := by
      rw [← Decimal.exists_toBps_iff, h]
      rintro ⟨n, hn⟩
      cases hn
    rw [if_neg hnone, fault]
    cases e with
    | overflow => rw [if_pos (Decimal.toBps_eq_overflow_iff.1 h)]
    | outOfRange =>
      rw [if_neg]
      rw [← Decimal.toBps_eq_overflow_iff, h]
      exact fun hsame => nomatch hsame

end Share

namespace ProtocolConfig

/-- The percentages of single pools. -/
def poolShares (p : ProtocolConfig) : List Share :=
  p.depositCap.pools.map fun c => ⟨c.percent, .poolPercent p.id c.pool c.percent⟩

/-- The percentages of a protocol, in the order in which they are checked. -/
def shares (p : ProtocolConfig) : List Share :=
  ⟨p.depositCap.protocolPercent, .protocolPercent p.id p.depositCap.protocolPercent⟩ :: p.poolShares

/-- A protocol with no other percentage than zero. -/
def withoutShares (p : ProtocolConfig) : ProtocolConfig :=
  { p with depositCap := { p.depositCap with protocolPercent := .ofInt 0, pools := [] } }

end ProtocolConfig

namespace Config

variable {c : Config}

/-- The percentages of a configuration, in the order in which they are checked. -/
def shares (c : Config) : List Share := c.protocols.flatMap (·.shares)

/-- A configuration with no other percentage than zero. -/
def withoutShares (c : Config) : Config :=
  { c with protocols := c.protocols.map (·.withoutShares) }

/-- Check shares in order. -/
def checkShares (xs : List Share) : Except ConfigFault Unit :=
  xs.forM fun s => checkPercent s.percent s.own

/-- Shares are checked one after the other. -/
theorem checkShares_cons (s : Share) (rest : List Share) :
    checkShares (s :: rest) = checkPercent s.percent s.own >>= fun _ => checkShares rest := rfl

/-- The shares of items are checked item by item. -/
theorem checkShares_map {α : Type} (share : α → Share) (xs : List α) :
    checkShares (xs.map share) = xs.forM fun x => checkPercent (share x).percent (share x).own := by
  induction xs with
  | nil => rfl
  | cons x rest ih =>
    rw [List.map_cons, checkShares_cons, ih]
    rfl

/-- Shares of two lists are checked one list after the other. -/
theorem checkShares_append (xs ys : List Share) :
    checkShares (xs ++ ys) = checkShares xs >>= fun _ => checkShares ys := by
  induction xs with
  | nil => rfl
  | cons s rest ih => rw [List.cons_append, checkShares_cons, checkShares_cons, ih, bind_assoc]

/-- **The first share that is not tolerated** decides. -/
theorem fault?_checkShares (xs : List Share) :
    (checkShares xs).fault? = (xs.find? fun s => ¬s.percent.Tolerated).map (·.fault) := by
  induction xs with
  | nil => rfl
  | cons s rest ih =>
    rw [checkShares_cons, s.checkPercent_eq]
    by_cases h : s.percent.Tolerated
    · rw [if_pos h, ok_bind, ih, List.find?_cons_of_neg (by simp [h])]
    · rw [if_neg h, error_bind, Except.fault?_error, List.find?_cons_of_pos (by simp [h]),
        Option.map_some]

/-- Shares pass when all of them are tolerated. -/
theorem checkShares_eq_ok_iff {xs : List Share} :
    checkShares xs = .ok () ↔ ∀ s ∈ xs, s.percent.Tolerated := by
  rw [checkShares, forM_eq_ok]
  refine forall₂_congr fun s _ => ?_
  rw [s.checkPercent_eq, ite_error_eq_ok, and_iff_left rfl]

/-- An otherwise valid protocol is as valid as its shares. -/
theorem checkProtocol_eq {p : ProtocolConfig} (h : checkProtocol p.withoutShares = .ok ()) :
    checkProtocol p = checkShares p.shares := by
  simp only [checkProtocol, throw_eq_error, error_bind, ite_error_eq_ok', bind_eq_ok] at h ⊢
  obtain ⟨hltv, hlending, hslippage, _, -, _, -, hamounts⟩ := h
  -- Everything but the percentages is read off the protocol as it stands.
  have hltv' : ¬10000 ≤ p.ltvBps := hltv
  have hlending' : ¬(p.kind = .lending ∧ p.ltvBps = 0) := hlending
  have hslippage' : ¬10000 < p.slippageBps := hslippage
  have hpools : (p.depositCap.pools.forM fun c =>
      checkPercent c.percent (.poolPercent p.id c.pool c.percent)) = checkShares p.poolShares := by
    rw [ProtocolConfig.poolShares, checkShares_map]
  rw [if_neg hltv', if_neg hlending', if_neg hslippage', hpools, ProtocolConfig.shares,
    checkShares_cons]
  cases checkPercent p.depositCap.protocolPercent (.protocolPercent p.id _) with
  | error e => rfl
  | ok _ =>
    cases checkShares p.poolShares with
    | error e => rfl
    | ok _ => exact hamounts

/-- A valid protocol is valid without its shares. -/
theorem checkProtocol_withoutShares {p : ProtocolConfig} (h : checkProtocol p = .ok ()) :
    checkProtocol p.withoutShares = .ok () := by
  simp only [checkProtocol, throw_eq_error, error_bind, ite_error_eq_ok', bind_eq_ok] at h ⊢
  obtain ⟨hltv, hlending, hslippage, _, -, _, -, hamounts⟩ := h
  have hzero : checkPercent (.ofInt 0) (.protocolPercent p.id (.ofInt 0)) = .ok () := rfl
  exact ⟨hltv, hlending, hslippage, (), hzero, (), rfl, hamounts⟩

/-- Protocols are as valid as their shares. -/
theorem checkProtocols_eq {ps : List ProtocolConfig} {seen : List String}
    (h : checkDistinct (·.id) .duplicateProtocol checkProtocol seen (ps.map (·.withoutShares)) =
      .ok ()) :
    checkDistinct (·.id) .duplicateProtocol checkProtocol seen ps =
      checkShares (ps.flatMap (·.shares)) := by
  induction ps generalizing seen with
  | nil => rfl
  | cons p rest ih =>
    simp only [List.map_cons, checkDistinct, throw_eq_error, error_bind, ite_error_eq_ok',
      bind_eq_ok] at h ⊢
    obtain ⟨hnew, _, hp, hrest⟩ := h
    rw [if_neg (show ¬p.id ∈ seen from hnew), checkProtocol_eq hp, List.flatMap_cons,
      checkShares_append]
    cases checkShares p.shares with
    | error e => rfl
    | ok _ => exact ih hrest

/-- Valid protocols are valid without their shares. -/
theorem checkProtocols_withoutShares {ps : List ProtocolConfig} {seen : List String}
    (h : checkDistinct (·.id) .duplicateProtocol checkProtocol seen ps = .ok ()) :
    checkDistinct (·.id) .duplicateProtocol checkProtocol seen (ps.map (·.withoutShares)) =
      .ok () := by
  induction ps generalizing seen with
  | nil => rfl
  | cons p rest ih =>
    simp only [List.map_cons, checkDistinct, throw_eq_error, error_bind, ite_error_eq_ok',
      bind_eq_ok] at h ⊢
    obtain ⟨hnew, _, hp, hrest⟩ := h
    exact ⟨hnew, (), checkProtocol_withoutShares hp, ih hrest⟩

/-- The check of a pool does not read the shares. -/
theorem checkPool_withoutShares (ps : List ProtocolConfig) :
    checkPool (ps.map (·.withoutShares)) = checkPool ps := by
  funext q
  have hfind : (ps.map (·.withoutShares)).find? (·.id == q.protocol) =
      (ps.find? (·.id == q.protocol)).map (·.withoutShares) := List.find?_map ..
  unfold checkPool
  rw [hfind]
  cases ps.find? (·.id == q.protocol) with
  | none => rfl
  | some p => rfl

/-- **An otherwise valid configuration is as valid as its shares.** -/
theorem validate_eq (h : c.withoutShares.validate = .ok ()) : c.validate = checkShares c.shares := by
  simp only [validate, throw_eq_error, error_bind, ite_error_eq_ok', bind_eq_ok] at h ⊢
  obtain ⟨hcycle, hpath, _, hprotocols, _, hpools, _, hprofiles, hvaults⟩ := h
  have hpools' : checkDistinct (·.address) .duplicatePool (checkPool c.protocols) [] c.pools =
      .ok () := by
    rw [← checkPool_withoutShares]
    exact hpools
  rw [if_neg (show ¬c.service.cycleSeconds = 0 from hcycle),
    if_neg (show ¬c.snapshotPath.isEmpty = true from hpath), checkProtocols_eq hprotocols, shares]
  cases hshares : checkShares (c.protocols.flatMap (·.shares)) with
  | error e => rfl
  | ok _ =>
    rw [ok_bind, hpools', ok_bind,
      show checkDistinct (·.name) .duplicateProfile checkProfile [] c.riskProfiles = .ok () from
        hprofiles, ok_bind]
    exact hvaults

/-- A valid configuration is valid without its shares. -/
theorem validate_withoutShares (h : c.validate = .ok ()) : c.withoutShares.validate = .ok () := by
  simp only [validate, throw_eq_error, error_bind, ite_error_eq_ok', bind_eq_ok] at h ⊢
  obtain ⟨hcycle, hpath, _, hprotocols, _, hpools, _, hprofiles, hvaults⟩ := h
  refine ⟨hcycle, hpath, (), checkProtocols_withoutShares hprotocols, (), ?_, (), hprofiles, hvaults⟩
  rw [← checkPool_withoutShares] at hpools
  exact hpools

/-- **A configuration is valid exactly when it is valid without its shares and all of them are
tolerated.** -/
theorem validate_eq_ok_iff : c.validate = .ok () ↔
    c.withoutShares.validate = .ok () ∧ ∀ s ∈ c.shares, s.percent.Tolerated := by
  constructor
  · intro h
    have hother := validate_withoutShares h
    rw [validate_eq hother] at h
    exact ⟨hother, checkShares_eq_ok_iff.1 h⟩
  · rintro ⟨hother, hshares⟩
    rw [validate_eq hother]
    exact checkShares_eq_ok_iff.2 hshares

end Config

/-- **Percentages are rounded into their range.** A percentage has basis points exactly when the whole
number nearest to its hundredfold, of two the even one, is neither negative nor above ten thousand,
and then it is that number; so what is at most half a basis point out of range is accepted too.
Larger percentages have at least as many basis points. There is no answer exactly when the
hundredfold does not fit in a mantissa. So a percentage is refused as out of range exactly when it is
out of range, unless it is out by half a basis point at most or does not fit. A configuration is
valid when its other rules are kept and all its percentages are accepted; otherwise the first one
that is not accepted decides, with its own fault unless there is no answer. -/
theorem percentages_are_rounded_into_range (d : Decimal) (c : Config) :
    (∀ n : ℕ, d.toBps = .ok n ↔ NearestEven (100 * d.toRat) n ∧ n ≤ 10000) ∧
    ((∃ n, d.toBps = .ok n) ↔ -(1 / 200) ≤ d.toRat ∧ d.toRat ≤ 100 + 1 / 200) ∧
    (∀ (e : Decimal) (m n : ℕ), d.toRat ≤ e.toRat → d.toBps = .ok m → e.toBps = .ok n → m ≤ n) ∧
    (d.toBps = .error .overflow ↔ 2 ^ 96 ≤ |100 * d.toRat|) ∧
    ((d.toBps = .error .outOfRange ↔ ¬(0 ≤ d.toRat ∧ d.toRat ≤ 100)) ↔
      (0 ≤ d.toRat ∧ d.toRat ≤ 100) ∨ ¬d.Tolerated ∧ ¬2 ^ 96 ≤ |100 * d.toRat|) ∧
    (c.validate = .ok () ↔
      c.withoutShares.validate = .ok () ∧ ∀ s ∈ c.shares, s.percent.Tolerated) ∧
    (c.withoutShares.validate = .ok () → c.validate.fault? =
      (c.shares.find? fun s => ¬s.percent.Tolerated).map (·.fault)) := by
  refine ⟨fun n => Decimal.toBps_eq_ok_iff, Decimal.exists_toBps_iff, fun e m n => Decimal.toBps_mono,
    Decimal.toBps_eq_overflow_iff, ?_, Config.validate_eq_ok_iff, fun hother => ?_⟩
  · rw [Decimal.toBps_eq_outOfRange_iff]
    by_cases hrange : 0 ≤ d.toRat ∧ d.toRat ≤ 100
    · have htolerated : d.Tolerated := ⟨by linarith [hrange.1], by linarith [hrange.2]⟩
      simp [hrange, htolerated]
    · simp only [hrange, not_false_eq_true, iff_true, false_or]
  · rw [Config.validate_eq hother]
    exact Config.fault?_checkShares c.shares

namespace Capped

/-- A configuration of one protocol that limits its deposits to a share of each pool's value. -/
def deployment (share : Decimal) : Config where
  service := { name := "allocator" }
  snapshotPath := "chain_snapshot.json"
  governance := { admin := .ofNat 11 }
  protocols := [{
    id := "vaults"
    kind := .vault
    depositCap := { mode := .protocolPercentage, protocolPercent := share } }]
  pools := []
  riskProfiles := []

/-- A whole basis point above one hundred percent is refused with a fault of its own. -/
theorem excess_is_refused : (deployment ⟨false, 10001, 2⟩).withoutShares.validate = .ok () ∧
    (deployment ⟨false, 10001, 2⟩).validate.fault? =
      some (.protocolPercent "vaults" ⟨false, 10001, 2⟩) := by
  have hother : (deployment ⟨false, 10001, 2⟩).withoutShares.validate = .ok () := rfl
  refine ⟨hother, ?_⟩
  obtain ⟨-, -, -, -, -, -, hvalid⟩ :=
    percentages_are_rounded_into_range ⟨false, 10001, 2⟩ (deployment ⟨false, 10001, 2⟩)
  rw [hvalid hother]
  have hlarge : ¬Decimal.Tolerated ⟨false, 10001, 2⟩ := by
    norm_num [Decimal.Tolerated, Decimal.toRat]
  have hfits : ¬(2 : ℚ) ^ 96 ≤ |100 * Decimal.toRat ⟨false, 10001, 2⟩| := by
    norm_num [Decimal.toRat]
  show (List.find? _ [_]).map Share.fault = _
  rw [List.find?_cons_of_pos (by simpa using hlarge), Option.map_some, Share.fault, if_neg hfits]

/-- A percentage above one hundred is accepted as the whole, a negative one as nothing, and for the
greatest one there is no answer. -/
theorem excess_is_accepted :
    100 < Decimal.toRat ⟨false, 100004, 3⟩ ∧ Decimal.toBps ⟨false, 100004, 3⟩ = .ok 10000 ∧
      (deployment ⟨false, 100004, 3⟩).validate = .ok () ∧
    Decimal.toRat ⟨true, 4, 3⟩ < 0 ∧ Decimal.toBps ⟨true, 4, 3⟩ = .ok 0 ∧
      (deployment ⟨true, 4, 3⟩).validate = .ok () ∧
    Decimal.toBps ⟨false, 2 ^ 96 - 1, 0⟩ = .error .overflow ∧
      (deployment ⟨false, 2 ^ 96 - 1, 0⟩).validate =
        .error (.percentOverflow ⟨false, 2 ^ 96 - 1, 0⟩) := by
  refine ⟨?_, rfl, rfl, ?_, rfl, rfl, rfl, rfl⟩
  · norm_num [Decimal.toRat]
  · norm_num [Decimal.toRat]

end Capped

end VaultKeeper
