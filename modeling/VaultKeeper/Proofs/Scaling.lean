import VaultKeeper.Proofs.CurveWithdrawal
import VaultKeeper.Proofs.RepeatedRequests

/-! # Scaling never gains

The product of two amounts may need twice as many bits as an amount has. Where it does not fit, the
quotient is taken first and scaled afterwards, which loses less than the factor, or saturates. None
of this ever rounds up, so an amount that is converted through a ratio and back is at most what it
was, whichever way each of the two conversions is computed. -/

namespace VaultKeeper

namespace Amount

variable {a b c : Amount}

/-- Scaling divides first when the product does not fit. -/
theorem toNat_mulDiv_of_le (hc : 0 < c.toNat) (hover : 2 ^ 256 ≤ a.toNat * b.toNat) :
    (a.mulDiv b c).toNat = min (a.toNat / c.toNat * b.toNat) (2 ^ 256 - 1) := by
  rw [mulDiv, if_neg (Nat.ne_of_gt hc), if_neg (Nat.not_lt.2 hover), toNat_ofNat]

/-- **Dividing first loses less than the factor**, unless the result saturates. -/
theorem mulDiv_cases (hc : 0 < c.toNat) (hover : 2 ^ 256 ≤ a.toNat * b.toNat) :
    a.mulDiv b c = largest ∨
      a.toNat * b.toNat < ((a.mulDiv b c).toNat + b.toNat) * c.toNat := by
  have hb : 0 < b.toNat := by
    refine Nat.pos_of_ne_zero fun hzero => ?_
    rw [hzero, Nat.mul_zero] at hover
    exact absurd hover (by decide)
  have hvalue := toNat_mulDiv_of_le hc hover
  by_cases hfit : a.toNat / c.toNat * b.toNat < 2 ^ 256
  · -- The remainder is less than the divisor, and it is all that the factor misses.
    right
    have hexact : (a.mulDiv b c).toNat = a.toNat / c.toNat * b.toNat := by omega
    calc a.toNat * b.toNat
        < c.toNat * (a.toNat / c.toNat + 1) * b.toNat :=
          Nat.mul_lt_mul_of_pos_right (Nat.lt_mul_div_succ a.toNat hc) hb
      _ = ((a.mulDiv b c).toNat + b.toNat) * c.toNat := by
          rw [hexact]
          ring
  · left
    refine Amount.ext ?_
    change _ = 2 ^ 256 - 1
    omega

/-- **There and back again never gains**, whatever the ratio is. -/
theorem mulDiv_mulDiv_le (x a b : Amount) : (x.mulDiv a b).mulDiv b a ≤ x :=
  calc ((x.mulDiv a b).mulDiv b a).toNat
      ≤ (x.mulDiv a b).toNat * b.toNat / a.toNat := toNat_mulDiv_le _ b a
    _ ≤ x.toNat * a.toNat / b.toNat * b.toNat / a.toNat :=
        Nat.div_le_div_right (Nat.mul_le_mul_right _ (toNat_mulDiv_le x a b))
    _ ≤ x.toNat * a.toNat / a.toNat := Nat.div_le_div_right (Nat.div_mul_le_self _ _)
    _ ≤ x.toNat := Nat.div_le_of_le_mul (Nat.le_of_eq (Nat.mul_comm _ _))

end Amount

/-- A quote of a quote never gains. -/
theorem Snapshot.quote_quote_le (x : Snapshot) (source target : Address) (a : Amount) :
    x.quote target source (x.quote source target a) ≤ a := by
  unfold quote
  by_cases hsame : source = target
  · rw [if_pos hsame, if_pos hsame.symm]
    exact Nat.le_refl _
  rw [if_neg hsame, if_neg (Ne.symm hsame)]
  -- Both ways need both prices, and without them nothing is left.
  cases x.prices.get? source with
  | none =>
    cases x.prices.get? target <;> exact Nat.zero_le _
  | some p =>
    cases x.prices.get? target with
    | none => exact Nat.zero_le _
    | some q => exact Amount.mulDiv_mulDiv_le a p q

/-- **Scaling never gains, and what it loses is bounded.** For amounts of the whole range, scaling
is at most the exact quotient, and exact up to rounding when the product fits. Otherwise it is the
largest amount and the exact quotient is at least that, or it misses less than the factor. Nothing
is left over a zero denominator. So a part is at most the whole, a share of at most all basis points
is at most the amount, and converting through a ratio, or through the prices of two assets, and back
never gains. -/
theorem scaling_never_gains :
    (∀ a b c : Amount, 0 < c.toNat →
      (a.mulDiv b c).toNat ≤ a.toNat * b.toNat / c.toNat ∧
      (a.toNat * b.toNat < 2 ^ 256 → (a.mulDiv b c).toNat = a.toNat * b.toNat / c.toNat) ∧
      (2 ^ 256 ≤ a.toNat * b.toNat →
        (a.mulDiv b c).toNat = 2 ^ 256 - 1 ∧
          ((2 ^ 256 - 1 : ℕ) : ℚ) ≤ a.toNat * b.toNat / c.toNat ∨
        (a.toNat * b.toNat / c.toNat : ℚ) < (a.mulDiv b c).toNat + b.toNat)) ∧
    (∀ a b : Amount, a.mulDiv b 0 = 0) ∧
    (∀ a b c : Amount, b ≤ c → a.mulDiv b c ≤ a) ∧
    (∀ (a : Amount) (bps : Nat), bps ≤ 10000 → a.applyBps bps ≤ a) ∧
    (∀ x a b : Amount, (x.mulDiv a b).mulDiv b a ≤ x) ∧
    ∀ (x : Snapshot) (source target : Address) (a : Amount),
      x.quote target source (x.quote source target a) ≤ a := by
  refine ⟨fun a b c hc => ⟨Amount.toNat_mulDiv_le a b c, Amount.toNat_mulDiv_of_lt, ?_⟩,
    Amount.mulDiv_zero_right, fun a b c => Amount.mulDiv_le_left,
    fun a bps hbps => DepositCaps.applyBps_le hbps a, Amount.mulDiv_mulDiv_le,
    Snapshot.quote_quote_le⟩
  intro hover
  have hc' : (0 : ℚ) < c.toNat := by exact_mod_cast hc
  rcases Amount.mulDiv_cases hc hover with hlargest | hshort
  · have hvalue : (a.mulDiv b c).toNat = 2 ^ 256 - 1 := congrArg Amount.toNat hlargest
    refine .inl ⟨hvalue, ?_⟩
    rw [← hvalue]
    exact Amount.mulDiv_le a b c
  · right
    rw [div_lt_iff₀ hc']
    exact_mod_cast hshort

namespace Overflowing

/-- Half of the range, and a little. -/
def amount : Amount := .ofNat (2 ^ 255 + 3)

/-- Seven quarters of it do not fit into the product: dividing first misses five units, which is
less than the factor, and the way back does not gain. -/
theorem five_are_missed : 0 < (4 : Amount).toNat ∧ 2 ^ 256 ≤ amount.toNat * (7 : Amount).toNat ∧
    (amount.mulDiv 7 4).toNat + 5 = amount.toNat * 7 / 4 ∧
    (amount.toNat * (7 : Amount).toNat / (4 : Amount).toNat : ℚ) <
      (amount.mulDiv 7 4).toNat + (7 : Amount).toNat ∧
    (amount.mulDiv 7 4).mulDiv 4 7 ≤ amount := by
  obtain ⟨hscaled, -, -, -, hback, -⟩ := scaling_never_gains
  have hfour : 0 < (4 : Amount).toNat := by decide
  have hover : 2 ^ 256 ≤ amount.toNat * (7 : Amount).toNat := by decide +kernel
  have hmissed : (amount.mulDiv 7 4).toNat + 5 = amount.toNat * 7 / 4 := by decide +kernel
  have hfits : (amount.mulDiv 7 4).toNat ≠ 2 ^ 256 - 1 := by decide +kernel
  have hbound := ((hscaled amount 7 4 hfour).2.2 hover).resolve_left fun h => hfits h.1
  exact ⟨hfour, hover, hmissed, hbound, hback amount 7 4⟩

end Overflowing

end VaultKeeper
