import VaultKeeper.Adapter
import VaultKeeper.Proofs.Outcome

/-! # Admitted deposits

How much of a requested deposit is admitted: never more than the request, and never more than what
the ceiling leaves over the position already held. -/

namespace VaultKeeper

namespace DepositCaps

variable {c : DepositCaps} {pool asset : Address} {requested value position : Amount}

/-- Clamping never adds to a request. -/
theorem clamp_le (c : DepositCaps) (pool asset : Address) (requested value position : Amount) :
    c.clamp pool asset requested value position ≤ requested := by
  rw [Amount.le_def, clamp]
  cases c.headroom pool asset value position with
  | none => exact Nat.le_refl _
  | some room =>
    rw [Amount.toNat_min]
    exact Nat.min_le_left _ _

/-- There is a ceiling unless deposits are unlimited. -/
theorem exists_limit (h : c.mode ≠ .unlimited) (pool asset : Address) (value : Amount) :
    ∃ ceiling, c.limit pool asset value = some ceiling := by
  unfold limit
  cases hmode : c.mode with
  | unlimited => exact absurd hmode h
  | amount => exact ⟨_, rfl⟩
  | poolPercentage => exact ⟨_, rfl⟩
  | protocolPercentage => exact ⟨_, rfl⟩

/-- A clamped deposit stays below the ceiling together with the position, unless nothing is
deposited. -/
theorem clamp_le_of_limit {ceiling : Amount} (h : c.limit pool asset value = some ceiling) :
    (c.clamp pool asset requested value position).toNat ≤ ceiling.toNat - position.toNat := by
  rw [clamp, headroom, h, Option.map_some, Amount.toNat_min, Amount.toNat_subSat]
  exact Nat.min_le_right _ _

end DepositCaps

namespace Protocol

variable {p : Protocol} {owner asset pool : Address} {requested paid : Amount}
  {caps : DepositCaps} {l : Ledger}

/-- What is admitted is part of the request. -/
theorem depositAmount_le (h : p.depositAmount owner asset pool requested caps l = .ok paid) :
    paid ≤ requested := by
  unfold depositAmount at h
  by_cases hmode : caps.mode = .unlimited
  · rw [if_pos hmode] at h
    cases h
    exact Nat.le_refl _
  · rw [if_neg hmode] at h
    obtain ⟨value, -, h⟩ := bind_eq_ok.1 h
    obtain ⟨position, -, h⟩ := bind_eq_ok.1 h
    cases h
    exact DepositCaps.clamp_le caps pool asset requested value position

/-- Where deposits are limited, a deposit is measured by the value of the pool and the position of
the owner. -/
theorem depositAmount_of_limited (hmode : caps.mode ≠ .unlimited)
    (h : p.depositAmount owner asset pool requested caps l = .ok paid) :
    ∃ value position, p.poolValue asset pool l = .ok value ∧
      p.positionValue owner asset pool l = .ok position ∧
      paid = caps.clamp pool asset requested value position := by
  rw [depositAmount, if_neg hmode] at h
  obtain ⟨value, hvalue, h⟩ := bind_eq_ok.1 h
  obtain ⟨position, hposition, h⟩ := bind_eq_ok.1 h
  cases h
  exact ⟨value, position, hvalue, hposition, rfl⟩

end Protocol

end VaultKeeper
