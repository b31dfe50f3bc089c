import VaultKeeper.Proofs.Admission
import VaultKeeper.Proofs.Consistency
import VaultKeeper.Proofs.LoanToValue

/-! # Requests that share a headroom

Each request for a deposit is clamped to what the ceiling leaves over the position that the requests
before it have built up. While the pool keeps its value, a list of requests therefore deposits what
one request for their sum would: nothing is gained by splitting a request, nothing is lost, and the
order does not matter. -/

namespace VaultKeeper

/-- The sum of amounts, without a bound. -/
def Amount.total (xs : List Amount) : Nat := (xs.map toNat).sum

@[simp] theorem Amount.total_nil : Amount.total [] = 0 := rfl

@[simp] theorem Amount.total_cons (x : Amount) (xs : List Amount) :
    Amount.total (x :: xs) = x.toNat + Amount.total xs := by
  simp [Amount.total]

namespace DepositCaps

/-- Caps that start from a mode and are changed by their setters. -/
inductive Built : DepositCaps → Prop
  /-- Only the mode is chosen. -/
  | new (mode : CapMode) : Built { mode }
  /-- The mode is changed. -/
  | setMode {c : DepositCaps} (h : Built c) (mode : CapMode) : Built (c.setMode mode)
  /-- The share of the protocol is accepted. -/
  | setProtocolBps {c c' : DepositCaps} {bps : Nat} (h : Built c)
      (hset : c.setProtocolBps bps = .ok c') : Built c'
  /-- The share of a pool is accepted. -/
  | setPoolBps {c c' : DepositCaps} {pool : Address} {bps : Nat} (h : Built c)
      (hset : c.setPoolBps pool bps = .ok c') : Built c'
  /-- A fixed amount is set. -/
  | setAmount {c : DepositCaps} (h : Built c) (pool asset : Address) (amount : Amount) :
      Built (c.setAmount pool asset amount)

/-- What requests deposit one after the other, while the pool keeps its value. -/
def deposits (c : DepositCaps) (pool asset : Address) (value : Amount) :
    (position : Amount) → (requests : List Amount) → List Amount
  | _, [] => []
  | position, r :: rest =>
    let paid := c.clamp pool asset r value position
    paid :: c.deposits pool asset value (position.addSat paid) rest

/-- The part of a quantity that a headroom admits. -/
def admitted : (headroom : Option Amount) → (requested : Nat) → Nat
  | none, n => n
  | some room, n => min n room.toNat

variable {c : DepositCaps} {pool asset : Address} {r r' value position position' ceiling : Amount}

/-- **Shares that setters accept are at most the whole.** -/
theorem Built.bounded (h : c.Built) : c.Bounded := by
  induction h with
  | new mode => exact ⟨Nat.zero_le _, fun h => nomatch h⟩
  | setMode _ mode ih => exact ⟨ih.protocol, ih.pools⟩
  | setProtocolBps _ hset ih => exact ih.setProtocolBps hset
  | setPoolBps _ hset ih => exact ih.setPoolBps hset
  | setAmount _ pool asset amount ih => exact ⟨ih.protocol, ih.pools⟩

/-! ## One request -/

/-- There is no ceiling exactly when deposits are unlimited. -/
theorem headroom_eq_none_iff :
    c.headroom pool asset value position = none ↔ c.mode = .unlimited := by
  rw [headroom, Option.map_eq_none_iff]
  constructor
  · intro hnone
    by_cases hmode : c.mode = .unlimited
    · exact hmode
    · obtain ⟨ceiling, hceiling⟩ := exists_limit hmode pool asset value
      rw [hceiling] at hnone
      cases hnone
  · intro hmode
    rw [limit, hmode]

/-- Without a ceiling a request is deposited as it is. -/
theorem clamp_of_unlimited (h : c.limit pool asset value = none) :
    c.clamp pool asset r value position = r := by
  rw [clamp, headroom, h]
  rfl

/-- Below a ceiling a request is deposited as far as the ceiling is above the position. -/
theorem toNat_clamp (h : c.limit pool asset value = some ceiling) :
    (c.clamp pool asset r value position).toNat =
      min r.toNat (ceiling.toNat - position.toNat) := by
  rw [clamp, headroom, h, Option.map_some, Amount.toNat_min, Amount.toNat_subSat]

/-- A deposit is what the headroom admits of the request. -/
theorem toNat_clamp_eq_admitted : (c.clamp pool asset r value position).toNat =
    admitted (c.headroom pool asset value position) r.toNat := by
  unfold clamp
  cases c.headroom pool asset value position with
  | none => rfl
  | some room => exact Amount.toNat_min r room

/-- **Larger requests deposit at least as much.** -/
theorem clamp_mono (h : r ≤ r') :
    c.clamp pool asset r value position ≤ c.clamp pool asset r' value position := by
  have hle : r.toNat ≤ r'.toNat := h
  rw [Amount.le_def, toNat_clamp_eq_admitted, toNat_clamp_eq_admitted]
  cases c.headroom pool asset value position with
  | none => exact hle
  | some room =>
    show min _ _ ≤ min _ _
    omega

/-- **Larger positions admit at most as much.** -/
theorem clamp_antitone (h : position ≤ position') :
    c.clamp pool asset r value position' ≤ c.clamp pool asset r value position := by
  have hle : position.toNat ≤ position'.toNat := h
  rw [Amount.le_def]
  cases hlimit : c.limit pool asset value with
  | none =>
    have hsame : c.clamp pool asset r value position' = c.clamp pool asset r value position :=
      (clamp_of_unlimited hlimit).trans (clamp_of_unlimited hlimit).symm
    exact Nat.le_of_eq (congrArg Amount.toNat hsame)
  | some ceiling =>
    rw [toNat_clamp hlimit, toNat_clamp hlimit]
    omega

/-- **What is admitted is admitted as a whole.** -/
theorem clamp_clamp : c.clamp pool asset (c.clamp pool asset r value position) value position =
    c.clamp pool asset r value position := by
  refine Amount.ext ?_
  rw [toNat_clamp_eq_admitted, toNat_clamp_eq_admitted]
  cases c.headroom pool asset value position with
  | none => rfl
  | some room =>
    show min (min _ _) _ = min _ _
    omega

/-! ## A list of requests -/

/-- A deposit below a ceiling never makes a position too large for an amount. -/
theorem toNat_position (h : c.limit pool asset value = some ceiling) :
    (position.addSat (c.clamp pool asset r value position)).toNat =
      position.toNat + (c.clamp pool asset r value position).toNat := by
  have hceiling := ceiling.lt_bound
  have hposition := position.lt_bound
  rw [Amount.toNat_addSat, toNat_clamp h]
  omega

/-- Requests below a ceiling deposit their sum, as far as the ceiling is above the position. -/
theorem total_deposits_of_limit (h : c.limit pool asset value = some ceiling)
    (requests : List Amount) (position : Amount) :
    Amount.total (c.deposits pool asset value position requests) =
      min (Amount.total requests) (ceiling.toNat - position.toNat) := by
  -- The position grows by what was deposited, so the headroom shrinks by it.
  induction requests generalizing position with
  | nil => simp [deposits]
  | cons r rest ih =>
    rw [deposits, Amount.total_cons, Amount.total_cons, ih, toNat_position h, toNat_clamp h]
    omega

/-- Requests without a ceiling deposit their sum. -/
theorem total_deposits_of_unlimited (h : c.limit pool asset value = none)
    (requests : List Amount) (position : Amount) :
    Amount.total (c.deposits pool asset value position requests) = Amount.total requests := by
  induction requests generalizing position with
  | nil => rfl
  | cons r rest ih =>
    rw [deposits, Amount.total_cons, Amount.total_cons, ih, clamp_of_unlimited h]

/-- **Requests deposit what the headroom admits of their sum.** -/
theorem total_deposits (requests : List Amount) (position : Amount) :
    Amount.total (c.deposits pool asset value position requests) =
      admitted (c.headroom pool asset value position) (Amount.total requests) := by
  unfold headroom
  cases h : c.limit pool asset value with
  | none => exact total_deposits_of_unlimited h requests position
  | some ceiling => exact total_deposits_of_limit h requests position

/-! ## Percentages -/

/-- A share of at most the whole is at most the amount. -/
theorem applyBps_le {bps : Nat} (h : bps ≤ 10000) (a : Amount) : a.applyBps bps ≤ a := by
  rw [Amount.le_def]
  calc (a.applyBps bps).toNat
      ≤ a.toNat * bps / 10000 := Amount.toNat_applyBps_le a bps
    _ ≤ a.toNat * 10000 / 10000 := Nat.div_le_div_right (Nat.mul_le_mul_left _ h)
    _ = a.toNat := Nat.mul_div_cancel _ (by decide)

/-- The share that counts for a pool is at most the whole. -/
theorem Bounded.poolShare (h : c.Bounded) (pool : Address) :
    (c.poolBps.get? pool).getD c.protocolBps ≤ 10000 := by
  cases hshare : c.poolBps.get? pool with
  | none => exact h.protocol
  | some bps => exact h.pools hshare

/-- **A ceiling that is a share of a pool's value is at most that value.** -/
theorem Bounded.limit_le (h : c.Bounded)
    (hmode : c.mode = .poolPercentage ∨ c.mode = .protocolPercentage) (pool asset : Address)
    (value : Amount) : ∃ ceiling, c.limit pool asset value = some ceiling ∧ ceiling ≤ value := by
  unfold limit
  rcases hmode with hmode | hmode
  · rw [hmode]
    exact ⟨_, rfl, applyBps_le (h.poolShare pool) value⟩
  · rw [hmode]
    exact ⟨_, rfl, applyBps_le h.protocol value⟩

end DepositCaps

/-- **Splitting a request gains and loses nothing.** While a pool keeps its value, two requests
deposit together what the headroom admits of their sum, and so does every list of requests, in any
order; there is always a headroom unless deposits are unlimited, and below a ceiling the position
grows by exactly what is deposited. What is deposited for a request grows with the request and
shrinks with the position, and is deposited as a whole when it is requested. A ceiling that is a
share never exceeds the value of the pool. -/
theorem requests_share_headroom (c : DepositCaps) (hc : c.Built) (pool asset : Address)
    (value : Amount) :
    (∀ position r₁ r₂ : Amount,
      let d₁ := c.clamp pool asset r₁ value position
      let d₂ := c.clamp pool asset r₂ value (position.addSat d₁)
      (d₁.toNat + d₂.toNat = match c.headroom pool asset value position with
        | none => r₁.toNat + r₂.toNat
        | some room => min (r₁.toNat + r₂.toNat) room.toNat) ∧
      (c.mode ≠ .unlimited → (position.addSat d₁).toNat = position.toNat + d₁.toNat)) ∧
    (∀ (position : Amount) (requests : List Amount),
      Amount.total (c.deposits pool asset value position requests) =
        match c.headroom pool asset value position with
        | none => Amount.total requests
        | some room => min (Amount.total requests) room.toNat) ∧
    (∀ position, c.headroom pool asset value position = none ↔ c.mode = .unlimited) ∧
    (∀ (position : Amount) (requests requests' : List Amount), requests.Perm requests' →
      Amount.total (c.deposits pool asset value position requests) =
        Amount.total (c.deposits pool asset value position requests')) ∧
    (∀ position r r' : Amount, r ≤ r' →
      c.clamp pool asset r value position ≤ c.clamp pool asset r' value position) ∧
    (∀ r position position' : Amount, position ≤ position' →
      c.clamp pool asset r value position' ≤ c.clamp pool asset r value position) ∧
    (∀ r position : Amount,
      c.clamp pool asset (c.clamp pool asset r value position) value position =
        c.clamp pool asset r value position) ∧
    (c.mode = .poolPercentage ∨ c.mode = .protocolPercentage →
      ∃ ceiling, c.limit pool asset value = some ceiling ∧ ceiling ≤ value) := by
  refine ⟨fun position r₁ r₂ => ⟨?_, fun hmode => ?_⟩, fun position requests => ?_,
    fun position => DepositCaps.headroom_eq_none_iff, fun position requests requests' hperm => ?_,
    fun position r r' => DepositCaps.clamp_mono,
    fun r position position' => DepositCaps.clamp_antitone,
    fun r position => DepositCaps.clamp_clamp, fun hmode => hc.bounded.limit_le hmode pool asset value⟩
  · -- Two requests are a list of requests.
    have htwo : Amount.total (c.deposits pool asset value position [r₁, r₂]) =
        DepositCaps.admitted (c.headroom pool asset value position) (Amount.total [r₁, r₂]) :=
      DepositCaps.total_deposits [r₁, r₂] position
    simp only [DepositCaps.deposits, Amount.total_cons, Amount.total_nil, Nat.add_zero] at htwo
    rw [htwo]
    cases c.headroom pool asset value position with
    | none => rfl
    | some room => rfl
  · obtain ⟨ceiling, hceiling⟩ := DepositCaps.exists_limit hmode pool asset value
    exact DepositCaps.toNat_position hceiling
  · rw [DepositCaps.total_deposits]
    cases c.headroom pool asset value position with
    | none => rfl
    | some room => rfl
  · have hsum : Amount.total requests = Amount.total requests' := (hperm.map _).sum_nat
    rw [DepositCaps.total_deposits, DepositCaps.total_deposits, hsum]

namespace Throttled

/-- The vault that takes deposits. -/
def vault : Address := .ofNat 4

/-- The asset of the vault. -/
def asset : Address := .ofNat 2

/-- A twentieth of every vault, and a tenth of this one. -/
def caps : DepositCaps :=
  { mode := .poolPercentage, protocolBps := 500, poolBps := .ofList [(vault, 1000)] }

/-- The setters build these caps. -/
theorem built : caps.Built := by
  have hprotocol : DepositCaps.setProtocolBps { mode := .poolPercentage } 500 =
      .ok { mode := .poolPercentage, protocolBps := 500 } := rfl
  have hpool : DepositCaps.setPoolBps { mode := .poolPercentage, protocolBps := 500 } vault 1000 =
      .ok caps := rfl
  exact ((DepositCaps.Built.new .poolPercentage).setProtocolBps hprotocol).setPoolBps hpool

/-- Over a position of thirty in a vault worth a thousand, seventy of whatever is requested are
deposited. -/
theorem seventy_are_admitted : caps.Built ∧
    ∀ requests : List Amount, Amount.total (caps.deposits vault asset 1000 30 requests) =
      min (Amount.total requests) 70 := by
  obtain ⟨-, htotal, -⟩ := requests_share_headroom caps built vault asset 1000
  exact ⟨built, htotal 30⟩

end Throttled

end VaultKeeper
