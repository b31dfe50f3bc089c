import VaultKeeper.Powers

/-! # Amounts

Quantities of base units are unsigned and bounded by 256 bits. Sums and differences saturate, a
scaled amount `a * b / c` falls back to dividing first when the product does not fit, and a ratio
in basis points is such a scaling with denominator `10000`.
-/

namespace VaultKeeper

/-- An unsigned quantity of base units, below `2 ^ 256`. -/
structure Amount where
  /-- The quantity as a natural number. -/
  toNat : Nat
  /-- Every amount fits in 256 bits. -/
  lt_bound : toNat < 2 ^ 256
deriving DecidableEq

namespace Amount

/-- Two amounts with the same quantity are equal. -/
@[ext] theorem ext {a b : Amount} (h : a.toNat = b.toNat) : a = b := by
  cases a; cases b; cases h; rfl

/-- The amount `n`, or the largest amount when `n` does not fit. -/
def ofNat (n : Nat) : Amount := ⟨min n (2 ^ 256 - 1), by omega⟩

/-- The amount `n` when it fits in 256 bits. -/
def ofNat? (n : Nat) : Option Amount := if h : n < 2 ^ 256 then some ⟨n, h⟩ else none

instance (n : Nat) : OfNat Amount n := ⟨ofNat n⟩

instance : Inhabited Amount := ⟨0⟩

/-- The largest amount. -/
def largest : Amount := ⟨2 ^ 256 - 1, by omega⟩

instance : Ord Amount := ⟨fun a b => compare a.toNat b.toNat⟩

instance : LE Amount := ⟨fun a b => a.toNat ≤ b.toNat⟩

instance : LT Amount := ⟨fun a b => a.toNat < b.toNat⟩

instance (a b : Amount) : Decidable (a ≤ b) := inferInstanceAs (Decidable (a.toNat ≤ b.toNat))

instance (a b : Amount) : Decidable (a < b) := inferInstanceAs (Decidable (a.toNat < b.toNat))

instance : Min Amount := ⟨fun a b => if a ≤ b then a else b⟩

/-- Sum, stopping at the largest amount. -/
def addSat (a b : Amount) : Amount := ofNat (a.toNat + b.toNat)

/-- Difference, stopping at zero. -/
def subSat (a b : Amount) : Amount := ⟨a.toNat - b.toNat, by have := a.lt_bound; omega⟩

/-- The saturating sum of a list. -/
def sum (xs : List Amount) : Amount := xs.foldl addSat 0

/-- `a * b / c`, rounded down. When the product needs more than 256 bits, `a` is divided first and
the result saturates; a zero denominator gives zero. -/
def mulDiv (a b c : Amount) : Amount :=
  if c.toNat = 0 then 0
  else if a.toNat * b.toNat < 2 ^ 256 then ofNat (a.toNat * b.toNat / c.toNat)
  else ofNat (a.toNat / c.toNat * b.toNat)

/-- The share of `a` given by a ratio in basis points. -/
def applyBps (a : Amount) (bps : Nat) : Amount := mulDiv a (ofNat bps) (ofNat 10000)

/-! ## Reading the operations as natural numbers -/

theorem toNat_le (a : Amount) : a.toNat ≤ 2 ^ 256 - 1 := by have := a.lt_bound; omega

@[simp] theorem toNat_ofNat (n : Nat) : (ofNat n).toNat = min n (2 ^ 256 - 1) := rfl

theorem toNat_ofNat_of_lt {n : Nat} (h : n < 2 ^ 256) : (ofNat n).toNat = n := by
  rw [toNat_ofNat]; omega

@[simp] theorem ofNat_toNat (a : Amount) : ofNat a.toNat = a :=
  ext (toNat_ofNat_of_lt a.lt_bound)

@[simp] theorem toNat_zero : (0 : Amount).toNat = 0 := rfl

theorem eq_zero_iff {a : Amount} : a = 0 ↔ a.toNat = 0 :=
  ⟨fun h => h ▸ rfl, fun h => ext h⟩

theorem le_def {a b : Amount} : a ≤ b ↔ a.toNat ≤ b.toNat := Iff.rfl

theorem lt_def {a b : Amount} : a < b ↔ a.toNat < b.toNat := Iff.rfl

@[simp] theorem toNat_min (a b : Amount) : (min a b).toNat = min a.toNat b.toNat := by
  change (if a ≤ b then a else b).toNat = _
  by_cases h : a ≤ b
  · rw [if_pos h, Nat.min_eq_left (le_def.1 h)]
  · rw [if_neg h, Nat.min_eq_right (Nat.le_of_not_le h)]

@[simp] theorem toNat_addSat (a b : Amount) :
    (a.addSat b).toNat = min (a.toNat + b.toNat) (2 ^ 256 - 1) := rfl

@[simp] theorem toNat_subSat (a b : Amount) : (a.subSat b).toNat = a.toNat - b.toNat := rfl

@[simp] theorem addSat_zero (a : Amount) : a.addSat 0 = a := by
  ext; have := a.lt_bound; simp; omega

@[simp] theorem subSat_zero (a : Amount) : a.subSat 0 = a := by ext; simp

@[simp] theorem mulDiv_zero_right (a b : Amount) : mulDiv a b 0 = 0 := by simp [mulDiv]

end Amount

end VaultKeeper
