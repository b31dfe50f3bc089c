import VaultKeeper.Error

/-! # Risk ratings and default strategies

Pools carry an optional rating and an approval. A risk profile admits approved pools whose rating
lies in its range, and says whether its strategies may borrow. The default strategy of a profile and
an asset is unset at first; once it is computed it can be paused, which freezes it, and resumed.
-/

namespace VaultKeeper

/-- The highest rating of a pool. -/
def maxPoolRating : Nat := 100

/-- The risk metadata of a registered pool. -/
structure PoolRecord where
  /-- The pool. -/
  pool : Address
  /-- The rating, once there is one. -/
  rating : Option Nat
  /-- Whether deposits may enter the pool. -/
  approved : Bool
  /-- The place in the order of registration, which breaks ties of rating. -/
  registration : Nat
deriving DecidableEq, Inhabited

/-- An inclusive range of ratings. -/
structure RatingRange where
  /-- The lowest rating of the range. -/
  low : Nat
  /-- The highest rating of the range. -/
  high : Nat
deriving DecidableEq, Inhabited

namespace RatingRange

/-- The range from `low` to `high`, neither empty nor above the highest rating. -/
def make (low high : Nat) : Except AllocationError RatingRange :=
  if high < low ∨ maxPoolRating < high then .error (.invalidRatingRange low high)
  else .ok ⟨low, high⟩

/-- Whether a rating lies in the range. -/
def contains (r : RatingRange) (rating : Nat) : Bool := r.low ≤ rating && rating ≤ r.high

end RatingRange

/-- A named risk policy. -/
structure RiskProfile where
  /-- The name. -/
  name : String
  /-- Whether strategies of the profile may borrow. -/
  canBorrow : Bool
  /-- The ratings that the profile admits. -/
  range : RatingRange
deriving DecidableEq, Inhabited

/-- Whether a pool may back a default strategy of the profile. -/
def RiskProfile.admits (p : RiskProfile) (r : PoolRecord) : Bool :=
  r.approved && r.rating.any p.range.contains

/-- The default strategy of a profile and an asset. -/
inductive DefaultState
  /-- Never computed. -/
  | unset
  /-- Computed from the ratings, and frozen while paused. -/
  | ratingBased (paused : Bool) (cached : Digest)
deriving DecidableEq, Inhabited

namespace DefaultState

/-- The strategy that was computed last. -/
def cached? : DefaultState → Option Digest
  | unset => none
  | ratingBased _ h => some h

/-- Whether the default is frozen. -/
def isPaused : DefaultState → Bool
  | unset => false
  | ratingBased p _ => p

/-- Record a computed default; a paused default stays as it is. -/
def cache (s : DefaultState) (h : Digest) : DefaultState := match s with
  | ratingBased true h' => ratingBased true h'
  | _ => ratingBased false h

/-- Pause or resume a default that was computed. -/
def change (c : DefaultChange) : DefaultState → Except AllocationError DefaultState
  | unset => .error (.neverComputed c)
  | ratingBased _ h => .ok (ratingBased (c == .pause) h)

end DefaultState

/-- Where a selected strategy comes from. -/
inductive SelectionSource
  | override | cachedDefault | ratingBased
deriving DecidableEq, Inhabited

/-- The stable label of a source. -/
def SelectionSource.text : SelectionSource → String
  | override => "override"
  | cachedDefault => "cached_default"
  | ratingBased => "rating_based"

/-- Every source. -/
def SelectionSource.all : List SelectionSource := [.override, .cachedDefault, .ratingBased]

/-- A selected strategy and where it comes from. -/
structure Selection where
  /-- The strategy. -/
  hash : Digest
  /-- Where it comes from. -/
  source : SelectionSource
deriving DecidableEq, Inhabited

end VaultKeeper
