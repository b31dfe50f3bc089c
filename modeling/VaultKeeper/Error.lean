import VaultKeeper.Address

/-! # Allocation errors

Why a request of the allocator is refused. "Nothing to do" is never an error: an empty balance or an
exhausted deposit cap gives an empty group of instructions. Each cause has a stable label and a
message; addresses in messages carry their checksum.
-/

namespace VaultKeeper

/-- What an adapter may be able to do beyond deposits and withdrawals. -/
inductive Capability
  | stake | rewards | borrow
deriving DecidableEq, Inhabited

/-- The word for a capability. -/
def Capability.text : Capability → String
  | .stake => "stake"
  | .rewards => "rewards"
  | .borrow => "borrow"

/-- What an account may be allowed to change. -/
inductive Role
  | governance | riskOperator | strategyOperator | financeOperator
deriving DecidableEq, Inhabited

namespace Role

/-- The word for a role. -/
def text : Role → String
  | governance => "governance"
  | riskOperator => "risk_operator"
  | strategyOperator => "strategy_operator"
  | financeOperator => "finance_operator"

/-- Every role. -/
def all : List Role := [governance, riskOperator, strategyOperator, financeOperator]

/-- The position of a role in the order of roles. -/
def rank : Role → Nat
  | governance => 0
  | riskOperator => 1
  | strategyOperator => 2
  | financeOperator => 3

theorem rank_inj {a b : Role} (h : a.rank = b.rank) : a = b := by
  revert h; cases a <;> cases b <;> decide

instance : Ord Role := ⟨compareOn rank⟩

instance : Std.TransOrd Role := inferInstanceAs (Std.TransCmp (compareOn rank))

instance : Std.LawfulEqOrd Role where
  compare_self := Std.ReflCmp.compare_self
  eq_of_compare h := rank_inj (Std.compare_eq_iff_eq (α := Nat) |>.1 h)

end Role

/-- What is wrong with the definition of a strategy. -/
inductive StrategyDefect
  | noSteps | zeroUnderlying
deriving DecidableEq, Inhabited

/-- The words for a defect. -/
def StrategyDefect.text : StrategyDefect → String
  | noSteps => "strategy needs at least one step"
  | zeroUnderlying => "underlying asset is the zero address"

/-- The two changes of a default strategy that an operator can ask for. -/
inductive DefaultChange
  | pause | resume
deriving DecidableEq, Inhabited

/-- The verb for a change. -/
def DefaultChange.text : DefaultChange → String
  | pause => "pause"
  | resume => "resume"

/-- Why a request is refused. -/
inductive AllocationError
  | capabilityMissing (protocol : String) (capability : Capability)
  | unresolvedAdapter (pool : Address)
  | unapprovedPool (pool : Address)
  | noEligibleStrategy (profile : String) (asset : Address)
  | unsupportedBorrowAsset (pool asset : Address)
  | unknownStrategy (strategy : Digest)
  | unknownRiskProfile (profile : String)
  | unknownPool (pool : Address)
  | unknownAdapter (protocol : String)
  | duplicateAdapter (protocol : String)
  | duplicateRiskProfile (profile : String)
  | poolNotConfigured (protocol : String) (pool : Address)
  | unsupportedAsset (pool asset : Address)
  | stepOutputMismatch (index : Nat) (expected actual : Address)
  | invalidStrategy (defect : StrategyDefect)
  | strategyMismatch (strategy : Digest) (asset : Address)
  | borrowNotAllowed (profile : String) (strategy : Digest)
  | stakingUnavailable (pool : Address)
  | invalidRatingRange (low high : Nat)
  | invalidRating (rating : Nat)
  | invalidPercentage (bps : Nat)
  | neverComputed (change : DefaultChange)
  | unauthorized (account : Address) (role : Role)
deriving DecidableEq, Inhabited

namespace AllocationError

/-- The stable label of a cause. -/
def kind : AllocationError → String
  | capabilityMissing .. => "capability_missing"
  | unresolvedAdapter .. => "unresolved_adapter"
  | unapprovedPool .. => "unapproved_pool"
  | noEligibleStrategy .. => "no_eligible_strategy"
  | unsupportedBorrowAsset .. => "unsupported_borrow_asset"
  | unknownStrategy .. => "unknown_strategy"
  | unknownRiskProfile .. => "unknown_risk_profile"
  | unknownPool .. => "unknown_pool"
  | unknownAdapter .. => "unknown_adapter"
  | duplicateAdapter .. => "duplicate_adapter"
  | duplicateRiskProfile .. => "duplicate_risk_profile"
  | poolNotConfigured .. => "pool_not_configured"
  | unsupportedAsset .. => "unsupported_asset"
  | stepOutputMismatch .. => "step_output_mismatch"
  | invalidStrategy .. => "invalid_strategy"
  | strategyMismatch .. => "strategy_mismatch"
  | borrowNotAllowed .. => "borrow_not_allowed"
  | stakingUnavailable .. => "staking_unavailable"
  | invalidRatingRange .. => "invalid_rating_range"
  | invalidRating .. => "invalid_rating"
  | invalidPercentage .. => "invalid_percentage"
  | neverComputed .. => "invalid_transition"
  | unauthorized .. => "unauthorized"

/-- The message of a cause. -/
def message : AllocationError → String
  | capabilityMissing p c => s!"Adapter {p} lacks the {c.text} capability"
  | unresolvedAdapter p => s!"No adapter bound to pool {p.checksumText}"
  | unapprovedPool p => s!"Pool {p.checksumText} is not approved"
  | noEligibleStrategy p a =>
    s!"No eligible strategy for profile {p} and asset {a.checksumText}"
  | unsupportedBorrowAsset p a => s!"Pool {p.checksumText} cannot borrow {a.checksumText}"
  | unknownStrategy s => s!"Unknown strategy {s.text}"
  | unknownRiskProfile p => s!"Unknown risk profile: {p}"
  | unknownPool p => s!"Unknown pool {p.checksumText}"
  | unknownAdapter p => s!"Unknown adapter: {p}"
  | duplicateAdapter p => s!"Adapter already registered: {p}"
  | duplicateRiskProfile p => s!"Risk profile already exists: {p}"
  | poolNotConfigured p q => s!"Pool {q.checksumText} is not configured in adapter {p}"
  | unsupportedAsset p a => s!"Pool {p.checksumText} does not accept asset {a.checksumText}"
  | stepOutputMismatch i e a =>
    s!"Step {i}: output {a.checksumText} does not match receipt token {e.checksumText}"
  | invalidStrategy d => s!"Invalid strategy: {d.text}"
  | strategyMismatch s a => s!"Strategy {s.text} does not allocate {a.checksumText}"
  | borrowNotAllowed p s => s!"Profile {p} may not use borrowing strategy {s.text}"
  | stakingUnavailable p => s!"Pool {p.checksumText} has no staking support"
  | invalidRatingRange l h => s!"Invalid rating range [{l}, {h}]"
  | invalidRating r => s!"Invalid pool rating {r}"
  | invalidPercentage b => s!"Invalid percentage: {b} bps"
  | neverComputed c =>
    s!"Invalid state transition: cannot {c.text} a default strategy that was never computed"
  | unauthorized a r => s!"{a.checksumText} lacks role {r.text}"

end AllocationError

end VaultKeeper
