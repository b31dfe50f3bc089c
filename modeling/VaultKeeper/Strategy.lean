import VaultKeeper.Abi
import VaultKeeper.Error

/-! # Strategies

A strategy is a non-empty chain of steps. The first step takes in the underlying asset and every
later step the output of the one before it. A strategy is named by the digest of its content, so
equal steps over an equal underlying asset are one strategy.
-/

namespace VaultKeeper

/-- One hop of a strategy. -/
structure Step where
  /-- The pool that the input asset is deposited into. -/
  pool : Address
  /-- The asset the step yields: the receipt token of the pool, or the borrowed asset. -/
  output : Address
  /-- Whether the step borrows its output against the deposit. -/
  isBorrow : Bool
deriving DecidableEq, Inhabited

/-- The encoding of `(underlying, (pool, output, isBorrow)[])` as one dynamic tuple. -/
def strategyEncoding (underlying : Address) (steps : List Step) : Bytes :=
  let items := steps.map fun s => [.address s.pool, .address s.output, .bool s.isBorrow]
  Abi.encode [.dynamic (Abi.encode [.address underlying, .dynamic (Abi.array items)])]

/-- The digest that names a strategy of this content. -/
def strategyDigest (underlying : Address) (steps : List Step) : Digest :=
  .keccak (strategyEncoding underlying steps)

/-- A chain of steps over an underlying asset, with its digest. -/
structure Strategy where
  /-- The asset that enters the first step. -/
  underlying : Address
  /-- The steps, in order. -/
  steps : List Step
  /-- The digest of the content. -/
  hash : Digest
  /-- There is a first step. -/
  steps_ne_nil : steps ≠ []
  /-- The underlying asset is not the zero address. -/
  underlying_ne_zero : underlying ≠ .zero
  /-- The digest follows from the content. -/
  hash_eq : hash = strategyDigest underlying steps
deriving DecidableEq

namespace Strategy

/-- The strategy of a non-empty chain over an asset other than the zero address. -/
def make (underlying : Address) (steps : List Step) : Except AllocationError Strategy :=
  if hs : steps = [] then .error (.invalidStrategy .noSteps)
  else if hu : underlying = .zero then .error (.invalidStrategy .zeroUnderlying)
  else .ok ⟨underlying, steps, strategyDigest underlying steps, hs, hu, rfl⟩

/-- A single deposit into a pool. -/
def single (underlying pool receipt : Address) : Except AllocationError Strategy :=
  make underlying [⟨pool, receipt, false⟩]

/-- How many steps borrow. -/
def borrowSteps (s : Strategy) : Nat := s.steps.countP (·.isBorrow)

/-- Whether some step borrows. -/
def hasBorrow (s : Strategy) : Bool := s.steps.any (·.isBorrow)

/-- The asset that enters step `index`: the underlying asset at first, then the output of the step
before. -/
def inputOf? (s : Strategy) : (index : Nat) → Option Address
  | 0 => some s.underlying
  | i + 1 => if i + 1 < s.steps.length then s.steps[i]?.map (·.output) else none

end Strategy

/-- The digest of a list of tokens: the hash of their addresses, 20 bytes each. -/
def tokenHash (tokens : List Address) : Digest := .keccak (tokens.flatMap (·.toBytes))

end VaultKeeper
