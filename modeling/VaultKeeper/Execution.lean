import VaultKeeper.BatchId
import VaultKeeper.Instant
import VaultKeeper.Plan

/-! # Execution

A batch is a plan that is handed to an executor as a whole, and an outcome is what the executor
reports. A multicall contract runs a batch as one transaction in which no call may fail.
-/

namespace VaultKeeper

/-- A plan that was handed to an executor. -/
structure Batch where
  /-- The identifier. -/
  id : BatchId
  /-- The vault the plan was compiled for. -/
  vault : String
  /-- The plan. -/
  plan : Plan
  /-- When the batch was handed over. -/
  submittedAt : Instant
deriving DecidableEq, Inhabited

/-- What became of a batch. -/
inductive ExecutionStatus
  /-- Every instruction was applied. -/
  | applied
  /-- The batch was recorded but not sent. -/
  | simulated
  /-- Nothing was applied. -/
  | reverted
deriving DecidableEq, Inhabited

/-- The stable label of a status. -/
def ExecutionStatus.text : ExecutionStatus → String
  | applied => "applied"
  | simulated => "simulated"
  | reverted => "reverted"

/-- Every status. -/
def ExecutionStatus.all : List ExecutionStatus := [.applied, .simulated, .reverted]

/-- An executor's report on a batch. -/
structure Outcome where
  /-- The batch. -/
  batchId : BatchId
  /-- What became of it. -/
  status : ExecutionStatus
  /-- The number of instructions in the batch. -/
  instructions : Nat
  /-- Why the batch was reverted, when the executor says so. -/
  reason : Option String
deriving DecidableEq, Inhabited

/-- A plan encoded as one transaction. -/
structure EncodedBatch where
  /-- The multicall contract. -/
  target : Address
  /-- The native value of all instructions. -/
  value : Amount
  /-- The encoded call. -/
  calldata : Bytes
deriving DecidableEq, Inhabited

namespace Multicall

/-- The function that runs calls with native values. -/
def signature : String := "aggregate3Value((address,bool,uint256,bytes)[])"

/-- An instruction as a call that may not fail. -/
def item (i : Instruction) : Bytes :=
  Abi.encode [.address i.target, .bool false, .amount i.value, .dynamic (Abi.bytes i.calldata)]

/-- The calldata that runs instructions in order. -/
def calldata (is : List Instruction) : Bytes :=
  Abi.call signature [.dynamic (Abi.dynamicArray (is.map item))]

/-- A plan as one transaction of a multicall contract. -/
def encode (contract : Address) (p : Plan) : EncodedBatch :=
  ⟨contract, Amount.sum (p.instructions.map (·.value)), calldata p.instructions⟩

end Multicall

/-- The outcome of a batch that is encoded but not sent. -/
def dryRun (b : Batch) : Outcome := ⟨b.id, .simulated, b.plan.instructionCount, none⟩

end VaultKeeper
