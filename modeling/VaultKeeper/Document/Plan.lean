import VaultKeeper.Document.Read
import VaultKeeper.Execution

/-! # Plans, batches and outcomes as documents

How plans, the batches made of them and their outcomes are written to and read from documents. Each
record lists its fields in a fixed order.
-/

namespace VaultKeeper

open Document

namespace Instruction

/-- An instruction as a document. -/
def document (i : Instruction) : Document :=
  .record [("target", i.target.document), ("calldata", Bytes.document i.calldata),
    ("value", i.value.document), ("action", .text i.action.text)]

/-- The fields of an instruction. -/
def fields : List Field :=
  [.always "target" Address.layout, .always "calldata", .always "value", .always "action"]

/-- Read an instruction. -/
def read? (d : Document) : Option Instruction := do
  let f ← d.fields? .json fields
  return {
    target := ← f.get "target" Address.read?
    calldata := ← f.get "calldata" Bytes.read?
    value := ← f.get "value" Amount.read?
    action := ← f.get "action" (oneOf? .json Action.all Action.text) }

end Instruction

namespace Group

/-- A group of instructions as a document. -/
def document (g : Group) : Document :=
  .record [("step_index", .nat g.stepIndex), ("pool", g.pool.document), ("kind", .text g.kind.text),
    ("instructions", .array Instruction.document g.instructions)]

/-- The fields of a group. -/
def fields : List Field :=
  [.always "step_index", .always "pool" Address.layout, .always "kind",
    .always "instructions" (listLayout Instruction.fields)]

/-- Read a group of instructions. -/
def read? (d : Document) : Option Group := do
  let f ← d.fields? .json fields
  return {
    stepIndex := ← f.get "step_index" (nat? 64)
    pool := ← f.get "pool" Address.read?
    kind := ← f.get "kind" (oneOf? .json GroupKind.all GroupKind.text)
    instructions := ← f.get "instructions" (list? Instruction.read?) }

end Group

namespace Plan

/-- A plan as a document. -/
def document (p : Plan) : Document :=
  .record [("strategy", p.strategy.document), ("operation", .text p.operation.text),
    ("groups", .array Group.document p.groups)]

/-- The fields of a plan. -/
def fields : List Field :=
  [.always "strategy" Digest.layout, .always "operation",
    .always "groups" (listLayout Group.fields)]

/-- What a text has for a plan. -/
def layout : Layout := recordLayout fields

/-- Read a plan. -/
def read? (d : Document) : Option Plan := do
  let f ← d.fields? .json fields
  return {
    strategy := ← f.get "strategy" Digest.read?
    operation := ← f.get "operation" (oneOf? .json Operation.all Operation.text)
    groups := ← f.get "groups" (list? Group.read?) }

end Plan

namespace BatchId

/-- An identifier as a document. -/
def document (b : BatchId) : Document := .text b.text

/-- Read an identifier. -/
def read? (d : Document) : Option BatchId := (text? d).bind ofText?

end BatchId

namespace Instant

/-- An instant as a document. -/
def document (t : Instant) : Document := .text t.text

/-- Read an instant. -/
def read? (d : Document) : Option Instant := (text? d).bind ofText?

end Instant

namespace Batch

/-- A batch as a document. -/
def document (b : Batch) : Document :=
  .record [("id", b.id.document), ("vault", .text b.vault), ("plan", b.plan.document),
    ("submitted_at", b.submittedAt.document)]

/-- The fields of a batch. -/
def fields : List Field :=
  [.always "id", .always "vault", .always "plan" Plan.layout, .always "submitted_at"]

/-- Read a batch. -/
def read? (d : Document) : Option Batch := do
  let f ← d.fields? .json fields
  return {
    id := ← f.get "id" BatchId.read?
    vault := ← f.get "vault" text?
    plan := ← f.get "plan" Plan.read?
    submittedAt := ← f.get "submitted_at" Instant.read? }

end Batch

namespace Outcome

/-- An outcome as a document. -/
def document (o : Outcome) : Document :=
  .record [("batch_id", o.batchId.document), ("status", .text o.status.text),
    ("instructions", .nat o.instructions), ("reason", .option .text o.reason)]

/-- Read an outcome. -/
def read? (d : Document) : Option Outcome := do
  let f ← d.fields? .json [.always "batch_id", .always "status", .always "instructions",
    .always "reason"]
  return {
    batchId := ← f.get "batch_id" BatchId.read?
    status := ← f.get "status" (oneOf? .json ExecutionStatus.all ExecutionStatus.text)
    instructions := ← f.get "instructions" (nat? 64)
    reason := ← f.optional "reason" text? }

end Outcome

end VaultKeeper
