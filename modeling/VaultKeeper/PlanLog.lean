import VaultKeeper.Blank
import VaultKeeper.Document.Plan
import VaultKeeper.Json
import VaultKeeper.Table

/-! # The plan log

Every executed batch is recorded with its outcome, one line of JSON for each record, in a file for
each day. Reading takes every record of every daily file, oldest first, and skips lines that are no
records.
-/

namespace VaultKeeper

open Document

/-- A batch with its outcome. -/
structure PlanRecord where
  /-- The batch. -/
  batch : Batch
  /-- The outcome. -/
  outcome : Outcome
  /-- When the outcome was recorded. -/
  recordedAt : Instant
deriving DecidableEq, Inhabited

namespace PlanRecord

/-- A record as a document. -/
def document (r : PlanRecord) : Document :=
  .record [("batch", r.batch.document), ("outcome", r.outcome.document),
    ("recorded_at", r.recordedAt.document)]

/-- The fields of a record. -/
def fields : List Field :=
  [.always "batch" (recordLayout Batch.fields), .always "outcome", .always "recorded_at"]

/-- Read a record. -/
def read? (d : Document) : Option PlanRecord := do
  let f ← d.fields? .json fields
  return {
    batch := ← f.get "batch" Batch.read?
    outcome := ← f.get "outcome" Outcome.read?
    recordedAt := ← f.get "recorded_at" Instant.read? }

/-- Read the line of a record. -/
def ofLine? (line : String) : Option PlanRecord :=
  (Json.read? (recordLayout fields) line).bind read?

/-- The line of a record, with its line break. -/
def line (r : PlanRecord) : Bytes := Bytes.ofText (Json.write r.document) ++ [10]

end PlanRecord

/-- The files of a plan log by name. -/
structure PlanLog where
  /-- The content of each file. -/
  files : Table String Bytes := ∅

namespace PlanLog

instance : Inhabited PlanLog := ⟨{}⟩

/-- The daily file of a record. -/
def fileName (r : PlanRecord) : String := r.recordedAt.dateText ++ ".jsonl"

/-- Append a record to its daily file. -/
def append (log : PlanLog) (r : PlanRecord) : PlanLog :=
  { log with
    files := log.files.insert (fileName r) ((log.files.get? (fileName r)).getD [] ++ r.line) }

/-- Whether a file is a daily one, by what follows the last dot of its name. -/
def isDaily (name : String) : Bool :=
  let reversed := name.toList.reverse
  let rest := reversed.dropWhile (· ≠ '.')
  reversed.takeWhile (· ≠ '.') == "jsonl".toList.reverse && 2 ≤ rest.length

/-- The lines of a text. A line ends at a line feed, with or without a carriage return before it;
the last one may end with the text. -/
def lines : (reversed : List Char) → List Char → List String
  | [], [] => []
  | cs, [] => [String.ofList cs.reverse]
  | cs, '\n' :: r =>
    let cs := match cs with
      | '\r' :: cs => cs
      | cs => cs
    String.ofList cs.reverse :: lines [] r
  | cs, c :: r => lines (c :: cs) r

/-- The records among the lines of a text. -/
def recordsOf (text : String) : List PlanRecord :=
  ((lines [] text.toList).filter fun l => !l.toList.all isBlank).filterMap PlanRecord.ofLine?

/-- Why a plan log cannot be read: a daily file is no text. -/
inductive Fault
  | notText
deriving DecidableEq, Inhabited

/-- The message of a fault. -/
def Fault.message : Fault → String
  | notText => "stream did not contain valid UTF-8"

/-- The records of a file. -/
def fileRecords (content : Bytes) : Except Fault (List PlanRecord) :=
  match Bytes.toText? content with
  | some t => .ok (recordsOf t)
  | none => .error .notText

/-- The records of all daily files in order of enumeration. -/
def unsorted (files : List (String × Bytes)) : Except Fault (List PlanRecord) := do
  let records ← (files.filter (isDaily ·.1)).mapM fun f => fileRecords f.2
  return records.flatten

/-- All records, oldest first. -/
def loadAll (log : PlanLog) : Except Fault (List PlanRecord) := do
  return (← unsorted log.files.toList).mergeSort fun a b => a.recordedAt.notAfter b.recordedAt

/-- The records of one vault, oldest first. -/
def loadVault (log : PlanLog) (vault : String) : Except Fault (List PlanRecord) := do
  return (← log.loadAll).filter (·.batch.vault == vault)

/-- The name of the file that shows whether the log can be written to. -/
def probeName : String := ".health_check"

/-- Write the probe and remove it again. -/
def probe (log : PlanLog) : PlanLog := { log with files := log.files.erase probeName }

/-- Put a file into the log. -/
def write (log : PlanLog) (name : String) (content : Bytes) : PlanLog :=
  { log with files := log.files.insert name content }

end PlanLog

end VaultKeeper
