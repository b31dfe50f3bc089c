import VaultKeeper.Document.Read
import VaultKeeper.Registry.Saved

/-! # Strategies, ratings and saved registries as documents

How strategies, pool records, risk profiles, selections and the saved part of a registry are written
to and read from documents. The digest of a strategy is written but never read: it is computed from
the content.
-/

namespace VaultKeeper

open Document

namespace Step

/-- A step as a document. -/
def document (s : Step) : Document :=
  .record [("pool", s.pool.document), ("output_asset", s.output.document),
    ("is_borrow", .bool s.isBorrow)]

/-- The fields of a step. -/
def fields : List Field :=
  [.always "pool" Address.layout, .always "output_asset" Address.layout, .default "is_borrow"]

/-- Read a step. -/
def read? (d : Document) : Option Step := do
  let f ← d.fields? .json fields
  return {
    pool := ← f.get "pool" Address.read?
    output := ← f.get "output_asset" Address.read?
    isBorrow := ← f.getD "is_borrow" bool? false }

end Step

namespace Strategy

/-- A strategy as a document. -/
def document (s : Strategy) : Document :=
  .record [("underlying", s.underlying.document), ("steps", .array Step.document s.steps),
    ("hash", s.hash.document)]

/-- The fields of a strategy that are read. -/
def fields : List Field :=
  [.always "underlying" Address.layout, .always "steps" (listLayout Step.fields)]

/-- What a text has for a strategy. -/
def layout : Layout := recordLayout fields

/-- Read the underlying asset and the steps of a strategy. -/
def readContent? (d : Document) : Option (Address × List Step) := do
  let f ← d.fields? .json fields
  return (← f.get "underlying" Address.read?, ← f.get "steps" (list? Step.read?))

/-- Read a strategy; its content must make one. -/
def read? (d : Document) : Option Strategy := do
  let (underlying, steps) ← readContent? d
  (make underlying steps).toOption

end Strategy

namespace PoolRecord

/-- A pool record as a document. -/
def document (r : PoolRecord) : Document :=
  .record [("pool", r.pool.document), ("rating", .option .nat r.rating),
    ("approved", .bool r.approved), ("registration", .nat r.registration)]

/-- Read a pool record. -/
def read? (d : Document) : Option PoolRecord := do
  let f ← d.fields? .json [.always "pool", .always "rating", .always "approved",
    .always "registration"]
  return {
    pool := ← f.get "pool" Address.read?
    rating := ← f.optional "rating" (nat? 8)
    approved := ← f.get "approved" bool?
    registration := ← f.get "registration" (nat? 64) }

end PoolRecord

namespace RatingRange

/-- A rating range as a document. -/
def document (r : RatingRange) : Document := .record [("min", .nat r.low), ("max", .nat r.high)]

/-- Read a rating range; its bounds are taken as they are. -/
def read? (d : Document) : Option RatingRange := do
  let f ← d.fields? .json [.always "min", .always "max"]
  return ⟨← f.get "min" (nat? 8), ← f.get "max" (nat? 8)⟩

end RatingRange

namespace RiskProfile

/-- A risk profile as a document. -/
def document (p : RiskProfile) : Document :=
  .record [("name", .text p.name), ("can_borrow", .bool p.canBorrow),
    ("rating_range", p.range.document)]

/-- Read a risk profile. -/
def read? (d : Document) : Option RiskProfile := do
  let f ← d.fields? .json [.always "name", .always "can_borrow", .always "rating_range"]
  return {
    name := ← f.get "name" text?
    canBorrow := ← f.get "can_borrow" bool?
    range := ← f.get "rating_range" RatingRange.read? }

end RiskProfile

namespace Selection

/-- A selection as a document. -/
def document (s : Selection) : Document :=
  .record [("hash", s.hash.document), ("source", .text s.source.text)]

/-- The fields of a selection. -/
def fields : List Field := [.always "hash" Digest.layout, .always "source"]

/-- What a text has for a selection. -/
def layout : Layout := recordLayout fields

/-- Read a selection. -/
def read? (d : Document) : Option Selection := do
  let f ← d.fields? .json fields
  return {
    hash := ← f.get "hash" Digest.read?
    source := ← f.get "source" (oneOf? .json SelectionSource.all SelectionSource.text) }

end Selection

namespace DefaultState

/-- The state of a default strategy as a document. -/
def document : DefaultState → Document
  | unset => .record [("state", .text "unset")]
  | ratingBased paused cached =>
    .record [("state", .text "rating_based"), ("paused", .bool paused),
      ("cached", cached.document)]

/-- Read what belongs to a state of the given name. -/
def readAs? (state : String) (d : Document) : Option DefaultState :=
  if state = "unset" then
    match d with
    | .list [] | .record _ => some .unset
    | _ => none
  else if state = "rating_based" then do
    let f ← d.fields? .json [.always "paused", .always "cached"]
    return .ratingBased (← f.get "paused" bool?) (← f.get "cached" Digest.read?)
  else none

/-- What a text has for a state. What belongs to it is only known with its name, so that no part of
it can be passed over. -/
def layout : Layout := .entire

/-- Read a state: a record with its name, or a list that starts with it. -/
def read? : Document → Option DefaultState
  | .list (.text state :: rest) => readAs? state (.list rest)
  | .record fields =>
    match fields.partition (·.1 == "state") with
    | ([(_, .text state)], rest) => readAs? state (.record rest)
    | _ => none
  | _ => none

end DefaultState

namespace SavedRegistry

/-- An override as a document. -/
def overrideDocument (e : (String × Digest) × Digest) : Document :=
  .record [("profile", .text e.1.1), ("token_hash", e.1.2.document), ("strategy", e.2.document)]

/-- The fields of an override. -/
def overrideFields : List Field :=
  [.always "profile", .always "token_hash" Digest.layout, .always "strategy" Digest.layout]

/-- Read an override. -/
def readOverride? (d : Document) : Option ((String × Digest) × Digest) := do
  let f ← d.fields? .json overrideFields
  return ((← f.get "profile" text?, ← f.get "token_hash" Digest.read?),
    ← f.get "strategy" Digest.read?)

/-- A default strategy as a document. -/
def defaultDocument (e : (String × Digest) × DefaultState) : Document :=
  .record [("profile", .text e.1.1), ("token_hash", e.1.2.document), ("state", e.2.document)]

/-- The fields of a default strategy. -/
def defaultFields : List Field :=
  [.always "profile", .always "token_hash" Digest.layout, .always "state" DefaultState.layout]

/-- Read a default strategy. -/
def readDefault? (d : Document) : Option ((String × Digest) × DefaultState) := do
  let f ← d.fields? .json defaultFields
  return ((← f.get "profile" text?, ← f.get "token_hash" Digest.read?),
    ← f.get "state" DefaultState.read?)

/-- The saved part of a registry as a document. -/
def document (s : SavedRegistry) : Document :=
  .record [("strategies", .array Strategy.document s.strategies),
    ("overrides", .array overrideDocument s.overrides),
    ("defaults", .array defaultDocument s.defaults)]

/-- The fields of a saved registry. -/
def fields : List Field :=
  [.always "strategies" (listLayout Strategy.fields),
    .always "overrides" (listLayout overrideFields), .always "defaults" (listLayout defaultFields)]

/-- Read the saved part of a registry. -/
def read? (d : Document) : Option SavedRegistry := do
  let f ← d.fields? .json fields
  return {
    strategies := ← f.get "strategies" (list? Strategy.read?)
    overrides := ← f.get "overrides" (list? readOverride?)
    defaults := ← f.get "defaults" (list? readDefault?) }

end SavedRegistry

end VaultKeeper
