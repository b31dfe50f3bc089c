import VaultKeeper.Document

/-! # Tables of TOML

How the lines of a text build up tables. A table comes into being by its header, by the header of a
table inside it, or by a dotted key; a header may complete only a table that was made on the way to
another one, and dotted keys may extend only tables that dotted keys made.
-/

namespace VaultKeeper.Toml

/-- A value or table under construction. -/
inductive Node
  /-- A complete value. -/
  | value (d : Document)
  /-- A table: whether it has no header of its own, whether a dotted key made it, and its fields. -/
  | table (implicit dotted : Bool) (fields : List (String × Node))
  /-- An array of tables, the last one first. -/
  | tables (reversed : List (List (String × Node)))
deriving Inhabited

/-- The fields of a table. -/
abbrev NodeFields := List (String × Node)

/-- Replace the field of a name, or add it. -/
def setField (name : String) (node : Node) : NodeFields → NodeFields
  | [] => [(name, node)]
  | f :: r => if f.1 = name then (name, node) :: r else f :: setField name node r

/-- Change the table at the end of a path; tables on the way are made as needed. The change is told
whether a dotted key made the table. -/
def descend (dotted : Bool) (change : Bool → NodeFields → Option NodeFields) :
    (path : List String) → (isDotted : Bool) → NodeFields → Option NodeFields
  | [], isDotted, fields => change isDotted fields
  | k :: path, _, fields => do
    let node ← match fields.lookup k with
      | none => (descend dotted change path dotted []).map (.table true dotted)
      | some (.value _) => none
      | some (.table implicit inner fs) =>
        if dotted && !implicit then none
        else (descend dotted change path inner fs).map (.table implicit inner)
      | some (.tables []) => none
      | some (.tables (last :: before)) =>
        (descend dotted change path false last).map fun fs => .tables (fs :: before)
    return setField k node fields

/-- Add a value at a dotted key. The table that gets it was made by a dotted key exactly when the
key has more than one part. -/
def insertValue (key : List String) (d : Document) (fields : NodeFields) : Option NodeFields :=
  let path := key.dropLast
  let put (isDotted : Bool) (fs : NodeFields) : Option NodeFields := do
    let name ← key.getLast?
    if isDotted == path.isEmpty || (fs.lookup name).isSome then none
    else some (fs ++ [(name, .value d)])
  descend true put path false fields

/-- Open the table of a header. -/
def openTable (header : List String) (fields : NodeFields) : Option NodeFields :=
  let enter (_ : Bool) (fs : NodeFields) : Option NodeFields := do
    let name ← header.getLast?
    match fs.lookup name with
    | none => some (fs ++ [(name, .table false false [])])
    | some (.table true false inner) => some (setField name (.table false false inner) fs)
    | some _ => none
  descend false enter header.dropLast false fields

/-- Open another table of an array of tables. -/
def openElement (header : List String) (fields : NodeFields) : Option NodeFields :=
  let enter (_ : Bool) (fs : NodeFields) : Option NodeFields := do
    let name ← header.getLast?
    match fs.lookup name with
    | none => some (fs ++ [(name, .tables [[]])])
    | some (.tables elements) => some (setField name (.tables ([] :: elements)) fs)
    | some _ => none
  descend false enter header.dropLast false fields

/-- Add a value at a dotted key inside the table of the last header. -/
def insertUnder (header key : List String) (d : Document) (fields : NodeFields) :
    Option NodeFields :=
  descend false (fun _ fs => insertValue key d fs) header false fields

mutual

/-- The document of a node. -/
def Node.document : Node → Document
  | .value d => d
  | .table _ _ fs => .record (documentFields fs)
  | .tables reversed => .list (documentElements reversed).reverse

/-- The fields of a table as documents. -/
def documentFields : List (String × Node) → List (String × Document)
  | [] => []
  | (k, n) :: r => (k, n.document) :: documentFields r

/-- The elements of an array of tables as documents. -/
def documentElements : List (List (String × Node)) → List Document
  | [] => []
  | fs :: r => .record (documentFields fs) :: documentElements r

end

end VaultKeeper.Toml
