import VaultKeeper.Toml.Scalar
import VaultKeeper.Toml.Text
import VaultKeeper.Toml.Tree

/-! # TOML

Reading a configuration text, line by line: headers of tables and of arrays of tables, and keys with
values, which may be arrays and inline tables.
-/

namespace VaultKeeper.Toml

/-- Text without the white space, comments and line breaks in front of it. -/
def skipTrivia : (fuel : Nat) → List Char → List Char
  | 0, cs => cs
  | n + 1, cs =>
    let cs := skipComment (skipSpace cs)
    match newline? cs with
    | some r => skipTrivia n r
    | none => cs

/-- What separates two entries, or ends them. -/
inductive Separator
  | comma | close
deriving DecidableEq

/-- A comma or the closing bracket. -/
def separator? (close : Char) : List Char → Option (Separator × List Char)
  | c :: r => if c = ',' then some (.comma, r) else if c = close then some (.close, r) else none
  | [] => none

mutual

/-- A value, and the text after it. -/
def value? : (fuel depth : Nat) → List Char → Option (Document × List Char)
  | 0, _, _ => none
  | n + 1, depth, cs =>
    match cs with
    | '"' :: _ | '\'' :: _ => (string? cs).map fun (s, r) => (.text s, r)
    | '[' :: r =>
      if maxDepth ≤ depth + 1 then none
      else (items? n (depth + 1) r).map fun (ds, r) => (.list ds, r)
    | '{' :: r =>
      if maxDepth ≤ depth + 1 then none
      else match skipSpace r with
        | '}' :: r => some (.record [], r)
        | r => (entries? n (depth + 1) [] r).map fun (fs, r) => (.record (documentFields fs), r)
    | cs => scalar? cs

/-- The items of an array up to its closing bracket. -/
def items? : (fuel depth : Nat) → List Char → Option (List Document × List Char)
  | 0, _, _ => none
  | n + 1, depth, cs =>
    match skipTrivia (cs.length + 1) cs with
    | ']' :: r => some ([], r)
    | cs => do
      let (d, r) ← value? n depth cs
      match separator? ']' (skipTrivia (r.length + 1) r) with
      | none => none
      | some (.close, r) => some ([d], r)
      | some (.comma, r) =>
        let (ds, r) ← items? n depth r
        return (d :: ds, r)

/-- The entries of an inline table up to its closing bracket. -/
def entries? : (fuel depth : Nat) → NodeFields → List Char → Option (NodeFields × List Char)
  | 0, _, _, _ => none
  | n + 1, depth, fields, cs => do
    let (key, r) ← key? cs
    match r with
    | '=' :: r =>
      let (d, r) ← value? n depth (skipSpace r)
      let fields ← insertValue key d fields
      match separator? '}' (skipSpace r) with
      | none => none
      | some (.close, r) => some (fields, r)
      | some (.comma, r) => entries? n depth fields r
    | _ => none

end

/-- The path of a header up to its closing brackets. -/
def header? (closing : List Char) (cs : List Char) : Option (List String × List Char) := do
  let (path, r) ← key? cs
  if r.take closing.length = closing then some (path, r.drop closing.length) else none

/-- Read one line: the header it opens or keeps, the tables after it, and the text after it. -/
def line? (header : List String) (fields : NodeFields) (cs : List Char) :
    Option (List String × NodeFields × List Char) :=
  match cs with
  | '[' :: '[' :: r => do
    let (path, r) ← header? [']', ']'] r
    return (path, ← openElement path fields, r)
  | '[' :: r => do
    let (path, r) ← header? [']'] r
    return (path, ← openTable path fields, r)
  | cs => do
    let (key, r) ← key? cs
    match r with
    | '=' :: r =>
      let r := skipSpace r
      let (d, r) ← value? (2 * r.length + 2) 0 r
      return (header, ← insertUnder header key d fields, r)
    | _ => none

/-- Read lines up to the end of the text. -/
def lines? : (fuel : Nat) → (header : List String) → NodeFields → List Char → Option NodeFields
  | 0, _, _, _ => none
  | n + 1, header, fields, cs =>
    match skipTrivia (cs.length + 1) cs with
    | [] => some fields
    | cs => do
      let (header, fields, r) ← line? header fields cs
      match skipComment (skipSpace r) with
      | [] => return fields
      | r => lines? n header fields (← newline? r)

/-- The document of a text. A byte order mark in front is skipped. -/
def read? (s : String) : Option Document := do
  let cs := match s.toList with
    | '\uFEFF' :: r => r
    | r => r
  return .record (documentFields (← lines? (cs.length + 1) [] [] cs))

end VaultKeeper.Toml
