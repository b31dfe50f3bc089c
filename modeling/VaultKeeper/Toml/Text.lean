import VaultKeeper.Bytes

/-! # Keys and strings of TOML

Keys are bare or quoted and may be dotted. Strings are basic ones with escapes or literal ones
without, on one line or on several. Each reader returns what it read and the text after it.
-/

namespace VaultKeeper.Toml

/-- White space within a line. -/
def isSpace (c : Char) : Bool := c = ' ' || c = '\t'

/-- Text without the white space in front of it. -/
def skipSpace (cs : List Char) : List Char := cs.dropWhile isSpace

/-- The text after a line break, if it starts with one. -/
def newline? : List Char → Option (List Char)
  | '\n' :: r => some r
  | '\r' :: '\n' :: r => some r
  | _ => none

/-- Whether a character may stand in a comment or a string: no control character but the tab. -/
def isPlain (c : Char) : Bool := c = '\t' || (32 ≤ c.toNat && c.toNat ≠ 127)

/-- The text after a comment, if it starts with one. -/
def skipComment (cs : List Char) : List Char :=
  match cs with
  | '#' :: r => r.dropWhile isPlain
  | cs => cs

/-- The character that hexadecimal digits name; surrogates name none. -/
def codePoint? (digits : List Char) : Option Char := do
  let ds ← digits.mapM Hex.digit?
  let n := ds.foldl (fun n d => n * 16 + d) 0
  if n < 0xD800 || (0xE000 ≤ n && n < 0x110000) then some (Char.ofNat n) else none

/-- The character that the text after a backslash stands for. -/
def escape? (cs : List Char) : Option (Char × List Char) :=
  match cs with
  | 'b' :: r => some ('\x08', r)
  | 't' :: r => some ('\t', r)
  | 'n' :: r => some ('\n', r)
  | 'f' :: r => some ('\x0c', r)
  | 'r' :: r => some ('\r', r)
  | '"' :: r => some ('"', r)
  | '\\' :: r => some ('\\', r)
  | 'u' :: r => if r.length < 4 then none else (codePoint? (r.take 4)).map (·, r.drop 4)
  | 'U' :: r => if r.length < 8 then none else (codePoint? (r.take 8)).map (·, r.drop 8)
  | _ => none

/-! ## Strings on one line -/

/-- The rest of a basic string after its quotation mark. -/
def basic? : (fuel : Nat) → List Char → Option (List Char × List Char)
  | 0, _ => none
  | _, [] => none
  | n + 1, c :: r =>
    if c = '"' then some ([], r)
    else if c = '\\' then do
      let (c, r) ← escape? r
      let (cs, r) ← basic? n r
      return (c :: cs, r)
    else if isPlain c then do
      let (cs, r) ← basic? n r
      return (c :: cs, r)
    else none

/-- The rest of a literal string after its quotation mark. -/
def literal? (cs : List Char) : Option (List Char × List Char) :=
  match cs.dropWhile fun c => isPlain c && c ≠ '\'' with
  | '\'' :: r => some (cs.takeWhile fun c => isPlain c && c ≠ '\'', r)
  | _ => none

/-! ## Strings on several lines -/

/-- The quotation marks that belong to a string that ends with the given run of them; `none` when
the run does not end a string. -/
def closing? (run : Nat) : Option Nat := if 3 ≤ run ∧ run ≤ 5 then some (run - 3) else none

/-- Text without the white space and line breaks in front of it. -/
def skipLines : (fuel : Nat) → List Char → List Char
  | 0, cs => cs
  | n + 1, cs =>
    let cs := skipSpace cs
    match newline? cs with
    | some r => skipLines n r
    | none => cs

/-- The rest of a string on several lines after its opening marks. Escapes are read in basic strings
only, where a backslash at the end of a line joins the lines. -/
def multiline? (mark : Char) (escapes : Bool) :
    (fuel : Nat) → List Char → Option (List Char × List Char)
  | 0, _ => none
  | _, [] => none
  | n + 1, c :: r =>
    if c = mark then
      let run := ((c :: r).takeWhile (· = mark)).length
      let after := (c :: r).drop run
      match closing? run with
      | some extra => some (List.replicate extra mark, after)
      | none =>
        if 5 < run then none
        else do
          let (cs, r) ← multiline? mark escapes n after
          return (List.replicate run mark ++ cs, r)
    else if c = '\\' && escapes then
      match newline? (skipSpace r) with
      | some r => multiline? mark escapes n (skipLines r.length r)
      | none => do
        let (c, r) ← escape? r
        let (cs, r) ← multiline? mark escapes n r
        return (c :: cs, r)
    else match newline? (c :: r) with
      | some r => do
        let (cs, r) ← multiline? mark escapes n r
        return ('\n' :: cs, r)
      | none =>
        if isPlain c then do
          let (cs, r) ← multiline? mark escapes n r
          return (c :: cs, r)
        else none

/-- A string of any kind. -/
def string? (cs : List Char) : Option (String × List Char) := do
  let trimmed (r : List Char) := (newline? r).getD r
  let (content, rest) ← match cs with
    | '"' :: '"' :: '"' :: r => multiline? '"' true (r.length + 1) (trimmed r)
    | '\'' :: '\'' :: '\'' :: r => multiline? '\'' false (r.length + 1) (trimmed r)
    | '"' :: r => basic? (r.length + 1) r
    | '\'' :: r => literal? r
    | _ => none
  return (String.ofList content, rest)

/-! ## Keys -/

/-- Whether a character may stand in a bare key. -/
def isBare (c : Char) : Bool := c.isAlphanum || c = '_' || c = '-'

/-- One part of a key: bare, or a quoted string on one line. -/
def keyPart? (cs : List Char) : Option (String × List Char) :=
  match cs with
  | '"' :: r => (basic? (r.length + 1) r).map fun (k, r) => (String.ofList k, r)
  | '\'' :: r => (literal? r).map fun (k, r) => (String.ofList k, r)
  | cs =>
    let k := cs.takeWhile isBare
    if k.isEmpty then none else some (String.ofList k, cs.dropWhile isBare)

/-- The parts of a dotted key, with white space around each of them. -/
def keyParts? : (fuel : Nat) → List Char → Option (List String × List Char)
  | 0, _ => none
  | n + 1, cs => do
    let (k, r) ← keyPart? (skipSpace cs)
    match skipSpace r with
    | '.' :: r =>
      let (ks, r) ← keyParts? n r
      return (k :: ks, r)
    | r => return ([k], r)

/-- How deeply values may be nested, and how many parts a key may have. -/
def maxDepth : Nat := 80

/-- A dotted key. -/
def key? (cs : List Char) : Option (List String × List Char) :=
  (keyParts? (cs.length + 1) cs).filter (·.1.length < maxDepth)

end VaultKeeper.Toml
