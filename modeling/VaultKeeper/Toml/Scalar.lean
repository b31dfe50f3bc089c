import VaultKeeper.Bytes
import VaultKeeper.Document
import VaultKeeper.Instant

/-! # Numbers and dates of TOML

Words without quotation marks: truth values, whole numbers of 64 bits in four bases, floating-point
numbers, dates and times. Underscores may stand between two digits. Dates are kept as records of
their text, because nothing in a configuration is a date.
-/

namespace VaultKeeper.Toml

/-- Digits with single underscores between them, without the underscores. -/
def digits? (isDigit : Char → Bool) : List Char → Option (List Char)
  | [] => none
  | [c] => if isDigit c then some [c] else none
  | c :: '_' :: r => if isDigit c then (digits? isDigit r).map (c :: ·) else none
  | c :: r => if isDigit c then (digits? isDigit r).map (c :: ·) else none

/-- The number that digits of a base spell. -/
def valueOf (base : Nat) (ds : List Char) : Nat :=
  ds.foldl (fun n c => n * base + (Hex.digit? c).getD 0) 0

/-- Whether a character is a digit of a base. -/
def isDigitOf (base : Nat) (c : Char) : Bool := (Hex.digit? c).any (· < base)

/-- Decimal digits without a leading zero. -/
def decimal? (cs : List Char) : Option (List Char) := do
  let ds ← digits? Char.isDigit cs
  if ds.length ≠ 1 && ds.head? = some '0' then none else some ds

/-- A sign and what follows it. -/
def signed (cs : List Char) : Bool × List Char :=
  match cs with
  | '-' :: r => (true, r)
  | '+' :: r => (false, r)
  | r => (false, r)

/-- A whole number of 64 bits. -/
def integer? (cs : List Char) : Option Int := do
  let n : Int ← match cs with
    | '0' :: 'x' :: r => (digits? (isDigitOf 16) r).map fun ds => (valueOf 16 ds : Int)
    | '0' :: 'o' :: r => (digits? (isDigitOf 8) r).map fun ds => (valueOf 8 ds : Int)
    | '0' :: 'b' :: r => (digits? (isDigitOf 2) r).map fun ds => (valueOf 2 ds : Int)
    | cs =>
      let (negative, r) := signed cs
      (decimal? r).map fun ds => if negative then -(valueOf 10 ds : Int) else valueOf 10 ds
  if -2 ^ 63 ≤ n ∧ n < 2 ^ 63 then some n else none

/-- The power of ten after an exponent mark; zero without one. -/
def power? : List Char → Option Int
  | [] => some 0
  | _ :: r => do
    let (negative, r) := signed r
    let n : Int := valueOf 10 (← digits? Char.isDigit r)
    return if negative then -n else n

/-- A floating-point number with a fraction or an exponent. A number that is too large is refused,
unless it is negative. -/
def float? (cs : List Char) : Option Document := do
  let (negative, r) := signed cs
  let isMark (c : Char) : Bool := c = 'e' || c = 'E'
  let body := r.takeWhile (!isMark ·)
  let tail := r.dropWhile (!isMark ·)
  let whole ← decimal? (body.takeWhile (· ≠ '.'))
  let fraction ← match body.dropWhile (· ≠ '.') with
    | [] => if tail.isEmpty then none else some []
    | _ :: f => digits? Char.isDigit f
  let power ← power? tail
  match Binary64.ofDecimal negative (valueOf 10 (whole ++ fraction)) (power - fraction.length) with
  | some x => return .float x
  | none => if negative then return .unreadable else none

/-- Infinities and what is no number. -/
def special? (cs : List Char) : Option Document :=
  if (signed cs).2 = "inf".toList ∨ (signed cs).2 = "nan".toList then some .unreadable else none

/-! ## Dates and times -/

/-- A time of day to the second, with an optional fraction, and the text after it. -/
def time? (cs : List Char) : Option (List Char) := do
  let (hour, r) ← Instant.twoDigits? cs
  let (minute, r) ← colon? r
  let (second, r) ← colon? r
  if 24 ≤ hour ∨ 60 ≤ minute ∨ 60 < second then none
  match r with
  | '.' :: f =>
    if f.head?.any Char.isDigit then return f.dropWhile Char.isDigit else return r
  | r => return r
where
  /-- A colon and two digits. -/
  colon? : List Char → Option (Nat × List Char)
    | ':' :: r => Instant.twoDigits? r
    | _ => none

/-- An offset from universal time up to the end of the text. -/
def offset? : List Char → Option Unit
  | [] => some ()
  | [c] => if c = 'Z' ∨ c = 'z' then some () else none
  | sign :: r => do
    if sign ≠ '+' ∧ sign ≠ '-' then none
    let (hours, r) ← Instant.twoDigits? r
    match r with
    | ':' :: r =>
      let (minutes, r) ← Instant.twoDigits? r
      if 24 ≤ hours ∨ 60 ≤ minutes ∨ r ≠ [] then none else some ()
    | _ => none

/-- A date, and the text after it. -/
def date? (cs : List Char) : Option (List Char) :=
  match cs.drop 4 with
  | '-' :: m :: n :: '-' :: d :: e :: r =>
    let ds := cs.take 4 ++ [m, n, d, e]
    let date : Instant.Date :=
      ⟨valueOf 10 (cs.take 4), valueOf 10 [m, n], valueOf 10 [d, e]⟩
    if ds.all Char.isDigit && date.isValid then some r else none
  | _ => none

/-- Whether a word is a date, a time of day, or both with an optional offset. -/
def isDate (cs : List Char) : Bool :=
  match date? cs with
  | some [] => true
  | some (c :: r) => (c = 'T' || c = 't' || c = ' ') && ((time? r).bind offset?).isSome
  | none => time? cs = some []

/-- A date as a record of its text. -/
def dateDocument (cs : List Char) : Document :=
  .record [("date", .text (String.ofList cs))]

/-! ## Words -/

/-- Whether a character may stand in a word without quotation marks. -/
def isWordChar (c : Char) : Bool :=
  c.isAlphanum || c = '_' || c = '+' || c = '-' || c = '.' || c = ':'

/-- The value of a word. -/
def word? (cs : List Char) : Option Document :=
  if cs = "true".toList then some (.bool true)
  else if cs = "false".toList then some (.bool false)
  else if isDate cs then some (dateDocument cs)
  else (integer? cs).map Document.int <|> float? cs <|> special? cs

/-- The value of the word in front of a text. A space may separate a date from a time of day. -/
def scalar? (cs : List Char) : Option (Document × List Char) :=
  let w := cs.takeWhile isWordChar
  let r := cs.dropWhile isWordChar
  match r with
  | ' ' :: s =>
    if date? w = some [] ∧ s.head?.any Char.isDigit then
      let time := s.takeWhile isWordChar
      (word? (w ++ ' ' :: time)).map (·, s.dropWhile isWordChar)
    else (word? w).map (·, r)
  | r => (word? w).map (·, r)

end VaultKeeper.Toml
