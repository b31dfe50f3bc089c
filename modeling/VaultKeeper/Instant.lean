import VaultKeeper.Blank
import VaultKeeper.Powers

/-! # Instants

Points in time with nanoseconds, in universal time. They are written as a date, `T`, a time of day
and `Z`. Reading allows one or two digits in each part of date and time, white space around the
parts, and any offset from universal time. The sixtieth second of a minute stands for a leap second.
-/

namespace VaultKeeper

/-- A point in time. -/
structure Instant where
  /-- Seconds since the start of 1970. -/
  seconds : Int
  /-- Nanoseconds since the start of the second; a billion or more inside a leap second. -/
  nanos : Nat
deriving DecidableEq, Inhabited

namespace Instant

instance : Ord Instant := ⟨fun a b => (compare a.seconds b.seconds).then (compare a.nanos b.nanos)⟩

/-- Whether an instant is not later than another. -/
def notAfter (a b : Instant) : Bool := compare a b != .gt

/-! ## Calendar -/

/-- A day of the calendar. -/
structure Date where
  /-- The year; the year before year one is zero. -/
  year : Int
  /-- The month, from one. -/
  month : Nat
  /-- The day of the month, from one. -/
  day : Nat
deriving DecidableEq, Inhabited

namespace Date

/-- Whether a year has a leap day. -/
def isLeap (year : Int) : Bool := year % 4 = 0 && (year % 100 ≠ 0 || year % 400 = 0)

/-- The number of days of a month. -/
def monthLength (year : Int) (month : Nat) : Nat :=
  if month = 2 then (if isLeap year then 29 else 28)
  else if month ∈ [4, 6, 9, 11] then 30 else 31

/-- Whether a date exists. Years have at most six digits. -/
def isValid (d : Date) : Bool :=
  -262143 ≤ d.year && d.year ≤ 262142 && 1 ≤ d.month && d.month ≤ 12 && 1 ≤ d.day &&
    d.day ≤ monthLength d.year d.month

/-- Days since the start of 1970. A year is counted from March, so that its leap day comes last. -/
def toDays (d : Date) : Int :=
  let year := if d.month ≤ 2 then d.year - 1 else d.year
  let month := (d.month + 9) % 12
  let dayOfYear := (153 * month + 2) / 5 + d.day - 1
  year * 365 + year.fdiv 4 - year.fdiv 100 + year.fdiv 400 + dayOfYear - 719468

/-- The date that lies a number of days after the start of 1970. -/
def ofDays (days : Int) : Date :=
  -- Days are counted from the first of March of year zero, in eras of 400 years.
  let z := days + 719468
  let era := z.fdiv 146097
  let dayOfEra := (z - era * 146097).toNat
  let yearOfEra := (dayOfEra - dayOfEra / 1460 + dayOfEra / 36524 - dayOfEra / 146096) / 365
  let dayOfYear := dayOfEra - (365 * yearOfEra + yearOfEra / 4 - yearOfEra / 100)
  let month := (5 * dayOfYear + 2) / 153
  let day := dayOfYear - (153 * month + 2) / 5 + 1
  let year : Int := yearOfEra + era * 400
  if month < 10 then ⟨year, month + 3, day⟩ else ⟨year + 1, month - 9, day⟩

end Date

/-- The date of an instant. -/
def date (t : Instant) : Date := .ofDays (t.seconds.fdiv 86400)

/-! ## Writing -/

/-- Decimal digits of a number, filled up with zeros in front. -/
def padded (width n : Nat) : List Char :=
  let ds := Nat.toDigits 10 n
  List.replicate (width - ds.length) '0' ++ ds

/-- A year of four digits; another year has a sign. -/
def yearChars (year : Int) : List Char :=
  if 0 ≤ year ∧ year ≤ 9999 then padded 4 year.toNat
  else (if year < 0 then '-' else '+') :: padded 4 year.natAbs

/-- Year, month and day. -/
def Date.chars (d : Date) : List Char :=
  yearChars d.year ++ '-' :: padded 2 d.month ++ '-' :: padded 2 d.day

/-- The fraction of a second, in three, six or nine digits. -/
def fractionChars (nanos : Nat) : List Char :=
  if nanos = 0 then []
  else if nanos % 1000000 = 0 then '.' :: padded 3 (nanos / 1000000)
  else if nanos % 1000 = 0 then '.' :: padded 6 (nanos / 1000)
  else '.' :: padded 9 nanos

/-- The date and the time of day in universal time. -/
def text (t : Instant) : String :=
  let ofDay := (t.seconds - t.seconds.fdiv 86400 * 86400).toNat
  let leap := t.nanos / 1000000000
  String.ofList <| t.date.chars ++ 'T' :: padded 2 (ofDay / 3600) ++
    ':' :: padded 2 (ofDay / 60 % 60) ++ ':' :: padded 2 (ofDay % 60 + leap) ++
    fractionChars (t.nanos % 1000000000) ++ ['Z']

/-- The text of the date alone. -/
def dateText (t : Instant) : String := String.ofList t.date.chars

/-! ## Reading -/

/-- The number that decimal digits spell. -/
def digitsValue (ds : List Char) : Nat := ds.foldl (fun n c => n * 10 + (c.toNat - 48)) 0

/-- A number of at most `width` digits after white space, and the text after it. -/
def number? (width : Nat) (cs : List Char) : Option (Nat × List Char) :=
  let cs := skipBlank cs
  let ds := (cs.take width).takeWhile Char.isDigit
  if ds.isEmpty then none else some (digitsValue ds, cs.drop ds.length)

/-- A year: at most four digits, or any number of them after a sign. -/
def year? (cs : List Char) : Option (Int × List Char) :=
  let unbounded (r : List Char) := if r.head?.any Char.isDigit then number? r.length r else none
  match skipBlank cs with
  | '-' :: r => (unbounded r).map fun (n, r) => (-n, r)
  | '+' :: r => (unbounded r).map fun (n, r) => (n, r)
  | r => (number? 4 r).map fun (n, r) => (n, r)

/-- A separator after white space, then a number of at most two digits. -/
def part? (separator : Char) (cs : List Char) : Option (Nat × List Char) :=
  match skipBlank cs with
  | c :: r => if c = separator then number? 2 r else none
  | [] => none

/-- A date. -/
def date? (cs : List Char) : Option (Date × List Char) := do
  let (year, cs) ← year? cs
  let (month, cs) ← part? '-' cs
  let (day, cs) ← part? '-' cs
  return (⟨year, month, day⟩, cs)

/-- The fraction of a second in nanoseconds; digits after the ninth are dropped. -/
def fraction? (cs : List Char) : Option (Nat × List Char) :=
  match cs with
  | '.' :: r =>
    let ds := r.takeWhile Char.isDigit
    if ds.isEmpty then none
    else
      let kept := ds.take 9
      some (digitsValue kept * 10 ^ (9 - kept.length), r.drop ds.length)
  | cs => some (0, cs)

/-- Two digits. -/
def twoDigits? : List Char → Option (Nat × List Char)
  | a :: b :: r => if a.isDigit && b.isDigit then some (digitsValue [a, b], r) else none
  | _ => none

/-- Whether text starts with the letters of universal time, in any case. -/
def startsWithUtc (cs : List Char) : Bool := (cs.take 3).map Char.toUpper == ['U', 'T', 'C']

/-- The offset of local time from universal time, in seconds. -/
def offset? (cs : List Char) : Option (Int × List Char) :=
  if startsWithUtc cs then some (0, cs.drop 3)
  else match cs with
    | [] => none
    | sign :: r =>
      if sign = 'Z' ∨ sign = 'z' then some (0, r)
      else do
        let negative := sign = '-' || sign = '\u2212'
        if !negative && sign ≠ '+' then none
        let (hours, r) ← twoDigits? r
        let (minutes, r) ← twoDigits? (r.dropWhile fun c => c = ':' || isBlank c)
        if 60 ≤ minutes ∨ 24 ≤ hours then none
        let seconds : Int := hours * 3600 + minutes * 60
        return (if negative then -seconds else seconds, r)

/-- Read a date, a time of day and an offset. -/
def ofText? (s : String) : Option Instant := do
  let (date, cs) ← date? s.toList
  let cs ← match cs with
    | 'T' :: r | 't' :: r | ' ' :: r => some r
    | _ => none
  let (hour, cs) ← number? 2 cs
  let (minute, cs) ← part? ':' cs
  let (second, cs) ← part? ':' cs
  let (nanos, cs) ← fraction? cs
  let (offset, cs) ← offset? (skipBlank cs)
  if !(skipBlank cs).isEmpty then none
  -- The parts are judged only after the whole text was read.
  if !date.isValid || 24 ≤ hour || 60 ≤ minute || 60 < second then none
  let (second, nanos) := if second = 60 then (59, nanos + 1000000000) else (second, nanos)
  let seconds := date.toDays * 86400 + (hour * 3600 + minute * 60 + second : Nat) - offset
  -- The offset may carry the instant out of the calendar.
  let t : Instant := ⟨seconds, nanos⟩
  if t.date.isValid then some t else none

end Instant

end VaultKeeper
