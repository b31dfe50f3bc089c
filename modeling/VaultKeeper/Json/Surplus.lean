import VaultKeeper.Bytes
import VaultKeeper.Json.Text

/-! # Surplus items

A list of a fixed number of bytes may hold one item more, as long as that item is no byte: it is
passed over, and so is a comma without an item after it. The item need not even be well-formed. It
is given up at the first character that makes it ill-formed, and what counts is that nothing but the
closing bracket follows the place where it ends or was given up.
-/

namespace VaultKeeper.Json

/-- White space between tokens. -/
def isBlank (c : Char) : Bool := c = ' ' || c = '\n' || c = '\t' || c = '\r'

/-- How far a surplus item was read. -/
inductive Surplus
  /-- Up to the comma in front of it. -/
  | start
  /-- Inside a word, whose other letters are given. -/
  | word (rest : List Char)
  /-- After a minus sign. -/
  | minus
  /-- After digits that spell a number. -/
  | digits (negative : Bool) (n : Nat)
  /-- After a point, and whether a digit before it is not zero. -/
  | point (nonzero : Bool)
  /-- After digits behind a point. -/
  | places (nonzero : Bool)
  /-- After the mark of an exponent. -/
  | mark (nonzero : Bool)
  /-- After the sign of an exponent. -/
  | sign (nonzero negative : Bool)
  /-- After digits that spell an exponent. -/
  | power (nonzero negative : Bool) (n : Nat)
  /-- After digits of an exponent that leave nothing but zero. -/
  | vanished
  /-- Inside quoted text. -/
  | quoted
  /-- After a backslash in quoted text. -/
  | escape
  /-- Inside the four digits of a 16-bit unit: whether the first half of a surrogate pair came
  before, how many bytes are left, and the number so far while it is one. -/
  | unit (second : Bool) (left : Nat) (n : Option Nat)
  /-- After the first half of a surrogate pair. -/
  | half
  /-- After the first half of a surrogate pair and a backslash. -/
  | halfEscape
  /-- Up to its end, or to where it was given up. -/
  | ended
  /-- Up to the closing bracket. -/
  | closed
deriving DecidableEq, Inhabited

namespace Surplus

/-- The greatest exponent that is told from larger ones. -/
def maxPower : Nat := 2 ^ 31 - 1

/-- Go on after an item that ended before a character. -/
def close? (c : Char) : Option Surplus :=
  if isBlank c then some ended else if c = ']' then some closed else none

/-- Give an item up after a character. A character of several bytes is left unfinished, so that no
bracket can follow. -/
def giveUp? (c : Char) : Option Surplus := if c.toNat < 128 then some ended else none

/-- Start an item. Lists and records are not passed over. -/
def start? (c : Char) : Option Surplus :=
  if isBlank c then some start
  else match c with
    | ']' => some closed
    | '"' => some quoted
    | '-' => some minus
    | 'n' => some (word ['u', 'l', 'l'])
    | 't' => some (word ['r', 'u', 'e'])
    | 'f' => some (word ['a', 'l', 's', 'e'])
    | c => if c.isDigit then some (digits false (c.toNat - 48)) else none

/-- Go on after digits in front of a point; `none` when they spell a byte. -/
def afterDigits? (negative : Bool) (n : Nat) (c : Char) : Option Surplus :=
  if c = '.' then some (point (n ≠ 0))
  else if c = 'e' ∨ c = 'E' then some (mark (n ≠ 0))
  else if !negative && n < 256 then none
  else close? c

/-- Go on with another digit of an exponent. An exponent beyond the greatest one is given up if it
makes the number too large. -/
def nextPower (nonzero negative : Bool) (n : Nat) : Surplus :=
  if n ≤ maxPower then power nonzero negative n
  else if nonzero && !negative then ended
  else vanished

/-- Go on after the four digits of a 16-bit unit. -/
def afterUnit (second : Bool) : Option Nat → Surplus
  | none => ended
  | some n =>
    if second then (if isLow n then quoted else ended)
    else if isLow n then ended
    else if isHigh n then half
    else quoted

/-- Read one character; `none` when the list is refused. -/
def step? (s : Surplus) (c : Char) : Option Surplus :=
  match s with
  | start => start? c
  | word [] => close? c
  | word (d :: rest) => if c = d then some (word rest) else giveUp? c
  | minus => if c.isDigit then some (digits true (c.toNat - 48)) else giveUp? c
  | digits negative n =>
    if c.isDigit then
      -- No digit may follow a leading zero.
      if n = 0 then none else some (digits negative (n * 10 + (c.toNat - 48)))
    else afterDigits? negative n c
  | point nonzero => if c.isDigit then some (places (nonzero || c ≠ '0')) else close? c
  | places nonzero =>
    if c.isDigit then some (places (nonzero || c ≠ '0'))
    else if c = 'e' ∨ c = 'E' then some (mark nonzero)
    else close? c
  | mark nonzero =>
    if c = '+' ∨ c = '-' then some (sign nonzero (c = '-'))
    else if c.isDigit then some (power nonzero false (c.toNat - 48))
    else giveUp? c
  | sign nonzero negative =>
    if c.isDigit then some (power nonzero negative (c.toNat - 48)) else giveUp? c
  | power nonzero negative n =>
    if c.isDigit then some (nextPower nonzero negative (n * 10 + (c.toNat - 48))) else close? c
  | vanished => if c.isDigit then some vanished else close? c
  | quoted =>
    if c = '"' then some ended
    else if c = '\\' then some escape
    else if c.toNat < 32 then some ended
    else some quoted
  | escape =>
    if c = 'u' then some (unit false 4 (some 0))
    else if (shortEscape? c).isSome then some quoted
    else giveUp? c
  | unit second left n =>
    let n := do return (← n) * 16 + (← Hex.digit? c)
    if left < c.utf8Size then none
    else if left = c.utf8Size then some (afterUnit second n)
    else some (unit second (left - c.utf8Size) n)
  | half => if c = '\\' then some halfEscape else giveUp? c
  | halfEscape => if c = 'u' then some (unit true 4 (some 0)) else giveUp? c
  | ended => close? c
  | closed => none

end Surplus

end VaultKeeper.Json
