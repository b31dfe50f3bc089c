import VaultKeeper.Json.Number
import VaultKeeper.Json.Surplus

/-! # Tokens of JSON

The lexical form of JSON: brackets, separators, quoted text and bare words. A text is read character
by character in one of three modes, so that a token is complete when its last character is seen or
the character after it.
-/

namespace VaultKeeper.Json

/-- A lexical unit. -/
inductive Token
  | beginList | endList | beginRecord | endRecord | comma | colon
  /-- Quoted text; `none` when it holds half of a surrogate pair. -/
  | text (s : Option String)
  /-- A number or one of the words `null`, `true` and `false`. -/
  | scalar (d : Document)
deriving Inhabited

/-- What is being read. -/
inductive Mode
  /-- Nothing: the next character starts a token. -/
  | between
  /-- Quoted text, its characters in reverse, and whether the last one is an open backslash. -/
  | quoted (reversed : List Char) (escaped : Bool)
  /-- A number or a word, its characters in reverse. -/
  | bare (reversed : List Char)
deriving DecidableEq, Inhabited

/-- Whether a character belongs to a number or a word. -/
def isBare (c : Char) : Bool := c.isAlphanum || c = '-' || c = '+' || c = '.'

/-- The token of a complete number or word. -/
def bareToken? (cs : List Char) : Option Token :=
  match cs with
  | ['n', 'u', 'l', 'l'] => some (.scalar .null)
  | ['t', 'r', 'u', 'e'] => some (.scalar (.bool true))
  | ['f', 'a', 'l', 's', 'e'] => some (.scalar (.bool false))
  | cs => (Numeral.ofChars? cs).map (.scalar ·.value)

/-- The token of complete quoted text. -/
def textToken? (cs : List Char) : Option Token :=
  (items? cs).map fun items => .text ((join? items).map String.ofList)

/-- Read the first character of a token, or white space. -/
def start? (c : Char) : Option (List Token × Mode) :=
  match c with
  | '[' => some ([.beginList], .between)
  | ']' => some ([.endList], .between)
  | '{' => some ([.beginRecord], .between)
  | '}' => some ([.endRecord], .between)
  | ',' => some ([.comma], .between)
  | ':' => some ([.colon], .between)
  | '"' => some ([], .quoted [] false)
  | c =>
    if isBlank c then some ([], .between)
    else if isBare c then some ([], .bare [c])
    else none

/-- Read one character: the tokens it completes, and the mode after it. -/
def Mode.step? (m : Mode) (c : Char) : Option (List Token × Mode) :=
  match m with
  | .between => start? c
  | .quoted cs true => some ([], .quoted (c :: cs) false)
  | .quoted cs false =>
    if c = '"' then (textToken? cs.reverse).map fun t => ([t], .between)
    else if c.toNat < 32 then none
    else some ([], .quoted (c :: cs) (c = '\\'))
  | .bare cs =>
    if isBare c then some ([], .bare (c :: cs))
    else do
      let t ← bareToken? cs.reverse
      -- The character after a word starts the next token.
      let (ts, m) ← start? c
      return (t :: ts, m)

/-- The tokens that the end of the text completes. -/
def Mode.finish? : Mode → Option (List Token)
  | .between => some []
  | .quoted .. => none
  | .bare cs => (bareToken? cs.reverse).map ([·])

end VaultKeeper.Json
