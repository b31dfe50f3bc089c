import VaultKeeper.Document.Layout
import VaultKeeper.Json.Token

/-! # JSON

Reading a text builds a document from its tokens with a stack of open lists and records, guided by a
layout. Writing comes in a compact form and in an indented one, two spaces for each level.
-/

namespace VaultKeeper.Json

/-! ## Reading -/

/-- How deeply lists and records may be nested around a part that must have a value. -/
def maxDepth : Nat := 127

/-- A list or record that is still open. -/
inductive Frame
  /-- A list with its items in reverse. -/
  | list (layout : Layout) (reversed : List Document)
  /-- A record with its fields in reverse, and whether all names could be read. -/
  | record (layout : Layout) (reversed : List (String × Document)) (readable : Bool)
  /-- A record that waits for the value of a name. -/
  | field (layout : Layout) (reversed : List (String × Document)) (readable : Bool) (name : String)
deriving Inhabited

/-- What may come next. -/
inductive Expected
  /-- A value. -/
  | value
  /-- A value, or the end of an empty list. -/
  | firstItem
  /-- The name of a field. -/
  | name
  /-- The name of a field, or the end of an empty record. -/
  | firstName
  /-- The colon after a name. -/
  | colon
  /-- A comma, or the end of the innermost list or record. -/
  | next
  /-- What is left of a list after its last byte and a comma. -/
  | surplus
  /-- Nothing: the value is complete. -/
  | nothing (d : Document)
deriving Inhabited

/-- The state of a reader. -/
structure Builder where
  /-- What is expected of the text. -/
  layout : Layout
  /-- Open lists and records, innermost first. -/
  stack : List Frame
  /-- What may come next. -/
  expected : Expected
deriving Inhabited

namespace Builder

/-- Before the first token. -/
def start (layout : Layout) : Builder := ⟨layout, [], .value⟩

/-- What is expected of the next value. -/
def nextLayout (b : Builder) : Layout :=
  match b.stack with
  | [] => b.layout
  | .list l items :: _ => l.item items.length
  | .record .. :: _ => .free
  | .field l _ _ name :: _ => l.field name

/-- Put a complete value where it belongs, on top of the given frames. -/
def put (b : Builder) (stack : List Frame) (d : Document) : Option Builder :=
  match stack with
  | [] => some { b with stack := [], expected := .nothing d }
  | .list l items :: r => some { b with stack := .list l (d :: items) :: r, expected := .next }
  | .field l fields readable name :: r =>
    some { b with stack := .record l ((name, d) :: fields) readable :: r, expected := .next }
  | .record .. :: _ => none

/-- Put a value that may have none; it must have one where the layout wants it. -/
def putScalar (b : Builder) (d : Option Document) : Option Builder :=
  match d with
  | some d => b.put b.stack d
  | none => if b.nextLayout.isEntire then none else b.put b.stack .unreadable

/-- Open a list or record. -/
def openFrame (b : Builder) (frame : Layout → Frame) (expected : Expected) : Option Builder :=
  let l := b.nextLayout
  if l.isEntire && maxDepth ≤ b.stack.length then none
  else some { b with stack := frame l :: b.stack, expected }

/-- Start to read the value of a name. -/
def named (b : Builder) (name : Option String) : Option Builder :=
  match b.stack with
  | .record l fields readable :: r =>
    if l.isEntire && name.isNone then none
    else some { b with
      stack := .field l fields (readable && name.isSome) (name.getD "") :: r
      expected := .colon }
  | _ => none

/-- Close the innermost list. -/
def closeList (b : Builder) : Option Builder :=
  match b.stack with
  | .list _ items :: r => b.put r (.list items.reverse)
  | _ => none

/-- Close the innermost record. -/
def closeRecord (b : Builder) : Option Builder :=
  match b.stack with
  | .record _ fields readable :: r =>
    b.put r (if readable then .record fields.reverse else .unreadable)
  | _ => none

/-- Go on after a comma. -/
def separate (b : Builder) : Builder :=
  match b.stack with
  | .list l items :: _ =>
    { b with expected := if l.isFull items.length then .surplus else .value }
  | _ => { b with expected := .name }

/-- Start or complete a value. -/
def value (b : Builder) : Token → Option Builder
  | .scalar .unreadable => b.putScalar none
  | .scalar d => b.putScalar (some d)
  | .text s => b.putScalar (s.map .text)
  | .beginList => b.openFrame (.list · []) .firstItem
  | .beginRecord => b.openFrame (.record · [] true) .firstName
  | _ => none

/-- Read one token. -/
def step (b : Builder) (t : Token) : Option Builder :=
  match b.expected, t with
  | .value, t => b.value t
  | .firstItem, .endList => b.closeList
  | .firstItem, t => b.value t
  | .name, .text s => b.named s
  | .firstName, .endRecord => b.closeRecord
  | .firstName, .text s => b.named s
  | .colon, .colon => some { b with expected := .value }
  | .next, .endList => b.closeList
  | .next, .endRecord => b.closeRecord
  | .next, .comma => some b.separate
  | _, _ => none

end Builder

/-- A reader in the middle of a text. -/
inductive Reader
  /-- Among the tokens. -/
  | tokens (m : Mode) (b : Builder)
  /-- Inside a surplus item. -/
  | surplus (s : Surplus) (b : Builder)
deriving Inhabited

namespace Reader

/-- Go on with a builder in a mode. -/
def resume (m : Mode) (b : Builder) : Reader :=
  match b.expected with
  | .surplus => surplus .start b
  | _ => tokens m b

/-- Read one character. -/
def step? : Reader → Char → Option Reader
  | tokens m b, c => do
    let (ts, m) ← m.step? c
    return resume m (← ts.foldlM Builder.step b)
  | surplus s b, c => do
    match ← s.step? c with
    | .closed => return tokens .between (← b.closeList)
    | s => return surplus s b

/-- The document at the end of the text. -/
def finish? : Reader → Option Document
  | tokens m b => do
    match (← (← m.finish?).foldlM Builder.step b).expected with
    | .nothing d => some d
    | _ => none
  | surplus .. => none

/-- Read the rest of a text. -/
def run? : Reader → List Char → Option Document
  | r, [] => r.finish?
  | r, c :: cs => do run? (← r.step? c) cs

end Reader

/-- The document of a text with a layout. -/
def read? (layout : Layout) (s : String) : Option Document :=
  Reader.run? (.tokens .between (.start layout)) s.toList

/-! ## Writing -/

/-- Quoted text. -/
def quote (s : String) : List Char := '"' :: escape s.toList ++ ['"']

/-- Positional text of a floating-point number, with a point even when it is whole. -/
def floatChars (x : Binary64) : List Char :=
  if x.text.contains '.' then x.text else x.text ++ ['.', '0']

/-- Text without a list or a record in it. -/
def scalarChars : Document → List Char
  | .null | .unreadable => "null".toList
  | .bool true => "true".toList
  | .bool false => "false".toList
  | .int n => (toString n).toList
  | .float x => floatChars x
  | .text s => quote s
  | .list _ => "[]".toList
  | .record _ => ['{', '}']

/-- A line break and the indentation of a level; nothing in the compact form. -/
def lineBreak (indented : Bool) (level : Nat) : List Char :=
  if indented then '\n' :: List.replicate (2 * level) ' ' else []

/-- What stands between a name and its value. -/
def separator (indented : Bool) : List Char := if indented then [':', ' '] else [':']

mutual

/-- Text of a document at a level of nesting. -/
def chars (indented : Bool) (level : Nat) : Document → List Char
  | .list (d :: ds) =>
    '[' :: lineBreak indented (level + 1) ++ chars indented (level + 1) d ++
      charsItems indented (level + 1) ds ++ lineBreak indented level ++ [']']
  | .record ((name, d) :: fs) =>
    '{' :: lineBreak indented (level + 1) ++ quote name ++ separator indented ++
      chars indented (level + 1) d ++ charsFields indented (level + 1) fs ++
      lineBreak indented level ++ ['}']
  | d => scalarChars d

/-- Text of the items after the first one. -/
def charsItems (indented : Bool) (level : Nat) : List Document → List Char
  | [] => []
  | d :: ds =>
    ',' :: lineBreak indented level ++ chars indented level d ++ charsItems indented level ds

/-- Text of the fields after the first one. -/
def charsFields (indented : Bool) (level : Nat) : List (String × Document) → List Char
  | [] => []
  | (name, d) :: fs =>
    ',' :: lineBreak indented level ++ quote name ++ separator indented ++
      chars indented level d ++ charsFields indented level fs

end

/-- The text of a document on one line. -/
def write (d : Document) : String := String.ofList (chars false 0 d)

/-- The text of a document, indented. -/
def writeIndented (d : Document) : String := String.ofList (chars true 0 d)

end VaultKeeper.Json
