/-! # Health

Whether the allocator is alive and ready. It is ready while its loop runs, the last snapshot was
read and the executor answered. Two routes report it.
-/

namespace VaultKeeper

/-- The flags that readiness depends on. -/
structure Health where
  /-- Whether the last snapshot could be read. -/
  snapshot : Bool := true
  /-- Whether the executor accepts batches. -/
  executor : Bool := true
  /-- Whether the loop runs. -/
  running : Bool := false
deriving DecidableEq, Inhabited

namespace Health

/-- Whether all flags are set. -/
def isReady (h : Health) : Bool := h.running && h.snapshot && h.executor

/-- The status and the body of the page at a path, when there is one. -/
def page? (h : Health) (path : String) : Option (Nat × String) :=
  if path = "/live" then some (200, "OK")
  else if path = "/ready" then some (if h.isReady then (200, "READY") else (503, "NOT READY"))
  else none

/-- What follows the scheme of an absolute target. -/
def afterScheme? : List Char → Option (List Char)
  | ':' :: '/' :: '/' :: r => some r
  | _ :: r => afterScheme? r
  | [] => none

/-- The path of a target, without its query. It stands behind the host of an absolute target, and
only a target without a scheme starts with it. -/
def pathOf (target : String) : String :=
  let cs := target.toList.takeWhile fun c => c ≠ '?' && c ≠ '#'
  String.ofList <|
    if cs.head? = some '/' then cs else ((afterScheme? cs).getD []).dropWhile (· ≠ '/')

/-- The status and the body that answer a request. Only pages can be fetched, and a request for the
head of a page gets no body. -/
def respond (h : Health) (method target : String) : Nat × String :=
  match h.page? (pathOf target) with
  | none => (404, "")
  | some (status, body) =>
    if method = "GET" then (status, body)
    else if method = "HEAD" then (status, "")
    else (405, "")

end Health

end VaultKeeper
