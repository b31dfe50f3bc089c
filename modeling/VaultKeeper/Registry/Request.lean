import VaultKeeper.Registry.Call
import VaultKeeper.Registry.Saved
import VaultKeeper.Selection

/-! # Requests

Everything that is asked of a registry. Its callers ask for commands, a selection stores what it has
computed, and what another run has saved is restored. Requests are served one after the other, each
by the registry that the ones before it have left behind.
-/

namespace VaultKeeper

/-- What is asked of a registry. -/
inductive Request
  /-- A caller asks for a command. -/
  | command (caller : Address) (c : Command)
  /-- A strategy is registered on behalf of a selection. -/
  | register (s : Strategy)
  /-- A default strategy is recorded on behalf of a selection. -/
  | record (profile : String) (tokens hash : Digest)
  /-- The strategy of a profile and an asset is selected. -/
  | select (profile : String) (asset : Address)
  /-- Saved selections are restored, whatever they hold. -/
  | restore (saved : SavedRegistry)

/-- The protocol whose deposit caps a request changes. -/
def Request.capsOf? : Request → Option String
  | .command _ c => c.capsOf?
  | .register _ | .record .. | .select .. | .restore _ => none

namespace Registry

/-- What a request is answered, and the registry that is left behind. -/
def respond (r : Registry) : Request → Except AllocationError Answer × Registry
  | .command caller c => r.call caller c
  | .register s => (.ok (.strategy s.hash), r.register s)
  | .record profile tokens hash => (.ok .done, r.cacheDefault profile tokens hash)
  | .select profile asset =>
    match r.bestStrategy profile asset with
    | .ok (choice, r') => (.ok (.selection choice), r')
    | .error e => (.error e, r)
  | .restore saved => (.ok (.dropped (r.dropped saved)), r.restore saved)

/-- The answers to a list of requests, and the registry that is left behind. -/
def serve (r : Registry) : List Request → List (Except AllocationError Answer) × Registry
  | [] => ([], r)
  | q :: rest =>
    let (answer, r') := r.respond q
    let (answers, last) := r'.serve rest
    (answer :: answers, last)

/-- The registry that a request leaves behind, granted or refused. -/
def after (r : Registry) (q : Request) : Registry := (r.respond q).2

/-- The registry that a list of requests leaves behind. -/
def run (r : Registry) (qs : List Request) : Registry := (r.serve qs).2

@[simp] theorem serve_cons (r : Registry) (q : Request) (rest : List Request) :
    r.serve (q :: rest) =
      ((r.respond q).1 :: ((r.respond q).2.serve rest).1, ((r.respond q).2.serve rest).2) := rfl

/-- Requests are served one part after the other. -/
theorem run_append (r : Registry) (qs later : List Request) :
    r.run (qs ++ later) = (r.run qs).run later := by
  induction qs generalizing r with
  | nil => rfl
  | cons q rest ih => exact ih (r.after q)

/-- A selection leaves behind what it has computed; one that fails leaves everything as it is. -/
theorem after_select (r : Registry) (profile : String) (asset : Address) :
    r.after (.select profile asset) = match r.bestStrategy profile asset with
      | .ok (_, r') => r'
      | .error _ => r := by
  rw [after, respond]
  cases r.bestStrategy profile asset with
  | ok x => rfl
  | error e => rfl

end Registry

end VaultKeeper
