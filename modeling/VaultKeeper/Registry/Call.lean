import VaultKeeper.Registry.Command

/-! # Calls in place

All callers share one registry, and every call changes it in place. What a refused call has written
before its refusal stays written: a command about deposit caps puts the entry of its protocol in
place before it looks at the number it is given.
-/

namespace VaultKeeper

/-- What an accepted call answers. -/
inductive Answer
  /-- Nothing besides success. -/
  | done
  /-- The record of a pool. -/
  | pool (record : PoolRecord)
  /-- The digest of a strategy. -/
  | strategy (hash : Digest)
  /-- A selected strategy. -/
  | selection (choice : Selection)
  /-- How many saved entries are dropped. -/
  | dropped (count : Nat)
deriving DecidableEq, Inhabited

/-- The protocol whose deposit caps a command changes. -/
def Command.capsOf? : Command → Option String
  | .setCapMode protocol _ | .setProtocolCap protocol _ | .setPoolCap protocol _ _
  | .setCapAmount protocol _ _ _ => some protocol
  | _ => none

namespace Registry

/-- What a command writes before anything but its caller is checked: the deposit caps of a registered
adapter get an entry, without limit when they have none. -/
def prepare (r : Registry) (c : Command) : Registry :=
  match c.capsOf? with
  | some protocol => (r.updateCaps protocol .ok).toOption.getD r
  | none => r

/-- What a registry answers to a command that it carries out. -/
def answer (r : Registry) : Command → Answer
  | .addPool pool => .pool ((r.pools.get? pool).getD ⟨pool, none, false, r.nextRegistration⟩)
  | .addStrategy s => .strategy s.hash
  | _ => .done

/-- The answer to a command of a caller, and the registry that is left behind. -/
def call (r : Registry) (caller : Address) (c : Command) :
    Except AllocationError Answer × Registry :=
  if r.hasRole c.role caller then
    let prepared := r.prepare c
    match prepared.execute c with
    | .ok r' => (.ok (r.answer c), r')
    | .error e => (.error e, prepared)
  else (.error (.unauthorized caller c.role), r)

end Registry

end VaultKeeper
