import VaultKeeper.Proofs.Reachable
import VaultKeeper.Registry.Call

/-! # Answered calls

What a call answers and what it leaves behind. A call is turned away for want of a role, and then
nothing is written; it is carried out; or it is refused on the way, and then at most an entry of
deposit caps has been put in place, which says what its absence said.

A command about deposit caps does not depend on whether that entry is there, and no other command
reads the caps at all. -/

namespace VaultKeeper

namespace Registry

variable {r r' : Registry} {c : Command} {caller : Address} {protocol : String}

/-! ## Deposit caps -/

/-- A registry with other deposit caps. -/
def withCaps (r : Registry) (caps : Table String DepositCaps) : Registry := { r with caps }

/-- The deposit caps of a protocol; without an entry there is no limit. -/
def capsOf (r : Registry) (protocol : String) : DepositCaps := (r.caps.get? protocol).getD default

@[simp] theorem withCaps_caps (r : Registry) (t : Table String DepositCaps) :
    (r.withCaps t).caps = t := rfl

@[simp] theorem withCaps_withCaps (r : Registry) (t u : Table String DepositCaps) :
    (r.withCaps t).withCaps u = r.withCaps u := rfl

@[simp] theorem withCaps_self (r : Registry) : r.withCaps r.caps = r := rfl

/-- A registry with other deposit caps for one protocol. -/
def setCaps (r : Registry) (protocol : String) (caps : DepositCaps) : Registry :=
  r.withCaps (r.caps.insert protocol caps)

/-- The caps that are set for one protocol are not those of any other. -/
theorem capsOf_setCaps (r : Registry) (protocol other : String) (caps : DepositCaps) :
    (r.setCaps protocol caps).capsOf other =
      if other = protocol then caps else r.capsOf other := by
  rw [capsOf, setCaps, withCaps_caps, Table.get?_insert, capsOf]
  by_cases h : other = protocol
  · rw [if_pos h, if_pos h, Option.getD_some]
  · rw [if_neg h, if_neg h]

@[simp] theorem capsOf_setCaps_self (r : Registry) (protocol : String) (caps : DepositCaps) :
    (r.setCaps protocol caps).capsOf protocol = caps := by
  rw [capsOf_setCaps, if_pos rfl]

@[simp] theorem setCaps_setCaps (r : Registry) (protocol : String) (caps caps' : DepositCaps) :
    (r.setCaps protocol caps).setCaps protocol caps' = r.setCaps protocol caps' := by
  rw [setCaps, setCaps, withCaps_caps, withCaps_withCaps, Table.insert_insert, setCaps]

/-- The caps of a registered adapter are changed. -/
theorem updateCaps_of_contains (h : r.adapters.contains protocol = true)
    (f : DepositCaps → Except AllocationError DepositCaps) :
    r.updateCaps protocol f = (f (r.capsOf protocol)).map (r.setCaps protocol) := by
  rw [updateCaps, if_pos h]
  show (f (r.capsOf protocol) >>= _) = _
  cases f (r.capsOf protocol) <;> rfl

/-- There are no caps without an adapter. -/
theorem updateCaps_of_not_contains (h : ¬r.adapters.contains protocol = true)
    (f : DepositCaps → Except AllocationError DepositCaps) :
    r.updateCaps protocol f = .error (.unknownAdapter protocol) := by
  rw [updateCaps, if_neg h]
  rfl

/-- A command about deposit caps changes those of one protocol, in the same way in every registry. -/
theorem execute_eq_updateCaps (h : c.capsOf? = some protocol) :
    ∃ f, ∀ r : Registry, r.execute c = r.updateCaps protocol f := by
  cases c with
  | setCapMode p mode =>
    cases h
    exact ⟨fun caps => .ok (caps.setMode mode), fun _ => rfl⟩
  | setProtocolCap p bps =>
    cases h
    exact ⟨(·.setProtocolBps bps), fun _ => rfl⟩
  | setPoolCap p pool bps =>
    cases h
    exact ⟨(·.setPoolBps pool bps), fun _ => rfl⟩
  | setCapAmount p pool asset amount =>
    cases h
    exact ⟨fun caps => .ok (caps.setAmount pool asset amount), fun _ => rfl⟩
  | _ => cases h

/-- **What a command writes before it is checked** is nothing, or an entry of deposit caps that says
what its absence said. -/
theorem prepare_cases (r : Registry) (c : Command) :
    r.prepare c = r ∨
    ∃ protocol, c.capsOf? = some protocol ∧ r.adapters.contains protocol = true ∧
      r.prepare c = r.setCaps protocol (r.capsOf protocol) := by
  unfold prepare
  cases hcaps : c.capsOf? with
  | none => exact .inl rfl
  | some protocol =>
    by_cases hknown : r.adapters.contains protocol = true
    · refine .inr ⟨protocol, rfl, hknown, ?_⟩
      show (r.updateCaps protocol .ok).toOption.getD r = _
      rw [updateCaps_of_contains hknown]
      rfl
    · refine .inl ?_
      show (r.updateCaps protocol .ok).toOption.getD r = _
      rw [updateCaps_of_not_contains hknown]
      rfl

/-- The entry could have been put in place by a command, which chooses the ceiling that is in force
already. -/
theorem prepare_eq_execute (r : Registry) (c : Command) :
    r.prepare c = r ∨ ∃ c', r.execute c' = .ok (r.prepare c) := by
  rcases prepare_cases r c with h | ⟨protocol, -, hknown, h⟩
  · exact .inl h
  · refine .inr ⟨.setCapMode protocol (r.capsOf protocol).mode, ?_⟩
    rw [execute, updateCaps_of_contains hknown, h]
    rfl

/-- Commands do not see what was written before they are checked. -/
theorem execute_prepare (r : Registry) (c : Command) : (r.prepare c).execute c = r.execute c := by
  rcases prepare_cases r c with h | ⟨protocol, hcaps, hknown, h⟩
  · rw [h]
  · obtain ⟨f, hf⟩ := execute_eq_updateCaps hcaps
    -- The command reads the entry as it reads its absence, and what it sets replaces the entry.
    have hknown' : (r.setCaps protocol (r.capsOf protocol)).adapters.contains protocol = true :=
      hknown
    have hset : (r.setCaps protocol (r.capsOf protocol)).setCaps protocol = r.setCaps protocol :=
      funext (setCaps_setCaps r protocol _)
    rw [h, hf, hf, updateCaps_of_contains hknown, updateCaps_of_contains hknown',
      capsOf_setCaps_self, hset]

/-! ## Calls -/

/-- The governance account holds every role, granted or not. -/
theorem hasRole_governance (r : Registry) (role : Role) : r.hasRole role r.governance = true := by
  rw [hasRole, decide_eq_true rfl, Bool.true_or]

/-- **A caller without the role is turned away**, and nothing is written. -/
theorem call_of_lacks (h : r.hasRole c.role caller = false) :
    r.call caller c = (.error (.unauthorized caller c.role), r) := by
  rw [call, h]
  rfl

/-- A caller with the role gets what the command comes to. -/
theorem call_of_hasRole (h : r.hasRole c.role caller = true) :
    r.call caller c = match r.execute c with
      | .ok r' => (.ok (r.answer c), r')
      | .error e => (.error e, r.prepare c) := by
  rw [call, if_pos h]
  show (match (r.prepare c).execute c with
    | .ok r' => (.ok (r.answer c), r')
    | .error e => (.error e, r.prepare c) : Except AllocationError Answer × Registry) = _
  rw [execute_prepare]

/-- **A call is turned away, carried out, or refused on the way.** -/
theorem call_cases (r : Registry) (caller : Address) (c : Command) :
    (r.hasRole c.role caller = false ∧
      r.call caller c = (.error (.unauthorized caller c.role), r)) ∨
    (∃ r', r.hasRole c.role caller = true ∧ r.execute c = .ok r' ∧
      r.call caller c = (.ok (r.answer c), r')) ∨
    ∃ e, r.hasRole c.role caller = true ∧ r.execute c = .error e ∧
      r.call caller c = (.error e, r.prepare c) := by
  cases hrole : r.hasRole c.role caller with
  | false => exact .inl ⟨rfl, call_of_lacks hrole⟩
  | true =>
    have hcall := call_of_hasRole hrole
    cases hexecute : r.execute c with
    | ok r' =>
      rw [hexecute] at hcall
      exact .inr (.inl ⟨r', rfl, rfl, hcall⟩)
    | error e =>
      rw [hexecute] at hcall
      exact .inr (.inr ⟨e, rfl, rfl, hcall⟩)

/-- **A call leaves a registry as it is, or as a command makes it**, and be it the command that puts
an entry of deposit caps in place. -/
theorem call_eq_execute (r : Registry) (caller : Address) (c : Command) :
    (r.call caller c).2 = r ∨ ∃ c', r.execute c' = .ok (r.call caller c).2 := by
  rcases call_cases r caller c with ⟨-, h⟩ | ⟨r', -, hexecute, h⟩ | ⟨e, -, -, h⟩
  · rw [h]
    exact .inl rfl
  · rw [h]
    exact .inr ⟨c, hexecute⟩
  · rw [h]
    exact prepare_eq_execute r c

/-- A command that is performed gives back what its call leaves behind. -/
theorem perform_eq_call (r : Registry) (caller : Address) (c : Command) :
    r.perform caller c = (r.call caller c).1.map fun _ => (r.call caller c).2 := by
  rcases call_cases r caller c with ⟨hrole, h⟩ | ⟨r', hrole, hexecute, h⟩ | ⟨e, hrole, hexecute, h⟩
  · rw [h, perform, hrole]
    rfl
  · rw [h, perform, if_pos hrole, hexecute]
    rfl
  · rw [h, perform, if_pos hrole, hexecute]
    rfl

/-- The registry after calls of commands, one after the other. -/
def afterCalls (r : Registry) (calls : List (Address × Command)) : Registry :=
  calls.foldl (fun r x => (r.call x.1 x.2).2) r

@[simp] theorem afterCalls_cons (r : Registry) (x : Address × Command)
    (rest : List (Address × Command)) :
    r.afterCalls (x :: rest) = (r.call x.1 x.2).2.afterCalls rest := rfl

/-- What every call keeps is kept by a list of calls. -/
theorem afterCalls_induction {P : Registry → Prop} {calls : List (Address × Command)}
    (hstep : ∀ x ∈ calls, ∀ {r : Registry}, P r → P (r.call x.1 x.2).2) (hr : P r) :
    P (r.afterCalls calls) := by
  induction calls generalizing r with
  | nil => exact hr
  | cons x rest ih =>
    rw [afterCalls_cons]
    exact ih (fun y hy => hstep y (List.mem_cons_of_mem x hy)) (hstep x List.mem_cons_self hr)

end Registry

end VaultKeeper
