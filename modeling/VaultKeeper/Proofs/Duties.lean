import VaultKeeper.Proofs.Consistency

/-! # Separation of duties

Every role has a part of the registry to itself: what its commands write lies in that part, and the
commands of the other roles do not reach it. Who holds which role lies in the part of governance, so
accounts without that role can neither change it nor widen what they may change. -/

namespace VaultKeeper

/-! ## What belongs to a role -/

/-- What the tables of a role hold. -/
def Role.Part : Role → Type
  | .governance =>
    Address × Table (Role × Address) Unit × Table String Adapter × Table Address Binding
  | .riskOperator => Table Address PoolRecord × Nat × Table String RiskProfile
  | .financeOperator => Table String DepositCaps
  | .strategyOperator =>
    Table Digest Strategy × Table (String × Digest) Digest × Table (String × Digest) DefaultState

namespace Registry

variable {r r' : Registry} {role other : Role} {c : Command} {caller account : Address}

/-- The part of a registry that belongs to a role. The account that holds every role is nobody's to
change and counts as part of governance. -/
def part (r : Registry) : (role : Role) → role.Part
  | .governance => (r.governance, r.roles, r.adapters, r.bindings)
  | .riskOperator => (r.pools, r.nextRegistration, r.profiles)
  | .financeOperator => r.caps
  | .strategyOperator => (r.strategies, r.overrides, r.defaults)

/-- A registry changes at most in the part that belongs to a role, and not in its governance
account. -/
def ChangesFor (role : Role) (r r' : Registry) : Prop :=
  match role with
  | .governance =>
    r' = { r with roles := r'.roles, adapters := r'.adapters, bindings := r'.bindings }
  | .riskOperator =>
    r' = { r with
      pools := r'.pools, nextRegistration := r'.nextRegistration, profiles := r'.profiles }
  | .financeOperator => r' = { r with caps := r'.caps }
  | .strategyOperator =>
    r' = { r with
      strategies := r'.strategies, overrides := r'.overrides, defaults := r'.defaults }

/-- Changing nothing stays within every part. -/
theorem ChangesFor.refl (role : Role) (r : Registry) : ChangesFor role r r := by
  cases role with
  | _ => rfl

/-- **The parts are disjoint**: what is changed for one role leaves the part of any other as it
is. -/
theorem ChangesFor.part_eq (h : ChangesFor role r r') (hne : other ≠ role) :
    r'.part other = r.part other := by
  cases role with
  | governance =>
    rw [show r' = _ from h]
    cases other with
    | governance => exact absurd rfl hne
    | _ => rfl
  | riskOperator =>
    rw [show r' = _ from h]
    cases other with
    | riskOperator => exact absurd rfl hne
    | _ => rfl
  | financeOperator =>
    rw [show r' = _ from h]
    cases other with
    | financeOperator => exact absurd rfl hne
    | _ => rfl
  | strategyOperator =>
    rw [show r' = _ from h]
    cases other with
    | strategyOperator => exact absurd rfl hne
    | _ => rfl

/-- The governance account stays. -/
theorem ChangesFor.governance_eq (h : ChangesFor role r r') : r'.governance = r.governance := by
  cases role with
  | _ => rw [show r' = _ from h]

/-! ## What a call changes -/

/-- **Every command changes the part of its role.** -/
theorem changesFor_execute (h : r.execute c = .ok r') : ChangesFor c.role r r' := by
  cases c with
  | grantRole role account =>
    cases h
    rfl
  | revokeRole role account =>
    cases h
    rfl
  | registerAdapter a =>
    obtain ⟨-, h⟩ := ite_error_eq_ok'.1 h
    cases h
    rfl
  | bindPool pool protocol stake =>
    obtain ⟨a, -, -, -, rfl⟩ := bindPool_eq_ok h
    rfl
  | addPool pool =>
    cases h
    unfold addPool
    split
    · exact .refl _ r
    · rfl
  | ratePool pool rating =>
    obtain ⟨record, -, -, rfl⟩ := ratePool_eq_ok h
    rfl
  | approvePool pool approved =>
    obtain ⟨record, -, rfl⟩ := updatePool_eq_ok h
    rfl
  | createProfile name canBorrow low high =>
    obtain ⟨range, -, -, rfl⟩ := createProfile_eq_ok h
    rfl
  | setProfileRange name low high =>
    obtain ⟨policy, range, -, -, rfl⟩ := setProfileRange_eq_ok h
    rfl
  | setCapMode | setProtocolCap | setPoolCap | setCapAmount =>
    rw [execute] at h
    obtain ⟨caps, -, -, rfl⟩ := updateCaps_eq_ok h
    rfl
  | addStrategy s =>
    cases h
    unfold register
    split
    · exact .refl _ r
    · rfl
  | setOverride profile asset strategy =>
    cases strategy with
    | none =>
      cases clearOverride_eq_ok h
      rfl
    | some hash =>
      obtain ⟨policy, s, -, -, -, -, rfl⟩ := setOverride_eq_ok h
      rfl
  | changeDefault change profile asset =>
    obtain ⟨state, next, -, -, rfl⟩ := changeDefault_eq_ok h
    rfl

/-- What a command writes before it is checked belongs to its role as well. -/
theorem changesFor_prepare (r : Registry) (c : Command) : ChangesFor c.role r (r.prepare c) := by
  rcases prepare_cases r c with h | ⟨protocol, hcaps, -, h⟩
  · rw [h]
    exact .refl _ r
  · have hrole : c.role = .financeOperator := by
      cases c with
      | setCapMode | setProtocolCap | setPoolCap | setCapAmount => rfl
      | _ => cases hcaps
    rw [h, hrole]
    rfl

/-- **Every call changes the part of its command's role**, granted or refused. -/
theorem changesFor_call (r : Registry) (caller : Address) (c : Command) :
    ChangesFor c.role r (r.call caller c).2 := by
  rcases call_cases r caller c with ⟨-, h⟩ | ⟨r', -, hexecute, h⟩ | ⟨e, -, -, h⟩
  · rw [h]
    exact .refl _ r
  · rw [h]
    exact changesFor_execute hexecute
  · rw [h]
    exact changesFor_prepare r c

/-! ## What accounts without a role reach -/

/-- Who holds a role is decided by governance. -/
theorem hasRole_of_part_eq (h : r'.part .governance = r.part .governance) (role : Role)
    (account : Address) : r'.hasRole role account = r.hasRole role account := by
  have hgovernance : r'.governance = r.governance := congrArg (·.1) h
  have hroles : r'.roles = r.roles := congrArg (·.2.1) h
  rw [hasRole, hgovernance, hroles, hasRole]

/-- A call of an account without a role leaves the part of the role as it is: the command belongs to
another role, or the account is turned away. -/
theorem part_call (h : r.hasRole role caller = false) (c : Command) :
    (r.call caller c).2.part role = r.part role := by
  by_cases hrole : role = c.role
  · subst hrole
    rw [call_of_lacks h]
  · exact (changesFor_call r caller c).part_eq hrole

/-- **Accounts that hold neither a role nor governance leave the part of the role as it is**,
whatever they call and in whatever order. Roles are not theirs to change, so none of them comes to
hold one on the way. -/
theorem part_afterCalls {A : Address → Prop} {calls : List (Address × Command)}
    (hgovernance : ∀ a, A a → r.hasRole .governance a = false)
    (hrole : ∀ a, A a → r.hasRole role a = false) (hcalls : ∀ x ∈ calls, A x.1) :
    (r.afterCalls calls).part .governance = r.part .governance ∧
      (r.afterCalls calls).part role = r.part role := by
  -- As long as governance is as it was, every account lacks the roles that it lacked at the start.
  refine afterCalls_induction
    (P := fun s => s.part .governance = r.part .governance ∧ s.part role = r.part role)
    (fun x hx {s} hs => ?_) ⟨rfl, rfl⟩
  obtain ⟨hs, hpart⟩ := hs
  have hlacks : s.hasRole .governance x.1 = false :=
    (hasRole_of_part_eq hs _ _).trans (hgovernance x.1 (hcalls x hx))
  have hlacks' : s.hasRole role x.1 = false :=
    (hasRole_of_part_eq hs _ _).trans (hrole x.1 (hcalls x hx))
  exact ⟨(part_call hlacks x.2).trans hs, (part_call hlacks' x.2).trans hpart⟩

/-! ## The governance account -/

/-- The governance account stays, whoever calls what. -/
theorem governance_afterCalls (r : Registry) (calls : List (Address × Command)) :
    (r.afterCalls calls).governance = r.governance :=
  afterCalls_induction (P := fun s => s.governance = r.governance)
    (fun x _ {s} hs => (changesFor_call s x.1 x.2).governance_eq.trans hs) rfl

end Registry

/-! ## Who is turned away -/

/-- A computation that turns nobody away. -/
def TurnsNobodyAway {α : Type} (x : Except AllocationError α) : Prop :=
  ∀ account role, x ≠ .error (.unauthorized account role)

namespace TurnsNobodyAway

variable {α β : Type} {x : Except AllocationError α} {f : α → Except AllocationError β}
  {y z : Except AllocationError α} {p : Prop} [Decidable p]

/-- A result turns nobody away. -/
theorem ok (a : α) : TurnsNobodyAway (.ok a) := fun _ _ h => nomatch h

/-- A sequence turns nobody away when no part of it does. -/
theorem bind (hx : TurnsNobodyAway x) (hf : ∀ a, TurnsNobodyAway (f a)) :
    TurnsNobodyAway (x >>= f) := by
  cases x with
  | ok a => exact hf a
  | error e =>
    intro account role h
    refine hx account role ?_
    cases h
    rfl

/-- A choice turns nobody away when neither side does. -/
theorem ite (hy : TurnsNobodyAway y) (hz : TurnsNobodyAway z) :
    TurnsNobodyAway (if p then y else z) := by
  by_cases h : p
  · rw [if_pos h]
    exact hy
  · rw [if_neg h]
    exact hz

end TurnsNobodyAway

/-- A configured pool is looked up without asking who wants to know. -/
theorem Protocol.turnsNobodyAway_acceptedAssets (p : Protocol) (pool : Address) :
    TurnsNobodyAway (p.acceptedAssets pool) := by
  cases p with
  | vault p =>
    refine .bind ?_ fun _ => .ok _
    unfold VaultProtocol.asset
    split
    · exact .ok _
    · exact fun _ _ h => nomatch h
  | lending p =>
    refine .bind ?_ fun _ => .ok _
    unfold LendingProtocol.market
    split
    · exact .ok _
    · exact fun _ _ h => nomatch h
  | curve p =>
    refine .bind ?_ fun _ => .ok _
    unfold CurveProtocol.pool
    split
    · exact .ok _
    · exact fun _ _ h => nomatch h

namespace Registry

/-- Profiles are looked up without asking who wants to know. -/
theorem turnsNobodyAway_profile (r : Registry) (name : String) :
    TurnsNobodyAway (r.profile name) := by
  unfold profile
  split
  · exact .ok _
  · exact fun _ _ h => nomatch h

/-- So are strategies. -/
theorem turnsNobodyAway_strategy (r : Registry) (hash : Digest) :
    TurnsNobodyAway (r.strategy hash) := by
  unfold strategy
  split
  · exact .ok _
  · exact fun _ _ h => nomatch h

/-- Changing the record of a pool turns nobody away. -/
theorem turnsNobodyAway_updatePool (r : Registry) (pool : Address) (f : PoolRecord → PoolRecord) :
    TurnsNobodyAway (r.updatePool pool f) := by
  unfold updatePool
  split
  · exact .ok _
  · exact fun _ _ h => nomatch h

/-- Changing caps turns nobody away when the change itself does not. -/
theorem turnsNobodyAway_updateCaps {f : DepositCaps → Except AllocationError DepositCaps}
    (r : Registry) (protocol : String) (hf : ∀ caps, TurnsNobodyAway (f caps)) :
    TurnsNobodyAway (r.updateCaps protocol f) :=
  .ite (.bind (hf _) fun _ => .ok _) fun _ _ h => nomatch h

/-- A share is checked without asking who sets it. -/
theorem turnsNobodyAway_checkBps (bps : Nat) : TurnsNobodyAway (DepositCaps.checkBps bps) :=
  .ite (fun _ _ h => nomatch h) (.ok _)

/-- So is a range of ratings. -/
theorem turnsNobodyAway_range (low high : Nat) : TurnsNobodyAway (RatingRange.make low high) :=
  .ite (fun _ _ h => nomatch h) (.ok _)

/-- Binding a pool turns nobody away. -/
theorem turnsNobodyAway_bindPool (r : Registry) (pool : Address) (protocol : String)
    (stake : Bool) : TurnsNobodyAway (r.bindPool pool protocol stake) := by
  unfold bindPool
  refine .ite ?_ fun _ _ h => nomatch h
  split
  · rename_i a _
    refine .bind (a.base.turnsNobodyAway_acceptedAssets pool) fun _ => ?_
    refine .ite (.bind ?_ fun _ => .ite (.ok _) fun _ _ h => nomatch h) (.ok _)
    unfold Adapter.stakeable Adapter.demand
    split
    · exact .ok _
    · exact fun _ _ h => nomatch h
  · exact fun _ _ h => nomatch h

/-- **Nobody is turned away but for want of a role**: a command whose caller has passed the check of
roles is refused for other reasons, if at all. -/
theorem turnsNobodyAway_execute (r : Registry) (c : Command) : TurnsNobodyAway (r.execute c) := by
  -- Every command is a sequence of lookups and checks, none of which is about the caller.
  cases c with
  | grantRole role account => exact .ok _
  | revokeRole role account => exact .ok _
  | registerAdapter a => exact .ite (fun _ _ h => nomatch h) (.ok _)
  | addPool pool => exact .ok _
  | ratePool pool rating =>
    show TurnsNobodyAway (r.ratePool pool rating)
    unfold ratePool
    split
    · exact fun _ _ h => nomatch h
    · exact r.turnsNobodyAway_updatePool pool _
  | approvePool pool approved => exact r.turnsNobodyAway_updatePool pool _
  | bindPool pool protocol stake => exact r.turnsNobodyAway_bindPool pool protocol stake
  | setCapMode protocol mode => exact r.turnsNobodyAway_updateCaps protocol fun _ => .ok _
  | setProtocolCap protocol bps =>
    show TurnsNobodyAway (r.updateCaps protocol (·.setProtocolBps bps))
    refine r.turnsNobodyAway_updateCaps protocol fun caps => ?_
    exact .bind (turnsNobodyAway_checkBps bps) fun _ => .ok _
  | setPoolCap protocol pool bps =>
    show TurnsNobodyAway (r.updateCaps protocol (·.setPoolBps pool bps))
    refine r.turnsNobodyAway_updateCaps protocol fun caps => ?_
    exact .bind (turnsNobodyAway_checkBps bps) fun _ => .ok _
  | setCapAmount protocol pool asset amount =>
    exact r.turnsNobodyAway_updateCaps protocol fun _ => .ok _
  | createProfile name canBorrow low high =>
    exact .ite (fun _ _ h => nomatch h) (.bind (turnsNobodyAway_range low high) fun _ => .ok _)
  | setProfileRange name low high =>
    exact .bind (turnsNobodyAway_range low high) fun _ =>
      .bind (r.turnsNobodyAway_profile name) fun _ => .ok _
  | addStrategy s => exact .ok _
  | setOverride profile asset strategy =>
    cases strategy with
    | none => exact .bind (r.turnsNobodyAway_profile profile) fun _ => .ok _
    | some hash =>
      refine .bind (r.turnsNobodyAway_profile profile) fun _ =>
        .bind (r.turnsNobodyAway_strategy hash) fun _ => .ite ?_ fun _ _ h => nomatch h
      exact .ite (fun _ _ h => nomatch h) (.ok _)
  | changeDefault change profile asset =>
    refine .bind (r.turnsNobodyAway_profile profile) fun _ => .bind ?_ fun _ => .ok _
    cases r.defaultState profile (tokenHash [asset]) with
    | unset => exact fun _ _ h => nomatch h
    | ratingBased paused cached => exact .ok _

/-- A caller with the role is not turned away. -/
theorem turnsNobodyAway_call {r : Registry} {caller : Address} {c : Command}
    (h : r.hasRole c.role caller = true) : TurnsNobodyAway (r.call caller c).1 := by
  rw [call_of_hasRole h]
  have hexecute := r.turnsNobodyAway_execute c
  cases hresult : r.execute c with
  | ok r' => exact .ok _
  | error e =>
    rw [hresult] at hexecute
    intro account role hcall
    cases hcall
    exact hexecute account role rfl

end Registry

/-- **Duties are separated.** For every registry and every set `A` of accounts without the role of
governance, whatever they call and in whatever order, granted or refused:

- who holds which role, the adapters and the bindings stay as they are;
- pools and profiles stay unless one of them is a risk operator, deposit caps unless one is a
  finance operator, and strategies, overrides and defaults unless one is a strategy operator.

Every call without the required role is turned away by its caller and role and changes nothing. The
governance account passes every check, whatever has been called before, by itself or by others. -/
theorem duties_stay_apart (r : Registry) :
    (∀ (A : Address → Prop) (calls : List (Address × Command)),
      (∀ a, A a → r.hasRole .governance a = false) → (∀ x ∈ calls, A x.1) →
        ((r.afterCalls calls).governance = r.governance ∧
          (r.afterCalls calls).roles = r.roles ∧
          (r.afterCalls calls).adapters = r.adapters ∧
          (r.afterCalls calls).bindings = r.bindings) ∧
        ((∀ a, A a → r.hasRole .riskOperator a = false) →
          (r.afterCalls calls).pools = r.pools ∧
          (r.afterCalls calls).nextRegistration = r.nextRegistration ∧
          (r.afterCalls calls).profiles = r.profiles) ∧
        ((∀ a, A a → r.hasRole .financeOperator a = false) →
          (r.afterCalls calls).caps = r.caps) ∧
        ((∀ a, A a → r.hasRole .strategyOperator a = false) →
          (r.afterCalls calls).strategies = r.strategies ∧
          (r.afterCalls calls).overrides = r.overrides ∧
          (r.afterCalls calls).defaults = r.defaults)) ∧
    (∀ caller c, r.hasRole c.role caller = false →
      r.call caller c = (.error (.unauthorized caller c.role), r)) ∧
    ∀ calls : List (Address × Command),
      (∀ role, (r.afterCalls calls).hasRole role r.governance = true) ∧
      ∀ c, TurnsNobodyAway ((r.afterCalls calls).call r.governance c).1 := by
  refine ⟨fun A calls hgovernance hcalls => ⟨?_, fun hrole => ?_, fun hrole => ?_, fun hrole => ?_⟩,
    fun caller c h => Registry.call_of_lacks h, fun calls => ?_⟩
  · have hpart := (Registry.part_afterCalls hgovernance hgovernance hcalls).1
    exact ⟨congrArg (·.1) hpart, congrArg (·.2.1) hpart, congrArg (·.2.2.1) hpart,
      congrArg (·.2.2.2) hpart⟩
  · have hpart := (Registry.part_afterCalls hgovernance hrole hcalls).2
    exact ⟨congrArg (·.1) hpart, congrArg (·.2.1) hpart, congrArg (·.2.2) hpart⟩
  · exact (Registry.part_afterCalls hgovernance hrole hcalls).2
  · have hpart := (Registry.part_afterCalls hgovernance hrole hcalls).2
    exact ⟨congrArg (·.1) hpart, congrArg (·.2.1) hpart, congrArg (·.2.2) hpart⟩
  · have hholds : ∀ role, (r.afterCalls calls).hasRole role r.governance = true := by
      intro role
      rw [← Registry.governance_afterCalls r calls]
      exact Registry.hasRole_governance _ role
    exact ⟨hholds, fun c => Registry.turnsNobodyAway_call (hholds c.role)⟩

namespace Founding

/-- An account that only holds the role of finance. -/
def treasurer : Address := .ofNat 21

/-- The prepared registry with a treasurer. The governance account has taken its own role away. -/
def staffed : Registry :=
  ((Registry.new admin).run preparation).afterCalls
    [(admin, .grantRole .financeOperator treasurer), (admin, .revokeRole .governance admin)]

/-- The treasurer limits deposits, then tries to take over. -/
def attempts : List (Address × Command) :=
  [(treasurer, .setCapMode "vault" .amount), (treasurer, .grantRole .governance treasurer),
    (treasurer, .approvePool (.ofNat 5) true)]

/-- The treasurer has limited deposits and changed nothing else, and the governance account is still
obeyed. -/
theorem treasurer_only_limits :
    (staffed.afterCalls attempts).caps.contains "vault" = true ∧
      (staffed.afterCalls attempts).roles = staffed.roles ∧
      (staffed.afterCalls attempts).pools = staffed.pools ∧
      (staffed.afterCalls attempts).strategies = staffed.strategies ∧
      staffed.call treasurer (.grantRole .governance treasurer) =
        (.error (.unauthorized treasurer .governance), staffed) ∧
      (staffed.afterCalls attempts).hasRole .governance admin = true := by
  obtain ⟨hapart, haway, hgovernance⟩ := duties_stay_apart staffed
  have hcalls : ∀ x ∈ attempts, x.1 = treasurer := by
    intro x hx
    simp only [attempts, List.mem_cons, List.not_mem_nil, or_false] at hx
    rcases hx with rfl | rfl | rfl <;> rfl
  obtain ⟨⟨-, hroles, -, -⟩, hrisk, -, hstrategy⟩ :=
    hapart (· = treasurer) attempts (fun a ha => ha ▸ rfl) hcalls
  exact ⟨rfl, hroles, (hrisk fun a ha => ha ▸ rfl).1, (hstrategy fun a ha => ha ▸ rfl).1,
    haway treasurer (.grantRole .governance treasurer) rfl, (hgovernance attempts).1 .governance⟩

end Founding

end VaultKeeper
