import VaultKeeper.Proofs.Consistency
import VaultKeeper.Proofs.EntryGate

/-! # Refusals leave no trace

A refused request may have written something: the deposit caps of a protocol get an entry before the
number that they are given is checked. Registries that differ in such entries are interchangeable.
They answer every question alike, and every request gets the same answer from both and leaves
interchangeable registries behind, so that nothing that follows brings the difference to light.

Caps are read by the commands that change them and by nothing else that a registry is asked, so
every other request runs the same way over any caps at all. -/

namespace VaultKeeper

/-- What is done to the result of a sequence is done to the result of its last part. -/
theorem map_bind {ε α β γ : Type} (x : Except ε α) (f : α → Except ε β) (g : β → γ) :
    (x >>= f).map g = x >>= fun a => (f a).map g := by
  cases x with
  | ok a => rfl
  | error e => rfl

namespace Registry

variable {r r' r'' : Registry} {c : Command} {caller : Address} {protocol : String} {q : Request}

/-- **Registries that no question tells apart.** -/
structure LooksAlike (r r' : Registry) : Prop where
  /-- Every account holds the same roles. -/
  hasRole : ∀ role account, r'.hasRole role account = r.hasRole role account
  /-- The same pools are known, with the same records. -/
  pool : ∀ pool, r'.pools.get? pool = r.pools.get? pool
  /-- They are listed in the same order. -/
  poolRecords : r'.poolRecords = r.poolRecords
  /-- They are bound to the same adapters, with the same options and the same caps. -/
  binding? : ∀ pool, r'.binding? pool = r.binding? pool
  /-- The same strategies are registered. -/
  strategy : ∀ hash, r'.strategy hash = r.strategy hash
  /-- There are as many of them. -/
  size : r'.strategies.size = r.strategies.size
  /-- The same risk profiles exist. -/
  profile : ∀ name, r'.profile name = r.profile name
  /-- The same strategies are chosen. -/
  override? : ∀ profile tokens, r'.override? profile tokens = r.override? profile tokens
  /-- Defaults are in the same state. -/
  defaultState : ∀ profile tokens, r'.defaultState profile tokens = r.defaultState profile tokens
  /-- The same selections are saved. -/
  saved : r'.saved = r.saved
  /-- Every strategy has the same route, from which all plans are compiled. -/
  route : ∀ d s, r'.route d s = r.route d s

/-! ## Other caps -/

/-- A pool is changed in the same way over any caps. -/
theorem updatePool_withCaps (r : Registry) (t : Table String DepositCaps) (pool : Address)
    (f : PoolRecord → PoolRecord) :
    (r.withCaps t).updatePool pool f = (r.updatePool pool f).map (·.withCaps t) := by
  have hpools : (r.withCaps t).pools = r.pools := rfl
  unfold updatePool
  rw [hpools]
  cases r.pools.get? pool with
  | none => rfl
  | some record => rfl

/-- A pool is added in the same way over any caps. -/
theorem addPool_withCaps (r : Registry) (t : Table String DepositCaps) (pool : Address) :
    (r.withCaps t).addPool pool = (r.addPool pool).withCaps t := by
  show (if r.pools.contains pool then _ else _) = _
  unfold addPool
  split
  · rfl
  · rfl

/-- A pool is bound in the same way over any caps. -/
theorem bindPool_withCaps (r : Registry) (t : Table String DepositCaps) (pool : Address)
    (protocol : String) (stake : Bool) :
    (r.withCaps t).bindPool pool protocol stake =
      (r.bindPool pool protocol stake).map (·.withCaps t) := by
  have hadapters : (r.withCaps t).adapters = r.adapters := rfl
  unfold bindPool
  rw [hadapters]
  cases r.adapters.get? protocol with
  | none =>
    simp only [apply_ite (Except.map _)]
    rfl
  | some a =>
    simp only [apply_ite (Except.map _), map_bind]
    rfl

/-- A strategy is registered in the same way over any caps. -/
theorem register_withCaps (r : Registry) (t : Table String DepositCaps) (s : Strategy) :
    (r.withCaps t).register s = (r.register s).withCaps t := by
  show (if r.strategies.contains s.hash then _ else _) = _
  unfold register
  split
  · rfl
  · rfl

/-- So is a number of strategies. -/
theorem foldl_register_withCaps (r : Registry) (t : Table String DepositCaps)
    (xs : List Strategy) :
    xs.foldl register (r.withCaps t) = (xs.foldl register r).withCaps t := by
  induction xs generalizing r with
  | nil => rfl
  | cons x rest ih => rw [List.foldl_cons, List.foldl_cons, register_withCaps, ih]

/-- **A command that is not about caps runs in the same way over any caps.** -/
theorem execute_withCaps (h : c.capsOf? = none) (r : Registry) (t : Table String DepositCaps) :
    (r.withCaps t).execute c = (r.execute c).map (·.withCaps t) := by
  cases c with
  | grantRole role account => rfl
  | revokeRole role account => rfl
  | registerAdapter a =>
    simp only [execute, apply_ite (Except.map _)]
    rfl
  | addPool pool =>
    rw [execute, addPool_withCaps]
    rfl
  | ratePool pool rating =>
    simp only [execute, ratePool]
    cases rating.filter (maxPoolRating < ·) with
    | none => exact updatePool_withCaps r t pool _
    | some n => rfl
  | approvePool pool approved => exact updatePool_withCaps r t pool _
  | bindPool pool protocol stake => exact bindPool_withCaps r t pool protocol stake
  | createProfile name canBorrow low high =>
    simp only [execute, createProfile, apply_ite (Except.map _), map_bind]
    rfl
  | setProfileRange name low high =>
    simp only [execute, setProfileRange, map_bind]
    rfl
  | addStrategy s =>
    rw [execute, register_withCaps]
    rfl
  | setOverride profile asset strategy =>
    cases strategy with
    | none =>
      simp only [execute, clearOverride, map_bind]
      rfl
    | some hash =>
      simp only [execute, setOverride, apply_ite (Except.map _), map_bind]
      rfl
  | changeDefault change profile asset =>
    simp only [execute, changeDefault, map_bind]
    rfl
  | setCapMode | setProtocolCap | setPoolCap | setCapAmount => cases h

/-- The same pools are candidates over any caps. -/
theorem candidate?_withCaps (r : Registry) (t : Table String DepositCaps) (p : RiskProfile)
    (asset : Address) (record : PoolRecord) :
    (r.withCaps t).candidate? p asset record = r.candidate? p asset record := by
  have hbindings : (r.withCaps t).bindings = r.bindings := rfl
  have hadapters : (r.withCaps t).adapters = r.adapters := rfl
  unfold candidate? Registry.binding?
  rw [hbindings, hadapters]
  cases r.bindings.get? record.pool with
  | none => rfl
  | some b =>
    simp only [Option.bind_eq_bind, Option.bind_some]
    cases r.adapters.get? b.protocol with
    | none => rfl
    | some a => rfl

/-- Pools are ranked in the same way over any caps. -/
theorem rankPools_withCaps (r : Registry) (t : Table String DepositCaps) (p : RiskProfile)
    (asset : Address) : (r.withCaps t).rankPools p asset = r.rankPools p asset := by
  have hcandidates : (r.withCaps t).candidate? p asset = r.candidate? p asset :=
    funext (candidate?_withCaps r t p asset)
  rw [rankPools, hcandidates]
  rfl

/-- A strategy is selected in the same way over any caps. -/
theorem bestStrategy_withCaps (r : Registry) (t : Table String DepositCaps) (profile : String)
    (asset : Address) :
    (r.withCaps t).bestStrategy profile asset =
      (r.bestStrategy profile asset).map fun x => (x.1, x.2.withCaps t) := by
  have hprofile : (r.withCaps t).profile profile = r.profile profile := rfl
  have hoverride : (r.withCaps t).override? profile (tokenHash [asset]) =
      r.override? profile (tokenHash [asset]) := rfl
  have hdefault : (r.withCaps t).defaultState profile (tokenHash [asset]) =
      r.defaultState profile (tokenHash [asset]) := rfl
  unfold bestStrategy
  simp only [hprofile, hoverride, hdefault, rankPools_withCaps, register_withCaps, map_bind]
  congr 1
  funext policy
  cases r.override? profile (tokenHash [asset]) with
  | some hash => rfl
  | none =>
    -- Only a paused default ends the search before the pools are ranked.
    cases r.rankPools policy asset with
    | nil =>
      cases r.defaultState profile (tokenHash [asset]) with
      | unset => rfl
      | ratingBased paused cached => cases paused <;> rfl
    | cons best rest =>
      cases r.defaultState profile (tokenHash [asset]) with
      | unset =>
        simp only [map_bind]
        rfl
      | ratingBased paused cached =>
        cases paused with
        | true => rfl
        | false =>
          simp only [map_bind]
          rfl

/-- A command is answered in the same way over any caps. -/
theorem answer_withCaps (r : Registry) (t : Table String DepositCaps) (c : Command) :
    (r.withCaps t).answer c = r.answer c := by
  cases c with
  | _ => rfl

/-- **A request that is not about caps is answered in the same way over any caps.** -/
theorem respond_withCaps (hq : q.capsOf? = none)
    (r : Registry) (t : Table String DepositCaps) :
    (r.withCaps t).respond q = ((r.respond q).1, (r.respond q).2.withCaps t) := by
  cases q with
  | command caller c =>
    have hcaps : c.capsOf? = none := hq
    have hprepare : ∀ r : Registry, r.prepare c = r := fun r => by rw [prepare, hcaps]
    have hrole : (r.withCaps t).hasRole c.role caller = r.hasRole c.role caller := rfl
    simp only [respond, call, hrole, hprepare, answer_withCaps, execute_withCaps hcaps]
    by_cases hholds : r.hasRole c.role caller = true
    · rw [if_pos hholds, if_pos hholds]
      cases r.execute c with
      | ok r' => rfl
      | error e => rfl
    · rw [if_neg hholds, if_neg hholds]
  | register s => rw [respond, respond, register_withCaps]
  | record profile tokens hash => rfl
  | select profile asset =>
    simp only [respond, bestStrategy_withCaps]
    cases r.bestStrategy profile asset with
    | ok x => rfl
    | error e => rfl
  | restore saved =>
    have hdropped : (r.withCaps t).dropped saved = r.dropped saved := by
      simp only [dropped, foldl_register_withCaps]
      rfl
    have hrestored : (r.withCaps t).restore saved = (r.restore saved).withCaps t := by
      simp only [restore, foldl_register_withCaps]
      rfl
    rw [respond, respond, hdropped, hrestored]

/-- A request that is not about caps leaves the caps as they are. -/
theorem caps_respond (hq : q.capsOf? = none)
    (r : Registry) : (r.respond q).2.caps = r.caps := by
  have hself := respond_withCaps hq r r.caps
  rw [withCaps_self] at hself
  rw [congrArg Prod.snd hself, withCaps_caps]

/-! ## Interchangeable registries -/

/-- **Registries that differ in entries of caps that say what their absence says.** -/
structure Interchangeable (r r' : Registry) : Prop where
  /-- Nothing but the caps differs. -/
  rest : r' = r.withCaps r'.caps
  /-- The caps of every protocol are the same. -/
  capsOf : ∀ protocol, r'.capsOf protocol = r.capsOf protocol

namespace Interchangeable

/-- A registry is interchangeable with itself. -/
theorem refl (r : Registry) : r.Interchangeable r := ⟨rfl, fun _ => rfl⟩

/-- The relation goes both ways. -/
theorem symm (h : r.Interchangeable r') : r'.Interchangeable r := by
  refine ⟨?_, fun protocol => (h.capsOf protocol).symm⟩
  rw [h.rest]
  rfl

/-- Differences that do not show add up to one that does not show. -/
theorem trans (h : r.Interchangeable r') (h' : r'.Interchangeable r'') : r.Interchangeable r'' := by
  refine ⟨?_, fun protocol => (h'.capsOf protocol).trans (h.capsOf protocol)⟩
  rw [h'.rest, h.rest]
  rfl

/-- The same caps may be set in both. -/
theorem setCaps (h : r.Interchangeable r') (protocol : String) (caps : DepositCaps) :
    (r.setCaps protocol caps).Interchangeable (r'.setCaps protocol caps) := by
  refine ⟨?_, fun other => ?_⟩
  · rw [h.rest]
    rfl
  · rw [capsOf_setCaps, capsOf_setCaps, h.capsOf]

/-- **What a command writes before it is checked does not show.** -/
theorem prepare (r : Registry) (c : Command) : r.Interchangeable (r.prepare c) := by
  rcases prepare_cases r c with h | ⟨protocol, -, -, h⟩
  · rw [h]
    exact refl r
  · rw [h]
    refine ⟨rfl, fun other => ?_⟩
    rw [capsOf_setCaps]
    split
    case isTrue hother => rw [hother]
    case isFalse => rfl

/-- The same accounts hold the same roles. -/
theorem hasRole (h : r.Interchangeable r') (role : Role) (account : Address) :
    r'.hasRole role account = r.hasRole role account := by
  rw [h.rest]
  rfl

/-- A command about caps is refused by both with the same error, or carried out by both. -/
theorem execute (h : r.Interchangeable r') (hc : c.capsOf? = some protocol) :
    (∃ x x', r.execute c = .ok x ∧ r'.execute c = .ok x' ∧ x.Interchangeable x') ∨
    ∃ e, r.execute c = .error e ∧ r'.execute c = .error e := by
  obtain ⟨f, hf⟩ := execute_eq_updateCaps hc
  have hadapters : r'.adapters = r.adapters := by
    rw [h.rest]
    rfl
  rw [hf, hf]
  by_cases hknown : r.adapters.contains protocol = true
  · rw [updateCaps_of_contains hknown, updateCaps_of_contains (hadapters ▸ hknown), h.capsOf]
    cases f (r.capsOf protocol) with
    | ok caps => exact .inl ⟨_, _, rfl, rfl, h.setCaps protocol caps⟩
    | error e => exact .inr ⟨e, rfl, rfl⟩
  · rw [updateCaps_of_not_contains hknown, updateCaps_of_not_contains (hadapters ▸ hknown)]
    exact .inr ⟨_, rfl, rfl⟩

/-- A command about caps gets the same answer from both and leaves them interchangeable. -/
theorem call (h : r.Interchangeable r') (hc : c.capsOf? = some protocol) (caller : Address) :
    (r'.call caller c).1 = (r.call caller c).1 ∧
      (r.call caller c).2.Interchangeable (r'.call caller c).2 := by
  cases hrole : r.hasRole c.role caller with
  | false =>
    rw [call_of_lacks hrole, call_of_lacks ((h.hasRole _ _).trans hrole)]
    exact ⟨rfl, h⟩
  | true =>
    rw [call_of_hasRole hrole, call_of_hasRole ((h.hasRole _ _).trans hrole)]
    rcases h.execute hc with ⟨x, x', hx, hx', hxx⟩ | ⟨e, he, he'⟩
    · have hanswer : r'.answer c = r.answer c := by
        rw [h.rest]
        exact answer_withCaps r _ c
      rw [hx, hx', hanswer]
      exact ⟨rfl, hxx⟩
    · rw [he, he']
      exact ⟨rfl, ((prepare r c).symm.trans h).trans (prepare r' c)⟩

/-- **Every request gets the same answer from both and leaves them interchangeable.** -/
theorem respond (h : r.Interchangeable r') (q : Request) :
    (r'.respond q).1 = (r.respond q).1 ∧
      (r.respond q).2.Interchangeable (r'.respond q).2 := by
  cases hq : q.capsOf? with
  | none =>
    have hsame := respond_withCaps hq r r'.caps
    rw [← h.rest] at hsame
    rw [hsame]
    refine ⟨rfl, rfl, fun protocol => ?_⟩
    have hcaps := h.capsOf protocol
    unfold Registry.capsOf at hcaps ⊢
    rw [withCaps_caps, caps_respond hq, hcaps]
  | some protocol =>
    cases q with
    | command caller c => exact h.call hq caller
    | register | record | select | restore => cases hq

/-- **Every list of requests gets the same answers from both**, by induction on the requests. -/
theorem serve (h : r.Interchangeable r') (qs : List Request) :
    (r'.serve qs).1 = (r.serve qs).1 ∧ (r.serve qs).2.Interchangeable (r'.serve qs).2 := by
  induction qs generalizing r r' with
  | nil => exact ⟨rfl, h⟩
  | cons q rest ih =>
    obtain ⟨hanswer, hleft⟩ := h.respond q
    obtain ⟨hanswers, hlast⟩ := ih hleft
    rw [serve_cons, serve_cons, hanswer, hanswers]
    exact ⟨rfl, hlast⟩

/-- A binding depends on the caps that its protocol has, set or not. -/
theorem binding? (h : r.Interchangeable r') (pool : Address) :
    r'.binding? pool = r.binding? pool := by
  have hbindings : r'.bindings = r.bindings := by
    rw [h.rest]
    rfl
  have hadapters : r'.adapters = r.adapters := by
    rw [h.rest]
    rfl
  have hcaps : ∀ protocol, (r'.caps.get? protocol).getD default =
      (r.caps.get? protocol).getD default := h.capsOf
  simp only [Registry.binding?, hbindings, hadapters, hcaps]

/-- **Interchangeable registries look alike.** -/
theorem looksAlike (h : r.Interchangeable r') : r.LooksAlike r' := by
  have happroved : ∀ pool, r'.isApproved pool = r.isApproved pool := by
    rw [h.rest]
    exact fun _ => rfl
  have hroute : ∀ d s, r'.route d s = r.route d s := by
    intro d s
    exact legs_congr h.binding? fun _ step _ => happroved step.pool
  refine ⟨h.hasRole, ?_, ?_, h.binding?, ?_, ?_, ?_, ?_, ?_, ?_, hroute⟩
  all_goals rw [h.rest]
  · exact fun _ => rfl
  · rfl
  · exact fun _ => rfl
  · rfl
  · exact fun _ => rfl
  · exact fun _ _ => rfl
  · exact fun _ _ => rfl
  · rfl

end Interchangeable

/-! ## Refusals -/

/-- **A refused request leaves an interchangeable registry behind.** -/
theorem interchangeable_of_refused {e : AllocationError} (h : (r.respond q).1 = .error e) :
    r.Interchangeable (r.respond q).2 := by
  cases q with
  | command caller c =>
    rw [respond] at h ⊢
    rcases call_cases r caller c with ⟨-, hcall⟩ | ⟨r', -, -, hcall⟩ | ⟨e', -, -, hcall⟩
    · rw [hcall]
      exact .refl r
    · rw [hcall] at h
      cases h
    · rw [hcall]
      exact .prepare r c
  | select profile asset =>
    simp only [respond] at h ⊢
    cases hbest : r.bestStrategy profile asset with
    | ok x =>
      rw [hbest] at h
      cases h
    | error e' => exact .refl r
  | register s => cases h
  | record profile tokens hash => cases h
  | restore saved => cases h

end Registry

/-- **Refusals leave no trace.** A registry that refuses a request, of whatever kind and by whomever,
answers every question afterwards as it did before, and gives the same answers to all that is asked
of it later as if the refused request had never been made. -/
theorem refusals_leave_no_trace (r : Registry) (q : Request) (e : AllocationError)
    (h : (r.respond q).1 = .error e) :
    r.LooksAlike (r.respond q).2 ∧
      ∀ later, ((r.respond q).2.serve later).1 = (r.serve later).1 ∧
        (r.serve later).2.LooksAlike ((r.respond q).2.serve later).2 := by
  have hleft : r.Interchangeable (r.respond q).2 := Registry.interchangeable_of_refused h
  refine ⟨hleft.looksAlike, fun later => ?_⟩
  obtain ⟨hanswers, hlast⟩ := hleft.serve later
  exact ⟨hanswers, hlast.looksAlike⟩

namespace Founding

/-- The registry after the preparation, whose vault has no caps yet. -/
def prepared : Registry := (Registry.new admin).run preparation

/-- A share that is refused leaves an entry behind that was not there before, and nobody can tell. -/
theorem excess_leaves_no_trace :
    (prepared.caps.contains "vault" = false ∧
        (prepared.respond excess).2.caps.contains "vault" = true) ∧
      prepared.LooksAlike (prepared.respond excess).2 ∧
      ∀ later, ((prepared.respond excess).2.serve later).1 = (prepared.serve later).1 := by
  have hrefused : (prepared.respond excess).1 = .error (.invalidPercentage 10001) := rfl
  obtain ⟨halike, hlater⟩ := refusals_leave_no_trace prepared excess _ hrefused
  exact ⟨⟨rfl, rfl⟩, halike, fun later => (hlater later).1⟩

end Founding

end VaultKeeper
