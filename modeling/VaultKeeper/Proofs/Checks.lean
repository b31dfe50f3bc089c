import VaultKeeper.Proofs.Resolution
import VaultKeeper.Proofs.Wiring

/-! # The checks of resolution

Resolution goes through a list of checks, which is written down here without the computations
around it: step by step, the pool is bound, approved when funds go in, and accepts the asset that
reaches it, and then either the adapter lends what the step borrows, or the output is the receipt
token. In a wired registry a strategy is refused with the error of the first check that does not
hold, and resolves if there is none. -/

namespace VaultKeeper

/-! ## Lists of checks -/

/-- A check: whether it holds, and what a strategy is refused with when it does not. -/
structure Check where
  /-- Whether the check holds. -/
  holds : Bool
  /-- The error otherwise. -/
  error : AllocationError
deriving DecidableEq

/-- The error of the first check that does not hold. -/
def firstError (checks : List Check) : Option AllocationError :=
  (checks.find? (!·.holds)).map (·.error)

@[simp] theorem firstError_nil : firstError [] = none := rfl

/-- A check that holds is passed over. -/
theorem firstError_cons_of_holds {x : Check} {xs : List Check} (h : x.holds = true) :
    firstError (x :: xs) = firstError xs := by
  rw [firstError, List.find?_cons_of_neg (by simp [h]), firstError]

/-- A check that does not hold decides. -/
theorem firstError_cons_of_fails {x : Check} {xs : List Check} (h : x.holds = false) :
    firstError (x :: xs) = some x.error := by
  rw [firstError, List.find?_cons_of_pos (by simp [h]), Option.map_some]

/-- The checks of a second list matter when all checks of the first one hold. -/
theorem firstError_append (xs ys : List Check) :
    firstError (xs ++ ys) = (firstError xs).or (firstError ys) := by
  simp only [firstError, List.find?_append, Option.map_or]

/-- There is no error exactly when every check holds. -/
theorem firstError_eq_none_iff {xs : List Check} :
    firstError xs = none ↔ ∀ x ∈ xs, x.holds = true := by
  simp [firstError]

/-! ## Receipts of accepted assets -/

namespace Protocol

variable {p : Protocol} {asset pool : Address} {assets : List Address}

/-- Every accepted asset has a receipt token. -/
theorem succeeds_receipt (h : p.acceptedAssets pool = .ok assets) (hin : asset ∈ assets) :
    (p.receipt asset pool).Succeeds := by
  cases p with
  | vault p =>
    obtain ⟨found, hfound, h⟩ := bind_eq_ok.1 h
    cases h
    rw [List.mem_singleton] at hin
    exact ⟨pool, by simp [receipt, VaultProtocol.receipt, hfound, hin]⟩
  | lending p =>
    obtain ⟨m, hm, h⟩ := bind_eq_ok.1 h
    cases h
    -- The accepted assets of a market are the keys of its reserves.
    obtain ⟨e, he, rfl⟩ := List.mem_map.1 hin
    have hreserve : m.reserves.get? e.1 = some e.2 := Table.mem_toList_iff.1 he
    exact ⟨e.2, by simp [receipt, LendingProtocol.receipt, hm, hreserve]⟩
  | curve p =>
    obtain ⟨c, hc, h⟩ := bind_eq_ok.1 h
    cases h
    cases hindex : c.coins.idxOf? asset with
    | none => exact absurd hin (List.idxOf?_eq_none_iff.1 hindex)
    | some i =>
      exact ⟨c.receipt, by simp [receipt, CurveProtocol.receipt, CurveProtocol.coinIndex, hc,
        hindex]⟩

/-- Acceptance is membership in the accepted assets. -/
theorem accepts_eq (h : p.acceptedAssets pool = .ok assets) :
    p.accepts asset pool = assets.contains asset := by
  simp only [accepts, h]

end Protocol

namespace Adapter

variable {a : Adapter} {pool : Address} {assets : List Address}

/-- Whether an adapter lends an asset against deposits into a pool. -/
def lends (a : Adapter) (asset pool : Address) : Bool :=
  match a.lender >>= (·.borrowable pool) with
  | .ok assets => assets.contains asset
  | .error _ => false

/-- A regular adapter that can lend knows what it lends in the pools that it is configured for. -/
theorem Regular.succeeds_borrowable {p : LendingProtocol} (h : a.Regular) (hp : a.lender = .ok p)
    (hassets : a.base.acceptedAssets pool = .ok assets) : (p.borrowable pool).Succeeds := by
  rw [base_of_lender h.whole hp] at hassets
  obtain ⟨m, hm, -⟩ := bind_eq_ok.1 hassets
  exact ⟨m.borrowable, by simp [LendingProtocol.borrowable, hm]⟩

/-- Without a lender the capability is missing. -/
theorem fault?_lender (a : Adapter) :
    a.lender.fault? = if a.has .borrow then none else some (.capabilityMissing a.id .borrow) := by
  unfold lender demand has
  cases a.borrowing <;> rfl

end Adapter

namespace Registry

/-! ## The checks of a step -/

/-- What a step yields is checked last. A loan needs the capability and an asset that is lent, and
any other step yields the receipt token of its deposit. -/
def outputChecks (a : Adapter) (index : Nat) (input : Address) (s : Step) : List Check :=
  if s.isBorrow then
    [⟨a.has .borrow, .capabilityMissing a.id .borrow⟩,
      ⟨a.lends s.output s.pool, .unsupportedBorrowAsset s.pool s.output⟩]
  else
    match a.base.receipt input s.pool with
    | .ok receipt => [⟨receipt = s.output, .stepOutputMismatch index receipt s.output⟩]
    | .error _ => []

/-- **The checks of a step, in their order.** -/
def checks (r : Registry) (d : Direction) (index : Nat) (input : Address) (s : Step) :
    List Check :=
  match r.binding? s.pool with
  | none => [⟨false, .unresolvedAdapter s.pool⟩]
  | some b =>
    ⟨d = .exit || r.isApproved s.pool, .unapprovedPool s.pool⟩ ::
      ⟨b.adapter.base.accepts input s.pool, .unsupportedAsset s.pool input⟩ ::
      outputChecks b.adapter index input s

/-- **The checks of a strategy**: those of each step with its input, from the first step on. -/
def strategyChecks (r : Registry) (d : Direction) (s : Strategy) : List Check :=
  s.steps.zipIdx.flatMap fun x => (s.inputOf? x.2).toList.flatMap fun input =>
    r.checks d x.2 input x.1

variable {r : Registry}

/-- A step is refused for its output by the first output check that does not hold. -/
theorem fault?_output {a : Adapter} {assets : List Address} {s : Step} {input : Address}
    (index : Nat) (l : Leg) (ha : a.Regular)
    (hassets : a.base.acceptedAssets s.pool = .ok assets) (hin : input ∈ assets) :
    Except.fault? (do
      if s.isBorrow then
        unless s.output ∈ (← (← a.lender).borrowable s.pool) do
          throw (.unsupportedBorrowAsset s.pool s.output)
      else
        let receipt ← a.base.receipt input s.pool
        unless receipt = s.output do throw (.stepOutputMismatch index receipt s.output)
      return l) = firstError (outputChecks a index input s) := by
  unfold outputChecks
  cases hborrow : s.isBorrow with
  | true =>
    have hfault := a.fault?_lender
    cases hlender : a.lender with
    | error e =>
      rw [hlender, Except.fault?_error] at hfault
      cases hhas : a.has .borrow with
      | true => simp [hhas] at hfault
      | false =>
        rw [hhas, if_neg Bool.false_ne_true, Option.some.injEq] at hfault
        simp only [if_true, error_bind, Except.fault?_error, hfault]
        rw [firstError_cons_of_fails rfl]
    | ok p =>
      rw [hlender, Except.fault?_ok] at hfault
      have hhas : a.has .borrow = true := by
        cases hhas : a.has .borrow with
        | true => rfl
        | false => simp [hhas] at hfault
      obtain ⟨loans, hloans⟩ := ha.succeeds_borrowable hlender hassets
      have hlends : a.lends s.output s.pool = loans.contains s.output := by
        simp only [Adapter.lends, hlender, ok_bind, hloans]
      simp only [if_true, ok_bind, hloans, throw_eq_error, error_bind, pure_eq_ok]
      rw [firstError_cons_of_holds hhas]
      by_cases hout : s.output ∈ loans
      · rw [if_pos hout, firstError_cons_of_holds (by simp [hlends, hout])]
        rfl
      · rw [if_neg hout, firstError_cons_of_fails (by simp [hlends, hout])]
        rfl
  | false =>
    obtain ⟨receipt, hreceipt⟩ := Protocol.succeeds_receipt hassets hin
    simp only [Bool.false_eq_true, if_false, hreceipt, ok_bind, throw_eq_error, error_bind,
      pure_eq_ok]
    by_cases hout : receipt = s.output
    · rw [if_pos hout, firstError_cons_of_holds (by simp [hout])]
      rfl
    · rw [if_neg hout, firstError_cons_of_fails (by simp [hout])]
      rfl

/-- **A step is refused with the error of its first check that does not hold.** -/
theorem fault?_leg (hr : r.Wired) (d : Direction) (index : Nat) (input : Address) (s : Step) :
    (r.leg d index input s).fault? = firstError (r.checks d index input s) := by
  unfold leg checks
  cases hb : r.binding? s.pool with
  | none => rfl
  | some b =>
    obtain ⟨hregular, hserves⟩ := hr.of_binding hb
    -- The adapter is configured for the pool, so asking for the accepted assets cannot fail.
    obtain ⟨assets, hassets⟩ := hserves.configured
    have haccepts : b.adapter.base.accepts input s.pool = assets.contains input :=
      Protocol.accepts_eq hassets
    simp only [hassets, ok_bind, throw_eq_error]
    by_cases hopen : (d = .enter && !r.isApproved s.pool) = true
    · rw [if_pos hopen, firstError_cons_of_fails (by cases d <;> simp_all)]
      rfl
    rw [if_neg hopen, firstError_cons_of_holds (by cases d <;> simp_all)]
    by_cases hin : input ∈ assets
    · rw [if_pos hin, firstError_cons_of_holds (by simp [haccepts, hin])]
      exact fault?_output index ⟨index, input, s, b⟩ hregular hassets hin
    · rw [if_neg hin, firstError_cons_of_fails (by simp [haccepts, hin])]
      rfl

/-! ## The checks of a strategy -/

/-- The checks of steps that start at an index with an input asset. -/
def legsChecks (r : Registry) (d : Direction) :
    (index : Nat) → (input : Address) → List Step → List Check
  | _, _, [] => []
  | index, input, s :: rest =>
    r.checks d index input s ++ legsChecks r d (index + 1) s.output rest

/-- Steps are refused with the error of their first check that does not hold. -/
theorem fault?_legs (hr : r.Wired) (d : Direction) (index : Nat) (input : Address)
    (steps : List Step) :
    (r.legs d index input steps).fault? = firstError (r.legsChecks d index input steps) := by
  induction steps generalizing index input with
  | nil => rfl
  | cons s rest ih =>
    rw [legsChecks, firstError_append, ← fault?_leg hr, ← ih, legs]
    cases r.leg d index input s with
    | error e => rfl
    | ok l =>
      rw [ok_bind, Except.fault?_ok, Option.none_or]
      exact Except.fault?_bind_of_succeeds fun _ _ => ⟨_, rfl⟩

end Registry

namespace Strategy

variable {s : Strategy} {t : Step} {index : Nat}

/-- The output of a step is the input of the next one. -/
theorem inputOf?_succ (ht : s.steps[index]? = some t) (hlt : index + 1 < s.steps.length) :
    s.inputOf? (index + 1) = some t.output := by
  rw [inputOf?, if_pos hlt, ht, Option.map_some]

/-- Behind a step the remaining steps start with the output of that step. -/
theorem tail_of_drop {rest : List Step} (h : s.steps.drop index = t :: rest) :
    s.steps.drop (index + 1) = rest ∧
      (rest ≠ [] → s.inputOf? (index + 1) = some t.output) := by
  have htail : s.steps.drop (index + 1) = rest := by
    rw [← List.tail_drop, h, List.tail_cons]
  have ht : s.steps[index]? = some t := by
    have hhead : (s.steps.drop index)[0]? = some t := by rw [h, List.getElem?_cons_zero]
    rwa [List.getElem?_drop, Nat.add_zero] at hhead
  refine ⟨htail, fun hne => inputOf?_succ ht ?_⟩
  have hlength : 0 < (s.steps.drop (index + 1)).length := by
    rw [htail]
    exact List.length_pos_iff.2 hne
  rw [List.length_drop] at hlength
  omega

end Strategy

namespace Registry

variable {r : Registry} {d : Direction} {s : Strategy} {route : List Leg}

/-- The checks of a strategy are those of its steps, each with the input that reaches it. -/
theorem strategyChecks_eq (r : Registry) (d : Direction) (s : Strategy) :
    r.strategyChecks d s = r.legsChecks d 0 s.underlying s.steps := by
  have hrest : ∀ {rest : List Step} {index : Nat} {input : Address},
      s.steps.drop index = rest → (rest ≠ [] → s.inputOf? index = some input) →
      ((rest.zipIdx index).flatMap fun x => (s.inputOf? x.2).toList.flatMap fun input =>
        r.checks d x.2 input x.1) = r.legsChecks d index input rest := by
    intro rest
    induction rest with
    | nil =>
      intro index input _ _
      rfl
    | cons t rest ih =>
      intro index input hdrop hinput
      obtain ⟨hdrop, hnext⟩ := Strategy.tail_of_drop hdrop
      rw [List.zipIdx_cons, List.flatMap_cons, ih hdrop hnext, hinput (List.cons_ne_nil t rest),
        Option.toList_some, List.flatMap_singleton, legsChecks]
  exact hrest List.drop_zero fun _ => rfl

/-- A resolved leg takes in the asset that reaches its step. -/
theorem input_of_route (h : r.route d s = .ok route) :
    ∀ l ∈ route, s.inputOf? l.index = some l.input := by
  have hrest : ∀ {rest : List Step} {index : Nat} {input : Address} {legs : List Leg},
      s.steps.drop index = rest → (rest ≠ [] → s.inputOf? index = some input) →
      r.legs d index input rest = .ok legs → ∀ l ∈ legs, s.inputOf? l.index = some l.input := by
    intro rest
    induction rest with
    | nil =>
      intro index input legs _ _ h
      cases h
      simp
    | cons t rest ih =>
      intro index input legs hdrop hinput h l hl
      obtain ⟨first, later, hfirst, hlater, rfl⟩ := legs_cons_eq_ok_iff.1 h
      obtain ⟨hdrop, hnext⟩ := Strategy.tail_of_drop hdrop
      rcases List.mem_cons.1 hl with rfl | hl
      · obtain ⟨hindex, hasset, -, -⟩ := resolved_of_leg hfirst
        rw [hindex, hasset]
        exact hinput (List.cons_ne_nil t rest)
      · exact ih hdrop hnext hlater l hl
  exact hrest List.drop_zero (fun _ => rfl) h

/-- **A strategy is refused with the error of its first check that does not hold.** -/
theorem fault?_route (hr : r.Wired) (d : Direction) (s : Strategy) :
    (r.route d s).fault? = firstError (r.strategyChecks d s) := by
  rw [strategyChecks_eq, ← fault?_legs hr, route]

/-- **A strategy resolves exactly when every check holds.** -/
theorem succeeds_route_iff (hr : r.Wired) (d : Direction) (s : Strategy) :
    (r.route d s).Succeeds ↔ ∀ x ∈ r.strategyChecks d s, x.holds = true := by
  rw [← Except.fault?_eq_none_iff, fault?_route hr, firstError_eq_none_iff]

end Registry

end VaultKeeper
