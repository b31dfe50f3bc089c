/-! # Outcomes

What the outcome of a computation that may be refused says about its parts. A sequence succeeds
exactly when every part does, so the successful run of a checked operation yields, one by one, the
intermediate results it went through. -/

universe u v

namespace Except

variable {ε : Type u} {α β : Type v}

/-- A computation that has a result. -/
def Succeeds (x : Except ε α) : Prop := ∃ a, x = .ok a

/-- The error that a computation ends with, if it does. -/
def fault? : Except ε α → Option ε
  | .ok _ => none
  | .error e => some e

@[simp] theorem fault?_ok (a : α) : (Except.ok a : Except ε α).fault? = none := rfl

@[simp] theorem fault?_error (e : ε) : (Except.error e : Except ε α).fault? = some e := rfl

@[simp] theorem succeeds_ok (a : α) : (Except.ok a : Except ε α).Succeeds := ⟨a, rfl⟩

@[simp] theorem succeeds_pure (a : α) : (pure a : Except ε α).Succeeds := ⟨a, rfl⟩

/-- A sequence succeeds when its first part does and the rest succeeds on every result. -/
theorem Succeeds.bind {x : Except ε α} {f : α → Except ε β} (hx : x.Succeeds)
    (hf : ∀ a, x = .ok a → (f a).Succeeds) : (x >>= f).Succeeds := by
  obtain ⟨a, ha⟩ := hx
  rw [ha]
  exact hf a ha

/-- A computation without a fault is one that succeeds. -/
theorem fault?_eq_none_iff {x : Except ε α} : x.fault? = none ↔ x.Succeeds := by
  cases x with
  | ok a => simp
  | error e => simp [Succeeds]

/-- Computations with the same fault succeed together. -/
theorem succeeds_congr {x : Except ε α} {y : Except ε β} (h : x.fault? = y.fault?) :
    x.Succeeds ↔ y.Succeeds := by
  rw [← fault?_eq_none_iff, ← fault?_eq_none_iff, h]

/-- A sequence whose later parts cannot fail has the fault of its first part. -/
theorem fault?_bind_of_succeeds {x : Except ε α} {f : α → Except ε β}
    (h : ∀ a, x = .ok a → (f a).Succeeds) : (x >>= f).fault? = x.fault? := by
  cases hx : x with
  | ok a => exact fault?_eq_none_iff.2 (h a hx)
  | error e => rfl

/-- The fault of a sequence depends on the later parts by their faults. -/
theorem fault?_bind_congr {γ : Type v} {x : Except ε α} {f : α → Except ε β} {g : α → Except ε γ}
    (h : ∀ a, x = .ok a → (f a).fault? = (g a).fault?) : (x >>= f).fault? = (x >>= g).fault? := by
  cases hx : x with
  | ok a => exact h a hx
  | error e => rfl

end Except

namespace VaultKeeper

variable {ε : Type u} {α β : Type v}

/-- A sequence succeeds exactly when its first part does and the rest succeeds on the result. -/
@[simp] theorem bind_eq_ok {x : Except ε α} {f : α → Except ε β} {b : β} :
    (x >>= f) = .ok b ↔ ∃ a, x = .ok a ∧ f a = .ok b := by
  cases x with
  | ok a => simp [bind, Except.bind]
  | error e => simp [bind, Except.bind]

/-- A value in front of a sequence is passed on. -/
@[simp] theorem ok_bind (a : α) (f : α → Except ε β) : (Except.ok a >>= f) = f a := rfl

/-- A refusal in front of a sequence refuses the sequence. -/
@[simp] theorem error_bind (e : ε) (f : α → Except ε β) : (Except.error e >>= f) = .error e := rfl

/-- A returned value is a success. -/
@[simp] theorem pure_eq_ok (a : α) : (pure a : Except ε α) = .ok a := rfl

/-- A thrown error is a refusal. -/
@[simp] theorem throw_eq_error (e : ε) : (throw e : Except ε α) = .error e := rfl

/-- A computation behind a check succeeds exactly when the check holds and the computation does. -/
@[simp] theorem ite_error_eq_ok {p : Prop} [Decidable p] {x : Except ε α} {e : ε} {a : α} :
    (if p then x else .error e) = .ok a ↔ p ∧ x = .ok a := by
  by_cases h : p
  · simp [h]
  · simp [h]

/-- A computation behind a barrier succeeds exactly when the barrier is open and the computation
does. -/
@[simp] theorem ite_error_eq_ok' {p : Prop} [Decidable p] {x : Except ε α} {e : ε} {a : α} :
    (if p then .error e else x) = .ok a ↔ ¬p ∧ x = .ok a := by
  by_cases h : p
  · simp [h]
  · simp [h]

/-- Another error does not change what succeeds. -/
@[simp] theorem mapError_eq_ok {δ : Type u} {x : Except ε α} {f : ε → δ} {a : α} :
    x.mapError f = .ok a ↔ x = .ok a := by
  cases x with
  | ok b =>
    show (Except.ok b : Except δ α) = .ok a ↔ _
    simp
  | error e =>
    show (Except.error (f e) : Except δ α) = .ok a ↔ _
    simp

/-- What the step of every item keeps is kept by a fold that succeeds. -/
theorem foldlM_induction_mem {P : β → Prop} {f : β → α → Except ε β} {xs : List α} {b b' : β}
    (hf : ∀ {b a b'}, a ∈ xs → P b → f b a = .ok b' → P b') (hb : P b)
    (h : xs.foldlM f b = .ok b') : P b' := by
  induction xs generalizing b with
  | nil =>
    cases h
    exact hb
  | cons x rest ih =>
    rw [List.foldlM_cons, bind_eq_ok] at h
    obtain ⟨mid, hmid, h⟩ := h
    exact ih (fun ha => hf (List.mem_cons_of_mem _ ha)) (hf List.mem_cons_self hb hmid) h

/-- What every step of a fold keeps is kept by a fold that succeeds. -/
theorem foldlM_induction {P : β → Prop} {f : β → α → Except ε β}
    (hf : ∀ {b a b'}, P b → f b a = .ok b' → P b') {xs : List α} {b b' : β} (hb : P b)
    (h : xs.foldlM f b = .ok b') : P b' :=
  foldlM_induction_mem (fun _ => hf) hb h

/-- What is computed for a list was computed for one of its items. -/
theorem mem_of_mapM_eq_ok {f : α → Except ε β} {xs : List α} {ys : List β} {y : β}
    (h : xs.mapM f = .ok ys) (hy : y ∈ ys) : ∃ x ∈ xs, f x = .ok y := by
  induction xs generalizing ys with
  | nil =>
    cases h
    cases hy
  | cons x rest ih =>
    rw [List.mapM_cons, bind_eq_ok] at h
    obtain ⟨z, hz, h⟩ := h
    obtain ⟨zs, hzs, h⟩ := bind_eq_ok.1 h
    cases h
    rcases List.mem_cons.1 hy with rfl | hy
    · exact ⟨x, List.mem_cons_self, hz⟩
    · obtain ⟨w, hw, hfw⟩ := ih hzs hy
      exact ⟨w, List.mem_cons_of_mem _ hw, hfw⟩

/-- Something was computed for each item of a list. -/
theorem exists_of_mapM_eq_ok {f : α → Except ε β} {xs : List α} {ys : List β}
    (h : xs.mapM f = .ok ys) : ∀ x ∈ xs, ∃ y, f x = .ok y := by
  induction xs generalizing ys with
  | nil => exact fun _ hx => nomatch hx
  | cons x rest ih =>
    rw [List.mapM_cons, bind_eq_ok] at h
    obtain ⟨y, hy, h⟩ := h
    obtain ⟨zs, hzs, -⟩ := bind_eq_ok.1 h
    exact List.forall_mem_cons.2 ⟨⟨y, hy⟩, ih hzs⟩

/-- A computation that is known to succeed has a result. -/
theorem exists_eq_ok {x : Except ε α} (h : x.isOk = true) : ∃ a, x = .ok a := by
  cases x with
  | ok a => exact ⟨a, rfl⟩
  | error e => cases h

end VaultKeeper
