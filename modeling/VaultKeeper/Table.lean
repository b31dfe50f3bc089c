/-! # Ordered tables

Finite maps kept as lists of entries in strictly increasing key order. Because the order is part of
the type, two tables that answer every look-up alike are equal (`Table.ext_get?`), and listing a
table is listing its entries by key.
-/

namespace VaultKeeper

universe u v

/-- Pairs are compared by their first components, then by their second ones. -/
scoped instance instOrdProd {α : Type u} {β : Type v} [Ord α] [Ord β] : Ord (α × β) := lexOrd

/-- A finite map, as its entries in strictly increasing key order. -/
structure Table (κ : Type u) (ν : Type v) [Ord κ] where
  /-- The entries, by increasing key. -/
  toList : List (κ × ν)
  /-- Keys strictly increase. -/
  increasing : toList.Pairwise fun a b => compare a.1 b.1 = .lt

namespace Table

variable {κ : Type u} {ν : Type v} [Ord κ]

/-- The table without entries. -/
def empty : Table κ ν := ⟨[], .nil⟩

instance : EmptyCollection (Table κ ν) := ⟨empty⟩

instance : Inhabited (Table κ ν) := ⟨empty⟩

/-- The value stored at a key in a list of entries. -/
def find? (k : κ) : List (κ × ν) → Option ν
  | [] => none
  | e :: r => if compare k e.1 = .eq then some e.2 else find? k r

/-- Put an entry where the key order wants it, replacing the value of an equal key. -/
def place (k : κ) (v : ν) : List (κ × ν) → List (κ × ν)
  | [] => [(k, v)]
  | e :: r => match compare k e.1 with
    | .lt => (k, v) :: e :: r
    | .eq => (k, v) :: r
    | .gt => e :: place k v r

/-- The value stored at `k`. -/
def get? (t : Table κ ν) (k : κ) : Option ν := find? k t.toList

/-- Whether `k` has a value. -/
def contains (t : Table κ ν) (k : κ) : Bool := (t.get? k).isSome

/-- The keys, in increasing order. -/
def keys (t : Table κ ν) : List κ := t.toList.map (·.1)

/-- The values, by increasing key. -/
def values (t : Table κ ν) : List ν := t.toList.map (·.2)

/-- How many entries there are. -/
def size (t : Table κ ν) : Nat := t.toList.length

/-- Drop the entry of `k`. -/
def erase (t : Table κ ν) (k : κ) : Table κ ν :=
  ⟨t.toList.filter fun e => compare k e.1 != .eq, t.increasing.filter _⟩

theorem mem_place {k : κ} {v : ν} {e : κ × ν} {l : List (κ × ν)} (h : e ∈ place k v l) :
    e = (k, v) ∨ e ∈ l := by
  induction l with
  | nil => simpa [place] using h
  | cons a r ih =>
    unfold place at h
    split at h
    · simpa using h
    · rcases List.mem_cons.1 h with h | h <;> simp [h]
    · rcases List.mem_cons.1 h with h | h
      · simp [h]
      · rcases ih h with h | h <;> simp [h]

section Order

variable [Std.TransOrd κ]

theorem increasing_place (k : κ) (v : ν) {l : List (κ × ν)}
    (h : l.Pairwise fun a b => compare a.1 b.1 = .lt) :
    (place k v l).Pairwise fun a b => compare a.1 b.1 = .lt := by
  induction l with
  | nil => simp [place]
  | cons a r ih =>
    obtain ⟨hhead, htail⟩ := List.pairwise_cons.1 h
    unfold place
    split
    · rename_i hlt
      refine List.pairwise_cons.2 ⟨fun e he => ?_, h⟩
      rcases List.mem_cons.1 he with rfl | he
      · exact hlt
      · exact Std.TransCmp.lt_trans hlt (hhead e he)
    · rename_i heq
      exact List.pairwise_cons.2
        ⟨fun e he => Std.TransCmp.lt_of_eq_of_lt heq (hhead e he), htail⟩
    · rename_i hgt
      refine List.pairwise_cons.2 ⟨fun e he => ?_, ih htail⟩
      rcases mem_place he with rfl | he
      · exact Std.OrientedCmp.gt_iff_lt.1 hgt
      · exact hhead e he

/-- Store `v` at `k`, replacing what was there. -/
def insert (t : Table κ ν) (k : κ) (v : ν) : Table κ ν :=
  ⟨place k v t.toList, increasing_place k v t.increasing⟩

/-- The table of a list of entries; of two entries with one key the later wins. -/
def ofList (l : List (κ × ν)) : Table κ ν := l.foldl (fun t e => t.insert e.1 e.2) ∅

end Order

/-! ## Look-up lemmas -/

@[simp] theorem get?_empty (k : κ) : (∅ : Table κ ν).get? k = none := rfl

@[simp] theorem toList_empty : (∅ : Table κ ν).toList = [] := rfl

section Lookup

variable [Std.LawfulEqOrd κ]

theorem find?_eq_some_of_mem {k : κ} {v : ν} {l : List (κ × ν)}
    (h : l.Pairwise fun a b => compare a.1 b.1 = .lt) (hm : (k, v) ∈ l) : find? k l = some v := by
  induction l with
  | nil => cases hm
  | cons a r ih =>
    obtain ⟨hhead, htail⟩ := List.pairwise_cons.1 h
    rcases List.mem_cons.1 hm with rfl | hm
    · simp [find?]
    · have hne : compare k a.1 ≠ .eq := by
        rw [Ne, Std.compare_eq_iff_eq]
        rintro rfl
        have := hhead _ hm
        simp at this
      rw [find?, if_neg hne, ih htail hm]

theorem mem_of_find?_eq_some {k : κ} {v : ν} {l : List (κ × ν)} (h : find? k l = some v) :
    (k, v) ∈ l := by
  induction l with
  | nil => cases h
  | cons a r ih =>
    unfold find? at h
    split at h
    · rename_i heq
      cases Std.compare_eq_iff_eq.1 heq
      cases h
      exact List.mem_cons_self
    · exact List.mem_cons_of_mem _ (ih h)

/-- The entries are exactly the pairs that look-up finds. -/
theorem mem_toList_iff {t : Table κ ν} {k : κ} {v : ν} :
    (k, v) ∈ t.toList ↔ t.get? k = some v :=
  ⟨find?_eq_some_of_mem t.increasing, mem_of_find?_eq_some⟩

variable [DecidableEq κ]

theorem find?_place (k k' : κ) (v : ν) (l : List (κ × ν)) :
    find? k' (place k v l) = if k' = k then some v else find? k' l := by
  induction l with
  | nil => simp [place, find?]
  | cons a r ih =>
    unfold place
    split
    · simp [find?]
    · rename_i heq
      cases Std.compare_eq_iff_eq.1 heq
      by_cases h : k' = a.1 <;> simp [find?, h]
    · rename_i hgt
      have hne : k ≠ a.1 := by
        rintro rfl
        simp at hgt
      by_cases h : k' = a.1
      · subst h
        simp [find?, Ne.symm hne]
      · simp [find?, h, ih]

/-- What a table holds after an erasure. -/
theorem get?_erase (t : Table κ ν) (k k' : κ) :
    (t.erase k).get? k' = if k' = k then none else t.get? k' := by
  suffices ∀ l : List (κ × ν), find? k' (l.filter fun e => compare k e.1 != .eq) =
      if k' = k then none else find? k' l from this t.toList
  intro l
  induction l with
  | nil => simp [find?]
  | cons a r ih =>
    by_cases ha : k = a.1
    · subst ha
      by_cases h : k' = a.1
      · subst h
        simpa using ih
      · simp [find?, ih, h]
    · by_cases h : k' = k
      · subst h
        simp [find?, ih, ha]
      · simp [ha, find?, ih, h]

variable [Std.TransOrd κ]

/-- What a table holds after an insertion. -/
theorem get?_insert (t : Table κ ν) (k k' : κ) (v : ν) :
    (t.insert k v).get? k' = if k' = k then some v else t.get? k' :=
  find?_place k k' v t.toList

@[simp] theorem get?_insert_self (t : Table κ ν) (k : κ) (v : ν) :
    (t.insert k v).get? k = some v := by simp [get?_insert]

theorem get?_insert_of_ne (t : Table κ ν) {k k' : κ} (v : ν) (h : k' ≠ k) :
    (t.insert k v).get? k' = t.get? k' := by simp [get?_insert, h]

end Lookup

/-! ## Extensionality -/

/-- Tables that answer every look-up alike are equal. -/
theorem ext_get? [Std.TransOrd κ] [Std.LawfulEqOrd κ] {s t : Table κ ν}
    (h : ∀ k, s.get? k = t.get? k) : s = t := by
  obtain ⟨l, hl⟩ := s
  obtain ⟨m, hm⟩ := t
  suffices l = m by subst this; rfl
  have hmem : ∀ e, e ∈ l ↔ e ∈ m := by
    intro e
    have hl' := mem_toList_iff (t := (⟨l, hl⟩ : Table κ ν)) (k := e.1) (v := e.2)
    have hm' := mem_toList_iff (t := (⟨m, hm⟩ : Table κ ν)) (k := e.1) (v := e.2)
    rw [h e.1] at hl'
    exact hl'.trans hm'.symm
  clear h
  induction l generalizing m with
  | nil =>
    cases m with
    | nil => rfl
    | cons b _ => exact absurd ((hmem b).2 List.mem_cons_self) List.not_mem_nil
  | cons a r ih =>
    cases m with
    | nil => exact absurd ((hmem a).1 List.mem_cons_self) List.not_mem_nil
    | cons b s =>
      obtain ⟨ha, hr⟩ := List.pairwise_cons.1 hl
      obtain ⟨hb, hs⟩ := List.pairwise_cons.1 hm
      have hab : a = b := by
        rcases List.mem_cons.1 ((hmem a).1 List.mem_cons_self) with h | h
        · exact h
        · rcases List.mem_cons.1 ((hmem b).2 List.mem_cons_self) with h' | h'
          · exact h'.symm
          · have := Std.TransCmp.lt_trans (hb a h) (ha b h')
            simp at this
      subst hab
      congr 1
      refine ih hr s hs fun e => ?_
      have hne : ∀ {q : List (κ × ν)}, (∀ x ∈ q, compare a.1 x.1 = .lt) → e ∈ q → e ≠ a := by
        rintro q hq he rfl
        have := hq e he
        simp at this
      constructor
      · intro he
        exact (List.mem_cons.1 ((hmem e).1 (List.mem_cons_of_mem _ he))).resolve_left (hne ha he)
      · intro he
        exact (List.mem_cons.1 ((hmem e).2 (List.mem_cons_of_mem _ he))).resolve_left (hne hb he)

/-! ## Two insertions -/

section Insertions

variable [Std.TransOrd κ] [Std.LawfulEqOrd κ] [DecidableEq κ]

/-- The later of two values that are stored at a key stays. -/
theorem insert_insert (t : Table κ ν) (k : κ) (v w : ν) :
    (t.insert k v).insert k w = t.insert k w := by
  refine ext_get? fun k' => ?_
  by_cases hk : k' = k
  · subst hk
    rw [get?_insert_self, get?_insert_self]
  · rw [get?_insert_of_ne _ _ hk, get?_insert_of_ne _ _ hk, get?_insert_of_ne _ _ hk]

/-- Values for different keys are stored in either order. -/
theorem insert_comm (t : Table κ ν) {k k' : κ} (v w : ν) (h : k ≠ k') :
    (t.insert k v).insert k' w = (t.insert k' w).insert k v := by
  refine ext_get? fun i => ?_
  by_cases hk : i = k
  · subst hk
    rw [get?_insert_of_ne _ _ h, get?_insert_self, get?_insert_self]
  · by_cases hk' : i = k'
    · subst hk'
      rw [get?_insert_self, get?_insert_of_ne _ _ hk, get?_insert_self]
    · rw [get?_insert_of_ne _ _ hk', get?_insert_of_ne _ _ hk, get?_insert_of_ne _ _ hk,
        get?_insert_of_ne _ _ hk']

end Insertions

end Table

end VaultKeeper
