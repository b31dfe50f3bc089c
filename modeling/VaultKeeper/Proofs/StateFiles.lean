import Mathlib.Data.List.Induction
import VaultKeeper.Proofs.SavedText

/-! # The state file is complete

A save empties the temporary file, writes it byte by byte and renames it. Whatever a crash leaves of
the temporary file, the file of the state is the one that was renamed last, and is read back as the
state that was saved there. -/

namespace VaultKeeper.StateFile

/-! ## A save, step by step -/

/-- One operation on the files. -/
inductive Op
  /-- The temporary file is made, or emptied if there is one. -/
  | truncate
  /-- A byte is written to the temporary file. -/
  | append (x : UInt8)
  /-- The temporary file becomes the file of the state. -/
  | rename

/-- What an operation does. -/
def perform (f : StateFile) : Op → StateFile
  | .truncate => f.writeTemporary []
  | .append x => f.writeTemporary (f.temporary.getD [] ++ [x])
  | .rename => f.rename

/-- The operations of a save. -/
def saving (s : SavedState) : List Op := .truncate :: (s.bytes.map .append ++ [.rename])

/-- A save that is left off after a number of operations. -/
def saveUpTo (f : StateFile) (s : SavedState) (n : Nat) : StateFile :=
  ((saving s).take n).foldl perform f

/-- The temporary file, whatever it held, is replaced. -/
def leaving (f : StateFile) (left : Option Bytes) : StateFile := { f with temporary := left }

variable {f : StateFile} {s : SavedState} {n : Nat}

theorem length_saving (s : SavedState) : (saving s).length = s.bytes.length + 2 := by
  simp [saving]

/-- Bytes are written one after the other. -/
theorem foldl_append (f : StateFile) (written b : Bytes) :
    (b.map .append).foldl perform (f.writeTemporary written) = f.writeTemporary (written ++ b) := by
  induction b generalizing written with
  | nil => rw [List.append_nil]; rfl
  | cons x b ih =>
    have hstep : perform (f.writeTemporary written) (.append x) =
        f.writeTemporary (written ++ [x]) := rfl
    rw [List.map_cons, List.foldl_cons, hstep, ih, List.append_assoc, List.singleton_append]

/-- **All operations of a save** are the save. -/
theorem saveUpTo_of_le (h : (saving s).length ≤ n) : f.saveUpTo s n = f.save s := by
  have hstep : perform f .truncate = f.writeTemporary [] := rfl
  rw [saveUpTo, List.take_of_length_le h, saving, List.foldl_cons, hstep, List.foldl_append,
    foldl_append, List.nil_append, List.foldl_cons, List.foldl_nil, perform, save]

/-- Nothing but a rename changes the file of the state. -/
theorem current_foldl {ops : List Op} (h : .rename ∉ ops) :
    (ops.foldl perform f).current = f.current := by
  induction ops generalizing f with
  | nil => rfl
  | cons op ops ih =>
    rw [List.mem_cons, not_or] at h
    rw [List.foldl_cons, ih h.2]
    cases op with
    | truncate | append x => rfl
    | rename => exact absurd rfl h.1

/-- **A save that is left off** leaves the file of the state as it is. -/
theorem current_saveUpTo (h : n < (saving s).length) :
    (f.saveUpTo s n).current = f.current := by
  refine current_foldl fun hmem => ?_
  have hshort : (saving s).take n = (.truncate :: s.bytes.map .append : List Op).take n := by
    rw [length_saving] at h
    have hsplit : saving s = (.truncate :: s.bytes.map .append) ++ [.rename] := rfl
    rw [hsplit, List.take_append_of_le_length]
    rw [List.length_cons, List.length_map]
    omega
  rw [hshort] at hmem
  simpa using List.mem_of_mem_take hmem

/-- The file of the state alone is loaded. -/
theorem load_congr {f g : StateFile} (h : f.current = g.current) : f.load = g.load := by
  rw [load, load, h]

/-- A state is loaded from the file that holds its bytes. -/
theorem load_of_current (h : f.current = some s.bytes) (hs : s.Current) :
    f.load = .ok (some s) := by
  rw [load, h]
  exact congrArg (Except.map some) hs.parse_bytes

/-- **A state that was saved is loaded.** -/
theorem load_save (f : StateFile) (h : s.Current) : (f.save s).load = .ok (some s) :=
  load_of_current rfl h

/-- What is left of a temporary file has no part in a save once that has begun. -/
theorem saveUpTo_leaving (f : StateFile) (left : Option Bytes) (s : SavedState) (hn : 0 < n) :
    (f.leaving left).saveUpTo s n = f.saveUpTo s n := by
  obtain ⟨m, rfl⟩ := Nat.exists_eq_add_of_lt hn
  rw [Nat.zero_add]
  rfl

/-! ## Saves, crashes and restarts -/

/-- What happens to the files. -/
inductive Event
  /-- A state is saved, as far as a number of operations. -/
  | save (s : SavedState) (n : Nat)
  /-- The program is started again. What was written to the temporary file may be there in part, or
  may be torn in any way. -/
  | restart (left : Option Bytes)

namespace Event

/-- What an event does. -/
def apply (f : StateFile) : Event → StateFile
  | save s n => f.saveUpTo s n
  | restart left => f.leaving left

/-- The state whose file was renamed. -/
def renamed? : Event → Option SavedState
  | save s n => if (saving s).length ≤ n then some s else none
  | restart _ => none

/-- States of the current version are saved. -/
def Allowed : Event → Prop
  | save s _ => s.Current
  | restart _ => True

/-- **An event** leaves the state that is loaded as it is, unless a file is renamed. -/
theorem load_apply {e : Event} (he : e.Allowed) {last : Option SavedState}
    (h : f.load = .ok last) : (e.apply f).load = .ok (e.renamed?.or last) := by
  cases e with
  | save s n =>
    by_cases hn : (saving s).length ≤ n
    · rw [apply, saveUpTo_of_le hn, load_save f he, renamed?, if_pos hn]
      rfl
    · rw [apply, load_congr (current_saveUpTo (Nat.lt_of_not_le hn)), h, renamed?, if_neg hn]
      rfl
  | restart left => exact h

end Event

/-- The files after some events. -/
def after (f : StateFile) (events : List Event) : StateFile := events.foldl Event.apply f

/-- The state whose file was renamed last. -/
def lastRenamed? (events : List Event) : Option SavedState :=
  (events.filterMap Event.renamed?).getLast?

/-- **The state that is loaded** is the one whose file was renamed last. -/
theorem load_after (hf : f.current = none) {events : List Event}
    (he : ∀ e ∈ events, e.Allowed) : (f.after events).load = .ok (lastRenamed? events) := by
  induction events using List.reverseRecOn with
  | nil =>
    change f.load = .ok none
    rw [load, hf]
  | append_singleton events e ih =>
    rw [List.forall_mem_append, List.forall_mem_singleton] at he
    have hstep : f.after (events ++ [e]) = e.apply (f.after events) := List.foldl_append
    rw [hstep, e.load_apply he.2 (ih he.1), lastRenamed?, lastRenamed?, List.filterMap_append,
      List.getLast?_append]
    cases hrenamed : e.renamed? <;> simp [hrenamed]

/-- **The state file is always a complete version.** States are saved one after the other, and any
save may be left off between two operations on the files; in between the program is started again,
and finds any temporary file. Then a state is loaded each time without a failure: the one whose file
was renamed last, or none when there was no such save. A temporary file that was left has no part in
what is loaded, nor in the saves that follow. And a state that was saved is loaded as it was. -/
theorem state_file_is_complete (f : StateFile) (hf : f.current = none) (events : List Event)
    (he : ∀ e ∈ events, e.Allowed) :
    (f.after events).load = .ok (lastRenamed? events) ∧
    (∀ (g : StateFile) (left : Option Bytes), (g.leaving left).load = g.load ∧
      ∀ s n, 0 < n → (g.leaving left).saveUpTo s n = g.saveUpTo s n) ∧
    (∀ (g : StateFile) (s : SavedState) (n : Nat),
      (n < (saving s).length → (g.saveUpTo s n).load = g.load) ∧
      ((saving s).length ≤ n → g.saveUpTo s n = g.save s)) ∧
    ∀ (g : StateFile) (s : SavedState), s.Current → (g.save s).load = .ok (some s) :=
  ⟨load_after hf he, fun g left => ⟨rfl, fun s _ => saveUpTo_leaving g left s⟩,
    fun _ _ _ => ⟨fun h => load_congr (current_saveUpTo h), saveUpTo_of_le⟩,
    fun g _ => load_save g⟩

end VaultKeeper.StateFile

namespace VaultKeeper.Leveraged

open StateFile

/-- A state with the strategy, its uses, and a vault that runs it. -/
def saved : SavedState where
  version := 1
  savedAt := ⟨1709294400, 5000⟩
  registry := ⟨[strategy], [(("careful", .ofNat 7), strategy.hash)],
    [(("bold", .ofNat 7), .ratingBased true strategy.hash), (("bold", .ofNat 8), .unset)]⟩
  vaults := [⟨"a", some strategy.hash, some (.ofNat 5)⟩, ⟨"b", none, none⟩]

/-- A later one, in which no vault is left. -/
def emptied : SavedState := { saved with vaults := [] }

/-- The first one is saved, and a crash comes just before the second one takes its place. -/
def crash : List Event :=
  [.save saved (saving saved).length, .save emptied (emptied.bytes.length + 1),
    .restart (some [0x7B])]

/-- The state that was saved before the crash is loaded. -/
theorem load_after_crash : ({} : StateFile).current = none ∧ (∀ e ∈ crash, e.Allowed) ∧
    (({} : StateFile).after crash).load = .ok (some saved) := by
  have hproper : saved.savedAt.Proper := ⟨by decide, by decide, by decide⟩
  have hallowed : ∀ e ∈ crash, e.Allowed := by
    simp only [crash, List.forall_mem_cons]
    exact ⟨⟨rfl, hproper⟩, ⟨rfl, hproper⟩, trivial, nofun⟩
  have hlast : lastRenamed? crash = some saved := by
    simp [lastRenamed?, crash, Event.renamed?, length_saving, List.filterMap_cons]
  obtain ⟨hload, -⟩ := state_file_is_complete {} rfl crash hallowed
  exact ⟨rfl, hallowed, hload.trans (congrArg Except.ok hlast)⟩

end VaultKeeper.Leveraged
