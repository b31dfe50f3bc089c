import Mathlib.Data.List.Permutation
import VaultKeeper.Proofs.CrashRecovery

/-! # What the plan log holds

A plan log is read as the records that were appended to it, sorted by time. Other programs may add
complete lines that are no records to its daily files, and keep other files beside them. Neither
these nor the order in which the files are listed has a part in what is read. -/

namespace VaultKeeper

open Document

/-! ## The order of instants -/

namespace Instant

variable {a b c : Instant}

/-- Instants are ordered by seconds, then by nanoseconds. -/
theorem notAfter_iff : a.notAfter b = true ↔
    a.seconds < b.seconds ∨ a.seconds = b.seconds ∧ a.nanos ≤ b.nanos := by
  have hgt : compare a b = .gt ↔
      b.seconds < a.seconds ∨ a.seconds = b.seconds ∧ b.nanos < a.nanos := by
    change (compare a.seconds b.seconds).then (compare a.nanos b.nanos) = .gt ↔ _
    rw [Ordering.then_eq_gt, compare_gt_iff_gt, compare_eq_iff_eq, compare_gt_iff_gt]
  rw [notAfter, bne_iff_ne, ne_eq, hgt]
  omega

theorem notAfter_trans (hab : a.notAfter b = true) (hbc : b.notAfter c = true) :
    a.notAfter c = true := by
  rw [notAfter_iff] at *
  omega

theorem notAfter_total (a b : Instant) : (a.notAfter b || b.notAfter a) = true := by
  rw [Bool.or_eq_true, notAfter_iff, notAfter_iff]
  omega

theorem notAfter_refl (a : Instant) : a.notAfter a = true := by
  rw [notAfter_iff]
  omega

theorem notAfter_antisymm (hab : a.notAfter b = true) (hba : b.notAfter a = true) : a = b := by
  rw [notAfter_iff] at hab hba
  cases a
  cases b
  simp only [Instant.mk.injEq] at *
  omega

end Instant

/-! ## Sorting by key -/

section Sorting

variable {α κ : Type}

/-- What is picked from a list keeps its order in a rearrangement in which it is a sublist. -/
theorem List.filter_eq_of_sublist {p : α → Bool} {xs ys : List α} (hperm : ys.Perm xs)
    (h : (xs.filter p).Sublist ys) : ys.filter p = xs.filter p := by
  have hsub : (xs.filter p).Sublist (ys.filter p) := by
    have hfilter := h.filter p
    rwa [List.filter_filter, List.filter_congr fun x _ => Bool.and_self (p x)] at hfilter
  exact (hsub.eq_of_length (hperm.filter p).length_eq.symm).symm

/-- **A sorted list is known by its parts of equal keys.** -/
theorem List.eq_of_filter_eq [DecidableEq κ] {le : κ → κ → Prop} (key : α → κ)
    (hrefl : ∀ k, le k k) (hanti : ∀ {k l}, le k l → le l k → k = l) {xs ys : List α}
    (hxs : xs.Pairwise fun a b => le (key a) (key b))
    (hys : ys.Pairwise fun a b => le (key a) (key b))
    (h : ∀ k, xs.filter (key · = k) = ys.filter (key · = k)) : xs = ys := by
  -- What is in one list is in the other one, as the parts for its key are equal.
  have hmem : ∀ {us vs : List α}, (∀ k, us.filter (key · = k) = vs.filter (key · = k)) →
      ∀ x ∈ us, x ∈ vs := by
    intro us vs h x hx
    have hpart : x ∈ us.filter (key · = key x) := List.mem_filter.2 ⟨hx, decide_eq_true rfl⟩
    rw [h] at hpart
    exact (List.mem_filter.1 hpart).1
  have hhead : ∀ {z : α} {zs : List α}, (z :: zs).Pairwise (fun a b => le (key a) (key b)) →
      ∀ x ∈ z :: zs, le (key z) (key x) := by
    intro z zs hz x hx
    rcases List.mem_cons.1 hx with rfl | hx
    · exact hrefl _
    · exact (List.pairwise_cons.1 hz).1 x hx
  induction xs generalizing ys with
  | nil =>
    cases ys with
    | nil => rfl
    | cons y ys => exact absurd (hmem (fun k => (h k).symm) y List.mem_cons_self) List.not_mem_nil
  | cons x xs ih =>
    cases ys with
    | nil => exact absurd (hmem h x List.mem_cons_self) List.not_mem_nil
    | cons y ys =>
      have hkey : key x = key y :=
        hanti (hhead hxs y (hmem (fun k => (h k).symm) y List.mem_cons_self))
          (hhead hys x (hmem h x List.mem_cons_self))
      have hfirst := h (key x)
      rw [List.filter_cons, List.filter_cons, if_pos (decide_eq_true rfl),
        if_pos (decide_eq_true hkey.symm)] at hfirst
      obtain ⟨rfl, hrest⟩ := List.cons.inj hfirst
      refine congrArg (x :: ·) (ih (List.pairwise_cons.1 hxs).2 (List.pairwise_cons.1 hys).2 ?_)
      intro k
      by_cases hk : key x = k
      · exact hk ▸ hrest
      · have hboth := h k
        rwa [List.filter_cons, List.filter_cons, if_neg (by simpa using hk),
          if_neg (by simpa using hk)] at hboth

end Sorting

namespace PlanLog

/-! ## Reading in any order -/

/-- All records of files that are listed in some order. -/
def loadFrom (entries : List (String × Bytes)) : Except Fault (List PlanRecord) := do
  return (← unsorted entries).mergeSort fun a b => a.recordedAt.notAfter b.recordedAt

/-- The records of one vault. -/
def loadVaultFrom (entries : List (String × Bytes)) (vault : String) :
    Except Fault (List PlanRecord) := do
  return (← loadFrom entries).filter (·.batch.vault == vault)

/-- A log is read from its files in the order of their names. -/
theorem loadAll_eq (log : PlanLog) : log.loadAll = loadFrom log.files.toList := rfl

/-- So are the records of a vault. -/
theorem loadVault_eq (log : PlanLog) (vault : String) :
    log.loadVault vault = loadVaultFrom log.files.toList vault := rfl

/-! ## Lines that are no records -/

/-- A line as it is read: a carriage return before its line feed belongs to the line break. -/
def asRead (w : List Char) : List Char :=
  (match w.reverse with
    | '\r' :: cs => cs
    | cs => cs).reverse

/-- A line that is blank or no record. -/
structure Foreign (w : List Char) : Prop where
  /-- It is one line. -/
  oneLine : '\n' ∉ w
  /-- It is skipped. -/
  skipped : (asRead w).all isBlank = true ∨ PlanRecord.ofLine? (String.ofList (asRead w)) = none

/-- A complete line is read. -/
theorem lines_complete {w : List Char} (hw : '\n' ∉ w) (rest : List Char) :
    lines [] (w ++ '\n' :: rest) = String.ofList (asRead w) :: lines [] rest := by
  rw [lines_append hw, List.append_nil, asRead]
  generalize w.reverse = reversed
  cases reversed <;> rfl

/-- A line that is no record adds nothing to what is read. -/
theorem Foreign.recordsOf {w : List Char} (h : Foreign w) (cs : List Char) :
    recordsOf (String.ofList (w ++ '\n' :: cs)) = recordsOf (String.ofList cs) := by
  rw [PlanLog.recordsOf, PlanLog.recordsOf, String.toList_ofList, String.toList_ofList,
    lines_complete h.oneLine, List.filter_cons, String.toList_ofList]
  rcases h.skipped with hblank | hnone
  · rw [hblank, Bool.not_true, if_neg Bool.false_ne_true]
  · split
    · rw [List.filterMap_cons, hnone]
    · rfl

/-! ## What happens to a log -/

/-- What happens to the files of a plan log. -/
inductive Event
  /-- A record is appended. -/
  | append (r : PlanRecord)
  /-- Another program appends a complete line to a file. -/
  | line (name : String) (w : List Char)
  /-- Another program writes a file. -/
  | file (name : String) (content : Bytes)
  /-- The log is probed. -/
  | probe

namespace Event

/-- What an event does. -/
def apply (log : PlanLog) : Event → PlanLog
  | append r => log.append r
  | line name w =>
    log.write name (log.content name ++ Bytes.ofText (String.ofList (w ++ ['\n'])))
  | file name content => log.write name content
  | probe => log.probe

/-- Records are read back from their documents, lines of other programs are no records, and files of
other programs are no daily ones. -/
def Allowed : Event → Prop
  | append r => r.Readable
  | line _ w => Foreign w
  | file name _ => isDaily name = false
  | probe => True

/-- The record that is appended. -/
def record? : Event → Option PlanRecord
  | append r => some r
  | _ => none

/-- The characters that are appended to a daily file. -/
def charsFor (name : String) : Event → List Char
  | append r => if fileName r = name then r.chars else []
  | line other w => if other = name then w ++ ['\n'] else []
  | _ => []

end Event

/-- The log after some events. -/
def after (log : PlanLog) (events : List Event) : PlanLog := events.foldl Event.apply log

/-- The records that are appended. -/
def appended (events : List Event) : List PlanRecord := events.filterMap Event.record?

variable {log : PlanLog} {events : List Event}

theorem content_write (log : PlanLog) (name : String) (b : Bytes) (other : String) :
    (log.write name b).content other = if other = name then b else log.content other := by
  rw [content, write, Table.get?_insert]
  split <;> rfl

/-- The probe is no daily file. -/
theorem content_probe {name : String} (h : isDaily name = true) :
    log.probe.content name = log.content name := by
  have hname : name ≠ probeName := by
    rintro rfl
    exact absurd h (by decide)
  rw [content, probe, Table.get?_erase, if_neg hname]
  rfl

/-- **An event** appends its characters to a daily file, and leaves what is in it. -/
theorem content_apply {e : Event} (he : e.Allowed) {name : String} (h : isDaily name = true) :
    (e.apply log).content name =
      log.content name ++ Bytes.ofText (String.ofList (e.charsFor name)) := by
  have hnone : Bytes.ofText (String.ofList []) = [] := rfl
  cases e with
  | append r =>
    rw [Event.apply, append_eq_tear, content_tear, List.take_length, PlanRecord.line_eq,
      Event.charsFor]
    split <;> rfl
  | line other w =>
    rw [Event.apply, content_write, Event.charsFor]
    by_cases hother : name = other
    · rw [if_pos hother, if_pos hother.symm, hother]
    · rw [if_neg hother, if_neg (Ne.symm hother), hnone, List.append_nil]
  | file other b =>
    have hother : name ≠ other := by
      rintro rfl
      exact Bool.false_ne_true (he.symm.trans h)
    have hchars : (Event.file other b).charsFor name = [] := rfl
    rw [Event.apply, content_write, if_neg hother, hchars, hnone, List.append_nil]
  | probe =>
    have hchars : Event.probe.charsFor name = [] := rfl
    rw [Event.apply, content_probe h, hchars, hnone, List.append_nil]

/-- **A daily file** is what the events append to it. -/
theorem content_after (he : ∀ e ∈ events, e.Allowed) {name : String} (h : isDaily name = true) :
    (log.after events).content name = log.content name ++
      Bytes.ofText (String.ofList (events.flatMap (Event.charsFor name))) := by
  induction events generalizing log with
  | nil => exact (List.append_nil _).symm
  | cons e events ih =>
    rw [List.forall_mem_cons] at he
    have hstep : log.after (e :: events) = (e.apply log).after events := rfl
    rw [hstep, ih he.2, content_apply he.1 h, List.flatMap_cons, String.ofList_append,
      Bytes.ofText_append, List.append_assoc]

/-- **The records of what is appended to a daily file** are those that belong to it. -/
theorem recordsOf_charsFor (he : ∀ e ∈ events, e.Allowed) (name : String) :
    recordsOf (String.ofList (events.flatMap (Event.charsFor name))) =
      (appended events).filter (fileName · = name) := by
  induction events with
  | nil => rfl
  | cons e events ih =>
    rw [List.forall_mem_cons] at he
    have hskip : e.charsFor name = [] → (appended [e]).filter (fileName · = name) = [] →
        recordsOf (String.ofList ((e :: events).flatMap (Event.charsFor name))) =
          (appended (e :: events)).filter (fileName · = name) := by
      intro hchars hrecords
      have hsplit : appended (e :: events) = appended [e] ++ appended events :=
        List.filterMap_append (l := [e])
      rw [List.flatMap_cons, hchars, List.nil_append, ih he.2, hsplit, List.filter_append,
        hrecords, List.nil_append]
    cases e with
    | append r =>
      by_cases hname : fileName r = name
      · have hread := recordsOf_lines (List.forall_mem_singleton.2 he.1)
          (events.flatMap (Event.charsFor name))
        rw [List.flatMap_singleton, ih he.2] at hread
        have hrecords : appended (.append r :: events) = r :: appended events := rfl
        rw [List.flatMap_cons, Event.charsFor, if_pos hname, hread, hrecords, List.filter_cons,
          if_pos (decide_eq_true hname), List.singleton_append]
      · have hrecords : appended [.append r] = [r] := rfl
        refine hskip (if_neg hname) ?_
        rw [hrecords, List.filter_singleton, decide_eq_false hname, cond_false]
    | line other w =>
      by_cases hname : other = name
      · have hforeign : Foreign w := he.1
        rw [List.flatMap_cons, Event.charsFor, if_pos hname, List.append_assoc,
          List.singleton_append, hforeign.recordsOf, ih he.2]
        rfl
      · exact hskip (if_neg hname) rfl
    | file => exact hskip rfl rfl
    | probe => exact hskip rfl rfl

/-- **The records of a daily file.** -/
theorem fileRecords_after (he : ∀ e ∈ events, e.Allowed) {name : String}
    (h : isDaily name = true) : fileRecords ((({} : PlanLog).after events).content name) =
      .ok ((appended events).filter (fileName · = name)) := by
  have hempty : ({} : PlanLog).content name = [] := rfl
  rw [content_after he h, hempty, List.nil_append, fileRecords, Bytes.toText?_ofText]
  exact congrArg Except.ok (recordsOf_charsFor he name)

/-! ## What is read -/

/-- The daily files among those that are listed. -/
def dailyAmong (entries : List (String × Bytes)) : List String :=
  (entries.map (·.1)).filter isDaily

/-- The same daily files are listed in every order, each once. -/
theorem dailyAmong_perm {entries : List (String × Bytes)}
    (h : entries.Perm log.files.toList) : (dailyAmong entries).Perm log.dailyNames :=
  (h.map Prod.fst).filter isDaily

/-- The files of all records that were appended are listed. -/
theorem fileName_mem_dailyNames (he : ∀ e ∈ events, e.Allowed) :
    ∀ r ∈ appended events, fileName r ∈ (({} : PlanLog).after events).dailyNames := by
  intro r hr
  refine mem_dailyNames.2 ⟨contains_of_content_ne_nil fun hnil => ?_, isDaily_fileName r⟩
  -- In an empty file there would be no record.
  have hread := fileRecords_after he (isDaily_fileName r)
  have hempty : fileRecords [] = .ok [] := fileRecords_lines (List.forall_mem_nil _)
  rw [hnil, hempty] at hread
  have hmem : r ∈ (appended events).filter (fileName · = fileName r) :=
    List.mem_filter.2 ⟨hr, decide_eq_true rfl⟩
  rw [← Except.ok.inj hread] at hmem
  exact absurd hmem List.not_mem_nil

section Listed

variable {entries : List (String × Bytes)} (he : ∀ e ∈ events, e.Allowed)
  (hentries : entries.Perm (({} : PlanLog).after events).files.toList)
include he hentries

/-- What is read before it is sorted. -/
theorem unsorted_after : unsorted entries = .ok ((dailyAmong entries).flatMap fun name =>
    (appended events).filter (fileName · = name)) := by
  refine unsorted_eq_ok fun e hmem hdaily => ?_
  rw [← content_of_mem (hentries.mem_iff.1 hmem)]
  exact fileRecords_after he hdaily

/-- All records are read, each once. -/
theorem unsorted_perm : ((dailyAmong entries).flatMap fun name =>
    (appended events).filter (fileName · = name)).Perm (appended events) := by
  have hnames := dailyAmong_perm hentries
  refine flatMap_filter_perm (hnames.nodup_iff.2 (nodup_dailyNames _)) fun r hr => ?_
  exact hnames.mem_iff.2 (fileName_mem_dailyNames he r hr)

/-- Records of one time are read from one file, in the order in which they were appended. -/
theorem sublist_unsorted (t : Instant) : ((appended events).filter (·.recordedAt = t)).Sublist
    ((dailyAmong entries).flatMap fun name => (appended events).filter (fileName · = name)) := by
  cases htimed : (appended events).filter (·.recordedAt = t) with
  | nil => exact List.nil_sublist _
  | cons r rest =>
    have hr : r ∈ (appended events).filter (·.recordedAt = t) := htimed ▸ List.mem_cons_self
    obtain ⟨hr, htime⟩ := List.mem_filter.1 hr
    have hname : fileName r ∈ dailyAmong entries :=
      (dailyAmong_perm hentries).mem_iff.2 (fileName_mem_dailyNames he r hr)
    have hday : ∀ x : PlanRecord, (x.recordedAt = t) → fileName x = fileName r := by
      intro x hx
      rw [fileName, fileName, hx, of_decide_eq_true htime]
    rw [← htimed]
    have hpart : ((appended events).filter (·.recordedAt = t)).Sublist
        ((appended events).filter (fileName · = fileName r)) :=
      List.monotone_filter_right _ fun x hx => decide_eq_true (hday x (of_decide_eq_true hx))
    have hfile : ((appended events).filter (fileName · = fileName r)).Sublist
        ((dailyAmong entries).flatMap fun name => (appended events).filter (fileName · = name)) :=
      List.sublist_flatten_of_mem (List.mem_map.2 ⟨_, hname, rfl⟩)
    exact hpart.trans hfile

end Listed

/-- Records are ordered by their times. -/
theorem recorded_trans (a b c : PlanRecord) (hab : a.recordedAt.notAfter b.recordedAt = true)
    (hbc : b.recordedAt.notAfter c.recordedAt = true) :
    a.recordedAt.notAfter c.recordedAt = true := Instant.notAfter_trans hab hbc

/-- Of two records one is not after the other. -/
theorem recorded_total (a b : PlanRecord) :
    (a.recordedAt.notAfter b.recordedAt || b.recordedAt.notAfter a.recordedAt) = true :=
  Instant.notAfter_total a.recordedAt b.recordedAt

/-- Sorting keeps the records of one time as they are. -/
theorem filter_sorted {rs xs : List PlanRecord} (hperm : xs.Perm rs) (t : Instant)
    (h : (rs.filter (·.recordedAt = t)).Sublist xs) :
    (xs.mergeSort fun a b => a.recordedAt.notAfter b.recordedAt).filter (·.recordedAt = t) =
      rs.filter (·.recordedAt = t) := by
  have htime : (rs.filter (·.recordedAt = t)).Pairwise
      fun a b => a.recordedAt.notAfter b.recordedAt = true := by
    refine List.pairwise_of_forall_mem_list fun a ha b hb => ?_
    rw [of_decide_eq_true (List.mem_filter.1 ha).2, of_decide_eq_true (List.mem_filter.1 hb).2]
    exact t.notAfter_refl
  refine List.filter_eq_of_sublist ((List.mergeSort_perm _ _).trans hperm) ?_
  exact List.sublist_mergeSort recorded_trans recorded_total htime h

theorem pairwise_sorted (rs : List PlanRecord) :
    (rs.mergeSort fun a b => a.recordedAt.notAfter b.recordedAt).Pairwise
      fun a b => a.recordedAt.notAfter b.recordedAt = true :=
  List.pairwise_mergeSort recorded_trans recorded_total rs

/-- **What is loaded** is what was appended, sorted by time, in whatever order the files are
listed. -/
theorem loadFrom_after (he : ∀ e ∈ events, e.Allowed) {entries : List (String × Bytes)}
    (hentries : entries.Perm (({} : PlanLog).after events).files.toList) :
    loadFrom entries =
      .ok ((appended events).mergeSort fun a b => a.recordedAt.notAfter b.recordedAt) := by
  rw [loadFrom, unsorted_after he hentries, ok_bind]
  refine congrArg Except.ok (List.eq_of_filter_eq PlanRecord.recordedAt
    Instant.notAfter_refl Instant.notAfter_antisymm (pairwise_sorted _) (pairwise_sorted _) ?_)
  intro t
  rw [filter_sorted (unsorted_perm he hentries) t (sublist_unsorted he hentries t),
    filter_sorted (.refl _) t List.filter_sublist]

theorem loadVaultFrom_eq_ok {entries : List (String × Bytes)} {loaded : List PlanRecord}
    (h : loadFrom entries = .ok loaded) (vault : String) :
    loadVaultFrom entries vault = .ok (loaded.filter (·.batch.vault = vault)) := by
  rw [loadVaultFrom, h]
  rfl

/-- **The log is complete and in order.** Records are appended to a plan log in any order of their
times, and other programs put complete lines that are no records into its files, and other files
beside them. Then the records that were appended are loaded, each once, oldest first, those of one
time in the order in which they were appended. So it is for every order in which the files are
listed. The records of a vault are those among them that are the vault's. -/
theorem log_complete_and_ordered (events : List Event) (he : ∀ e ∈ events, e.Allowed) :
    ∃ loaded : List PlanRecord,
      (∀ entries : List (String × Bytes),
        entries.Perm (({} : PlanLog).after events).files.toList →
          loadFrom entries = .ok loaded ∧
            ∀ vault, loadVaultFrom entries vault =
              .ok (loaded.filter (·.batch.vault = vault))) ∧
      (({} : PlanLog).after events).loadAll = .ok loaded ∧
      (∀ vault, (({} : PlanLog).after events).loadVault vault =
        .ok (loaded.filter (·.batch.vault = vault))) ∧
      loaded.Perm (appended events) ∧
      (loaded.Pairwise fun a b => a.recordedAt.notAfter b.recordedAt = true) ∧
      ∀ t, loaded.filter (·.recordedAt = t) = (appended events).filter (·.recordedAt = t) := by
  have hload := fun {entries} (h : List.Perm entries _) => loadFrom_after he h
  refine ⟨_, fun entries h => ⟨hload h, loadVaultFrom_eq_ok (hload h)⟩, ?_, fun vault => ?_,
    List.mergeSort_perm _ _, pairwise_sorted _,
    fun t => filter_sorted (.refl _) t List.filter_sublist⟩
  · rw [loadAll_eq]
    exact hload (.refl _)
  · rw [loadVault_eq]
    exact loadVaultFrom_eq_ok (hload (.refl _)) vault

end PlanLog

namespace SimulatedRun

/-- The same time on the day before. -/
def dayBefore : Instant := ⟨noon.seconds - 86400, 0⟩

/-- A record that is older than its batch. -/
def early (vault : String) : PlanRecord := { record vault with recordedAt := dayBefore }

theorem readable_early (vault : String) : (early vault).Readable := by
  have hrecord := readable_record vault
  have htime : Instant.read? dayBefore.document = some dayBefore := by decide +kernel
  rw [PlanRecord.Readable, PlanRecord.document, PlanRecord.read?_record] at hrecord ⊢
  obtain ⟨batch, hbatch, h⟩ := Option.bind_eq_some_iff.1 hrecord
  obtain ⟨outcome, houtcome, h⟩ := Option.bind_eq_some_iff.1 h
  obtain ⟨time, -, h⟩ := Option.bind_eq_some_iff.1 h
  cases h
  exact Option.bind_eq_some_iff.2 ⟨_, hbatch, Option.bind_eq_some_iff.2 ⟨_, houtcome,
    Option.bind_eq_some_iff.2 ⟨_, htime, rfl⟩⟩⟩

/-- A log of two days, with a line and a file of another program. -/
def events : List PlanLog.Event :=
  [.append (record "b"), .line (PlanLog.fileName (record "b")) ['?', '\r'],
    .append (early "a"), .file "notes.txt" [0xFF], .probe]

/-- The later record was appended first. -/
theorem two_days : (∀ e ∈ events, e.Allowed) ∧
    (({} : PlanLog).after events).loadAll = .ok [early "a", record "b"] := by
  have hline : PlanLog.Foreign ['?', '\r'] := ⟨by decide, .inr (by decide +kernel)⟩
  have hallowed : ∀ e ∈ events, e.Allowed := by
    simp only [events, List.forall_mem_cons]
    exact ⟨readable_record "b", hline, readable_early "a",
      (by decide : PlanLog.isDaily "notes.txt" = false), trivial, nofun⟩
  obtain ⟨loaded, -, hload, -, hperm, hsorted, -⟩ :=
    PlanLog.log_complete_and_ordered events hallowed
  have happended : PlanLog.appended events = [record "b", early "a"] := rfl
  rw [happended, List.perm_pair] at hperm
  refine ⟨hallowed, ?_⟩
  rcases hperm with rfl | rfl
  · exact absurd ((List.pairwise_pair).1 hsorted) (by decide)
  · exact hload

end SimulatedRun

end VaultKeeper
