import Mathlib.Data.List.Nodup
import Mathlib.Data.List.Perm.Basic
import VaultKeeper.Proofs.Configured
import VaultKeeper.Proofs.TornLines

/-! # The plan log after a crash

A crash can leave off the line that is being appended to the plan log after any number of its
bytes. Where that is inside a character, the log cannot be loaded any more. Otherwise all records
are loaded that were in the log before, and all that are appended later, except for the first one of
the same day: its line goes on where the other one was left off. -/

namespace VaultKeeper

/-! ## Lists by key -/

section Keys

variable {α κ : Type}

/-- What belongs to the keys of a list does not depend on their order, nor on keys to which nothing
belongs. -/
theorem flatMap_perm_of_nodup {f : κ → List α} {ks ls : List κ} (hks : ks.Nodup) (hls : ls.Nodup)
    (h : ∀ k, f k ≠ [] → (k ∈ ks ↔ k ∈ ls)) : (ks.flatMap f).Perm (ls.flatMap f) := by
  have hfilter : ∀ ms : List κ, (ms.filter fun k => !(f k).isEmpty).flatMap f = ms.flatMap f := by
    intro ms
    induction ms with
    | nil => rfl
    | cons k ms ih =>
      by_cases hk : f k = [] <;> simp [hk, ih]
  rw [← hfilter ks, ← hfilter ls]
  refine List.Perm.flatMap_right _ ?_
  rw [List.perm_ext_iff_of_nodup (hks.filter _) (hls.filter _)]
  intro k
  simp only [List.mem_filter, Bool.not_eq_true', List.isEmpty_eq_false_iff]
  exact and_congr_left (h k)

/-- A list is put together from its parts for all keys. -/
theorem flatMap_filter_perm [DecidableEq κ] {key : α → κ} {ks : List κ} (hks : ks.Nodup)
    {xs : List α} (h : ∀ x ∈ xs, key x ∈ ks) :
    (ks.flatMap fun k => xs.filter (key · = k)).Perm xs := by
  induction ks generalizing xs with
  | nil =>
    cases xs with
    | nil => exact .nil
    | cons x xs => exact absurd (h x List.mem_cons_self) List.not_mem_nil
  | cons k ks ih =>
    obtain ⟨hk, hks⟩ := List.nodup_cons.1 hks
    have hrest : ∀ x ∈ xs.filter fun x => !decide (key x = k), key x ∈ ks := by
      intro x hx
      obtain ⟨hmem, hne⟩ := List.mem_filter.1 hx
      exact (List.mem_cons.1 (h x hmem)).resolve_left (by simpa using hne)
    have hparts : (ks.flatMap fun k' => xs.filter (key · = k')) =
        ks.flatMap fun k' => (xs.filter fun x => !decide (key x = k)).filter (key · = k') := by
      refine List.flatMap_congr fun k' hk' => ?_
      rw [List.filter_filter]
      refine List.filter_congr fun x _ => ?_
      by_cases hx : key x = k'
      · have hne : k' ≠ k := fun heq => hk (heq ▸ hk')
        simp [hx, hne]
      · simp [hx]
    rw [List.flatMap_cons, hparts]
    exact ((ih hks hrest).append_left _).trans (List.filter_append_perm _ _)

end Keys

namespace PlanLog

/-- The content of a file; a file that there is not has none. -/
def content (log : PlanLog) (name : String) : Bytes := (log.files.get? name).getD []

/-- A record is appended as far as a number of bytes of its line. -/
def tear (log : PlanLog) (r : PlanRecord) (n : Nat) : PlanLog :=
  log.write (fileName r) (log.content (fileName r) ++ r.line.take n)

/-- The daily files. -/
def dailyNames (log : PlanLog) : List String := log.files.keys.filter isDaily

/-- The daily files of a log are made of the lines of records that are read back. -/
structure Holds (log : PlanLog) (records : String → List PlanRecord) : Prop where
  /-- The content of each file. -/
  content_eq {name : String} (h : isDaily name = true) :
    log.content name = (records name).flatMap PlanRecord.line
  /-- The records. -/
  readable (name : String) : ∀ r ∈ records name, r.Readable

variable {log : PlanLog} {records : String → List PlanRecord} {r : PlanRecord}
  {after : List PlanRecord} {n : Nat}

/-! ## Writing -/

/-- A record that is appended is one that is torn behind its end. -/
theorem append_eq_tear (log : PlanLog) (r : PlanRecord) :
    log.append r = log.tear r r.line.length := by
  rw [tear, List.take_length]
  rfl

theorem content_tear (log : PlanLog) (r : PlanRecord) (n : Nat) (name : String) :
    (log.tear r n).content name =
      log.content name ++ if fileName r = name then r.line.take n else [] := by
  rw [content, tear, write, Table.get?_insert]
  by_cases hname : name = fileName r
  · rw [if_pos hname, if_pos hname.symm, hname]
    rfl
  · rw [if_neg hname, if_neg (Ne.symm hname), List.append_nil]
    rfl

/-- The file of a line that is torn is there. -/
theorem contains_tear {name : String} (h : log.files.contains name = true ∨ fileName r = name) :
    (log.tear r n).files.contains name = true := by
  rw [Table.contains, tear, write, Table.get?_insert]
  by_cases hname : name = fileName r
  · rw [if_pos hname]
    rfl
  · rw [if_neg hname]
    exact h.resolve_right (Ne.symm hname)

/-- So are the files of records that are appended, and those that were there before. -/
theorem contains_appends {name : String}
    (h : log.files.contains name = true ∨ ∃ x ∈ after, fileName x = name) :
    (after.foldl append log).files.contains name = true := by
  induction after generalizing log with
  | nil => exact h.resolve_right fun ⟨_, hx, _⟩ => nomatch hx
  | cons x after ih =>
    rw [List.foldl_cons, append_eq_tear]
    refine ih ?_
    rcases h with h | ⟨y, hy, hname⟩
    · exact .inl (contains_tear (.inl h))
    · rcases List.mem_cons.1 hy with rfl | hy
      · exact .inl (contains_tear (.inr hname))
      · exact .inr ⟨y, hy, hname⟩

/-- **Records are appended** each to the file of its day. -/
theorem content_appends (log : PlanLog) (after : List PlanRecord) (name : String) :
    (after.foldl append log).content name =
      log.content name ++ (after.filter (fileName · = name)).flatMap PlanRecord.line := by
  induction after generalizing log with
  | nil => simp
  | cons x after ih =>
    rw [List.foldl_cons, ih, append_eq_tear, content_tear, List.take_length, List.append_assoc]
    by_cases hx : fileName x = name <;> simp [hx]

/-- The file of a record is a daily one. -/
theorem isDaily_fileName (r : PlanRecord) : isDaily (fileName r) = true := by
  have hdate : r.recordedAt.date.chars ≠ [] := by
    simp [Instant.Date.chars]
  have hreversed : (fileName r).toList.reverse =
      'l' :: 'n' :: 'o' :: 's' :: 'j' :: '.' :: r.recordedAt.date.chars.reverse := by
    simp [fileName, Instant.dateText]
  rw [isDaily, hreversed]
  have hlength := List.length_pos_iff.2 hdate
  simp
  omega

/-! ## Loading -/

theorem nodup_dailyNames (log : PlanLog) : log.dailyNames.Nodup := by
  have hkeys : log.files.keys.Nodup := by
    refine List.pairwise_map.2 (log.files.increasing.imp ?_)
    intro a b hlt heq
    have hself : compare a.1 b.1 = .eq := heq ▸ Std.ReflCmp.compare_self
    rw [hself] at hlt
    cases hlt
  exact hkeys.filter _

theorem mem_dailyNames {name : String} :
    name ∈ log.dailyNames ↔ log.files.contains name = true ∧ isDaily name = true := by
  rw [dailyNames, List.mem_filter, Table.mem_keys_iff]

/-- A file that is not empty is there. -/
theorem contains_of_content_ne_nil {name : String} (h : log.content name ≠ []) :
    log.files.contains name = true := by
  rw [Table.contains, Option.isSome_iff_ne_none]
  intro hnone
  rw [content, hnone] at h
  exact h rfl

/-- A file that is listed has its content. -/
theorem content_of_mem {e : String × Bytes} (h : e ∈ log.files.toList) : log.content e.1 = e.2 := by
  rw [content, Table.mem_toList_iff.1 h]
  rfl

/-- The records of files that can be read, file by file. -/
theorem unsorted_eq_ok {entries : List (String × Bytes)} {f : String → List PlanRecord}
    (h : ∀ e ∈ entries, isDaily e.1 = true → fileRecords e.2 = .ok (f e.1)) :
    unsorted entries = .ok (((entries.map (·.1)).filter isDaily).flatMap f) := by
  have hread : ∀ e ∈ entries.filter (isDaily ·.1), fileRecords e.2 = .ok (f e.1) := fun e he =>
    h e (List.mem_filter.1 he).1 (List.mem_filter.1 he).2
  rw [unsorted, mapM_eq_ok hread, ok_bind, List.filter_map, List.flatMap_map]
  rfl

theorem loadAll_eq_ok {f : String → List PlanRecord}
    (h : ∀ name, isDaily name = true → fileRecords (log.content name) = .ok (f name)) :
    ∃ loaded, log.loadAll = .ok loaded ∧ loaded.Perm (log.dailyNames.flatMap f) := by
  have hfiles : unsorted log.files.toList = .ok (log.dailyNames.flatMap f) := by
    refine unsorted_eq_ok fun e he hdaily => ?_
    rw [← content_of_mem he]
    exact h _ hdaily
  have hload : log.loadAll = .ok ((log.dailyNames.flatMap f).mergeSort
      fun a b => a.recordedAt.notAfter b.recordedAt) := by
    rw [loadAll, hfiles, ok_bind]
    rfl
  exact ⟨_, hload, List.mergeSort_perm _ _⟩

theorem loadAll_eq_error {name : String} (hname : name ∈ log.dailyNames)
    (h : fileRecords (log.content name) = .error .notText) : log.loadAll = .error .notText := by
  obtain ⟨hkey, hdaily⟩ := List.mem_filter.1 hname
  obtain ⟨e, he, rfl⟩ := List.mem_map.1 hkey
  rw [content_of_mem he] at h
  cases hload : log.loadAll with
  | error fault =>
    cases fault
    rfl
  | ok loaded =>
    obtain ⟨rs, hfiles, -⟩ := bind_eq_ok.1 hload
    obtain ⟨ys, hys, -⟩ := bind_eq_ok.1 hfiles
    obtain ⟨y, hy⟩ := exists_of_mapM_eq_ok hys e (List.mem_filter.2 ⟨he, hdaily⟩)
    rw [h] at hy
    cases hy

/-! ## After a crash -/

/-- The log after a line was left off and further records were appended. -/
def crashed (log : PlanLog) (r : PlanRecord) (n : Nat) (after : List PlanRecord) : PlanLog :=
  after.foldl append (log.tear r n)

/-- What is read of a line that was left off and of the records that were appended later. -/
def recovered (r : PlanRecord) (n : Nat) (after : List PlanRecord) : List PlanRecord :=
  after.filter (fileName · ≠ fileName r) ++ resumed r n (after.filter (fileName · = fileName r))

theorem mem_of_mem_resumed {xs : List PlanRecord} {x : PlanRecord} (hx : x ∈ resumed r n xs) :
    x = r ∨ x ∈ xs := by
  unfold resumed at hx
  split at hx
  · exact .inr hx
  split at hx
  · split at hx
    · exact .inl (List.mem_singleton.1 hx)
    · cases hx
  · exact .inr (List.mem_cons_of_mem _ hx)

/-- All that is read of the file of the line that was left off belongs to its day. -/
theorem fileName_of_mem_resumed {x : PlanRecord}
    (hx : x ∈ resumed r n (after.filter (fileName · = fileName r))) : fileName x = fileName r := by
  rcases mem_of_mem_resumed hx with rfl | hx
  · rfl
  · exact of_decide_eq_true (List.mem_filter.1 hx).2

/-- What is read, file by file. -/
theorem filter_recovered (r : PlanRecord) (n : Nat) (after : List PlanRecord) (name : String) :
    (recovered r n after).filter (fileName · = name) =
      if name = fileName r then resumed r n (after.filter (fileName · = fileName r))
      else after.filter (fileName · = name) := by
  rw [recovered, List.filter_append, List.filter_filter]
  split
  case isTrue hname =>
    subst hname
    have hothers : (after.filter fun x => decide (fileName x = fileName r) &&
        decide (fileName x ≠ fileName r)) = [] := by
      simp
    have hown : (resumed r n (after.filter (fileName · = fileName r))).filter
        (fileName · = fileName r) = resumed r n (after.filter (fileName · = fileName r)) :=
      List.filter_eq_self.2 fun x hx => decide_eq_true (fileName_of_mem_resumed hx)
    rw [hothers, hown, List.nil_append]
  case isFalse hname =>
    have hothers : (after.filter fun x => decide (fileName x = name) &&
        decide (fileName x ≠ fileName r)) = after.filter (fileName · = name) := by
      refine List.filter_congr fun x _ => ?_
      by_cases hx : fileName x = name <;> simp [hx, hname]
    have hown : (resumed r n (after.filter (fileName · = fileName r))).filter
        (fileName · = name) = [] :=
      List.filter_eq_nil_iff.2 fun x hx h =>
        hname ((of_decide_eq_true h).symm.trans (fileName_of_mem_resumed hx))
    rw [hothers, hown, List.append_nil]

/-- The content of a daily file after a crash. -/
theorem content_crashed (h : log.Holds records) {name : String} (hname : isDaily name = true) :
    (log.crashed r n after).content name = (records name).flatMap PlanRecord.line ++
      ((if fileName r = name then r.line.take n else []) ++
        (after.filter (fileName · = name)).flatMap PlanRecord.line) := by
  rw [crashed, content_appends, content_tear, h.content_eq hname, List.append_assoc]

/-- **The records of a daily file after a crash.** -/
theorem fileRecords_crashed (h : log.Holds records) (hr : r.Readable) (hn : n < r.line.length)
    (hafter : ∀ x ∈ after, x.Readable) (htext : (Bytes.toText? (r.line.take n)).isSome)
    {name : String} (hname : isDaily name = true) :
    fileRecords ((log.crashed r n after).content name) =
      .ok (records name ++ (recovered r n after).filter (fileName · = name)) := by
  have hxs : ∀ x ∈ after.filter (fileName · = name), x.Readable := fun x hx =>
    hafter x (List.mem_filter.1 hx).1
  obtain ⟨t, ht⟩ := Option.isSome_iff_exists.1 htext
  rw [content_crashed h hname, filter_recovered]
  by_cases hfile : fileName r = name
  · subst hfile
    rw [if_pos rfl, if_pos rfl, fileRecords_torn (h.readable _) hr hn hxs, ht]
  · have hwhole : ∀ x ∈ records name ++ after.filter (fileName · = name), x.Readable := by
      rw [List.forall_mem_append]
      exact ⟨h.readable name, hxs⟩
    rw [if_neg hfile, if_neg (Ne.symm hfile), List.nil_append, ← List.flatMap_append,
      fileRecords_lines hwhole]

/-- The files of a log that goes on from another one hold its records. -/
theorem flatMap_dailyNames {log' : PlanLog} (h : log.Holds records)
    (hstarts : ∀ {name}, isDaily name = true →
      (records name).flatMap PlanRecord.line <+: log'.content name) :
    (log'.dailyNames.flatMap records).Perm (log.dailyNames.flatMap records) := by
  -- A file of which records are held is not empty, so that it is listed.
  have hlisted : ∀ {log : PlanLog} {name : String}, records name ≠ [] →
      (records name).flatMap PlanRecord.line <+: log.content name →
      log.files.contains name = true := by
    intro log name hne hstarts
    obtain ⟨x, rest, hcons⟩ := List.exists_cons_of_ne_nil hne
    have hcontent : log.content name ≠ [] := by
      intro hnil
      rw [hnil, List.prefix_nil, hcons, List.flatMap_cons, List.append_eq_nil_iff] at hstarts
      exact List.cons_ne_nil _ _ (List.append_eq_nil_iff.1 hstarts.1).2
    exact contains_of_content_ne_nil hcontent
  refine flatMap_perm_of_nodup (nodup_dailyNames _) (nodup_dailyNames _) fun name hne => ?_
  rw [mem_dailyNames, mem_dailyNames]
  refine and_congr_left fun hname => iff_of_true ?_ ?_
  · exact hlisted hne (hstarts hname)
  · exact hlisted hne ⟨[], by rw [List.append_nil, h.content_eq hname]⟩

/-- The files of all records that are read are listed. -/
theorem mem_dailyNames_of_mem_recovered {x : PlanRecord} (hx : x ∈ recovered r n after) :
    fileName x ∈ (log.crashed r n after).dailyNames := by
  have hsource : x = r ∨ x ∈ after := by
    rcases List.mem_append.1 hx with hx | hx
    · exact .inr (List.mem_filter.1 hx).1
    · exact (mem_of_mem_resumed hx).imp_right fun hx => (List.mem_filter.1 hx).1
  refine mem_dailyNames.2 ⟨contains_appends ?_, isDaily_fileName x⟩
  rcases hsource with rfl | hx
  · exact .inl (contains_tear (.inr rfl))
  · exact .inr ⟨x, hx, rfl⟩

/-- **What is loaded after a crash** between two characters. -/
theorem loadAll_crashed (h : log.Holds records) (hr : r.Readable) (hn : n < r.line.length)
    (hafter : ∀ x ∈ after, x.Readable) (htext : (Bytes.toText? (r.line.take n)).isSome) :
    ∃ loaded, (log.crashed r n after).loadAll = .ok loaded ∧
      loaded.Perm (log.dailyNames.flatMap records ++ recovered r n after) := by
  obtain ⟨loaded, hload, hperm⟩ := loadAll_eq_ok
    (f := fun name => records name ++ (recovered r n after).filter (fileName · = name))
    fun name hname => fileRecords_crashed h hr hn hafter htext hname
  refine ⟨loaded, hload, hperm.trans ?_⟩
  refine (List.flatMap_append_perm _ _ _).symm.trans (.append ?_ ?_)
  · refine flatMap_dailyNames h fun hname => ?_
    rw [content_crashed h hname]
    exact List.prefix_append _ _
  · exact flatMap_filter_perm (nodup_dailyNames _) fun x hx => mem_dailyNames_of_mem_recovered hx

/-- **Nothing is loaded after a crash** inside a character. -/
theorem loadAll_crashed_eq_error (h : log.Holds records) (hr : r.Readable)
    (hn : n < r.line.length) (hafter : ∀ x ∈ after, x.Readable)
    (htext : Bytes.toText? (r.line.take n) = none) :
    (log.crashed r n after).loadAll = .error .notText := by
  have hname := isDaily_fileName r
  have hmem : fileName r ∈ (log.crashed r n after).dailyNames :=
    mem_dailyNames.2 ⟨contains_appends (.inl (contains_tear (.inr rfl))), hname⟩
  have hread : fileRecords ((log.crashed r n after).content (fileName r)) = .error .notText := by
    rw [content_crashed h hname, if_pos rfl, fileRecords_torn (h.readable _) hr hn, htext]
    exact fun x hx => hafter x (List.mem_filter.1 hx).1
  exact loadAll_eq_error hmem hread

/-- The records of the other days, and those of the day of a record. -/
theorem partition_perm (r : PlanRecord) (after : List PlanRecord) :
    (after.filter (fileName · ≠ fileName r) ++ after.filter (fileName · = fileName r)).Perm
      after := by
  have hparts := List.filter_append_perm (fileName · = fileName r) after
  simpa using List.perm_append_comm.trans hparts

/-- Nothing is lost of what is appended behind whole lines, or to the files of other days. -/
theorem subperm_recovered (h : n = 0 ∨ ∀ x ∈ after, fileName x ≠ fileName r) :
    after.Subperm (recovered r n after) := by
  rcases h with rfl | h
  · exact (partition_perm r after).symm.subperm
  · have hothers : after.filter (fileName · ≠ fileName r) = after :=
      List.filter_eq_self.2 fun x hx => decide_eq_true (h x hx)
    rw [recovered, hothers]
    exact (List.sublist_append_left _ _).subperm

/-- Otherwise one record is lost. -/
theorem length_recovered (hn : n ≠ 0) (h : ∃ x ∈ after, fileName x = fileName r) :
    (recovered r n after).length + 1 = after.length := by
  obtain ⟨x, hx, hfile⟩ := h
  have hmem : x ∈ after.filter (fileName · = fileName r) :=
    List.mem_filter.2 ⟨hx, decide_eq_true hfile⟩
  obtain ⟨first, rest, hcons⟩ := List.exists_cons_of_ne_nil (List.ne_nil_of_mem hmem)
  have hresumed : resumed r n (first :: rest) = rest := if_neg hn
  rw [← (partition_perm r after).length_eq, recovered, hcons, hresumed, List.length_append,
    List.length_append, List.length_cons, Nat.add_assoc]

/-- **Which records survive a crash.** A line is left off after some of its bytes, in a log whose
daily files hold whole lines, and more records are appended. If the cut is inside a character, no
record can be loaded any more, of any day. Otherwise all records are loaded that were in the log,
and those that are appended, but for the first one of the same day. So no record is lost exactly if
nothing of the line was written, or if the cut is between characters and nothing is appended to the
same file. -/
theorem records_survive_crash_iff (log : PlanLog) (records : String → List PlanRecord)
    (h : log.Holds records) (r : PlanRecord) (hr : r.Readable) (n : Nat)
    (hn : n < r.line.length) (after : List PlanRecord) (hafter : ∀ x ∈ after, x.Readable) :
    (Bytes.toText? (r.line.take n) = none →
      (log.crashed r n after).loadAll = .error .notText) ∧
    ((Bytes.toText? (r.line.take n)).isSome → ∃ loaded,
      (log.crashed r n after).loadAll = .ok loaded ∧
        loaded.Perm (log.dailyNames.flatMap records ++ recovered r n after)) ∧
    ((∃ loaded, (log.crashed r n after).loadAll = .ok loaded ∧
        (log.dailyNames.flatMap records ++ after).Subperm loaded) ↔
      n = 0 ∨ ((Bytes.toText? (r.line.take n)).isSome ∧
        ∀ x ∈ after, fileName x ≠ fileName r)) := by
  refine ⟨loadAll_crashed_eq_error h hr hn hafter, loadAll_crashed h hr hn hafter, ?_, ?_⟩
  · rintro ⟨loaded, hload, hall⟩
    by_contra hlost
    rw [not_or, not_and_or] at hlost
    obtain ⟨hzero, hcut⟩ := hlost
    cases htext : Bytes.toText? (r.line.take n) with
    | none =>
      rw [loadAll_crashed_eq_error h hr hn hafter htext] at hload
      cases hload
    | some t =>
      have hsome : (Bytes.toText? (r.line.take n)).isSome := by rw [htext]; rfl
      have hsame : ∃ x ∈ after, fileName x = fileName r := by
        simpa [htext] using hcut
      obtain ⟨loaded', hload', hperm⟩ := loadAll_crashed h hr hn hafter hsome
      cases hload.symm.trans hload'
      have hle := hall.length_le
      rw [hperm.length_eq, List.length_append, List.length_append,
        ← length_recovered hzero hsame] at hle
      omega
  · intro hkept
    have hsome : (Bytes.toText? (r.line.take n)).isSome := by
      rcases hkept with rfl | ⟨hsome, -⟩
      · rfl
      · exact hsome
    obtain ⟨loaded, hload, hperm⟩ := loadAll_crashed h hr hn hafter hsome
    refine ⟨loaded, hload, .trans ?_ hperm.symm.subperm⟩
    exact (List.subperm_append_left _).2 (subperm_recovered (hkept.imp_right And.right))

end PlanLog

namespace SimulatedRun

/-- Noon of a day. -/
def noon : Instant := ⟨1709294400, 0⟩

/-- An identifier. -/
def id : BatchId := .ofNat 0x00000001000040008000000000000000

/-- A plan of no instructions. -/
def plan : Plan := ⟨.ofNat 1, .depositAll, []⟩

/-- Its outcome. -/
def outcome : Outcome := ⟨id, .simulated, 0, none⟩

/-- A run of the plan for a vault. -/
def record (vault : String) : PlanRecord := ⟨⟨id, vault, plan, noon⟩, outcome, noon⟩

theorem readable_record (vault : String) : (record vault).Readable := by
  have hid : BatchId.read? id.document = some id := by decide +kernel
  have hplan : Plan.read? plan.document = some plan := by decide +kernel
  have hnoon : Instant.read? noon.document = some noon := by decide +kernel
  have houtcome : Outcome.read? outcome.document = some outcome := by decide +kernel
  have hbatch : Batch.read? (record vault).batch.document = some (record vault).batch := by
    rw [Batch.document, Batch.read?_record]
    exact Option.bind_eq_some_iff.2 ⟨id, hid, Option.bind_eq_some_iff.2 ⟨vault, rfl,
      Option.bind_eq_some_iff.2 ⟨plan, hplan, Option.bind_eq_some_iff.2 ⟨noon, hnoon, rfl⟩⟩⟩⟩
  rw [PlanRecord.Readable, PlanRecord.document, PlanRecord.read?_record]
  exact Option.bind_eq_some_iff.2 ⟨_, hbatch, Option.bind_eq_some_iff.2 ⟨outcome, houtcome,
    Option.bind_eq_some_iff.2 ⟨noon, hnoon, rfl⟩⟩⟩

/-- A log of one record. -/
def log : PlanLog := ({} : PlanLog).append (record "a")

/-- The records of its files. -/
def held (name : String) : List PlanRecord :=
  [record "a"].filter (PlanLog.fileName · = name)

theorem holds_log : log.Holds held where
  content_eq _ := PlanLog.content_appends {} [record "a"] _
  readable _ x hx := by
    rw [List.mem_singleton.1 (List.mem_filter.1 hx).1]
    exact readable_record "a"

/-- A cut inside the name of a vault makes the whole log unreadable. -/
theorem cut_inside_character : log.Holds held ∧ (record "é").Readable ∧
    (∀ x ∈ [record "b"], x.Readable) ∧
    ∃ n < (record "é").line.length, Bytes.toText? ((record "é").line.take n) = none ∧
      (log.crashed (record "é") n [record "b"]).loadAll = .error .notText := by
  have hafter : ∀ x ∈ [record "b"], x.Readable := by
    simpa using readable_record "b"
  have hvault : 'é' ∈ (record "é").chars :=
    PlanRecord.mem_chars_of_mem_vault (by decide) (by decide)
  obtain ⟨n, hn, htext⟩ := PlanRecord.exists_cut hvault (by decide)
  exact ⟨holds_log, readable_record "é", hafter, n, hn, htext,
    (PlanLog.records_survive_crash_iff log held holds_log (record "é") (readable_record "é") n hn
      [record "b"] hafter).1 htext⟩

/-- A record that is appended behind the first byte of a line is not loaded. -/
theorem next_record_is_lost : (record "a").Readable ∧ 1 < (record "a").line.length ∧
    (({} : PlanLog).crashed (record "a") 1 [record "a"]).loadAll = .ok [] := by
  have hr := readable_record "a"
  obtain ⟨p, hp⟩ := Json.exists_braces _
  have hchars : (record "a").chars = ['{'] ++ (p ++ ['}'] ++ ['\n']) := by
    rw [PlanRecord.chars, PlanRecord.document, hp]
    rfl
  have hline := PlanRecord.line_of_append hchars
  have hrest : (Bytes.ofText (String.ofList (p ++ ['}'] ++ ['\n']))).length ≠ 0 := fun hzero =>
    List.append_ne_nil_of_right_ne_nil _ (List.cons_ne_nil _ _) (Bytes.length_ofText_ofList.1 hzero)
  have hbrace : (Bytes.ofText (String.ofList ['{'])).length = 1 := rfl
  have hn : 1 < (record "a").line.length := by
    rw [hline, List.length_append, hbrace]
    omega
  have htext : (Bytes.toText? ((record "a").line.take 1)).isSome := by
    rw [hline, List.take_left' hbrace, Bytes.toText?_ofText]
    rfl
  have hempty : ({} : PlanLog).Holds fun _ => [] :=
    ⟨fun _ => rfl, fun _ _ hx => absurd hx List.not_mem_nil⟩
  have hrecovered : PlanLog.recovered (record "a") 1 [record "a"] = [] := by
    simp [PlanLog.recovered, PlanLog.resumed]
  obtain ⟨loaded, hload, hperm⟩ := PlanLog.loadAll_crashed hempty hr hn
    (fun x hx => List.mem_singleton.1 hx ▸ hr) htext
  rw [hrecovered] at hperm
  refine ⟨hr, hn, hload.trans (congrArg Except.ok ?_)⟩
  exact hperm.eq_nil

end SimulatedRun

end VaultKeeper
