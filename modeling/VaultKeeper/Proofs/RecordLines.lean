import VaultKeeper.PlanLog
import VaultKeeper.Proofs.JsonRoundTrip

/-! # Lines of records

A record of the plan log that is read back from its document is read back from its line, and a file
that is made of the lines of such records holds these records, in order. The line of a record is one
line: a line feed in one of its texts is escaped. -/

namespace VaultKeeper

open Document

/-! ## Lines -/

namespace PlanLog

/-- A line goes on up to a line feed. -/
theorem lines_append {w : List Char} (hw : '\n' ∉ w) (reversed rest : List Char) :
    lines reversed (w ++ rest) = lines (w.reverse ++ reversed) rest := by
  induction w generalizing reversed with
  | nil => rfl
  | cons c w ih =>
    rw [List.mem_cons, not_or] at hw
    have hc : lines reversed (c :: (w ++ rest)) = lines (c :: reversed) (w ++ rest) := by
      rw [lines]
      exact fun h => hw.1 h.symm
    rw [List.cons_append, hc, ih hw.2, List.reverse_cons, List.append_assoc, List.singleton_append]

/-- A line that does not end in a carriage return. -/
theorem lines_line {w : List Char} {c : Char} (hw : '\n' ∉ w ++ [c]) (hc : c ≠ '\r')
    (rest : List Char) :
    lines [] (w ++ [c] ++ '\n' :: rest) = String.ofList (w ++ [c]) :: lines [] rest := by
  rw [lines_append hw, List.append_nil, List.reverse_append, List.reverse_singleton,
    List.singleton_append, lines]
  · rw [List.reverse_cons, List.reverse_reverse]
  · intro cs h
    exact hc (List.cons.inj h).1

/-- The last line may end with the text. -/
theorem lines_last {w : List Char} (hw : '\n' ∉ w) (hne : w ≠ []) :
    lines [] w = [String.ofList w] := by
  have hread := lines_append hw [] []
  rw [List.append_nil, List.append_nil] at hread
  rw [hread, lines, List.reverse_reverse]
  exact fun h => hne (List.reverse_eq_nil_iff.1 h)

end PlanLog

/-! ## Text on one line -/

namespace Json

mutual

/-- What is read back somewhere is read back where anything may stand. -/
theorem Legible.free {l : Layout} {depth depth' : Nat} :
    (d : Document) → Legible l depth d → Legible .free depth' d
  | .null, _ | .bool _, _ | .text _, _ => trivial
  | .int _, h => h
  | .float _, h | .unreadable, h => h.elim
  | .list ds, h => ⟨fun _ => Layout.noConfusion, Layout.noConfusion, LegibleItems.free ds h.2.2⟩
  | .record fs, h => ⟨Layout.noConfusion, LegibleFields.free fs h.2⟩

theorem LegibleItems.free {l : Layout} {depth depth' index index' : Nat} :
    (ds : List Document) → LegibleItems l depth index ds → LegibleItems .free depth' index' ds
  | [], _ => trivial
  | d :: ds, h => ⟨Legible.free d h.1, LegibleItems.free ds h.2⟩

theorem LegibleFields.free {l : Layout} {depth depth' : Nat} :
    (fs : List (String × Document)) → LegibleFields l depth fs → LegibleFields .free depth' fs
  | [], _ => trivial
  | (_, d) :: fs, h => ⟨Legible.free d h.1, LegibleFields.free fs h.2⟩

end

/-- A line feed is escaped. -/
theorem not_mem_quote (s : String) : '\n' ∉ quote s := by
  have hprintable : ∀ {c : Char}, 32 ≤ c.toNat → '\n' ≠ c := by
    rintro c hc rfl
    exact absurd hc (by decide)
  have hescape : ∀ c, '\n' ∉ escapeChar c := by
    intro c
    have h := escaped_escapeChar c
    generalize escapeChar c = cs at h
    cases h with
    | plain hquote hslash hbound => exact fun hc => hprintable hbound (List.mem_singleton.1 hc)
    | @short e hmark hletter =>
      have he : '\n' ≠ e := by
        rintro rfl
        cases hletter
      simp [he]
    | coded hbound =>
      have hdigit : ∀ n, '\n' ≠ Hex.digit (n % 16) := fun n =>
        hprintable (isDigit_digit (Nat.mod_lt n (by decide))).1
      simp [hex4, hdigit]
  simp [quote, escape, hescape]

mutual

/-- The compact form is one line. -/
theorem not_mem_chars {l : Layout} {depth : Nat} (level : Nat) :
    (d : Document) → Legible l depth d → '\n' ∉ chars false level d
  | .null, _ => (by decide : '\n' ∉ ['n', 'u', 'l', 'l'])
  | .bool false, _ => (by decide : '\n' ∉ ['f', 'a', 'l', 's', 'e'])
  | .bool true, _ => (by decide : '\n' ∉ ['t', 'r', 'u', 'e'])
  | .text s, _ => not_mem_quote s
  | .int n, h => by
    obtain ⟨m, rfl⟩ := Int.eq_ofNat_of_zero_le h.1
    have hchars : chars false level (.int m) = Nat.toDigits 10 m := Nat.toList_repr
    rw [hchars]
    intro hline
    exact absurd (Nat.isDigit_of_mem_toDigits (by decide) (by decide) hline) (by decide)
  | .float _, h | .unreadable, h => h.elim
  | .list [], _ => (by decide : '\n' ∉ ['[', ']'])
  | .list (d :: ds), h => by
    have hfirst := not_mem_chars (level + 1) d h.2.2.1
    have hrest := not_mem_charsItems (level + 1) ds h.2.2.2
    simp [chars, lineBreak, hfirst, hrest]
  | .record [], _ => (by decide : '\n' ∉ ['{', '}'])
  | .record ((name, d) :: fs), h => by
    have hfirst := not_mem_chars (level + 1) d h.2.1
    have hrest := not_mem_charsFields (level + 1) fs h.2.2
    simp [chars, lineBreak, separator, not_mem_quote, hfirst, hrest]

theorem not_mem_charsItems {l : Layout} {depth index : Nat} (level : Nat) :
    (ds : List Document) → LegibleItems l depth index ds → '\n' ∉ charsItems false level ds
  | [], _ => List.not_mem_nil
  | d :: ds, h => by
    have hfirst := not_mem_chars level d h.1
    have hrest := not_mem_charsItems level ds h.2
    simp [charsItems, lineBreak, hfirst, hrest]

theorem not_mem_charsFields {l : Layout} {depth : Nat} (level : Nat) :
    (fs : List (String × Document)) → LegibleFields l depth fs → '\n' ∉ charsFields false level fs
  | [], _ => List.not_mem_nil
  | (name, d) :: fs, h => by
    have hfirst := not_mem_chars level d h.1
    have hrest := not_mem_charsFields level fs h.2
    simp [charsFields, lineBreak, separator, not_mem_quote, hfirst, hrest]

end

/-- A record stands between braces. -/
theorem exists_braces (fs : List (String × Document)) :
    ∃ p, chars false 0 (.record fs) = '{' :: (p ++ ['}']) := by
  cases fs with
  | nil => exact ⟨[], rfl⟩
  | cons f fs =>
    refine ⟨quote f.1 ++ separator false ++ chars false 1 f.2 ++ charsFields false 1 fs, ?_⟩
    simp [chars, lineBreak]

end Json

/-! ## Records that are read back -/

/-- The items of a list that is read back are read back. -/
theorem Document.list?_array_eq_some {α : Type} {read : Document → Option α} {write : α → Document}
    {xs : List α} (h : list? read (array write xs) = some xs) :
    ∀ x ∈ xs, read (write x) = some x := by
  change (xs.map write).mapM read = some xs at h
  induction xs with
  | nil => exact fun _ hx => nomatch hx
  | cons x xs ih =>
    rw [List.map_cons, List.mapM_cons] at h
    obtain ⟨y, hy, hrest⟩ := Option.bind_eq_some_iff.1 h
    obtain ⟨ys, hys, hcons⟩ := Option.bind_eq_some_iff.1 hrest
    cases hcons
    exact List.forall_mem_cons.2 ⟨hy, ih hys⟩

/-- A number of 64 bits. -/
theorem Document.nat?_eq_some {n m : Nat} (h : nat? 64 (.nat n) = some m) : n < 2 ^ 64 := by
  change (if n < 2 ^ 64 then some n else none) = some m at h
  split at h
  · assumption
  · cases h

/-- A group is read from its fields. -/
theorem Group.read?_record (stepIndex pool kind instructions : Document) :
    read? (.record [("step_index", stepIndex), ("pool", pool), ("kind", kind),
      ("instructions", instructions)]) = do
      return ⟨← nat? 64 stepIndex, ← Address.read? pool,
        ← oneOf? .json GroupKind.all GroupKind.text kind,
        ← list? Instruction.read? instructions⟩ := rfl

/-- A plan is read from its fields. -/
theorem Plan.read?_record (strategy operation groups : Document) :
    read? (.record [("strategy", strategy), ("operation", operation), ("groups", groups)]) = do
      return ⟨← Digest.read? strategy, ← oneOf? .json Operation.all Operation.text operation,
        ← list? Group.read? groups⟩ := rfl

/-- A batch is read from its fields. -/
theorem Batch.read?_record (id vault plan submittedAt : Document) :
    read? (.record [("id", id), ("vault", vault), ("plan", plan), ("submitted_at", submittedAt)]) =
      do return ⟨← BatchId.read? id, ← text? vault, ← Plan.read? plan,
        ← Instant.read? submittedAt⟩ := rfl

/-- An outcome is read from its fields. -/
theorem Outcome.read?_record (batchId status instructions reason : Document) :
    read? (.record [("batch_id", batchId), ("status", status), ("instructions", instructions),
      ("reason", reason)]) = do
      return ⟨← BatchId.read? batchId,
        ← oneOf? .json ExecutionStatus.all ExecutionStatus.text status, ← nat? 64 instructions,
        ← option? text? reason⟩ := rfl

/-- A record is read from its fields. -/
theorem PlanRecord.read?_record (batch outcome recordedAt : Document) :
    read? (.record [("batch", batch), ("outcome", outcome), ("recorded_at", recordedAt)]) = do
      return ⟨← Batch.read? batch, ← Outcome.read? outcome, ← Instant.read? recordedAt⟩ := rfl

/-- A group that is read back has an index of 64 bits. -/
theorem Group.stepIndex_lt {g : Group} (h : read? g.document = some g) : g.stepIndex < 2 ^ 64 := by
  rw [document, read?_record] at h
  obtain ⟨n, hn, -⟩ := Option.bind_eq_some_iff.1 h
  exact nat?_eq_some hn

/-- So have the groups of a plan. -/
theorem Plan.stepIndex_lt {p : Plan} (h : read? p.document = some p) :
    ∀ g ∈ p.groups, g.stepIndex < 2 ^ 64 := by
  rw [document, read?_record] at h
  obtain ⟨strategy, -, h⟩ := Option.bind_eq_some_iff.1 h
  obtain ⟨operation, -, h⟩ := Option.bind_eq_some_iff.1 h
  obtain ⟨groups, hgroups, h⟩ := Option.bind_eq_some_iff.1 h
  cases h
  exact fun g hg => Group.stepIndex_lt (list?_array_eq_some hgroups g hg)

/-- And those of a batch. -/
theorem Batch.stepIndex_lt {b : Batch} (h : read? b.document = some b) :
    ∀ g ∈ b.plan.groups, g.stepIndex < 2 ^ 64 := by
  rw [document, read?_record] at h
  obtain ⟨id, -, h⟩ := Option.bind_eq_some_iff.1 h
  obtain ⟨vault, -, h⟩ := Option.bind_eq_some_iff.1 h
  obtain ⟨plan, hplan, h⟩ := Option.bind_eq_some_iff.1 h
  obtain ⟨submittedAt, -, h⟩ := Option.bind_eq_some_iff.1 h
  cases h
  exact Plan.stepIndex_lt hplan

/-- An outcome that is read back has a number of 64 bits. -/
theorem Outcome.instructions_lt {o : Outcome} (h : read? o.document = some o) :
    o.instructions < 2 ^ 64 := by
  rw [document, read?_record] at h
  obtain ⟨batchId, -, h⟩ := Option.bind_eq_some_iff.1 h
  obtain ⟨status, -, h⟩ := Option.bind_eq_some_iff.1 h
  obtain ⟨instructions, hn, -⟩ := Option.bind_eq_some_iff.1 h
  exact nat?_eq_some hn

namespace PlanRecord

variable {r : PlanRecord}

/-- A record is read back from its document. -/
def Readable (r : PlanRecord) : Prop := read? r.document = some r

/-- The numbers of a record have 64 bits. -/
structure Counted (r : PlanRecord) : Prop where
  /-- The number of instructions. -/
  instructions : r.outcome.instructions < 2 ^ 64
  /-- The steps that groups belong to. -/
  stepIndex : ∀ g ∈ r.batch.plan.groups, g.stepIndex < 2 ^ 64

/-- A record that is read back has numbers of 64 bits. -/
theorem Readable.counted (h : r.Readable) : r.Counted := by
  rw [Readable, document, read?_record] at h
  obtain ⟨batch, hbatch, h⟩ := Option.bind_eq_some_iff.1 h
  obtain ⟨outcome, houtcome, h⟩ := Option.bind_eq_some_iff.1 h
  obtain ⟨recordedAt, -, h⟩ := Option.bind_eq_some_iff.1 h
  cases h
  exact ⟨Outcome.instructions_lt houtcome, Batch.stepIndex_lt hbatch⟩

end PlanRecord

/-- An instruction is legible. -/
theorem Instruction.legible (i : Instruction) (depth : Nat) :
    Json.Legible (recordLayout fields) depth i.document :=
  ⟨Layout.noConfusion, trivial, trivial, trivial, trivial, trivial⟩

/-- A group with an index of 64 bits is legible. -/
theorem Group.legible {g : Group} (h : g.stepIndex < 2 ^ 64) (depth : Nat) :
    Json.Legible (recordLayout fields) depth g.document := by
  have hinstructions : Json.Legible (listLayout Instruction.fields) (depth + 1)
      (.array Instruction.document g.instructions) :=
    Json.legible_array fun i _ => i.legible _
  exact ⟨Layout.noConfusion, Json.legible_nat h _ _, trivial, trivial, hinstructions, trivial⟩

namespace PlanRecord

variable {r : PlanRecord}

/-- A record with numbers of 64 bits is legible. -/
theorem Counted.legible (h : r.Counted) : Json.Legible (recordLayout fields) 0 r.document := by
  have hgroups : Json.Legible (listLayout Group.fields) 3
      (.array Group.document r.batch.plan.groups) :=
    Json.legible_array fun g hg => Group.legible (h.stepIndex g hg) _
  have hplan : Json.Legible Plan.layout 2 r.batch.plan.document :=
    ⟨Layout.noConfusion, trivial, trivial, hgroups, trivial⟩
  have hbatch : Json.Legible (recordLayout Batch.fields) 1 r.batch.document :=
    ⟨Layout.noConfusion, trivial, trivial, hplan, trivial, trivial⟩
  have hinstructions : Json.Legible .free 2 (.nat r.outcome.instructions) :=
    Json.legible_nat h.instructions _ _
  have hreason : Json.Legible .free 2 (.option .text r.outcome.reason) := by
    cases r.outcome.reason <;> exact True.intro
  have houtcome : Json.Legible .free 1 r.outcome.document :=
    ⟨Layout.noConfusion, trivial, trivial, hinstructions, hreason, trivial⟩
  exact ⟨Layout.noConfusion, hbatch, houtcome, trivial, trivial⟩

end PlanRecord

/-! ## Files of records -/

theorem Bytes.ofText_append (s t : String) : ofText (s ++ t) = ofText s ++ ofText t := by
  simp [ofText]

namespace PlanRecord

variable {r : PlanRecord}

/-- The characters of the line of a record. -/
def chars (r : PlanRecord) : List Char := Json.chars false 0 r.document ++ ['\n']

theorem line_eq (r : PlanRecord) : r.line = Bytes.ofText (String.ofList r.chars) := by
  rw [chars, String.ofList_append, Bytes.ofText_append]
  rfl

theorem flatMap_line (rs : List PlanRecord) :
    rs.flatMap line = Bytes.ofText (String.ofList (rs.flatMap chars)) := by
  induction rs with
  | nil => rfl
  | cons r rs ih =>
    rw [List.flatMap_cons, List.flatMap_cons, ih, line_eq, ← Bytes.ofText_append,
      ← String.ofList_append]

/-- The text of a record is one line. -/
theorem Counted.not_mem_chars (h : r.Counted) : '\n' ∉ Json.chars false 0 r.document :=
  Json.not_mem_chars 0 _ h.legible

/-- **A record is read back from its line.** -/
theorem Readable.ofLine? (h : r.Readable) :
    PlanRecord.ofLine? (String.ofList (Json.chars false 0 r.document)) = some r := by
  have hread : Json.read? (recordLayout fields) (Json.write r.document) = some r.document :=
    Json.read?_write h.counted.legible
  rw [PlanRecord.ofLine?, ← Json.write, hread, Option.bind_some]
  exact h

end PlanRecord

namespace PlanLog

variable {rs : List PlanRecord}

/-- The records of a text that starts with a line in which there is a brace. -/
theorem recordsOf_eq {w : List Char} {cs : List Char} {text : List Char} (hbrace : '{' ∈ w)
    (hlines : lines [] text = String.ofList w :: lines [] cs) :
    recordsOf (String.ofList text) =
      (PlanRecord.ofLine? (String.ofList w)).toList ++ recordsOf (String.ofList cs) := by
  have hblank : (String.ofList w).toList.all isBlank = false := by
    rw [String.toList_ofList, List.all_eq_false]
    exact ⟨'{', hbrace, by decide⟩
  rw [recordsOf, recordsOf, String.toList_ofList, String.toList_ofList, hlines, List.filter_cons,
    hblank, Bool.not_false, if_pos rfl, List.filterMap_cons]
  cases PlanRecord.ofLine? (String.ofList w) <;> rfl

/-- A line in braces, and what follows it. -/
theorem recordsOf_line {p : List Char} (hp : '\n' ∉ '{' :: (p ++ ['}'])) (cs : List Char) :
    recordsOf (String.ofList ('{' :: (p ++ ['}']) ++ '\n' :: cs)) =
      (PlanRecord.ofLine? (String.ofList ('{' :: (p ++ ['}'])))).toList ++
        recordsOf (String.ofList cs) :=
  recordsOf_eq List.mem_cons_self (lines_line (w := '{' :: p) hp (by decide) cs)

/-- **Whole lines are read as their records**, whatever follows them. -/
theorem recordsOf_lines (h : ∀ r ∈ rs, r.Readable) (cs : List Char) :
    recordsOf (String.ofList (rs.flatMap PlanRecord.chars ++ cs)) =
      rs ++ recordsOf (String.ofList cs) := by
  induction rs with
  | nil => rfl
  | cons r rs ih =>
    rw [List.forall_mem_cons] at h
    obtain ⟨p, hp⟩ := Json.exists_braces _
    have hline := h.1.counted.not_mem_chars
    have hread := h.1.ofLine?
    rw [PlanRecord.document, hp] at hline hread
    have hsplit : (r :: rs).flatMap PlanRecord.chars ++ cs =
        '{' :: (p ++ ['}']) ++ '\n' :: (rs.flatMap PlanRecord.chars ++ cs) := by
      rw [List.flatMap_cons, PlanRecord.chars, PlanRecord.document, hp]
      simp
    rw [hsplit, recordsOf_line hline, hread, ih h.2]
    rfl

/-- Whole lines are read as their records. -/
theorem recordsOf_flatMap (h : ∀ r ∈ rs, r.Readable) :
    recordsOf (String.ofList (rs.flatMap PlanRecord.chars)) = rs := by
  have hread := recordsOf_lines h []
  rw [List.append_nil] at hread
  rw [hread]
  exact List.append_nil rs

/-- **A file of whole lines** holds their records. -/
theorem fileRecords_lines (h : ∀ r ∈ rs, r.Readable) :
    fileRecords (rs.flatMap PlanRecord.line) = .ok rs := by
  rw [fileRecords, PlanRecord.flatMap_line, Bytes.toText?_ofText]
  exact congrArg Except.ok (recordsOf_flatMap h)

end PlanLog

end VaultKeeper
