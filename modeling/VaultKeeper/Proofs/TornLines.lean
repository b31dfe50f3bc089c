import VaultKeeper.Proofs.GluedText
import VaultKeeper.Proofs.RecordLines

/-! # Lines that were torn

A file of the plan log is text, and its records are among its lines. A line that was left off after
some bytes makes the whole file unreadable inside a character. Between characters it swallows the
record that is appended behind it, since the two make one line that is no record. -/

namespace VaultKeeper

open Document

/-! ## Text as bytes -/

namespace Bytes

/-- Bytes are the text whose bytes they are. -/
theorem toText?_eq_some_iff {b : Bytes} {s : String} : toText? b = some s ↔ b = ofText s := by
  constructor
  · intro h
    rw [toText?, String.fromUTF8?] at h
    split at h
    · cases h
      rfl
    · cases h
  · rintro rfl
    exact toText?_ofText s

theorem ofText_inj {s t : String} (h : ofText s = ofText t) : s = t := by
  rwa [← toText?_eq_some_iff, toText?_ofText, Option.some_inj] at h

/-- Text of no bytes has no characters. -/
theorem length_ofText_ofList {cs : List Char} :
    (ofText (String.ofList cs)).length = 0 ↔ cs = [] := by
  rw [List.length_eq_zero_iff]
  constructor
  · intro h
    have hempty : String.ofList cs = String.ofList [] := ofText_inj h
    rw [← String.toList_inj, String.toList_ofList, String.toList_ofList] at hempty
    exact hempty
  · rintro rfl
    rfl

/-- Bytes in front of which there is text are text when the rest is. -/
theorem toText?_append_left (s : String) (b : Bytes) :
    toText? (ofText s ++ b) = (toText? b).map (s ++ ·) := by
  refine Option.ext fun u => ?_
  rw [toText?_eq_some_iff, Option.map_eq_some_iff]
  constructor
  · intro h
    have hbytes : s.toList.utf8Encode ++ ⟨b.toArray⟩ = u.toList.utf8Encode := by
      rw [String.utf8Encode_toList, String.utf8Encode_toList]
      refine ByteArray.ext (Array.toList_inj.1 ?_)
      simpa [ofText] using h
    obtain ⟨cs, hcs⟩ := List.isPrefix_of_utf8Encode_append_eq_utf8Encode _ hbytes
    have hu : u = s ++ String.ofList cs := by
      rw [← String.toList_inj, String.toList_append, String.toList_ofList, hcs]
    rw [hu, ofText_append, List.append_cancel_left_eq] at h
    exact ⟨String.ofList cs, toText?_eq_some_iff.2 h, hu.symm⟩
  · rintro ⟨t, ht, rfl⟩
    rw [toText?_eq_some_iff.1 ht, ofText_append]

/-- A part of a character is no text. -/
theorem toText?_take_char {c : Char} {k : Nat} (hk : 0 < k)
    (hlt : k < (ofText (String.ofList [c])).length) :
    toText? ((ofText (String.ofList [c])).take k) = none := by
  refine Option.eq_none_iff_forall_ne_some.2 fun s hs => ?_
  have htake := toText?_eq_some_iff.1 hs
  have hlength : (ofText s).length = k := by
    rw [← htake, List.length_take]
    omega
  -- Otherwise the part would be no character or the whole one.
  have hsplit := toText?_append_left s ((ofText (String.ofList [c])).drop k)
  rw [← htake, List.take_append_drop, toText?_ofText, eq_comm, Option.map_eq_some_iff] at hsplit
  obtain ⟨v, -, hv⟩ := hsplit
  have hchars := congrArg String.toList hv
  rw [String.toList_append, String.toList_ofList] at hchars
  rcases List.append_eq_singleton_iff.1 hchars with ⟨hnil, -⟩ | ⟨hall, -⟩
  · have hzero := length_ofText_ofList.2 hnil
    rw [String.ofList_toList] at hzero
    omega
  · rw [← String.ofList_toList (s := s), hall] at hlength
    omega

/-- The first byte of text is the first one of a character. -/
theorem isUTF8FirstByte_head {x : UInt8} {r : Bytes} {t : String} (h : ofText t = x :: r) :
    x.IsUTF8FirstByte := by
  have hdata : t.toByteArray.data.toList = x :: r := h
  have hsize : 0 < t.toByteArray.size := by
    change 0 < t.toByteArray.data.size
    rw [← Array.length_toList, hdata]
    exact Nat.zero_lt_succ _
  have hfirst := t.isValidUTF8.isUTF8FirstByte_getElem_zero hsize
  have hx : t.toByteArray[0] = x := by
    change t.toByteArray.data[0] = x
    rw [← Array.getElem_toList]
    simp [hdata]
  rwa [hx] at hfirst

/-- What stands in front of a character in a text is text. -/
theorem isValidUTF8_of_append {b r : Bytes} {x : UInt8} {u : String} (h : b ++ x :: r = ofText u)
    (hx : x.IsUTF8FirstByte) : ByteArray.IsValidUTF8 ⟨b.toArray⟩ := by
  have hdata : u.toByteArray.data.toList = b ++ x :: r := h.symm
  have hlt : b.length < u.toByteArray.size := by
    change b.length < u.toByteArray.data.size
    rw [← Array.length_toList, hdata, List.length_append, List.length_cons]
    omega
  have hbyte : u.getUTF8Byte ⟨b.length⟩ hlt = x := by
    change u.toByteArray.data[b.length] = x
    rw [← Array.getElem_toList]
    simp [hdata]
  have hvalid : String.Pos.Raw.IsValid u ⟨b.length⟩ :=
    String.Pos.Raw.isValid_iff_isUTF8FirstByte.2 (.inr ⟨hlt, hbyte.symm ▸ hx⟩)
  have hextract : u.toByteArray.extract 0 b.length = ⟨b.toArray⟩ := by
    refine ByteArray.ext (Array.toList_inj.1 ?_)
    simp [hdata]
  exact hextract ▸ (String.Pos.Raw.isValid_iff_isValidUTF8_extract_zero.1 hvalid).2

/-- Bytes behind which there is text are text when the rest is. -/
theorem toText?_append_right (b : Bytes) (t : String) :
    toText? (b ++ ofText t) = (toText? b).map (· ++ t) := by
  refine Option.ext fun u => ?_
  rw [toText?_eq_some_iff, Option.map_eq_some_iff]
  constructor
  · intro h
    have hb : ∃ s, b = ofText s := by
      cases ht : ofText t with
      | nil =>
        rw [ht, List.append_nil] at h
        exact ⟨u, h⟩
      | cons x r =>
        rw [ht] at h
        exact ⟨.fromUTF8 _ (isValidUTF8_of_append h (isUTF8FirstByte_head ht)), rfl⟩
    obtain ⟨s, rfl⟩ := hb
    rw [← ofText_append] at h
    exact ⟨s, toText?_ofText s, ofText_inj h⟩
  · rintro ⟨s, hs, rfl⟩
    rw [toText?_eq_some_iff.1 hs, ofText_append]

end Bytes

/-! ## A record in the place of a part of another one -/

/-- The names of the fields of a record. -/
def PlanRecord.fieldNames : List String := fields.map (·.name)

/-- No field of a record of the plan log has a place here. -/
inductive Layout.Foreign : Layout → Prop
  | free : Foreign .free
  | bytes (size : Nat) : Foreign (.bytes size)
  | list {l : Layout} (h : Foreign l) : Foreign (.list l)
  | record {fs : List (String × Layout)}
    (hnames : ∀ f ∈ fs, f.1 ∉ PlanRecord.fieldNames) (h : ∀ f ∈ fs, Foreign f.2) :
    Foreign (.record fs)

attribute [simp] Layout.Foreign.free Layout.Foreign.bytes

namespace Layout

/-- A field that is found has one of the layouts of a record. -/
theorem mem_of_lookup_eq_some {fs : List (String × Layout)} {name : String} {l : Layout}
    (h : fs.lookup name = some l) : (name, l) ∈ fs := by
  obtain ⟨before, after, rfl, -⟩ := List.lookup_eq_some_iff.1 h
  exact List.mem_append_right _ List.mem_cons_self

theorem foreign_item {fs : List (String × Layout)} (h : ∀ f ∈ fs, Foreign f.2) (index : Nat) :
    ((record fs).item index).Foreign := by
  rw [item]
  cases hindex : fs[index]? with
  | none => exact .free
  | some f => exact h f (List.mem_of_getElem? hindex)

theorem foreign_field {fs : List (String × Layout)} (h : ∀ f ∈ fs, Foreign f.2) (name : String) :
    ((record fs).field name).Foreign := by
  rw [field]
  cases hname : fs.lookup name with
  | none => exact .free
  | some l => exact h _ (mem_of_lookup_eq_some hname)

theorem foreign_hereditary : Hereditary Foreign where
  free := .free
  item h index := by
    cases h with
    | free | bytes => exact .free
    | list h => exact h
    | record hnames h => exact foreign_item h index
  field h name := by
    cases h with
    | free | bytes | list => exact .free
    | record hnames h => exact foreign_field h name

/-- A record whose fields have other names. -/
theorem foreign_recordLayout {known : List Field}
    (hnames : ∀ f ∈ known, f.name ∉ PlanRecord.fieldNames)
    (h : ∀ f ∈ known, f.layout.Foreign) : (recordLayout known).Foreign :=
  .record (List.forall_mem_map.2 hnames) (List.forall_mem_map.2 h)

/-- Anything may stand in a field of a record of the plan log. -/
theorem Foreign.field_eq {l : Layout} (h : l.Foreign) {name : String}
    (hname : name ∈ PlanRecord.fieldNames) : l.field name = .free := by
  cases h with
  | free | bytes | list => rfl
  | @record fs hnames h =>
    have hlookup : fs.lookup name = none := by
      cases hlookup : fs.lookup name with
      | none => rfl
      | some l => exact absurd hname (hnames _ (mem_of_lookup_eq_some hlookup))
    rw [Layout.field, hlookup]
    rfl

end Layout

namespace PlanRecord

/-- The parts of a record have no place for another one. -/
theorem foreign_fields : ∀ f ∈ fields, f.layout.Foreign := by
  have hinstruction : (recordLayout Instruction.fields).Foreign :=
    Layout.foreign_recordLayout (by decide)
      (by simp [Instruction.fields, Field.always, Address.layout])
  have hgroup : (recordLayout Group.fields).Foreign :=
    Layout.foreign_recordLayout (by decide)
      (by simp [Group.fields, Field.always, Address.layout, listLayout, hinstruction.list])
  have hplan : Plan.layout.Foreign :=
    Layout.foreign_recordLayout (by decide)
      (by simp [Plan.fields, Field.always, Digest.layout, listLayout, hgroup.list])
  have hbatch : (recordLayout Batch.fields).Foreign :=
    Layout.foreign_recordLayout (by decide) (by simp [Batch.fields, Field.always, hplan])
  simp [fields, Field.always, hbatch]

theorem foreign_item (index : Nat) : ((recordLayout fields).item index).Foreign :=
  Layout.foreign_item (by simpa using foreign_fields) index

theorem foreign_field (name : String) : ((recordLayout fields).field name).Foreign :=
  Layout.foreign_field (by simpa using foreign_fields) name

variable {r : PlanRecord}

/-- A record is legible in the place of a part of another one. -/
theorem Counted.legible_foreign (h : r.Counted) {l : Layout} (hl : l.Foreign) (depth : Nat) :
    Json.Legible l depth r.document := by
  obtain ⟨-, hbatch, houtcome, -⟩ := h.legible
  have hentire : l ≠ .entire := by
    rintro rfl
    cases hl
  refine ⟨fun h => absurd h hentire, ?_, ?_, trivial, trivial⟩
  · rw [hl.field_eq (by decide)]
    exact hbatch.free
  · rw [hl.field_eq (by decide)]
    exact houtcome.free

/-- **A record that was left off and is followed by another one** makes no line of a record. -/
theorem Counted.ofLine?_glued (h : r.Counted) (p : List Char) :
    PlanRecord.ofLine? (String.ofList ('{' :: (p ++ Json.chars false 0 r.document))) = none := by
  have hread : Json.read? (recordLayout fields)
      (String.ofList ('{' :: (p ++ Json.chars false 0 r.document))) = none :=
    Json.read?_glued Layout.foreign_hereditary foreign_item foreign_field
      (fun _ hl depth => h.legible_foreign hl depth) p
  rw [PlanRecord.ofLine?, hread]
  rfl

/-- **A line of a record goes on as no other one.** -/
theorem ofLine?_longer {p : List Char} (h : ofLine? (String.ofList ('{' :: p)) ≠ none)
    (q : List Char) : ofLine? (String.ofList ('{' :: (p ++ (q ++ ['}'])))) = none := by
  have hshort : Json.read? (recordLayout fields) (String.ofList ('{' :: p)) ≠ none := by
    intro hnone
    rw [ofLine?, hnone] at h
    exact h rfl
  rw [ofLine?, Json.read?_longer Layout.foreign_hereditary foreign_item foreign_field hshort]
  rfl

end PlanRecord

/-! ## A line that was left off -/

/-- What is written for a field is a part of the record. -/
theorem Json.mem_chars_record {c : Char} {name : String} {d : Document}
    {fs : List (String × Document)} (hd : (name, d) ∈ fs)
    (hc : ∀ level, c ∈ chars false level d) (level : Nat) : c ∈ chars false level (.record fs) := by
  have hrest : ∀ (fs : List (String × Document)) (level : Nat), (name, d) ∈ fs →
      c ∈ charsFields false level fs := by
    intro fs level hd
    induction fs with
    | nil => cases hd
    | cons f fs ih =>
      rw [charsFields]
      rcases List.mem_cons.1 hd with rfl | hd
      · exact List.mem_append_left _ (List.mem_append_right _ (hc level))
      · exact List.mem_append_right _ (ih hd)
  cases fs with
  | nil => cases hd
  | cons f fs =>
    rw [chars]
    refine List.mem_append_left _ (List.mem_append_left _ ?_)
    rcases List.mem_cons.1 hd with rfl | hd
    · exact List.mem_append_left _ (List.mem_append_right _ (hc _))
    · exact List.mem_append_right _ (hrest fs _ hd)

namespace PlanRecord

variable {r : PlanRecord}

/-- A line is written in parts. -/
theorem line_of_append {p q : List Char} (h : r.chars = p ++ q) :
    r.line = Bytes.ofText (String.ofList p) ++ Bytes.ofText (String.ofList q) := by
  rw [line_eq, h, String.ofList_append, Bytes.ofText_append]

/-- A line in which a character takes several bytes can be left off inside the character. -/
theorem exists_cut {c : Char} (hc : c ∈ r.chars)
    (hsize : 1 < (Bytes.ofText (String.ofList [c])).length) :
    ∃ n < r.line.length, Bytes.toText? (r.line.take n) = none := by
  obtain ⟨p, q, hpq⟩ := List.append_of_mem hc
  have hline : r.line = Bytes.ofText (String.ofList p) ++
      (Bytes.ofText (String.ofList [c]) ++ Bytes.ofText (String.ofList q)) := by
    rw [line_of_append hpq, ← List.singleton_append, String.ofList_append, Bytes.ofText_append]
  refine ⟨(Bytes.ofText (String.ofList p)).length + 1, ?_, ?_⟩
  · rw [hline, List.length_append, List.length_append]
    omega
  · rw [hline, List.take_length_add_append, List.take_append_of_le_length hsize.le,
      Bytes.toText?_append_left, Bytes.toText?_take_char Nat.zero_lt_one hsize]
    rfl

/-- The name of the vault is written into the line. -/
theorem mem_chars_of_mem_vault {c : Char} (hc : c ∈ r.batch.vault.toList)
    (hplain : Json.escapeChar c = [c]) : c ∈ r.chars := by
  have hquote : ∀ level, c ∈ Json.chars false level (.text r.batch.vault) := by
    have hescape : c ∈ Json.escape r.batch.vault.toList :=
      List.mem_flatMap.2 ⟨c, hc, hplain ▸ List.mem_singleton_self c⟩
    intro level
    exact List.mem_cons_of_mem _ (List.mem_append_left _ hescape)
  have hbatch : ∀ level, c ∈ Json.chars false level r.batch.document :=
    Json.mem_chars_record (List.mem_cons_of_mem _ List.mem_cons_self) hquote
  exact List.mem_append_left _ (Json.mem_chars_record List.mem_cons_self hbatch 0)

end PlanRecord

namespace PlanLog

variable {r : PlanRecord} {rs : List PlanRecord} {n : Nat} {t : String}

/-- What is left off of a line, when the cut is between characters. -/
theorem exists_rest (hn : n < r.line.length) (ht : Bytes.toText? (r.line.take n) = some t) :
    ∃ q, Json.chars false 0 r.document = t.toList ++ q ∧ (t.toList = [] ↔ n = 0) ∧
      (q = [] ↔ n + 1 = r.line.length) := by
  have htake := Bytes.toText?_eq_some_iff.1 ht
  -- The rest is text, and ends with the line.
  have hline : (Bytes.toText? (r.line.drop n)).map (t ++ ·) = some (String.ofList r.chars) := by
    rw [← Bytes.toText?_append_left, ← htake, List.take_append_drop, PlanRecord.line_eq,
      Bytes.toText?_ofText]
  obtain ⟨v, hv, hchars⟩ := Option.map_eq_some_iff.1 hline
  rw [Bytes.toText?_eq_some_iff] at hv
  have hlength : (r.line.drop n).length = r.line.length - n := List.length_drop
  have hchars := congrArg String.toList hchars
  rw [String.toList_append, String.toList_ofList, PlanRecord.chars] at hchars
  obtain hnil | ⟨q, c, hq⟩ := List.eq_nil_or_concat v.toList
  · have hzero := Bytes.length_ofText_ofList.2 hnil
    rw [String.ofList_toList, ← hv] at hzero
    omega
  rw [List.concat_eq_append] at hq
  rw [hq, ← List.append_assoc] at hchars
  obtain ⟨hbody, hc⟩ := List.append_inj' hchars rfl
  cases hc
  have hrest : (Bytes.ofText (String.ofList q)).length + 1 = r.line.length - n := by
    rw [← hlength, hv, ← String.ofList_toList (s := v), hq, String.ofList_append,
      Bytes.ofText_append, List.length_append]
    rfl
  have htext : (Bytes.ofText (String.ofList t.toList)).length = n := by
    rw [String.ofList_toList, ← htake, List.length_take]
    omega
  refine ⟨q, hbody.symm, ?_, ?_⟩
  · rw [← Bytes.length_ofText_ofList, htext]
  · rw [← Bytes.length_ofText_ofList]
    omega

/-- What was written starts with the brace of its record, and what is left off ends with one. -/
theorem braces_of_append {p q : List Char} (h : Json.chars false 0 r.document = p ++ q) :
    (p ≠ [] → ∃ p', p = '{' :: p') ∧ (q ≠ [] → ∃ q', q = q' ++ ['}']) := by
  obtain ⟨inside, hinside⟩ := Json.exists_braces _
  rw [PlanRecord.document, hinside] at h
  constructor
  · intro hp
    obtain ⟨c, p', rfl⟩ := List.exists_cons_of_ne_nil hp
    rw [List.cons_append] at h
    rw [(List.cons.inj h).1]
    exact ⟨p', rfl⟩
  · intro hq
    obtain ⟨q', c, rfl⟩ := (List.eq_nil_or_concat q).resolve_left hq
    rw [List.concat_eq_append, ← List.append_assoc, ← List.cons_append] at h
    rw [List.concat_eq_append, ← (List.append_inj' h rfl).2]
    exact ⟨q', rfl⟩

/-- A last line that starts with a brace. -/
theorem recordsOf_last {p : List Char} (hp : '\n' ∉ '{' :: p) :
    recordsOf (String.ofList ('{' :: p)) =
      (PlanRecord.ofLine? (String.ofList ('{' :: p))).toList := by
  have hline : lines [] ('{' :: p) = String.ofList ('{' :: p) :: lines [] [] :=
    lines_last hp (List.cons_ne_nil _ _)
  rw [recordsOf_eq List.mem_cons_self hline]
  exact List.append_nil _

/-- **A line that was left off** is no record, unless only its line break is missing. -/
theorem recordsOf_torn (hr : r.Readable) (hn : n < r.line.length)
    (ht : Bytes.toText? (r.line.take n) = some t) (hzero : n ≠ 0) :
    recordsOf t = if n + 1 = r.line.length then [r] else [] := by
  obtain ⟨q, hq, hnil, hwhole⟩ := exists_rest hn ht
  obtain ⟨p, hp⟩ := (braces_of_append hq).1 fun h => hzero (hnil.1 h)
  have hline := hr.counted.not_mem_chars
  have hread := hr.ofLine?
  rw [hq, List.mem_append, not_or, hp] at hline
  rw [hq, hp] at hread
  rw [← String.ofList_toList (s := t), hp, recordsOf_last hline.1]
  by_cases hlast : q = []
  · rw [hlast, List.append_nil] at hread
    rw [hread, if_pos (hwhole.1 hlast)]
    rfl
  · rw [if_neg fun h => hlast (hwhole.2 h)]
    -- The whole line is a record and ends in a brace, so that no shorter one is.
    obtain ⟨q', rfl⟩ := (braces_of_append hq).2 hlast
    have hshort : PlanRecord.ofLine? (String.ofList ('{' :: p)) = none := by
      by_contra hsome
      have hlong := PlanRecord.ofLine?_longer hsome q'
      rw [← List.cons_append, hread] at hlong
      cases hlong
    rw [hshort]
    rfl

/-- **A record that is appended to a line that was left off** is not read. -/
theorem recordsOf_glued (hr : r.Readable) (hn : n < r.line.length)
    (ht : Bytes.toText? (r.line.take n) = some t) (hzero : n ≠ 0) {x : PlanRecord}
    (hx : x.Readable) (cs : List Char) :
    recordsOf (String.ofList (t.toList ++ (x.chars ++ cs))) = recordsOf (String.ofList cs) := by
  obtain ⟨q, hq, hnil, -⟩ := exists_rest hn ht
  obtain ⟨p, hp⟩ := (braces_of_append hq).1 fun h => hzero (hnil.1 h)
  have hline := hr.counted.not_mem_chars
  have hnext := hx.counted.not_mem_chars
  have hread := hx.counted.ofLine?_glued p
  obtain ⟨p', hp'⟩ := Json.exists_braces _
  rw [PlanRecord.document, hp'] at hnext hread
  rw [hq, List.mem_append, not_or, hp] at hline
  have hsplit : t.toList ++ (x.chars ++ cs) =
      '{' :: ((p ++ '{' :: p') ++ ['}']) ++ '\n' :: cs := by
    rw [hp, PlanRecord.chars, PlanRecord.document, hp']
    simp
  have hglued : '\n' ∉ '{' :: ((p ++ '{' :: p') ++ ['}']) := by
    have hwhole : '{' :: ((p ++ '{' :: p') ++ ['}']) = ('{' :: p) ++ '{' :: (p' ++ ['}']) := by simp
    rw [hwhole, List.mem_append, not_or]
    exact ⟨hline.1, hnext⟩
  have hnone : PlanRecord.ofLine? (String.ofList ('{' :: ((p ++ '{' :: p') ++ ['}']))) = none := by
    rw [List.append_assoc]
    exact hread
  rw [hsplit, recordsOf_line hglued, hnone]
  rfl

/-- What is read of a line that was left off and of the records that were appended to it. -/
def resumed (r : PlanRecord) (n : Nat) (xs : List PlanRecord) : List PlanRecord :=
  if n = 0 then xs
  else match xs with
    | [] => if n + 1 = r.line.length then [r] else []
    | _ :: xs => xs

/-- What follows the whole lines. -/
theorem recordsOf_resumed {xs : List PlanRecord} (hr : r.Readable) (hn : n < r.line.length)
    (ht : Bytes.toText? (r.line.take n) = some t) (hxs : ∀ x ∈ xs, x.Readable) :
    recordsOf (String.ofList (t.toList ++ xs.flatMap PlanRecord.chars)) = resumed r n xs := by
  unfold resumed
  split
  case isTrue hzero =>
    obtain ⟨q, -, hnil, -⟩ := exists_rest hn ht
    rw [hnil.2 hzero, List.nil_append, recordsOf_flatMap hxs]
  case isFalse hzero =>
    cases xs with
    | nil =>
      rw [List.flatMap_nil, List.append_nil, String.ofList_toList]
      exact recordsOf_torn hr hn ht hzero
    | cons x xs =>
      rw [List.forall_mem_cons] at hxs
      rw [List.flatMap_cons, recordsOf_glued hr hn ht hzero hxs.1, recordsOf_flatMap hxs.2]

/-- **A file with a line that was left off** is no text when the cut is inside a character.
Otherwise the records before it are read, and those after it but the first one. -/
theorem fileRecords_torn {xs : List PlanRecord} (hrs : ∀ r ∈ rs, r.Readable) (hr : r.Readable)
    (hn : n < r.line.length) (hxs : ∀ x ∈ xs, x.Readable) :
    fileRecords (rs.flatMap PlanRecord.line ++ (r.line.take n ++ xs.flatMap PlanRecord.line)) =
      match Bytes.toText? (r.line.take n) with
      | some _ => .ok (rs ++ resumed r n xs)
      | none => .error .notText := by
  rw [fileRecords, PlanRecord.flatMap_line, PlanRecord.flatMap_line, Bytes.toText?_append_left,
    Bytes.toText?_append_right]
  cases ht : Bytes.toText? (r.line.take n) with
  | none => rfl
  | some t =>
    have htext : String.ofList (rs.flatMap PlanRecord.chars) ++
        (t ++ String.ofList (xs.flatMap PlanRecord.chars)) =
        String.ofList (rs.flatMap PlanRecord.chars ++
          (t.toList ++ xs.flatMap PlanRecord.chars)) := by
      rw [String.ofList_append, String.ofList_append, String.ofList_toList]
    change Except.ok (recordsOf (String.ofList (rs.flatMap PlanRecord.chars) ++
        (t ++ String.ofList (xs.flatMap PlanRecord.chars)))) = .ok (rs ++ resumed r n xs)
    rw [htext, recordsOf_lines hrs, recordsOf_resumed hr hn ht hxs]

end PlanLog

end VaultKeeper
