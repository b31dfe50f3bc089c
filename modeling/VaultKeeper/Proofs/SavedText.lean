import VaultKeeper.Proofs.ContentIdentity
import VaultKeeper.Proofs.InstantText
import VaultKeeper.SavedState

/-! # Saved states are read back

Identifiers and digests are read back from their digits, and the parts of a saved state from their
documents. Strategies are saved with their names, which are computed again when they are read. So a
saved state of the current version is read back from the bytes of its file. -/

namespace VaultKeeper

open Document

/-! ## Digits -/

namespace Hex

theorem length_ofBytes (b : Bytes) : (ofBytes b).length = 2 * b.length := by
  induction b with
  | nil => rfl
  | cons x r ih =>
    rw [ofBytes, List.length_cons, List.length_cons, ih, List.length_cons]
    omega

/-- A hyphen is no digit. -/
theorem hyphen_not_mem_ofBytes (b : Bytes) : '-' ∉ ofBytes b := by
  have hdigit : ∀ n < 16, '-' ≠ digit n := by decide
  induction b with
  | nil => exact List.not_mem_nil
  | cons x r ih =>
    have hx := x.toNat_lt
    rw [ofBytes, List.mem_cons, List.mem_cons, not_or, not_or]
    exact ⟨hdigit _ (by omega), hdigit _ (by omega), ih⟩

end Hex

/-- The bytes of a digest are read back. -/
theorem Digest.ofBytes?_toBytes (d : Digest) : ofBytes? d.toBytes = some d := by
  have hlength : d.toBytes.length = 32 := Bytes.length_bigEndian 32 d.toNat
  have hnumber : d.toBytes.toNat = d.toNat := by
    rw [toBytes, Bytes.toNat_bigEndian]
    exact Nat.mod_eq_of_lt d.lt_bound
  rw [ofBytes?, if_pos hlength, hnumber]
  exact congrArg some (toNat_inj.1 (Nat.mod_eq_of_lt d.lt_bound))

/-- A digest is read back. -/
theorem Digest.read?_document (d : Digest) : read? d.document = some d := by
  change (Hex.toBytes? (Hex.stripMark d.text.toList)).bind ofBytes? = some d
  rw [text, String.toList_ofList]
  change (Hex.toBytes? (Hex.ofBytes d.toBytes)).bind ofBytes? = some d
  rw [Hex.toBytes?_ofBytes, Option.bind_some, ofBytes?_toBytes]

namespace BatchId

/-- The groups of 32 digits. -/
theorem length_group {ds : List Char} (h : ds.length = 32) : (group ds).length = 36 := by
  simp [group, h]

/-- The digits of a group are its characters without the hyphens. -/
theorem filter_group {ds : List Char} (h : '-' ∉ ds) : (group ds).filter (· ≠ '-') = ds := by
  have hdigits : ∀ cs : List Char, cs ⊆ ds → cs.filter (· ≠ '-') = cs := by
    intro cs hcs
    refine List.filter_eq_self.2 fun c hc => decide_eq_true ?_
    rintro rfl
    exact h (hcs hc)
  have hmid : ∀ m n, (ds.drop m).take n ⊆ ds := fun _ _ _ hc =>
    List.mem_of_mem_drop (List.mem_of_mem_take hc)
  have hsplit : ∀ m n, (ds.drop m).take n ++ ds.drop (m + n) = ds.drop m := by
    intro m n
    rw [← List.drop_drop, List.take_append_drop]
  simp only [group, List.filter_append, List.filter_cons,
    hdigits _ (List.take_subset 8 ds), hdigits _ (hmid _ _), hdigits _ (List.drop_subset 20 ds)]
  simp only [ne_eq, not_true_eq_false, decide_false, Bool.false_eq_true, if_false,
    List.append_assoc, hsplit]
  exact List.take_append_drop 8 ds

/-- **An identifier is read back from its text.** -/
theorem ofText?_text (b : BatchId) : ofText? b.text = some b := by
  have hlength : b.digits.length = 32 := by
    rw [digits, Hex.length_ofBytes, Bytes.length_bigEndian]
  have hgroup := length_group hlength
  have hunwrap : unwrap (group b.digits) = group b.digits := by
    rw [unwrap, hgroup]
    rfl
  have hungroup : ungroup? (group b.digits) = some b.digits := by
    have hdigits : (group b.digits).filter (· ≠ '-') = b.digits :=
      filter_group (Hex.hyphen_not_mem_ofBytes _)
    simp only [ungroup?, hdigits, hlength, and_self, if_true]
  have hnumber : ofNat (Bytes.toNat (Bytes.bigEndian 16 b.toNat)) = b := by
    have hb := Nat.mod_eq_of_lt b.lt_bound
    cases b
    simp only [ofNat, Bytes.toNat_bigEndian, BatchId.mk.injEq] at hb ⊢
    omega
  have hlong : ¬(group b.digits).length = 32 := by omega
  have hbytes : Hex.toBytes? b.digits = some (Bytes.bigEndian 16 b.toNat) :=
    Hex.toBytes?_ofBytes _
  rw [ofText?, text, String.toList_ofList]
  simp only [if_neg hlong, hunwrap, hungroup, Option.bind_eq_bind, Option.bind_some, hbytes,
    hnumber]
  rfl

/-- An identifier is read back. -/
theorem read?_document (b : BatchId) : read? b.document = some b := by
  rw [document, read?, text?, Option.bind_some, ofText?_text]

end BatchId

/-- An instant of the calendar is read back. -/
theorem Instant.Proper.read?_document {t : Instant} (h : t.Proper) :
    read? t.document = some t := by
  rw [document, read?, text?, Option.bind_some, h.ofText?_text]

/-! ## Parts of a saved state -/

/-- A value that may be absent is read back. -/
theorem Document.option?_option {α : Type} {read : Document → Option α} {write : α → Document}
    (h : ∀ x, read (write x) = some x) (hnull : ∀ x, write x ≠ .null) (o : Option α) :
    option? read (.option write o) = some o := by
  cases o with
  | none => rfl
  | some x =>
    change option? read (write x) = some (some x)
    unfold option?
    split
    case h_1 heq => exact absurd heq (hnull x)
    case h_2 => rw [h, Option.map_some]

namespace VaultState

/-- The state of a vault is read from its fields. -/
theorem read?_record (name active last : Document) :
    read? (.record [("name", name), ("active_strategy", active), ("last_batch", last)]) = do
      return ⟨← text? name, ← option? Digest.read? active, ← option? BatchId.read? last⟩ := rfl

/-- The state of a vault is read back. -/
theorem read?_document (v : VaultState) : read? v.document = some v := by
  have hactive : option? Digest.read? (.option Digest.document v.activeStrategy) =
      some v.activeStrategy :=
    option?_option Digest.read?_document (fun _ => Document.noConfusion) _
  have hlast : option? BatchId.read? (.option BatchId.document v.lastBatch) = some v.lastBatch :=
    option?_option BatchId.read?_document (fun _ => Document.noConfusion) _
  rw [document, read?_record, hactive, hlast]
  rfl

theorem legible (v : VaultState) (depth : Nat) :
    Json.Legible (recordLayout fields) depth v.document := by
  refine ⟨Layout.noConfusion, trivial, ?_, ?_, trivial⟩
  · cases v.activeStrategy <;> exact True.intro
  · cases v.lastBatch <;> exact True.intro

end VaultState

namespace DefaultState

/-- A state that follows the ratings is read from its fields. -/
theorem read?_ratingBased (paused : Bool) (cached : Document) :
    read? (.record [("state", .text "rating_based"), ("paused", .bool paused),
      ("cached", cached)]) = do return .ratingBased paused (← Digest.read? cached) := rfl

/-- The state of a default strategy is read back. -/
theorem read?_document (s : DefaultState) : read? s.document = some s := by
  cases s with
  | unset => rfl
  | ratingBased paused cached =>
    rw [document, read?_ratingBased, Digest.read?_document]
    rfl

/-- It needs no more room than its own fields. -/
theorem legible (s : DefaultState) {depth : Nat} (h : depth < Json.maxDepth) :
    Json.Legible layout depth s.document := by
  cases s with
  | unset => exact ⟨fun _ => h, trivial, trivial⟩
  | ratingBased paused cached => exact ⟨fun _ => h, trivial, trivial, trivial, trivial⟩

end DefaultState

namespace SavedRegistry

/-- An override is read from its fields. -/
theorem readOverride?_record (profile tokens strategy : Document) :
    readOverride? (.record [("profile", profile), ("token_hash", tokens),
      ("strategy", strategy)]) = do
      return ((← text? profile, ← Digest.read? tokens), ← Digest.read? strategy) := rfl

/-- An override is read back. -/
theorem readOverride?_document (e : (String × Digest) × Digest) :
    readOverride? (overrideDocument e) = some e := by
  rw [overrideDocument, readOverride?_record, Digest.read?_document, Digest.read?_document]
  rfl

/-- A default strategy is read from its fields. -/
theorem readDefault?_record (profile tokens state : Document) :
    readDefault? (.record [("profile", profile), ("token_hash", tokens), ("state", state)]) = do
      return ((← text? profile, ← Digest.read? tokens), ← DefaultState.read? state) := rfl

/-- A default strategy is read back. -/
theorem readDefault?_document (e : (String × Digest) × DefaultState) :
    readDefault? (defaultDocument e) = some e := by
  rw [defaultDocument, readDefault?_record, Digest.read?_document, DefaultState.read?_document]
  rfl

/-- The saved part of a registry is read from its fields. -/
theorem read?_record (strategies overrides defaults : Document) :
    read? (.record [("strategies", strategies), ("overrides", overrides),
      ("defaults", defaults)]) = do
      return ⟨← list? Strategy.read? strategies, ← list? readOverride? overrides,
        ← list? readDefault? defaults⟩ := rfl

/-- **The saved part of a registry is read back.** -/
theorem read?_document (s : SavedRegistry) : read? s.document = some s := by
  have hstrategies : list? Strategy.read? (.array Strategy.document s.strategies) =
      some s.strategies :=
    list?_array (fun s => s.read?_documentAs s.hash.document) _
  rw [document, read?_record, hstrategies, list?_array readOverride?_document,
    list?_array readDefault?_document]
  rfl

theorem legible (s : SavedRegistry) : Json.Legible (recordLayout fields) 1 s.document := by
  have hstrategies : Json.Legible (listLayout Strategy.fields) 2
      (.array Strategy.document s.strategies) :=
    Json.legible_array fun s _ => s.legible_documentAs trivial
  have hoverrides : Json.Legible (listLayout overrideFields) 2
      (.array overrideDocument s.overrides) :=
    Json.legible_array fun _ _ => ⟨Layout.noConfusion, trivial, trivial, trivial, trivial⟩
  have hdefaults : Json.Legible (listLayout defaultFields) 2
      (.array defaultDocument s.defaults) :=
    Json.legible_array fun e _ =>
      ⟨Layout.noConfusion, trivial, trivial, e.2.legible (by decide), trivial⟩
  exact ⟨Layout.noConfusion, hstrategies, hoverrides, hdefaults, trivial⟩

end SavedRegistry

namespace SavedState

/-- **A state of the current version**, saved at some time of the calendar. -/
structure Current (s : SavedState) : Prop where
  /-- The version. -/
  version : s.version = currentVersion
  /-- The time. -/
  savedAt : s.savedAt.Proper

/-- A saved state is read from its fields. -/
theorem read?_record (version savedAt registry vaults : Document) :
    read? (.record [("version", version), ("saved_at", savedAt), ("registry", registry),
      ("vaults", vaults)]) = do
      return ⟨← nat? 32 version, ← Instant.read? savedAt, ← SavedRegistry.read? registry,
        ← list? VaultState.read? vaults⟩ := rfl

variable {s : SavedState}

/-- A saved state is read back from its document. -/
theorem Current.read?_document (h : s.Current) : read? s.document = some s := by
  have hversion : nat? 32 (.nat s.version) = some s.version := by
    rw [h.version]
    rfl
  rw [document, read?_record, hversion, h.savedAt.read?_document, SavedRegistry.read?_document,
    list?_array VaultState.read?_document]
  rfl

theorem Current.legible (h : s.Current) : Json.Legible (recordLayout fields) 0 s.document := by
  have hversion : s.version < 2 ^ 64 := by
    rw [h.version]
    decide
  have hvaults : Json.Legible (listLayout VaultState.fields) 1
      (.array VaultState.document s.vaults) :=
    Json.legible_array fun v _ => v.legible _
  exact ⟨Layout.noConfusion, Json.legible_nat hversion _ _, trivial, s.registry.legible, hvaults,
    trivial⟩

/-- **A saved state is read back from the bytes of its file.** -/
theorem Current.parse_bytes (h : s.Current) : StateFile.parse s.bytes = .ok s := by
  have hread : ofText? (Json.writeIndented s.document) = some s := by
    rw [ofText?, Json.read?_writeIndented h.legible, Option.bind_some, h.read?_document]
  rw [StateFile.parse, bytes, Bytes.toText?_ofText]
  simp only [hread]
  exact if_pos h.version

end SavedState

end VaultKeeper
