import VaultKeeper.Document.Registry
import VaultKeeper.Proofs.JsonRoundTrip
import VaultKeeper.Proofs.Moves
import VaultKeeper.Proofs.StrategyIdentity

/-! # Strategies are their content

A strategy is named by the hash of a string that can be read back, and so is a list of tokens. So
equal names mean equal content, or two strings that collide. However a strategy comes about, built
from its parts or read from a text, its name is computed from its content and from nothing else, and
its text is read back as the strategy. -/

namespace VaultKeeper

open Document

/-! ## What is hashed -/

/-- Two byte strings of one hash. -/
structure Digest.Collision (a b : Bytes) : Prop where
  /-- The strings differ. -/
  ne : a ≠ b
  /-- Their hashes do not. -/
  keccak_eq : keccak a = keccak b

/-- Equal hashes mean equal strings or a collision. -/
theorem Digest.keccak_eq_iff {a b : Bytes} : keccak a = keccak b ↔ a = b ∨ Collision a b := by
  constructor
  · intro h
    by_cases heq : a = b
    · exact .inl heq
    · exact .inr ⟨heq, h⟩
  · rintro (rfl | h)
    · rfl
    · exact h.keccak_eq

/-- The addresses of a list of tokens, without anything between them. -/
def packed (tokens : List Address) : Bytes := tokens.flatMap Address.toBytes

/-- **Packed addresses can be told apart**, since each of them takes as many bytes. -/
theorem packed_inj {xs ys : List Address} (h : packed xs = packed ys) : xs = ys := by
  have hcons : ∀ (a : Address) (rest : List Address),
      packed (a :: rest) = a.toBytes ++ packed rest :=
    fun _ _ => List.flatMap_cons
  have hwidth : ∀ a : Address, a.toBytes.length = 20 := fun a => Bytes.length_bigEndian 20 a.toNat
  have hne : ∀ (a : Address) (rest : List Address), packed [] ≠ packed (a :: rest) := by
    intro a rest hnil
    have hlength := congrArg List.length hnil
    rw [hcons, List.length_append, hwidth, packed, List.flatMap_nil, List.length_nil] at hlength
    omega
  induction xs generalizing ys with
  | nil =>
    cases ys with
    | nil => rfl
    | cons y ys => exact absurd h (hne y ys)
  | cons x xs ih =>
    cases ys with
    | nil => exact absurd h.symm (hne x xs)
    | cons y ys =>
      rw [hcons, hcons] at h
      obtain ⟨hfirst, hrest⟩ := List.append_inj h (by rw [hwidth, hwidth])
      rw [Address.toBytes_inj hfirst, ih hrest]

namespace Strategy

/-- The string that is hashed to name a strategy. -/
def encoding (s : Strategy) : Bytes := strategyEncoding s.underlying s.steps

/-- A strategy is its content and its name. -/
theorem encoding_inj {s t : Strategy} :
    s.encoding = t.encoding ↔ s.underlying = t.underlying ∧ s.steps = t.steps := by
  constructor
  · exact strategyEncoding_inj
  · rintro ⟨hunderlying, hsteps⟩
    rw [encoding, encoding, hunderlying, hsteps]

/-- Equal names mean equal content or a collision. -/
theorem hash_eq_iff {s t : Strategy} : s.hash = t.hash ↔
    (s.underlying = t.underlying ∧ s.steps = t.steps) ∨ Digest.Collision s.encoding t.encoding := by
  rw [← encoding_inj, ← Digest.keccak_eq_iff, s.hash_eq, t.hash_eq]
  rfl

end Strategy

/-- Equal names of lists of tokens mean equal lists or a collision. -/
theorem tokenHash_eq_iff {xs ys : List Address} :
    tokenHash xs = tokenHash ys ↔ xs = ys ∨ Digest.Collision (packed xs) (packed ys) := by
  have hpacked : packed xs = packed ys ↔ xs = ys := ⟨packed_inj, fun h => h ▸ rfl⟩
  rw [← hpacked]
  exact Digest.keccak_eq_iff

/-! ## How a strategy comes about -/

namespace Strategy

/-- A strategy has a content that makes one, and the name that follows from it. -/
structure IsOf (s : Strategy) (underlying : Address) (steps : List Step) : Prop where
  /-- There is a first step. -/
  nonempty : steps ≠ []
  /-- The underlying asset is not the zero address. -/
  nonzero : underlying ≠ .zero
  /-- The underlying asset. -/
  underlying : s.underlying = underlying
  /-- The steps. -/
  steps : s.steps = steps
  /-- The name follows from the content. -/
  hash : s.hash = strategyDigest s.underlying s.steps

/-- A strategy has no content but its own. -/
theorem IsOf.eq {s t : Strategy} {underlying : Address} {steps : List Step}
    (hs : s.IsOf underlying steps) (ht : t.IsOf underlying steps) : s = t :=
  eq_of_content (hs.underlying.trans ht.underlying.symm) (hs.steps.trans ht.steps.symm)

/-- **A strategy is made of all content that makes one**, and of nothing else. -/
theorem make_eq_ok_iff {s : Strategy} {underlying : Address} {steps : List Step} :
    make underlying steps = .ok s ↔ s.IsOf underlying steps := by
  constructor
  · intro h
    rw [make] at h
    split at h
    · cases h
    split at h
    · cases h
    · cases h
      exact ⟨‹_›, ‹_›, rfl, rfl, hash_eq _⟩
  · intro h
    rw [make, dif_neg h.nonempty, dif_neg h.nonzero]
    exact congrArg Except.ok (IsOf.eq ⟨h.nonempty, h.nonzero, rfl, rfl, hash_eq _⟩ h)

/-- The strategy that a text spells. -/
def ofText? (text : String) : Option Strategy := (Json.read? layout text).bind read?

/-- The content that a text spells. -/
def contentOfText? (text : String) : Option (Address × List Step) :=
  (Json.read? layout text).bind readContent?

/-- **A text spells a strategy when it spells content that makes one.** -/
theorem ofText?_eq_some_iff {text : String} {s : Strategy} : ofText? text = some s ↔
    ∃ underlying steps, contentOfText? text = some (underlying, steps) ∧
      s.IsOf underlying steps := by
  have hread : ofText? text = (contentOfText? text).bind fun c => (make c.1 c.2).toOption := by
    rw [ofText?, contentOfText?, Option.bind_assoc]
    rfl
  rw [hread, Option.bind_eq_some_iff]
  constructor
  · rintro ⟨⟨underlying, steps⟩, hcontent, hmade⟩
    refine ⟨underlying, steps, hcontent, make_eq_ok_iff.1 ?_⟩
    cases hmake : make underlying steps with
    | error e =>
      rw [hmake] at hmade
      cases hmade
    | ok t =>
      rw [hmake] at hmade
      exact congrArg Except.ok (Option.some.inj hmade)
  · rintro ⟨underlying, steps, hcontent, hs⟩
    refine ⟨(underlying, steps), hcontent, ?_⟩
    rw [make_eq_ok_iff.2 hs]
    rfl

end Strategy

/-! ## Reading what was written -/

/-- Hexadecimal text is read back. -/
theorem Hex.toBytes?_ofBytes (b : Bytes) : toBytes? (ofBytes b) = some b := by
  induction b with
  | nil => rfl
  | cons x r ih =>
    have hx := x.toNat_lt
    rw [ofBytes, toBytes?, Json.digit?_digit (by omega), Json.digit?_digit (by omega), ih]
    have hbyte : UInt8.ofNat (x.toNat / 16 * 16 + x.toNat % 16) = x := by
      rw [Nat.div_add_mod', UInt8.ofNat_toNat]
    exact congrArg (fun y => some (y :: r)) hbyte

/-- The bytes of an address are read back. -/
theorem Address.ofBytes?_toBytes (a : Address) : ofBytes? a.toBytes = some a := by
  have ha := a.lt_bound
  have hlength : a.toBytes.length = 20 := Bytes.length_bigEndian 20 a.toNat
  have hnumber : a.toBytes.toNat = a.toNat := by
    rw [toBytes, Bytes.toNat_bigEndian]
    omega
  rw [ofBytes?, if_pos hlength, hnumber]
  exact congrArg some (toNat_inj.1 (Nat.mod_eq_of_lt ha))

/-- An address is read back. -/
theorem Address.read?_document (a : Address) : read? a.document = some a := by
  change (Hex.toBytes? (Hex.stripMark a.text.toList)).bind ofBytes? = some a
  rw [text, String.toList_ofList]
  change (Hex.toBytes? (Hex.ofBytes a.toBytes)).bind ofBytes? = some a
  rw [Hex.toBytes?_ofBytes, Option.bind_some, ofBytes?_toBytes]

/-- A list is read back when its items are. -/
theorem Document.list?_array {α : Type} {read : Document → Option α} {write : α → Document}
    (h : ∀ x, read (write x) = some x) (xs : List α) : list? read (array write xs) = some xs := by
  change (xs.map write).mapM read = some xs
  induction xs with
  | nil => rfl
  | cons x xs ih =>
    rw [List.map_cons, List.mapM_cons, h, ih]
    rfl

/-- A field that is not known does not matter. -/
theorem Document.fields?_filter_ne {dialect : Dialect} {known : List Field} {name : String}
    (hname : known.any (·.name == name) = false) (fs : List (String × Document)) :
    fields? dialect known (.record (fs.filter (·.1 ≠ name))) =
      fields? dialect known (.record fs) := by
  have hfilter : (fs.filter (·.1 ≠ name)).filter (fun f => known.any (·.name == f.1)) =
      fs.filter fun f => known.any (·.name == f.1) := by
    rw [List.filter_filter]
    refine List.filter_congr fun f _ => ?_
    by_cases hf : f.1 = name
    · rw [hf, hname, Bool.false_and]
    · rw [decide_eq_true hf, Bool.and_true]
  rw [fields?, fields?]
  simp only [hfilter]

namespace Step

/-- A step is read from its fields. -/
theorem read?_record (pool output isBorrow : Document) :
    read? (.record [("pool", pool), ("output_asset", output), ("is_borrow", isBorrow)]) = do
      return ⟨← Address.read? pool, ← Address.read? output, ← bool? isBorrow⟩ := rfl

/-- A step is read back. -/
theorem read?_document (s : Step) : read? s.document = some s := by
  rw [document, read?_record, Address.read?_document, Address.read?_document]
  rfl

end Step

namespace Strategy

/-- A strategy as a document that gives it another name. -/
def documentAs (s : Strategy) (name : Document) : Document :=
  .record [("underlying", s.underlying.document), ("steps", .array Step.document s.steps),
    ("hash", name)]

/-- The content of a strategy is read from its fields, the name aside. -/
theorem readContent?_record (underlying steps name : Document) :
    readContent? (.record [("underlying", underlying), ("steps", steps), ("hash", name)]) = do
      return (← Address.read? underlying, ← list? Step.read? steps) := rfl

/-- The content of a strategy is read back, whatever its name is said to be. -/
theorem readContent?_documentAs (s : Strategy) (name : Document) :
    readContent? (s.documentAs name) = some (s.underlying, s.steps) := by
  rw [documentAs, readContent?_record, Address.read?_document, list?_array Step.read?_document]
  rfl

/-- What a strategy is said to be named is passed over, however often it is said. -/
theorem read?_filter_hash (fs : List (String × Document)) :
    read? (.record (fs.filter (·.1 ≠ "hash"))) = read? (.record fs) := by
  have hcontent :
      readContent? (.record (fs.filter (·.1 ≠ "hash"))) = readContent? (.record fs) := by
    rw [readContent?, readContent?, fields?_filter_ne rfl]
  rw [read?, read?, hcontent]

/-- A strategy is read back, whatever its name is said to be. -/
theorem read?_documentAs (s : Strategy) (name : Document) : read? (s.documentAs name) = some s := by
  rw [read?, readContent?_documentAs]
  change (make s.underlying s.steps).toOption = some s
  rw [make_eq_ok_iff.2 ⟨s.steps_ne_nil, s.underlying_ne_zero, rfl, rfl, s.hash_eq⟩]
  rfl

/-- A strategy is legible when what it is said to be named is. -/
theorem legible_documentAs (s : Strategy) {name : Document} {depth : Nat}
    (h : Json.Legible .free (depth + 1) name) : Json.Legible layout depth (s.documentAs name) := by
  have hsteps : Json.Legible (listLayout Step.fields) (depth + 1) (.array Step.document s.steps) :=
    Json.legible_array fun _ _ => ⟨Layout.noConfusion, trivial, trivial, trivial, trivial⟩
  exact ⟨Layout.noConfusion, trivial, hsteps, h, trivial⟩

/-- **A strategy is read back from its text**, compact or indented, whatever its name is said to
be. -/
theorem ofText?_documentAs (s : Strategy) {name : Document} (h : Json.Legible .free 1 name) :
    ofText? (Json.write (s.documentAs name)) = some s ∧
      ofText? (Json.writeIndented (s.documentAs name)) = some s := by
  have hlegible := s.legible_documentAs h
  constructor
  · rw [ofText?, Json.read?_write hlegible, Option.bind_some, read?_documentAs]
  · rw [ofText?, Json.read?_writeIndented hlegible, Option.bind_some, read?_documentAs]

end Strategy

/-- **Strategies are their content.** What is hashed can be read back, for steps and tokens of any
number, so strategies of one name have one content and lists of tokens of one name are one list,
where no strings collide. Building a strategy, also of a single deposit, and reading one from a text
go through for the same content: steps, and an underlying asset other than the zero address. Each
time the name follows from the content. What a record says the name is does not matter, and neither
does it in the text of a strategy, from which the strategy is read back. -/
theorem strategies_are_their_content :
    (∀ (underlying underlying' : Address) (steps steps' : List Step),
      strategyEncoding underlying steps = strategyEncoding underlying' steps' →
        underlying = underlying' ∧ steps = steps') ∧
    (∀ xs ys : List Address, packed xs = packed ys → xs = ys) ∧
    (∀ s t : Strategy, s.hash = t.hash ↔ (s.underlying = t.underlying ∧ s.steps = t.steps) ∨
      Digest.Collision s.encoding t.encoding) ∧
    (∀ xs ys : List Address, tokenHash xs = tokenHash ys ↔
      xs = ys ∨ Digest.Collision (packed xs) (packed ys)) ∧
    (∀ (s : Strategy) (underlying : Address) (steps : List Step),
      Strategy.make underlying steps = .ok s ↔ s.IsOf underlying steps) ∧
    (∀ (s : Strategy) (underlying pool receipt : Address),
      Strategy.single underlying pool receipt = .ok s ↔
        s.IsOf underlying [⟨pool, receipt, false⟩]) ∧
    (∀ (s : Strategy) (text : String), Strategy.ofText? text = some s ↔
      ∃ underlying steps, Strategy.contentOfText? text = some (underlying, steps) ∧
        s.IsOf underlying steps) ∧
    (∀ fs : List (String × Document),
      Strategy.read? (.record (fs.filter (·.1 ≠ "hash"))) = Strategy.read? (.record fs)) ∧
    (∀ (s : Strategy) (name : Document), Json.Legible .free 1 name →
      Strategy.ofText? (Json.write (s.documentAs name)) = some s ∧
        Strategy.ofText? (Json.writeIndented (s.documentAs name)) = some s) ∧
    ∀ s : Strategy, Strategy.ofText? (Json.write s.document) = some s ∧
      Strategy.ofText? (Json.writeIndented s.document) = some s :=
  ⟨fun _ _ _ _ => strategyEncoding_inj, fun _ _ => packed_inj, fun _ _ => Strategy.hash_eq_iff,
    fun _ _ => tokenHash_eq_iff, fun _ _ _ => Strategy.make_eq_ok_iff,
    fun _ _ _ _ => Strategy.make_eq_ok_iff, fun _ _ => Strategy.ofText?_eq_some_iff,
    Strategy.read?_filter_hash, fun s _ => s.ofText?_documentAs,
    fun s => s.ofText?_documentAs trivial⟩

namespace Leveraged

/-- The leveraged strategy is read back from a text that gives it the name of nothing. -/
theorem misnamed_strategy_reads_back :
    Json.Legible .free 1 (Digest.ofNat 0).document ∧
      Strategy.ofText? (Json.write (strategy.documentAs (Digest.ofNat 0).document)) =
        some strategy := by
  obtain ⟨-, -, -, -, -, -, -, -, hread, -⟩ := strategies_are_their_content
  have hlegible : Json.Legible .free 1 (Digest.ofNat 0).document := trivial
  exact ⟨hlegible, (hread strategy _ hlegible).1⟩

end Leveraged

end VaultKeeper
