import VaultKeeper.Proofs.JsonTokens

/-! # Documents that are written are read

A document is read back from its text, compact or indented, whatever was read before it: the reader
puts it where a value was expected and goes on behind it. This needs numbers that can be read back,
and a place where no list stands for bytes; where every part must have a value, nesting is
limited. -/

namespace VaultKeeper.Json

/-! ## What can be read back -/

mutual

/-- A document is read back at a place with a layout, inside a number of lists and records. -/
def Legible : Layout → (depth : Nat) → Document → Prop
  | _, _, .null | _, _, .bool _ | _, _, .text _ => True
  | _, _, .int n => 0 ≤ n ∧ n < 2 ^ 64
  | _, _, .float _ | _, _, .unreadable => False
  | l, depth, .list ds =>
    (∀ size, l ≠ .bytes size) ∧ (l = .entire → depth < maxDepth) ∧
      LegibleItems l (depth + 1) 0 ds
  | l, depth, .record fs => (l = .entire → depth < maxDepth) ∧ LegibleFields l (depth + 1) fs

/-- Items are read back from an index on. -/
def LegibleItems : Layout → (depth index : Nat) → List Document → Prop
  | _, _, _, [] => True
  | l, depth, index, d :: ds =>
    Legible (l.item index) depth d ∧ LegibleItems l depth (index + 1) ds

/-- Fields are read back. -/
def LegibleFields : Layout → (depth : Nat) → List (String × Document) → Prop
  | _, _, [] => True
  | l, depth, (name, d) :: fs => Legible (l.field name) depth d ∧ LegibleFields l depth fs

end

/-- A number of 64 bits is read back. -/
theorem legible_nat {n : Nat} (h : n < 2 ^ 64) (l : Layout) (depth : Nat) :
    Legible l depth (.nat n) :=
  ⟨Int.natCast_nonneg _, by exact_mod_cast h⟩

/-- A list is read back when its items are, at a place for a list of such items. -/
theorem legible_array {α : Type} {l : Layout} {depth : Nat} {write : α → Document} {xs : List α}
    (h : ∀ x ∈ xs, Legible l (depth + 1) (write x)) : Legible (.list l) depth (.array write xs) := by
  have hitems : ∀ (xs : List α) (index : Nat), (∀ x ∈ xs, Legible l (depth + 1) (write x)) →
      LegibleItems (.list l) (depth + 1) index (xs.map write) := by
    intro xs index h
    induction xs generalizing index with
    | nil => exact True.intro
    | cons x xs ih =>
      rw [List.forall_mem_cons] at h
      exact ⟨h.1, ih (index + 1) h.2⟩
  exact ⟨fun _ => Layout.noConfusion, Layout.noConfusion, hitems xs 0 h⟩

namespace Builder

variable {b b' : Builder} {stack : List Frame} {d : Document}

/-- What a value is put on top of matters, and the layout of the text. -/
theorem put_congr (h : b.layout = b'.layout) (stack : List Frame) (d : Document) :
    b.put stack d = b'.put stack d := by
  cases stack with
  | nil => simp [put, h]
  | cons frame r => cases frame <;> simp [put, h]

/-- A list or record that is complete is put where it was expected. -/
theorem put_next (b : Builder) (d : Document) :
    Builder.put ⟨b.layout, b.stack, .next⟩ b.stack d = b.put b.stack d :=
  put_congr rfl b.stack d

/-- Behind a value, nothing is expected or the list or record around it goes on. -/
theorem expected_of_put (h : b.put stack d = some b') :
    stack = [] ∧ b'.expected = .nothing d ∨ stack ≠ [] ∧ b'.expected = .next := by
  unfold put at h
  split at h
  case h_1 =>
    cases h
    exact .inl ⟨rfl, rfl⟩
  case h_4 => cases h
  all_goals
    cases h
    exact .inr ⟨List.cons_ne_nil _ _, rfl⟩

/-- Behind a value no surplus item is due. -/
theorem expected_put (h : b.put stack d = some b') : b'.expected ≠ .surplus := by
  rcases expected_of_put h with ⟨-, hb⟩ | ⟨-, hb⟩ <;> simp [hb]

/-- Where a value is expected, a token that ends no list starts one. -/
theorem step_eq_value (hb : b.expected = .value ∨ b.expected = .firstItem) {t : Token}
    (ht : t ≠ .endList) : b.step t = b.value t := by
  unfold step
  rcases hb with hb | hb
  · rw [hb]
  · rw [hb]
    cases t <;> first | rfl | exact absurd rfl ht

/-- A list or record is opened, unless it is nested too deeply where every part counts. -/
theorem openFrame_eq (h : b.nextLayout = .entire → b.stack.length < maxDepth)
    (frame : Layout → Frame) (e : Expected) :
    b.openFrame frame e = some ⟨b.layout, frame b.nextLayout :: b.stack, e⟩ := by
  have hdepth : ¬(b.nextLayout.isEntire && decide (maxDepth ≤ b.stack.length)) = true := by
    intro hdeep
    rw [Bool.and_eq_true, decide_eq_true_iff] at hdeep
    cases hlayout : b.nextLayout with
    | entire => exact Nat.not_lt.2 hdeep.2 (h hlayout)
    | free | bytes _ | list _ | record _ =>
      rw [hlayout] at hdeep
      exact absurd hdeep.1 Bool.false_ne_true
  rw [openFrame]
  exact if_neg hdepth

end Builder

namespace Reader

variable {b : Builder} {rest : List Char}

/-- Line breaks and indentation are passed over. -/
theorem run?_lineBreak (hb : b.expected ≠ .surplus) (indented : Bool) (level : Nat) :
    run? (tokens .between b) (lineBreak indented level ++ rest) =
      run? (tokens .between b) rest := by
  have hspaces : ∀ n, run? (tokens .between b) (List.replicate n ' ' ++ rest) =
      run? (tokens .between b) rest := by
    intro n
    induction n with
    | zero => rfl
    | succ n ih => rw [List.replicate_succ, List.cons_append, run?_blank hb rfl, ih]
  cases indented with
  | false => rfl
  | true =>
    rw [lineBreak, if_pos rfl, List.cons_append, run?_blank hb rfl]
    exact hspaces _

/-- Behind a value the reader goes on among the tokens. -/
theorem bind_resume_put (b : Builder) (stack : List Frame) (d : Document) :
    ((b.put stack d).bind fun b' => run? (resume .between b') rest) =
      (b.put stack d).bind fun b' => run? (tokens .between b') rest := by
  cases hput : b.put stack d with
  | none => rfl
  | some b' => rw [Option.bind_some, Option.bind_some, resume_eq (Builder.expected_put hput)]

/-- A word or number in the place of a value. -/
theorem run?_word {t : Token} {d : Document} {cs : List Char}
    (hb : b.expected = .value ∨ b.expected = .firstItem) (hne : cs ≠ [])
    (hcs : ∀ c ∈ cs, isBare c = true) (htoken : bareToken? cs = some t) (ht : t ≠ .endList)
    (hvalue : b.value t = b.put b.stack d) (hrest : Ends rest) :
    run? (tokens .between b) (cs ++ rest) =
      (b.put b.stack d).bind fun b' => run? (tokens .between b') rest := by
  have hsurplus : b.expected ≠ .surplus := by rcases hb with hb | hb <;> simp [hb]
  rw [run?_bare hsurplus hne hcs htoken hrest, Builder.step_eq_value hb ht, hvalue]

/-- A list or record begins. -/
theorem run?_open {t : Token} {c : Char} {f : Layout → Frame} {e : Expected}
    (hb : b.expected = .value ∨ b.expected = .firstItem) (hstart : start? c = some ([t], .between))
    (ht : t ≠ .endList) (hvalue : b.value t = b.openFrame f e) (he : e ≠ .surplus)
    (hdepth : b.nextLayout = .entire → b.stack.length < maxDepth) :
    run? (tokens .between b) (c :: rest) =
      run? (tokens .between ⟨b.layout, f b.nextLayout :: b.stack, e⟩) rest := by
  rw [run?_token hstart, Builder.step_eq_value hb ht, hvalue, Builder.openFrame_eq hdepth,
    Option.bind_some, resume_eq he]

/-- A list or record ends, and is put where it was expected. -/
theorem run?_close {t : Token} {c : Char} {stack : List Frame} {d : Document} {L : Layout}
    (hb : b.layout = L) (hstart : start? c = some ([t], .between))
    (hstep : b.step t = b.put stack d) :
    run? (tokens .between b) (c :: rest) =
      (Builder.put ⟨L, stack, .next⟩ stack d).bind fun b' => run? (tokens .between b') rest := by
  have hlayout : b.layout = (Builder.mk L stack .next).layout := hb
  rw [run?_token hstart, hstep, bind_resume_put, Builder.put_congr hlayout]

/-- A comma after an item of a list that does not stand for bytes. -/
theorem run?_nextItem {L l : Layout} {r : List Frame} {items : List Document}
    (hbytes : ∀ size, l ≠ .bytes size) :
    run? (tokens .between ⟨L, .list l items :: r, .next⟩) (',' :: rest) =
      run? (tokens .between ⟨L, .list l items :: r, .value⟩) rest := by
  have hfull : l.isFull items.length = false := by
    cases l with
    | bytes size => exact absurd rfl (hbytes size)
    | free | entire | list _ | record _ => rfl
  have hcomma : Builder.step ⟨L, .list l items :: r, .next⟩ .comma =
      some ⟨L, .list l items :: r, .value⟩ := by
    change some (Builder.mk L _ (if l.isFull items.length then .surplus else .value)) = _
    rw [hfull]
    rfl
  rw [run?_token (t := .comma) rfl, hcomma, Option.bind_some, resume_eq Expected.noConfusion]

/-- A comma after a field of a record. -/
theorem run?_nextField {L l : Layout} {r : List Frame} {fields : List (String × Document)} :
    run? (tokens .between ⟨L, .record l fields true :: r, .next⟩) (',' :: rest) =
      run? (tokens .between ⟨L, .record l fields true :: r, .name⟩) rest := by
  rw [run?_token (t := .comma) rfl]
  rfl

theorem ends_lineBreak (indented : Bool) (level : Nat) {c : Char} (hc : isBare c = false) :
    Ends (lineBreak indented level ++ c :: rest) := by
  cases indented with
  | false => exact ends_cons _ hc
  | true => exact ends_cons _ (by decide)

theorem ends_charsItems (indented : Bool) (level outer : Nat) (ds : List Document)
    (rest : List Char) :
    Ends (charsItems indented level ds ++ (lineBreak indented outer ++ ']' :: rest)) := by
  cases ds with
  | nil => exact ends_lineBreak indented outer (by decide)
  | cons d ds => exact ends_cons _ (by decide)

theorem ends_charsFields (indented : Bool) (level outer : Nat) (fs : List (String × Document))
    (rest : List Char) :
    Ends (charsFields indented level fs ++ (lineBreak indented outer ++ '}' :: rest)) := by
  cases fs with
  | nil => exact ends_lineBreak indented outer (by decide)
  | cons f fs => exact ends_cons _ (by decide)

/-- The name of a field, up to its value. -/
theorem run?_name {L l : Layout} {r : List Frame} {fields : List (String × Document)}
    {e : Expected} (he : e = .name ∨ e = .firstName) (indented : Bool) (name : String) :
    run? (tokens .between ⟨L, .record l fields true :: r, e⟩)
        (quote name ++ (separator indented ++ rest)) =
      run? (tokens .between ⟨L, .field l fields true name :: r, .value⟩) rest := by
  have hstep : Builder.step ⟨L, .record l fields true :: r, e⟩ (.text (some name)) =
      some ⟨L, .field l fields true name :: r, .colon⟩ := by
    have hnamed : Builder.named ⟨L, .record l fields true :: r, e⟩ (some name) =
        some ⟨L, .field l fields true name :: r, .colon⟩ := by
      rw [Builder.named]
      exact if_neg (by simp)
    rcases he with rfl | rfl <;> exact hnamed
  have hsurplus : e ≠ .surplus := by rcases he with rfl | rfl <;> exact Expected.noConfusion
  rw [run?_quote hsurplus, hstep, Option.bind_some, resume_eq Expected.noConfusion]
  have hcolon : ∀ rest : List Char,
      run? (tokens .between ⟨L, .field l fields true name :: r, .colon⟩) (':' :: rest) =
        run? (tokens .between ⟨L, .field l fields true name :: r, .value⟩) rest := by
    intro rest
    rw [run?_token (t := .colon) rfl]
    rfl
  cases indented with
  | false => exact hcolon rest
  | true =>
    change run? _ (':' :: ' ' :: rest) = _
    rw [hcolon, run?_blank Expected.noConfusion rfl]

/-! ### Scalars -/

/-- The empty value is read back. -/
theorem run?_null (hb : b.expected = .value ∨ b.expected = .firstItem) (hrest : Ends rest)
    (indented : Bool) (level : Nat) :
    run? (tokens .between b) (chars indented level .null ++ rest) =
      (b.put b.stack .null).bind fun b' => run? (tokens .between b') rest := by
  change run? (tokens .between b) (['n', 'u', 'l', 'l'] ++ rest) = _
  exact run?_word hb (List.cons_ne_nil _ _) (List.all_eq_true.1 rfl) rfl Token.noConfusion rfl hrest

/-- A truth value is read back. -/
theorem run?_bool (hb : b.expected = .value ∨ b.expected = .firstItem) (hrest : Ends rest)
    (indented : Bool) (level : Nat) (x : Bool) :
    run? (tokens .between b) (chars indented level (.bool x) ++ rest) =
      (b.put b.stack (.bool x)).bind fun b' => run? (tokens .between b') rest := by
  cases x with
  | false =>
    change run? (tokens .between b) (['f', 'a', 'l', 's', 'e'] ++ rest) = _
    exact run?_word hb (List.cons_ne_nil _ _) (List.all_eq_true.1 rfl) rfl Token.noConfusion rfl
      hrest
  | true =>
    change run? (tokens .between b) (['t', 'r', 'u', 'e'] ++ rest) = _
    exact run?_word hb (List.cons_ne_nil _ _) (List.all_eq_true.1 rfl) rfl Token.noConfusion rfl
      hrest

/-- A number of 64 bits is read back. -/
theorem run?_int (hb : b.expected = .value ∨ b.expected = .firstItem) (hrest : Ends rest)
    (indented : Bool) (level : Nat) {n : Int} (hn : 0 ≤ n ∧ n < 2 ^ 64) :
    run? (tokens .between b) (chars indented level (.int n) ++ rest) =
      (b.put b.stack (.int n)).bind fun b' => run? (tokens .between b') rest := by
  obtain ⟨m, rfl⟩ := Int.eq_ofNat_of_zero_le hn.1
  have hm : m < 2 ^ 64 := by exact_mod_cast hn.2
  have hdigits : ∀ c ∈ Nat.toDigits 10 m, isBare c = true := by
    intro c hc
    have hdigit : c.isDigit = true := Nat.isDigit_of_mem_toDigits (by decide) (by decide) hc
    simp [isBare, Char.isAlphanum, hdigit]
  have hchars : chars indented level (.int m) = Nat.toDigits 10 m := Nat.toList_repr
  rw [hchars]
  exact run?_word hb Nat.toDigits_ne_nil hdigits (bareToken?_toDigits hm) Token.noConfusion rfl
    hrest

/-- A text is read back. -/
theorem run?_text (hb : b.expected = .value ∨ b.expected = .firstItem) (indented : Bool)
    (level : Nat) (s : String) :
    run? (tokens .between b) (chars indented level (.text s) ++ rest) =
      (b.put b.stack (.text s)).bind fun b' => run? (tokens .between b') rest := by
  have hsurplus : b.expected ≠ .surplus := by rcases hb with hb | hb <;> simp [hb]
  change run? (tokens .between b) (quote s ++ rest) = _
  rw [run?_quote hsurplus, Builder.step_eq_value hb Token.noConfusion]
  exact bind_resume_put b b.stack (.text s)

/-! ### Lists and records -/

/-- A list without items is read back. -/
theorem run?_emptyList (hb : b.expected = .value ∨ b.expected = .firstItem)
    (hdepth : b.nextLayout = .entire → b.stack.length < maxDepth) (indented : Bool) (level : Nat) :
    run? (tokens .between b) (chars indented level (.list []) ++ rest) =
      (b.put b.stack (.list [])).bind fun b' => run? (tokens .between b') rest := by
  change run? (tokens .between b) ('[' :: ']' :: rest) = _
  rw [run?_open hb (t := .beginList) (f := (.list · [])) rfl Token.noConfusion rfl
    Expected.noConfusion hdepth, run?_close (t := .endList) rfl rfl rfl]
  exact congrArg (Option.bind · _) (b.put_next (.list []))

/-- A record without fields is read back. -/
theorem run?_emptyRecord (hb : b.expected = .value ∨ b.expected = .firstItem)
    (hdepth : b.nextLayout = .entire → b.stack.length < maxDepth) (indented : Bool) (level : Nat) :
    run? (tokens .between b) (chars indented level (.record []) ++ rest) =
      (b.put b.stack (.record [])).bind fun b' => run? (tokens .between b') rest := by
  change run? (tokens .between b) ('{' :: '}' :: rest) = _
  rw [run?_open hb (t := .beginRecord) (f := (.record · [] true)) rfl Token.noConfusion rfl
    Expected.noConfusion hdepth, run?_close (t := .endRecord) rfl rfl rfl]
  exact congrArg (Option.bind · _) (b.put_next (.record []))

/-- A list with items begins, up to its first item. -/
theorem run?_openList (hb : b.expected = .value ∨ b.expected = .firstItem)
    (hdepth : b.nextLayout = .entire → b.stack.length < maxDepth) (indented : Bool) (level : Nat)
    (d : Document) (ds : List Document) :
    run? (tokens .between b) (chars indented level (.list (d :: ds)) ++ rest) =
      run? (tokens .between ⟨b.layout, .list b.nextLayout [] :: b.stack, .firstItem⟩)
        (chars indented (level + 1) d ++ (charsItems indented (level + 1) ds ++
          (lineBreak indented level ++ ']' :: rest))) := by
  have hchars : chars indented level (.list (d :: ds)) ++ rest =
      '[' :: (lineBreak indented (level + 1) ++ (chars indented (level + 1) d ++
        (charsItems indented (level + 1) ds ++ (lineBreak indented level ++ ']' :: rest)))) := by
    simp only [chars, List.append_assoc, List.cons_append, List.nil_append]
  rw [hchars, run?_open hb (t := .beginList) (f := (.list · [])) rfl Token.noConfusion rfl
    Expected.noConfusion hdepth, run?_lineBreak Expected.noConfusion]

/-- A record with fields begins, up to the value of its first field. -/
theorem run?_openRecord (hb : b.expected = .value ∨ b.expected = .firstItem)
    (hdepth : b.nextLayout = .entire → b.stack.length < maxDepth) (indented : Bool) (level : Nat)
    (name : String) (d : Document) (fs : List (String × Document)) :
    run? (tokens .between b) (chars indented level (.record ((name, d) :: fs)) ++ rest) =
      run? (tokens .between ⟨b.layout, .field b.nextLayout [] true name :: b.stack, .value⟩)
        (chars indented (level + 1) d ++ (charsFields indented (level + 1) fs ++
          (lineBreak indented level ++ '}' :: rest))) := by
  have hchars : chars indented level (.record ((name, d) :: fs)) ++ rest =
      '{' :: (lineBreak indented (level + 1) ++ (quote name ++ (separator indented ++
        (chars indented (level + 1) d ++ (charsFields indented (level + 1) fs ++
          (lineBreak indented level ++ '}' :: rest)))))) := by
    simp only [chars, List.append_assoc, List.cons_append, List.nil_append]
  rw [hchars, run?_open hb (t := .beginRecord) (f := (.record · [] true)) rfl Token.noConfusion rfl
    Expected.noConfusion hdepth, run?_lineBreak Expected.noConfusion, run?_name (.inr rfl)]

/-- A list goes on with a further item. -/
theorem run?_moreItems {L l : Layout} {r : List Frame} {items : List Document}
    (hbytes : ∀ size, l ≠ .bytes size) (indented : Bool) (level : Nat) (d : Document)
    (ds : List Document) :
    run? (tokens .between ⟨L, .list l items :: r, .next⟩)
        (charsItems indented level (d :: ds) ++ rest) =
      run? (tokens .between ⟨L, .list l items :: r, .value⟩)
        (chars indented level d ++ (charsItems indented level ds ++ rest)) := by
  have hchars : charsItems indented level (d :: ds) ++ rest =
      ',' :: (lineBreak indented level ++ (chars indented level d ++
        (charsItems indented level ds ++ rest))) := by
    simp only [charsItems, List.append_assoc, List.cons_append]
  rw [hchars, run?_nextItem hbytes, run?_lineBreak Expected.noConfusion]

/-- A record goes on with a further field. -/
theorem run?_moreFields {L l : Layout} {r : List Frame} {fields : List (String × Document)}
    (indented : Bool) (level : Nat) (name : String) (d : Document)
    (fs : List (String × Document)) :
    run? (tokens .between ⟨L, .record l fields true :: r, .next⟩)
        (charsFields indented level ((name, d) :: fs) ++ rest) =
      run? (tokens .between ⟨L, .field l fields true name :: r, .value⟩)
        (chars indented level d ++ (charsFields indented level fs ++ rest)) := by
  have hchars : charsFields indented level ((name, d) :: fs) ++ rest =
      ',' :: (lineBreak indented level ++ (quote name ++ (separator indented ++
        (chars indented level d ++ (charsFields indented level fs ++ rest))))) := by
    simp only [charsFields, List.append_assoc, List.cons_append]
  rw [hchars, run?_nextField, run?_lineBreak Expected.noConfusion, run?_name (.inl rfl)]

/-! ### Documents -/

mutual

/-- **A document is read back from its text**, and put where a value was expected. -/
theorem run?_chars (indented : Bool) (level : Nat) {b : Builder} {rest : List Char} :
    (d : Document) → (b.expected = .value ∨ b.expected = .firstItem) →
      Legible b.nextLayout b.stack.length d → Ends rest →
      run? (tokens .between b) (chars indented level d ++ rest) =
        (b.put b.stack d).bind fun b' => run? (tokens .between b') rest
  | .null, hb, _, hrest => run?_null hb hrest indented level
  | .bool x, hb, _, hrest => run?_bool hb hrest indented level x
  | .int _, hb, hd, hrest => run?_int hb hrest indented level hd
  | .text s, hb, _, _ => run?_text hb indented level s
  | .list [], hb, hd, _ => run?_emptyList hb hd.2.1 indented level
  | .list (d :: ds), hb, hd, _ => by
    obtain ⟨hbytes, hdepth, hfirst, hitems⟩ := hd
    let inner : Builder := ⟨b.layout, .list b.nextLayout [] :: b.stack, .firstItem⟩
    have hread := run?_chars indented (level + 1) d (b := inner) (.inr rfl) hfirst
      (ends_charsItems indented (level + 1) level ds rest)
    have hput : inner.put inner.stack d =
        some ⟨b.layout, .list b.nextLayout [d] :: b.stack, .next⟩ := rfl
    rw [run?_openList hb hdepth, hread, hput, Option.bind_some,
      run?_charsItems indented (level + 1) level hbytes ds [d] hitems]
    exact congrArg (Option.bind · _) (b.put_next (.list (d :: ds)))
  | .record [], hb, hd, _ => run?_emptyRecord hb hd.1 indented level
  | .record ((name, d) :: fs), hb, hd, _ => by
    obtain ⟨hdepth, hfirst, hfields⟩ := hd
    let inner : Builder := ⟨b.layout, .field b.nextLayout [] true name :: b.stack, .value⟩
    have hread := run?_chars indented (level + 1) d (b := inner) (.inl rfl) hfirst
      (ends_charsFields indented (level + 1) level fs rest)
    have hput : inner.put inner.stack d =
        some ⟨b.layout, .record b.nextLayout [(name, d)] true :: b.stack, .next⟩ := rfl
    rw [run?_openRecord hb hdepth, hread, hput, Option.bind_some,
      run?_charsFields indented (level + 1) level fs [(name, d)] hfields]
    exact congrArg (Option.bind · _) (b.put_next (.record ((name, d) :: fs)))
  | .float _, _, hd, _ => hd.elim
  | .unreadable, _, hd, _ => hd.elim

/-- The items after the first one, up to the end of their list. -/
theorem run?_charsItems (indented : Bool) (level outer : Nat) {L l : Layout} {r : List Frame}
    {rest : List Char} (hbytes : ∀ size, l ≠ .bytes size) :
    (ds items : List Document) → LegibleItems l (r.length + 1) items.length ds →
      run? (tokens .between ⟨L, .list l items :: r, .next⟩)
          (charsItems indented level ds ++ (lineBreak indented outer ++ ']' :: rest)) =
        (Builder.put ⟨L, r, .next⟩ r (.list (items.reverse ++ ds))).bind fun b' =>
          run? (tokens .between b') rest
  | [], items, _ => by
    rw [charsItems, List.nil_append, run?_lineBreak Expected.noConfusion,
      run?_close (t := .endList) rfl rfl rfl, List.append_nil]
  | d :: ds, items, hds => by
    obtain ⟨hfirst, hitems⟩ := hds
    let inner : Builder := ⟨L, .list l items :: r, .value⟩
    have hread := run?_chars indented level d (b := inner) (.inl rfl) hfirst
      (ends_charsItems indented level outer ds rest)
    have hput : inner.put inner.stack d = some ⟨L, .list l (d :: items) :: r, .next⟩ := rfl
    rw [run?_moreItems hbytes, hread, hput, Option.bind_some,
      run?_charsItems indented level outer hbytes ds (d :: items) hitems, List.reverse_cons,
      List.append_assoc, List.singleton_append]

/-- The fields after the first one, up to the end of their record. -/
theorem run?_charsFields (indented : Bool) (level outer : Nat) {L l : Layout} {r : List Frame}
    {rest : List Char} :
    (fs fields : List (String × Document)) → LegibleFields l (r.length + 1) fs →
      run? (tokens .between ⟨L, .record l fields true :: r, .next⟩)
          (charsFields indented level fs ++ (lineBreak indented outer ++ '}' :: rest)) =
        (Builder.put ⟨L, r, .next⟩ r (.record (fields.reverse ++ fs))).bind fun b' =>
          run? (tokens .between b') rest
  | [], fields, _ => by
    rw [charsFields, List.nil_append, run?_lineBreak Expected.noConfusion,
      run?_close (t := .endRecord) rfl rfl rfl, List.append_nil]
    rfl
  | (name, d) :: fs, fields, hfs => by
    obtain ⟨hfirst, hfields⟩ := hfs
    let inner : Builder := ⟨L, .field l fields true name :: r, .value⟩
    have hread := run?_chars indented level d (b := inner) (.inl rfl) hfirst
      (ends_charsFields indented level outer fs rest)
    have hput : inner.put inner.stack d =
        some ⟨L, .record l ((name, d) :: fields) true :: r, .next⟩ := rfl
    rw [run?_moreFields, hread, hput, Option.bind_some,
      run?_charsFields indented level outer fs ((name, d) :: fields) hfields, List.reverse_cons,
      List.append_assoc, List.singleton_append]

end

end Reader

/-! ## Whole texts -/

/-- The text of a document, compact or indented, is read as the document. -/
theorem run?_start {l : Layout} {d : Document} (h : Legible l 0 d) (indented : Bool) :
    Reader.run? (.tokens .between (.start l)) (chars indented 0 d) = some d := by
  have hread := Reader.run?_chars indented 0 d (b := .start l) (.inl rfl) h ends_nil
  rwa [List.append_nil] at hread

/-- **What is written on one line is read back.** -/
theorem read?_write {l : Layout} {d : Document} (h : Legible l 0 d) :
    read? l (write d) = some d := by
  rw [read?, write, String.toList_ofList, run?_start h]

/-- **What is written with indentation is read back.** -/
theorem read?_writeIndented {l : Layout} {d : Document} (h : Legible l 0 d) :
    read? l (writeIndented d) = some d := by
  rw [read?, writeIndented, String.toList_ofList, run?_start h]

end VaultKeeper.Json
