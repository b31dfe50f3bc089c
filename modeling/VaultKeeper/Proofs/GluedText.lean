import VaultKeeper.Proofs.JsonRoundTrip

/-! # Text that goes on as another text

A reader that has begun a record and is then given the text of a second record, whatever it was in
the middle of, reads no document: the second record is a part of the first one, or out of place. And
a reader that could stop where it is cannot go on to the end of a record. -/

namespace VaultKeeper

/-- A kind of layouts that has the layouts of their parts. -/
structure Layout.Hereditary (S : Layout → Prop) : Prop where
  /-- Where anything may stand. -/
  free : S .free
  /-- Items. -/
  item {l : Layout} (h : S l) (index : Nat) : S (l.item index)
  /-- Fields. -/
  field {l : Layout} (h : S l) (name : String) : S (l.field name)

namespace Json

/-! ## A record that has begun -/

/-- The layout of an open list or record. -/
def Frame.layout : Frame → Layout
  | .list l _ | .record l .. | .field l .. => l

/-- The parts of an open list or record have layouts of a kind. -/
structure Frame.Holds (S : Layout → Prop) (f : Frame) : Prop where
  /-- Items. -/
  item (index : Nat) : S (f.layout.item index)
  /-- Fields. -/
  field (name : String) : S (f.layout.field name)

/-- A list or record has begun: it is open, or there is nothing more to read; and what is open has
parts with layouts of a kind. -/
structure Builder.Begun (S : Layout → Prop) (b : Builder) : Prop where
  /-- Without anything open the value is complete. -/
  done : b.stack = [] → ∃ d, b.expected = .nothing d
  /-- What is open. -/
  frames : ∀ f ∈ b.stack, f.Holds S

namespace Builder

variable {S : Layout → Prop} {b b' : Builder} {t : Token}

/-- Where more is expected, something is open. -/
theorem Begun.stack_ne_nil (h : b.Begun S) (hmore : ∀ d, b.expected ≠ .nothing d) :
    b.stack ≠ [] := by
  intro hnil
  obtain ⟨d, hd⟩ := h.done hnil
  exact hmore d hd

/-- What a complete value is put into stays as it is. -/
theorem begun_put {stack : List Frame} {d : Document} (hstack : ∀ f ∈ stack, f.Holds S)
    (h : b.put stack d = some b') : b'.Begun S := by
  -- The innermost frame changes its contents, and keeps its layout.
  have hreplace : ∀ (f f' : Frame) (r : List Frame) (e : Expected), stack = f :: r →
      f'.layout = f.layout → Begun S ⟨b.layout, f' :: r, e⟩ := by
    intro f f' r e hr hlayout
    rw [hr, List.forall_mem_cons] at hstack
    refine ⟨fun hnil => absurd hnil (List.cons_ne_nil _ _), List.forall_mem_cons.2 ⟨?_, hstack.2⟩⟩
    constructor
    · rw [hlayout]
      exact hstack.1.item
    · rw [hlayout]
      exact hstack.1.field
  unfold put at h
  split at h
  case h_1 =>
    cases h
    exact ⟨fun _ => ⟨d, rfl⟩, hstack⟩
  case h_2 =>
    cases h
    exact hreplace _ _ _ _ rfl rfl
  case h_3 =>
    cases h
    exact hreplace _ _ _ _ rfl rfl
  case h_4 => cases h

/-- The next value has a layout of the kind. -/
theorem Begun.nextLayout (hS : Layout.Hereditary S) (h : b.Begun S) (hne : b.stack ≠ []) :
    S b.nextLayout := by
  unfold Builder.nextLayout
  split
  case h_1 hnil => exact absurd hnil hne
  case h_2 hstack => exact (h.frames _ (hstack ▸ List.mem_cons_self)).item _
  case h_3 => exact hS.free
  case h_4 hstack => exact (h.frames _ (hstack ▸ List.mem_cons_self)).field _

/-- A list or record is opened at a place of the kind. -/
theorem begun_openFrame (hS : Layout.Hereditary S) (h : b.Begun S) (hne : b.stack ≠ [])
    {f : Layout → Frame} (hf : ∀ l, (f l).layout = l) {e : Expected}
    (hopen : b.openFrame f e = some b') : b'.Begun S := by
  rw [openFrame] at hopen
  split at hopen
  · cases hopen
  · cases hopen
    refine ⟨fun hnil => absurd hnil (List.cons_ne_nil _ _), List.forall_mem_cons.2 ⟨?_, h.frames⟩⟩
    have hlayout := h.nextLayout hS hne
    constructor
    · intro index
      rw [hf]
      exact hS.item hlayout index
    · intro name
      rw [hf]
      exact hS.field hlayout name

/-- A value without parts is put where it was expected. -/
theorem putScalar_eq_some {d : Option Document} (h : b.putScalar d = some b') :
    ∃ d', b.put b.stack d' = some b' := by
  unfold putScalar at h
  split at h
  · exact ⟨_, h⟩
  · split at h
    · cases h
    · exact ⟨_, h⟩

/-- So is a number or a word. -/
theorem value_scalar_eq_some {d : Document} (h : b.value (.scalar d) = some b') :
    ∃ d', b.put b.stack d' = some b' := by
  have hvalue : ∃ o, b.value (.scalar d) = b.putScalar o := by
    cases d with
    | unreadable => exact ⟨none, rfl⟩
    | _ => exact ⟨some _, rfl⟩
  obtain ⟨o, ho⟩ := hvalue
  exact putScalar_eq_some (ho ▸ h)

/-- A value that is started or completed leaves what is open. -/
theorem begun_value (hS : Layout.Hereditary S) (h : b.Begun S) (hne : b.stack ≠ [])
    (hstep : b.value t = some b') : b'.Begun S := by
  cases t with
  | scalar d =>
    obtain ⟨d', hd⟩ := value_scalar_eq_some hstep
    exact begun_put h.frames hd
  | text s =>
    obtain ⟨d', hd⟩ := putScalar_eq_some hstep
    exact begun_put h.frames hd
  | beginList => exact begun_openFrame hS h hne (f := (.list · [])) (fun _ => rfl) hstep
  | beginRecord => exact begun_openFrame hS h hne (f := (.record · [] true)) (fun _ => rfl) hstep
  | endList | endRecord | comma | colon => cases hstep

/-- A name is noted with its record. -/
theorem begun_named (h : b.Begun S) {name : Option String} (hstep : b.named name = some b') :
    b'.Begun S := by
  unfold named at hstep
  split at hstep
  case h_1 l fields readable r hstack =>
    split at hstep
    · cases hstep
    · cases hstep
      have hframes := h.frames
      rw [hstack, List.forall_mem_cons] at hframes
      exact ⟨fun hnil => absurd hnil (List.cons_ne_nil _ _),
        List.forall_mem_cons.2 ⟨⟨hframes.1.item, hframes.1.field⟩, hframes.2⟩⟩
  case h_2 => cases hstep

/-- What is closed is put where it was expected. -/
theorem closeList_eq_some (h : b.closeList = some b') :
    ∃ f r d, b.stack = f :: r ∧ b.put r d = some b' := by
  unfold closeList at h
  split at h
  case h_1 hstack => exact ⟨_, _, _, hstack, h⟩
  case h_2 => cases h

theorem closeRecord_eq_some (h : b.closeRecord = some b') :
    ∃ f r d, b.stack = f :: r ∧ b.put r d = some b' := by
  unfold closeRecord at h
  split at h
  case h_1 hstack => exact ⟨_, _, _, hstack, h⟩
  case h_2 => cases h

theorem begun_close (h : b.Begun S)
    (hclose : ∃ f r d, b.stack = f :: r ∧ b.put r d = some b') : b'.Begun S := by
  obtain ⟨f, r, d, hstack, hput⟩ := hclose
  have hframes := h.frames
  rw [hstack, List.forall_mem_cons] at hframes
  exact begun_put hframes.2 hput

/-- **What has begun goes on** until there is nothing more to read. -/
theorem begun_step (hS : Layout.Hereditary S) (h : b.Begun S) (hstep : b.step t = some b') :
    b'.Begun S := by
  have hvalue : b.expected = .value ∨ b.expected = .firstItem → b.value t = some b' →
      b'.Begun S := by
    intro hb
    refine begun_value hS h (h.stack_ne_nil fun d hd => ?_)
    rw [hd] at hb
    rcases hb with hb | hb <;> cases hb
  unfold step at hstep
  split at hstep
  case h_1 hb => exact hvalue (.inl hb) hstep
  case h_2 => exact begun_close h (closeList_eq_some hstep)
  case h_3 hb _ => exact hvalue (.inr hb) hstep
  case h_4 => exact begun_named h hstep
  case h_5 => exact begun_close h (closeRecord_eq_some hstep)
  case h_6 => exact begun_named h hstep
  case h_7 hb =>
    cases hstep
    have hne : b.stack ≠ [] := h.stack_ne_nil fun d hd => Expected.noConfusion (hb.symm.trans hd)
    exact ⟨fun hnil => absurd hnil hne, h.frames⟩
  case h_8 => exact begun_close h (closeList_eq_some hstep)
  case h_9 => exact begun_close h (closeRecord_eq_some hstep)
  case h_10 hb =>
    cases hstep
    have hne : b.stack ≠ [] := h.stack_ne_nil fun d hd => Expected.noConfusion (hb.symm.trans hd)
    have hstack : b.separate.stack = b.stack := by
      unfold separate
      split <;> rfl
    rw [← hstack] at hne
    exact ⟨fun hnil => absurd hnil hne, hstack ▸ h.frames⟩
  case h_11 => cases hstep

/-- So it does over any number of tokens. -/
theorem begun_steps (hS : Layout.Hereditary S) (h : b.Begun S) {ts : List Token}
    (hsteps : ts.foldlM step b = some b') : b'.Begun S := by
  induction ts generalizing b with
  | nil =>
    cases hsteps
    exact h
  | cons t ts ih =>
    rw [List.foldlM_cons] at hsteps
    obtain ⟨next, hstep, hrest⟩ := Option.bind_eq_some_iff.1 hsteps
    exact ih (begun_step hS h hstep) hrest

/-- A complete value takes no token. -/
theorem step_nothing {d : Document} (h : b.expected = .nothing d) (t : Token) :
    b.step t = none := by
  rw [step.eq_def, h]

/-- A record begins where a value is expected. -/
theorem step_beginRecord (h : ¬(b.expected = .value ∨ b.expected = .firstItem)) :
    b.step .beginRecord = none := by
  rw [not_or] at h
  cases he : b.expected with
  | value => exact absurd he h.1
  | firstItem => exact absurd he h.2
  | name | firstName | colon | next | surplus | nothing d => rw [step.eq_def, he]

/-- A number or a word is put where a value was expected. -/
theorem step_scalar_eq_some {d : Document} (h : b.step (.scalar d) = some b') :
    ∃ d', b.put b.stack d' = some b' := by
  cases he : b.expected with
  | value | firstItem =>
    rw [step.eq_def, he] at h
    exact value_scalar_eq_some h
  | name | firstName | colon | next | surplus | nothing d =>
    rw [step.eq_def, he] at h
    cases h

/-- Behind quoted text no surplus item is due. -/
theorem expected_text {s : Option String} (h : b.step (.text s) = some b') :
    b'.expected ≠ .surplus := by
  have hvalue : b.value (.text s) = some b' → b'.expected ≠ .surplus := by
    intro hs
    obtain ⟨d, hd⟩ := putScalar_eq_some hs
    exact expected_put hd
  have hnamed : b.named s = some b' → b'.expected ≠ .surplus := by
    intro hs
    unfold named at hs
    split at hs
    · split at hs
      · cases hs
      · cases hs
        exact Expected.noConfusion
    · cases hs
  cases he : b.expected with
  | value | firstItem =>
    rw [step.eq_def, he] at h
    exact hvalue h
  | name | firstName =>
    rw [step.eq_def, he] at h
    exact hnamed h
  | colon | next | surplus | nothing d =>
    rw [step.eq_def, he] at h
    cases h

end Builder

/-! ## A surplus item -/

/-- What is left to read of a surplus item has no brace in it, and is short. -/
def Surplus.Fair : Surplus → Prop
  | word rest => '{' ∉ rest
  | unit _ left _ => left ≤ 4
  | _ => True

namespace Surplus

theorem fair_start? {s : Surplus} {c : Char} (h : start? c = some s) : s.Fair := by
  unfold start? at h
  split at h
  · cases h
    exact True.intro
  split at h
  case h_4 =>
    cases h
    exact (by decide : '{' ∉ ['u', 'l', 'l'])
  case h_5 =>
    cases h
    exact (by decide : '{' ∉ ['r', 'u', 'e'])
  case h_6 =>
    cases h
    exact (by decide : '{' ∉ ['a', 'l', 's', 'e'])
  case h_7 =>
    split at h <;> cases h
    exact True.intro
  all_goals
    cases h
    exact True.intro

theorem fair_afterUnit (second : Bool) (n : Option Nat) : (afterUnit second n).Fair := by
  unfold afterUnit
  grind [Fair]

/-- Reading on leaves it so. -/
theorem fair_step {s s' : Surplus} {c : Char} (h : s.Fair) (hstep : s.step? c = some s') :
    s'.Fair := by
  cases s with
  | start => exact fair_start? hstep
  | unit second left n =>
    rw [step?] at hstep
    split at hstep
    · cases hstep
    split at hstep
    · cases hstep
      exact fair_afterUnit _ _
    · cases hstep
      exact (Nat.sub_le _ _).trans h
  | _ =>
    simp only [step?] at hstep
    grind [Fair, close?, giveUp?, afterDigits?, nextPower]

end Surplus

/-! ## A text that goes on -/

/-- The text of a list or record has begun. -/
def Reader.Begun (S : Layout → Prop) : Reader → Prop
  | tokens _ b => b.Begun S ∧ b.expected ≠ .surplus
  | surplus s b => b.Begun S ∧ s.Fair

namespace Reader

variable {S : Layout → Prop} {r r' : Reader} {b : Builder} {m : Mode}

/-- What has begun goes on in any mode. -/
theorem begun_resume (h : b.Begun S) (m : Mode) : (resume m b).Begun S := by
  unfold resume
  split
  case h_1 => exact ⟨h, True.intro⟩
  case h_2 hb => exact ⟨h, hb⟩

/-- **Reading on** leaves a list or record begun. -/
theorem begun_step (hS : Layout.Hereditary S) (h : r.Begun S) {c : Char}
    (hstep : r.step? c = some r') : r'.Begun S := by
  cases r with
  | tokens m b =>
    obtain ⟨⟨ts, k⟩, -, hsteps⟩ := Option.bind_eq_some_iff.1 hstep
    obtain ⟨b', hread, hresume⟩ := Option.bind_eq_some_iff.1 hsteps
    cases hresume
    exact begun_resume (Builder.begun_steps hS h.1 hread) k
  | surplus s b =>
    obtain ⟨s', hnext, hrest⟩ := Option.bind_eq_some_iff.1 hstep
    split at hrest
    · obtain ⟨b', hclose, hresume⟩ := Option.bind_eq_some_iff.1 hrest
      cases hresume
      obtain ⟨f, r, d, hstack, hput⟩ := Builder.closeList_eq_some hclose
      exact ⟨Builder.begun_close h.1 ⟨f, r, d, hstack, hput⟩, Builder.expected_put hput⟩
    · cases hrest
      exact ⟨h.1, Surplus.fair_step h.2 hnext⟩

/-- The reader after some characters. -/
def after? (r : Reader) (p : List Char) : Option Reader := p.foldlM step? r

theorem begun_after (hS : Layout.Hereditary S) (h : r.Begun S) {p : List Char}
    (hafter : r.after? p = some r') : r'.Begun S := by
  induction p generalizing r with
  | nil =>
    cases hafter
    exact h
  | cons c p ih =>
    rw [after?, List.foldlM_cons] at hafter
    obtain ⟨next, hstep, hrest⟩ := Option.bind_eq_some_iff.1 hafter
    exact ih (begun_step hS h hstep) hrest

/-- A text is read in parts. -/
theorem run?_append (r : Reader) (p q : List Char) :
    r.run? (p ++ q) = (r.after? p).bind fun r' => r'.run? q := by
  induction p generalizing r with
  | nil => rfl
  | cons c p ih =>
    have hcons : r.after? (c :: p) = (r.step? c).bind fun r' => r'.after? p := List.foldlM_cons
    rw [List.cons_append, run?, hcons, Option.bind_assoc]
    cases r.step? c with
    | none => rfl
    | some r' => exact ih r'

/-- A character that cannot be read leaves the text unread. -/
theorem run?_stuck {c : Char} {rest : List Char} (h : r.step? c = none) :
    r.run? (c :: rest) = none := by
  rw [run?, h]
  rfl

theorem step?_of_mode {c : Char} (h : m.step? c = none) : step? (tokens m b) c = none := by
  rw [step?, h]
  rfl

/-- A word or number is a token without parts. -/
theorem bareToken?_eq_some {cs : List Char} {t : Token} (h : bareToken? cs = some t) :
    ∃ d, t = .scalar d := by
  unfold bareToken? at h
  split at h
  case h_4 =>
    obtain ⟨n, -, rfl⟩ := Option.map_eq_some_iff.1 h
    exact ⟨_, rfl⟩
  all_goals
    cases h
    exact ⟨_, rfl⟩

/-- After a value no record begins. -/
theorem run?_beginRecord (hb : ¬(b.expected = .value ∨ b.expected = .firstItem))
    (rest : List Char) : run? (tokens .between b) ('{' :: rest) = none := by
  rw [run?_token (t := .beginRecord) rfl, Builder.step_beginRecord hb]
  rfl

/-- A word that there is not, in front of quoted text. -/
theorem run?_unknownWord (hb : b.expected ≠ .surplus) (rest : List Char) :
    run? (tokens .between b) ('b' :: 'a' :: 't' :: 'c' :: 'h' :: '"' :: rest) = none := by
  rw [run?_quiet hb (k := .bare ['b']) rfl, run?_quiet hb (k := .bare ['a', 'b']) rfl,
    run?_quiet hb (k := .bare ['t', 'a', 'b']) rfl,
    run?_quiet hb (k := .bare ['c', 't', 'a', 'b']) rfl,
    run?_quiet hb (k := .bare ['h', 'c', 't', 'a', 'b']) rfl]
  rfl

/-- Inside quoted text, a record ends the text with the quotation mark of its first name, and goes
on with a word that there is not. -/
theorem run?_quoted_glued (hb : b.expected ≠ .surplus) (reversed : List Char) (escaped : Bool)
    (rest : List Char) :
    run? (tokens (.quoted reversed escaped) b)
      ('{' :: '"' :: 'b' :: 'a' :: 't' :: 'c' :: 'h' :: '"' :: rest) = none := by
  have hbrace : (Mode.quoted reversed escaped).step? '{' =
      some ([], .quoted ('{' :: reversed) false) := by
    cases escaped <;> rfl
  rw [run?_quiet hb hbrace, run?_endQuote, textToken?]
  cases items? ('{' :: reversed).reverse with
  | none => rfl
  | some items =>
    rw [Option.map_some, Option.bind_some]
    cases hstep : b.step (.text ((join? items).map String.ofList)) with
    | none => rfl
    | some b' =>
      have hb' := Builder.expected_text hstep
      rw [Option.bind_some, resume_eq hb', run?_unknownWord hb']

/-- Nor is it part of a surplus item. -/
theorem run?_surplus_glued {s : Surplus} (h : s.Fair) (rest : List Char) :
    run? (surplus s b) ('{' :: '"' :: 'b' :: 'a' :: 't' :: rest) = none := by
  cases s with
  | word w =>
    cases w with
    | nil => rfl
    | cons d w =>
      have hd : '{' ≠ d := fun hd => h (hd ▸ List.mem_cons_self)
      have hstep : step? (surplus (.word (d :: w)) b) '{' = some (surplus .ended b) := by
        rw [step?, Surplus.step?, if_neg hd]
        rfl
      rw [run?, hstep]
      rfl
  | digits negative n =>
    have hdigits : (Surplus.digits negative n).step? '{' = none := by
      simp [Surplus.step?, Surplus.afterDigits?, Surplus.close?, isBlank]
    refine run?_stuck ?_
    rw [step?, hdigits]
    rfl
  | unit second left n =>
    -- The brace is no digit; the item is given up within as many bytes as were left.
    have hleft : left ≤ 4 := h
    have hcases : left = 0 ∨ left = 1 ∨ left = 2 ∨ left = 3 ∨ left = 4 := by omega
    rcases hcases with rfl | rfl | rfl | rfl | rfl <;> cases n <;> rfl
  | _ => rfl

/-- A word or number ends at any other character. -/
theorem run?_endBare {c : Char} (hc : isBare c = false) (reversed rest : List Char) :
    run? (tokens (.bare reversed) b) (c :: rest) =
      (bareToken? reversed.reverse).bind fun t =>
        (b.step t).bind fun b' => run? (tokens .between b') (c :: rest) := by
  cases htoken : bareToken? reversed.reverse with
  | none =>
    refine run?_stuck (step?_of_mode ?_)
    rw [Mode.step?, hc, htoken]
    rfl
  | some t => exact run?_bare_end htoken (ends_cons rest hc)

/-- A word or number that a record follows. -/
theorem run?_bare_glued (reversed rest : List Char) :
    run? (tokens (.bare reversed) b) ('{' :: rest) = none := by
  rw [run?_endBare (by decide)]
  refine Option.bind_eq_none_iff.2 fun t htoken => Option.bind_eq_none_iff.2 fun b' hstep => ?_
  obtain ⟨d, rfl⟩ := bareToken?_eq_some htoken
  obtain ⟨d', hput⟩ := Builder.step_scalar_eq_some hstep
  refine run?_beginRecord ?_ rest
  rcases Builder.expected_of_put hput with ⟨-, hb⟩ | ⟨-, hb⟩ <;> simp [hb]

/-- **A second record is no part of what has begun**, or leaves it unfinished. -/
theorem run?_glued (hS : Layout.Hereditary S) (h : r.Begun S) {d : Document}
    {fs : List (String × Document)}
    (hlegible : ∀ l, S l → ∀ depth, Legible l depth (.record (("batch", d) :: fs))) :
    r.run? (chars false 0 (.record (("batch", d) :: fs))) = none := by
  obtain ⟨rest, hchars⟩ : ∃ rest, chars false 0 (.record (("batch", d) :: fs)) =
      '{' :: '"' :: 'b' :: 'a' :: 't' :: 'c' :: 'h' :: '"' :: rest := ⟨_, rfl⟩
  cases r with
  | surplus s b =>
    rw [hchars]
    exact run?_surplus_glued h.2 _
  | tokens m b =>
    cases m with
    | quoted reversed escaped =>
      rw [hchars]
      exact run?_quoted_glued h.2 reversed escaped rest
    | bare reversed =>
      rw [hchars]
      exact run?_bare_glued reversed _
    | between =>
      by_cases hb : b.expected = .value ∨ b.expected = .firstItem
      · -- The record is an item or the value of a field, and what is around it stays open.
        have hne : b.stack ≠ [] := h.1.stack_ne_nil fun d hd => by
          rw [hd] at hb
          rcases hb with hb | hb <;> cases hb
        have hread := run?_chars false 0 (.record (("batch", d) :: fs)) hb
          (hlegible _ (h.1.nextLayout hS hne) _) ends_nil
        rw [List.append_nil] at hread
        rw [hread]
        refine Option.bind_eq_none_iff.2 fun b' hput => ?_
        have hnext := ((Builder.expected_of_put hput).resolve_left fun h => hne h.1).2
        simp [run?, finish?, Mode.finish?, hnext]
      · rw [hchars]
        exact run?_beginRecord hb _

/-- A complete value takes no token, and a brace ends up as one or inside quoted text. -/
theorem run?_complete {d : Document} (hb : b.expected = .nothing d) (m : Mode) (q : List Char) :
    run? (tokens m b) (q ++ ['}']) = none := by
  have hsurplus : b.expected ≠ .surplus := by
    rw [hb]
    exact Expected.noConfusion
  induction q generalizing m with
  | nil =>
    cases m with
    | between =>
      rw [List.nil_append, run?_token (t := .endRecord) rfl, Builder.step_nothing hb]
      rfl
    | quoted reversed escaped =>
      have hbrace : (Mode.quoted reversed escaped).step? '}' =
          some ([], .quoted ('}' :: reversed) false) := by
        cases escaped <;> rfl
      rw [List.nil_append, run?_quiet hsurplus hbrace]
      rfl
    | bare reversed =>
      rw [List.nil_append, run?_endBare (by decide)]
      refine Option.bind_eq_none_iff.2 fun t _ => ?_
      rw [Builder.step_nothing hb]
      rfl
  | cons c q ih =>
    cases hmode : m.step? c with
    | none => exact run?_stuck (step?_of_mode hmode)
    | some next =>
      obtain ⟨ts, k⟩ := next
      cases ts with
      | nil => rw [List.cons_append, run?_quiet hsurplus hmode, ih k]
      | cons t ts =>
        refine run?_stuck ?_
        rw [step?, hmode]
        change ((t :: ts).foldlM Builder.step b).bind _ = none
        rw [List.foldlM_cons, Builder.step_nothing hb]
        rfl

/-- What has begun can end only where its value is complete. -/
theorem expected_of_finish (h : Builder.Begun S b) {d : Document}
    (hfinish : finish? (tokens m b) = some d) : b.expected = .nothing d := by
  obtain ⟨ts, hts, hrest⟩ := Option.bind_eq_some_iff.1 hfinish
  obtain ⟨b', hsteps, hlast⟩ := Option.bind_eq_some_iff.1 hrest
  have hb' : b'.expected = .nothing d := by
    split at hlast
    case h_1 he =>
      cases hlast
      exact he
    case h_2 => cases hlast
  cases m with
  | between =>
    cases hts
    cases hsteps
    exact hb'
  | quoted reversed escaped => cases hts
  | bare reversed =>
    -- A last number or word is put into what is open, which it does not complete.
    obtain ⟨t, htoken, rfl⟩ := Option.map_eq_some_iff.1 hts
    obtain ⟨d', rfl⟩ := bareToken?_eq_some htoken
    rw [List.foldlM_cons] at hsteps
    obtain ⟨b₁, hstep, hnil⟩ := Option.bind_eq_some_iff.1 hsteps
    cases hnil
    obtain ⟨d', hput⟩ := Builder.step_scalar_eq_some hstep
    rcases Builder.expected_of_put hput with ⟨hstack, -⟩ | ⟨-, hnext⟩
    · obtain ⟨d', hd'⟩ := h.done hstack
      rw [Builder.step_nothing hd'] at hstep
      cases hstep
    · rw [hnext] at hb'
      cases hb'

/-- **What can end where it has begun cannot go on** to the end of a record. -/
theorem run?_finished (h : r.Begun S) {d : Document} (hfinish : r.finish? = some d)
    (q : List Char) : r.run? (q ++ ['}']) = none := by
  cases r with
  | tokens m b => exact run?_complete (expected_of_finish h.1 hfinish) m q
  | surplus s b => cases hfinish

end Reader

/-! ## Whole texts -/

/-- Behind the brace of a record. -/
def Reader.opened (l : Layout) : Reader := .tokens .between ⟨l, [.record l [] true], .firstName⟩

/-- The text of a record is read in parts. -/
theorem read?_brace (l : Layout) (p q : List Char) :
    read? l (String.ofList ('{' :: (p ++ q))) =
      ((Reader.opened l).after? p).bind fun r => r.run? q := by
  have hbrace : Reader.run? (.tokens .between (.start l)) ('{' :: (p ++ q)) =
      Reader.run? (Reader.opened l) (p ++ q) :=
    Reader.run?_open (t := .beginRecord) (f := (.record · [] true)) (.inl rfl) rfl
      Token.noConfusion rfl Expected.noConfusion fun _ => (by decide : 0 < maxDepth)
  rw [read?, String.toList_ofList, hbrace]
  exact Reader.run?_append (Reader.opened l) p q

section Texts

variable {S : Layout → Prop} {l : Layout} (hS : Layout.Hereditary S)
  (hitem : ∀ index, S (l.item index)) (hfield : ∀ name, S (l.field name))
include hS hitem hfield

/-- A record has begun with its brace, and goes on. -/
theorem begun_after_brace {p : List Char} {r : Reader}
    (h : (Reader.opened l).after? p = some r) : r.Begun S := by
  have hopened : (Reader.opened l).Begun S := by
    refine ⟨⟨fun hnil => absurd hnil (List.cons_ne_nil _ _), ?_⟩, Expected.noConfusion⟩
    intro f hf
    rw [List.mem_singleton.1 hf]
    exact ⟨hitem, hfield⟩
  exact Reader.begun_after hS hopened h

/-- **A record that was left off and is followed by another one** makes no text of a document. -/
theorem read?_glued {d : Document} {fs : List (String × Document)}
    (hlegible : ∀ l, S l → ∀ depth, Legible l depth (.record (("batch", d) :: fs)))
    (p : List Char) :
    read? l (String.ofList ('{' :: (p ++ chars false 0 (.record (("batch", d) :: fs))))) =
      none := by
  rw [read?_brace]
  refine Option.bind_eq_none_iff.2 fun r hr => ?_
  exact Reader.run?_glued hS (begun_after_brace hS hitem hfield hr) hlegible

/-- **Of two texts of records**, one of which goes on as the other, at most one is read. -/
theorem read?_longer {p q : List Char} (hread : read? l (String.ofList ('{' :: p)) ≠ none) :
    read? l (String.ofList ('{' :: (p ++ (q ++ ['}'])))) = none := by
  have hshort := read?_brace l p []
  rw [List.append_nil] at hshort
  rw [hshort] at hread
  rw [read?_brace]
  refine Option.bind_eq_none_iff.2 fun r hr => ?_
  rw [hr, Option.bind_some] at hread
  obtain ⟨d, hfinish⟩ := Option.ne_none_iff_exists'.1 hread
  exact Reader.run?_finished (begun_after_brace hS hitem hfield hr) hfinish q

end Texts

end Json

end VaultKeeper
