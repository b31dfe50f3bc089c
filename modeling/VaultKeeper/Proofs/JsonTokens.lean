import Mathlib.Data.List.TakeWhile
import VaultKeeper.Json

/-! # Tokens that are written are read

The text of a document is made of brackets and separators, quoted text, and bare words that end
where something else follows. Whatever the reader has built so far, it finds each of these as the
token that was written, and goes on behind it. -/

namespace VaultKeeper.Json

/-! ## Quoted text -/

/-- Hexadecimal digits are read back. -/
theorem digit?_digit {n : Nat} (h : n < 16) : Hex.digit? (Hex.digit n) = some n := by
  decide +revert

/-- Four digits are read back. -/
theorem hex4?_hex4 {n : Nat} (h : n < 2 ^ 16) :
    hex4? (Hex.digit (n / 4096 % 16)) (Hex.digit (n / 256 % 16)) (Hex.digit (n / 16 % 16))
      (Hex.digit (n % 16)) = some n := by
  have hdigit : ∀ m, Hex.digit? (Hex.digit (m % 16)) = some (m % 16) := fun m =>
    digit?_digit (Nat.mod_lt m (by decide))
  rw [hex4?, hdigit, hdigit, hdigit, hdigit]
  exact congrArg some (by omega)

/-- The digits of a number are digits. -/
theorem isDigit_digit {n : Nat} (h : n < 16) : 32 ≤ (Hex.digit n).toNat ∧ Hex.digit n ≠ '"' ∧
    Hex.digit n ≠ '\\' := by
  decide +revert

/-- How a character is written: as itself, with a short escape, or as four digits. -/
inductive Escaped (c : Char) : List Char → Prop
  /-- As itself. -/
  | plain (hquote : c ≠ '"') (hslash : c ≠ '\\') (hbound : 32 ≤ c.toNat) : Escaped c [c]
  /-- With a letter after a backslash. -/
  | short {e : Char} (hmark : e ≠ 'u') (hletter : shortEscape? e = some c) : Escaped c ['\\', e]
  /-- As its number. -/
  | coded (hbound : c.toNat < 32) : Escaped c ('\\' :: 'u' :: hex4 c.toNat)

/-- Every character is written in one of these ways. -/
theorem escaped_escapeChar (c : Char) : Escaped c (escapeChar c) := by
  unfold escapeChar
  split
  case h_1 => exact .short (by decide) rfl
  case h_2 => exact .short (by decide) rfl
  case h_3 => exact .short (by decide) rfl
  case h_4 => exact .short (by decide) rfl
  case h_5 => exact .short (by decide) rfl
  case h_6 => exact .short (by decide) rfl
  case h_7 => exact .short (by decide) rfl
  case h_8 hquote hslash _ _ _ _ _ =>
    by_cases hbound : c.toNat < 32
    · rw [if_pos hbound]
      exact .coded hbound
    · rw [if_neg hbound]
      exact .plain hquote hslash (Nat.le_of_not_lt hbound)

/-- An item stands for a character. A unit does when it is no half of a surrogate pair. -/
inductive Item.Means (c : Char) : Item → Prop
  /-- The character itself. -/
  | char : Means c (.char c)
  /-- The number of a control character. -/
  | unit (hbound : c.toNat < 32) : Means c (.unit c.toNat)

/-- A written character is read as an item that stands for it. -/
theorem Escaped.items? {c : Char} {cs : List Char} (h : Escaped c cs) :
    ∃ i : Item, i.Means c ∧ ∀ r, Json.items? (cs ++ r) = (Json.items? r).map (i :: ·) := by
  cases h with
  | plain hquote hslash hbound =>
    refine ⟨.char c, .char, fun r => ?_⟩
    rw [List.singleton_append, Json.items?, if_neg hslash]
    · intro _ _ _ _ _ h _
      exact hslash h
    · intro _ _ h _
      exact hslash h
  | @short e hmark hletter =>
    refine ⟨.char c, .char, fun r => ?_⟩
    rw [List.cons_append, List.singleton_append, Json.items?, hletter]
    · cases Json.items? r <;> rfl
    · intro _ _ _ _ _ h _
      exact hmark h
  | coded hbound =>
    refine ⟨.unit c.toNat, .unit hbound, fun r => ?_⟩
    change Json.items? ('\\' :: 'u' :: _ :: _ :: _ :: _ :: r) = _
    rw [Json.items?, hex4?_hex4 (by omega)]
    cases Json.items? r <;> rfl

/-- Items are joined to the characters that they stand for. -/
theorem Item.Means.join? {c : Char} {i : Item} (h : i.Means c) (r : List Item) :
    Json.join? (i :: r) = (Json.join? r).map (c :: ·) := by
  cases h with
  | char => rw [Json.join?]
  | unit hbound =>
    have hhigh : isHigh c.toNat = false := by
      rw [isHigh, decide_eq_false (by omega)]
      rfl
    have hlow : isLow c.toNat = false := by
      rw [isLow, decide_eq_false (by omega)]
      rfl
    have hchar : Char.ofNat c.toNat = c := Char.ofNat_toNat c
    cases r with
    | nil => simp [Json.join?, hhigh, hlow, hchar]
    | cons next r => cases next <;> simp [Json.join?, hhigh, hlow, hchar]

/-- **Quoted text is read back.** -/
theorem textToken?_escape (s : String) : textToken? (escape s.toList) = some (.text (some s)) := by
  have hitems : ∀ cs : List Char, ∃ is, items? (escape cs) = some is ∧ join? is = some cs := by
    intro cs
    induction cs with
    | nil => exact ⟨[], rfl, rfl⟩
    | cons c cs ih =>
      obtain ⟨is, hread, hjoin⟩ := ih
      obtain ⟨i, hmeans, hitem⟩ := (escaped_escapeChar c).items?
      refine ⟨i :: is, ?_, ?_⟩
      · rw [escape, List.flatMap_cons, hitem]
        exact congrArg (Option.map (i :: ·)) hread
      · rw [hmeans.join?, hjoin, Option.map_some]
  obtain ⟨is, hread, hjoin⟩ := hitems s.toList
  rw [textToken?, hread, Option.map_some, hjoin, Option.map_some, String.ofList_toList]

/-! ## Bare words -/

/-- Digits that spell a number below `2 ^ 64` are gathered whole. -/
theorem gather_eq {m : Nat} {ds : List Char} (h : Nat.ofDigitChars 10 ds m < 2 ^ 64) :
    Numeral.gather m ds = (Nat.ofDigitChars 10 ds m, []) := by
  induction ds generalizing m with
  | nil => rfl
  | cons d ds ih =>
    rw [Nat.ofDigitChars_cons] at h ⊢
    have hnext : m * 10 + (d.toNat - 48) = 10 * m + (d.toNat - '0'.toNat) := by
      rw [Nat.mul_comm]
      rfl
    have hle : 10 * m + (d.toNat - '0'.toNat) ≤
        Nat.ofDigitChars 10 ds (10 * m + (d.toNat - '0'.toNat)) := by
      rw [Nat.ofDigitChars_eq_ofDigitChars_zero]
      have hpow : 1 ≤ 10 ^ ds.length := Nat.one_le_pow _ _ (by decide)
      calc 10 * m + (d.toNat - '0'.toNat)
          = 1 * (10 * m + (d.toNat - '0'.toNat)) := (Nat.one_mul _).symm
        _ ≤ 10 ^ ds.length * (10 * m + (d.toNat - '0'.toNat)) := Nat.mul_le_mul_right _ hpow
        _ ≤ _ := Nat.le_add_right _ _
    rw [Numeral.gather, hnext, if_pos (by omega), ih h]

/-- Only zero starts with a zero. -/
theorem head?_toDigits {n : Nat} (h : 0 < n) : (Nat.toDigits 10 n).head? ≠ some '0' := by
  induction n using Nat.strongRecOn with
  | ind n ih =>
    by_cases hbig : 10 ≤ n
    · rw [Nat.toDigits_of_base_le (by decide) hbig, List.head?_append]
      intro hzero
      cases hhead : (Nat.toDigits 10 (n / 10)).head? with
      | none => exact Nat.toDigits_ne_nil (List.head?_eq_none_iff.1 hhead)
      | some c =>
        rw [hhead] at hzero
        exact ih (n / 10) (by omega) (by omega) (hhead.trans hzero)
    · have hdigit : ∀ m < 10, 0 < m → some (Nat.digitChar m) ≠ some '0' := by decide
      rw [Nat.toDigits_of_lt_base (by omega), List.head?_cons]
      exact hdigit n (by omega) h

/-- The digits of a number, in which no zero leads. -/
theorem leading_toDigits (n : Nat) (h : (Nat.toDigits 10 n).length ≠ 1) :
    (Nat.toDigits 10 n).head? ≠ some '0' := by
  refine head?_toDigits (Nat.pos_of_ne_zero fun hzero => h ?_)
  rw [hzero]
  rfl

/-- The parts of a whole number. -/
theorem ofChars?_of_digits {ds : List Char} (hdigits : ∀ c ∈ ds, c.isDigit = true) (hne : ds ≠ [])
    (hleading : ds.length ≠ 1 → ds.head? ≠ some '0') :
    Numeral.ofChars? ds = some ⟨false, ds, none, none⟩ := by
  have htake : ds.takeWhile Char.isDigit = ds := List.takeWhile_eq_self_iff.2 hdigits
  have hdrop : ds.dropWhile Char.isDigit = [] := List.dropWhile_eq_nil_iff.2 hdigits
  have hguard :
      (ds.isEmpty || (decide (ds.length ≠ 1) && decide (ds.head? = some '0'))) = false := by
    rw [List.isEmpty_eq_false_iff.2 hne, Bool.false_or, Bool.and_eq_false_iff]
    by_cases hone : ds.length = 1
    · exact .inl (decide_eq_false fun h => h hone)
    · exact .inr (decide_eq_false (hleading hone))
  rw [Numeral.ofChars?.eq_def]
  split
  case h_1 negative cs hsign =>
    split at hsign
    · exact absurd (hdigits '-' List.mem_cons_self) (by decide)
    cases hsign
    simp only [htake, hdrop]
    rw [hguard]
    rfl

/-- **A whole number below `2 ^ 64` is read back.** -/
theorem bareToken?_toDigits {n : Nat} (h : n < 2 ^ 64) :
    bareToken? (Nat.toDigits 10 n) = some (.scalar (.int n)) := by
  have hdigits : ∀ c ∈ Nat.toDigits 10 n, c.isDigit = true := fun c hc =>
    Nat.isDigit_of_mem_toDigits (by decide) (by decide) hc
  have hgather : Numeral.gather 0 (Nat.toDigits 10 n) = (n, []) := by
    rw [gather_eq (by rwa [Nat.ofDigitChars_ten_toDigits]), Nat.ofDigitChars_ten_toDigits]
  have hnumber : (Numeral.ofChars? (Nat.toDigits 10 n)).map (Token.scalar ·.value) =
      some (.scalar (.int n)) := by
    rw [ofChars?_of_digits hdigits Nat.toDigits_ne_nil (leading_toDigits n), Option.map_some,
      Numeral.value, hgather]
    rfl
  unfold bareToken?
  split
  case h_1 hword => exact absurd (hdigits 'n' (by simp [hword])) (by decide)
  case h_2 hword => exact absurd (hdigits 't' (by simp [hword])) (by decide)
  case h_3 hword => exact absurd (hdigits 'f' (by simp [hword])) (by decide)
  case h_4 => exact hnumber

/-! ## Reading on -/

/-- A word or number ends where the text goes on: not with one of their characters. -/
def Ends (rest : List Char) : Prop := ∀ c ∈ rest.head?, isBare c = false

theorem ends_nil : Ends [] := fun _ h => nomatch h

theorem ends_cons {c : Char} (rest : List Char) (h : isBare c = false) : Ends (c :: rest) := by
  intro c' hc
  cases hc
  exact h

namespace Reader

variable {b : Builder} {m : Mode} {c : Char} {rest : List Char} {t : Token}

/-- Where no surplus item is due, the next character is read among the tokens. -/
theorem resume_eq (h : b.expected ≠ .surplus) (m : Mode) : resume m b = tokens m b := by
  unfold resume
  split
  case h_1 hsurplus => exact absurd hsurplus h
  case h_2 => rfl

/-- A character that completes no token. -/
theorem run?_quiet {k : Mode} (hb : b.expected ≠ .surplus) (hstep : m.step? c = some ([], k)) :
    run? (tokens m b) (c :: rest) = run? (tokens k b) rest := by
  have hread : step? (tokens m b) c = some (tokens k b) := by
    rw [step?, hstep]
    exact congrArg some (resume_eq hb k)
  rw [run?, hread]
  rfl

/-- A character that is a token. -/
theorem run?_token (hstep : start? c = some ([t], .between)) :
    run? (tokens .between b) (c :: rest) =
      (b.step t).bind fun b' => run? (resume .between b') rest := by
  have hread : step? (tokens .between b) c = (b.step t).map (resume .between) := by
    rw [step?, Mode.step?, hstep]
    change ([t].foldlM Builder.step b).bind _ = _
    rw [List.foldlM_cons]
    cases b.step t <;> rfl
  rw [run?, hread]
  cases b.step t <;> rfl

/-- White space is passed over. -/
theorem run?_blank (hb : b.expected ≠ .surplus) (hc : isBlank c = true) :
    run? (tokens .between b) (c :: rest) = run? (tokens .between b) rest := by
  refine run?_quiet hb ?_
  rw [Mode.step?]
  unfold start?
  split
  case h_8 => rw [if_pos hc]
  all_goals exact absurd hc (by decide)

/-- The inside of quoted text, up to its end. -/
theorem run?_escapeChar (hb : b.expected ≠ .surplus) {c : Char} {cs : List Char}
    (h : Escaped c cs) (reversed : List Char) :
    run? (tokens (.quoted reversed false) b) (cs ++ rest) =
      run? (tokens (.quoted (cs.reverse ++ reversed) false) b) rest := by
  -- A character that is no quotation mark and no backslash is put to the others.
  have hplain : ∀ (c : Char) (cs reversed : List Char), 32 ≤ c.toNat → c ≠ '"' → c ≠ '\\' →
      run? (tokens (.quoted reversed false) b) (c :: cs) =
        run? (tokens (.quoted (c :: reversed) false) b) cs := by
    intro c cs reversed hbound hquote hslash
    refine run?_quiet hb ?_
    rw [Mode.step?, if_neg hquote, if_neg (Nat.not_lt.2 hbound), decide_eq_false hslash]
  have hslash : ∀ (c : Char) (cs reversed : List Char),
      run? (tokens (.quoted reversed false) b) ('\\' :: c :: cs) =
        run? (tokens (.quoted (c :: '\\' :: reversed) false) b) cs := by
    intro c cs reversed
    rw [run?_quiet hb (k := .quoted ('\\' :: reversed) true) rfl]
    exact run?_quiet hb rfl
  have hdigit : ∀ (n : Nat) (cs reversed : List Char),
      run? (tokens (.quoted reversed false) b) (Hex.digit (n % 16) :: cs) =
        run? (tokens (.quoted (Hex.digit (n % 16) :: reversed) false) b) cs := by
    intro n cs reversed
    obtain ⟨hbound, hquote, hslash⟩ := isDigit_digit (Nat.mod_lt n (by decide : 0 < 16))
    exact hplain _ _ _ hbound hquote hslash
  cases h with
  | plain hquote hslash hbound => exact hplain c rest reversed hbound hquote hslash
  | short => exact hslash _ rest reversed
  | coded =>
    rw [hex4, List.cons_append, List.cons_append, hslash]
    simp only [List.cons_append, List.nil_append, hdigit]
    rfl

/-- Quoted text ends at a quotation mark. -/
theorem run?_endQuote (reversed : List Char) :
    run? (tokens (.quoted reversed false) b) ('"' :: rest) =
      (textToken? reversed.reverse).bind fun t =>
        (b.step t).bind fun b' => run? (resume .between b') rest := by
  have hread : step? (tokens (.quoted reversed false) b) '"' =
      (textToken? reversed.reverse).bind fun t => (b.step t).map (resume .between) := by
    rw [step?, Mode.step?, if_pos rfl]
    cases textToken? reversed.reverse with
    | none => rfl
    | some t =>
      rw [Option.bind_some]
      change ([t].foldlM Builder.step b).bind _ = _
      rw [List.foldlM_cons]
      cases b.step t <;> rfl
  rw [run?, hread]
  cases textToken? reversed.reverse with
  | none => rfl
  | some t => cases hstep : b.step t <;> simp [hstep]

/-- **Quoted text is read as its token.** -/
theorem run?_quote (hb : b.expected ≠ .surplus) (s : String) :
    run? (tokens .between b) (quote s ++ rest) =
      (b.step (.text (some s))).bind fun b' => run? (resume .between b') rest := by
  have hinside : ∀ (cs reversed rest : List Char),
      run? (tokens (.quoted reversed false) b) (escape cs ++ rest) =
        run? (tokens (.quoted ((escape cs).reverse ++ reversed) false) b) rest := by
    intro cs
    induction cs with
    | nil => exact fun _ _ => rfl
    | cons c cs ih =>
      intro reversed rest
      rw [escape, List.flatMap_cons, List.append_assoc, run?_escapeChar hb (escaped_escapeChar c),
        List.reverse_append, List.append_assoc]
      exact ih _ _
  rw [quote, List.cons_append, List.cons_append, List.append_assoc,
    run?_quiet hb (k := .quoted [] false) rfl, hinside, List.append_nil, List.singleton_append,
    run?_endQuote, List.reverse_reverse, textToken?_escape, Option.bind_some]

/-- The first character of a bare word. -/
theorem start?_of_isBare {c : Char} (h : isBare c = true) : start? c = some ([], .bare [c]) := by
  have hblank : ¬isBlank c = true := by
    intro hblank
    simp only [isBlank, Bool.or_eq_true, decide_eq_true_eq] at hblank
    rcases hblank with ((rfl | rfl) | rfl) | rfl <;> exact absurd h (by decide)
  unfold start?
  split
  case h_8 => rw [if_neg hblank, if_pos h]
  all_goals exact absurd h (by decide)

/-- A bare word is complete at the character after it, or at the end. -/
theorem run?_bare_end {reversed : List Char} (htoken : bareToken? reversed.reverse = some t)
    (hrest : Ends rest) :
    run? (tokens (.bare reversed) b) rest =
      (b.step t).bind fun b' => run? (tokens .between b') rest := by
  have hread : ∀ ts : List Token, (t :: ts).foldlM Builder.step b =
      (b.step t).bind fun b' => ts.foldlM Builder.step b' := fun ts => List.foldlM_cons
  cases rest with
  | nil =>
    have hend : (Mode.bare reversed).finish? = some [t] := by
      rw [Mode.finish?, htoken]
      rfl
    rw [run?, finish?, hend]
    change ([t].foldlM Builder.step b).bind _ = _
    rw [hread]
    cases b.step t <;> rfl
  | cons c rest =>
    have hend : (Mode.bare reversed).step? c =
        (start? c).map fun next => (t :: next.1, next.2) := by
      rw [Mode.step?, hrest c rfl, htoken]
      cases start? c <;> rfl
    have hstep : step? (tokens (.bare reversed) b) c =
        (b.step t).bind fun b' => step? (tokens .between b') c := by
      rw [step?, hend]
      change _ = (b.step t).bind fun b' =>
        (start? c).bind fun next => (next.1.foldlM Builder.step b').bind fun b' =>
          some (resume next.2 b')
      cases start? c with
      | none => cases b.step t <;> rfl
      | some next =>
        change ((t :: next.1).foldlM Builder.step b).bind _ = _
        rw [hread]
        cases b.step t <;> rfl
    rw [run?, hstep]
    cases b.step t <;> rfl

/-- **A bare word is read as its token** when something else follows it. -/
theorem run?_bare {cs : List Char} (hb : b.expected ≠ .surplus) (hne : cs ≠ [])
    (hcs : ∀ c ∈ cs, isBare c = true) (htoken : bareToken? cs = some t) (hrest : Ends rest) :
    run? (tokens .between b) (cs ++ rest) =
      (b.step t).bind fun b' => run? (tokens .between b') rest := by
  have hinside : ∀ (cs reversed rest : List Char), (∀ c ∈ cs, isBare c = true) →
      run? (tokens (.bare reversed) b) (cs ++ rest) =
        run? (tokens (.bare (cs.reverse ++ reversed)) b) rest := by
    intro cs
    induction cs with
    | nil => exact fun _ _ _ => rfl
    | cons c cs ih =>
      intro reversed rest hcs
      rw [List.cons_append, run?_quiet hb (k := .bare (c :: reversed))
        (by rw [Mode.step?, if_pos (hcs c List.mem_cons_self)]),
        ih _ _ fun c' hc' => hcs c' (List.mem_cons_of_mem _ hc'), List.reverse_cons,
        List.append_assoc, List.singleton_append]
  obtain ⟨c, cs, rfl⟩ := List.exists_cons_of_ne_nil hne
  have hstart : Mode.between.step? c = some ([], .bare [c]) :=
    start?_of_isBare (hcs c List.mem_cons_self)
  rw [List.cons_append, run?_quiet hb hstart,
    hinside _ _ _ fun c' hc' => hcs c' (List.mem_cons_of_mem _ hc')]
  refine run?_bare_end ?_ hrest
  rwa [List.reverse_append, List.reverse_reverse]

end Reader

end VaultKeeper.Json
