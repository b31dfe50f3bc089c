import Mathlib.Data.List.TakeWhile
import VaultKeeper.Instant

/-! # Instants are read back

The calendar counts days from the date that it finds for a number of days, and a number is read back
from its digits. So an instant is read back from its text. -/

namespace VaultKeeper.Instant

/-! ## The calendar -/

namespace Date

/-- A day lies in one of the 400 years of its era, and on one of the 366 days of that year. -/
theorem dayOfYear_bounds {n year : Nat} (hn : n ≤ 146096)
    (hyear : year = (n - n / 1460 + n / 36524 - n / 146096) / 365) :
    year ≤ 399 ∧ 365 * year + year / 4 - year / 100 ≤ n ∧
      n ≤ 365 * year + year / 4 - year / 100 + 365 := by
  -- The last day of an era is the leap day of a century.
  have hcentury : n = 146096 ∨ n / 36524 ≤ 3 ∧ n / 146096 = 0 := by omega
  rcases hcentury with rfl | ⟨hcentury, hera⟩
  · omega
  · have hleap : year / 4 ≤ n / 1460 ∧ n / 1460 ≤ year / 4 + 1 := by omega
    have hcenturies : year / 100 = n / 36524 := by omega
    omega

/-- The date of a day of a year, both counted from March, has that day. -/
theorem toDays_of_dayOfYear {day year : Nat} (hday : day ≤ 365) (hyear : year ≤ 399) (era : Int) :
    let month := (5 * day + 2) / 153
    let ofMonth := day - (153 * month + 2) / 5 + 1
    let y : Int := year + era * 400
    toDays (if month < 10 then ⟨y, month + 3, ofMonth⟩ else ⟨y + 1, month - 9, ofMonth⟩) =
      era * 146097 + (365 * year + year / 4 - year / 100 + day : Nat) - 719468 := by
  intro month ofMonth y
  have hmonth : month = (5 * day + 2) / 153 := rfl
  have hofMonth : (153 * month + 2) / 5 + ofMonth - 1 = day := by omega
  have hquarter : y.fdiv 4 = year / 4 + era * 100 := by
    rw [Int.fdiv_eq_ediv_of_nonneg _ (by decide)]
    omega
  have hcentury : y.fdiv 100 = year / 100 + era * 4 := by
    rw [Int.fdiv_eq_ediv_of_nonneg _ (by decide)]
    omega
  have hera : y.fdiv 400 = era := by
    rw [Int.fdiv_eq_ediv_of_nonneg _ (by decide)]
    omega
  split
  case isTrue hlt =>
    have hnext : ¬month + 3 ≤ 2 := by omega
    have hindex : (month + 3 + 9) % 12 = month := by omega
    simp only [toDays, if_neg hnext, hindex, hofMonth, hquarter, hcentury, hera]
    omega
  case isFalse hge =>
    have hnext : month - 9 ≤ 2 := by omega
    have hindex : (month - 9 + 9) % 12 = month := by omega
    simp only [toDays, if_pos hnext, hindex, hofMonth, Int.add_sub_cancel, hquarter, hcentury,
      hera]
    omega

/-- **The calendar is one to one.** -/
theorem toDays_ofDays (days : Int) : (ofDays days).toDays = days := by
  have hera : (days + 719468).fdiv 146097 = (days + 719468) / 146097 :=
    Int.fdiv_eq_ediv_of_nonneg _ (by decide)
  generalize (days + 719468) / 146097 = era at hera
  have hn : (days + 719468 - era * 146097).toNat ≤ 146096 := by
    rw [Int.fdiv_eq_ediv_of_nonneg _ (by decide)] at hera
    omega
  obtain ⟨hyear, hle, hlt⟩ := dayOfYear_bounds hn rfl
  have hdays := toDays_of_dayOfYear (Nat.sub_le_iff_le_add'.2 hlt) hyear era
  have hnonneg : 0 ≤ days + 719468 - era * 146097 := by
    rw [Int.fdiv_eq_ediv_of_nonneg _ (by decide)] at hera
    omega
  rw [ofDays]
  simp only [hera]
  rw [hdays]
  omega

end Date

/-! ## Digits -/

variable {n width : Nat} {ds rest : List Char} {c : Char}

/-- A digit is no white space. -/
theorem isBlank_of_isDigit (h : c.isDigit = true) : isBlank c = false := by
  have hdigit : 48 ≤ c.toNat ∧ c.toNat ≤ 57 := Char.isDigit_iff_toNat.1 h
  simp [isBlank]
  omega

theorem isDigit_of_mem_padded (h : c ∈ padded width n) : c.isDigit = true := by
  rcases List.mem_append.1 h with h | h
  · rw [List.eq_of_mem_replicate h]
    rfl
  · exact Nat.isDigit_of_mem_toDigits (by decide) (by decide) h

theorem padded_ne_nil (width n : Nat) : padded width n ≠ [] :=
  List.append_ne_nil_of_right_ne_nil _ Nat.toDigits_ne_nil

/-- A number that fits has as many digits as there is room for. -/
theorem length_padded (hwidth : 0 < width) (h : n < 10 ^ width) :
    (padded width n).length = width := by
  have hle := (Nat.length_toDigits_le_iff (by decide) hwidth).2 h
  rw [padded, List.length_append, List.length_replicate]
  omega

/-- **Digits spell the number that was written.** -/
theorem digitsValue_padded (width n : Nat) : digitsValue (padded width n) = n := by
  have hvalue : ∀ ds, digitsValue ds = Nat.ofDigitChars 10 ds 0 := by
    intro ds
    rw [digitsValue, Nat.ofDigitChars]
    refine congrArg (fun f => List.foldl f 0 ds) (funext₂ fun m c => ?_)
    rw [Nat.mul_comm]
    rfl
  have hzeros : ∀ k, Nat.ofDigitChars 10 (List.replicate k '0') 0 = 0 := by
    intro k
    induction k with
    | zero => rfl
    | succ k ih => rw [List.replicate_succ, Nat.ofDigitChars_cons]; exact ih
  rw [hvalue, padded, Nat.ofDigitChars_append, hzeros, Nat.ofDigitChars_ten_toDigits]

/-- White space is not skipped where there is none. -/
theorem skipBlank_cons (h : isBlank c = false) (cs : List Char) :
    skipBlank (c :: cs) = c :: cs := by
  rw [skipBlank, List.dropWhile_cons, h]
  rfl

/-- What follows a number is no digit. -/
def Ends (rest : List Char) : Prop := ∀ c ∈ rest.head?, c.isDigit = false

/-- **A number is read back**, when there is no room for more digits or none follows. -/
theorem number?_padded {room : Nat} (hlength : (padded width n).length ≤ room)
    (hend : (padded width n).length = room ∨ Ends rest) :
    number? room (padded width n ++ rest) = some (n, rest) := by
  have hdigits : ∀ c ∈ padded width n, c.isDigit = true := fun c => isDigit_of_mem_padded
  have hvalue := digitsValue_padded width n
  obtain ⟨d, ds, hds⟩ := List.exists_cons_of_ne_nil (padded_ne_nil width n)
  generalize padded width n = written at *
  have hskip : skipBlank (written ++ rest) = written ++ rest := by
    rw [hds, List.cons_append]
    exact skipBlank_cons (isBlank_of_isDigit (hdigits d (hds ▸ List.mem_cons_self))) _
  have hrest : (rest.take (room - written.length)).takeWhile Char.isDigit = [] := by
    rcases hend with hfull | hend
    · rw [hfull, Nat.sub_self]
      rfl
    · cases rest with
      | nil => rw [List.take_nil]; rfl
      | cons c rest =>
        cases room - written.length with
        | zero => rfl
        | succ k => rw [List.take_succ_cons, List.takeWhile_cons, hend c rfl]; rfl
  have hread : ((written ++ rest).take room).takeWhile Char.isDigit = written := by
    rw [List.take_append, List.take_of_length_le hlength, List.takeWhile_append_of_pos hdigits,
      hrest, List.append_nil]
  have hne : written.isEmpty = false := by rw [hds]; rfl
  simp only [number?, hskip, hread, hne, hvalue, List.drop_left, Bool.false_eq_true, if_false]

/-- A number of two digits. -/
theorem number?_two (h : n < 100) (rest : List Char) :
    number? 2 (padded 2 n ++ rest) = some (n, rest) := by
  have hlength : (padded 2 n).length = 2 := length_padded (by decide) h
  exact number?_padded hlength.le (.inl hlength)

/-- A part of a date or of a time of day. -/
theorem part?_two (hc : isBlank c = false) (h : n < 100) (rest : List Char) :
    part? c (c :: (padded 2 n ++ rest)) = some (n, rest) := by
  rw [part?, skipBlank_cons hc]
  exact (if_pos rfl).trans (number?_two h rest)

/-! ## Dates -/

/-- **A year is read back.** -/
theorem year?_yearChars (year : Int) (hend : Ends rest) :
    year? (yearChars year ++ rest) = some (year, rest) := by
  have hsigned : ∀ n : Nat, (if (padded 4 n ++ rest).head?.any Char.isDigit then
      number? (padded 4 n ++ rest).length (padded 4 n ++ rest) else none) = some (n, rest) := by
    intro n
    obtain ⟨d, ds, hds⟩ := List.exists_cons_of_ne_nil (padded_ne_nil 4 n)
    have hd : d.isDigit = true := isDigit_of_mem_padded (hds ▸ List.mem_cons_self)
    have hhead : (padded 4 n ++ rest).head?.any Char.isDigit = true := by
      rw [hds]
      exact hd
    rw [if_pos hhead]
    refine number?_padded ?_ (.inr hend)
    rw [List.length_append]
    exact Nat.le_add_right _ _
  rw [yearChars]
  split
  case isTrue hplain =>
    have hyear : year.toNat < 10 ^ 4 := by omega
    have hlength : (padded 4 year.toNat).length = 4 := length_padded (by decide) hyear
    have hnumber : number? 4 (padded 4 year.toNat ++ rest) = some (year.toNat, rest) :=
      number?_padded hlength.le (.inl hlength)
    obtain ⟨d, ds, hds⟩ := List.exists_cons_of_ne_nil (padded_ne_nil 4 year.toNat)
    have hd : d.isDigit = true := isDigit_of_mem_padded (hds ▸ List.mem_cons_self)
    rw [hds, List.cons_append] at hnumber ⊢
    rw [year?, skipBlank_cons (isBlank_of_isDigit hd)]
    split
    case h_1 heq =>
      cases heq
      cases hd
    case h_2 heq =>
      cases heq
      cases hd
    case h_3 =>
      rw [hnumber, Option.map_some]
      exact congrArg (fun y => some (y, rest)) (Int.toNat_of_nonneg hplain.1)
  case isFalse hsign =>
    by_cases hneg : year < 0
    · have hskip : ∀ cs, skipBlank ('-' :: cs) = '-' :: cs := skipBlank_cons (by decide)
      rw [if_pos hneg, List.cons_append, year?, hskip]
      simp only [hsigned, Option.map_some]
      rw [Int.ofNat_natAbs_of_nonpos (Int.le_of_lt hneg), Int.neg_neg]
    · have hskip : ∀ cs, skipBlank ('+' :: cs) = '+' :: cs := skipBlank_cons (by decide)
      rw [if_neg hneg, List.cons_append, year?, hskip]
      simp only [hsigned, Option.map_some]
      rw [Int.natAbs_of_nonneg (Int.not_lt.1 hneg)]

/-- **A date is read back** when its month and its day have two digits. -/
theorem date?_chars {d : Date} (hmonth : d.month < 100) (hday : d.day < 100) (rest : List Char) :
    date? (d.chars ++ rest) = some (d, rest) := by
  have hchars : d.chars ++ rest = yearChars d.year ++
      '-' :: (padded 2 d.month ++ '-' :: (padded 2 d.day ++ rest)) := by
    simp [Date.chars]
  have hends : Ends ('-' :: (padded 2 d.month ++ '-' :: (padded 2 d.day ++ rest))) := by
    intro c hc
    cases hc
    decide
  have hminus : isBlank '-' = false := by decide
  rw [hchars, date?, year?_yearChars d.year hends]
  simp only [Option.bind_eq_bind, Option.bind_some, part?_two hminus hmonth,
    part?_two hminus hday]
  rfl

/-! ## Times -/

/-- **The fraction of a second is read back.** -/
theorem fraction?_fractionChars (h : n < 1000000000) :
    fraction? (fractionChars n ++ ['Z']) = some (n, ['Z']) := by
  have hdigits : ∀ {width m : Nat}, 0 < width → width ≤ 9 → m < 10 ^ width →
      fraction? ('.' :: padded width m ++ ['Z']) = some (m * 10 ^ (9 - width), ['Z']) := by
    intro width m hpos hle hm
    have hlength := length_padded hpos hm
    have hread : (padded width m ++ ['Z']).takeWhile Char.isDigit = padded width m := by
      rw [List.takeWhile_append_of_pos fun c => isDigit_of_mem_padded]
      exact List.append_nil _
    have hne : (padded width m).isEmpty = false :=
      List.isEmpty_eq_false_iff.2 (padded_ne_nil width m)
    have htake : (padded width m).take 9 = padded width m :=
      List.take_of_length_le (hlength.le.trans hle)
    have hdrop : (padded width m ++ ['Z']).drop width = ['Z'] := List.drop_left' hlength
    simp only [List.cons_append, fraction?, hread, hne, htake, digitsValue_padded, hlength, hdrop,
      Bool.false_eq_true, if_false]
  rw [fractionChars]
  split
  case isTrue hzero =>
    rw [hzero]
    rfl
  split
  case isTrue hmilli =>
    rw [hdigits (by decide) (by decide) (by omega)]
    exact congrArg (fun m => some (m, ['Z'])) (by omega)
  split
  case isTrue hmicro =>
    rw [hdigits (by decide) (by decide) (by omega)]
    exact congrArg (fun m => some (m, ['Z'])) (by omega)
  case isFalse =>
    rw [hdigits (by decide) (by decide) (by omega)]
    exact congrArg (fun m => some (m, ['Z'])) (by omega)

/-- **An instant of the calendar.** Seconds have fewer than a billion nanoseconds, and the last one
of a minute may be followed by a leap second. -/
structure Proper (t : Instant) : Prop where
  /-- Its date exists. -/
  date : t.date.isValid = true
  /-- The nanoseconds of a second and of a leap second. -/
  nanos : t.nanos < 2000000000
  /-- A leap second ends a minute. -/
  leap : 1000000000 ≤ t.nanos → t.seconds % 60 = 59

/-- The parts of a date that exists have two digits. -/
theorem Date.two_digits {d : Date} (h : d.isValid = true) : d.month < 100 ∧ d.day < 100 := by
  have hlength : monthLength d.year d.month ≤ 31 := by
    unfold monthLength
    split
    · split <;> decide
    · split <;> decide
  simp only [isValid, Bool.and_eq_true, decide_eq_true_eq] at h
  omega

/-- The text of an instant from its parts. -/
theorem toList_text (t : Instant) {ofDay : Nat}
    (h : (t.seconds - t.seconds.fdiv 86400 * 86400).toNat = ofDay) :
    t.text.toList = t.date.chars ++ ('T' :: (padded 2 (ofDay / 3600) ++
      (':' :: (padded 2 (ofDay / 60 % 60) ++
        (':' :: (padded 2 (ofDay % 60 + t.nanos / 1000000000) ++
          (fractionChars (t.nanos % 1000000000) ++ ['Z']))))))) := by
  simp [text, h]

/-- **An instant is read back from its text.** -/
theorem Proper.ofText?_text {t : Instant} (h : t.Proper) : ofText? t.text = some t := by
  have hfdiv : t.seconds.fdiv 86400 = t.seconds / 86400 :=
    Int.fdiv_eq_ediv_of_nonneg _ (by decide)
  obtain ⟨ofDay, hofDay⟩ :
      ∃ ofDay, (t.seconds - t.seconds.fdiv 86400 * 86400).toNat = ofDay := ⟨_, rfl⟩
  have hseconds : t.date.toDays * 86400 + ofDay = t.seconds := by
    rw [Instant.date, Date.toDays_ofDays]
    omega
  have hlt : ofDay < 86400 := by omega
  obtain ⟨hmonth, hday⟩ := Date.two_digits h.date
  have hnanos := h.nanos
  have hleap := h.leap
  -- The sixtieth second of a minute is the last one of it and a leap second.
  have hsecond : (if ofDay % 60 + t.nanos / 1000000000 = 60 then
      (59, t.nanos % 1000000000 + 1000000000)
      else (ofDay % 60 + t.nanos / 1000000000, t.nanos % 1000000000)) = (ofDay % 60, t.nanos) := by
    split <;> exact Prod.ext (by dsimp only; omega) (by dsimp only; omega)
  have hparts : (⟨t.date.toDays * 86400 +
      (ofDay / 3600 * 3600 + ofDay / 60 % 60 * 60 + ofDay % 60 : Nat) - 0, t.nanos⟩ : Instant) =
      t := congrArg (Instant.mk · t.nanos) (by omega)
  have hguard : ¬(!t.date.isValid || decide (24 ≤ ofDay / 3600) ||
      decide (60 ≤ ofDay / 60 % 60) ||
      decide (60 < ofDay % 60 + t.nanos / 1000000000)) = true := by
    simp only [h.date, Bool.not_true, Bool.false_or, Bool.or_eq_true, decide_eq_true_eq]
    omega
  have hcolon : isBlank ':' = false := by decide
  have hoffset : offset? (skipBlank ['Z']) = some (0, []) := by decide
  rw [ofText?, toList_text t hofDay, date?_chars hmonth hday]
  simp only [Option.bind_eq_bind, Option.bind_some, number?_two (by omega : ofDay / 3600 < 100),
    part?_two hcolon (by omega : ofDay / 60 % 60 < 100),
    part?_two hcolon (by omega : ofDay % 60 + t.nanos / 1000000000 < 100),
    fraction?_fractionChars (Nat.mod_lt t.nanos (by decide)), hoffset, hsecond, hparts]
  rw [if_neg (by decide), if_neg hguard, if_pos h.date]

end VaultKeeper.Instant
