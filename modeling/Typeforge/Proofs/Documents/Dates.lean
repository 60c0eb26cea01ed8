/-
# `Typeforge.Proofs.Documents.Dates` — the text of an instant names it

The text of an instant is that of its date and its time of day, and both are read
back.  For the time this is a matter of digits; for the date it is one of the
calendar, in which the date of a day is found by a division that evens out the
leap years, and the day of a date by adding up the days before it.
-/
import Mathlib.Order.Monotone.Basic
import Typeforge.Calendar.Instant
import Typeforge.Proofs.Documents.Numerals

namespace Typeforge

/-! ## Days and dates -/

namespace Civil

/-- The number of days before a year of an era. -/
def daysBefore (year : Nat) : Nat := 365 * year + year / 4 - year / 100

/-- The days of an era, less those that years have over 365, so that the year of a day is found. -/
def evened (day : Nat) : Nat := day - day / 1460 + day / 36524 - day / 146096

theorem evened_mono : Monotone evened := by
  refine monotone_nat_of_le_succ fun day => ?_
  unfold evened
  omega

theorem year_daysBefore : ∀ year < 400, evened (daysBefore year) / 365 = year ∧
    (0 < year → evened (daysBefore year - 1) / 365 < year) := by
  decide +kernel

/-- A day falls into the year that is found for it, and is the 366th of it only in a leap year. -/
theorem daysBefore_le {day : Nat} (h : day < 146097) : evened day / 365 < 400 ∧
    daysBefore (evened day / 365) ≤ day ∧ (day < daysBefore (evened day / 365) + 365 ∨
      day = daysBefore (evened day / 365) + 365 ∧ (evened day / 365 + 1) % 4 = 0 ∧
        ((evened day / 365 + 1) % 100 ≠ 0 ∨ evened day / 365 = 399)) := by
  generalize hy : evened day / 365 = year
  have hyear : year < 400 := by
    unfold evened at hy
    omega
  obtain ⟨-, hbefore⟩ := year_daysBefore year hyear
  have hle : daysBefore year ≤ day := by
    by_contra hlt
    have hmono := Nat.div_le_div_right (c := 365) (evened_mono (Nat.le_sub_one_of_lt (not_le.mp hlt)))
    have hpos : 0 < year := by
      by_contra hzero
      obtain rfl : year = 0 := by omega
      exact hlt (Nat.zero_le _)
    have := hbefore hpos
    omega
  refine ⟨hyear, hle, ?_⟩
  by_cases hlast : year = 399
  · subst hlast
    have : daysBefore 399 = 145731 := rfl
    omega
  · have hnext : day < daysBefore (year + 1) := by
      by_contra hge
      have hmono := Nat.div_le_div_right (c := 365) (evened_mono (not_lt.mp hge))
      rw [(year_daysBefore (year + 1) (by omega)).1] at hmono
      omega
    have hquarter : (year + 1) / 4 = year / 4 ∨ (year + 1) / 4 = year / 4 + 1 ∧ (year + 1) % 4 = 0 := by
      omega
    have hcentury : (year + 1) / 100 = year / 100 ∧ (year + 1) % 100 ≠ 0 ∨
        (year + 1) / 100 = year / 100 + 1 := by
      omega
    clear hbefore hy
    unfold daysBefore at *
    omega

/-- A date by its place in the calendar: the era, the year of it that begins in March, the month
counted from March, and the day. -/
def ofPlace (era : Int) (year march day : Nat) : Civil :=
  if march < 10 then ⟨year + era * 400, march + 3, day⟩
  else ⟨year + era * 400 + 1, march - 9, day⟩

/-- The days of a year that begins in March before a month of it. -/
def daysBeforeMonth (march : Nat) : Nat := (153 * march + 2) / 5

theorem toDay_ofPlace {era : Int} {year march day : Nat} (hyear : year < 400) (hmarch : march < 12) :
    (ofPlace era year march day).toDay =
      era * 146097 + daysBefore year + daysBeforeMonth march + day - 1 - 719468 := by
  have hbefore : (daysBefore year : Int) = 365 * year + (year : Int) / 4 - (year : Int) / 100 := by
    unfold daysBefore
    omega
  have hera : ((year : Int) + era * 400) / 400 = era := by omega
  rw [hbefore, daysBeforeMonth]
  unfold ofPlace toDay
  by_cases h : march < 10
  · simp only [h, if_true]
    rw [if_neg (by omega), if_pos (by omega), hera]
    push_cast
    omega
  · simp only [h, if_false]
    rw [if_pos (by omega), if_neg (by omega), Int.add_sub_cancel, hera]
    push_cast [Nat.cast_sub (show 9 ≤ march by omega)]
    omega

/-- Where a day of a year lies that begins in March. -/
theorem exists_month {dayOfYear : Nat} (h : dayOfYear < 366) : ∃ march day,
    (5 * dayOfYear + 2) / 153 = march ∧ dayOfYear + 1 = daysBeforeMonth march + day ∧ march < 12 ∧
      0 < day := by
  unfold daysBeforeMonth
  refine ⟨_, dayOfYear + 1 - (153 * ((5 * dayOfYear + 2) / 153) + 2) / 5, rfl, ?_⟩
  have hmarch : (5 * dayOfYear + 2) / 153 < 12 := by omega
  generalize hmonth : (5 * dayOfYear + 2) / 153 = march at *
  omega

/-- Every day has a place, which is that of its date; the 366th day of a year is in a leap year. -/
theorem exists_ofDay (day : Int) : ∃ (era : Int) (year march dayOfMonth : Nat),
    ofDay day = ofPlace era year march dayOfMonth ∧
    day = era * 146097 + daysBefore year + daysBeforeMonth march + dayOfMonth - 1 - 719468 ∧
    year < 400 ∧ march < 12 ∧ 0 < dayOfMonth ∧
    (daysBeforeMonth march + dayOfMonth ≤ 365 ∨ daysBeforeMonth march + dayOfMonth = 366 ∧
      (year + 1) % 4 = 0 ∧ ((year + 1) % 100 ≠ 0 ∨ year = 399)) ∧
    (march < 11 → daysBeforeMonth march + dayOfMonth ≤ daysBeforeMonth (march + 1)) := by
  obtain ⟨n, hn⟩ := Int.eq_ofNat_of_zero_le
    (by omega : 0 ≤ day + 719468 - (day + 719468) / 146097 * 146097)
  have hlt : n < 146097 := by omega
  obtain ⟨hyear, hle, hleap⟩ := daysBefore_le hlt
  have hfound : ((n : Int) - n / 1460 + n / 36524 - n / 146096) / 365 = (evened n / 365 : Nat) := by
    unfold evened
    omega
  generalize evened n / 365 = year at *
  obtain ⟨dayOfYear, rfl⟩ := Nat.exists_eq_add_of_le hle
  have hday : ((daysBefore year + dayOfYear : Nat) : Int) -
      (365 * (year : Int) + (year : Int) / 4 - (year : Int) / 100) = dayOfYear := by
    clear hn hlt hle hleap hfound
    unfold daysBefore
    omega
  obtain ⟨march, dayOfMonth, hmarch, hplace, hlast, hpos⟩ := exists_month (by omega : dayOfYear < 366)
  have hmarch' : (5 * (dayOfYear : Int) + 2) / 153 = march := by omega
  have hdays : (dayOfYear : Int) - (153 * (march : Int) + 2) / 5 + 1 = dayOfMonth := by
    unfold daysBeforeMonth at hplace
    omega
  refine ⟨(day + 719468) / 146097, year, march, dayOfMonth, ?_, by omega, hyear, hlast, hpos,
    by omega, fun h => ?_⟩
  · simp only [ofDay, hn, hfound, hday, hmarch', hdays, ofPlace]
    by_cases h : march < 10
    · have hlate : ¬ (march : Int) + 3 ≤ 2 := by omega
      rw [if_pos h, if_pos (by exact_mod_cast h : (march : Int) < 10), if_neg hlate, Int.add_zero]
      rfl
    · have hearly : (march : Int) - 9 ≤ 2 := by omega
      rw [if_neg h, if_neg (by exact_mod_cast h : ¬ (march : Int) < 10), if_pos hearly, Civil.mk.injEq]
      exact ⟨rfl, by omega, rfl⟩
  · unfold daysBeforeMonth at *
    omega

theorem toDay_ofDay (day : Int) : (ofDay day).toDay = day := by
  obtain ⟨era, year, march, dayOfMonth, hofDay, hday, hyear, hmarch, -⟩ := exists_ofDay day
  rw [hofDay, toDay_ofPlace hyear hmarch, ← hday]

/-- The date of a day exists. -/
theorem isValid_ofDay (day : Int) : (ofDay day).isValid = true := by
  obtain ⟨era, year, march, dayOfMonth, hofDay, -, hyear, hmarch, hpos, hleap, hnext⟩ :=
    exists_ofDay day
  unfold daysBeforeMonth at hleap hnext
  rw [hofDay, ofPlace]
  by_cases h : march < 10
  · have hlength := hnext (by omega)
    rw [if_pos h, isValid]
    refine decide_eq_true ⟨Nat.le_add_left .., by dsimp only; omega, hpos, ?_⟩
    rw [monthLength, if_neg (by dsimp only; omega)]
    dsimp only
    split <;> omega
  · rw [if_neg h, isValid]
    refine decide_eq_true ⟨by dsimp only; omega, by dsimp only; omega, hpos, ?_⟩
    by_cases hfebruary : march = 11
    · subst hfebruary
      rw [monthLength, if_pos rfl]
      dsimp only
      rcases hleap with hle | ⟨hlast, hfour, hcentury⟩
      · split <;> omega
      · rw [isLeap, decide_eq_true (by omega), if_pos rfl]
        omega
    · have hlength := hnext (by omega)
      rw [monthLength, if_neg (by dsimp only; omega)]
      dsimp only
      split <;> omega

/-- How far the years of days go. -/
theorem natAbs_year_ofDay {day : Int} (low : -100000000 ≤ day) (high : day ≤ 100000000) :
    (ofDay day).year.natAbs < 10 ^ 6 := by
  obtain ⟨era, year, march, dayOfMonth, hofDay, hday, hyear, hmarch, hpos, hleap, -⟩ :=
    exists_ofDay day
  have hera : -1000 ≤ era ∧ era ≤ 1000 := by
    unfold daysBefore at hday
    omega
  rw [hofDay, ofPlace]
  split <;> (dsimp only; omega)

end Civil

namespace Instant

/-! ## Digits -/

theorem length_padded {width n : Nat} (pos : 0 < width) (h : n < 10 ^ width) :
    (padded width n).length = width := by
  have hle := (Nat.length_toDigits_le_iff (b := 10) (by decide) pos).mpr h
  rw [padded, List.length_append, List.length_replicate]
  omega

theorem isDigit_padded (width n : Nat) : ∀ c ∈ padded width n, c.isDigit = true := by
  intro c hc
  rcases List.mem_append.mp hc with hc | hc
  · rw [List.eq_of_mem_replicate hc]
    rfl
  · exact isDigit_toDigits n c hc

theorem digitsValue_padded (width n : Nat) : digitsValue (padded width n) = n := by
  rw [padded, digitsValue_append, digitsValue_zeros, digitsValue_toDigits, Nat.zero_mul, Nat.zero_add]

/-- Digits are read as they are written, whatever follows. -/
theorem takeDigits?_padded {width n : Nat} (pos : 0 < width) (h : n < 10 ^ width)
    (rest : List Char) : takeDigits? width (padded width n ++ rest) = some (n, rest) := by
  have hlength := length_padded pos h
  rw [takeDigits?, List.take_left' hlength, List.drop_left' hlength,
    if_pos ⟨hlength, List.all_eq_true.mpr (isDigit_padded width n)⟩, digitsValue_padded]

theorem takeChar?_cons (c : Char) (rest : List Char) : takeChar? c (c :: rest) = some rest := if_pos rfl

/-- The milliseconds of an instant. -/
theorem fraction?_padded {n : Nat} (h : n < 10 ^ 3) :
    fraction? ('.' :: (padded 3 n ++ ['Z'])) = some (n * 1000000, ['Z']) := by
  have hlength := length_padded (by decide : 0 < 3) h
  have hends : ∀ c ∈ (['Z'] : List Char).head?, c.isDigit = false := by
    rintro c ⟨⟩
    rfl
  have hspan := spanDigits_append (isDigit_padded 3 n) hends
  have hne : (padded 3 n).isEmpty = false := by
    rw [List.isEmpty_eq_false_iff, ← List.length_pos_iff, hlength]
    decide
  have hshort : (padded 3 n).take 9 = padded 3 n := List.take_of_length_le (by omega)
  rw [fraction?, hspan]
  simp only [hne, Bool.false_eq_true, if_false, hshort, digitsValue_padded, hlength]

theorem offset?_zone (strict : Bool) : offset? strict ['Z'] = some 0 := by
  rw [offset?]

/-! ## Texts -/

/-- What is written after the year. -/
def afterYear (month day hour minute second millis : Nat) : List Char :=
  '-' :: (padded 2 month ++ '-' :: (padded 2 day ++ 'T' :: (padded 2 hour ++ ':' ::
    (padded 2 minute ++ ':' :: (padded 2 second ++ '.' :: (padded 3 millis ++ ['Z']))))))

theorem afterYear?_afterYear (strict : Bool) {date : Civil} {hour minute second millis : Nat}
    (valid : date.isValid = true) (hhour : hour ≤ 23) (hminute : minute ≤ 59) (hsecond : second ≤ 60)
    (hmillis : millis < 10 ^ 3) :
    afterYear? strict date.year (afterYear date.month date.day hour minute second millis) =
      some ⟨date.toDay * 86400 + (hour * 3600 + minute * 60 + (if second = 60 then 59 else second) : Nat),
        millis * 1000000 + (if second = 60 then 1000000000 else 0)⟩ := by
  have hmonth : date.month < 10 ^ 2 ∧ date.day < 10 ^ 2 := by
    obtain ⟨-, hmonth, -, hday⟩ := of_decide_eq_true valid
    have : Civil.monthLength date.year date.month ≤ 31 := by
      unfold Civil.monthLength
      split_ifs <;> decide
    omega
  have two {n : Nat} (h : n < 10 ^ 2) (rest : List Char) :=
    takeDigits?_padded (by decide : 0 < 2) h rest
  have next {α β : Type} {x : Option α} {f : α → Option β} {y : α} {z : β} (hx : x = some y)
      (hf : f y = some z) : x >>= f = some z := Option.bind_eq_some_iff.mpr ⟨y, hx, hf⟩
  rw [afterYear?, afterYear]
  refine next (takeChar?_cons _ _) (next (two hmonth.1 _) (next (takeChar?_cons _ _) ?_))
  refine next (two hmonth.2 _) (next rfl (next (two (by omega) _) ?_))
  refine next (takeChar?_cons _ _) (next (two (by omega) _) (next (takeChar?_cons _ _) ?_))
  refine next (two (by omega) _) (next (fraction?_padded hmillis) (next (offset?_zone strict) ?_))
  refine (if_pos ⟨valid, hhour, hminute, hsecond⟩).trans ?_
  simp only [decide_eq_true_eq, Int.sub_zero]

/-- What instants are like: within range, and past the second only in a leap second. -/
def isProper (i : Instant) : Bool :=
  i.inRange && decide (i.nanos < 2000000000 ∧ (1000000000 ≤ i.nanos → i.seconds % 60 = 59))

theorem chars_eq (i : Instant) {date : Civil} {clock : Nat}
    (hdate : Civil.ofDay (i.seconds / 86400) = date) (hclock : i.seconds % 86400 = clock) :
    i.chars = yearText date.year ++ afterYear date.month date.day (clock / 3600) (clock / 60 % 60)
      (clock % 60 + i.nanos / 1000000000) (i.nanos % 1000000000 / 1000000) := by
  simp only [chars, afterYear, hdate, hclock, Int.toNat_natCast, List.append_assoc, List.cons_append]

/-- What is written is read by the grammar for its year. -/
theorem afterYear?_chars (strict : Bool) {i : Instant} {date : Civil} {clock : Nat}
    (hdate : Civil.ofDay (i.seconds / 86400) = date) (hclock : i.seconds % 86400 = clock)
    (proper : i.isProper = true) (millis : i.isMillis = true) :
    afterYear? strict date.year (afterYear date.month date.day (clock / 3600) (clock / 60 % 60)
      (clock % 60 + i.nanos / 1000000000) (i.nanos % 1000000000 / 1000000)) = some i := by
  obtain ⟨-, hnanos⟩ := Bool.and_eq_true_iff.mp proper
  obtain ⟨hsmall, hleap⟩ := of_decide_eq_true hnanos
  have hmillis := of_decide_eq_true millis
  have htoDay := Civil.toDay_ofDay (i.seconds / 86400)
  have hvalid := Civil.isValid_ofDay (i.seconds / 86400)
  rw [hdate] at htoDay hvalid
  have hlt : clock < 86400 := by omega
  rw [afterYear?_afterYear strict hvalid (by omega) (by omega) (by omega) (by omega), htoDay]
  obtain ⟨seconds, nanos⟩ := i
  dsimp only at *
  by_cases h : clock % 60 + nanos / 1000000000 = 60
  · rw [if_pos h, if_pos h, Option.some.injEq, Instant.mk.injEq]
    omega
  · rw [if_neg h, if_neg h, Option.some.injEq, Instant.mk.injEq]
    omega

/-- An instant that is read counts if it is in range and whole milliseconds. -/
def counted (i : Instant) : Option Instant := if i.inRange && i.isMillis then some i else none

theorem ofChars?_plus (cs : List Char) : ofChars? ('+' :: cs) =
    ((takeDigits? 6 cs).bind fun x => afterYear? true x.1 x.2).bind counted := by
  simp only [ofChars?]
  cases takeDigits? 6 cs <;> rfl

theorem ofChars?_minus (cs : List Char) : ofChars? ('-' :: cs) =
    ((takeDigits? 6 cs).bind fun x =>
      if x.1 = 0 then none else afterYear? true (-(x.1 : Int)) x.2).bind counted := by
  simp only [ofChars?]
  cases takeDigits? 6 cs with
  | none => rfl
  | some x =>
    simp only [Option.bind_eq_bind, Option.bind_some]
    split <;> rfl

theorem ofChars?_digit {c : Char} (hc : c.isDigit = true) (cs : List Char) : ofChars? (c :: cs) =
    ((takeDigits? 4 (c :: cs)).bind fun x => afterYear? false x.1 x.2).bind counted := by
  unfold ofChars?
  split
  · rename_i heq
    cases heq
    cases hc
  · rename_i heq
    cases heq
    cases hc
  · cases takeDigits? 4 (c :: cs) <;> rfl

/-- A year is read back by the grammar it was written for. -/
theorem ofChars?_yearText {year : Int} {rest : List Char} {i : Instant} (small : year.natAbs < 10 ^ 6)
    (hread : ∀ strict, afterYear? strict year rest = some i) :
    ofChars? (yearText year ++ rest) = counted i := by
  rw [yearText]
  by_cases hplain : 0 ≤ year ∧ year ≤ 9999
  · have hlt : year.natAbs < 10 ^ 4 := by omega
    have htake := takeDigits?_padded (by decide : 0 < 4) hlt rest
    have hpos : 0 < (padded 4 year.natAbs).length := by
      rw [length_padded (by decide) hlt]
      decide
    obtain ⟨c, cs, hcs⟩ := List.exists_cons_of_length_pos hpos
    have hc := isDigit_padded 4 year.natAbs c (by rw [hcs]; exact List.mem_cons_self)
    rw [if_pos hplain]
    rw [hcs, List.cons_append] at htake ⊢
    rw [ofChars?_digit hc, htake, Option.bind_some]
    dsimp only
    rw [show (year.natAbs : Int) = year by omega, hread, Option.bind_some]
  · have htake := takeDigits?_padded (by decide : 0 < 6) small rest
    rw [if_neg hplain]
    by_cases hnegative : year < 0
    · rw [if_pos hnegative, List.cons_append, ofChars?_minus, htake, Option.bind_some]
      dsimp only
      rw [if_neg (by omega), show -(year.natAbs : Int) = year by omega, hread, Option.bind_some]
    · rw [if_neg hnegative, List.cons_append, ofChars?_plus, htake, Option.bind_some]
      dsimp only
      rw [show (year.natAbs : Int) = year by omega, hread, Option.bind_some]

/-- **The text of an instant names it.** -/
theorem ofText?_text {i : Instant} (proper : i.isProper = true) (millis : i.isMillis = true) :
    ofText? i.text = some i := by
  obtain ⟨clock, hclock⟩ := Int.eq_ofNat_of_zero_le
    (Int.emod_nonneg i.seconds (by decide : (86400 : Int) ≠ 0))
  obtain ⟨hrange, -⟩ := Bool.and_eq_true_iff.mp proper
  have hyear : (Civil.ofDay (i.seconds / 86400)).year.natAbs < 10 ^ 6 := by
    obtain ⟨hfirst, hlast⟩ := of_decide_eq_true hrange
    have hfirst' : first.seconds = -8334601228800 := by decide +kernel
    have hlast' : last.seconds = 8210266876799 := by decide +kernel
    exact Civil.natAbs_year_ofDay (by omega) (by omega)
  rw [ofText?, text, String.toList_ofList, chars_eq i rfl hclock,
    ofChars?_yearText hyear fun strict => afterYear?_chars strict rfl hclock proper millis, counted,
    hrange, millis]
  rfl

end Instant

end Typeforge
