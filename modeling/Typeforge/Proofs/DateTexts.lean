/-
# `Typeforge.Proofs.DateTexts` — instants and the texts that name them

An instant is named by its own text, whatever its year: four digits, or a sign and six,
leap days and leap seconds as well (`Instant.named_by_text`).  Texts come in a wider
form than instants are written in, but no text names more than there is to write: what
is read is in range, has whole milliseconds, and is past the second only in the last
second of a minute (`isProper_of_ofText?`).  An offset does not change that, as it is
one of whole minutes.

Instants themselves may be past any second, not only the last of a minute.  Such an
instant is written as one in the next second is, and that one comes back
(`lost_within_minute`): the same count of milliseconds, counted otherwise
(`Instant.asWritten`).
-/
import Typeforge.Proofs.Documents.Dates

namespace Typeforge

namespace Instant

variable {cs rest : List Char} {i : Instant}

/-! ## What is read -/

theorem digitsValue_lt {ds : List Char} (digits : ∀ c ∈ ds, c.isDigit = true) :
    digitsValue ds < 10 ^ ds.length := by
  induction ds using List.reverseRecOn with
  | nil => exact Nat.zero_lt_one
  | append_singleton ds d ih =>
    obtain ⟨hds, hd⟩ := List.forall_mem_append.mp digits
    obtain ⟨k, hk, rfl⟩ := exists_digitChar (hd d List.mem_cons_self)
    have hlast := digitsValue_digitChar k hk
    have := ih hds
    rw [digitsValue_append, List.length_append, List.length_singleton, Nat.pow_one, Nat.pow_succ]
    omega

/-- Nine places are less than a second. -/
theorem lt_of_fraction? {nanos : Nat} (h : fraction? cs = some (nanos, rest)) : nanos < 10 ^ 9 := by
  unfold fraction? at h
  split at h
  · rename_i cs
    dsimp only at h
    split at h <;> cases h
    have hlength : ((spanDigits cs).1.take 9).length ≤ 9 := List.length_take_le 9 _
    have hdigits : digitsValue ((spanDigits cs).1.take 9) < 10 ^ ((spanDigits cs).1.take 9).length := by
      refine digitsValue_lt fun c hc => ?_
      have hc := List.mem_of_mem_take hc
      rw [spanDigits, List.span_eq_takeWhile_dropWhile] at hc
      exact List.mem_takeWhile_imp hc
    generalize (spanDigits cs).1.take 9 = digits at hlength hdigits ⊢
    calc digitsValue digits * 10 ^ (9 - digits.length)
        < 10 ^ digits.length * 10 ^ (9 - digits.length) :=
          Nat.mul_lt_mul_of_pos_right hdigits (Nat.pow_pos (by decide))
      _ = 10 ^ 9 := by rw [← Nat.pow_add, Nat.add_sub_cancel' hlength]
  · cases h
    decide

/-- Offsets are of whole minutes. -/
theorem emod_of_offset? {strict : Bool} {offset : Int} (h : offset? strict cs = some offset) :
    offset % 60 = 0 := by
  unfold offset? at h
  split at h
  · cases h
    rfl
  · split at h
    · cases h
    · split at h
      · cases h
        rfl
      · extract_lets signed at h
        have whole (negative : Bool) (h : signed negative = some offset) : offset % 60 = 0 := by
          obtain ⟨⟨hours, cs⟩, -, h⟩ := Option.bind_eq_some_iff.mp h
          obtain ⟨cs, -, h⟩ := Option.bind_eq_some_iff.mp h
          obtain ⟨⟨minutes, cs⟩, -, h⟩ := Option.bind_eq_some_iff.mp h
          dsimp only at h
          split at h <;> cases h
          split <;> omega
        split at h
        · exact whole false h
        · split at h
          · exact whole true h
          · cases h
      · cases h

/-- A time of day is past its second in a leap second only, which is the last of a minute. -/
theorem leap_of_afterYear? {strict : Bool} {year : Int} (h : afterYear? strict year cs = some i) :
    i.nanos < 2000000000 ∧ (1000000000 ≤ i.nanos → i.seconds % 60 = 59) := by
  unfold afterYear? at h
  obtain ⟨cs, -, h⟩ := Option.bind_eq_some_iff.mp h
  obtain ⟨⟨month, cs⟩, -, h⟩ := Option.bind_eq_some_iff.mp h
  obtain ⟨cs, -, h⟩ := Option.bind_eq_some_iff.mp h
  obtain ⟨⟨day, cs⟩, -, h⟩ := Option.bind_eq_some_iff.mp h
  dsimp -zeta only at h
  extract_lets date timed at h
  have leap (cs : List Char) (h : timed cs = some i) :
      i.nanos < 2000000000 ∧ (1000000000 ≤ i.nanos → i.seconds % 60 = 59) := by
    obtain ⟨⟨hour, cs⟩, -, h⟩ := Option.bind_eq_some_iff.mp h
    obtain ⟨cs, -, h⟩ := Option.bind_eq_some_iff.mp h
    obtain ⟨⟨minute, cs⟩, -, h⟩ := Option.bind_eq_some_iff.mp h
    obtain ⟨cs, -, h⟩ := Option.bind_eq_some_iff.mp h
    obtain ⟨⟨second, cs⟩, -, h⟩ := Option.bind_eq_some_iff.mp h
    obtain ⟨⟨nanos, cs⟩, hfraction, h⟩ := Option.bind_eq_some_iff.mp h
    obtain ⟨offset, hoffset, h⟩ := Option.bind_eq_some_iff.mp h
    have hnanos := lt_of_fraction? hfraction
    have hminutes := emod_of_offset? hoffset
    dsimp only at h
    split at h <;> cases h
    by_cases hleap : second = 60
    · simp only [hleap, decide_true, if_true]
      omega
    · simp only [hleap, decide_false, Bool.false_eq_true, if_false]
      omega
  split at h
  · split at h
    · exact leap _ h
    · cases h
  · cases h

/-- What is read is in range, of whole milliseconds, and past the second in a leap second only. -/
theorem isProper_of_ofText? {text : String} (h : ofText? text = some i) :
    i.isProper = true ∧ i.isMillis = true := by
  unfold ofText? ofChars? at h
  extract_lets counts at h
  have proper (j : Instant) (hj : j.nanos < 2000000000 ∧ (1000000000 ≤ j.nanos → j.seconds % 60 = 59))
      (h : counts j = some i) : i.isProper = true ∧ i.isMillis = true := by
    dsimp only [counts] at h
    split at h <;> cases h
    rename_i hcounts
    obtain ⟨hrange, hmillis⟩ := Bool.and_eq_true_iff.mp hcounts
    exact ⟨Bool.and_eq_true_iff.mpr ⟨hrange, decide_eq_true hj⟩, hmillis⟩
  split at h
  · obtain ⟨⟨year, rest⟩, -, h⟩ := Option.bind_eq_some_iff.mp h
    obtain ⟨j, hread, h⟩ := Option.bind_eq_some_iff.mp h
    exact proper j (leap_of_afterYear? hread) h
  · obtain ⟨⟨year, rest⟩, -, h⟩ := Option.bind_eq_some_iff.mp h
    dsimp only at h
    split at h
    · cases h
    · obtain ⟨j, hread, h⟩ := Option.bind_eq_some_iff.mp h
      exact proper j (leap_of_afterYear? hread) h
  · obtain ⟨⟨year, rest⟩, -, h⟩ := Option.bind_eq_some_iff.mp h
    obtain ⟨j, hread, h⟩ := Option.bind_eq_some_iff.mp h
    exact proper j (leap_of_afterYear? hread) h

/-! ## Instants that have texts -/

/-- Whether nanoseconds past the second, if there are any, are in the last second of a minute, where
texts have leap seconds. -/
def leapsLast (i : Instant) : Bool := decide (1000000000 ≤ i.nanos → i.seconds % 60 = 59)

/-- The instant as its text counts it: past the second is the next one, except at the end of a
minute. -/
def asWritten (i : Instant) : Instant :=
  if i.leapsLast then i else ⟨i.seconds + 1, i.nanos - 1000000000⟩

theorem asWritten_eq_self : i.asWritten = i ↔ i.leapsLast = true := by
  unfold asWritten
  split
  · exact iff_of_true rfl ‹_›
  · refine iff_of_false (fun h => ?_) ‹_›
    have := congrArg seconds h
    dsimp only at this
    omega

/-- However it is counted, it is the same count of milliseconds. -/
theorem toMillis_asWritten : i.asWritten.toMillis = i.toMillis := by
  unfold asWritten
  split
  · rfl
  · have hpast : 1000000000 ≤ i.nanos := by
      by_contra hfew
      exact ‹¬_› (decide_eq_true fun h => absurd h hfew)
    simp only [toMillis]
    omega

/-- An instant has the text that its own count has: within a minute nothing is carried. -/
theorem text_asWritten (small : i.nanos < 2000000000) : i.asWritten.text = i.text := by
  unfold asWritten
  split
  · rfl
  · rename_i elsewhere
    obtain ⟨hpast, hsecond⟩ : 1000000000 ≤ i.nanos ∧ i.seconds % 60 ≠ 59 := by
      simpa [leapsLast] using elsewhere
    obtain ⟨clock, hclock⟩ := Int.eq_ofNat_of_zero_le
      (Int.emod_nonneg i.seconds (by decide : (86400 : Int) ≠ 0))
    have hday : (i.seconds + 1) / 86400 = i.seconds / 86400 := by omega
    have hnext : (i.seconds + 1) % 86400 = (clock + 1 : Nat) := by omega
    rw [text, text, chars_eq i rfl hclock,
      chars_eq ⟨i.seconds + 1, i.nanos - 1000000000⟩ (congrArg Civil.ofDay hday) hnext]
    have hhour : (clock + 1) / 3600 = clock / 3600 := by omega
    have hminute : (clock + 1) / 60 % 60 = clock / 60 % 60 := by omega
    have hwhole : (clock + 1) % 60 + (i.nanos - 1000000000) / 1000000000 =
        clock % 60 + i.nanos / 1000000000 := by omega
    have hpart : (i.nanos - 1000000000) % 1000000000 = i.nanos % 1000000000 := by omega
    rw [hhour, hminute, hwhole, hpart]

theorem isProper_asWritten (range : i.inRange = true) (small : i.nanos < 2000000000) :
    i.asWritten.isProper = true := by
  unfold asWritten
  split
  · rename_i last
    exact Bool.and_eq_true_iff.mpr ⟨range, decide_eq_true ⟨small, of_decide_eq_true last⟩⟩
  · rename_i elsewhere
    obtain ⟨hpast, hsecond⟩ : 1000000000 ≤ i.nanos ∧ i.seconds % 60 ≠ 59 := by
      simpa [leapsLast] using elsewhere
    obtain ⟨hfirst, hlast⟩ := of_decide_eq_true range
    have hend : last.seconds % 60 = 59 ∧ last.nanos = 999999999 := by decide +kernel
    refine Bool.and_eq_true_iff.mpr ⟨decide_eq_true ?_, decide_eq_true ?_⟩
    all_goals dsimp only; omega

theorem isMillis_asWritten (millis : i.isMillis = true) : i.asWritten.isMillis = true := by
  have hmillis := of_decide_eq_true millis
  unfold asWritten
  split
  · exact millis
  · exact decide_eq_true (by dsimp only; omega)

/-- **The instants that texts name.** The text of an instant in range, of whole milliseconds, names
the instant as the text counts it, which is the same count of milliseconds; so the instant itself
comes back from its text, whatever its year, exactly if it is past the second nowhere but at the end
of a minute. And what comes from a text is in range and of whole milliseconds. -/
theorem named_by_text :
    (∀ i : Instant, i.inRange = true → i.nanos < 2000000000 → i.isMillis = true →
      (ofText? i.text = some i ↔ i.leapsLast = true) ∧
      ofText? i.text = some i.asWritten ∧ i.asWritten.toMillis = i.toMillis) ∧
    ∀ text i, ofText? text = some i → i.inRange = true ∧ i.isMillis = true := by
  refine ⟨fun i range small millis => ?_, fun text i h => ?_⟩
  · have back : ofText? i.text = some i.asWritten := by
      rw [← text_asWritten small]
      exact ofText?_text (isProper_asWritten range small) (isMillis_asWritten millis)
    refine ⟨?_, back, toMillis_asWritten⟩
    rw [back, Option.some.injEq, asWritten_eq_self]
  · obtain ⟨proper, millis⟩ := isProper_of_ofText? h
    exact ⟨(Bool.and_eq_true_iff.mp proper).1, millis⟩

/-- The last millisecond of the leap second of a leap day, near the end of all years. -/
def leapSecond : Instant := ⟨Civil.toDay ⟨262140, 2, 29⟩ * 86400 + 86399, 1999000000⟩

/-- The second millisecond of the year before year nought. -/
def beforeNought : Instant := ⟨Civil.toDay ⟨-1, 1, 1⟩ * 86400, 1000000⟩

theorem named_by_text_far : ofText? leapSecond.text = some leapSecond ∧
    ofText? beforeNought.text = some beforeNought ∧
    Instant.isMillis ⟨1483228799, 1000000000⟩ = true :=
  ⟨(named_by_text.1 _ (by decide +kernel) (by decide) (by decide +kernel)).1.mpr (by decide +kernel),
    (named_by_text.1 _ (by decide +kernel) (by decide) (by decide +kernel)).1.mpr (by decide +kernel),
    (named_by_text.2 "2016-12-31T23:59:60Z" _ (by decide +kernel)).2⟩

/-- More than a second after 23:56:04, on the first day of 2000: an instant that is made by setting its
nanoseconds. -/
def withinMinute : Instant := ⟨Civil.toDay ⟨2000, 1, 1⟩ * 86400 + 86164, 1333000000⟩

/-- It is in range and of whole milliseconds, but its text names the second after it. -/
theorem lost_within_minute : withinMinute.inRange = true ∧ withinMinute.nanos < 2000000000 ∧
    withinMinute.isMillis = true ∧ withinMinute.text = "2000-01-01T23:56:05.333Z" ∧
    ofText? withinMinute.text = some ⟨withinMinute.seconds + 1, 333000000⟩ ∧
    ofText? withinMinute.text ≠ some withinMinute := by
  decide +kernel

end Instant

end Typeforge
