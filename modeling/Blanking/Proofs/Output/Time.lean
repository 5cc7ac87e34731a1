import Mathlib.Data.Rat.Floor
import Mathlib.Tactic.Ring
import Blanking.Output.Time

/-! # Times that are read back

A frame time shows four decimal numbers, which together are the time of the frame in milliseconds,
rounded down. A frame takes longer than a millisecond, so no two frames share their text. -/

namespace Blanking

/-! ## Padded numbers -/

namespace Fixed

theorem toList_padded (width value : Nat) :
    (padded width value).toList =
      List.replicate (width - (Nat.toDigits 10 value).length) '0' ++ Nat.toDigits 10 value := by
  have hdigits : toString value = String.ofList (Nat.toDigits 10 value) :=
    Nat.toString_eq_ofList_toDigits
  rw [padded, hdigits]
  simp

theorem length_padded (width value : Nat) :
    (padded width value).toList.length = max width (Nat.toDigits 10 value).length := by
  rw [toList_padded, List.length_append, List.length_replicate]
  omega

theorem length_padded_of_lt {width value : Nat} (hpos : 0 < width) (h : value < 10 ^ width) :
    (padded width value).toList.length = width := by
  rw [length_padded]
  exact max_eq_left ((Nat.length_toDigits_le_iff (by decide) hpos).mpr h)

theorem isDigit_of_mem_padded {width value : Nat} {c : Char} (h : c ∈ (padded width value).toList) :
    c.isDigit = true := by
  rw [toList_padded] at h
  rcases List.mem_append.mp h with hzero | hdigit
  · rw [List.eq_of_mem_replicate hzero]
    decide
  · exact Nat.isDigit_of_mem_toDigits (by decide) (by decide) hdigit

theorem ofDigitChars_padded (width value : Nat) :
    Nat.ofDigitChars 10 (padded width value).toList 0 = value := by
  rw [toList_padded, Nat.ofDigitChars_append, Nat.ofDigitChars_replicate_zero, Nat.mul_zero,
    Nat.ofDigitChars_ten_toDigits]

/-- A number that is not narrower than its place is not padded. -/
theorem padded_eq_padded_zero {width value : Nat} (h : 10 ^ width ≤ value) :
    padded width value = padded 0 value := by
  have hlength : width - (Nat.toDigits 10 value).length = 0 := by
    rcases Nat.eq_zero_or_pos width with rfl | hpos
    · exact Nat.zero_sub _
    · have hlong := (Nat.length_toDigits_le_iff (by decide) hpos).not.mpr (Nat.not_lt_of_le h)
      omega
  rw [← String.toList_inj, toList_padded, toList_padded, hlength, Nat.zero_sub]

end Fixed

/-! ## Times -/

/-- A time in hours, minutes, seconds and milliseconds. -/
structure Timestamp where
  hours : Nat
  minutes : Nat
  seconds : Nat
  millis : Nat

namespace Timestamp

/-- A time in milliseconds. -/
def total (time : Timestamp) : Nat :=
  ((time.hours * 60 + time.minutes) * 60 + time.seconds) * 1000 + time.millis

/-- Whether text is a number of decimal digits. -/
def IsNumber (text : List Char) (value : Nat) : Prop :=
  (∀ c ∈ text, c.isDigit = true) ∧ Nat.ofDigitChars 10 text 0 = value

/-- Whether a text shows a time: two digits each for minutes and seconds, three for milliseconds,
and as many as they need for hours, two at least. -/
def IsShown (time : Timestamp) (text : String) : Prop :=
  ∃ hours minutes seconds millis : List Char,
    text.toList = hours ++ ':' :: minutes ++ ':' :: seconds ++ '.' :: millis ∧
      (2 ≤ hours.length ∧ (2 < hours.length → 10 ^ (hours.length - 1) ≤ time.hours)) ∧
      minutes.length = 2 ∧ seconds.length = 2 ∧ millis.length = 3 ∧
      IsNumber hours time.hours ∧ IsNumber minutes time.minutes ∧
      IsNumber seconds time.seconds ∧ IsNumber millis time.millis

/-- A text shows one time only. -/
theorem IsShown.unique {text : String} {a b : Timestamp} (ha : a.IsShown text)
    (hb : b.IsShown text) : a = b := by
  obtain ⟨h, m, s, f, ha, -, hm, hs, hf, ⟨-, hhours⟩, ⟨-, hminutes⟩, ⟨-, hseconds⟩, -,
    hmillis⟩ := ha
  obtain ⟨h', m', s', f', hb, -, hm', hs', hf', ⟨-, hhours'⟩, ⟨-, hminutes'⟩, ⟨-, hseconds'⟩, -,
    hmillis'⟩ := hb
  -- From the end on, all parts but the first have their widths.
  obtain ⟨hfront, hfraction⟩ := List.append_inj' (ha.symm.trans hb) (by simp [hf, hf'])
  obtain ⟨hfront, hsecond⟩ := List.append_inj' hfront (by simp [hs, hs'])
  obtain ⟨hhour, hminute⟩ := List.append_inj' hfront (by simp [hm, hm'])
  cases a
  cases b
  simp_all

theorem isNumber_padded (width value : Nat) :
    IsNumber (Fixed.padded width value).toList value :=
  ⟨fun _ h => Fixed.isDigit_of_mem_padded h, Fixed.ofDigitChars_padded width value⟩

/-- The time of as many milliseconds. -/
def ofMillis (millis : Nat) : Timestamp :=
  ⟨millis / 3600000, millis % 3600000 / 60000, millis % 60000 / 1000, millis % 1000⟩

theorem total_ofMillis (millis : Nat) : (ofMillis millis).total = millis := by
  simp only [total, ofMillis]
  omega

theorem ofMillis_lt (millis : Nat) :
    (ofMillis millis).minutes < 60 ∧ (ofMillis millis).seconds < 60 ∧
      (ofMillis millis).millis < 1000 := by
  simp only [ofMillis]
  omega

theorem isShown_clockTime (millis : Nat) : (ofMillis millis).IsShown (clockTime millis) := by
  obtain ⟨hminutes, hseconds, hmillis⟩ := ofMillis_lt millis
  refine ⟨_, _, _, _, ?_, ⟨?_, ?_⟩, ?_, ?_, ?_, isNumber_padded 2 _, isNumber_padded 2 _,
    isNumber_padded 2 _, isNumber_padded 3 _⟩
  · simp [clockTime, ofMillis]
  · rw [Fixed.length_padded]
    exact Nat.le_max_left _ _
  · intro hlong
    rw [Fixed.length_padded] at hlong ⊢
    have hwidth : max 2 (Nat.toDigits 10 (ofMillis millis).hours).length =
        (Nat.toDigits 10 (ofMillis millis).hours).length := by omega
    rw [hwidth] at hlong ⊢
    by_contra hfew
    have hle := (Nat.length_toDigits_le_iff (show 1 < 10 by decide) (by omega)).mpr
      (Nat.lt_of_not_le hfew)
    omega
  · exact Fixed.length_padded_of_lt (by decide) (hminutes.trans (by decide))
  · exact Fixed.length_padded_of_lt (by decide) (hseconds.trans (by decide))
  · exact Fixed.length_padded_of_lt (by decide) hmillis

end Timestamp

/-! ## Frames -/

theorem frameMillis_eq (frame lines : Nat) :
    frameMillis frame lines =
      if lines = 525 then frame * 1001 * 1000 / 30000 else frame * 1 * 1000 / 25 := by
  by_cases hlines : lines = 525 <;> simp [frameMillis, frameRate, hlines]

/-- Seconds from one frame to the next. -/
def framePeriod (lines : Nat) : ℚ := if lines = 525 then 1001 / 30000 else 1 / 25

theorem floor_millis (frame seconds frames : Nat) :
    ⌊(1000 * frame * (seconds / frames) : ℚ)⌋₊ = frame * seconds * 1000 / frames := by
  have hquotient : (1000 * frame * (seconds / frames) : ℚ) =
      ((frame * seconds * 1000 : Nat) : ℚ) / (frames : Nat) := by
    push_cast
    ring
  rw [hquotient, Rat.natFloor_natCast_div_natCast]

theorem frameMillis_eq_floor (frame lines : Nat) :
    frameMillis frame lines = ⌊1000 * frame * framePeriod lines⌋₊ := by
  rw [frameMillis_eq, framePeriod]
  split
  next => exact_mod_cast (floor_millis frame 1001 30000).symm
  next => exact_mod_cast (floor_millis frame 1 25).symm

/-- A frame takes longer than a millisecond. -/
theorem frameMillis_strictMono (lines : Nat) : StrictMono fun frame => frameMillis frame lines := by
  refine strictMono_nat_of_lt_succ fun frame => ?_
  simp only [frameMillis_eq]
  split <;> omega

/-! ## Times in words -/

namespace Word

/-- The product of two words, if it is one. -/
def mul? (a b : UInt64) : Option UInt64 := if a.toNat * b.toNat < 2 ^ 64 then some (a * b) else none

/-- The time of a frame, if words of 64 bits are wide enough for it. From the hundredth on, hours
are not padded. -/
def frameTime? (frame : UInt64) (lines : Nat) : Option String := do
  let rate : UInt64 × UInt64 := if lines = 525 then (30000, 1001) else (25, 1)
  let length ← mul? frame rate.2
  let scaled ← mul? length 1000
  let millis := scaled / rate.1
  let hours := millis / 3600000
  let minutes := millis % 3600000 / 60000
  let seconds := millis % 60000 / 1000
  return Fixed.padded (if 100 ≤ hours then 0 else 2) hours.toNat ++ ":" ++
    Fixed.padded 2 minutes.toNat ++ ":" ++ Fixed.padded 2 seconds.toNat ++ "." ++
    Fixed.padded 3 (millis % 1000).toNat

theorem mul?_eq {a b : UInt64} (h : a.toNat * b.toNat < 2 ^ 64) :
    ∃ product, mul? a b = some product ∧ product.toNat = a.toNat * b.toNat :=
  ⟨a * b, if_pos h, by rw [UInt64.toNat_mul, Nat.mod_eq_of_lt h]⟩

theorem padded_hours (hours : UInt64) :
    Fixed.padded (if 100 ≤ hours then 0 else 2) hours.toNat = Fixed.padded 2 hours.toNat := by
  split
  next hlong => exact (Fixed.padded_eq_padded_zero (UInt64.le_iff_toNat_le.mp hlong)).symm
  next => rfl

theorem frameTime?_eq {frame : UInt64} (h : frame.toNat * 1001 * 1000 < 2 ^ 64) (lines : Nat) :
    frameTime? frame lines = some (frameTime frame.toNat lines) := by
  obtain ⟨rate, hrate⟩ :
      ∃ rate : UInt64 × UInt64, rate = if lines = 525 then (30000, 1001) else (25, 1) := ⟨_, rfl⟩
  have hseconds : rate.2.toNat ≤ 1001 := by
    rw [hrate]
    split <;> decide
  have hle := Nat.mul_le_mul_left frame.toNat hseconds
  obtain ⟨length, hlength, hlengthNat⟩ := @mul?_eq frame rate.2 (by omega)
  obtain ⟨scaled, hscaled, hscaledNat⟩ := @mul?_eq length 1000 (by
    rw [hlengthNat]
    exact lt_of_le_of_lt (Nat.mul_le_mul_right 1000 hle) h)
  have hmillis : (scaled / rate.1).toNat = frameMillis frame.toNat lines := by
    rw [UInt64.toNat_div, hscaledNat, hlengthNat, frameMillis_eq, hrate]
    split <;> rfl
  rw [frameTime?]
  simp only [← hrate, hlength, hscaled, Option.bind_eq_bind, Option.bind_some, padded_hours,
    frameTime, clockTime, ← hmillis]
  rfl

end Word

/-! ## Frames and their texts -/

theorem isShown_frameTime (frame lines : Nat) :
    (Timestamp.ofMillis (frameMillis frame lines)).IsShown (frameTime frame lines) :=
  Timestamp.isShown_clockTime _

theorem Timestamp.IsShown.total_frameTime {frame lines : Nat} {time : Timestamp}
    (h : time.IsShown (frameTime frame lines)) : time.total = frameMillis frame lines := by
  rw [h.unique (isShown_frameTime frame lines), total_ofMillis]

theorem frameTime_injective (lines : Nat) :
    Function.Injective fun frame => frameTime frame lines := by
  intro a b hsame
  have hshown := isShown_frameTime a lines
  rw [show frameTime a lines = frameTime b lines from hsame] at hshown
  have htotal := hshown.total_frameTime
  rw [Timestamp.total_ofMillis] at htotal
  exact (frameMillis_strictMono lines).injective htotal

/-- A frame time shows the time of its frame and no other, rounded down to milliseconds. Later
frames show later times, so each has a text of its own. Words of 64 bits are wide enough for it as
long as they hold the milliseconds before they are divided. -/
theorem frameTime_exact (lines : Nat) :
    (∀ frame : UInt64, frame.toNat * 1001 * 1000 < 2 ^ 64 →
      Word.frameTime? frame lines = some (frameTime frame.toNat lines)) ∧
    (∀ frame : Nat, ∃ time : Timestamp, time.IsShown (frameTime frame lines) ∧
      (∀ other : Timestamp, other.IsShown (frameTime frame lines) → other = time) ∧
      time.minutes < 60 ∧ time.seconds < 60 ∧ time.millis < 1000 ∧
      time.total = ⌊1000 * frame * framePeriod lines⌋₊) ∧
    (∀ a b : Nat, a < b → ∀ early late : Timestamp, early.IsShown (frameTime a lines) →
      late.IsShown (frameTime b lines) → early.total < late.total) ∧
    Function.Injective fun frame : Nat => frameTime frame lines := by
  refine ⟨fun frame hframe => Word.frameTime?_eq hframe lines, fun frame => ?_, ?_,
    frameTime_injective lines⟩
  · obtain ⟨hminutes, hseconds, hmillis⟩ := Timestamp.ofMillis_lt (frameMillis frame lines)
    refine ⟨Timestamp.ofMillis (frameMillis frame lines), isShown_frameTime frame lines,
      fun other hother => hother.unique (isShown_frameTime frame lines), hminutes, hseconds,
      hmillis, ?_⟩
    rw [Timestamp.total_ofMillis, frameMillis_eq_floor]
  · intro a b hlt early late hearly hlate
    rw [hearly.total_frameTime, hlate.total_frameTime]
    exact frameMillis_strictMono lines hlt

/-- A frame of the hundredth hour, and the one before it. -/
theorem frameTime_exact_hundredHours :
    (9000000 : UInt64).toNat * 1001 * 1000 < 2 ^ 64 ∧
      Word.frameTime? 9000000 625 = some "100:00:00.000" ∧
      (⟨99, 59, 59, 960⟩ : Timestamp).IsShown (frameTime 8999999 625) ∧
      (⟨100, 0, 0, 0⟩ : Timestamp).IsShown (frameTime 9000000 625) ∧
      (⟨99, 59, 59, 960⟩ : Timestamp).total < (⟨100, 0, 0, 0⟩ : Timestamp).total := by
  obtain ⟨hwords, -, hlater, -⟩ := frameTime_exact 625
  have htime : frameTime 9000000 625 = "100:00:00.000" := by decide +kernel
  have hearly : (⟨99, 59, 59, 960⟩ : Timestamp).IsShown (frameTime 8999999 625) :=
    isShown_frameTime 8999999 625
  have hlate : (⟨100, 0, 0, 0⟩ : Timestamp).IsShown (frameTime 9000000 625) :=
    isShown_frameTime 9000000 625
  exact ⟨by decide, (hwords 9000000 (by decide)).trans (congrArg some htime), hearly, hlate,
    hlater 8999999 9000000 (by decide) _ _ hearly hlate⟩

end Blanking
