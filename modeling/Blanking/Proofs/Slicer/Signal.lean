import Mathlib.Tactic.Linarith
import Mathlib.Tactic.Ring
import Blanking.Proofs.Slicer.Clock

/-! # Signals of two levels

A transmission holds each of its bits for some samples, at one of two levels. Between the levels
there is room for the threshold: however the signal goes up and down, it never leaves them. So the
steps of the search follow the bits, and turn from one to the next at some point between the last
sample of the one and the first of the other. -/

namespace Blanking

/-- The bit on a sample, where bits are sent from sample `start` on, for `n` samples each. -/
def sentAt (bits : List Bool) (n start index : Nat) : Bool :=
  decide (start ≤ index) && bits.getD ((index - start) / n) false

section SentAt

variable {bits : List Bool} {n start : Nat}

theorem sentAt_of_lt {index : Nat} (hindex : index < start) :
    sentAt bits n start index = false := by
  simp [sentAt, Nat.not_le.mpr hindex]

theorem sentAt_held (number : Nat) {sample : Nat} (hsample : sample < n) :
    sentAt bits n start (start + n * number + sample) = bits.getD number false := by
  have hdiv : (start + n * number + sample - start) / n = number := by
    rw [Nat.add_assoc, Nat.add_sub_cancel_left, Nat.mul_add_div (by omega),
      Nat.div_eq_of_lt hsample, Nat.add_zero]
  rw [sentAt, hdiv, decide_eq_true (by omega), Bool.true_and]

theorem sentAt_add {offset : Nat} (hoffset : offset ≤ start) (sample : Nat) :
    sentAt bits n start (offset + sample) = sentAt bits n (start - offset) sample := by
  have hle : start ≤ offset + sample ↔ start - offset ≤ sample := by omega
  rw [sentAt, sentAt, decide_eq_decide.mpr hle,
    show offset + sample - start = sample - (start - offset) by omega]

end SentAt

/-- The level of a bit. -/
def levelOf (blank white : Nat) (bit : Bool) : Nat := if bit then white else blank

/-! ## The threshold -/

/-- Room for the threshold, counted in 512th parts of a level. Above the lower level it needs so
much that it is still above it after the signal has gone up. -/
structure Tracks (blank white : Nat) (bit : Bool) (threshold : Int) : Prop where
  white_ge : threshold < 512 * (white + 1)
  blank_lt : 512 ≤ threshold - 512 * blank
  blank_lt_up : bit = false →
    512 * 512 ≤ (512 - ((white : Int) - blank)) * (threshold - 512 * blank)

namespace Tracks

variable {blank white : Nat} {bit : Bool} {threshold : Int}

theorem slice_bounds (h : Tracks blank white bit threshold) :
    (blank : Int) < threshold / 512 ∧ threshold / 512 ≤ white := by
  have hlow := h.blank_lt
  have hhigh := h.white_ge
  omega

theorem seed (bit : Bool) (hblank : blank ≤ 103) (hwhite : 107 ≤ white) (hbyte : white ≤ 255) :
    Tracks blank white bit (105 * 512) := by
  refine ⟨by omega, by omega, ?_⟩
  intro _
  have hswing : (257 : Int) ≤ 512 - ((white : Int) - blank) := by omega
  have hroom : (1024 : Int) ≤ 105 * 512 - 512 * blank := by omega
  nlinarith

/-- Where the signal goes up the threshold goes down, but not to the lower level. -/
theorem up (h : Tracks blank white false threshold) (hlevels : blank + 4 ≤ white) :
    Tracks blank white true (threshold + (blank - threshold / 512) * ((white : Int) - blank)) := by
  obtain ⟨hlow, hhigh⟩ := h.slice_bounds
  have hroom := h.blank_lt_up rfl
  have hwhite := h.white_ge
  have hfloor := Int.mul_ediv_add_emod threshold 512
  have hrest := Int.emod_nonneg threshold (show (512 : Int) ≠ 0 by decide)
  set slice := threshold / 512
  set swing := (white : Int) - blank with hswing
  have hdown : 0 ≤ (slice - blank) * swing := by apply mul_nonneg <;> omega
  have hscaled : 512 * ((slice - blank) * swing) ≤ (threshold - 512 * blank) * swing := by
    rw [← mul_assoc]
    apply mul_le_mul_of_nonneg_right <;> omega
  refine ⟨by linarith, by linarith, fun hbit => absurd hbit (by decide)⟩

/-- Where the signal goes down the threshold goes up, but not above the upper level, and far
enough for the next time. -/
theorem down (h : Tracks blank white true threshold) (hlevels : blank + 4 ≤ white)
    (hbyte : white ≤ 255) :
    Tracks blank white false
      (threshold + (white - threshold / 512) * ((white : Int) - blank)) := by
  obtain ⟨hlow, hhigh⟩ := h.slice_bounds
  have hwhite := h.white_ge
  have hfloor := Int.mul_ediv_add_emod threshold 512
  have hrest := Int.emod_nonneg threshold (show (512 : Int) ≠ 0 by decide)
  have hless := Int.emod_lt_of_pos threshold (show (0 : Int) < 512 by decide)
  set slice := threshold / 512
  set swing := (white : Int) - blank with hswing
  have hup : 0 ≤ (white - slice) * swing := by apply mul_nonneg <;> omega
  have hover : (white - slice) * swing ≤ (white - slice) * 512 := by
    apply mul_le_mul_of_nonneg_left <;> omega
  have hbottom : 512 - swing + swing * swing ≤
      threshold + (white - slice) * swing - 512 * blank := by
    have hmore : 0 ≤ (slice - blank - 1) * (512 - swing) := by apply mul_nonneg <;> omega
    have hsplit : (white - slice) * swing = swing * swing - (slice - blank) * swing := by
      rw [hswing]
      ring
    linarith
  -- With a swing from 4 to 255 there is room for the way down that comes next.
  have hproduct : 1024 ≤ swing * (513 - swing) := by
    have hless : 0 ≤ (swing - 4) * (255 - swing) := by apply mul_nonneg <;> omega
    linarith
  refine ⟨by linarith, by linarith, ?_⟩
  intro _
  calc (512 * 512 : Int)
    _ ≤ 512 * 512 + swing * (swing * (513 - swing) - 1024) := by
        have := mul_nonneg (show 0 ≤ swing by omega) (sub_nonneg.mpr hproduct)
        linarith
    _ = (512 - swing) * (512 - swing + swing * swing) := by ring
    _ ≤ _ := by
        apply mul_le_mul_of_nonneg_left hbottom
        omega

end Tracks

namespace SlicerConfig

variable {c : SlicerConfig} {blank white : Nat} {sent : Nat → Bool} {level : Nat → Nat}
  {samples : Nat}

theorem sliceLevel_eq_ediv (hfraction : c.layout.fraction = 9) (threshold : Int) :
    c.sliceLevel threshold = threshold / 512 := by
  rw [sliceLevel, hfraction, Int.shiftRight_eq_div_pow]
  rfl

theorem tracks_adapt (hfraction : c.layout.fraction = 9) (hlevels : blank + 4 ≤ white)
    (hbyte : white ≤ 255) {bit : Bool} {threshold : Int} (h : Tracks blank white bit threshold)
    (next : Bool) :
    Tracks blank white next
      (c.adapt threshold (levelOf blank white bit) (levelOf blank white next)) := by
  have hup : ((((white : Int) - blank).natAbs : Nat) : Int) = white - blank := by omega
  have hdown : ((((blank : Int) - white).natAbs : Nat) : Int) = white - blank := by omega
  rw [adapt, sliceLevel_eq_ediv hfraction]
  cases bit <;> cases next <;> simp only [levelOf, Bool.false_eq_true, if_true, if_false]
  · simpa using h
  · rw [hup]
    exact h.up hlevels
  · rw [hdown]
    exact h.down hlevels hbyte
  · simpa using h

/-- The threshold tracks the samples that are searched. -/
theorem tracks_thresholdAt (hfraction : c.layout.fraction = 9) (hlevels : blank + 4 ≤ white)
    (hbyte : white ≤ 255)
    (hlevel : ∀ i < samples, level (c.sampleOffset + i) = levelOf blank white (sent i))
    {threshold : Int} (hseed : ∀ bit, Tracks blank white bit threshold) {sample : Nat}
    (hsample : sample < samples) :
    Tracks blank white (sent sample) (c.thresholdAt level threshold sample) := by
  induction sample with
  | zero => exact hseed (sent 0)
  | succ sample ih =>
      rw [thresholdAt, hlevel sample (by omega), Nat.add_assoc, hlevel (sample + 1) hsample]
      exact tracks_adapt hfraction hlevels hbyte (ih (by omega)) (sent (sample + 1))

theorem sliceAt_bounds (hfraction : c.layout.fraction = 9) (hlevels : blank + 4 ≤ white)
    (hbyte : white ≤ 255)
    (hlevel : ∀ i < samples, level (c.sampleOffset + i) = levelOf blank white (sent i))
    {threshold : Int} (hseed : ∀ bit, Tracks blank white bit threshold) {sample : Nat}
    (hsample : sample < samples) :
    (blank : Int) < c.sliceAt level threshold sample ∧
      c.sliceAt level threshold sample ≤ white := by
  have htracks := tracks_thresholdAt hfraction hlevels hbyte hlevel hseed hsample
  rw [sliceAt, sliceLevel_eq_ediv hfraction]
  exact htracks.slice_bounds

end SlicerConfig

/-! ## The steps -/

/-- A change from one bit to another that is not taken back happens at one point. -/
theorem exists_turn {steps : Nat → Bool} {before after : Bool} (count : Nat)
    (hbefore : steps 0 = before) (hafter : steps (count + 1) = after)
    (hstays : ∀ k < count, steps k = after → steps (k + 1) = after) :
    ∃ turn ≤ count, (∀ k ≤ turn, steps k = before) ∧
      ∀ k, turn < k → k ≤ count + 1 → steps k = after := by
  induction count with
  | zero =>
      refine ⟨0, Nat.le_refl 0, ?_, ?_⟩
      · intro k hle
        rwa [Nat.le_zero.mp hle]
      · intro k hgt hle
        rwa [Nat.le_antisymm hle hgt]
  | succ count ih =>
      by_cases hturned : steps (count + 1) = after
      · obtain ⟨turn, hturn, hfirst, hlast⟩ :=
          ih hturned fun k hlt => hstays k (Nat.lt_succ_of_lt hlt)
        refine ⟨turn, Nat.le_succ_of_le hturn, hfirst, ?_⟩
        intro k hgt hle
        rcases Nat.le_succ_iff.mp hle with hless | rfl
        · exact hlast k hgt hless
        · exact hafter
      · -- Had one of these steps turned, so would have the last of them.
        have hnot (k : Nat) (hle : k ≤ count + 1) : steps k = !after := by
          rw [Bool.eq_not]
          intro hk
          have hon (m : Nat) (hkm : k ≤ m) : m ≤ count + 1 → steps m = after := by
            induction m, hkm using Nat.le_induction with
            | base => exact fun _ => hk
            | succ m _ ih => exact fun hm => hstays m hm (ih (Nat.le_of_succ_le hm))
          exact hturned (hon (count + 1) hle (Nat.le_refl _))
        have hfirst : before = !after := hbefore ▸ hnot 0 (Nat.zero_le _)
        refine ⟨count + 1, Nat.le_refl _, ?_, ?_⟩
        · intro k hle
          rw [hnot k hle, hfirst]
        · intro k hgt hle
          rwa [Nat.le_antisymm hle hgt]

/-- Whether the steps follow a signal of which `samples` samples are sent: they are those of the
samples, and change once at most from one sample to the next. -/
structure Follows (high sent : Nat → Bool) (samples : Nat) : Prop where
  onSample : ∀ i < samples, high (4 * i) = sent i
  between : ∀ i, i + 1 < samples → ∃ turn ≤ 3, (∀ k ≤ turn, high (4 * i + k) = sent i) ∧
    ∀ k, turn < k → k ≤ 4 → high (4 * i + k) = sent (i + 1)

/-- Between samples of one level the steps are of that level. -/
theorem Follows.steady {high sent : Nat → Bool} {samples : Nat} {bit : Bool}
    (h : Follows high sent samples) {first last : Nat} (hlast : last < samples)
    (hsent : ∀ i, first ≤ i → i ≤ last → sent i = bit) {step : Nat} (hfrom : 4 * first ≤ step)
    (hto : step ≤ 4 * last) : high step = bit := by
  have hsplit := Nat.div_add_mod step 4
  have hmod := Nat.mod_lt step (show 0 < 4 by decide)
  rcases Nat.lt_or_ge (step / 4) last with hless | hle
  · obtain ⟨turn, _, hbefore, hafter⟩ := h.between (step / 4) (by omega)
    rw [← hsplit]
    rcases Nat.lt_or_ge turn (step % 4) with hturned | hnot
    · rw [hafter _ hturned (by omega)]
      exact hsent _ (by omega) hless
    · rw [hbefore _ hnot]
      exact hsent _ (by omega) (by omega)
  · obtain rfl : step = 4 * last := by omega
    rw [h.onSample last hlast]
    exact hsent last (by omega) (Nat.le_refl last)

namespace SlicerConfig

variable {c : SlicerConfig} {blank white : Nat} {sent : Nat → Bool} {level : Nat → Nat}
  {samples : Nat} {threshold : Int}

theorem highAt_step (hsteps : c.layout.oversampling = 4) (i : Nat) {k : Nat} (hk : k < 4) :
    c.highAt level threshold (4 * i + k) =
      decide (c.sliceAt level threshold i ≤ ((level (c.sampleOffset + i) * (4 - k) +
        level (c.sampleOffset + i + 1) * k + 2) / 4 : Nat)) := by
  have hdiv : (4 * i + k) / 4 = i := by omega
  have hmod : (4 * i + k) % 4 = k := by omega
  simp only [highAt, sumAt, hsteps, hdiv, hmod]

/-- The steps of the search follow a signal of two levels. -/
theorem follows_highAt (hsteps : c.layout.oversampling = 4)
    (hlevel : ∀ i < samples, level (c.sampleOffset + i) = levelOf blank white (sent i))
    (hslice : ∀ i < samples, (blank : Int) < c.sliceAt level threshold i ∧
      c.sliceAt level threshold i ≤ white) :
    Follows (c.highAt level threshold) sent samples := by
  have honSample (i : Nat) (hi : i < samples) :
      c.highAt level threshold (4 * i) = sent i := by
    obtain ⟨hlow, hhigh⟩ := hslice i hi
    have hstep := @highAt_step c level threshold hsteps i 0 (by decide)
    rw [Nat.add_zero] at hstep
    rw [hstep, hlevel i hi]
    cases sent i <;> simp only [levelOf, Bool.false_eq_true, if_true, if_false,
      decide_eq_true_eq, decide_eq_false_iff_not] <;> omega
  refine ⟨honSample, ?_⟩
  intro i hi
  obtain ⟨hlow, hhigh⟩ := hslice i (by omega)
  apply exists_turn 3 (honSample i (by omega)) (honSample (i + 1) hi)
  intro k hk hturned
  rcases Nat.lt_or_ge (k + 1) 4 with hinside | hend
  · rw [highAt_step hsteps i (by omega), hlevel i (by omega), Nat.add_assoc c.sampleOffset,
      hlevel (i + 1) hi] at hturned
    rw [highAt_step hsteps i hinside, hlevel i (by omega), Nat.add_assoc c.sampleOffset,
      hlevel (i + 1) hi]
    generalize sent i = before, sent (i + 1) = after at hturned ⊢
    -- Both steps are cut at one level, and the interpolation goes one way.
    obtain rfl | rfl | rfl : k = 0 ∨ k = 1 ∨ k = 2 := by omega
    all_goals
      cases before <;> cases after <;>
        simp only [levelOf, Bool.false_eq_true, if_true, if_false, decide_eq_true_eq,
          decide_eq_false_iff_not] at hturned ⊢ <;> omega
  · obtain rfl : k = 3 := by omega
    exact honSample (i + 1) hi

end SlicerConfig

end Blanking
