import Mathlib.Data.List.Basic
import Mathlib.Tactic.Ring
import Blanking.Slicer.Search

/-! # The search as a run of the clock

The steps of all samples are taken one after the other. Which of them are high depends on the
levels and on the threshold, which follows the levels alone. The search ends at the first step
that completes the expected pattern. -/

namespace Blanking.SlicerConfig

variable {ρ : Type} (c : SlicerConfig)

/-! ## The clock -/

/-- One step of the clock. -/
def advance (clock : Clock) (high : Bool) : Clock :=
  if high != clock.high then ⟨c.stepRate / 2, high, clock.word⟩
  else if clock.phase + c.criRate < c.stepRate then ⟨clock.phase + c.criRate, high, clock.word⟩
  else ⟨clock.phase + c.criRate - c.stepRate, high, shiftIn clock.word high⟩

/-- Whether a step completes a bit. -/
def ticks (clock : Clock) (high : Bool) : Bool :=
  high == clock.high && c.stepRate ≤ clock.phase + c.criRate

/-- The clock after some of the given steps. -/
def clockAt (high : Nat → Bool) : Nat → Clock
  | 0 => .start
  | step + 1 => c.advance (clockAt high step) (high step)

/-- Whether a step completes the expected pattern. -/
def completesAt (high : Nat → Bool) (step : Nat) : Bool :=
  c.ticks (c.clockAt high step) (high step) &&
    shiftIn (c.clockAt high step).word (high step) &&& c.criMask == c.cri

@[simp]
theorem clockAt_succ (high : Nat → Bool) (step : Nat) :
    c.clockAt high (step + 1) = c.advance (c.clockAt high step) (high step) := rfl

/-- The clock depends on the steps before only. -/
theorem clockAt_congr {high high' : Nat → Bool} {step : Nat}
    (h : ∀ before < step, high before = high' before) :
    c.clockAt high step = c.clockAt high' step := by
  induction step with
  | zero => rfl
  | succ step ih =>
      rw [clockAt_succ, clockAt_succ, ih fun before hlt => h before (Nat.lt_succ_of_lt hlt),
        h step (Nat.lt_succ_self step)]

theorem completesAt_congr {high high' : Nat → Bool} {step : Nat}
    (h : ∀ before ≤ step, high before = high' before) :
    c.completesAt high step = c.completesAt high' step := by
  rw [completesAt, completesAt, c.clockAt_congr fun before hlt => h before (Nat.le_of_lt hlt),
    h step (Nat.le_refl step)]

/-- Low steps leave the register empty. -/
theorem clockAt_low {high : Nat → Bool} {step : Nat} (hlow : ∀ before < step, high before = false) :
    (c.clockAt high step).high = false ∧ (c.clockAt high step).word = 0 := by
  induction step with
  | zero => exact ⟨rfl, rfl⟩
  | succ step ih =>
      obtain ⟨hhigh, hword⟩ := ih fun before hlt => hlow before (Nat.lt_succ_of_lt hlt)
      rw [clockAt_succ, advance, hhigh, hword, hlow step (Nat.lt_succ_self step)]
      split
      next => exact ⟨rfl, rfl⟩
      next =>
        split
        next => exact ⟨rfl, rfl⟩
        next => exact ⟨rfl, rfl⟩

theorem completesAt_low (hcri : c.cri ≠ 0) {high : Nat → Bool} {step : Nat}
    (hlow : ∀ before ≤ step, high before = false) : c.completesAt high step = false := by
  obtain ⟨_, hword⟩ := c.clockAt_low fun before hlt => hlow before (Nat.le_of_lt hlt)
  have hshift : shiftIn 0 false = 0 := rfl
  have hnot : (0 &&& c.criMask == c.cri) = false := by
    rw [UInt32.zero_and, beq_eq_false_iff_ne]
    exact hcri.symm
  rw [completesAt, hword, hlow step (Nat.le_refl step), hshift, hnot, Bool.and_false]

/-! ## The signal -/

/-- The threshold after some samples. -/
def thresholdAt (level : Nat → Nat) (threshold : Int) : Nat → Int
  | 0 => threshold
  | sample + 1 => c.adapt (thresholdAt level threshold sample)
      (level (c.sampleOffset + sample)) (level (c.sampleOffset + sample + 1))

/-- The level at which a sample is cut. -/
def sliceAt (level : Nat → Nat) (threshold : Int) (sample : Nat) : Int :=
  c.sliceLevel (c.thresholdAt level threshold sample)

/-- The level of a step, times the steps of a sample. -/
def sumAt (level : Nat → Nat) (step : Nat) : Nat :=
  let steps := c.layout.oversampling
  let index := c.sampleOffset + step / steps
  level index * (steps - step % steps) + level (index + 1) * (step % steps)

/-- Whether a step is high. -/
def highAt (level : Nat → Nat) (threshold : Int) (step : Nat) : Bool :=
  let steps := c.layout.oversampling
  c.sliceAt level threshold (step / steps) ≤ ((c.sumAt level step + steps / 2) / steps : Nat)

/-- Position of a step on the line. -/
def positionAt (step : Nat) : Nat :=
  let steps := c.layout.oversampling
  (c.sampleOffset + step / steps) * 256 + step % steps * 256 / steps

/-- What a step records if it completes a bit. -/
def criPointAt (level : Nat → Nat) (threshold : Int) (step : Nat) : Point :=
  let steps := c.layout.oversampling
  ⟨.cri, c.positionAt step, c.sumAt level step * 256 / steps,
    c.sliceAt level threshold (step / steps) * 256⟩

/-- The record after some steps. -/
def traceAt (record : Point → ρ → ρ) (level : Nat → Nat) (threshold : Int) (trace : ρ) :
    Nat → ρ
  | 0 => trace
  | step + 1 =>
      let high := c.highAt level threshold
      let before := traceAt record level threshold trace step
      if c.ticks (c.clockAt high step) (high step) then
        record (c.criPointAt level threshold step) before
      else before

/-- The end of the search at a step that completes the pattern. -/
def lockAt (level : Nat → Nat) (threshold : Int) (step : Nat) : Lock :=
  let sample := step / c.layout.oversampling
  ⟨c.positionAt step, c.sliceAt level threshold sample,
    c.thresholdAt level threshold (sample + 1)⟩

/-- Steps that are searched. -/
def searched : Nat := (c.criEnd - c.sampleOffset) * c.layout.oversampling

/-! ## The search -/

section Search

variable {c} (record : Point → ρ → ρ) (level : Nat → Nat) (threshold : Int) (trace : ρ)

theorem searchSteps_succ (index now next left : Nat) (slice : Int) (clock : Clock) :
    c.searchSteps record index now next slice (left + 1) clock trace =
      let steps := c.layout.oversampling
      let done := steps - (left + 1)
      let sum := now * (left + 1) + next * done
      let high := decide (slice ≤ ((sum + steps / 2) / steps : Nat))
      let position := index * 256 + done * 256 / steps
      let after :=
        if c.ticks clock high then
          record ⟨.cri, position, sum * 256 / steps, slice * 256⟩ trace
        else trace
      if c.ticks clock high && shiftIn clock.word high &&& c.criMask == c.cri then
        .locked position after
      else c.searchSteps record index now next slice left (c.advance clock high) after := by
  rw [searchSteps]
  dsimp only
  set high := decide (slice ≤ _)
  by_cases hedge : high = clock.high
  · by_cases hquiet : clock.phase + c.criRate < c.stepRate
    · simp [ticks, advance, hedge, hquiet, Nat.not_le.mpr hquiet]
    · have hticks : c.ticks clock high = true := by simp [ticks, hedge]; omega
      simp [advance, hedge, hquiet, hedge ▸ hticks]
  · simp [ticks, advance, hedge]

theorem searchSteps_eq (sample left step : Nat) (hleft : left ≤ c.layout.oversampling)
    (hstep : step = sample * c.layout.oversampling + (c.layout.oversampling - left)) :
    c.searchSteps record (c.sampleOffset + sample) (level (c.sampleOffset + sample))
        (level (c.sampleOffset + sample + 1)) (c.sliceAt level threshold sample) left
        (c.clockAt (c.highAt level threshold) step)
        (c.traceAt record level threshold trace step) =
      match (List.range' step left).find? (c.completesAt (c.highAt level threshold)) with
      | some last => .locked (c.positionAt last)
          (c.traceAt record level threshold trace (last + 1))
      | none => .searching (c.clockAt (c.highAt level threshold) (step + left))
          (c.traceAt record level threshold trace (step + left)) := by
  induction left generalizing step with
  | zero => rfl
  | succ left ih =>
      have hpos : 0 < c.layout.oversampling := by omega
      have hlt : c.layout.oversampling - (left + 1) < c.layout.oversampling := by omega
      have hdiv : step / c.layout.oversampling = sample := by
        rw [hstep, Nat.mul_comm, Nat.mul_add_div hpos, Nat.div_eq_of_lt hlt, Nat.add_zero]
      have hmod : step % c.layout.oversampling = c.layout.oversampling - (left + 1) := by
        rw [hstep, Nat.mul_comm, Nat.mul_add_mod, Nat.mod_eq_of_lt hlt]
      have hsum : c.sumAt level step = level (c.sampleOffset + sample) * (left + 1) +
          level (c.sampleOffset + sample + 1) * (c.layout.oversampling - (left + 1)) := by
        simp only [sumAt, hdiv, hmod]
        rw [Nat.sub_sub_self hleft]
      have hhigh : c.highAt level threshold step = decide (c.sliceAt level threshold sample ≤
          ((c.sumAt level step + c.layout.oversampling / 2) / c.layout.oversampling : Nat)) := by
        simp only [highAt, hdiv]
      have hnext := ih (step + 1) (by omega) (by omega)
      rw [show step + 1 + left = step + (left + 1) by omega] at hnext
      rw [searchSteps_succ, List.range'_succ, List.find?_cons]
      simp only [← hsum, ← hhigh]
      cases hcompletes : c.completesAt (c.highAt level threshold) step with
      | true =>
          have hticks := (Bool.and_eq_true_iff.mp hcompletes).1
          rw [completesAt] at hcompletes
          rw [if_pos hcompletes, if_pos hticks]
          simp only [traceAt, if_pos hticks, criPointAt, positionAt, hdiv, hmod]
      | false =>
          rw [completesAt] at hcompletes
          simp only [hcompletes, Bool.false_eq_true, if_false]
          rw [← hnext]
          simp only [clockAt, traceAt, criPointAt, positionAt, hdiv, hmod]

theorem searchSamples_eq (left sample : Nat) :
    c.searchSamples record level left (c.sampleOffset + sample)
        (c.thresholdAt level threshold sample)
        (c.clockAt (c.highAt level threshold) (sample * c.layout.oversampling))
        (c.traceAt record level threshold trace (sample * c.layout.oversampling)) =
      ((List.range' (sample * c.layout.oversampling) (left * c.layout.oversampling)).find?
        (c.completesAt (c.highAt level threshold))).map fun last =>
          (c.lockAt level threshold last, c.traceAt record level threshold trace (last + 1)) := by
  induction left generalizing sample with
  | zero => simp [searchSamples]
  | succ left ih =>
      have hsteps := searchSteps_eq record level threshold trace sample c.layout.oversampling
        (sample * c.layout.oversampling) (Nat.le_refl _) (by omega)
      -- The steps of one sample, and those of all the samples behind it.
      have hrange : List.range' (sample * c.layout.oversampling)
          ((left + 1) * c.layout.oversampling) =
            List.range' (sample * c.layout.oversampling) c.layout.oversampling ++
              List.range' ((sample + 1) * c.layout.oversampling)
                (left * c.layout.oversampling) := by
        rw [Nat.succ_mul sample, Nat.succ_mul left, Nat.add_comm (left * _),
          List.range'_append_1]
      rw [searchSamples, hrange, List.find?_append]
      rw [sliceAt] at hsteps
      simp only [hsteps]
      cases hfound : (List.range' (sample * c.layout.oversampling) c.layout.oversampling).find?
          (c.completesAt (c.highAt level threshold)) with
      | none =>
          rw [← Nat.succ_mul]
          exact ih (sample + 1)
      | some last =>
          obtain ⟨hfirst, hlast⟩ := List.mem_range'_1.mp (List.mem_of_find?_eq_some hfound)
          have hdiv : last / c.layout.oversampling = sample := by
            apply Nat.div_eq_of_lt_le hfirst
            rwa [Nat.succ_mul]
          simp only [Option.some_or, Option.map_some, lockAt, hdiv, sliceAt, thresholdAt]

/-- The search ends at the first step that completes the expected pattern. -/
theorem search_eq :
    c.search record level threshold trace =
      ((List.range c.searched).find? (c.completesAt (c.highAt level threshold))).map fun last =>
        (c.lockAt level threshold last, c.traceAt record level threshold trace (last + 1)) := by
  have hsamples := @searchSamples_eq _ c record level threshold trace
    (c.criEnd - c.sampleOffset) 0
  rw [Nat.zero_mul] at hsamples
  rw [search, List.range_eq_range', searched]
  exact hsamples

end Search

end Blanking.SlicerConfig
