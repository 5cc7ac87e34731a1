import Mathlib.Data.List.Find
import Blanking.Proofs.Slicer.Clock
import Blanking.Proofs.Slicer.Data

/-! # Lines of one level

On a line of one level the threshold stays where it is, and all steps of the search are high or
all are low. Low steps leave the register empty. High steps fill it with set bits, one with each
period of the clock, and no pattern but that of captions at 525 lines is met by such bits. -/

namespace Blanking

/-- A register that has received set bits only. -/
def ones (count : Nat) : UInt32 := wordOfBits (List.replicate count true)

theorem ones_succ (count : Nat) : ones (count + 1) = shiftIn (ones count) true := by
  rw [ones, List.replicate_succ', wordOfBits, List.foldl_append]
  rfl

theorem toNat_ones (count : Nat) : (ones count).toNat = (2 ^ count - 1) % 2 ^ 32 := by
  have hnumber : Payload.numberOfBits (List.replicate count true) = 2 ^ count - 1 := by
    induction count with
    | zero => rfl
    | succ count ih =>
        have hpos := Nat.two_pow_pos count
        rw [List.replicate_succ', Payload.numberOfBits_append, ih, pow_succ]
        simp
        omega
  rw [ones, toNat_wordOfBits, hnumber]

/-- More than 32 set bits make no difference. -/
theorem ones_of_le {count : Nat} (hcount : 32 ≤ count) : ones count = ones 32 := by
  apply UInt32.toNat_inj.mp
  obtain ⟨more, rfl⟩ := Nat.exists_eq_add_of_le hcount
  have hpos := Nat.two_pow_pos more
  rw [toNat_ones, toNat_ones, pow_add]
  omega

namespace SlicerConfig

variable (c : SlicerConfig)

/-! ## The clock without edges -/

/-- The first high step starts the clock half a bit before the first bit; from then on bits and
phase are quotient and remainder of the time that has passed. -/
theorem clockAt_high (hrate : c.criRate ≤ c.stepRate) (hpos : 0 < c.stepRate) (step : Nat) :
    c.clockAt (fun _ => true) (step + 1) =
      ⟨(c.stepRate / 2 + step * c.criRate) % c.stepRate, true,
        ones ((c.stepRate / 2 + step * c.criRate) / c.stepRate)⟩ := by
  induction step with
  | zero =>
      have hhalf : c.stepRate / 2 < c.stepRate := by omega
      rw [Nat.zero_add, Nat.zero_mul, Nat.add_zero (c.stepRate / 2), Nat.mod_eq_of_lt hhalf,
        Nat.div_eq_of_lt hhalf]
      rfl
  | succ step ih =>
      rw [clockAt_succ, ih, Nat.succ_mul, ← Nat.add_assoc]
      set time := c.stepRate / 2 + step * c.criRate
      have hmod := Nat.mod_lt time hpos
      have hsplit := Nat.div_add_mod time c.stepRate
      simp only [advance, bne_self_eq_false, Bool.false_eq_true, if_false]
      split
      next hquiet =>
        have hnext : time + c.criRate =
            c.stepRate * (time / c.stepRate) + (time % c.stepRate + c.criRate) := by omega
        rw [hnext, Nat.mul_add_mod, Nat.mul_add_div hpos, Nat.mod_eq_of_lt hquiet,
          Nat.div_eq_of_lt hquiet, Nat.add_zero]
      next htick =>
        have hless : time % c.stepRate + c.criRate - c.stepRate < c.stepRate := by omega
        have hnext : time + c.criRate = c.stepRate * (time / c.stepRate + 1) +
            (time % c.stepRate + c.criRate - c.stepRate) := by
          rw [Nat.mul_succ]
          omega
        rw [hnext, Nat.mul_add_mod, Nat.mul_add_div hpos, Nat.mod_eq_of_lt hless,
          Nat.div_eq_of_lt hless, Nat.add_zero, ones_succ]

/-- High steps complete nothing if no run of set bits is the expected pattern. -/
theorem completesAt_high_eq_false (hrate : c.criRate ≤ c.stepRate) (hpos : 0 < c.stepRate)
    (hcri : ∀ count, ones count &&& c.criMask ≠ c.cri) (step : Nat) :
    c.completesAt (fun _ => true) step = false := by
  cases step with
  | zero => rfl
  | succ step =>
      rw [completesAt, c.clockAt_high hrate hpos, ← ones_succ, beq_eq_false_iff_ne.mpr (hcri _),
        Bool.and_false]

/-- The step that completes the second bit of a line whose steps are all high. -/
def secondTick : Nat := (2 * c.stepRate - c.stepRate / 2 + c.criRate - 1) / c.criRate

/-- If only two set bits are the expected pattern, high steps complete it with the second bit. -/
theorem completesAt_high_iff (hrate : c.criRate ≤ c.stepRate) (hpos : 0 < c.criRate)
    (hcri : ∀ count, ones count &&& c.criMask = c.cri ↔ count = 2) (step : Nat) :
    c.completesAt (fun _ => true) step = true ↔ step = c.secondTick := by
  have hperiod : 0 < c.stepRate := by omega
  cases step with
  | zero =>
      have hlater : 0 < c.secondTick := Nat.div_pos (by omega) hpos
      simp only [completesAt, ticks, clockAt, Clock.start]
      simp
      omega
  | succ step =>
      rw [completesAt, c.clockAt_high hrate hperiod, ← ones_succ, Bool.and_eq_true, beq_iff_eq,
        hcri, ticks]
      simp only [beq_self_eq_true, Bool.true_and, decide_eq_true_eq]
      set time := c.stepRate / 2 + step * c.criRate with htime
      have hmod := Nat.mod_lt time hperiod
      have hsplit := Nat.div_add_mod time c.stepRate
      rw [secondTick, @eq_comm _ (step + 1), Nat.div_eq_iff hpos, Nat.succ_mul]
      constructor
      · -- The second bit is complete once the time is two periods, and was not a step before.
        rintro ⟨htick, hcount⟩
        have hfirst : time / c.stepRate = 1 := by omega
        rw [hfirst] at hsplit
        omega
      · intro hbounds
        have hfirst : time / c.stepRate = 1 := by
          apply Nat.div_eq_of_lt_le <;> omega
        rw [hfirst] at hsplit ⊢
        omega

/-! ## The search on a line of one level -/

section Flat

variable {c} {level : Nat → Nat} {value : Nat} {threshold : Int}

/-- Whether all samples of a line have the same level. -/
def IsFlat (c : SlicerConfig) (level : Nat → Nat) (value : Nat) : Prop :=
  ∀ index < c.samplesPerLine, level index = value

theorem thresholdAt_flat (hflat : c.IsFlat level value) (hend : c.criEnd ≤ c.samplesPerLine - 1)
    {sample : Nat} (hsample : c.sampleOffset + sample ≤ c.criEnd) :
    c.thresholdAt level threshold sample = threshold := by
  induction sample with
  | zero => rfl
  | succ sample ih =>
      rw [thresholdAt, ih (by omega), adapt, hflat _ (by omega), hflat _ (by omega), sub_self,
        Int.natAbs_zero, Nat.cast_zero, mul_zero, add_zero]

theorem highAt_flat (hflat : c.IsFlat level value) (hend : c.criEnd ≤ c.samplesPerLine - 1)
    {step : Nat} (hstep : step < c.searched) :
    c.highAt level threshold step = decide (c.sliceLevel threshold ≤ value) := by
  have hpos : 0 < c.layout.oversampling := by
    by_contra hzero
    simp [searched, Nat.eq_zero_of_not_pos hzero] at hstep
  have hsample : step / c.layout.oversampling < c.criEnd - c.sampleOffset :=
    Nat.div_lt_of_lt_mul (by rwa [Nat.mul_comm, ← searched])
  have hmod := Nat.mod_lt step hpos
  have hsum : c.sumAt level step = value * c.layout.oversampling := by
    simp only [sumAt]
    generalize step / c.layout.oversampling = sample at hsample ⊢
    rw [hflat _ (by omega), hflat _ (by omega), ← Nat.mul_add,
      Nat.sub_add_cancel (Nat.le_of_lt hmod)]
  have hlevel : (c.sumAt level step + c.layout.oversampling / 2) / c.layout.oversampling =
      value := by
    rw [hsum, Nat.mul_comm, Nat.mul_add_div hpos,
      Nat.div_eq_of_lt (Nat.div_lt_self hpos (by decide)), Nat.add_zero]
  simp only [highAt, hlevel, sliceAt]
  rw [thresholdAt_flat hflat hend]
  generalize step / c.layout.oversampling = sample at hsample ⊢
  omega

/-- On a line of one level nothing but the clock decides where the search ends, and the
threshold is the same afterwards. -/
theorem search_flat (hflat : c.IsFlat level value) (hend : c.criEnd ≤ c.samplesPerLine - 1) :
    c.search (fun _ trace => trace) level threshold () =
      ((List.range c.searched).find?
        (c.completesAt fun _ => decide (c.sliceLevel threshold ≤ value))).map fun last =>
          (⟨c.positionAt last, c.sliceLevel threshold, threshold⟩, ()) := by
  have hcompletes : (List.range c.searched).find? (c.completesAt (c.highAt level threshold)) =
      (List.range c.searched).find?
        (c.completesAt fun _ => decide (c.sliceLevel threshold ≤ value)) := by
    refine List.find?_congr fun step hstep => ?_
    apply c.completesAt_congr
    intro before hbefore
    exact highAt_flat hflat hend (Nat.lt_of_le_of_lt hbefore (List.mem_range.mp hstep))
  rw [search_eq, hcompletes]
  apply Option.map_congr
  intro last hlast
  have hlast := List.mem_range.mp (List.mem_of_find?_eq_some hlast)
  have hsample : last / c.layout.oversampling < c.criEnd - c.sampleOffset :=
    Nat.div_lt_of_lt_mul (by rwa [Nat.mul_comm, ← searched])
  generalize hat : last / c.layout.oversampling = sample at hsample
  simp only [lockAt, sliceAt, hat]
  rw [thresholdAt_flat hflat hend (by omega), thresholdAt_flat hflat hend (by omega)]

/-- Where the search ends if a run of high steps is taken for a run-in of two set bits. -/
def secondLock (c : SlicerConfig) (threshold : Int) : Lock :=
  ⟨c.positionAt c.secondTick, c.sliceLevel threshold, threshold⟩

theorem search_flat_of_lt (hflat : c.IsFlat level value) (hend : c.criEnd ≤ c.samplesPerLine - 1)
    (hzero : c.cri ≠ 0) (hclear : value < c.sliceLevel threshold) :
    c.search (fun _ trace => trace) level threshold () = none := by
  have hlow : decide (c.sliceLevel threshold ≤ value) = false := by
    rw [decide_eq_false_iff_not]
    omega
  rw [search_flat hflat hend, hlow, Option.map_eq_none_iff, List.find?_eq_none]
  exact fun step _ => Bool.eq_false_iff.mp (c.completesAt_low hzero fun _ _ => rfl)

theorem search_flat_of_le (hflat : c.IsFlat level value) (hend : c.criEnd ≤ c.samplesPerLine - 1)
    (hrate : c.criRate ≤ c.stepRate) (hpos : 0 < c.criRate)
    (hcri : ∀ count, ones count &&& c.criMask = c.cri ↔ count = 2)
    (hset : c.sliceLevel threshold ≤ value) :
    c.search (fun _ trace => trace) level threshold () =
      if c.secondTick < c.searched then some (c.secondLock threshold, ()) else none := by
  have hiff := c.completesAt_high_iff hrate hpos hcri
  rw [search_flat hflat hend, decide_eq_true hset]
  split
  next hlt =>
    have hfound : (List.range c.searched).find? (c.completesAt fun _ => true) =
        some c.secondTick := by
      rw [List.find?_range_eq_some]
      refine ⟨(hiff _).mpr rfl, List.mem_range.mpr hlt, ?_⟩
      intro before hbefore
      rw [Bool.not_eq_true', Bool.eq_false_iff, Ne, hiff]
      exact Nat.ne_of_lt hbefore
    rw [hfound]
    rfl
  next hge =>
    rw [Option.map_eq_none_iff, List.find?_eq_none]
    intro step hstep
    rw [hiff]
    rintro rfl
    exact hge (List.mem_range.mp hstep)

end Flat

end SlicerConfig

namespace Slicer

/-- What lets a slicer take a line of one level for a run-in of two set bits: the level counts as
set, the search lasts for two bits, and there is room for what would follow them. -/
structure TakesFlat (s : Slicer) (value : Nat) : Prop where
  isSet : s.sliceLevel ≤ value
  isSearched : s.config.secondTick < s.config.searched
  fits : s.config.fits (s.config.secondLock s.threshold) = true

section Receive

variable {s : Slicer} {level : Nat → Nat} {value : Nat}

/-- Lines of one level do not move the threshold. -/
theorem receive_flat_stable (hflat : s.config.IsFlat level value)
    (hend : s.config.criEnd ≤ s.config.samplesPerLine - 1) {next : Slicer}
    {reception : Reception} (h : s.receive level = some (next, reception)) : next = s := by
  obtain ⟨lock, hsearch, _, rfl⟩ := receive_eq_some h
  rw [SlicerConfig.search_flat hflat hend] at hsearch
  obtain ⟨_, _, hlock⟩ := Option.map_eq_some_iff.mp hsearch
  obtain ⟨rfl, _⟩ := Prod.mk.inj hlock
  rfl

theorem receive_flat_eq_none (hflat : s.config.IsFlat level value)
    (hend : s.config.criEnd ≤ s.config.samplesPerLine - 1)
    (hrate : s.config.criRate ≤ s.config.stepRate) (hpos : 0 < s.config.stepRate)
    (hzero : s.config.cri ≠ 0)
    (hcri : ∀ count, ones count &&& s.config.criMask ≠ s.config.cri) :
    s.receive level = none := by
  have hnever (step : Nat) : s.config.completesAt
      (fun _ => decide (s.config.sliceLevel s.threshold ≤ value)) step = false := by
    cases decide (s.config.sliceLevel s.threshold ≤ value)
    · exact s.config.completesAt_low hzero fun _ _ => rfl
    · exact s.config.completesAt_high_eq_false hrate hpos hcri step
  have hnone := List.find?_eq_none.mpr fun step (_ : step ∈ List.range s.config.searched) =>
    Bool.eq_false_iff.mp (hnever step)
  rw [receive, SlicerConfig.search_flat hflat hend, hnone]
  rfl

/-- A slicer whose run-in ends in two set bits and that has no framing code to check takes
exactly those lines for a transmission. -/
theorem receive_flat_isSome_iff (hflat : s.config.IsFlat level value)
    (hend : s.config.criEnd ≤ s.config.samplesPerLine - 1)
    (hrate : s.config.criRate ≤ s.config.stepRate) (hpos : 0 < s.config.criRate)
    (hzero : s.config.cri ≠ 0)
    (hcri : ∀ count, ones count &&& s.config.criMask = s.config.cri ↔ count = 2)
    (hfrcBits : s.config.frcBits = 0) (hfrc : s.config.frc = 0) :
    (s.receive level).isSome = true ↔ s.TakesFlat value := by
  have hreceive (lock : Lock) :
      (s.config.receive level lock).isSome = true ↔ s.config.fits lock = true := by
    have hbits : wordOfBits ((s.config.frcPoints level lock).map Point.bit) = s.config.frc := by
      have hnone : s.config.frcPoints level lock = [] := by
        rw [SlicerConfig.frcPoints, hfrcBits]
        split <;> rfl
      rw [hnone, hfrc]
      rfl
    simp only [SlicerConfig.receive, hbits, bne_self_eq_false, Bool.or_false]
    cases s.config.fits lock <;> simp
  simp only [receive_isSome_iff, hreceive]
  rcases Int.lt_or_le value s.sliceLevel with hclear | hset
  · rw [SlicerConfig.search_flat_of_lt hflat hend hzero hclear]
    simp only [reduceCtorEq, false_and, exists_false, false_iff]
    exact fun h => absurd h.isSet (by omega)
  · rw [SlicerConfig.search_flat_of_le hflat hend hrate hpos hcri hset]
    split
    next hsearched =>
      constructor
      · rintro ⟨lock, hlock, hfits⟩
        obtain ⟨rfl, _⟩ := Prod.mk.inj (Option.some.inj hlock)
        exact ⟨hset, hsearched, hfits⟩
      · intro h
        exact ⟨_, rfl, h.fits⟩
    next hshort =>
      simp only [reduceCtorEq, false_and, exists_false, false_iff]
      exact fun h => hshort h.isSearched

end Receive

end Slicer

end Blanking
