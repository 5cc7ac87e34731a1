import Mathlib.Algebra.Order.Ring.Abs
import Mathlib.Tactic.Ring
import Blanking.Proofs.Slicer.Threshold

/-! # Slicing in words of 32 bits

Levels and thresholds are computed in signed words of 32 bits. Here each sum and product of them,
in a search and in the decisions behind it, is checked to be such a word. The checks never fail, so
the words hold the numbers that they stand for. -/

namespace Blanking

/-- A number that a signed word of 32 bits can hold. -/
def word? (value : Int) : Option Int :=
  if -2 ^ 31 ≤ value ∧ value < 2 ^ 31 then some value else none

theorem word?_eq_some {value : Int} (hlow : -2 ^ 31 ≤ value) (hhigh : value < 2 ^ 31) :
    word? value = some value := if_pos ⟨hlow, hhigh⟩

theorem word?_bind {α : Type} {value : Int} {rest : Int → Option α} (hlow : -2 ^ 31 ≤ value)
    (hhigh : value < 2 ^ 31) : (word? value).bind rest = rest value := by
  rw [word?_eq_some hlow hhigh, Option.bind_some]

namespace SlicerConfig

variable {ρ : Type}

/-! ## Checked arithmetic -/

/-- `adapt` in words of 32 bits. -/
def adapt? (c : SlicerConfig) (threshold : Int) (now next : Nat) : Option Int := do
  let change ← word? ((next : Int) - now)
  let weight ← word? change.natAbs
  let distance ← word? ((now : Int) - c.sliceLevel threshold)
  let move ← word? (distance * weight)
  word? (threshold + move)

/-- `searchSteps` in words of 32 bits, with a running sum of levels. What would be recorded of a
bit is computed at every step. -/
def searchSteps? (c : SlicerConfig) (record : Point → ρ → ρ) (index : Nat) (change slice : Int) :
    (left : Nat) → (sum : Int) → Clock → ρ → Option (Progress ρ)
  | 0, _, clock, trace => some (.searching clock trace)
  | left + 1, sum, clock, trace => do
      let steps := c.layout.oversampling
      let done := steps - (left + 1)
      let rounded ← word? (sum + (steps / 2 : Nat))
      let scaled ← word? (sum * 256)
      let cut ← word? (slice * 256)
      let high := decide (slice ≤ rounded.tdiv steps)
      let position := index * 256 + done * 256 / steps
      let after :=
        if c.ticks clock high then
          record ⟨.cri, position, (scaled.tdiv steps).toNat, cut⟩ trace
        else trace
      if c.ticks clock high && shiftIn clock.word high &&& c.criMask == c.cri then
        some (.locked position after)
      else
        let sum ← word? (sum + change)
        c.searchSteps? record index change slice left sum (c.advance clock high) after

/-- `searchSamples` in words of 32 bits. -/
def searchSamples? (c : SlicerConfig) (record : Point → ρ → ρ) (level : Nat → Nat) :
    (left index : Nat) → (threshold : Int) → Clock → ρ → Option (Option (Lock × ρ))
  | 0, _, _, _, _ => some none
  | left + 1, index, threshold, clock, trace => do
      let now := level index
      let next := level (index + 1)
      let slice := c.sliceLevel threshold
      let change ← word? ((next : Int) - now)
      let adapted ← c.adapt? threshold now next
      let sum ← word? ((now : Int) * c.layout.oversampling)
      match ← c.searchSteps? record index change slice c.layout.oversampling sum clock trace with
      | .locked position trace => some (some (⟨position, slice, adapted⟩, trace))
      | .searching clock trace =>
          c.searchSamples? record level left (index + 1) adapted clock trace

/-- `search` in words of 32 bits. -/
def search? (c : SlicerConfig) (record : Point → ρ → ρ) (level : Nat → Nat) (threshold : Int)
    (trace : ρ) : Option (Option (Lock × ρ)) :=
  c.searchSamples? record level (c.criEnd - c.sampleOffset) c.sampleOffset threshold .start trace

/-- `pointAt` in words of 32 bits. -/
def pointAt? (level : Nat → Nat) (slice : Int) (kind : PointKind) (position : Nat) :
    Option Point := do
  let index := position / 256
  let change ← word? ((level (index + 1) : Int) - level index)
  let scaled ← word? ((level index : Int) * 256)
  let part ← word? (change * (position % 256 : Nat))
  let sum ← word? (scaled + part)
  let cut ← word? (slice * 256)
  some ⟨kind, position, sum.toNat, cut⟩

/-- `points` in words of 32 bits. -/
def points? (c : SlicerConfig) (level : Nat → Nat) (slice : Int) (kind : PointKind) :
    (count position : Nat) → Option (List Point)
  | 0, _ => some []
  | count + 1, position => do
      let point ← pointAt? level slice kind position
      let rest ← c.points? level slice kind count (position + c.step)
      some (point :: rest)

/-- `frcPoints` in words of 32 bits. -/
def frcPoints? (c : SlicerConfig) (level : Nat → Nat) (lock : Lock) : Option (List Point) :=
  if c.fits lock then c.points? level lock.slice .frc c.frcBits (c.firstBit lock) else some []

/-- `payloadPoints` in words of 32 bits. -/
def payloadPoints? (c : SlicerConfig) (level : Nat → Nat) (lock : Lock) : Option (List Point) :=
  c.points? level lock.slice .payload c.payloadBits (c.firstBit lock + c.frcBits * c.step)

/-- `receive` in words of 32 bits. -/
def receive? (c : SlicerConfig) (level : Nat → Nat) (lock : Lock) :
    Option (Option Reception) := do
  let frc ← c.frcPoints? level lock
  if !c.fits lock || wordOfBits (frc.map Point.bit) != c.frc then some none
  else
    let payload ← c.payloadPoints? level lock
    some (some ⟨frc ++ payload, c.packing.bytes (payload.map Point.bit)⟩)

end SlicerConfig

namespace Slicer

/-- `receive` in words of 32 bits. -/
def receive? (s : Slicer) (level : Nat → Nat) : Option (Option (Slicer × Reception)) := do
  match ← s.config.search? (fun _ trace => trace) level s.threshold () with
  | none => some none
  | some (lock, _) =>
      let reception ← s.config.receive? level lock
      some (reception.map fun reception => ({ s with threshold := lock.threshold }, reception))

/-- `trace` in words of 32 bits. -/
def trace? (s : Slicer) (level : Nat → Nat) :
    Option (List Point × Option (Slicer × Reception)) := do
  match ← s.config.search? List.cons level s.threshold [] with
  | none => some ([], none)
  | some (lock, latest) =>
      let runIn := (latest.take s.config.criBits).reverse
      match ← s.config.receive? level lock with
      | none =>
          let frc ← s.config.frcPoints? level lock
          some (runIn ++ frc, none)
      | some reception =>
          some (runIn ++ reception.points, some ({ s with threshold := lock.threshold }, reception))

end Slicer

/-! ## The checks never fail -/

namespace SlicerConfig

variable {ρ : Type} {c : SlicerConfig} {level : Nat → Nat} {threshold slice : Int}

/-- A threshold within the levels of a format leaves room in a word. -/
theorem threshold_bounds (hlayout : c.layout.Bounded) (hnonneg : 0 ≤ c.sliceLevel threshold)
    (hle : c.sliceLevel threshold ≤ c.layout.mask) : 0 ≤ threshold ∧ threshold < 2 ^ 25 := by
  obtain ⟨hlow, hhigh⟩ := sliceLevel_bounds_iff.mp ⟨hnonneg, hle⟩
  have hmask : (c.layout.mask : Int) + 1 ≤ 2 ^ 12 := by
    have := hlayout.mask_le
    omega
  have hunit : (2 : Int) ^ c.layout.fraction ≤ 2 ^ 13 :=
    pow_le_pow_right₀ (by decide) hlayout.fraction_le
  refine ⟨hlow, ?_⟩
  calc threshold
    _ < (c.layout.mask + 1) * 2 ^ c.layout.fraction := hhigh
    _ ≤ 2 ^ 12 * 2 ^ 13 := mul_le_mul hmask hunit (by positivity) (by decide)
    _ = 2 ^ 25 := by decide

theorem adapt?_eq (hlayout : c.layout.Bounded) {now next : Nat} (hnow : now ≤ c.layout.mask)
    (hnext : next ≤ c.layout.mask) (hnonneg : 0 ≤ c.sliceLevel threshold)
    (hle : c.sliceLevel threshold ≤ c.layout.mask) :
    c.adapt? threshold now next = some (c.adapt threshold now next) := by
  obtain ⟨hlow, hhigh⟩ := threshold_bounds hlayout hnonneg hle
  have hmask := hlayout.mask_le
  have hdistance : |(now : Int) - c.sliceLevel threshold| ≤ 0xF00 := abs_le.mpr (by omega)
  have hweight : |((((next : Int) - now).natAbs : Nat) : Int)| ≤ 0xF00 := abs_le.mpr (by omega)
  have hmove : |((now : Int) - c.sliceLevel threshold) * ((next : Int) - now).natAbs| ≤
      0xF00 * 0xF00 := by
    rw [abs_mul]
    exact mul_le_mul hdistance hweight (abs_nonneg _) (by decide)
  rw [abs_le] at hdistance hweight hmove
  simp only [adapt?, Option.bind_eq_bind]
  rw [word?_bind (by omega) (by omega), word?_bind (by omega) (by omega),
    word?_bind (by omega) (by omega), word?_bind (by omega) (by omega),
    word?_eq_some (by omega) (by omega), adapt]

theorem searchSteps?_eq (hlayout : c.layout.Bounded) (record : Point → ρ → ρ) (index : Nat)
    {now next : Nat} (hnow : now ≤ c.layout.mask) (hnext : next ≤ c.layout.mask)
    (hnonneg : 0 ≤ slice) (hle : slice ≤ c.layout.mask) (left : Nat)
    (hleft : left ≤ c.layout.oversampling) (clock : Clock) (trace : ρ) :
    c.searchSteps? record index ((next : Int) - now) slice left
        (now * left + next * (c.layout.oversampling - left) : Nat) clock trace =
      some (c.searchSteps record index now next slice left clock trace) := by
  induction left generalizing clock trace with
  | zero => rfl
  | succ left ih =>
      have hmask := hlayout.mask_le
      have hsteps := hlayout.steps_le
      set steps := c.layout.oversampling with hsteps'
      set sum := now * (left + 1) + next * (steps - (left + 1)) with hsum
      have hbound : sum ≤ 0xF00 * 8 := by
        calc sum
          _ ≤ c.layout.mask * (left + 1) + c.layout.mask * (steps - (left + 1)) :=
              Nat.add_le_add (Nat.mul_le_mul_right _ hnow) (Nat.mul_le_mul_right _ hnext)
          _ = c.layout.mask * steps := by rw [← Nat.mul_add, Nat.add_sub_cancel' hleft]
          _ ≤ 0xF00 * 8 := Nat.mul_le_mul hmask hsteps
      have hnextSum : (sum : Int) + ((next : Int) - now) =
          (now * left + next * (steps - left) : Nat) := by
        rw [hsum, show steps - left = steps - (left + 1) + 1 by omega]
        push_cast
        ring
      have hrounded : ((sum : Int) + (steps / 2 : Nat)).tdiv steps =
          ((sum + steps / 2) / steps : Nat) := by
        rw [← Int.natCast_add]
        exact (Int.ofNat_tdiv _ _).symm
      have hscaled : (((sum : Int) * 256).tdiv steps).toNat = sum * 256 / steps := by
        rw [show (sum : Int) * 256 = (sum * 256 : Nat) from (Int.natCast_mul sum 256).symm,
          ← Int.ofNat_tdiv, Int.toNat_natCast]
      rw [searchSteps_succ]
      simp only [searchSteps?, Option.bind_eq_bind]
      rw [word?_bind (by omega) (by omega), word?_bind (by omega) (by omega),
        word?_bind (by omega) (by omega)]
      simp only [← hsteps', ← hsum, hrounded, hscaled]
      split
      next => rfl
      next =>
        rw [hnextSum, word?_bind (by omega) (by omega)]
        exact ih (by omega) _ _

theorem searchSamples?_eq (hlayout : c.layout.Bounded) (record : Point → ρ → ρ)
    (hlevel : ∀ index, level index ≤ c.layout.mask) (left index : Nat)
    (hnonneg : 0 ≤ c.sliceLevel threshold) (hle : c.sliceLevel threshold ≤ c.layout.mask)
    (clock : Clock) (trace : ρ) :
    c.searchSamples? record level left index threshold clock trace =
      some (c.searchSamples record level left index threshold clock trace) := by
  induction left generalizing index threshold clock trace with
  | zero => rfl
  | succ left ih =>
      have hnow := hlevel index
      have hnext := hlevel (index + 1)
      have hmask := hlayout.mask_le
      have hsum : (level index : Int) * c.layout.oversampling ≤ 0xF00 * 8 := by
        exact_mod_cast Nat.mul_le_mul (hnow.trans hmask) hlayout.steps_le
      have hpos : 0 ≤ (level index : Int) * c.layout.oversampling := by positivity
      have hsteps := searchSteps?_eq hlayout record index hnow hnext hnonneg hle
        c.layout.oversampling (Nat.le_refl _) clock trace
      simp only [Nat.sub_self, Nat.mul_zero, Nat.add_zero, Int.natCast_mul] at hsteps
      simp only [searchSamples?, Option.bind_eq_bind]
      rw [word?_bind (by omega) (by omega), adapt?_eq hlayout hnow hnext hnonneg hle,
        Option.bind_some, word?_bind (by omega) (by omega), hsteps, Option.bind_some,
        searchSamples]
      generalize c.searchSteps record index (level index) (level (index + 1))
        (c.sliceLevel threshold) c.layout.oversampling clock trace = progress
      cases progress with
      | locked position trace => rfl
      | searching clock trace =>
          obtain ⟨hnonneg', hle'⟩ := sliceLevel_adapt_mem hlayout hlevel index hnonneg hle
          exact ih (index + 1) hnonneg' hle' clock trace

theorem search?_eq (hlayout : c.layout.Bounded) (record : Point → ρ → ρ)
    (hlevel : ∀ index, level index ≤ c.layout.mask) (hnonneg : 0 ≤ c.sliceLevel threshold)
    (hle : c.sliceLevel threshold ≤ c.layout.mask) (trace : ρ) :
    c.search? record level threshold trace = some (c.search record level threshold trace) :=
  searchSamples?_eq hlayout record hlevel _ _ hnonneg hle _ trace

theorem pointAt?_eq {mask : Nat} (hmask : mask ≤ 0xF00) (hlevel : ∀ index, level index ≤ mask)
    (hnonneg : 0 ≤ slice) (hle : slice ≤ mask) (kind : PointKind) (position : Nat) :
    pointAt? level slice kind position = some (pointAt level slice kind position) := by
  have hnow := hlevel (position / 256)
  have hnext := hlevel (position / 256 + 1)
  have hpart := Nat.mod_lt position (show 0 < 256 by decide)
  rw [pointAt]
  simp only [pointAt?, Option.bind_eq_bind]
  generalize level (position / 256) = now at hnow ⊢
  generalize level (position / 256 + 1) = next at hnext ⊢
  generalize position % 256 = part at hpart ⊢
  -- Between two samples the level is a mean of theirs, so nothing is below zero at the end.
  have hsum : (now : Int) * 256 + ((next : Int) - now) * part =
      (now * (256 - part) + next * part : Nat) := by
    rw [Int.natCast_add, Int.natCast_mul, Int.natCast_sub hpart.le]
    push_cast
    ring
  have hmean : now * (256 - part) + next * part ≤ 0xF00 * 256 := by
    calc now * (256 - part) + next * part
      _ ≤ mask * (256 - part) + mask * part :=
          Nat.add_le_add (Nat.mul_le_mul_right _ hnow) (Nat.mul_le_mul_right _ hnext)
      _ = mask * 256 := by rw [← Nat.mul_add, Nat.sub_add_cancel hpart.le]
      _ ≤ 0xF00 * 256 := Nat.mul_le_mul_right _ hmask
  rw [word?_bind (by omega) (by omega), word?_bind (by omega) (by omega),
    word?_bind (by omega) (by omega), hsum, word?_bind (by omega) (by omega),
    word?_bind (by omega) (by omega), Int.toNat_natCast]

theorem points?_eq {mask : Nat} (hmask : mask ≤ 0xF00) (hlevel : ∀ index, level index ≤ mask)
    (hnonneg : 0 ≤ slice) (hle : slice ≤ mask) (kind : PointKind) (count position : Nat) :
    c.points? level slice kind count position =
      some (c.points level slice kind count position) := by
  induction count generalizing position with
  | zero => rfl
  | succ count ih =>
      simp only [points?, Option.bind_eq_bind]
      rw [pointAt?_eq hmask hlevel hnonneg hle, Option.bind_some, ih, Option.bind_some, points]

section Lock

variable {lock : Lock} (hlayout : c.layout.Bounded)
  (hlevel : ∀ index, level index ≤ c.layout.mask) (hnonneg : 0 ≤ lock.slice)
  (hle : lock.slice ≤ c.layout.mask)

include hlayout hlevel hnonneg hle

theorem frcPoints?_eq : c.frcPoints? level lock = some (c.frcPoints level lock) := by
  unfold frcPoints? frcPoints
  split
  next => exact points?_eq hlayout.mask_le hlevel hnonneg hle _ _ _
  next => rfl

theorem payloadPoints?_eq : c.payloadPoints? level lock = some (c.payloadPoints level lock) :=
  points?_eq hlayout.mask_le hlevel hnonneg hle _ _ _

theorem receive?_eq : c.receive? level lock = some (c.receive level lock) := by
  simp only [receive?, Option.bind_eq_bind]
  rw [frcPoints?_eq hlayout hlevel hnonneg hle, Option.bind_some, receive]
  dsimp only
  split
  next => rfl
  next => rw [payloadPoints?_eq hlayout hlevel hnonneg hle, Option.bind_some]

end Lock

end SlicerConfig

namespace Slicer.InRange

variable {target : Target} {s : Slicer}

theorem receive?_eq (h : s.InRange target) (row : ByteArray) :
    s.receive? (s.config.layout.level row) = some (s.receive (s.config.layout.level row)) := by
  have hlevel := h.bounded.level_le row
  simp only [Slicer.receive?, Option.bind_eq_bind]
  rw [SlicerConfig.search?_eq h.bounded _ hlevel h.nonneg h.le_mask, Option.bind_some]
  rw [Slicer.receive]
  cases hsearch : s.config.search (fun _ trace => trace) (s.config.layout.level row) s.threshold ()
  case none => rfl
  case some found =>
    obtain ⟨lock, _⟩ := found
    obtain ⟨hnonneg, hle⟩ := h.slice_mem row hsearch
    dsimp only
    rw [SlicerConfig.receive?_eq h.bounded hlevel hnonneg hle, Option.bind_some]
    cases hreceive : s.config.receive (s.config.layout.level row) lock <;> simp [hreceive]

theorem trace?_eq (h : s.InRange target) (row : ByteArray) :
    s.trace? (s.config.layout.level row) = some (s.trace (s.config.layout.level row)) := by
  have hlevel := h.bounded.level_le row
  simp only [Slicer.trace?, Option.bind_eq_bind]
  rw [SlicerConfig.search?_eq h.bounded _ hlevel h.nonneg h.le_mask, Option.bind_some]
  rw [Slicer.trace]
  cases hsearch : s.config.search List.cons (s.config.layout.level row) s.threshold []
  case none => rfl
  case some found =>
    obtain ⟨lock, latest⟩ := found
    obtain ⟨hnonneg, hle⟩ := h.slice_mem row hsearch
    dsimp only
    rw [SlicerConfig.receive?_eq h.bounded hlevel hnonneg hle, Option.bind_some]
    cases s.config.receive (s.config.layout.level row) lock
    case none =>
      dsimp only
      rw [SlicerConfig.frcPoints?_eq h.bounded hlevel hnonneg hle, Option.bind_some]
    case some reception => rfl

end Slicer.InRange

/-! ## Configured receivers -/

namespace Receiver

/-- Whatever lines a configured receiver is given, its slicer keeps its configuration and cuts the
signal within the levels of the format, and the threshold stays in the range that belongs to
them. One more line moves the cut to somewhere between the levels seen on it and the cut before, and
so do the samples of the line up to any of them. All that is computed on the way fits into words
of 32 bits. -/
theorem threshold_stable {target : Target} {before first : Receiver}
    (h : before.configure target = (first, .ok ())) (calls : List Call) :
    ∃ slicer, (first.run calls).slicer = some slicer ∧
      SlicerConfig.ofTarget target = .ok slicer.config ∧
      (0 ≤ slicer.sliceLevel ∧ slicer.sliceLevel ≤ target.format.layout.mask) ∧
      (0 ≤ slicer.threshold ∧
        slicer.threshold < (target.format.layout.mask + 1) * 2 ^ target.format.layout.fraction) ∧
      (∀ call : Call, Between
        (slicer.sliceLevel ::
          slicer.config.searchedLevels (target.format.layout.level call.row))
        ((first.run calls).after call).sliceLevel) ∧
      ∀ row, let level := target.format.layout.level row
        (∀ sample ≤ slicer.config.criEnd - slicer.config.sampleOffset,
          Between (slicer.sliceLevel :: slicer.config.searchedLevels level)
            (slicer.config.sliceAt level slicer.threshold sample) ∧
          0 ≤ slicer.config.thresholdAt level slicer.threshold sample ∧
          slicer.config.thresholdAt level slicer.threshold sample <
            (target.format.layout.mask + 1) * 2 ^ target.format.layout.fraction) ∧
        slicer.receive? level = some (slicer.receive level) ∧
        slicer.trace? level = some (slicer.trace level) := by
  obtain ⟨fresh, hfresh, hinRange⟩ : ∃ fresh, first.slicer = some fresh ∧
      fresh.InRange target := by
    unfold configure at h
    split at h
    next fresh hfresh =>
      obtain ⟨rfl, _⟩ := Prod.mk.inj h
      exact ⟨fresh, rfl, .ofTarget hfresh⟩
    next => exact absurd (congrArg Prod.snd h) (by simp)
  obtain ⟨slicer, hslicer, hrun⟩ := inRange_run hfresh hinRange calls
  have hlayout : slicer.config.layout = target.format.layout := by
    rw [(SlicerConfig.ofTarget_eq_ok_iff.mp hrun.configured).2]
    rfl
  rw [← hlayout]
  refine ⟨slicer, hslicer, hrun.configured, ⟨hrun.nonneg, hrun.le_mask⟩,
    SlicerConfig.sliceLevel_bounds_iff.mp ⟨hrun.nonneg, hrun.le_mask⟩, ?_, ?_⟩
  · intro call
    obtain ⟨next, hnext, _, hbetween⟩ := inRange_after hslicer hrun call
    rwa [sliceLevel, hnext]
  · intro row
    refine ⟨?_, hrun.receive?_eq row, hrun.trace?_eq row⟩
    intro sample hsample
    exact ⟨hrun.between row hsample,
      SlicerConfig.sliceLevel_bounds_iff.mp (hrun.sliceAt_mem row hsample)⟩

/-- Four bits of run-in, two of framing code and eight of payload, four samples each, in a format
with coarse levels. -/
def coarseTarget : Target where
  format := .argb12be
  rate := 4000000
  sampleOffset := 0
  samplesPerLine := 64
  cri := 0b0101
  criMask := 0b1111
  criBits := 4
  criRate := 1000000
  criEnd := 64
  frc := 0b01
  frcBits := 2
  payloadBits := 8
  payloadRate := 1000000
  modulation := .nrzLsb

/-- A line that goes from one end of the scale to the other and carries the byte 0x9D. -/
def coarseRow : ByteArray :=
  let bits := [0, 0, 255, 0, 255, 0, 255, 255, 0, 255, 255, 255, 0, 0, 255, 0]
  ⟨(bits.flatMap fun level =>
    (List.replicate 4 (PixelFormat.argb12be.layout.encode level)).flatten).toArray⟩

/-- The line is received, which moves the threshold, and the next line starts from there. -/
theorem threshold_stable_coarseRow :
    ∃ first slicer,
      empty.configure coarseTarget = (first, .ok ()) ∧
        (first.run [.slice (Vector.replicate 1 0) coarseRow]).slicer = some slicer ∧
        slicer.threshold = 9899520 ∧ 0 ≤ slicer.sliceLevel ∧ slicer.sliceLevel ≤ 0xF00 ∧
        (0 ≤ slicer.config.thresholdAt (PixelFormat.argb12be.layout.level coarseRow)
            slicer.threshold 20 ∧
          slicer.config.thresholdAt (PixelFormat.argb12be.layout.level coarseRow)
            slicer.threshold 20 < (0xF00 + 1) * 2 ^ 13) ∧
        slicer.receive? (PixelFormat.argb12be.layout.level coarseRow) =
          some (slicer.receive (PixelFormat.argb12be.layout.level coarseRow)) := by
  have hfeasible : SlicerConfig.Feasible coarseTarget := by constructor <;> decide
  have hconfigure : empty.configure coarseTarget =
      (⟨some ⟨.derive coarseTarget, coarseTarget.format.layout.seed⟩, false⟩, .ok ()) := by
    simp only [configure, Slicer.ofTarget, SlicerConfig.ofTarget_eq_ok_iff.mpr ⟨hfeasible, rfl⟩]
    rfl
  obtain ⟨slicer, hslicer, hconfig, ⟨hnonneg, hle⟩, _, _, hrow⟩ :=
    threshold_stable hconfigure [.slice (Vector.replicate 1 0) coarseRow]
  obtain ⟨hsamples, hreceive, _⟩ := hrow coarseRow
  have hthreshold : ((run ⟨some ⟨.derive coarseTarget, coarseTarget.format.layout.seed⟩, false⟩
      [.slice (Vector.replicate 1 0) coarseRow]).slicer.map Slicer.threshold) = some 9899520 := by
    decide +kernel
  rw [hslicer] at hthreshold
  have hwindow : 20 ≤ slicer.config.criEnd - slicer.config.sampleOffset := by
    rw [(SlicerConfig.ofTarget_eq_ok_iff.mp hconfig).2]
    decide
  exact ⟨_, slicer, hconfigure, hslicer, Option.some.inj hthreshold, hnonneg, hle,
    (hsamples 20 hwindow).2, hreceive⟩

end Receiver

end Blanking
