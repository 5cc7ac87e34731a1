import Mathlib.Tactic.Linarith
import Blanking.Proofs.Sample.Level
import Blanking.Proofs.Slicer.Clock
import Blanking.Proofs.Slicer.Data

/-! # How far the threshold goes

Each sample moves the level at which the signal is cut towards its own level, and not beyond it:
what the change to the next sample weighs is less than what would take it there. So however the
signal changes, the threshold stays among the levels that it has seen. -/

namespace Blanking

/-- Whether a number lies between the smallest and the largest of some numbers. -/
def Between (values : List Int) (x : Int) : Prop :=
  (∃ low ∈ values, low ≤ x) ∧ ∃ high ∈ values, x ≤ high

namespace Between

variable {values more : List Int} {x y z : Int}

theorem of_mem (h : x ∈ values) : Between values x := ⟨⟨x, h, le_refl x⟩, ⟨x, h, le_refl x⟩⟩

theorem of_le (hx : Between values x) (hy : Between values y) (hlow : min x y ≤ z)
    (hhigh : z ≤ max x y) : Between values z := by
  constructor
  · rcases min_le_iff.mp hlow with hle | hle
    · obtain ⟨low, hmem, hlow⟩ := hx.1
      exact ⟨low, hmem, hlow.trans hle⟩
    · obtain ⟨low, hmem, hlow⟩ := hy.1
      exact ⟨low, hmem, hlow.trans hle⟩
  · rcases le_max_iff.mp hhigh with hle | hle
    · obtain ⟨high, hmem, hhigh⟩ := hx.2
      exact ⟨high, hmem, hle.trans hhigh⟩
    · obtain ⟨high, hmem, hhigh⟩ := hy.2
      exact ⟨high, hmem, hle.trans hhigh⟩

theorem bounds (h : Between values x) {low high : Int}
    (hvalues : ∀ value ∈ values, low ≤ value ∧ value ≤ high) : low ≤ x ∧ x ≤ high := by
  obtain ⟨⟨least, hleast, hle⟩, ⟨most, hmost, hge⟩⟩ := h
  exact ⟨(hvalues least hleast).1.trans hle, hge.trans (hvalues most hmost).2⟩

end Between

namespace SlicerConfig

variable {c : SlicerConfig} {level : Nat → Nat} {threshold : Int}

theorem sliceLevel_eq (c : SlicerConfig) (threshold : Int) :
    c.sliceLevel threshold = threshold / 2 ^ c.layout.fraction := by
  rw [sliceLevel, Int.shiftRight_eq_div_pow]
  norm_cast

theorem ediv_le_iff_lt_mul {value unit bound : Int} (hpos : 0 < unit) :
    value / unit ≤ bound ↔ value < (bound + 1) * unit := by
  rw [← Int.lt_add_one_iff, Int.ediv_lt_iff_lt_mul hpos]

/-- A threshold is adapted towards the level of the sample, and not beyond it. -/
theorem sliceLevel_adapt {now next : Nat}
    (hchange : ((next : Int) - now).natAbs ≤ 2 ^ c.layout.fraction) :
    min (c.sliceLevel threshold) now ≤ c.sliceLevel (c.adapt threshold now next) ∧
      c.sliceLevel (c.adapt threshold now next) ≤ max (c.sliceLevel threshold) now := by
  rw [adapt]
  simp only [sliceLevel_eq]
  have hpos : (0 : Int) < 2 ^ c.layout.fraction := by positivity
  have hweight : ((((next : Int) - now).natAbs : Nat) : Int) ≤ 2 ^ c.layout.fraction := by
    exact_mod_cast hchange
  have hsplit := Int.mul_ediv_add_emod threshold (2 ^ c.layout.fraction)
  have hrest := Int.emod_nonneg threshold hpos.ne'
  have hless := Int.emod_lt_of_pos threshold hpos
  set weight : Int := ((((next : Int) - now).natAbs : Nat) : Int)
  have hweight' : 0 ≤ weight := Int.natCast_nonneg _
  set unit : Int := 2 ^ c.layout.fraction
  set slice := threshold / unit
  rw [Int.le_ediv_iff_mul_le hpos, ediv_le_iff_lt_mul hpos]
  rcases le_total slice now with hle | hle
  · -- Below the sample the threshold rises, by no more than the distance.
    rw [min_eq_left hle, max_eq_right hle]
    have hup : 0 ≤ (now - slice) * weight := mul_nonneg (sub_nonneg.mpr hle) hweight'
    have hover : (now - slice) * weight ≤ (now - slice) * unit :=
      mul_le_mul_of_nonneg_left hweight (sub_nonneg.mpr hle)
    constructor <;> linarith
  · rw [min_eq_right hle, max_eq_left hle]
    have hdown : 0 ≤ (slice - now) * weight := mul_nonneg (sub_nonneg.mpr hle) hweight'
    have hover : (slice - now) * weight ≤ (slice - now) * unit :=
      mul_le_mul_of_nonneg_left hweight (sub_nonneg.mpr hle)
    constructor <;> linarith

/-- A threshold cuts the signal within a range of levels exactly if it lies in the range with
its fraction. -/
theorem sliceLevel_bounds_iff {mask : Nat} :
    0 ≤ c.sliceLevel threshold ∧ c.sliceLevel threshold ≤ mask ↔
      0 ≤ threshold ∧ threshold < (mask + 1) * 2 ^ c.layout.fraction := by
  have hpos : (0 : Int) < 2 ^ c.layout.fraction := by positivity
  rw [sliceLevel_eq, Int.ediv_nonneg_iff_of_pos hpos, ediv_le_iff_lt_mul hpos]

/-- The levels of the samples that are searched. -/
def searchedLevels (c : SlicerConfig) (level : Nat → Nat) : List Int :=
  (List.range' c.sampleOffset (c.criEnd - c.sampleOffset)).map fun index => (level index : Int)

theorem natAbs_sub_le {mask : Nat} (hlevel : ∀ index, level index ≤ mask) (first second : Nat) :
    ((level first : Int) - level second).natAbs ≤ mask := by
  have hfirst := hlevel first
  have hsecond := hlevel second
  omega

theorem sliceLevel_adapt_mem (hlayout : c.layout.Bounded)
    (hlevel : ∀ index, level index ≤ c.layout.mask) (index : Nat)
    (hnonneg : 0 ≤ c.sliceLevel threshold) (hle : c.sliceLevel threshold ≤ c.layout.mask) :
    0 ≤ c.sliceLevel (c.adapt threshold (level index) (level (index + 1))) ∧
      c.sliceLevel (c.adapt threshold (level index) (level (index + 1))) ≤ c.layout.mask := by
  obtain ⟨hlow, hhigh⟩ := @sliceLevel_adapt c threshold (level index) (level (index + 1))
    ((natAbs_sub_le hlevel _ _).trans hlayout.mask_lt.le)
  have hnow := hlevel index
  omega

/-- At every sample the signal is cut between levels that were seen. -/
theorem between_sliceAt (hlayout : c.layout.Bounded) (hlevel : ∀ index, level index ≤ c.layout.mask)
    {sample : Nat} (hsample : sample ≤ c.criEnd - c.sampleOffset) :
    Between (c.sliceLevel threshold :: c.searchedLevels level)
      (c.sliceAt level threshold sample) := by
  induction sample with
  | zero => exact .of_mem List.mem_cons_self
  | succ sample ih =>
      have hchange := (natAbs_sub_le hlevel (c.sampleOffset + sample + 1)
        (c.sampleOffset + sample)).trans hlayout.mask_lt.le
      obtain ⟨hlow, hhigh⟩ :=
        @sliceLevel_adapt c (c.thresholdAt level threshold sample) _ _ hchange
      have hnow : Between (c.sliceLevel threshold :: c.searchedLevels level)
          (level (c.sampleOffset + sample)) := by
        apply Between.of_mem
        refine List.mem_cons_of_mem _ (List.mem_map.mpr ⟨_, ?_, rfl⟩)
        rw [List.mem_range'_1]
        omega
      exact (ih (Nat.le_of_succ_le hsample)).of_le hnow hlow hhigh

/-- The threshold that a search leads to has been that of some sample. -/
theorem threshold_of_search {ρ : Type} {record : Point → ρ → ρ} {trace after : ρ} {lock : Lock}
    (h : c.search record level threshold trace = some (lock, after)) :
    ∃ sample < c.criEnd - c.sampleOffset, lock.slice = c.sliceAt level threshold sample ∧
      lock.threshold = c.thresholdAt level threshold (sample + 1) := by
  rw [search_eq] at h
  obtain ⟨last, hlast, h⟩ := Option.map_eq_some_iff.mp h
  obtain ⟨rfl, _⟩ := Prod.mk.inj h
  have hsearched := List.mem_range.mp (List.mem_of_find?_eq_some hlast)
  refine ⟨last / c.layout.oversampling, Nat.div_lt_of_lt_mul ?_, rfl, rfl⟩
  rwa [Nat.mul_comm, ← searched]

/-- A search without a record ends as one with a record does. -/
theorem search_eq_map {ρ : Type} (record : Point → ρ → ρ) (trace : ρ) :
    c.search (fun _ trace => trace) level threshold () =
      (c.search record level threshold trace).map fun found => (found.1, ()) := by
  rw [search_eq, search_eq, Option.map_map]
  rfl

end SlicerConfig

namespace Slicer

variable {s next : Slicer} {level : Nat → Nat} {reception : Reception}

theorem threshold_of_receive (h : s.receive level = some (next, reception)) :
    ∃ sample ≤ s.config.criEnd - s.config.sampleOffset,
      next = { s with threshold := s.config.thresholdAt level s.threshold sample } := by
  obtain ⟨lock, hsearch, _, rfl⟩ := receive_eq_some h
  obtain ⟨sample, hsample, _, hthreshold⟩ := SlicerConfig.threshold_of_search hsearch
  exact ⟨sample + 1, hsample, by rw [hthreshold]⟩

/-- A record of the decisions does not change what is received. -/
theorem trace_snd (s : Slicer) (level : Nat → Nat) : (s.trace level).2 = s.receive level := by
  unfold trace receive
  rw [SlicerConfig.search_eq_map List.cons []]
  cases s.config.search List.cons level s.threshold [] with
  | none => rfl
  | some found =>
      obtain ⟨lock, latest⟩ := found
      cases hreceive : s.config.receive level lock <;> simp [hreceive]

theorem slicePoints_eq_some {size count found : Nat} {buffer filled : Vector UInt8 size}
    {points recorded : Vector Point count} {row : ByteArray}
    (h : s.slicePoints buffer points row = .ok (recorded, some (next, filled, found))) :
    ∃ reception, s.receive (s.config.layout.level row) = some (next, reception) := by
  unfold slicePoints at h
  split at h
  next => exact absurd h (by simp)
  next =>
    split at h
    next => exact absurd h (by simp)
    next =>
      have hreceive := trace_snd s (s.config.layout.level row)
      generalize s.trace (s.config.layout.level row) = traced at h hreceive
      obtain ⟨_, h⟩ := Prod.mk.inj (Except.ok.inj h)
      obtain ⟨⟨_, reception⟩, hfound, h⟩ := Option.map_eq_some_iff.mp h
      obtain ⟨rfl, _⟩ := Prod.mk.inj h
      exact ⟨reception, hreceive.symm.trans hfound⟩

/-- What holds of a slicer for a target at any time: it cuts the signal within the levels of its
format. -/
structure InRange (target : Target) (s : Slicer) : Prop where
  configured : SlicerConfig.ofTarget target = .ok s.config
  nonneg : 0 ≤ s.sliceLevel
  le_mask : s.sliceLevel ≤ s.config.layout.mask

namespace InRange

variable {target : Target}

theorem bounded (h : s.InRange target) : s.config.layout.Bounded := by
  rw [(SlicerConfig.ofTarget_eq_ok_iff.mp h.configured).2]
  exact target.format.bounded_layout

theorem ofTarget (h : Slicer.ofTarget target = .ok s) : s.InRange target := by
  unfold Slicer.ofTarget at h
  split at h
  next config hconfig =>
    obtain rfl := Except.ok.inj h
    have hbounded : config.layout.Bounded := by
      rw [(SlicerConfig.ofTarget_eq_ok_iff.mp hconfig).2]
      exact target.format.bounded_layout
    obtain ⟨hnonneg, hle⟩ :=
      SlicerConfig.sliceLevel_bounds_iff.mpr ⟨hbounded.seed_nonneg, hbounded.seed_lt⟩
    exact ⟨hconfig, hnonneg, hle⟩
  next => exact absurd h (by simp)

variable (h : s.InRange target) (row : ByteArray) {sample : Nat}
  (hsample : sample ≤ s.config.criEnd - s.config.sampleOffset)

include h hsample

/-- At every sample of a line the signal is cut between the levels seen so far. -/
theorem between : Between (s.sliceLevel :: s.config.searchedLevels (s.config.layout.level row))
    (s.config.sliceAt (s.config.layout.level row) s.threshold sample) :=
  SlicerConfig.between_sliceAt h.bounded (h.bounded.level_le row) hsample

theorem sliceAt_mem : 0 ≤ s.config.sliceAt (s.config.layout.level row) s.threshold sample ∧
    s.config.sliceAt (s.config.layout.level row) s.threshold sample ≤ s.config.layout.mask := by
  apply (h.between row hsample).bounds
  intro value hvalue
  rcases List.mem_cons.mp hvalue with rfl | hvalue
  · exact ⟨h.nonneg, h.le_mask⟩
  · obtain ⟨index, _, rfl⟩ := List.mem_map.mp hvalue
    exact ⟨Int.natCast_nonneg _, Int.ofNat_le.mpr (h.bounded.level_le row index)⟩

omit hsample in
/-- So it is behind every run-in that is found. -/
theorem slice_mem {ρ : Type} {record : Point → ρ → ρ} {trace traced : ρ} {lock : Lock}
    (hsearch : s.config.search record (s.config.layout.level row) s.threshold trace =
      some (lock, traced)) : 0 ≤ lock.slice ∧ lock.slice ≤ s.config.layout.mask := by
  obtain ⟨sample, hsample, hslice, _⟩ := SlicerConfig.threshold_of_search hsearch
  rw [hslice]
  exact h.sliceAt_mem row hsample.le

end InRange

theorem InRange.receive {target : Target} (h : s.InRange target) {row : ByteArray}
    (hnext : s.receive (s.config.layout.level row) = some (next, reception)) :
    next.InRange target ∧
      Between (s.sliceLevel :: s.config.searchedLevels (s.config.layout.level row))
        next.sliceLevel := by
  obtain ⟨sample, hsample, rfl⟩ := threshold_of_receive hnext
  obtain ⟨hnonneg, hle⟩ := h.sliceAt_mem row hsample
  exact ⟨⟨h.configured, hnonneg, hle⟩, h.between row hsample⟩

end Slicer

/-! ## Lines in a row -/

namespace Receiver

/-- A line that a receiver is given, with the buffers for what is found on it. -/
inductive Call where
  | slice {size : Nat} (buffer : Vector UInt8 size) (row : ByteArray)
  | slicePoints {size count : Nat} (buffer : Vector UInt8 size) (points : Vector Point count)
      (row : ByteArray)

def Call.row : Call → ByteArray
  | .slice _ row => row
  | .slicePoints _ _ row => row

/-- The receiver after one line. -/
def after (r : Receiver) : Call → Receiver
  | .slice buffer row => (r.slice buffer row).1
  | .slicePoints buffer points row => (r.slicePoints buffer points row).1

/-- The receiver after some lines. -/
def run (r : Receiver) (calls : List Call) : Receiver := calls.foldl after r

/-- A slicer stays as it is, unless it receives something. -/
theorem slicer_after {r : Receiver} {s : Slicer} (h : r.slicer = some s) (call : Call) :
    ∃ next, (r.after call).slicer = some next ∧
      (next = s ∨ ∃ reception, s.receive (s.config.layout.level call.row) =
        some (next, reception)) := by
  cases call with
  | slice buffer row =>
      simp only [after, Receiver.slice, h, Call.row]
      split
      next => exact ⟨s, h, Or.inl rfl⟩
      next => exact ⟨s, h, Or.inl rfl⟩
      next next filled hslice =>
        obtain ⟨reception, hreceive, _⟩ := Slicer.slice_eq_some hslice
        exact ⟨next, rfl, Or.inr ⟨reception, hreceive⟩⟩
  | slicePoints buffer points row =>
      simp only [after, Receiver.slicePoints, h, Call.row]
      split
      next => exact ⟨s, h, Or.inl rfl⟩
      next => exact ⟨s, h, Or.inl rfl⟩
      next recorded next filled count hslice =>
        obtain ⟨reception, hreceive⟩ := Slicer.slicePoints_eq_some hslice
        exact ⟨next, rfl, Or.inr ⟨reception, hreceive⟩⟩

theorem inRange_after {target : Target} {r : Receiver} {s : Slicer} (hslicer : r.slicer = some s)
    (h : s.InRange target) (call : Call) :
    ∃ next, (r.after call).slicer = some next ∧ next.InRange target ∧
      Between (s.sliceLevel :: s.config.searchedLevels (s.config.layout.level call.row))
        next.sliceLevel := by
  obtain ⟨next, hnext, rfl | ⟨reception, hreceive⟩⟩ := slicer_after hslicer call
  · exact ⟨next, hnext, h, .of_mem List.mem_cons_self⟩
  · obtain ⟨hinRange, hbetween⟩ := h.receive hreceive
    exact ⟨next, hnext, hinRange, hbetween⟩

/-- A slicer stays within its levels, whatever lines it is given. -/
theorem inRange_run {target : Target} {r : Receiver} {s : Slicer} (hslicer : r.slicer = some s)
    (h : s.InRange target) (calls : List Call) :
    ∃ last, (r.run calls).slicer = some last ∧ last.InRange target := by
  induction calls generalizing r s with
  | nil => exact ⟨s, hslicer, h⟩
  | cons call rest ih =>
      obtain ⟨next, hnext, hinRange, _⟩ := inRange_after hslicer h call
      exact ih hnext hinRange

end Receiver

end Blanking
