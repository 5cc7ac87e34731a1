import Mathlib.Data.List.Basic
import Blanking.Proofs.Slicer.Checked
import Blanking.Proofs.Slicer.Threshold

/-! # What slicing depends on

Of a row a slicer takes in the signal levels from its offset to the end of the line and nothing
else. So two slicers that differ only in the format of their rows find the same on rows of the same
levels, line after line, if both formats start with the same threshold and treat levels in steps of
the same size. -/

namespace Blanking

/-! ## Bits of the signal -/

/-- The bits of one byte of a sample that belong to its signal component. -/
def Layout.signalBits (layout : Layout) (place : Nat) : Nat :=
  match layout.storage with
  | .byte _ skip _ => if place = skip then 0xFF else 0
  | .littleWord => if place = 0 then layout.mask % 2 ^ 8 else layout.mask / 2 ^ 8
  | .bigWord => if place = 0 then layout.mask / 2 ^ 8 else layout.mask % 2 ^ 8
  | .packed => layout.mask

/-- Whether a sample has the same signal bits in two rows. -/
def Layout.SameSignal (layout : Layout) (row row' : ByteArray) (index : Nat) : Prop :=
  ∀ place < layout.storage.stride,
    byteAt row (index * layout.storage.stride + place) &&& layout.signalBits place =
      byteAt row' (index * layout.storage.stride + place) &&& layout.signalBits place

theorem and_word {low : Nat} (high mask : Nat) (hlow : low < 2 ^ 8) :
    (low + 2 ^ 8 * high) &&& mask =
      (low &&& mask % 2 ^ 8) + 2 ^ 8 * (high &&& mask / 2 ^ 8) := by
  have hdiv : (low + 2 ^ 8 * high) / 2 ^ 8 = high := by omega
  have hmod : (low + 2 ^ 8 * high) % 2 ^ 8 = low := by omega
  rw [← Nat.mod_add_div ((low + 2 ^ 8 * high) &&& mask) (2 ^ 8), Nat.and_div_two_pow,
    Nat.and_mod_two_pow, hdiv, hmod]

/-- The level of a sample is that of its signal bits. -/
theorem PixelFormat.level_eq_of_sameSignal (format : PixelFormat) {row row' : ByteArray}
    {index : Nat} (h : format.layout.SameSignal row row' index) :
    format.layout.level row index = format.layout.level row' index := by
  have hbyte (row : ByteArray) (position : Nat) : byteAt row position < 2 ^ 8 :=
    Nat.lt_succ_of_le (byteAt_le row position)
  cases hstorage : format.layout.storage with
  | byte stride skip neutral =>
      have hplace := h skip (by rw [hstorage]; exact format.skip_lt_stride hstorage)
      have hall (row : ByteArray) (position : Nat) :
          byteAt row position &&& 0xFF = byteAt row position := by
        rw [show 0xFF = 2 ^ 8 - 1 from rfl, Nat.and_two_pow_sub_one_eq_mod,
          Nat.mod_eq_of_lt (hbyte row position)]
      simpa only [Layout.signalBits, Layout.level, hstorage, Storage.stride, if_pos, hall]
        using hplace
  | littleWord =>
      have hlow := h 0 (by rw [hstorage]; decide)
      have hhigh := h 1 (by rw [hstorage]; decide)
      simp only [Layout.signalBits, hstorage, Storage.stride, if_pos, Nat.one_ne_zero, if_false,
        Nat.add_zero] at hlow hhigh
      simp only [Layout.level, hstorage]
      rw [show 256 = 2 ^ 8 from rfl, and_word _ _ (hbyte _ _), and_word _ _ (hbyte _ _), hlow,
        hhigh]
  | bigWord =>
      have hhigh := h 0 (by rw [hstorage]; decide)
      have hlow := h 1 (by rw [hstorage]; decide)
      simp only [Layout.signalBits, hstorage, Storage.stride, if_pos, Nat.one_ne_zero, if_false,
        Nat.add_zero] at hlow hhigh
      simp only [Layout.level, hstorage]
      rw [show 256 = 2 ^ 8 from rfl, Nat.add_comm, and_word _ _ (hbyte _ _),
        Nat.add_comm (2 ^ 8 * _), and_word _ _ (hbyte _ _), hlow, hhigh]
  | packed =>
      have hbits := h 0 (by rw [hstorage]; decide)
      simpa only [Layout.signalBits, Layout.level, hstorage, Storage.stride, Nat.mul_one,
        Nat.add_zero] using hbits

/-! ## The same levels in another format -/

/-- The configuration with rows in another format. -/
def SlicerConfig.inFormat (c : SlicerConfig) (format : PixelFormat) : SlicerConfig :=
  { c with format := format, layout := format.layout }

/-- The slicer with rows in another format. -/
def Slicer.inFormat (s : Slicer) (format : PixelFormat) : Slicer :=
  ⟨s.config.inFormat format, s.threshold⟩

/-- The place with rows in another format. -/
def Receiver.inFormat (r : Receiver) (format : PixelFormat) : Receiver :=
  { r with slicer := r.slicer.map (·.inFormat format) }

/-- Whether levels of two layouts are treated alike: thresholds start at the same place and have the
same fraction, and samples have the same number of steps. -/
structure Layout.Alike (layout layout' : Layout) : Prop where
  seed : layout'.seed = layout.seed
  fraction : layout'.fraction = layout.fraction
  oversampling : layout'.oversampling = layout.oversampling

namespace SlicerConfig

variable {ρ : Type} {c : SlicerConfig} {format : PixelFormat} {level level' : Nat → Nat}

section Search

variable (halike : c.layout.Alike format.layout)

include halike

theorem sliceLevel_inFormat (threshold : Int) :
    (c.inFormat format).sliceLevel threshold = c.sliceLevel threshold := by
  rw [sliceLevel, sliceLevel, ← halike.fraction]
  rfl

theorem adapt_inFormat (threshold : Int) (now next : Nat) :
    (c.inFormat format).adapt threshold now next = c.adapt threshold now next := by
  rw [adapt, adapt, sliceLevel_inFormat halike]

theorem searchSteps_inFormat (index now next left : Nat) (slice : Int) (clock : Clock) :
    InWords.searchSteps (c.inFormat format) index now next slice left clock =
      InWords.searchSteps c index now next slice left clock := by
  have hsteps : (c.inFormat format).layout.oversampling = c.layout.oversampling :=
    halike.oversampling
  induction left generalizing clock with
  | zero => rfl
  | succ left ih =>
      simp only [InWords.searchSteps, hsteps, ih]
      rfl

/-- Samples are searched for their levels, and for that of the one behind the last. -/
theorem searchSamples_inFormat {left index : Nat}
    (hlevel : ∀ sample, index ≤ sample → sample ≤ index + left →
      level' sample = level sample) (threshold : Int) (clock : Clock) :
    InWords.searchSamples (c.inFormat format) level' left index threshold clock =
      InWords.searchSamples c level left index threshold clock := by
  have hsteps : (c.inFormat format).layout.oversampling = c.layout.oversampling :=
    halike.oversampling
  induction left generalizing index threshold clock with
  | zero => rfl
  | succ left ih =>
      have hnow := hlevel index (by omega) (by omega)
      have hnext := hlevel (index + 1) (by omega) (by omega)
      have hrest := @ih (index + 1) fun sample hfirst hlast =>
        hlevel sample (by omega) (by omega)
      simp only [InWords.searchSamples, hnow, hnext, hsteps, sliceLevel_inFormat halike,
        adapt_inFormat halike, searchSteps_inFormat halike, hrest]

/-- The search does not look behind the line. -/
theorem search_inFormat (hend : c.criEnd ≤ c.samplesPerLine - 1)
    (hlevel : ∀ index, c.sampleOffset ≤ index → index < c.samplesPerLine →
      level' index = level index) (threshold : Int) :
    InWords.search (c.inFormat format) level' threshold = InWords.search c level threshold := by
  by_cases hnone : c.criEnd ≤ c.sampleOffset
  · have hleft : (c.inFormat format).criEnd - (c.inFormat format).sampleOffset = 0 :=
      Nat.sub_eq_zero_of_le hnone
    rw [InWords.search, InWords.search, hleft, Nat.sub_eq_zero_of_le hnone]
    rfl
  · have hleft : c.sampleOffset + (c.criEnd - c.sampleOffset) < c.samplesPerLine := by omega
    exact searchSamples_inFormat halike (fun sample hfirst hlast =>
      hlevel sample hfirst (lt_of_le_of_lt hlast hleft)) threshold .start

end Search

theorem points_inFormat (slice : Int) (kind : PointKind) {count position : Nat}
    (hlevel : ∀ bit < count, ∀ sample, (position + bit * c.step) / 256 ≤ sample →
      sample ≤ (position + bit * c.step) / 256 + 1 → level' sample = level sample) :
    (c.inFormat format).points level' slice kind count position =
      c.points level slice kind count position := by
  induction count generalizing position with
  | zero => rfl
  | succ count ih =>
      have hfirst := hlevel 0 (Nat.zero_lt_succ count)
      rw [Nat.zero_mul, Nat.add_zero] at hfirst
      have hnow := hfirst _ (Nat.le_refl _) (Nat.le_succ _)
      have hnext := hfirst _ (Nat.le_succ _) (Nat.le_refl _)
      have hrest := @ih (position + c.step) fun bit hbit => by
        have hbit := hlevel (bit + 1) (Nat.succ_lt_succ hbit)
        rwa [Nat.succ_mul, Nat.add_comm (bit * _), ← Nat.add_assoc] at hbit
      rw [points, points, pointAt, pointAt, hnow, hnext]
      exact congrArg (_ :: ·) hrest

section Receive

variable {lock : Lock} (hoffset : c.sampleOffset * 256 ≤ lock.position)
  (hlevel : ∀ index, c.sampleOffset ≤ index → index < c.samplesPerLine →
    level' index = level index)

include hoffset hlevel

/-- A bit behind a run-in is read from two samples of the line behind its offset. -/
theorem level_eq_of_fits (hfits : c.fits lock = true) {bit : Nat}
    (hbit : bit < c.frcBits + c.payloadBits) {sample : Nat}
    (hfirst : (c.firstBit lock + bit * c.step) / 256 ≤ sample)
    (hlast : sample ≤ (c.firstBit lock + bit * c.step) / 256 + 1) :
    level' sample = level sample := by
  have hbehind : lock.position ≤ c.firstBit lock := Nat.le_add_right _ _
  exact hlevel sample (by omega) (lt_of_le_of_lt hlast (lt_of_fits hfits hbit))

theorem frcPoints_inFormat : (c.inFormat format).frcPoints level' lock = c.frcPoints level lock := by
  have hfits : (c.inFormat format).fits lock = c.fits lock := rfl
  rw [frcPoints, frcPoints, hfits]
  split
  next hon =>
    exact points_inFormat lock.slice .frc fun bit hbit sample =>
      level_eq_of_fits hoffset hlevel hon (Nat.lt_add_right _ hbit)
  next => rfl

/-- What follows a run-in depends on levels of the line behind its offset. -/
theorem receive_inFormat : (c.inFormat format).receive level' lock = c.receive level lock := by
  have hfits : (c.inFormat format).fits lock = c.fits lock := rfl
  rw [receive, receive, hfits, frcPoints_inFormat hoffset hlevel]
  cases hon : c.fits lock with
  | false => rfl
  | true =>
      have hpayload : (c.inFormat format).payloadPoints level' lock =
          c.payloadPoints level lock := by
        apply points_inFormat lock.slice .payload
        intro bit hbit sample
        have hbehind := @level_eq_of_fits c level level' lock hoffset hlevel hon
          (c.frcBits + bit) (Nat.add_lt_add_left hbit _) sample
        rwa [Nat.add_mul, ← Nat.add_assoc] at hbehind
      rw [hpayload]
      rfl

theorem receiveInWords_inFormat :
    InWords.receive (c.inFormat format) level' lock = InWords.receive c level lock := by
  simp only [InWords.receive, frcPoints_inFormat hoffset hlevel, receive_inFormat hoffset hlevel]
  rfl

end Receive

theorem derive_inFormat {target : Target} (halike : target.format.layout.Alike format.layout) :
    derive { target with format := format } = (derive target).inFormat format := by
  simp only [derive, inFormat, halike.oversampling]
  rfl

end SlicerConfig

/-! ## One line -/

/-- A line that is sliced, and a buffer for its payload. -/
structure Line where
  size : Nat
  buffer : Vector UInt8 size
  row : ByteArray

/-- Whether a line has all samples of a target, and a buffer for all bytes of its payload. -/
structure Line.Suits (target : Target) (line : Line) : Prop where
  buffer : (target.payloadBits + 7) / 8 ≤ line.size
  row : target.samplesPerLine * target.format.layout.storage.stride ≤ line.row.size

/-- Whether the samples that belong to a target have the same levels on a line and on a row of
another format. -/
def Line.SameLevels (target : Target) (line : Line) (format : PixelFormat) (row : ByteArray) :
    Prop :=
  ∀ index, target.sampleOffset ≤ index → index < target.samplesPerLine →
    format.layout.level row index = target.format.layout.level line.row index

namespace Slicer

variable {target : Target} {format : PixelFormat} {s : Slicer}
  (hlong : target.samplesPerLine ≤ wordLimit)
  (hconfig : SlicerConfig.ofTarget target = .ok s.config)
  (halike : target.format.layout.Alike format.layout)

include hlong hconfig halike

theorem receiveLine_inFormat {level level' : Nat → Nat}
    (hlevel : ∀ index, target.sampleOffset ≤ index → index < target.samplesPerLine →
      level' index = level index) :
    InWords.receiveLine (s.inFormat format) level' =
      (InWords.receiveLine s level).map
        (·.map fun (next, reception) => (next.inFormat format, reception)) := by
  have hderive := (SlicerConfig.ofTarget_eq_ok_iff.mp hconfig).2
  have halike' : s.config.layout.Alike format.layout := by rwa [hderive]
  have hlevel' : ∀ index, s.config.sampleOffset ≤ index → index < s.config.samplesPerLine →
      level' index = level index := by rwa [hderive]
  have hend := SlicerConfig.criEnd_le hconfig
  have hsamples : s.config.samplesPerLine = target.samplesPerLine := by rw [hderive]; rfl
  have hsearch := SlicerConfig.search_inFormat halike' hend hlevel' s.threshold
  rw [InWords.receiveLine, InWords.receiveLine]
  simp only [inFormat, hsearch]
  cases hlock : InWords.search s.config level s.threshold with
  | none => rfl
  | some found =>
      cases found with
      | none => rfl
      | some lock =>
          have hagrees := InWords.search_agrees (by omega) hlock
          have hreceive := @SlicerConfig.receiveInWords_inFormat s.config format level level' lock
            (SlicerConfig.le_position_of_search hagrees) hlevel'
          simp only [Option.bind_eq_bind, Option.bind_some, hreceive]
          rcases InWords.receive s.config level lock with _ | _ | reception <;> rfl

/-- Two rows of the same levels are sliced alike, and with success as far as sizes go. -/
theorem slice_inFormat {line : Line} {row : ByteArray} (hline : line.Suits target)
    (hrow : { line with row := row }.Suits { target with format := format })
    (hlevels : line.SameLevels target format row) :
    ∃ found? : Option (Option (Slicer × Vector UInt8 line.size)),
      (InWords.slice s line.buffer line.row).run = found?.map .ok ∧
      (InWords.slice (s.inFormat format) line.buffer row).run =
        found?.map fun found =>
          .ok (found.map fun (next, filled) => (next.inFormat format, filled)) := by
  have hderive := (SlicerConfig.ofTarget_eq_ok_iff.mp hconfig).2
  have hlayout : s.config.layout = target.format.layout := by rw [hderive]; rfl
  have hlayout' : (s.inFormat format).config.layout = format.layout := rfl
  have hsizes : s.checkSizes line.size line.row = .ok () := by
    rw [checkSizes_eq_ok_iff, hderive]
    exact ⟨hline.buffer, hline.row⟩
  have hsizes' : (s.inFormat format).checkSizes line.size row = .ok () := by
    rw [checkSizes_eq_ok_iff, inFormat, hderive]
    exact ⟨hline.buffer, hrow.row⟩
  have hreceive := receiveLine_inFormat hlong hconfig halike hlevels
  refine ⟨(InWords.receiveLine s (target.format.layout.level line.row)).map
    (·.map fun (next, reception) => (next, overwrite reception.payload line.buffer)), ?_, ?_⟩
  · rw [InWords.slice, hsizes, hlayout]
    rcases InWords.receiveLine s (target.format.layout.level line.row) with _ | _ | found <;> rfl
  · rw [InWords.slice, hsizes', hlayout', hreceive]
    rcases InWords.receiveLine s (target.format.layout.level line.row) with _ | _ | found <;> rfl

end Slicer

/-! ## One line after the other -/

namespace Receiver

/-- What is seen of a line: whether the transmission was found, the buffer afterwards, and the
threshold with its fraction and without. -/
structure View where
  found : Except SliceError Bool
  buffer : List UInt8
  threshold : Option Int
  sliceLevel : Int

/-- What is seen of lines that are sliced one after the other. -/
def views? (r : Receiver) : List Line → Option (List View)
  | [] => some []
  | line :: rest => do
      let (next, buffer, found) ← InWords.sliceWith r line.buffer line.row
      let later ← next.views? rest
      some (⟨found, buffer.toList, next.slicer.map Slicer.threshold, next.sliceLevel⟩ :: later)

theorem configure_eq_ok {target : Target} {before first : Receiver}
    (h : before.configure target = (first, .ok ())) :
    ∃ s, Slicer.ofTarget target = .ok s ∧ first = ⟨some s, false⟩ := by
  unfold configure at h
  split at h
  next s hs =>
    obtain ⟨rfl, _⟩ := Prod.mk.inj h
    exact ⟨s, hs, rfl⟩
  next => exact absurd (congrArg Prod.snd h) (by simp)

section InFormat

variable {target : Target} {format : PixelFormat} {r : Receiver} {s : Slicer}
  (halike : target.format.layout.Alike format.layout)

include halike

/-- A place that has a slicer for a target has one for the target in another format, too. -/
theorem configure_inFormat (hs : Slicer.ofTarget target = .ok s) (before : Receiver) :
    before.configure { target with format := format } =
      (inFormat ⟨some s, false⟩ format, .ok ()) := by
  unfold Slicer.ofTarget at hs
  split at hs
  next config hconfig =>
    obtain rfl := Except.ok.inj hs
    obtain ⟨hfeasible, rfl⟩ := SlicerConfig.ofTarget_eq_ok_iff.mp hconfig
    have hother : SlicerConfig.Feasible { target with format := format } :=
      { hfeasible with }
    have hslicer : Slicer.ofTarget { target with format := format } =
        .ok (Slicer.inFormat ⟨.derive target, target.format.layout.seed⟩ format) := by
      rw [Slicer.ofTarget, SlicerConfig.ofTarget_eq_ok_iff.mpr ⟨hother, rfl⟩,
        SlicerConfig.derive_inFormat halike, Slicer.inFormat, ← halike.seed]
      rfl
    rw [configure, hslicer]
    rfl
  next => exact absurd hs (by simp)

variable (hslicer : r.slicer = some s) (hconfig : SlicerConfig.ofTarget target = .ok s.config)

include hslicer hconfig

theorem sliceLevel_inFormat : (r.inFormat format).sliceLevel = r.sliceLevel := by
  have halike' : s.config.layout.Alike format.layout := by
    rwa [(SlicerConfig.ofTarget_eq_ok_iff.mp hconfig).2]
  simp only [sliceLevel, inFormat, hslicer, Option.map_some, Option.getD_some, Slicer.sliceLevel]
  exact SlicerConfig.sliceLevel_inFormat halike' s.threshold

variable (hlong : target.samplesPerLine ≤ wordLimit)

include hlong

theorem sliceWith_inFormat {line : Line} {row : ByteArray} (hline : line.Suits target)
    (hrow : { line with row := row }.Suits { target with format := format })
    (hlevels : line.SameLevels target format row) :
    ∃ seen? : Option (Receiver × Vector UInt8 line.size × Bool),
      InWords.sliceWith r line.buffer line.row =
        seen?.map (fun (next, filled, found) => (next, filled, .ok found)) ∧
      InWords.sliceWith (r.inFormat format) line.buffer row =
        seen?.map (fun (next, filled, found) => (next.inFormat format, filled, .ok found)) ∧
      ∀ next filled found, seen? = some (next, filled, found) →
        ∃ slicer, next.slicer = some slicer ∧
          SlicerConfig.ofTarget target = .ok slicer.config := by
  obtain ⟨found?, hslice, hslice'⟩ :=
    Slicer.slice_inFormat hlong hconfig halike hline hrow hlevels
  have hslicer' : (r.inFormat format).slicer = some (s.inFormat format) := by
    rw [inFormat, hslicer, Option.map_some]
  rw [InWords.sliceWith, InWords.sliceWith, hslicer, hslicer']
  simp only [hslice, hslice']
  rcases found? with _ | _ | ⟨next, filled⟩
  · exact ⟨none, rfl, rfl, by simp⟩
  · refine ⟨some (r, line.buffer, false), rfl, rfl, ?_⟩
    rintro _ _ _ ⟨⟩
    exact ⟨s, hslicer, hconfig⟩
  · refine ⟨some ({ r with slicer := some next }, filled, true), rfl, rfl, ?_⟩
    rintro _ _ _ ⟨⟩
    have hend : s.config.criEnd ≤ wordLimit := by
      have hend := SlicerConfig.criEnd_le hconfig
      have hsamples : s.config.samplesPerLine = target.samplesPerLine := by
        rw [(SlicerConfig.ofTarget_eq_ok_iff.mp hconfig).2]
        rfl
      omega
    obtain ⟨reception, hreceive, _⟩ :=
      Slicer.slice_eq_some (InWords.slice_agrees hend line.buffer line.row _ hslice).symm
    exact ⟨next, rfl, by rw [hconfig, Slicer.config_receive hreceive]⟩

/-- Lines of the same levels look the same, one after the other. -/
theorem views?_inFormat {pairs : List (Line × ByteArray)}
    (h : ∀ pair ∈ pairs, pair.1.Suits target ∧
      ({ pair.1 with row := pair.2 } : Line).Suits { target with format := format } ∧
      pair.1.SameLevels target format pair.2) :
    (r.inFormat format).views? (pairs.map fun pair => { pair.1 with row := pair.2 }) =
        r.views? (pairs.map Prod.fst) ∧
      ∀ views, r.views? (pairs.map Prod.fst) = some views →
        ∀ view ∈ views, ∃ found, view.found = .ok found := by
  induction pairs generalizing r s with
  | nil => exact ⟨rfl, by simp [views?]⟩
  | cons pair rest ih =>
      obtain ⟨hline, hrow, hlevels⟩ := h pair List.mem_cons_self
      obtain ⟨seen?, hslice, hslice', hkept⟩ :=
        sliceWith_inFormat halike hslicer hconfig hlong hline hrow hlevels
      simp only [List.map_cons, views?, hslice, hslice']
      rcases seen? with _ | ⟨next, filled, found⟩
      · simp
      obtain ⟨slicer, hnext, hnextConfig⟩ := hkept next filled found rfl
      obtain ⟨hsame, hfound⟩ := ih hnext hnextConfig fun pair hpair =>
        h pair (List.mem_cons_of_mem _ hpair)
      have hthreshold : (next.inFormat format).slicer.map Slicer.threshold =
          next.slicer.map Slicer.threshold := by
        rw [inFormat, hnext]
        rfl
      simp only [Option.map_some, Option.bind_eq_bind, Option.bind_some, hsame, hthreshold,
        sliceLevel_inFormat halike hnext hnextConfig]
      refine ⟨trivial, fun views hviews => ?_⟩
      obtain ⟨later, hlater, hviews⟩ := Option.bind_eq_some_iff.mp hviews
      obtain rfl := Option.some.inj hviews
      exact List.forall_mem_cons.mpr ⟨⟨found, rfl⟩, hfound later hlater⟩

end InFormat

/-- As long as no position can be too large for a word, all lines are sliced. -/
theorem exists_views? {r : Receiver} {s : Slicer} (hslicer : r.slicer = some s)
    (hfit : s.config.PositionsFit) (lines : List Line) : ∃ views, r.views? lines = some views := by
  induction lines generalizing r s with
  | nil => exact ⟨[], rfl⟩
  | cons line rest ih =>
      have hslice := InWords.run_slice hfit line.buffer line.row
      have hnext : ∃ next filled found, InWords.sliceWith r line.buffer line.row =
          some (next, filled, found) ∧
            ∃ slicer, next.slicer = some slicer ∧ slicer.config.PositionsFit := by
        rw [InWords.sliceWith, hslicer]
        simp only [hslice]
        rcases hfound : s.slice line.buffer line.row with cause | _ | ⟨next, filled⟩
        · exact ⟨r, line.buffer, .error cause, rfl, s, hslicer, hfit⟩
        · exact ⟨r, line.buffer, .ok false, rfl, s, hslicer, hfit⟩
        · obtain ⟨reception, hreceive, _⟩ := Slicer.slice_eq_some hfound
          rw [← Slicer.config_receive hreceive] at hfit
          exact ⟨{ r with slicer := some next }, filled, .ok true, rfl, next, rfl, hfit⟩
      obtain ⟨next, filled, found, hsliced, slicer, hslicer, hfit⟩ := hnext
      obtain ⟨later, hlater⟩ := ih hslicer hfit
      rw [views?, hsliced]
      exact ⟨_, by rw [Option.bind_eq_bind, Option.bind_some]; dsimp only; rw [hlater]; rfl⟩

/-- The levels of `Slicer.oddRow` in samples of some kind, with other levels in front of the offset
and some bytes behind the line. -/
def redrawnRow (sample : Nat → UInt8 → List UInt8) : ByteArray :=
  let samples := (List.range 80).flatMap fun index =>
    sample index (if index < 2 then 90 else UInt8.ofNat (byteAt Slicer.oddRow (2 * index + 1)))
  ⟨(samples ++ [1, 2, 3]).toArray⟩

def greenRow : ByteArray := redrawnRow fun index level => [UInt8.ofNat index, level, 0xAA]

def colouredRow : ByteArray := redrawnRow fun index level => [UInt8.ofNat (3 * index), level]

end Receiver

end Blanking
