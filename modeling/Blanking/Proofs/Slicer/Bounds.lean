import Mathlib.Data.List.Basic
import Mathlib.Tactic.Ring
import Blanking.Proofs.Sample.Level
import Blanking.Proofs.Slicer.Clock
import Blanking.Proofs.Slicer.Data

/-! # Reads and writes of a slicer

A line is sliced here with a check of every access: samples are read from the offset of the slicer
to the end of the line and with all of their bytes, bytes are written at the places of the payload,
and positions are words of 32 bits. None of the checks fails, so slicing needs none of them. -/

namespace Blanking

/-! ## Checked accesses -/

/-- A byte of a row as a number, if the row has it. -/
def byteAt? (row : ByteArray) (position : Nat) : Option Nat :=
  if h : position < row.size then some row[position].toNat else none

/-- Signal level of a sample, if the row has all bytes that are read for it. -/
def Layout.level? (layout : Layout) (row : ByteArray) (index : Nat) : Option Nat :=
  match layout.storage with
  | .byte stride skip _ => byteAt? row (index * stride + skip)
  | .littleWord => do
      let low ← byteAt? row (index * 2)
      let high ← byteAt? row (index * 2 + 1)
      some ((low + 256 * high) &&& layout.mask)
  | .bigWord => do
      let high ← byteAt? row (index * 2)
      let low ← byteAt? row (index * 2 + 1)
      some ((256 * high + low) &&& layout.mask)
  | .packed => do
      let byte ← byteAt? row index
      some (byte &&& layout.mask)

theorem byteAt?_eq {row : ByteArray} {position : Nat} (h : position < row.size) :
    byteAt? row position = some (byteAt row position) := by
  rw [byteAt?, byteAt, dif_pos h, dif_pos h]

theorem PixelFormat.skip_lt_stride (format : PixelFormat) {stride skip : Nat} {neutral : UInt8}
    (h : format.layout.storage = .byte stride skip neutral) : skip < stride := by
  revert h
  cases format <;> rintro ⟨⟩ <;> decide

/-- The bytes of a sample are all of the stride of its format. -/
theorem PixelFormat.level?_eq (format : PixelFormat) {row : ByteArray} {index : Nat}
    (h : (index + 1) * format.layout.storage.stride ≤ row.size) :
    format.layout.level? row index = some (format.layout.level row index) := by
  rw [Nat.succ_mul] at h
  cases hstorage : format.layout.storage with
  | byte stride skip neutral =>
      have hskip := format.skip_lt_stride hstorage
      rw [hstorage] at h
      simp only [Layout.level?, Layout.level, hstorage]
      exact byteAt?_eq (lt_of_lt_of_le (Nat.add_lt_add_left hskip _) h)
  | littleWord =>
      simp only [hstorage, Storage.stride] at h
      simp only [Layout.level?, Layout.level, hstorage, Option.bind_eq_bind]
      rw [byteAt?_eq (by omega), Option.bind_some, byteAt?_eq (by omega), Option.bind_some]
  | bigWord =>
      simp only [hstorage, Storage.stride] at h
      simp only [Layout.level?, Layout.level, hstorage, Option.bind_eq_bind]
      rw [byteAt?_eq (by omega), Option.bind_some, byteAt?_eq (by omega), Option.bind_some]
  | packed =>
      simp only [hstorage, Storage.stride] at h
      simp only [Layout.level?, Layout.level, hstorage, Option.bind_eq_bind]
      rw [byteAt?_eq (by omega), Option.bind_some]

/-- A position on a line, if a word of 32 bits holds it. -/
def position? (value : Nat) : Option Nat := if value < 2 ^ 32 then some value else none

theorem position?_eq {value : Nat} (h : value < 2 ^ 32) : position? value = some value := if_pos h

/-- Puts bytes into a buffer one after the other, each of them in front of a limit. -/
def write? {size : Nat} (limit : Nat) (buffer : Vector UInt8 size) (place : Nat) :
    List UInt8 → Option (Vector UInt8 size)
  | [] => some buffer
  | byte :: rest =>
      if h : place < min limit size then
        write? limit (buffer.set place byte (lt_min_iff.mp h).2) (place + 1) rest
      else none

theorem write?_eq {size limit place : Nat} {bytes : List UInt8} {buffer : Vector UInt8 size}
    (h : place + bytes.length ≤ min limit size) :
    ∃ filled, write? limit buffer place bytes = some filled ∧
      filled.toList =
        buffer.toList.take place ++ bytes ++ buffer.toList.drop (place + bytes.length) := by
  induction bytes generalizing buffer place with
  | nil => exact ⟨buffer, rfl, by simp⟩
  | cons byte rest ih =>
      rw [List.length_cons] at h
      have hplace : place < min limit size := by omega
      have hlt : place < buffer.toList.length := by simp; omega
      obtain ⟨filled, hfilled, hlist⟩ :=
        @ih (place + 1) (buffer.set place byte (lt_min_iff.mp hplace).2) (by omega)
      refine ⟨filled, by rw [write?, dif_pos hplace, hfilled], ?_⟩
      rw [hlist, Vector.toList_set, List.take_add_one, List.take_set_of_le (Nat.le_refl place),
        List.getElem?_set_self hlt, List.drop_set_of_lt (by omega), List.length_cons]
      simp [Nat.add_comm, Nat.add_left_comm]

theorem getElem?_overwrite_of_le {size place : Nat} {α : Type} {front : List α}
    {buffer : Vector α size} (h : front.length ≤ place) :
    (overwrite front buffer)[place]? = buffer[place]? := by
  by_cases hplace : place < size
  · simp [overwrite, hplace, h]
  · rw [Vector.getElem?_eq_none (Nat.le_of_not_lt hplace),
      Vector.getElem?_eq_none (Nat.le_of_not_lt hplace)]

/-- Bytes that are all in front of the limit take the front of the buffer. -/
theorem write?_eq_overwrite {size limit : Nat} {bytes : List UInt8} (buffer : Vector UInt8 size)
    (h : bytes.length ≤ min limit size) :
    write? limit buffer 0 bytes = some (overwrite bytes buffer) := by
  obtain ⟨filled, hfilled, hlist⟩ := @write?_eq size limit 0 bytes buffer (by omega)
  rw [hfilled, Option.some.injEq, ← Vector.toList_inj, hlist,
    toList_overwrite (h.trans (min_le_right _ _))]
  simp

/-! ## Positions on the line -/

namespace SlicerConfig

variable {ρ : Type} {c : SlicerConfig}

/-- A run-in ends behind the offset of the line. -/
theorem le_position_of_search {record : Point → ρ → ρ} {level : Nat → Nat} {threshold : Int}
    {trace after : ρ} {lock : Lock}
    (h : c.search record level threshold trace = some (lock, after)) :
    c.sampleOffset * 256 ≤ lock.position := by
  rw [search_eq] at h
  obtain ⟨last, _, h⟩ := Option.map_eq_some_iff.mp h
  obtain ⟨rfl, _⟩ := Prod.mk.inj h
  simp only [lockAt, positionAt, Nat.add_mul]
  exact (Nat.le_add_right _ _).trans (Nat.le_add_right _ _)

/-- If the last bit behind a run-in lies on the line, so do all others. -/
theorem lt_of_fits {lock : Lock} (hfits : c.fits lock = true) {bit : Nat}
    (hbit : bit < c.frcBits + c.payloadBits) :
    (c.firstBit lock + bit * c.step) / 256 + 1 < c.samplesPerLine := by
  simp only [fits, Bool.or_eq_true, beq_iff_eq, decide_eq_true_eq] at hfits
  have hlast := hfits.resolve_left (by omega)
  have hle : bit * c.step ≤ (c.frcBits + c.payloadBits - 1) * c.step :=
    Nat.mul_le_mul_right _ (by omega)
  omega

end SlicerConfig

/-! ## Checked slicing -/

namespace Guarded

variable {ρ : Type}

/-- What can be read of a line: its samples from the offset on. -/
def read (c : SlicerConfig) (row : ByteArray) (index : Nat) : Option Nat :=
  if c.sampleOffset ≤ index ∧ index < c.samplesPerLine then c.layout.level? row index else none

/-- `searchSamples` with checked reads. All positions in a sample are words if its last one is. -/
def searchSamples (c : SlicerConfig) (record : Point → ρ → ρ) (read : Nat → Option Nat) :
    (left index : Nat) → (threshold : Int) → Clock → ρ → Option (Option (Lock × ρ))
  | 0, _, _, _, _ => some none
  | left + 1, index, threshold, clock, trace => do
      let now ← read index
      let next ← read (index + 1)
      let _ ← position? (index * 256 + 255)
      let slice := c.sliceLevel threshold
      let adapted := c.adapt threshold now next
      match c.searchSteps record index now next slice c.layout.oversampling clock trace with
      | .locked position trace => some (some (⟨position, slice, adapted⟩, trace))
      | .searching clock trace =>
          searchSamples c record read left (index + 1) adapted clock trace

/-- `search` with checked reads. -/
def search (c : SlicerConfig) (record : Point → ρ → ρ) (read : Nat → Option Nat)
    (threshold : Int) (trace : ρ) : Option (Option (Lock × ρ)) :=
  searchSamples c record read (c.criEnd - c.sampleOffset) c.sampleOffset threshold .start trace

/-- `points` with checked reads, and the position behind the last bit. -/
def points (c : SlicerConfig) (read : Nat → Option Nat) (slice : Int) (kind : PointKind) :
    (count position : Nat) → Option (List Point × Nat)
  | 0, position => some ([], position)
  | count + 1, position => do
      let now ← read (position / 256)
      let next ← read (position / 256 + 1)
      let part := position % 256
      let behind ← position? (position + c.step)
      let (rest, last) ← points c read slice kind count behind
      some (⟨kind, position, now * (256 - part) + next * part, slice * 256⟩ :: rest, last)

/-- `fits` with a checked position of the last bit. -/
def fits (c : SlicerConfig) (first : Nat) : Option Bool :=
  if c.frcBits + c.payloadBits = 0 then some true
  else do
    let last ← position? (first + (c.frcBits + c.payloadBits - 1) * c.step)
    some (last / 256 + 1 < c.samplesPerLine)

/-- `receive` with checked reads. -/
def receive (c : SlicerConfig) (read : Nat → Option Nat) (lock : Lock) :
    Option (Option Reception) := do
  let first ← position? (c.firstBit lock)
  if !(← fits c first) then some none
  else
    let (frc, behind) ← points c read lock.slice .frc c.frcBits first
    if wordOfBits (frc.map Point.bit) != c.frc then some none
    else
      let (payload, _) ← points c read lock.slice .payload c.payloadBits behind
      some (some ⟨frc ++ payload, c.packing.bytes (payload.map Point.bit)⟩)

/-- `slice` with checked reads and writes. -/
def slice {size : Nat} (s : Slicer) (buffer : Vector UInt8 size) (row : ByteArray) :
    Option (Except SliceError (Option (Slicer × Vector UInt8 size))) :=
  match s.checkSizes size row with
  | .error cause => some (.error cause)
  | .ok () => do
      match ← search s.config (fun _ trace => trace) (read s.config row) s.threshold () with
      | none => some (.ok none)
      | some (lock, _) =>
          match ← receive s.config (read s.config row) lock with
          | none => some (.ok none)
          | some reception =>
              let filled ← write? s.config.payloadBytes buffer 0 reception.payload
              some (.ok (some ({ s with threshold := lock.threshold }, filled)))

/-! ## The checks never fail -/

section Reads

variable {c : SlicerConfig} {level : Nat → Nat} {read : Nat → Option Nat}
  (hread : ∀ index, c.sampleOffset ≤ index → index < c.samplesPerLine →
    read index = some (level index))

include hread

/-- The search reads one sample ahead, and ends early enough for that. -/
theorem searchSamples_eq (record : Point → ρ → ρ) (hsamples : c.samplesPerLine < 2 ^ 22)
    {left index : Nat} (hindex : c.sampleOffset ≤ index)
    (hend : index + left ≤ c.samplesPerLine - 1) (threshold : Int) (clock : Clock) (trace : ρ) :
    searchSamples c record read left index threshold clock trace =
      some (c.searchSamples record level left index threshold clock trace) := by
  induction left generalizing index threshold clock trace with
  | zero => rfl
  | succ left ih =>
      have hnow := hread index hindex (by omega)
      have hnext := hread (index + 1) (by omega) (by omega)
      have hposition := @position?_eq (index * 256 + 255) (by omega)
      simp only [searchSamples, Option.bind_eq_bind]
      rw [hnow, Option.bind_some, hnext, Option.bind_some, hposition, Option.bind_some,
        SlicerConfig.searchSamples]
      generalize c.searchSteps record index (level index) (level (index + 1))
        (c.sliceLevel threshold) c.layout.oversampling clock trace = progress
      cases progress with
      | locked position trace => rfl
      | searching clock trace => exact ih (by omega) (by omega) _ clock trace

theorem search_eq (record : Point → ρ → ρ) (hsamples : c.samplesPerLine < 2 ^ 22)
    (hend : c.criEnd ≤ c.samplesPerLine - 1) (threshold : Int) (trace : ρ) :
    search c record read threshold trace = some (c.search record level threshold trace) := by
  by_cases hnone : c.criEnd ≤ c.sampleOffset
  · rw [search, SlicerConfig.search, Nat.sub_eq_zero_of_le hnone]
    rfl
  · exact searchSamples_eq hread record hsamples (Nat.le_refl _) (by omega) threshold _ trace

theorem points_eq (slice : Int) (kind : PointKind) {count position : Nat}
    (hoffset : c.sampleOffset * 256 ≤ position)
    (hlast : ∀ bit < count, (position + bit * c.step) / 256 + 1 < c.samplesPerLine)
    (hword : position + count * c.step < 2 ^ 32) :
    points c read slice kind count position =
      some (c.points level slice kind count position, position + count * c.step) := by
  induction count generalizing position with
  | zero => simp [points, SlicerConfig.points]
  | succ count ih =>
      have hfirst := hlast 0 (Nat.zero_lt_succ count)
      rw [Nat.zero_mul, Nat.add_zero] at hfirst
      rw [Nat.succ_mul] at hword
      have hnow := hread (position / 256) (by omega) (by omega)
      have hnext := hread (position / 256 + 1) (by omega) hfirst
      have hbehind : position + c.step + count * c.step = position + (count + 1) * c.step := by
        ring
      have hrest := @ih (position + c.step) (by omega) (fun bit hbit => by
        have hbit := hlast (bit + 1) (Nat.succ_lt_succ hbit)
        rwa [Nat.succ_mul, Nat.add_comm (bit * _), ← Nat.add_assoc] at hbit) (by omega)
      rw [hbehind] at hrest
      simp only [points, Option.bind_eq_bind]
      rw [hnow, Option.bind_some, hnext, Option.bind_some, position?_eq (by omega),
        Option.bind_some, hrest, Option.bind_some, SlicerConfig.points, SlicerConfig.pointAt]

omit hread in
theorem fits_eq {lock : Lock}
    (hword : c.firstBit lock + (c.frcBits + c.payloadBits) * c.step < 2 ^ 32) :
    fits c (c.firstBit lock) = some (c.fits lock) := by
  unfold fits SlicerConfig.fits
  split
  next hnone => simp [hnone]
  next hbits =>
    have hlast : (c.frcBits + c.payloadBits - 1) * c.step ≤ (c.frcBits + c.payloadBits) * c.step :=
      Nat.mul_le_mul_right _ (Nat.sub_le _ _)
    simp only [Option.bind_eq_bind, beq_eq_false_iff_ne.mpr hbits, Bool.false_or]
    rw [position?_eq (by omega), Option.bind_some]

theorem receive_eq {lock : Lock} (hoffset : c.sampleOffset * 256 ≤ lock.position)
    (hword : lock.position + c.phaseShift + (c.frcBits + c.payloadBits) * c.step < 2 ^ 32) :
    receive c read lock = some (c.receive level lock) := by
  have hfirst : c.firstBit lock = lock.position + c.phaseShift := rfl
  rw [← hfirst] at hword
  simp only [receive, Option.bind_eq_bind]
  rw [position?_eq (by omega), Option.bind_some, fits_eq hword, Option.bind_some,
    SlicerConfig.receive]
  cases hfits : c.fits lock with
  | false => rfl
  | true =>
      rw [Nat.add_mul] at hword
      have hfrc := @points_eq c level read hread lock.slice .frc c.frcBits (c.firstBit lock)
        (by omega) (fun bit hbit => SlicerConfig.lt_of_fits hfits (by omega)) (by omega)
      have hpayload := @points_eq c level read hread lock.slice .payload c.payloadBits
        (c.firstBit lock + c.frcBits * c.step) (by omega) (fun bit hbit => by
          rw [Nat.add_assoc, ← Nat.add_mul]
          exact SlicerConfig.lt_of_fits hfits (by omega)) (by omega)
      simp only [Bool.not_true, Bool.false_eq_true, if_false, Bool.false_or, hfrc,
        Option.bind_some, SlicerConfig.frcPoints, SlicerConfig.payloadPoints, hfits, if_true]
      split
      next => rfl
      next => rw [hpayload, Option.bind_some]

end Reads

end Guarded

namespace SlicerConfig

variable {target : Target} {config : SlicerConfig}

/-- A slicer for a target that passed its check searches at most up to the last sample but one. -/
theorem criEnd_le (h : ofTarget target = .ok config) :
    config.criEnd ≤ config.samplesPerLine - 1 := by
  obtain ⟨_, rfl⟩ := ofTarget_eq_ok_iff.mp h
  exact min_le_right _ _

theorem read_eq (h : ofTarget target = .ok config) {row : ByteArray}
    (hrow : config.rowBytes ≤ row.size) {index : Nat} (hoffset : config.sampleOffset ≤ index)
    (hindex : index < config.samplesPerLine) :
    Guarded.read config row index = some (config.layout.level row index) := by
  obtain ⟨_, rfl⟩ := ofTarget_eq_ok_iff.mp h
  rw [Guarded.read, if_pos ⟨hoffset, hindex⟩]
  exact target.format.level?_eq ((Nat.mul_le_mul_right _ hindex).trans hrow)

theorem length_payload_of_receive (h : ofTarget target = .ok config) {level : Nat → Nat}
    {lock : Lock} {reception : Reception} (hreceive : config.receive level lock = some reception) :
    reception.payload.length = config.payloadBytes := by
  obtain ⟨bits, hbits, hpayload⟩ := payload_of_receive h hreceive
  obtain ⟨_, rfl⟩ := ofTarget_eq_ok_iff.mp h
  rw [hpayload, Payload.ofBits, Payload.length_pack, hbits]
  rfl

end SlicerConfig

namespace Slicer

theorem checkSizes_eq_ok_iff {s : Slicer} {size : Nat} {row : ByteArray} :
    s.checkSizes size row = .ok () ↔
      s.config.payloadBytes ≤ size ∧ s.config.rowBytes ≤ row.size := by
  unfold checkSizes
  split
  next => simp; omega
  next =>
    split
    next => simp; omega
    next => simp; omega

section Slice

variable {target : Target} {s : Slicer} (hconfig : SlicerConfig.ofTarget target = .ok s.config)
  (hsamples : target.samplesPerLine < 2 ^ 22) {size : Nat} (buffer : Vector UInt8 size)
  (row : ByteArray) (hbuffer : s.config.payloadBytes ≤ size)
  (hrow : s.config.rowBytes ≤ row.size)
  (hpositions : ∀ lock,
    s.config.search (fun _ trace => trace) (s.config.layout.level row) s.threshold () =
      some (lock, ()) →
    lock.position + s.config.phaseShift +
      (s.config.frcBits + s.config.payloadBits) * s.config.step < 2 ^ 32)

include hconfig hsamples hbuffer hrow hpositions

/-- Slicing with checks ends as slicing without them does. -/
theorem guarded_slice_eq : Guarded.slice s buffer row = some (s.slice buffer row) := by
  have hshort : s.config.samplesPerLine < 2 ^ 22 := by
    rwa [(SlicerConfig.ofTarget_eq_ok_iff.mp hconfig).2]
  have hread (index : Nat) := @SlicerConfig.read_eq _ _ hconfig row hrow index
  have hsearch := Guarded.search_eq hread (fun _ trace => trace) hshort
    (SlicerConfig.criEnd_le hconfig) s.threshold ()
  have hsizes := checkSizes_eq_ok_iff.mpr ⟨hbuffer, hrow⟩
  simp only [slice, Guarded.slice, hsizes, receive, hsearch, Option.bind_eq_bind,
    Option.bind_some]
  cases hlock : s.config.search (fun _ trace => trace) (s.config.layout.level row) s.threshold ()
  case none => rfl
  case some found =>
    obtain ⟨lock, _⟩ := found
    have hreceive := Guarded.receive_eq hread (SlicerConfig.le_position_of_search hlock)
      (hpositions lock hlock)
    simp only [hreceive, Option.bind_some]
    cases hreception : s.config.receive (s.config.layout.level row) lock
    case none => rfl
    case some reception =>
      have hbytes := SlicerConfig.length_payload_of_receive hconfig hreception
      have hwrite := @write?_eq_overwrite size s.config.payloadBytes reception.payload buffer
        (by omega)
      simp only [hwrite, Option.bind_some]
      rfl

/-- A slicer for a target, whatever its threshold, slices a row of enough samples into a buffer
that is large enough. It reads no sample in front of its offset or behind the end of the line, and
writes no byte but those of the payload. The lengths that are subtracted from that of the line
do not exceed it. -/
theorem slice_inBounds :
    (target.sampleOffset ≤ target.samplesPerLine ∧
      SlicerConfig.dataSamples target ≤ target.samplesPerLine) ∧
    ∃ found, s.slice buffer row = .ok found ∧ Guarded.slice s buffer row = some (.ok found) ∧
      ∀ next filled, found = some (next, filled) → ∀ place, s.config.payloadBytes ≤ place →
        filled[place]? = buffer[place]? := by
  have hlength := (SlicerConfig.ofTarget_eq_ok_iff.mp hconfig).1.length
  have hslice : ∃ found, s.slice buffer row = .ok found := by
    rw [slice, checkSizes_eq_ok_iff.mpr ⟨hbuffer, hrow⟩]
    exact ⟨_, rfl⟩
  obtain ⟨found, hfound⟩ := hslice
  have hguarded := guarded_slice_eq hconfig hsamples buffer row hbuffer hrow hpositions
  refine ⟨⟨by omega, by omega⟩, found, hfound, by rw [hguarded, hfound], ?_⟩
  rintro next filled rfl place hplace
  obtain ⟨reception, hreceive, rfl⟩ := slice_eq_some hfound
  obtain ⟨lock, _, hreception, _⟩ := receive_eq_some hreceive
  rw [← SlicerConfig.length_payload_of_receive hconfig hreception] at hplace
  exact getElem?_overwrite_of_le hplace

end Slice

/-- Four bits of run-in, two of framing code and eleven of payload, four samples each, behind two
samples that are not searched. -/
def oddTarget : Target where
  format := .uyvy
  rate := 4000000
  sampleOffset := 2
  samplesPerLine := 80
  cri := 0b0101
  criMask := 0b1111
  criBits := 4
  criRate := 1000000
  criEnd := 80
  frc := 0b01
  frcBits := 2
  payloadBits := 11
  payloadRate := 1000000
  modulation := .nrzMsb

/-- A line with the payload 10111001 011. -/
def oddRow : ByteArray :=
  let bits := [0, 0, 255, 0, 255, 0, 255, 255, 0, 255, 255, 255, 0, 0, 255, 0, 255, 255, 0, 0]
  ⟨(bits.flatMap fun level =>
    (List.replicate 4 (PixelFormat.uyvy.layout.encode level)).flatten).toArray⟩

/-- A slicer whose threshold is a little below that of a new one. -/
def oddSlicer : Slicer := ⟨.derive oddTarget, 50000⟩

/-- The tail of the payload takes the low end of the second byte, and the other bytes stay. -/
theorem slice_inBounds_oddRow :
    SlicerConfig.ofTarget oddTarget = .ok oddSlicer.config ∧
      ∃ found, Guarded.slice oddSlicer (Vector.replicate 4 0xEE : Vector UInt8 4) oddRow =
          some (.ok found) ∧
        found.map (·.2.toList) = some [0xB9, 0x03, 0xEE, 0xEE] ∧
        ∀ next filled, found = some (next, filled) → ∀ place, 2 ≤ place →
          filled[place]? = (Vector.replicate 4 0xEE : Vector UInt8 4)[place]? := by
  have hfeasible : SlicerConfig.Feasible oddTarget := by constructor <;> decide
  have hconfig : SlicerConfig.ofTarget oddTarget = .ok oddSlicer.config :=
    SlicerConfig.ofTarget_eq_ok_iff.mpr ⟨hfeasible, rfl⟩
  have hpositions : ∀ lock,
      oddSlicer.config.search (fun _ trace => trace) (oddSlicer.config.layout.level oddRow)
        oddSlicer.threshold () = some (lock, ()) →
      lock.position + oddSlicer.config.phaseShift +
        (oddSlicer.config.frcBits + oddSlicer.config.payloadBits) * oddSlicer.config.step <
          2 ^ 32 := by
    have hall : ((oddSlicer.config.search (fun _ trace => trace)
        (oddSlicer.config.layout.level oddRow) oddSlicer.threshold ()).all fun found =>
          found.1.position + oddSlicer.config.phaseShift +
            (oddSlicer.config.frcBits + oddSlicer.config.payloadBits) * oddSlicer.config.step <
              2 ^ 32) = true := by
      decide +kernel
    intro lock hlock
    simpa [hlock] using hall
  obtain ⟨_, found, hslice, hguarded, hrest⟩ := slice_inBounds hconfig (by decide)
    (Vector.replicate 4 0xEE : Vector UInt8 4) oddRow (by decide) (by decide +kernel) hpositions
  have hfilled : (oddSlicer.slice (Vector.replicate 4 0xEE : Vector UInt8 4)
      oddRow).toOption.bind (·.map (·.2.toList)) = some [0xB9, 0x03, 0xEE, 0xEE] := by
    decide +kernel
  rw [hslice] at hfilled
  exact ⟨hconfig, found, hguarded, hfilled, hrest⟩

end Slicer

end Blanking
