import Blanking.Proofs.Payload.Bits
import Blanking.Proofs.Slicer.Bounds
import Blanking.Proofs.Slicer.RoundTrip
import Blanking.Proofs.Slicer.Threshold

/-! # What the recorded points decide

A record of the decisions about a transmission says the same as the payload that was received
with it. Those about the payload are its bits in the order of transmission, and those about the
framing code are the digits of the one that was expected. -/

namespace Blanking

/-- The decisions about one part of a transmission in the order in which they were recorded. -/
def decisions (kind : PointKind) (points : List Point) : List Bool :=
  (points.filter fun point => point.kind == kind).map Point.bit

section Decisions

variable {kind other : PointKind} {points : List Point}

theorem decisions_append (front rest : List Point) :
    decisions kind (front ++ rest) = decisions kind front ++ decisions kind rest := by
  rw [decisions, List.filter_append, List.map_append, decisions, decisions]

theorem decisions_of_kind (h : ∀ point ∈ points, point.kind = kind) :
    decisions kind points = points.map Point.bit := by
  have hall : points.filter (fun point => point.kind == kind) = points :=
    List.filter_eq_self.mpr fun point hpoint => beq_iff_eq.mpr (h point hpoint)
  rw [decisions, hall]

theorem decisions_of_other (h : ∀ point ∈ points, point.kind = other) (hne : other ≠ kind) :
    decisions kind points = [] := by
  have hnone : points.filter (fun point => point.kind == kind) = [] := by
    rw [List.filter_eq_nil_iff]
    intro point hpoint
    rw [h point hpoint, beq_iff_eq]
    exact hne
  rw [decisions, hnone, List.map_nil]

end Decisions

namespace SlicerConfig

variable {c : SlicerConfig} {level : Nat → Nat} {lock : Lock}

theorem kind_of_mem_points {slice : Int} {kind : PointKind} {count position : Nat} {point : Point}
    (h : point ∈ c.points level slice kind count position) : point.kind = kind := by
  induction count generalizing position with
  | zero => exact absurd h List.not_mem_nil
  | succ count ih =>
      rw [points] at h
      obtain rfl | hrest := List.mem_cons.mp h
      · rfl
      · exact ih hrest

theorem kind_of_mem_frcPoints {point : Point} (h : point ∈ c.frcPoints level lock) :
    point.kind = .frc := by
  unfold frcPoints at h
  split at h
  next => exact kind_of_mem_points h
  next => exact absurd h List.not_mem_nil

/-- The search records decisions about the run-in only. -/
theorem kind_of_mem_traceAt {threshold : Int} {step : Nat} {point : Point}
    (h : point ∈ c.traceAt List.cons level threshold [] step) : point.kind = .cri := by
  induction step with
  | zero => exact absurd h List.not_mem_nil
  | succ step ih =>
      rw [traceAt] at h
      split at h
      next =>
        obtain rfl | hbefore := List.mem_cons.mp h
        · rfl
        · exact ih hbefore
      next => exact ih h

theorem length_frcPoints (hfits : c.fits lock = true) :
    (c.frcPoints level lock).length = c.frcBits := by
  rw [frcPoints, if_pos hfits, length_points]

theorem length_frcPoints_le (c : SlicerConfig) (level : Nat → Nat) (lock : Lock) :
    (c.frcPoints level lock).length ≤ c.frcBits := by
  unfold frcPoints
  split
  next => exact (length_points _ _ _ _).le
  next => exact Nat.zero_le _

theorem length_payloadPoints : (c.payloadPoints level lock).length = c.payloadBits := by
  rw [payloadPoints, length_points]

/-- What is recorded of a transmission that was received. -/
structure Recorded (c : SlicerConfig) (reception : Reception) (recorded : List Point) : Prop where
  length_le : recorded.length ≤ c.pointCount
  length_frc : (decisions .frc recorded).length = c.frcBits
  frc : wordOfBits (decisions .frc recorded) = c.frc
  length_payload : (decisions .payload recorded).length = c.payloadBits
  payload : reception.payload = c.packing.bytes (decisions .payload recorded)

theorem recorded_of_receive {runIn : List Point} {reception : Reception}
    (hlength : runIn.length ≤ c.criBits) (hkind : ∀ point ∈ runIn, point.kind = .cri)
    (h : c.receive level lock = some reception) :
    c.Recorded reception (runIn ++ reception.points) := by
  obtain ⟨hfits, hfrc, rfl⟩ := receive_eq_some h
  have hpayloadKind : ∀ point ∈ c.payloadPoints level lock, point.kind = .payload :=
    fun _ => kind_of_mem_points
  have hdecisionsFrc : decisions .frc (runIn ++ (c.frcPoints level lock ++
      c.payloadPoints level lock)) = (c.frcPoints level lock).map Point.bit := by
    rw [decisions_append, decisions_append, decisions_of_other hkind (by decide),
      decisions_of_kind fun _ => kind_of_mem_frcPoints,
      decisions_of_other hpayloadKind (by decide), List.nil_append, List.append_nil]
  have hdecisionsPayload : decisions .payload (runIn ++ (c.frcPoints level lock ++
      c.payloadPoints level lock)) = (c.payloadPoints level lock).map Point.bit := by
    rw [decisions_append, decisions_append, decisions_of_other hkind (by decide),
      decisions_of_other (fun _ => kind_of_mem_frcPoints) (by decide),
      decisions_of_kind hpayloadKind, List.nil_append, List.nil_append]
  constructor
  · rw [List.length_append, List.length_append, length_frcPoints hfits, length_payloadPoints,
      pointCount]
    omega
  · rw [hdecisionsFrc, List.length_map, length_frcPoints hfits]
  · rw [hdecisionsFrc, hfrc]
  · rw [hdecisionsPayload, List.length_map, length_payloadPoints]
  · rw [hdecisionsPayload]

namespace Recorded

variable {target : Target} {reception : Reception} {recorded : List Point}

theorem numberOfBits_frc (h : c.Recorded reception recorded) (hbits : c.frcBits ≤ 32) :
    Payload.numberOfBits (decisions .frc recorded) = c.frc.toNat := by
  have hword : Payload.numberOfBits (decisions .frc recorded) < 2 ^ 32 :=
    (Payload.numberOfBits_lt _).trans_le
      (Nat.pow_le_pow_right (by decide) (h.length_frc.trans_le hbits))
  rw [← h.frc, toNat_wordOfBits, Nat.mod_eq_of_lt hword]

theorem payload_eq (h : (derive target).Recorded reception recorded) :
    reception.payload = Payload.ofBits (decisions .payload recorded) target.modulation := by
  have hlength : (decisions .payload recorded).length = target.payloadBits := h.length_payload
  rw [h.payload, ← Packing.bytes_of, hlength]
  rfl

theorem length_bytes (h : (derive target).Recorded reception recorded) :
    reception.payload.length = Payload.bytesFor target.payloadBits := by
  rw [h.payload_eq, Payload.length_ofBits, h.length_payload]
  rfl

theorem toBits_payload (h : (derive target).Recorded reception recorded) :
    Payload.toBits reception.payload target.payloadBits target.modulation =
      .ok (decisions .payload recorded) := by
  have hlength : (decisions .payload recorded).length = target.payloadBits := h.length_payload
  rw [h.payload_eq, ← hlength]
  exact Payload.toBits_ofBits _ _

end Recorded

end SlicerConfig

namespace Slicer

/-- Where a transmission is received the last bits of its run-in are recorded in front of it. -/
theorem exists_of_trace {s next : Slicer} {level : Nat → Nat} {recorded : List Point}
    {reception : Reception} (h : s.trace level = (recorded, some (next, reception))) :
    ∃ lock latest, s.config.search List.cons level s.threshold [] = some (lock, latest) ∧
      s.config.receive level lock = some reception ∧
      recorded = (latest.take s.config.criBits).reverse ++ reception.points := by
  unfold trace at h
  split at h
  next => exact absurd h (by simp)
  next lock latest hsearch =>
    dsimp only at h
    split at h
    next => exact absurd h (by simp)
    next found hreceive =>
      obtain ⟨rfl, hfound⟩ := Prod.mk.inj h
      obtain ⟨_, rfl⟩ := Prod.mk.inj (Option.some.inj hfound)
      exact ⟨lock, latest, hsearch, hreceive, rfl⟩

theorem kind_of_mem_runIn {s : Slicer} {level : Nat → Nat} {lock : Lock} {latest : List Point}
    (hsearch : s.config.search List.cons level s.threshold [] = some (lock, latest))
    {point : Point} (h : point ∈ (latest.take s.config.criBits).reverse) : point.kind = .cri := by
  rw [SlicerConfig.search_eq] at hsearch
  obtain ⟨last, _, hlatest⟩ := Option.map_eq_some_iff.mp hsearch
  obtain ⟨_, rfl⟩ := Prod.mk.inj hlatest
  exact SlicerConfig.kind_of_mem_traceAt (List.mem_of_mem_take (List.mem_reverse.mp h))

theorem trace_eq_some {s next : Slicer} {level : Nat → Nat} {recorded : List Point}
    {reception : Reception} (h : s.trace level = (recorded, some (next, reception))) :
    s.config.Recorded reception recorded := by
  obtain ⟨lock, latest, hsearch, hreceive, rfl⟩ := exists_of_trace h
  refine SlicerConfig.recorded_of_receive ?_ (fun _ => kind_of_mem_runIn hsearch) hreceive
  rw [List.length_reverse, List.length_take]
  exact Nat.min_le_left _ _

theorem checkPoints_eq_ok_iff {s : Slicer} {count : Nat} :
    s.checkPoints count = .ok () ↔ s.config.format = .yuv420 ∧ s.config.pointCount ≤ count := by
  unfold checkPoints
  split
  next hformat => simp [hformat]
  next hformat =>
    split
    next hfew => simp; omega
    next hmany => simpa [not_not.mp hformat] using hmany

/-- The recorded points are in front of the second buffer, the payload is in front of the first. -/
theorem trace_of_slicePoints {size count found : Nat} {s next : Slicer}
    {buffer filled : Vector UInt8 size} {points recorded : Vector Point count} {row : ByteArray}
    (h : s.slicePoints buffer points row = .ok (recorded, some (next, filled, found))) :
    s.config.format = .yuv420 ∧ s.config.payloadBytes ≤ size ∧ found ≤ count ∧
      ∃ reception, s.trace (s.config.layout.level row) =
          (recorded.toList.take found, some (next, reception)) ∧
        filled = overwrite reception.payload buffer := by
  unfold slicePoints at h
  split at h
  next => exact absurd h (by simp)
  next hpoints =>
    obtain ⟨hformat, hcount⟩ := checkPoints_eq_ok_iff.mp hpoints
    split at h
    next => exact absurd h (by simp)
    next hsizes =>
      simp only [Except.ok.injEq, Prod.mk.injEq, Option.map_eq_some_iff, Prod.exists] at h
      obtain ⟨rfl, _, reception, htrace, rfl, rfl, rfl⟩ := h
      have hwritten := trace_eq_some (Prod.ext rfl htrace)
      have hlength := hwritten.length_le.trans hcount
      refine ⟨hformat, (checkSizes_eq_ok_iff.mp hsizes).1, hlength, reception, ?_, rfl⟩
      rw [take_overwrite hlength]
      exact Prod.ext rfl htrace

theorem slicePoints_recorded {size count found : Nat} {s next : Slicer}
    {buffer filled : Vector UInt8 size} {points recorded : Vector Point count} {row : ByteArray}
    (h : s.slicePoints buffer points row = .ok (recorded, some (next, filled, found))) :
    ∃ reception, s.receive (s.config.layout.level row) = some (next, reception) ∧
      filled = overwrite reception.payload buffer ∧ s.config.payloadBytes ≤ size ∧
      found ≤ count ∧
      s.config.Recorded reception (recorded.toList.take found) := by
  obtain ⟨_, hsize, hfound, reception, htrace, rfl⟩ := trace_of_slicePoints h
  have hreceive := (trace_snd s (s.config.layout.level row)).symm.trans (congrArg (·.2) htrace)
  exact ⟨reception, hreceive, rfl, hsize, hfound, trace_eq_some htrace⟩

end Slicer

namespace Receiver

theorem slicePoints_eq_ok {r next : Receiver} {s : Slicer} (hslicer : r.slicer = some s)
    {size count found : Nat} {buffer filled : Vector UInt8 size}
    {points recorded : Vector Point count} {row : ByteArray}
    (h : r.slicePoints buffer points row = (next, filled, recorded, .ok (some found))) :
    ∃ after, s.slicePoints buffer points row = .ok (recorded, some (after, filled, found)) := by
  simp only [slicePoints, hslicer] at h
  split at h
  next => exact absurd (congrArg (·.2.2.2) h) (by simp)
  next => exact absurd (congrArg (·.2.2.2) h) (by simp)
  next hslice =>
    simp only [Prod.mk.injEq, Except.ok.injEq, Option.some.injEq] at h
    obtain ⟨_, rfl, rfl, rfl⟩ := h
    exact ⟨_, hslice⟩

/-- Where a transmission is received with a record of the points, the decisions about the payload
are as many as it has bits and pack to the bytes that were received, which unpack to them; and
those about the framing code are its digits, highest first. -/
theorem decisions_slicePoints {target : Target} {r next : Receiver} {s : Slicer}
    (hslicer : r.slicer = some s) (hconfig : SlicerConfig.ofTarget target = .ok s.config)
    {size count found : Nat} {buffer filled : Vector UInt8 size}
    {points recorded : Vector Point count} {row : ByteArray}
    (h : r.slicePoints buffer points row = (next, filled, recorded, .ok (some found))) :
    let list := recorded.toList.take found
    let payload := filled.toList.take (Payload.bytesFor target.payloadBits)
    list.length = found ∧
      (decisions .payload list).length = target.payloadBits ∧
      Payload.ofBits (decisions .payload list) target.modulation = payload ∧
      Payload.toBits payload target.payloadBits target.modulation =
        .ok (decisions .payload list) ∧
      (decisions .frc list).length = target.frcBits ∧
      s.config.frc = target.frc &&& lowBits target.frcBits ∧
      Payload.numberOfBits (decisions .frc list) = s.config.frc.toNat := by
  dsimp only
  obtain ⟨hfeasible, hderive⟩ := SlicerConfig.ofTarget_eq_ok_iff.mp hconfig
  obtain ⟨after, hslice⟩ := slicePoints_eq_ok hslicer h
  obtain ⟨reception, _, rfl, hsize, hfound, hrecorded⟩ := Slicer.slicePoints_recorded hslice
  have hlist : (recorded.toList.take found).length = found := by
    rw [List.length_take, Vector.length_toList, Nat.min_eq_left hfound]
  generalize recorded.toList.take found = list at hrecorded hlist ⊢
  rw [hderive] at hrecorded hsize ⊢
  have hfront : (overwrite reception.payload buffer).toList.take
      (Payload.bytesFor target.payloadBits) = reception.payload := by
    rw [← hrecorded.length_bytes]
    exact take_overwrite (hrecorded.length_bytes.trans_le hsize)
  rw [hfront]
  exact ⟨hlist, hrecorded.length_payload, hrecorded.payload_eq.symm, hrecorded.toBits_payload,
    hrecorded.length_frc, rfl, hrecorded.numberOfBits_frc hfeasible.frcBits⟩

/-- The short line is received, with one whole octet and a tail of one bit. -/
theorem decisions_slicePoints_shortRow :
    ∃ next filled recorded,
      (⟨some ⟨.derive shortTarget, shortTarget.format.layout.seed⟩, false⟩ :
          Receiver).slicePoints (Vector.replicate 3 (0xEE : UInt8))
          (Vector.replicate 16 ⟨.cri, 0, 0, 0⟩) shortRow =
        (next, filled, recorded, .ok (some 13)) ∧
      filled.toList = [0x9D, 0x01, 0xEE] ∧
      decisions .payload (recorded.toList.take 13) = shortPayload ∧
      (decisions .frc (recorded.toList.take 13)).length = 1 ∧
      Payload.numberOfBits (decisions .frc (recorded.toList.take 13)) = 1 := by
  generalize hresult : (⟨some ⟨.derive shortTarget, shortTarget.format.layout.seed⟩, false⟩ :
      Receiver).slicePoints (Vector.replicate 3 (0xEE : UInt8))
      (Vector.replicate 16 ⟨.cri, 0, 0, 0⟩) shortRow = result
  have hfound : result.2.2.2 = .ok (some 13) := by
    rw [← hresult]
    decide +kernel
  have hfilled : result.2.1.toList = [0x9D, 0x01, 0xEE] := by
    rw [← hresult]
    decide +kernel
  obtain ⟨next, filled, recorded, _⟩ := result
  obtain rfl := hfound
  have hfeasible : SlicerConfig.Feasible shortTarget := by constructor <;> decide
  obtain ⟨_, _, _, hbits, hlength, _, hfrc⟩ :=
    decisions_slicePoints rfl (SlicerConfig.ofTarget_eq_ok_iff.mpr ⟨hfeasible, rfl⟩) hresult
  refine ⟨next, filled, recorded, rfl, hfilled, ?_, hlength, hfrc⟩
  rw [hfilled] at hbits
  exact (Except.ok.inj hbits).symm

end Receiver

end Blanking
