import Blanking.Proofs.Slicer.Device

/-! # The record of a transmission

Slicing a line with a record does what slicing it without one does. What is recorded of a
transmission are its run-in as far as it was seen, its framing code and its payload, each bit
behind the one before it. -/

namespace Blanking

namespace SlicerConfig

variable {c : SlicerConfig} {level : Nat → Nat} {threshold : Int}

/-! ## Positions -/

/-- Each of the four steps of a sample has a position of its own. -/
theorem positionAt_lt (hsteps : c.layout.oversampling = 4) {before later : Nat}
    (h : before < later) : c.positionAt before < c.positionAt later := by
  simp only [positionAt, hsteps]
  omega

theorem le_positionAt_of_mem (hsteps : c.layout.oversampling = 4) {step : Nat} {point : Point}
    (h : point ∈ c.traceAt List.cons level threshold [] (step + 1)) :
    point.position ≤ c.positionAt step := by
  induction step with
  | zero =>
      rw [traceAt] at h
      split at h
      next =>
        obtain rfl := List.mem_singleton.mp h
        exact Nat.le_refl _
      next => exact absurd h List.not_mem_nil
  | succ step ih =>
      have hbefore : point ∈ c.traceAt List.cons level threshold [] (step + 1) →
          point.position ≤ c.positionAt (step + 1) := fun hmem =>
        (ih hmem).trans (positionAt_lt hsteps (Nat.lt_succ_self step)).le
      rw [traceAt] at h
      split at h
      next =>
        obtain rfl | hmem := List.mem_cons.mp h
        · exact Nat.le_refl _
        · exact hbefore hmem
      next => exact hbefore h

/-- The bits of a run-in come one behind the other. The latest one stands first here. -/
theorem pairwise_traceAt (hsteps : c.layout.oversampling = 4) (step : Nat) :
    (c.traceAt List.cons level threshold [] step).Pairwise fun later before =>
      before.position < later.position := by
  induction step with
  | zero => exact .nil
  | succ step ih =>
      rw [traceAt]
      split
      next =>
        refine .cons ?_ ih
        intro point hpoint
        cases step with
        | zero => exact absurd hpoint List.not_mem_nil
        | succ step =>
            exact (le_positionAt_of_mem hsteps hpoint).trans_lt
              (positionAt_lt hsteps (Nat.lt_succ_self step))
      next => exact ih

theorem position_of_mem_points {slice : Int} {kind : PointKind} {count position : Nat}
    {point : Point} (h : point ∈ c.points level slice kind count position) :
    ∃ number < count, point.position = position + number * c.step := by
  induction count generalizing position with
  | zero => exact absurd h List.not_mem_nil
  | succ count ih =>
      rw [points] at h
      obtain rfl | hrest := List.mem_cons.mp h
      · exact ⟨0, Nat.succ_pos count, by simp [pointAt]⟩
      · obtain ⟨number, hnumber, hposition⟩ := ih hrest
        refine ⟨number + 1, Nat.succ_lt_succ hnumber, ?_⟩
        rw [hposition]
        ring

theorem pairwise_points (hstep : 1 ≤ c.step) (slice : Int) (kind : PointKind)
    (count position : Nat) :
    (c.points level slice kind count position).Pairwise fun before later =>
      before.position < later.position := by
  induction count generalizing position with
  | zero => exact .nil
  | succ count ih =>
      rw [points]
      refine .cons ?_ (ih (position + c.step))
      intro point hpoint
      obtain ⟨number, _, hposition⟩ := position_of_mem_points hpoint
      rw [hposition]
      simp only [pointAt]
      omega

/-! ## Parts of the record -/

/-- The parts of a record, of a transmission before which some bits were clocked. -/
structure Transcript (c : SlicerConfig) (clocked : Nat) (cri frc payload : List Point) : Prop where
  length_cri : cri.length = min c.criBits clocked
  length_frc : frc.length = c.frcBits
  length_payload : payload.length = c.payloadBits
  kind_cri : ∀ point ∈ cri, point.kind = .cri
  kind_frc : ∀ point ∈ frc, point.kind = .frc
  kind_payload : ∀ point ∈ payload, point.kind = .payload
  increasing : (cri ++ (frc ++ payload)).Pairwise fun before later =>
    before.position < later.position

theorem transcript (hsteps : c.layout.oversampling = 4) (hshift : 1 ≤ c.phaseShift)
    (hstep : 1 ≤ c.step) {lock : Lock} {latest : List Point}
    (hsearch : c.search List.cons level threshold [] = some (lock, latest))
    (hfits : c.fits lock = true) :
    c.Transcript latest.length (latest.take c.criBits).reverse (c.frcPoints level lock)
      (c.payloadPoints level lock) := by
  rw [search_eq] at hsearch
  obtain ⟨last, _, hfound⟩ := Option.map_eq_some_iff.mp hsearch
  obtain ⟨rfl, rfl⟩ := Prod.mk.inj hfound
  have hfrc : c.frcPoints level (c.lockAt level threshold last) =
      c.points level (c.lockAt level threshold last).slice .frc c.frcBits
        (c.firstBit (c.lockAt level threshold last)) := by
    rw [frcPoints, if_pos hfits]
  refine ⟨by simp, length_frcPoints hfits, length_payloadPoints, ?_,
    fun _ => kind_of_mem_frcPoints, fun _ => kind_of_mem_points, ?_⟩
  · intro point hpoint
    exact kind_of_mem_traceAt (List.mem_of_mem_take (List.mem_reverse.mp hpoint))
  · rw [List.pairwise_append, List.pairwise_append]
    refine ⟨?_, ⟨?_, pairwise_points hstep _ _ _ _, ?_⟩, ?_⟩
    · exact List.pairwise_reverse.mpr ((pairwise_traceAt hsteps (last + 1)).sublist
        (List.take_sublist _ _))
    · rw [hfrc]
      exact pairwise_points hstep _ _ _ _
    · intro before hbefore later hlater
      rw [hfrc] at hbefore
      obtain ⟨number, hnumber, hposition⟩ := position_of_mem_points hbefore
      obtain ⟨number', _, hposition'⟩ := position_of_mem_points hlater
      rw [hposition, hposition']
      have hless : number * c.step < c.frcBits * c.step :=
        Nat.mul_lt_mul_of_pos_right hnumber hstep
      omega
    · intro before hbefore later hlater
      -- All that follows the run-in is behind its last bit, which is where the search ended.
      have hlast : before.position ≤ c.positionAt last :=
        le_positionAt_of_mem hsteps (List.mem_of_mem_take (List.mem_reverse.mp hbefore))
      have hfirst : c.firstBit (c.lockAt level threshold last) = c.positionAt last + c.phaseShift :=
        rfl
      obtain hlater | hlater := List.mem_append.mp hlater
      · rw [hfrc] at hlater
        obtain ⟨number, _, hposition⟩ := position_of_mem_points hlater
        omega
      · obtain ⟨number, _, hposition⟩ := position_of_mem_points hlater
        omega

end SlicerConfig

/-! ## With and without a record -/

namespace Device

open InPlace

variable {size count : Nat} {d : Device} {c : SlicerConfig} (buffer : Vector UInt8 size)
  (points : Vector Point count) (row : ByteArray)

/-- What is found with a record is found without one, with the same payload and threshold. -/
theorem slicePoints_eq_slice (h : d.config = some c)
    (hpoints : (d.slicer c).checkPoints count = .ok ()) :
    (d.slicePoints buffer points row).1 = (d.slice buffer row).1 ∧
      (d.slicePoints buffer points row).2.1 = (d.slice buffer row).2.1 ∧
      (d.slicePoints buffer points row).2.2.2.map Option.isSome = (d.slice buffer row).2.2 := by
  rw [slicePoints_of_some buffer points row h, slice_of_some buffer row h, hpoints]
  dsimp only
  cases (d.slicer c).checkSizes size row with
  | error cause => exact ⟨rfl, rfl, rfl⟩
  | ok =>
      rw [← Slicer.trace_snd]
      dsimp only
      cases ((d.slicer c).trace (c.layout.level row)).2 with
      | none => exact ⟨rfl, rfl, rfl⟩
      | some received => exact ⟨rfl, rfl, rfl⟩

/-- The points in front are a whole transcript, the others are as they were. -/
theorem transcript_of_slicePoints (h : d.config = some c) (hformat : c.format = .yuv420)
    (hshift : 1 ≤ c.phaseShift) (hstep : 1 ≤ c.step) {found : Nat}
    (hfound : (d.slicePoints buffer points row).2.2.2 = .ok (some found)) :
    ∃ lock clocked cri frc payload,
      c.search List.cons (c.layout.level row) d.threshold [] = some (lock, clocked) ∧
        cri = (clocked.take c.criBits).reverse ∧
        c.Transcript clocked.length cri frc payload ∧
        (cri ++ (frc ++ payload)).length = found ∧
        (d.slicePoints buffer points row).2.2.1.toList =
          cri ++ (frc ++ payload) ++ points.toList.drop found := by
  obtain ⟨target, hconfig⟩ := d.made c h
  rw [slicePoints_of_some buffer points row h] at hfound ⊢
  split at hfound
  next => cases hfound
  next hpoints =>
    split at hfound
    next => cases hfound
    next =>
      unfold Slicer.trace at hfound ⊢
      have hslicer : (d.slicer c).config = c := rfl
      have hthreshold : (d.slicer c).threshold = d.threshold := rfl
      rw [hslicer, hthreshold] at hfound ⊢
      cases hsearch : c.search List.cons (c.layout.level row) d.threshold [] with
      | none => simp [hsearch] at hfound
      | some locked =>
          obtain ⟨lock, clocked⟩ := locked
          cases hreceive : c.receive (c.layout.level row) lock with
          | none => simp [hsearch, hreceive] at hfound
          | some reception =>
              simp only [hsearch, hreceive, Except.ok.injEq, Option.some.injEq] at hfound ⊢
              obtain ⟨hfits, _, rfl⟩ := SlicerConfig.receive_eq_some hreceive
              have htranscript := SlicerConfig.transcript
                (SlicerConfig.oversampling_of_yuv420 hconfig hformat) hshift hstep hsearch hfits
              refine ⟨lock, clocked, _, _, _, rfl, rfl, htranscript, hfound, ?_⟩
              have hroom : c.pointCount ≤ count := (Slicer.checkPoints_eq_ok_iff.mp hpoints).2
              rw [← hfound]
              apply toList_overwrite
              have hcri := htranscript.length_cri
              rw [List.length_append, List.length_append, htranscript.length_frc,
                htranscript.length_payload, hcri]
              rw [SlicerConfig.pointCount] at hroom
              omega

/-- Slicing with a record agrees with slicing without one. It fails for the same reason, finds
the same payload and leaves the same threshold; and of what it finds it records the last bits of
the run-in, the whole framing code and the whole payload in order, in front of points that stay
as they were. -/
theorem slicePoints_agrees (h : d.config = some c) (hformat : c.format = .yuv420)
    (hshift : 1 ≤ c.phaseShift) (hstep : 1 ≤ c.step) (hroom : c.pointCount ≤ count) :
    ((d.slice buffer row).1.view, (d.slice buffer row).2) = d.view.slice buffer row ∧
      ((d.slicePoints buffer points row).1.view, (d.slicePoints buffer points row).2) =
        d.view.slicePoints buffer points row ∧
      (d.slicePoints buffer points row).1 = (d.slice buffer row).1 ∧
      (d.slicePoints buffer points row).2.1 = (d.slice buffer row).2.1 ∧
      (d.slicePoints buffer points row).2.2.2.map Option.isSome = (d.slice buffer row).2.2 ∧
      ∀ found, (d.slicePoints buffer points row).2.2.2 = .ok (some found) →
        ∃ lock clocked cri frc payload,
          c.search List.cons (c.layout.level row) d.threshold [] = some (lock, clocked) ∧
            cri = (clocked.take c.criBits).reverse ∧
            c.Transcript clocked.length cri frc payload ∧
            (cri ++ (frc ++ payload)).length = found ∧
            (d.slicePoints buffer points row).2.2.1.toList =
              cri ++ (frc ++ payload) ++ points.toList.drop found := by
  have hpoints : (d.slicer c).checkPoints count = .ok () :=
    Slicer.checkPoints_eq_ok_iff.mpr ⟨hformat, hroom⟩
  obtain ⟨hnext, hfilled, hanswer⟩ := slicePoints_eq_slice buffer points row h hpoints
  exact ⟨view_slice d buffer row, view_slicePoints d buffer points row, hnext, hfilled, hanswer,
    fun _ => transcript_of_slicePoints buffer points row h hformat hshift hstep⟩

/-- Of the short line thirteen points are recorded, three of its run-in, and three more entries
of the buffer stay blank. -/
theorem slicePoints_agrees_shortRow :
    ∃ recorded : Vector Point 16,
      shortDevice.slicePoints (Vector.replicate 3 (0xEE : UInt8))
          (Vector.replicate 16 Recorder.blank) Receiver.shortRow =
        ((shortDevice.slice (Vector.replicate 3 (0xEE : UInt8)) Receiver.shortRow).1,
          (shortDevice.slice (Vector.replicate 3 (0xEE : UInt8)) Receiver.shortRow).2.1,
          recorded, .ok (some 13)) ∧
        ∃ shown, shown.length = 13 ∧
          recorded.toList = shown ++ List.replicate 3 Recorder.blank ∧
          shown.Pairwise fun before later => before.position < later.position := by
  have hconfig : shortDevice.config = some (.derive Receiver.shortTarget) := by
    rw [shortDevice, configure_of_ok blank
      (SlicerConfig.ofTarget_regular Receiver.regular_shortTarget)]
  have hfound : (shortDevice.slicePoints (Vector.replicate 3 (0xEE : UInt8))
      (Vector.replicate 16 Recorder.blank) Receiver.shortRow).2.2.2 = .ok (some 13) := by
    decide +kernel
  have hshift : 1 ≤ (SlicerConfig.derive Receiver.shortTarget).phaseShift := by decide +kernel
  have hstep : 1 ≤ (SlicerConfig.derive Receiver.shortTarget).step := by decide +kernel
  have hroom : (SlicerConfig.derive Receiver.shortTarget).pointCount ≤ 16 := by decide +kernel
  obtain ⟨_, _, hnext, hfilled, _, hparts⟩ := slicePoints_agrees
    (Vector.replicate 3 (0xEE : UInt8)) (Vector.replicate 16 Recorder.blank) Receiver.shortRow
    hconfig rfl hshift hstep hroom
  obtain ⟨_, _, cri, frc, payload, _, _, htranscript, hlength, hlist⟩ := hparts 13 hfound
  clear hparts
  generalize shortDevice.slicePoints (Vector.replicate 3 (0xEE : UInt8))
    (Vector.replicate 16 Recorder.blank) Receiver.shortRow = result at hfound hnext hfilled hlist ⊢
  obtain ⟨next, filled, recorded, answer⟩ := result
  dsimp only at hfound hnext hfilled hlist
  rw [hnext, hfilled, hfound]
  exact ⟨recorded, rfl, cri ++ (frc ++ payload), hlength, hlist, htranscript.increasing⟩

end Device

end Blanking
