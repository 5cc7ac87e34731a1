import Blanking.Proofs.Slicer.Points

/-! # What the recorded run-in says

A bit of the run-in is decided on the level of its step rounded to a whole one, but the level is
recorded as it was before. So the points of a run-in that was found spell the expected pattern if
each is read with half a level in its favour. Read like the other points they spell it as well,
unless one of them lies below its threshold by no more than that half. -/

namespace Blanking

/-- What the decision about a bit of the run-in was. -/
def Point.runInBit (point : Point) : Bool := point.threshold ≤ point.level + 128

theorem Point.runInBit_eq_bit {point : Point}
    (h : (point.level : Int) < point.threshold → point.level + 128 < point.threshold) :
    point.runInBit = point.bit := by
  rw [runInBit, bit, decide_eq_decide]
  omega

/-- Under a mask of some bits a register tells as many bits as the mask covers. -/
theorem wordOfBits_append_and (front : List Bool) {rest : List Bool} (mask : UInt32)
    {count : Nat} (hlength : rest.length = count) (hcount : count ≤ 32) :
    wordOfBits (front ++ rest) &&& (mask &&& lowBits count) =
      wordOfBits rest &&& (mask &&& lowBits count) := by
  subst hlength
  have hnumber : Payload.numberOfBits (front ++ rest) =
      Payload.numberOfBits front * 2 ^ rest.length + Payload.numberOfBits rest := by
    rw [Payload.numberOfBits, List.foldl_append, Payload.foldl_numberOfBits]
    rfl
  have hdvd : 2 ^ rest.length ∣ 2 ^ 32 := Nat.pow_dvd_pow 2 hcount
  have hlow : wordOfBits (front ++ rest) &&& lowBits rest.length =
      wordOfBits rest &&& lowBits rest.length := by
    apply UInt32.toNat_inj.mp
    rw [toNat_and_lowBits _ hcount, toNat_and_lowBits _ hcount, toNat_wordOfBits,
      toNat_wordOfBits, Nat.mod_mod_of_dvd _ hdvd, Nat.mod_mod_of_dvd _ hdvd, hnumber,
      Nat.mul_add_mod_self_right]
  rw [UInt32.and_comm mask, ← UInt32.and_assoc, ← UInt32.and_assoc, hlow]

namespace SlicerConfig

variable {c : SlicerConfig} {level : Nat → Nat} {threshold : Int}

/-! ## The register -/

theorem word_advance (clock : Clock) (high : Bool) :
    (c.advance clock high).word =
      if c.ticks clock high then shiftIn clock.word high else clock.word := by
  unfold advance ticks
  by_cases hedge : high = clock.high
  · by_cases hquiet : clock.phase + c.criRate < c.stepRate
    · simp [hedge, hquiet, Nat.not_le.mpr hquiet]
    · simp [hedge, hquiet, Nat.not_lt.mp hquiet]
  · simp [hedge]

theorem runInBit_criPointAt (hsteps : c.layout.oversampling = 4) (step : Nat) :
    (c.criPointAt level threshold step).runInBit = c.highAt level threshold step := by
  simp only [Point.runInBit, criPointAt, highAt, hsteps]
  rw [decide_eq_decide]
  omega

/-- The register holds the bits that were recorded. -/
theorem word_clockAt (hsteps : c.layout.oversampling = 4) (step : Nat) :
    (c.clockAt (c.highAt level threshold) step).word =
      wordOfBits ((c.traceAt List.cons level threshold [] step).reverse.map Point.runInBit) := by
  induction step with
  | zero => rfl
  | succ step ih =>
      rw [clockAt_succ, word_advance, traceAt]
      split
      next =>
        rw [List.reverse_cons, List.map_append, List.map_singleton, runInBit_criPointAt hsteps,
          wordOfBits, List.foldl_append, ← wordOfBits, ← ih]
        rfl
      next => exact ih

/-- The last bits of a run-in that was found are the expected ones, as far as they count. -/
theorem runIn_of_search (hsteps : c.layout.oversampling = 4) (hbits : c.criBits ≤ 32)
    {mask : UInt32} (hmask : c.criMask = mask &&& lowBits c.criBits) {lock : Lock}
    {latest : List Point} (h : c.search List.cons level threshold [] = some (lock, latest)) :
    wordOfBits ((latest.take c.criBits).reverse.map Point.runInBit) &&& c.criMask = c.cri := by
  rw [search_eq] at h
  obtain ⟨last, hlast, hfound⟩ := Option.map_eq_some_iff.mp h
  obtain ⟨_, hlatest⟩ := Prod.mk.inj hfound
  have hcompletes := List.find?_some hlast
  rw [completesAt, Bool.and_eq_true, beq_iff_eq] at hcompletes
  have hword : wordOfBits (latest.reverse.map Point.runInBit) &&& c.criMask = c.cri := by
    rw [← hlatest, ← word_clockAt hsteps, clockAt_succ, word_advance, if_pos hcompletes.1]
    exact hcompletes.2
  -- The mask covers the bits that were recorded. With fewer of them the record has them all.
  by_cases hmany : c.criBits ≤ latest.length
  · have hlength : ((latest.take c.criBits).reverse.map Point.runInBit).length = c.criBits := by
      simpa using hmany
    have hall : latest.reverse.map Point.runInBit =
        (latest.drop c.criBits).reverse.map Point.runInBit ++
          (latest.take c.criBits).reverse.map Point.runInBit := by
      rw [← List.map_append, ← List.reverse_append, List.take_append_drop]
    rwa [hall, hmask, wordOfBits_append_and _ mask hlength hbits, ← hmask] at hword
  · rwa [List.take_of_length_le (Nat.le_of_not_le hmany)]

end SlicerConfig

namespace Slicer

/-- The points of the run-in are those in front of a record. -/
theorem filter_recorded {s next : Slicer} {level : Nat → Nat} {recorded : List Point}
    {reception : Reception} (h : s.trace level = (recorded, some (next, reception))) :
    ∃ lock latest, s.config.search List.cons level s.threshold [] = some (lock, latest) ∧
      (recorded.filter fun point => point.kind == .cri) =
        (latest.take s.config.criBits).reverse := by
  obtain ⟨lock, latest, hsearch, hreceive, rfl⟩ := exists_of_trace h
  obtain ⟨_, _, rfl⟩ := SlicerConfig.receive_eq_some hreceive
  refine ⟨lock, latest, hsearch, ?_⟩
  have hrunIn : ((latest.take s.config.criBits).reverse.filter fun point => point.kind == .cri) =
      (latest.take s.config.criBits).reverse :=
    List.filter_eq_self.mpr fun _ hpoint => beq_iff_eq.mpr (kind_of_mem_runIn hsearch hpoint)
  have hdata : ((s.config.frcPoints level lock ++ s.config.payloadPoints level lock).filter
      fun point => point.kind == .cri) = [] := by
    rw [List.filter_eq_nil_iff]
    intro point hpoint
    obtain hpoint | hpoint := List.mem_append.mp hpoint
    · simp [SlicerConfig.kind_of_mem_frcPoints hpoint]
    · simp [SlicerConfig.kind_of_mem_points hpoint]
  rw [List.filter_append, hrunIn, hdata, List.append_nil]

/-- A run-in that was found spells the expected pattern. -/
theorem runIn_of_trace {target : Target} {s next : Slicer}
    (hconfig : SlicerConfig.ofTarget target = .ok s.config) (hformat : s.config.format = .yuv420)
    {level : Nat → Nat} {recorded : List Point} {reception : Reception}
    (h : s.trace level = (recorded, some (next, reception))) :
    wordOfBits ((recorded.filter fun point => point.kind == .cri).map Point.runInBit) &&&
      s.config.criMask = s.config.cri := by
  obtain ⟨hfeasible, hderive⟩ := SlicerConfig.ofTarget_eq_ok_iff.mp hconfig
  have hbits : s.config.criBits ≤ 32 := by
    rw [hderive]
    exact hfeasible.criBits
  have hmask : s.config.criMask = target.criMask &&& lowBits s.config.criBits := by
    rw [hderive]
    rfl
  obtain ⟨lock, latest, hsearch, hrunIn⟩ := filter_recorded h
  rw [hrunIn]
  exact SlicerConfig.runIn_of_search (SlicerConfig.oversampling_of_yuv420 hconfig hformat) hbits
    hmask hsearch

end Slicer

namespace Receiver

/-- The points of a run-in that was found spell the expected pattern if each is read on a level
that is half a level higher. As they stand they spell it too, unless that half makes a difference
for one of them. -/
theorem runIn_slicePoints {target : Target} {r next : Receiver} {s : Slicer}
    (hslicer : r.slicer = some s) (hconfig : SlicerConfig.ofTarget target = .ok s.config)
    {size count found : Nat} {buffer filled : Vector UInt8 size}
    {points recorded : Vector Point count} {row : ByteArray}
    (h : r.slicePoints buffer points row = (next, filled, recorded, .ok (some found))) :
    let list := recorded.toList.take found
    let runIn := list.filter fun point => point.kind == .cri
    s.config.criMask = target.criMask &&& lowBits target.criBits ∧
      s.config.cri = target.cri &&& s.config.criMask ∧
      wordOfBits (runIn.map Point.runInBit) &&& s.config.criMask = s.config.cri ∧
      ((∀ point ∈ runIn, (point.level : Int) < point.threshold →
          point.level + 128 < point.threshold) →
        wordOfBits (decisions .cri list) &&& s.config.criMask = s.config.cri) := by
  obtain ⟨_, hderive⟩ := SlicerConfig.ofTarget_eq_ok_iff.mp hconfig
  obtain ⟨after, hslice⟩ := slicePoints_eq_ok hslicer h
  obtain ⟨hformat, _, _, reception, htrace, _⟩ := Slicer.trace_of_slicePoints hslice
  have hspelled := Slicer.runIn_of_trace hconfig hformat htrace
  refine ⟨by rw [hderive]; rfl, by rw [hderive]; rfl, hspelled, ?_⟩
  intro hclear
  have hbits : ((recorded.toList.take found).filter fun point => point.kind == .cri).map
      Point.runInBit = decisions .cri (recorded.toList.take found) :=
    List.map_congr_left fun point hpoint => Point.runInBit_eq_bit (hclear point hpoint)
  rwa [hbits] at hspelled

/-- A slicer for the short line. -/
def shortReceiver : Receiver :=
  ⟨some ⟨.derive shortTarget, shortTarget.format.layout.seed⟩, false⟩

/-- The short line with a soft rise to the last bit of its run-in. -/
def softRow : ByteArray := ⟨shortRow.data.set! 9 42⟩

/-- The last point of the run-in has level 81.5 and threshold 82. It is read as a bit that is set
only with half a level in its favour. -/
theorem runIn_slicePoints_softRow :
    ∃ next filled recorded,
      shortReceiver.slicePoints (Vector.replicate 3 (0xEE : UInt8))
          (Vector.replicate 16 ⟨.cri, 0, 0, 0⟩) softRow =
        (next, filled, recorded, .ok (some 13)) ∧
      wordOfBits (((recorded.toList.take 13).filter fun point => point.kind == .cri).map
        Point.runInBit) &&& 0b111 = 0b101 := by
  generalize hresult : shortReceiver.slicePoints (Vector.replicate 3 (0xEE : UInt8))
      (Vector.replicate 16 ⟨.cri, 0, 0, 0⟩) softRow = result
  have hfound : result.2.2.2 = .ok (some 13) := by
    rw [← hresult]
    decide +kernel
  obtain ⟨next, filled, recorded, _⟩ := result
  obtain rfl := hfound
  obtain ⟨_, _, hspelled, _⟩ :=
    runIn_slicePoints rfl (SlicerConfig.ofTarget_regular regular_shortTarget) hresult
  have hmask : (SlicerConfig.derive shortTarget).criMask = 0b111 := by decide
  have hcri : (SlicerConfig.derive shortTarget).cri = 0b101 := by decide
  exact ⟨next, filled, recorded, rfl, by rwa [hmask, hcri] at hspelled⟩

/-- Read as they stand the points of a run-in that was found need not spell the pattern. -/
theorem not_forall_decisions_runIn :
    ¬∀ (target : Target) (r next : Receiver) (s : Slicer), r.slicer = some s →
      SlicerConfig.ofTarget target = .ok s.config → s.config.format = .yuv420 →
      ∀ (size count found : Nat) (buffer filled : Vector UInt8 size)
        (points recorded : Vector Point count) (row : ByteArray),
        r.slicePoints buffer points row = (next, filled, recorded, .ok (some found)) →
        wordOfBits (decisions .cri (recorded.toList.take found)) &&& s.config.criMask =
          s.config.cri := by
  intro hall
  generalize hresult : shortReceiver.slicePoints (Vector.replicate 3 (0xEE : UInt8))
      (Vector.replicate 16 ⟨.cri, 0, 0, 0⟩) softRow = result
  have hfound : result.2.2.2 = .ok (some 13) := by
    rw [← hresult]
    decide +kernel
  have hread : wordOfBits (decisions .cri (result.2.2.1.toList.take 13)) &&& 0b111 = 0b100 := by
    rw [← hresult]
    decide +kernel
  obtain ⟨next, filled, recorded, _⟩ := result
  obtain rfl := hfound
  have hspelled := hall shortTarget shortReceiver next _ rfl
    (SlicerConfig.ofTarget_regular regular_shortTarget) rfl _ _ _ _ _ _ _ _ hresult
  have hmask : (SlicerConfig.derive shortTarget).criMask = 0b111 := by decide
  have hcri : (SlicerConfig.derive shortTarget).cri = 0b101 := by decide
  rw [hmask, hcri, hread] at hspelled
  exact absurd hspelled (by decide)

end Receiver

end Blanking
