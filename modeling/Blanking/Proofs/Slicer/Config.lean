import Blanking.Proofs.Sampling.Permit
import Blanking.Slicer.Config

/-! # Targets that a slicer can look for

A target passes its check exactly if its rates, patterns and lengths stay within their bounds. -/

namespace Blanking.SlicerConfig

/-- The bounds that the check of a target is about. -/
structure Feasible (target : Target) : Prop where
  rate : target.rate ≠ 0
  criRate_pos : 0 < target.criRate
  criRate_le : target.criRate ≤ target.rate
  payloadRate_pos : 0 < target.payloadRate
  payloadRate_le : target.payloadRate ≤ target.rate
  criBits : target.criBits ≤ 32
  frcBits : target.frcBits ≤ 32
  payload : (target.payloadBits + 7) / 8 ≤ recordBytes
  length : target.sampleOffset + (criSamples target + dataSamples target) ≤ target.samplesPerLine

theorem checkRate_eq_ok_iff {kind : RateKind} {rate samplingRate : Nat} :
    checkRate kind rate samplingRate = .ok () ↔ 0 < rate ∧ rate ≤ samplingRate := by
  unfold checkRate
  split
  next hzero => simp [hzero]
  next hpos =>
    split
    next hhigh => simp; omega
    next hlow => simp; omega

theorem checkBits_eq_ok_iff {kind : PatternKind} {bits : Nat} :
    checkBits kind bits = .ok () ↔ bits ≤ 32 := by
  unfold checkBits
  split
  next hmany => simp; omega
  next hfew => simp; omega

theorem checkPayload_eq_ok_iff {target : Target} :
    checkPayload target = .ok () ↔ (target.payloadBits + 7) / 8 ≤ recordBytes := by
  unfold checkPayload
  split
  next hlarge => simp; omega
  next hsmall => simp; omega

theorem checkLength_eq_ok_iff {target : Target} :
    checkLength target = .ok () ↔
      target.sampleOffset + (criSamples target + dataSamples target) ≤
        target.samplesPerLine := by
  unfold checkLength
  split
  next hlong =>
    simp only [Bool.or_eq_true, decide_eq_true_eq] at hlong
    simp
    omega
  next hfits =>
    simp only [Bool.or_eq_true, decide_eq_true_eq, not_or] at hfits
    simp
    omega

theorem check_eq_ok_iff {target : Target} : check target = .ok () ↔ Feasible target := by
  by_cases hrate : target.rate = 0
  · have herror : check target = .error .zeroSamplingRate := by
      rw [check, if_pos hrate]
      rfl
    simp only [herror, reduceCtorEq, false_iff]
    exact fun h => h.rate hrate
  · simp only [check, if_neg hrate, bind_eq_ok, checkRate_eq_ok_iff, checkBits_eq_ok_iff,
      checkPayload_eq_ok_iff, checkLength_eq_ok_iff]
    constructor
    · rintro ⟨⟨hcri, hcri'⟩, ⟨hpayload, hpayload'⟩, hcriBits, hfrcBits, hbytes, hlength⟩
      exact ⟨hrate, hcri, hcri', hpayload, hpayload', hcriBits, hfrcBits, hbytes, hlength⟩
    · intro h
      exact ⟨⟨h.criRate_pos, h.criRate_le⟩, ⟨h.payloadRate_pos, h.payloadRate_le⟩, h.criBits,
        h.frcBits, h.payload, h.length⟩

theorem ofTarget_eq_ok_iff {target : Target} {config : SlicerConfig} :
    ofTarget target = .ok config ↔ Feasible target ∧ config = derive target := by
  rw [← check_eq_ok_iff]
  unfold ofTarget
  split
  next hcheck => simp [hcheck, eq_comm]
  next cause hcheck => simp [hcheck]

/-- Each sample of the format whose decisions are recorded is divided into four steps. -/
theorem oversampling_of_yuv420 {target : Target} {config : SlicerConfig}
    (h : ofTarget target = .ok config) (hformat : config.format = .yuv420) :
    config.layout.oversampling = 4 := by
  obtain ⟨_, rfl⟩ := ofTarget_eq_ok_iff.mp h
  have hlayout : (derive target).layout = (derive target).format.layout := rfl
  rw [hlayout, hformat]
  rfl

end Blanking.SlicerConfig
