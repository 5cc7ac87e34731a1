import Blanking.Proofs.Number.Order
import Blanking.Proofs.Sampling.Candidates
import Blanking.Proofs.Service.Set

/-! # Levels of strictness

What is permitted to a stricter check is permitted to a less strict one. The checks of the levels
are not a chain: a stricter level takes the headroom from the sampled time, and it asks for lines
that cover those of the service where another one asks for lines that overlap them. -/

namespace Blanking.Sampling

open Double

variable {s : Sampling} {t : Transmission}

/-! ## Sampled time -/

theorem unpack_headroom :
    ∃ hpos, headroom.toModel.unpack = .finite .positive 4722366482869645 (-72) hpos :=
  ⟨by decide, by rfl⟩

/-- A time that is too short is too short with the headroom taken from it. -/
theorem usableTime_lt {duration : Float} (h : s.usableTime .loose < duration)
    (strictness : Strictness) : s.usableTime strictness < duration := by
  obtain ⟨_, hheadroom⟩ := unpack_headroom
  unfold usableTime at h ⊢
  dsimp only at h ⊢
  rw [if_pos rfl] at h
  split
  next => exact h
  next => exact sub_lt_of_lt (unsigned_div _ _) hheadroom h

theorem permitDuration_loose {strictness : Strictness}
    (h : s.permitDuration t strictness = .ok ()) : s.permitDuration t .loose = .ok () := by
  unfold permitDuration at h ⊢
  dsimp only at h ⊢
  split
  next hshort =>
    rw [if_pos (usableTime_lt hshort strictness)] at h
    cases h
  next => rfl

/-! ## Levels -/

theorem Permitted.loose {strictness : Strictness} (h : s.Permitted t strictness) :
    s.Permitted t .loose where
  standard := h.standard
  lineNumbers := h.lineNumbers
  rate := h.rate
  duration := permitDuration_loose h.duration
  place := by simp [permitPlace]
  fieldOrder := h.fieldOrder
  fields field := permitField_eq_ok_iff.mpr fun hfield =>
    ⟨(permitField_eq_ok_iff.mp (h.fields field) hfield).1, fun _ => rfl, fun _ => rfl⟩

/-- Lines that cover those of a service overlap them, since every service has lines. -/
theorem Permitted.reliable {service : Service} (h : s.Permitted service.transmission .strict) :
    s.Permitted service.transmission .reliable where
  standard := h.standard
  lineNumbers := h.lineNumbers
  rate := h.rate
  duration := h.duration
  place := h.place
  fieldOrder := h.fieldOrder
  fields field := by
    refine permitField_eq_ok_iff.mpr fun hfield => ?_
    obtain ⟨hcount, hknown, hlines⟩ := permitField_eq_ok_iff.mp (h.fields field) hfield
    refine ⟨hcount, fun hzero => (nomatch hknown hzero), fun hstart => ?_⟩
    obtain ⟨hfirst, hlast⟩ := linesSuffice_strict_iff.mp (hlines hstart)
    have horder := service.first_le_last field
    exact linesSuffice_reliable_iff.mpr ⟨horder.trans hlast, hfirst.trans horder⟩

theorem permit_of_level_le {low high : Strictness} {service : Service}
    (hle : low.level ≤ high.level) (h : s.permit service.transmission high = .ok ()) :
    s.permit service.transmission low = .ok () := by
  rw [permit_eq_ok_iff] at h ⊢
  cases low with
  | loose => exact h.loose
  | reliable =>
      cases high with
      | loose => exact absurd hle (by decide)
      | reliable => exact h
      | strict => exact h.reliable
  | strict =>
      cases high with
      | loose | reliable => exact absurd hle (by decide)
      | strict => exact h

theorem contains_check {services : ServiceSet} {strictness : Strictness} {service : Service} :
    (s.check services strictness).contains service = true ↔
      services.contains service = true ∧ s.permit service.transmission strictness = .ok () := by
  rw [check, ServiceSet.contains_ofList, List.mem_filter, ServiceSet.mem_toList, permits_iff]

/-- A stricter check permits no service that a less strict one refuses. -/
theorem strictness_antitone (s : Sampling) :
    (∀ service : Service, s.permit service.transmission .strict = .ok () →
      s.permit service.transmission .reliable = .ok ()) ∧
    (∀ service : Service, s.permit service.transmission .reliable = .ok () →
      s.permit service.transmission .loose = .ok ()) ∧
    ∀ low high : Strictness, low.level ≤ high.level → ∀ services : ServiceSet,
      (s.check services high).isSubset (s.check services low) = true := by
  refine ⟨fun _ => permit_of_level_le (by decide), fun _ => permit_of_level_le (by decide), ?_⟩
  intro low high hle services
  refine (ServiceSet.isKnown_ofList _).isSubset fun service hservice => ?_
  obtain ⟨hmem, hpermit⟩ := contains_check.mp hservice
  exact contains_check.mpr ⟨hmem, permit_of_level_le hle hpermit⟩

/-- With five lines of each field, Teletext is permitted up to the second level only. -/
theorem strictness_antitone_fiveLines :
    preset625.permit Service.vps.transmission .strict = .ok () ∧
      preset625.permit Service.vps.transmission .reliable = .ok () ∧
      fiveLines.permits .strict .teletextB625Level2 = false ∧
      fiveLines.permit Service.teletextB625Level2.transmission .reliable = .ok () ∧
      fiveLines.permit Service.teletextB625Level2.transmission .loose = .ok () ∧
      Strictness.reliable.level ≤ Strictness.strict.level ∧
      (fiveLines.check .all .strict).isSubset (fiveLines.check .all .reliable) = true := by
  have hstrict : preset625.permit Service.vps.transmission .strict = .ok () :=
    permits_iff.mp (by decide +kernel)
  have hreliable : fiveLines.permit Service.teletextB625Level2.transmission .reliable = .ok () :=
    permits_iff.mp (by decide +kernel)
  have hlevel : Strictness.reliable.level ≤ Strictness.strict.level := by decide
  obtain ⟨hfirst, _⟩ := strictness_antitone preset625
  obtain ⟨_, hsecond, hsubset⟩ := strictness_antitone fiveLines
  exact ⟨hstrict, hfirst _ hstrict, by decide +kernel, hreliable, hsecond _ hreliable, hlevel,
    hsubset _ _ hlevel .all⟩

end Blanking.Sampling
