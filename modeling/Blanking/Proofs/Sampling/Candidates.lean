import Blanking.Proofs.Sampling.Checked
import Blanking.Proofs.Sampling.Lines

/-! # Permission and candidates

A service is permitted by comparing its lines with the sampled ones, and the lines to look for it
on are found by cutting one range down to the other. Both agree: a service with lines that overlap
the sampled ones has candidates, and one whose lines are all sampled has all of them. -/

namespace Blanking

/-- The lines that a service uses are given in their order. -/
theorem Service.first_le_last (service : Service) (field : Field) :
    service.transmission.first.on field ≤ service.transmission.last.on field := by
  revert field
  cases service <;> rintro (_ | _) <;> decide

namespace Sampling

variable {s : Sampling}

theorem position_lt {field : Field} {index : Nat} (hindex : index < s.count.on field) :
    s.position field index < s.totalLines := by
  cases field <;> simp only [PerField.on, position, base, totalLines] at hindex ⊢ <;> omega

theorem position_mem_candidates_iff (hsync : s.synchronous = true) {t : Transmission}
    {field : Field} {index : Nat} (hindex : index < s.count.on field) :
    s.position field index ∈ s.candidates t ↔ t.onField field = true ∧
      (s.start.on field = 0 ∨ t.covers field (s.start.on field + index) = true) :=
  mem_candidates_of_synchronous hsync (getElem?_sites.mpr ⟨hindex, rfl⟩)

/-- A sampled line of a field that carries a service is a candidate for it if its number is unknown
or among those of the service, and also if the fields cannot be told apart. -/
theorem position_mem_candidates {t : Transmission} {field : Field} {index : Nat}
    (hindex : index < s.count.on field) (hfield : t.onField field = true)
    (hline : s.start.on field = 0 ∨ t.covers field (s.start.on field + index) = true) :
    s.position field index ∈ s.candidates t := by
  cases hsync : s.synchronous with
  | false =>
      rw [candidates, hsync, if_neg Bool.false_ne_true, List.mem_range]
      exact position_lt hindex
  | true => exact (position_mem_candidates_iff hsync hindex).mpr ⟨hfield, hline⟩

section Permitted

variable {service : Service} {field : Field}
  (hfield : service.transmission.onField field = true)

include hfield

/-- A line in the overlap of two ranges of lines. -/
theorem exists_candidate_of_reliable
    (h : s.permitField service.transmission .reliable field = .ok ()) :
    ∃ index < s.count.on field, s.position field index ∈ s.candidates service.transmission := by
  obtain ⟨hcount, hknown, hlines⟩ := permitField_eq_ok_iff.mp h hfield
  have hstart : s.start.on field ≠ 0 := fun hzero => nomatch hknown hzero
  obtain ⟨hbelow, habove⟩ := linesSuffice_reliable_iff.mp (hlines hstart)
  have horder := service.first_le_last field
  rw [lastLine] at hbelow
  -- The overlap starts where the later one of the two ranges does.
  have hindex : service.transmission.first.on field - s.start.on field < s.count.on field := by
    omega
  refine ⟨_, hindex, position_mem_candidates hindex hfield (Or.inr ?_)⟩
  simp only [Transmission.covers, hfield, Bool.true_and, Bool.and_eq_true, decide_eq_true_eq]
  omega

/-- Each line of a range inside another one. -/
theorem exists_candidate_of_strict
    (h : s.permitField service.transmission .strict field = .ok ()) {line : Nat}
    (hfirst : service.transmission.first.on field ≤ line)
    (hlast : line ≤ service.transmission.last.on field) :
    ∃ index < s.count.on field, s.start.on field + index = line ∧
      s.position field index ∈ s.candidates service.transmission := by
  obtain ⟨hcount, hknown, hlines⟩ := permitField_eq_ok_iff.mp h hfield
  have hstart : s.start.on field ≠ 0 := fun hzero => nomatch hknown hzero
  obtain ⟨hbelow, habove⟩ := linesSuffice_strict_iff.mp (hlines hstart)
  rw [lastLine] at habove
  have hindex : line - s.start.on field < s.count.on field := by omega
  have hline : s.start.on field + (line - s.start.on field) = line := by omega
  refine ⟨_, hindex, hline, position_mem_candidates hindex hfield (Or.inr ?_)⟩
  simp only [Transmission.covers, hfield, hline, hfirst, hlast, decide_true, Bool.and_true]

end Permitted

/-- The candidates for a service are sampled lines, none of them twice. Where the fields can be told
apart they are the lines of its fields that have one of its numbers or an unknown one, and otherwise
all lines. A service that is reliably permitted has a candidate on each of its fields, and for a
strictly permitted one each of its lines is one. -/
theorem candidates_agree (h : s.validate?.run = some (.ok ())) (service : Service) :
    ∃ candidates, s.candidates? service.transmission = some candidates ∧ candidates.Nodup ∧
    (∀ total, s.totalLines? = some total → ∀ position ∈ candidates, position < total) ∧
    (s.synchronous = true → ∀ field, ∀ index < s.count.on field,
      (s.position field index ∈ candidates ↔
        service.transmission.onField field = true ∧ (s.start.on field = 0 ∨
          service.transmission.first.on field ≤ s.start.on field + index ∧
            s.start.on field + index ≤ service.transmission.last.on field))) ∧
    (s.synchronous = false →
      ∀ field, ∀ index < s.count.on field, s.position field index ∈ candidates) ∧
    ((s.permit? service.transmission .reliable).run = some (.ok ()) →
      ∀ field, service.transmission.onField field = true →
        ∃ index < s.count.on field, s.position field index ∈ candidates) ∧
    ((s.permit? service.transmission .strict).run = some (.ok ()) →
      ∀ field, service.transmission.onField field = true →
        ∀ line, service.transmission.first.on field ≤ line →
          line ≤ service.transmission.last.on field →
            ∃ index < s.count.on field, s.start.on field + index = line ∧
              s.position field index ∈ candidates) := by
  have hvalid : s.Valid := validate?_eq_ok_iff.mp h
  refine ⟨_, hvalid.candidates?_eq _, s.nodup_candidates _, ?_, ?_, ?_, ?_, ?_⟩
  · intro total htotal position hposition
    obtain ⟨_, rfl⟩ := totalLines?_eq_some_iff.mp htotal
    exact lt_of_mem_candidates hposition
  · intro hsync field index hindex
    rw [position_mem_candidates_iff hsync hindex]
    refine and_congr_right fun hfield => or_congr_right ?_
    simp only [Transmission.covers, hfield, Bool.true_and, Bool.and_eq_true, decide_eq_true_eq]
  · intro hsync field index hindex
    rw [candidates, hsync, if_neg Bool.false_ne_true, List.mem_range]
    exact position_lt hindex
  · intro hpermit field hfield
    have hpermit := (agrees_permit? _ hpermit).symm
    exact exists_candidate_of_reliable hfield ((permit_eq_ok hpermit).fields field)
  · intro hpermit field hfield line hfirst hlast
    have hpermit := (agrees_permit? _ hpermit).symm
    exact exists_candidate_of_strict hfield ((permit_eq_ok hpermit).fields field) hfirst hlast

/-- Five lines of each field, which are not all that carry Teletext. -/
def fiveLines : Sampling := { preset625 with start := ⟨10, 320⟩, count := ⟨5, 5⟩ }

/-- Teletext is looked for on each field, but cannot be strictly permitted; VPS can where its line
was sampled. -/
theorem candidates_agree_fiveLines :
    fiveLines.validate?.run = some (.ok ()) ∧ preset625.validate?.run = some (.ok ()) ∧
      (fiveLines.permit? Service.teletextB625Level2.transmission .reliable).run = some (.ok ()) ∧
      fiveLines.permits .strict .teletextB625Level2 = false ∧
      (∃ candidates,
        fiveLines.candidates? Service.teletextB625Level2.transmission = some candidates ∧
          (∀ position ∈ candidates, position < 10) ∧
          ∃ index < 5, fiveLines.position .second index ∈ candidates) ∧
      (preset625.permit? Service.vps.transmission .strict).run = some (.ok ()) ∧
      ∃ candidates, preset625.candidates? Service.vps.transmission = some candidates ∧
        ∃ index < 18, 6 + index = 16 ∧ preset625.position .first index ∈ candidates := by
  have hfive : fiveLines.Valid := rfl
  have hpreset : preset625.Valid := rfl
  have hreliable :
      (fiveLines.permit? Service.teletextB625Level2.transmission .reliable).run =
        some (.ok ()) := by
    rw [hfive.run_permit? (by decide +kernel) _, permits_iff.mp (by decide +kernel)]
  have hstrict : (preset625.permit? Service.vps.transmission .strict).run = some (.ok ()) := by
    rw [hpreset.run_permit? (by decide +kernel) _, permits_iff.mp (by decide +kernel)]
  have htotal : fiveLines.totalLines? = some 10 := by decide +kernel
  obtain ⟨fives, hfives, _, hbelow, _, _, hoverlap, _⟩ :=
    candidates_agree (run_validate? hfive) .teletextB625Level2
  obtain ⟨lines, hlines, _, _, _, _, _, hinside⟩ := candidates_agree (run_validate? hpreset) .vps
  refine ⟨run_validate? hfive, run_validate? hpreset, hreliable, by decide +kernel, ?_, hstrict, ?_⟩
  · exact ⟨fives, hfives, hbelow 10 htotal, hoverlap hreliable .second rfl⟩
  · exact ⟨lines, hlines, hinside hstrict .first rfl 16 (by decide) (by decide)⟩

end Sampling

end Blanking
