import Mathlib.Data.List.Forall2
import Blanking.Proofs.Decoder.Interlaced
import Blanking.Proofs.Decoder.Learning

/-! # The order of records

Lines are decoded one after the other, and each gives one record at most. So the records of a field
pair come from different lines, in the order of these, and their line numbers increase as far as
they are known. -/

namespace Blanking.Decoder

section Reports

variable {s : Sampling} (verdicts : List Verdict)

theorem pairwise_reports (s : Sampling) :
    (reports s verdicts).Pairwise fun first second => Sampling.Earlier first.1 second.1 := by
  have hzip : (s.sites.zip verdicts).Pairwise fun a b => Sampling.Earlier a.1 b.1 := by
    rw [List.pairwise_iff_getElem]
    intro i j hi hj hlt
    rw [List.getElem_zip, List.getElem_zip]
    exact List.pairwise_iff_getElem.mp s.pairwise_sites i j _ _ hlt
  -- A report keeps the line of its verdict.
  refine hzip.filterMap _ fun a b hearlier first hfirst second hsecond => ?_
  obtain ⟨_, _, rfl⟩ := Option.map_eq_some_iff.mp hfirst
  obtain ⟨_, _, rfl⟩ := Option.map_eq_some_iff.mp hsecond
  exact hearlier

theorem index_lt_of_mem_reports {report : (Field × Nat) × Record}
    (h : report ∈ reports s verdicts) : report.1.2 < s.count.on report.1.1 := by
  obtain ⟨_, _, hsite, _, _⟩ := mem_reports h
  exact (Sampling.getElem?_sites.mp hsite).1

theorem line_of_mem_reports {report : (Field × Nat) × Record} (h : report ∈ reports s verdicts) :
    report.2.line = s.lineNumber report.1.1 report.1.2 := by
  obtain ⟨site, record⟩ := report
  obtain ⟨_, _, _, _, rfl⟩ := mem_reports h
  rfl

/-- Where the numbers of lines are known, the later record has the larger one. -/
theorem pairwise_line_reports (hvalid : s.Valid) :
    (reports s verdicts).Pairwise fun first second =>
      first.2.line ≠ 0 → second.2.line ≠ 0 → first.2.line < second.2.line := by
  refine (pairwise_reports verdicts s).imp_of_mem ?_
  intro first second hfirst hsecond hearlier
  rw [line_of_mem_reports verdicts hfirst, line_of_mem_reports verdicts hsecond]
  exact hvalid.lineNumber_lt hearlier (index_lt_of_mem_reports verdicts hfirst)
    (index_lt_of_mem_reports verdicts hsecond)

end Reports

variable {d : Decoder} {capacity : Nat} {raw : ByteArray}

/-- Whether a record comes from what a job found on a sampled line. -/
def WrittenFor (d : Decoder) (capacity : Nat) (raw : ByteArray) (site : Field × Nat)
    (record : Record) : Prop :=
  ∃ position number, d.Writes capacity raw position site.1 site.2 number record

theorem Consistent.writtenFor (h : d.Consistent) {report : (Field × Nat) × Record}
    (hreport : report ∈ reports d.sampling (d.verdicts capacity raw).2) :
    d.WrittenFor capacity raw report.1 report.2 := by
  obtain ⟨⟨field, index⟩, record⟩ := report
  obtain ⟨position, hit, hsite, hverdict, _⟩ := mem_reports hreport
  have hlt := (List.getElem?_eq_some_iff.mp hverdict).1
  rw [length_verdicts] at hlt
  have hpattern := List.getElem?_eq_getElem hlt
  have hafter : (List.zipWith Verdict.learn (d.verdicts capacity raw).2 d.patterns)[position]? =
      some (Verdict.learn (.found hit) d.patterns[position]) :=
    List.getElem?_zipWith_eq_some.mpr ⟨_, _, hverdict, hpattern, rfl⟩
  obtain ⟨number, hwrites, _⟩ := (learns_of_decode h hsite hpattern hafter).found record hreport
  exact ⟨position, number, hwrites⟩

/-- Each record of a field pair was written for its line. -/
theorem Consistent.forall₂_writtenFor (h : d.Consistent) (capacity : Nat) (raw : ByteArray) :
    List.Forall₂ (d.WrittenFor capacity raw)
      ((reports d.sampling (d.verdicts capacity raw).2).map (·.1))
      ((reports d.sampling (d.verdicts capacity raw).2).map (·.2)) := by
  rw [List.forall₂_map_left_iff, List.forall₂_map_right_iff, List.forall₂_same]
  exact fun report hreport => h.writtenFor hreport

/-- The records that a decoder makes of a field pair come from different sampled lines, those of
the first field before those of the second one, and in the order of the lines of a field. The line
numbers that are known increase from record to record. -/
theorem Reachable.records_ordered (h : d.Reachable) (capacity : Nat)
    (hsize : d.sampling.frameSize ≤ raw.size) :
    ∃ next records, d.decode capacity raw = .ok (next, records) ∧
      (∃ origins : List (Field × Nat),
        List.Forall₂ (d.WrittenFor capacity raw) origins records ∧
        (∀ site ∈ origins, site.2 < d.sampling.count.on site.1) ∧ origins.Nodup ∧
        origins.Pairwise Sampling.Earlier) ∧
      ((records.map Record.line).filter (· ≠ 0)).Pairwise (· < ·) := by
  obtain ⟨next, records, hdecode⟩ := decode_of_size capacity hsize
  obtain ⟨_, _, rfl⟩ := decode_eq_ok hdecode
  set lines := reports d.sampling (d.verdicts capacity raw).2 with hlines
  have hordered : (lines.map Prod.fst).Pairwise Sampling.Earlier :=
    List.pairwise_map.mpr (pairwise_reports _ _)
  refine ⟨next, _, hdecode, ⟨lines.map Prod.fst, h.consistent.forall₂_writtenFor capacity raw, ?_,
    hordered.imp Sampling.Earlier.ne, hordered⟩, ?_⟩
  · intro site hsite
    obtain ⟨report, hreport, rfl⟩ := List.mem_map.mp hsite
    exact index_lt_of_mem_reports _ hreport
  · rw [List.map_map, List.pairwise_filter, List.pairwise_map]
    refine (pairwise_line_reports _ h.valid).imp ?_
    intro first second hincreases hfirst hsecond
    exact hincreases (by simpa using hfirst) (by simpa using hsecond)

/-- A decoder for the captions of both fields. -/
def interlacedDecoder : Decoder :=
  (ofSampling interlacedSampling).run [.addServices .caption625 .loose]

theorem sampling_interlacedDecoder : interlacedDecoder.sampling = interlacedSampling :=
  sampling_run_addServices _ _ _

theorem decode_interlacedFrame :
    ∃ next records, interlacedDecoder.decode 4 interlacedFrame = .ok (next, records) ∧
      records.map Record.line = [22, 335] := by
  have hfound : (interlacedDecoder.decode 4 interlacedFrame).toOption.map
      (·.2.map Record.line) = some [22, 335] := by decide +kernel
  obtain ⟨⟨next, records⟩, hsome, hlines⟩ := Option.map_eq_some_iff.mp hfound
  cases hdecode : interlacedDecoder.decode 4 interlacedFrame with
  | error cause =>
      rw [hdecode] at hsome
      cases hsome
  | ok result =>
      rw [hdecode] at hsome
      cases hsome
      exact ⟨next, records, rfl, hlines⟩

/-- The captions of both fields are found in their order. -/
theorem records_ordered_interlacedFrame :
    interlacedDecoder.Reachable ∧
      interlacedDecoder.sampling.frameSize ≤ interlacedFrame.size ∧
      ∃ next records, interlacedDecoder.decode 4 interlacedFrame = .ok (next, records) ∧
        records.map Record.line = [22, 335] ∧
        ∃ origins : List (Field × Nat),
          List.Forall₂ (interlacedDecoder.WrittenFor 4 interlacedFrame) origins records ∧
          origins.Pairwise Sampling.Earlier := by
  have hnew : Decoder.new interlacedSampling = .ok (ofSampling interlacedSampling) := rfl
  have hreachable : interlacedDecoder.Reachable := (Reachable.new hnew).run _
  have hsize : interlacedDecoder.sampling.frameSize ≤ interlacedFrame.size := by
    rw [sampling_interlacedDecoder]
    decide +kernel
  obtain ⟨next, records, hdecode, ⟨origins, horigins, _, _, hordered⟩, _⟩ :=
    hreachable.records_ordered 4 hsize
  obtain ⟨next', records', hdecode', hlines⟩ := decode_interlacedFrame
  rw [hdecode] at hdecode'
  cases hdecode'
  exact ⟨hreachable, hsize, next, records, hdecode, hlines, origins, horigins, hordered⟩

end Blanking.Decoder
