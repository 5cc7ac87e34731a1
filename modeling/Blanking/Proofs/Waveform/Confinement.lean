import Blanking.Proofs.Waveform.InPlace

/-! # Effects of drawing

Drawing changes the field pair at the front of a buffer and nothing behind it, and each line is
drawn by itself. So neither the bytes that were there nor the records of other lines show in a line,
and records may come in any order in which those of each line do not change places. -/

namespace Blanking.Sampling

variable {s : Sampling} {blank white : UInt8} {raw out : ByteArray} {records : List Record}

theorem render_confined (h : (s.render? raw blank white records).run = some (.ok out)) :
    ∃ size total, s.frameSize? = some size ∧ s.totalLines? = some total ∧
    (out.size = raw.size ∧ out.extract size out.size = raw.extract size raw.size) ∧
    (∀ number < total, (∀ record ∈ records, s.rowFor? record ≠ some number) →
      s.rowAt out number = s.format.layout.flatRow s.samplesPerLine blank) ∧
    (∀ line field index, s.locate? line = some (field, index) → ∀ raw' records' out',
      (s.render? raw' blank white records').run = some (.ok out') →
        records'.filter (·.line = line) = records.filter (·.line = line) →
          s.rowOf out' field index = s.rowOf out field index) ∧
    (∀ raw' : ByteArray, size ≤ raw'.size → ∃ out',
      (s.render? raw' blank white records).run = some (.ok out') ∧
        out'.extract 0 size = out.extract 0 size) ∧
    (∀ records' : List Record,
      (∀ line, records'.filter (·.line = line) = records.filter (·.line = line)) →
        (s.render? raw blank white records').run = some (.ok out)) ∧
    InPlace.render? s blank white records raw = some (out, .ok ()) := by
  obtain ⟨hsize, h⟩ := render?_eq_ok_iff.mp h
  obtain ⟨_, hlines, _⟩ := frameSize?_eq_some_iff.mp hsize
  refine ⟨_, _, hsize, totalLines?_eq_some_iff.mpr ⟨hlines, rfl⟩, extract_of_render h, ?blank,
    ?line, ?buffer, ?order, ?memory⟩
  case blank =>
    intro number hnumber hnone
    have hrow := rowAt_of_render h hnumber
    rw [List.filter_eq_nil_iff.mpr fun record hrecord =>
      by simpa using hnone record hrecord] at hrow
    exact (Except.ok.inj hrow).symm
  case line =>
    intro line field index hlocate raw' records' out' h' hsame
    have hrow' := rowOf_of_render (render?_eq_ok_iff.mp h').2 hlocate
    rw [hsame, rowOf_of_render h hlocate] at hrow'
    exact (Except.ok.inj hrow').symm
  case buffer =>
    intro raw' hraw'
    obtain ⟨out', hout', hfront⟩ := render_of_render h hraw'
    exact ⟨out', render?_eq_ok_iff.mpr ⟨hsize, hout'⟩, hfront⟩
  case order =>
    intro records' hlines
    exact render?_eq_ok_iff.mpr ⟨hsize, render_congr h hlines⟩
  case memory =>
    obtain ⟨memory, hrender, _, _, hlast⟩ := InPlace.render?_eq s blank white records raw
    rw [hrender, h, hlast out h]
    rfl

/-- Two captions on one line, and one on another line of the other field. -/
def captions : List Record :=
  [.ofPayload .caption625Field1 22 [0x94, 0x2C], .ofPayload .caption625Field2 335 [0x20, 0x20],
    .ofPayload .caption625Field1 22 [0x94, 0x2F]]

/-- The same captions line by line. -/
def captionsByLine : List Record :=
  [.ofPayload .caption625Field1 22 [0x94, 0x2C], .ofPayload .caption625Field1 22 [0x94, 0x2F],
    .ofPayload .caption625Field2 335 [0x20, 0x20]]

/-- Room for a field pair of four lines, and three bytes behind it. -/
def captionBuffer : ByteArray := ⟨Array.replicate 440 0 ++ #[1, 2, 3]⟩

theorem exists_render_captions : ∃ out,
    (Decoder.interlacedSampling.render? captionBuffer 16 200 captions).run = some (.ok out) := by
  have hvalid : Decoder.interlacedSampling.Valid := rfl
  have hlong : Decoder.interlacedSampling.frameSize ≤ captionBuffer.size := by decide +kernel
  have hdrawable : ∀ record ∈ captions, Decoder.interlacedSampling.Drawable record := by
    decide +kernel
  have hsize : Decoder.interlacedSampling.frameSize? =
      some Decoder.interlacedSampling.frameSize := by decide +kernel
  obtain ⟨out, hout⟩ := exists_render_iff.mpr ⟨hvalid, hlong, hdrawable⟩
  exact ⟨out, render?_eq_ok_iff.mpr ⟨hsize, hout⟩⟩

theorem render_confined_captions : ∃ out,
    (Decoder.interlacedSampling.render? captionBuffer 16 200 captions).run = some (.ok out) ∧
      out.extract 440 out.size = captionBuffer.extract 440 captionBuffer.size ∧
      Decoder.interlacedSampling.rowAt out 1 =
        Decoder.interlacedSampling.format.layout.flatRow 110 16 ∧
      (Decoder.interlacedSampling.render? captionBuffer 16 200 captionsByLine).run =
        some (.ok out) := by
  have hunsent : ∀ record ∈ captions, Decoder.interlacedSampling.rowFor? record ≠ some 1 := by
    decide +kernel
  have hsize : Decoder.interlacedSampling.frameSize? = some 440 := by decide +kernel
  have htotal : Decoder.interlacedSampling.totalLines? = some 4 := by decide +kernel
  obtain ⟨out, hout⟩ := exists_render_captions
  obtain ⟨size, total, hsize', htotal', ⟨_, hbehind⟩, hblank, _, _, horder, _⟩ :=
    render_confined hout
  obtain rfl := Option.some.inj (hsize.symm.trans hsize')
  obtain rfl := Option.some.inj (htotal.symm.trans htotal')
  refine ⟨out, hout, hbehind, hblank 1 (by decide) hunsent, horder _ fun line => ?_⟩
  have hlines : (22 = line ∨ 335 = line) ∨ ¬ 22 = line ∧ ¬ 335 = line := by omega
  rcases hlines with (rfl | rfl) | ⟨hfirst, hsecond⟩
  · rfl
  · rfl
  · simp [captions, captionsByLine, Record.ofPayload, Record.ofId, hfirst, hsecond]

end Blanking.Sampling
