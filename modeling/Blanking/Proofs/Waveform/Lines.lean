import Blanking.Proofs.Decoder.Checked
import Blanking.Proofs.Decoder.Order
import Blanking.Proofs.Waveform.Confinement

/-! # Lines that are drawn and lines that are decoded

Drawing looks for the row of a line number, decoding for the line number of a row. Both are about
the same lines: each sampled line has one row, and where line numbers are known and the fields can
be told apart, a record is drawn onto the row whose records a decoder gives its number. -/

namespace Blanking.Sampling

variable {s : Sampling}

/-- Whether decoders give a line number to what they find on one sampled line, and only to that. -/
def DecodedFrom (s : Sampling) (line : Nat) (site : Field × Nat) : Prop :=
  ∀ d : Decoder, Decoder.InWords.Reachable d → d.sampling = s → ∀ capacity raw next records,
    (Decoder.InWords.decode d capacity raw).run = some (.ok (next, records)) → ∃ origins,
      List.Forall₂ (fun origin record => d.WrittenFor capacity raw origin record ∧
        (record.line = line ↔ origin = site)) origins records

theorem mem_lines_of_writtenFor {d : Decoder} {capacity : Nat} {raw : ByteArray}
    {site : Field × Nat} {record : Record} (h : d.WrittenFor capacity raw site record) :
    site ∈ d.sampling.lines ∧ record.line = d.sampling.lineNumber site.1 site.2 := by
  obtain ⟨position, number, job, next, data, service, ⟨hsite, _⟩, _, _, rfl⟩ := h
  exact ⟨(getElem?_sites.mp hsite).1, rfl⟩

theorem Valid.decodedFrom (h : s.Valid) (hsync : s.synchronous = true) {line : Nat} {field : Field}
    {index : Nat} (hlocate : s.locate? line = some (field, index)) :
    s.DecodedFrom line (field, index) := by
  rintro d hd rfl capacity raw next records hdecode
  obtain ⟨_, _, rfl⟩ :=
    Decoder.decode_eq_ok (hd.reachable.sound.decode_agrees _ hdecode).symm
  have horigins := hd.reachable.consistent.forall₂_writtenFor capacity raw
  have hline : line ≠ 0 := by
    obtain ⟨hstart, _, rfl⟩ := mem_of_locate? hlocate
    omega
  refine ⟨_, horigins.imp fun origin record hwritten => ⟨hwritten, ?_⟩⟩
  obtain ⟨hmem, hnumber⟩ := mem_lines_of_writtenFor hwritten
  have hfound := h.locate?_eq_some_iff hsync hline hmem
  rw [hnumber, ← hfound, hlocate, Option.some.injEq, eq_comm]

/-- Another record is drawn onto the row of its line, and no other row changes. -/
theorem render_append_singleton {blank white : UInt8} {raw out' : ByteArray}
    {records : List Record} {record : Record}
    (h : s.render raw blank white (records ++ [record]) = .ok out') :
    ∃ out field index, s.render raw blank white records = .ok out ∧
      s.locate? record.line = some (field, index) ∧
      s.drawOn blank white (s.rowOf out field index) record = .ok (s.rowOf out' field index) ∧
      ∀ number < s.totalLines, number ≠ s.row field index →
        s.rowAt out' number = s.rowAt out number := by
  obtain ⟨hvalid, hsize, hdrawable⟩ := exists_render_iff.mp ⟨out', h⟩
  obtain ⟨out, hout⟩ := exists_render_iff.mpr ⟨hvalid, hsize, fun earlier hearlier =>
    hdrawable earlier (List.mem_append_left _ hearlier)⟩
  obtain ⟨_, hsome⟩ := hdrawable record (List.mem_append_right _ List.mem_cons_self)
  obtain ⟨⟨field, index⟩, hlocate⟩ := Option.isSome_iff_exists.mp hsome
  refine ⟨out, field, index, hout, hlocate, ?_, fun number hnumber hother => ?_⟩
  · have hrow := rowOf_of_render h hlocate
    rw [List.filter_append, List.filter_singleton, decide_eq_true rfl, Bool.cond_true,
      List.foldlM_append, rowOf_of_render hout hlocate] at hrow
    have hlast : [record].foldlM (s.drawOn blank white) (s.rowOf out field index) =
        .ok (s.rowOf out' field index) := hrow
    simp only [List.foldlM_cons, List.foldlM_nil, bind_pure] at hlast
    exact hlast
  · have hrow := rowAt_of_render h hnumber
    have hnot : (s.rowFor? record == some number) = false := by
      simpa [rowFor?, hlocate] using Ne.symm hother
    rw [List.filter_append, List.filter_singleton, hnot, Bool.cond_false, List.append_nil,
      rowAt_of_render hout hnumber] at hrow
    exact (Except.ok.inj hrow).symm

theorem lines_agree (h : s.validate?.run = some (.ok ())) :
    (∀ total, s.totalLines? = some total →
      Set.BijOn (fun site => s.row site.1 site.2) s.lines (Set.Iio total)) ∧
    (∀ line field index, s.locate? line = some (field, index) →
      index < s.count.on field ∧ s.start.on field + index = line) ∧
    (∀ field index, 0 < s.start.on field → index < s.count.on field →
      s.locate? (s.start.on field + index) = some (field, index)) ∧
    (s.synchronous = true → ∀ blank white raw records record out',
      (s.render? raw blank white (records ++ [record])).run = some (.ok out') →
        ∃ total out field index, s.totalLines? = some total ∧
          (s.render? raw blank white records).run = some (.ok out) ∧
          index < s.count.on field ∧ s.lineNumber field index = record.line ∧
          s.drawOn blank white (s.rowOf out field index) record = .ok (s.rowOf out' field index) ∧
          (∀ number < total, number ≠ s.row field index →
            s.rowAt out' number = s.rowAt out number) ∧
          s.DecodedFrom record.line (field, index)) := by
  have hvalid : s.Valid := validate?_eq_ok_iff.mp h
  refine ⟨?_, fun line field index hlocate => (mem_of_locate? hlocate).2,
    fun field index => hvalid.locate?_start_add, ?_⟩
  · intro total htotal
    obtain ⟨_, rfl⟩ := totalLines?_eq_some_iff.mp htotal
    exact hvalid.bijOn_row
  · intro hsync blank white raw records record out' hrender
    obtain ⟨hsize, hrender⟩ := render?_eq_ok_iff.mp hrender
    obtain ⟨_, htotal, _⟩ := frameSize?_eq_some_iff.mp hsize
    obtain ⟨out, field, index, hout, hlocate, hdrawn, hothers⟩ := render_append_singleton hrender
    obtain ⟨hstart, hindex, hline⟩ := mem_of_locate? hlocate
    have hnumber : s.lineNumber field index = record.line :=
      (hvalid.locate?_eq_some_iff hsync (by omega) hindex).mp hlocate
    exact ⟨_, out, field, index, totalLines?_eq_some_iff.mpr ⟨htotal, rfl⟩,
      render?_eq_ok_iff.mpr ⟨hsize, hout⟩, hindex, hnumber, hdrawn, hothers,
      hvalid.decodedFrom hsync hlocate⟩

/-- The last caption is drawn onto the row that is decoded as its line. -/
theorem lines_agree_captions :
    Decoder.interlacedSampling.validate?.run = some (.ok ()) ∧
      Decoder.interlacedSampling.synchronous = true ∧
      Set.BijOn (fun site => Decoder.interlacedSampling.row site.1 site.2)
        Decoder.interlacedSampling.lines (Set.Iio 4) ∧
      ∃ out out' field index,
        (Decoder.interlacedSampling.render? captionBuffer 16 200 captions.dropLast).run =
          some (.ok out) ∧
        (Decoder.interlacedSampling.render? captionBuffer 16 200 captions).run =
          some (.ok out') ∧
        Decoder.interlacedSampling.lineNumber field index = 22 ∧
        (∀ number < 4, number ≠ Decoder.interlacedSampling.row field index →
          Decoder.interlacedSampling.rowAt out' number =
            Decoder.interlacedSampling.rowAt out number) ∧
        Decoder.interlacedSampling.DecodedFrom 22 (field, index) := by
  have hvalid : Decoder.interlacedSampling.validate?.run = some (.ok ()) :=
    run_validate? (show Decoder.interlacedSampling.Valid from rfl)
  have htotal : Decoder.interlacedSampling.totalLines? = some 4 := by decide +kernel
  obtain ⟨out', hout'⟩ := exists_render_captions
  obtain ⟨hrows, _, _, hdrawn⟩ := lines_agree hvalid
  obtain ⟨total, out, field, index, htotal', hout, _, hnumber, _, hothers, hdecoded⟩ :=
    hdrawn rfl 16 200 captionBuffer captions.dropLast
      (.ofPayload .caption625Field1 22 [0x94, 0x2F]) out' hout'
  obtain rfl := Option.some.inj (htotal.symm.trans htotal')
  exact ⟨hvalid, rfl, hrows 4 htotal, out, out', field, index, hout, hout', hnumber, hothers,
    hdecoded⟩

end Blanking.Sampling
