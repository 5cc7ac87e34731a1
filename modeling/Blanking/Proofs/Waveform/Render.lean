import Blanking.Proofs.Sampling.Checked
import Blanking.Proofs.Waveform.Rows
import Blanking.Waveform.Checked

/-! # The buffer of a drawn field pair

The rows of a field pair stand one after the other at the front of the buffer. So each part of the
buffer can be told by itself: the bytes of a row are those of the records of its line, and the bytes
behind the last row are those that were there. -/

namespace Blanking

open Decoder (bufferOf size_bufferOf rowAt_bufferOf)

/-! ## Rows in a buffer -/

theorem bufferOf_append (rows rows' : List ByteArray) :
    bufferOf (rows ++ rows') = bufferOf rows ++ bufferOf rows' := by
  simp [bufferOf, ByteArray.ext_iff]

theorem bufferOf_cons (row : ByteArray) (rest : List ByteArray) :
    bufferOf (row :: rest) = row ++ bufferOf rest := by
  simp [bufferOf, ByteArray.ext_iff]

theorem foldl_append_eq_bufferOf (rows : Array ByteArray) :
    rows.foldl (· ++ ·) ByteArray.empty = bufferOf rows.toList := by
  have happend (front : ByteArray) (rows : List ByteArray) :
      rows.foldl (· ++ ·) front = front ++ bufferOf rows := by
    induction rows generalizing front with
    | nil => exact ByteArray.append_empty.symm
    | cons row rest ih => rw [List.foldl_cons, ih, bufferOf_cons, ByteArray.append_assoc]
  rw [← Array.foldl_toList, happend, ByteArray.empty_append]

namespace Sampling

variable {s : Sampling} {blank white : UInt8}

theorem rowAt_append {front rest : ByteArray} {number : Nat}
    (h : (number + 1) * s.bytesPerLine ≤ front.size) :
    s.rowAt (front ++ rest) number = s.rowAt front number := by
  have hstart : number * s.bytesPerLine ≤ front.size :=
    Nat.le_trans (Nat.mul_le_mul_right _ number.le_succ) h
  have hnone : rest.extract 0 0 = ByteArray.empty := ByteArray.extract_same
  rw [rowAt, ByteArray.extract_append, Nat.sub_eq_zero_of_le hstart, Nat.sub_eq_zero_of_le h, hnone,
    ByteArray.append_empty, rowAt]

namespace HasRows

variable {rows : Array ByteArray} (h : s.HasRows rows)

include h

theorem size_of_mem : ∀ row ∈ rows.toList, row.size = s.bytesPerLine := by
  intro row hrow
  obtain ⟨number, hnumber⟩ := List.mem_iff_getElem?.mp hrow
  exact h.size_row number row (by rw [← hnumber, Array.getElem?_toList])

theorem size_bufferOf : (bufferOf rows.toList).size = s.frameSize := by
  rw [Decoder.size_bufferOf h.size_of_mem, Array.length_toList, h.size, frameSize, Nat.mul_comm]

theorem rowAt_bufferOf {number : Nat} {row : ByteArray} (hget : rows[number]? = some row)
    (rest : ByteArray) : s.rowAt (bufferOf rows.toList ++ rest) number = row := by
  have hlt : number < s.totalLines := h.size ▸ (Array.getElem?_eq_some_iff.mp hget).1
  rw [rowAt_append, Decoder.rowAt_bufferOf h.size_of_mem (by rw [Array.getElem?_toList, hget])]
  rw [h.size_bufferOf, frameSize, Nat.mul_comm]
  exact Nat.mul_le_mul_left _ hlt

/-- The rows take the place of as many bytes of a buffer, and the others stay. -/
theorem extract_append {raw : ByteArray} (hlong : s.frameSize ≤ raw.size) :
    (bufferOf rows.toList ++ raw.extract s.frameSize raw.size).size = raw.size ∧
      (bufferOf rows.toList ++ raw.extract s.frameSize raw.size).extract s.frameSize
          (bufferOf rows.toList ++ raw.extract s.frameSize raw.size).size =
        raw.extract s.frameSize raw.size := by
  have hsize := h.size_bufferOf
  refine ⟨?_, ByteArray.extract_append_eq_right hsize.symm ByteArray.size_append⟩
  rw [ByteArray.size_append, ByteArray.size_extract, Nat.min_self, hsize]
  exact Nat.add_sub_of_le hlong

end HasRows

/-! ## What is drawn -/

section Render

variable {raw out : ByteArray} {records : List Record}

theorem render_eq_ok_iff :
    s.render raw blank white records = .ok out ↔
      s.Valid ∧ s.frameSize ≤ raw.size ∧ ∃ drawn,
        s.drawRecords blank white (s.blankRows blank) records = .ok drawn ∧
          out = bufferOf drawn.toList ++ raw.extract s.frameSize raw.size := by
  unfold render Valid
  cases s.validate with
  | error cause => simp
  | ok =>
      dsimp only
      split
      next hshort => simp [Nat.not_le_of_lt hshort]
      next hlong =>
        cases s.drawRecords blank white (s.blankRows blank) records with
        | error cause => simp
        | ok drawn => simp [foldl_append_eq_bufferOf, Nat.le_of_not_lt hlong, eq_comm]

/-- What can be drawn does not depend on the levels, on the buffer or on the order of records. -/
theorem exists_render_iff :
    (∃ out, s.render raw blank white records = .ok out) ↔
      s.Valid ∧ s.frameSize ≤ raw.size ∧ ∀ record ∈ records, s.Drawable record := by
  simp only [render_eq_ok_iff]
  constructor
  · rintro ⟨out, hvalid, hsize, drawn, hdrawn, _⟩
    have hrows := hasRows_blankRows s blank
    have hrecords := (hrows.exists_drawRecords_iff hvalid blank white records).mp ⟨drawn, hdrawn⟩
    exact ⟨hvalid, hsize, hrecords⟩
  · rintro ⟨hvalid, hsize, hrecords⟩
    have hrows := hasRows_blankRows s blank
    obtain ⟨drawn, hdrawn⟩ := (hrows.exists_drawRecords_iff hvalid blank white records).mpr hrecords
    exact ⟨_, hvalid, hsize, drawn, hdrawn, rfl⟩

/-- The bytes behind the last row stay as they are. -/
theorem extract_of_render (h : s.render raw blank white records = .ok out) :
    out.size = raw.size ∧
      out.extract s.frameSize out.size = raw.extract s.frameSize raw.size := by
  obtain ⟨_, hlong, drawn, hdrawn, rfl⟩ := render_eq_ok_iff.mp h
  exact ((hasRows_blankRows s blank).drawRecords hdrawn).extract_append hlong

/-- The bytes of a row are those that its records draw onto blank samples. -/
theorem rowAt_of_render (h : s.render raw blank white records = .ok out) {number : Nat}
    (hnumber : number < s.totalLines) :
    (records.filter (s.rowFor? · == some number)).foldlM (s.drawOn blank white)
      (s.format.layout.flatRow s.samplesPerLine blank) = .ok (s.rowAt out number) := by
  obtain ⟨_, _, drawn, hdrawn, rfl⟩ := render_eq_ok_iff.mp h
  obtain ⟨_, hrows⟩ := getElem?_of_drawRecords hdrawn
  obtain ⟨row, hrow, hget⟩ := hrows number _ (getElem?_blankRows hnumber)
  rw [((hasRows_blankRows s blank).drawRecords hdrawn).rowAt_bufferOf hget]
  exact hrow

/-- A line shows the records with its number. -/
theorem rowOf_of_render (h : s.render raw blank white records = .ok out) {line : Nat}
    {field : Field} {index : Nat} (hlocate : s.locate? line = some (field, index)) :
    (records.filter (·.line = line)).foldlM (s.drawOn blank white)
      (s.format.layout.flatRow s.samplesPerLine blank) = .ok (s.rowOf out field index) := by
  have hvalid := (render_eq_ok_iff.mp h).1
  rw [← filter_rowFor? hlocate, rowOf_eq_rowAt]
  exact rowAt_of_render h (hvalid.row_lt (mem_of_locate? hlocate).2.1)

/-- What is drawn does not depend on what was in the buffer. -/
theorem render_of_render (h : s.render raw blank white records = .ok out) {raw' : ByteArray}
    (hsize : s.frameSize ≤ raw'.size) :
    ∃ out', s.render raw' blank white records = .ok out' ∧
      out'.extract 0 s.frameSize = out.extract 0 s.frameSize := by
  obtain ⟨hvalid, _, drawn, hdrawn, rfl⟩ := render_eq_ok_iff.mp h
  have hfront := ((hasRows_blankRows s blank).drawRecords hdrawn).size_bufferOf
  refine ⟨_, render_eq_ok_iff.mpr ⟨hvalid, hsize, drawn, hdrawn, rfl⟩, ?_⟩
  rw [ByteArray.extract_append_eq_left hfront.symm, ByteArray.extract_append_eq_left hfront.symm]

/-- Records of other lines may be drawn before or after those of a line. -/
theorem render_congr (h : s.render raw blank white records = .ok out) {records' : List Record}
    (hlines : ∀ line, records'.filter (·.line = line) = records.filter (·.line = line)) :
    s.render raw blank white records' = .ok out := by
  have hmem (record : Record) : record ∈ records' ↔ record ∈ records := by
    simpa using congrArg (record ∈ ·) (hlines record.line)
  obtain ⟨hvalid, hsize, drawn, hdrawn, rfl⟩ := render_eq_ok_iff.mp h
  have hblank := hasRows_blankRows s blank
  have hrecords := (hblank.exists_drawRecords_iff hvalid blank white records).mp ⟨drawn, hdrawn⟩
  obtain ⟨drawn', hdrawn'⟩ := (hblank.exists_drawRecords_iff hvalid blank white records').mpr
    fun record hrecord => hrecords record ((hmem record).mp hrecord)
  rw [eq_of_drawRecords hdrawn hdrawn' (filter_rowFor?_congr hlines)] at hdrawn'
  exact render_eq_ok_iff.mpr ⟨hvalid, hsize, drawn, hdrawn', rfl⟩

/-- In words the same is drawn, as long as the field pair has a size. -/
theorem render?_eq_ok_iff :
    (s.render? raw blank white records).run = some (.ok out) ↔
      s.frameSize? = some s.frameSize ∧ s.render raw blank white records = .ok out := by
  constructor
  · intro h
    obtain ⟨_, _, h⟩ := Checked.bind_eq_ok h
    obtain ⟨size, hsize, h⟩ := Checked.ofOption_bind_eq_some_iff.mp h
    obtain ⟨_, _, _, rfl⟩ := frameSize?_eq_some_iff.mp hsize
    split at h
    next => exact absurd h (by simp)
    next => exact ⟨hsize, Option.some.inj h⟩
  · rintro ⟨hsize, h⟩
    obtain ⟨hvalid, hlong, _⟩ := render_eq_ok_iff.mp h
    rw [render?, Checked.run_bind_of_ok (Checked.run_adapt_eq_ok_iff.mpr (run_validate? hvalid)),
      hsize, Checked.run_ofOption_bind, if_neg (Nat.not_lt.mpr hlong), h]
    rfl

end Render

end Sampling

end Blanking
