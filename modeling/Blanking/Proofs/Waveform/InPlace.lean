import Mathlib.Data.List.Basic
import Blanking.Proofs.Waveform.Render

/-! # Drawing in a buffer

Records are drawn sample by sample in one buffer, with a check of every access: there is no result
where a sample is outside of its row, or a row outside of the buffer. No such access is made. What
is left in the buffer is told also where drawing stops at a record that cannot be drawn: the rows
are drawn as far as that, and the bytes behind them are as they were. -/

namespace Blanking.Sampling.InPlace

open Decoder (bufferOf)

/-! ## Operations -/

/-- Draws a sample of a row. -/
def write? (s : Sampling) (number index : Nat) (level : UInt8) (raw : ByteArray) :
    Option ByteArray :=
  let stride := s.format.layout.storage.stride
  if number * s.bytesPerLine + s.bytesPerLine ≤ raw.size ∧
      (index + 1) * stride ≤ s.bytesPerLine then
    some (putBytes raw (number * s.bytesPerLine + index * stride) (s.format.layout.encode level))
  else none

/-- Draws a row without any signal. -/
def blankRow? (s : Sampling) (blank : UInt8) (number : Nat) (raw : ByteArray) : Option ByteArray :=
  (List.range s.samplesPerLine).foldlM (fun raw index => write? s number index blank raw) raw

/-- Draws as many rows without any signal as there are in a field pair. -/
def blankRows? (s : Sampling) (blank : UInt8) (raw : ByteArray) : Option ByteArray :=
  if s.bytesPerLine = 0 then none
  else
    (List.range (s.frameSize / s.bytesPerLine)).foldlM
      (fun raw number => blankRow? s blank number raw) raw

/-- Draws a sample of a row if the signal reaches into it. -/
def drawSample? (s : Sampling) (w : Waveform) (start : Float) (blank white : UInt8)
    (number index : Nat) (raw : ByteArray) : Option ByteArray :=
  let rate := Double.ofNat s.rate
  let centre := Double.ofNat index / rate - start
  if centre < -1 / rate || w.duration + 1 / rate < centre then some raw
  else write? s number index (Waveform.mean blank white (w.highPoints rate centre)) raw

/-- Draws the transmission of a payload onto a row. -/
def drawLine? (s : Sampling) (number : Nat) (t : Transmission) (payload : List UInt8)
    (blank white : UInt8) (raw : ByteArray) : Option (ByteArray × Except RenderError Unit) :=
  if raw.size < number * s.bytesPerLine + s.bytesPerLine then none
  else if s.bytesPerLine < s.samplesPerLine * s.format.bytesPerSample then
    some (raw, .error (.rowTooShort s.samplesPerLine s.bytesPerLine))
  else
    match Waveform.ofPayload t payload with
    | .error cause => some (raw, .error cause)
    | .ok waveform =>
        let start := t.start - Double.ofNat s.offset / Double.ofNat s.rate
        ((List.range s.samplesPerLine).foldlM
          (fun raw index => drawSample? s waveform start blank white number index raw) raw).map
            (·, .ok ())

/-- Draws records one after the other, up to one that cannot be drawn. -/
def drawRecords? (s : Sampling) (blank white : UInt8) :
    List Record → ByteArray → Option (ByteArray × Except RenderError Unit)
  | [], raw => some (raw, .ok ())
  | record :: rest, raw =>
      match record.service? with
      | none => some (raw, .error (.notOneService record.id))
      | some service =>
          match s.locate? record.line with
          | none => some (raw, .error (.notSampled service record.line))
          | some (field, index) =>
              match drawLine? s (s.row field index) service.transmission record.data.toList
                  blank white raw with
              | none => none
              | some (raw, .error cause) => some (raw, .error cause)
              | some (raw, .ok ()) => drawRecords? s blank white rest raw

/-- Draws records into a buffer, whose first bytes become a field pair with these records. -/
def render? (s : Sampling) (blank white : UInt8) (records : List Record) (raw : ByteArray) :
    Option (ByteArray × Except RenderError Unit) :=
  match s.validate with
  | .error cause => some (raw, .error (.sampling cause))
  | .ok () =>
      if raw.size < s.frameSize then some (raw, .error (.rawTooShort s.frameSize raw.size))
      else (blankRows? s blank raw).bind (drawRecords? s blank white records)

variable {s : Sampling} {blank white : UInt8}

/-! ## Samples of a row -/

section Row

variable {front row rest : ByteArray} {number index : Nat}

theorem write?_append (hfront : front.size = number * s.bytesPerLine)
    (hrow : row.size = s.bytesPerLine) (hindex : index < s.samplesPerLine) (level : UInt8) :
    write? s number index level (front ++ row ++ rest) =
      some (front ++ s.format.layout.write row index level ++ rest) := by
  have hstride : (index + 1) * s.format.layout.storage.stride ≤ s.bytesPerLine :=
    Nat.mul_le_mul_right _ hindex
  have hsize : number * s.bytesPerLine + s.bytesPerLine ≤ (front ++ row ++ rest).size := by
    rw [ByteArray.size_append, ByteArray.size_append, hfront, hrow]
    exact Nat.le_add_right _ _
  have hplace : index * s.format.layout.storage.stride + (s.format.layout.encode level).length ≤
      row.size := by
    rw [Layout.length_encode, ← Nat.succ_mul, hrow]
    exact hstride
  dsimp only [write?]
  rw [if_pos ⟨hsize, hstride⟩, ← hfront, putBytes_append _ _ hplace, Layout.write]

theorem drawSample?_append (hfront : front.size = number * s.bytesPerLine)
    (hrow : row.size = s.bytesPerLine) (rest : ByteArray) (w : Waveform) (start : Float)
    (blank white : UInt8) {left : Nat} (hleft : left ≤ s.samplesPerLine) :
    (List.range' (s.samplesPerLine - left) left).foldlM
        (fun raw index => drawSample? s w start blank white number index raw)
        (front ++ row ++ rest) =
      some (front ++ w.drawSamples s.format.layout (Double.ofNat s.rate) start blank white
        s.samplesPerLine left row ++ rest) := by
  induction left generalizing row with
  | zero => rfl
  | succ left ih =>
      have hindex : s.samplesPerLine - (left + 1) < s.samplesPerLine := by omega
      have hnext : s.samplesPerLine - (left + 1) + 1 = s.samplesPerLine - left := by omega
      rw [List.range'_succ, hnext, List.foldlM_cons, Waveform.drawSamples]
      dsimp only [drawSample?]
      split
      next => exact ih hrow (Nat.le_of_succ_le hleft)
      next =>
        rw [write?_append hfront hrow hindex]
        exact ih ((Layout.size_write _ _ row _).trans hrow) (Nat.le_of_succ_le hleft)

/-- Drawing a row of a buffer does as drawing it by itself. -/
theorem drawLine?_append (hfront : front.size = number * s.bytesPerLine)
    (hrow : row.size = s.bytesPerLine) (rest : ByteArray) (t : Transmission)
    (payload : List UInt8) (blank white : UInt8) :
    drawLine? s number t payload blank white (front ++ row ++ rest) =
      match s.drawLine row t payload blank white with
      | .error cause => some (front ++ row ++ rest, .error cause)
      | .ok drawn => some (front ++ drawn ++ rest, .ok ()) := by
  have hsize : ¬ (front ++ row ++ rest).size < number * s.bytesPerLine + s.bytesPerLine := by
    rw [ByteArray.size_append, ByteArray.size_append, hfront, hrow]
    exact Nat.not_lt_of_le (Nat.le_add_right _ _)
  rw [drawLine?, if_neg hsize, drawLine, hrow]
  split
  next => rfl
  next =>
    cases Waveform.ofPayload t payload with
    | error cause => rfl
    | ok w =>
        dsimp only
        rw [List.range_eq_range']
        have hdraw := drawSample?_append hfront hrow rest w
          (t.start - Double.ofNat s.offset / Double.ofNat s.rate) blank white
          (Nat.le_refl s.samplesPerLine)
        rw [Nat.sub_self] at hdraw
        rw [hdraw]
        rfl

end Row

/-! ## Rows without any signal -/

theorem bufferOf_replicate_flatRow (layout : Layout) (lines samples : Nat) (level : UInt8) :
    bufferOf (List.replicate lines (layout.flatRow samples level)) =
      layout.flatRow (lines * samples) level := by
  induction lines with
  | zero => rw [Nat.zero_mul]; rfl
  | succ lines ih =>
      rw [List.replicate_succ, bufferOf_cons, ih, Nat.succ_mul, Nat.add_comm, Layout.flatRow_add]

/-- A buffer whose first samples are blank and whose other bytes are those of another one. -/
def blanked (s : Sampling) (blank : UInt8) (raw : ByteArray) (samples : Nat) : ByteArray :=
  s.format.layout.flatRow samples blank ++
    raw.extract (samples * s.format.bytesPerSample) raw.size

theorem blanked_zero (raw : ByteArray) : blanked s blank raw 0 = raw := by
  have hnone : s.format.layout.flatRow 0 blank = ByteArray.empty := rfl
  rw [blanked, Nat.zero_mul, ByteArray.extract_zero_size, hnone, ByteArray.empty_append]

theorem size_blanked {raw : ByteArray} {samples : Nat}
    (h : samples * s.format.bytesPerSample ≤ raw.size) :
    (blanked s blank raw samples).size = raw.size := by
  rw [blanked, ByteArray.size_append, Layout.size_flatRow, ByteArray.size_extract, Nat.min_self]
  exact Nat.add_sub_of_le h

/-- Another blank sample takes the bytes behind those there are. -/
theorem putBytes_blanked {raw : ByteArray} {samples : Nat}
    (h : (samples + 1) * s.format.bytesPerSample ≤ raw.size) :
    putBytes (blanked s blank raw samples) (samples * s.format.bytesPerSample)
      (s.format.layout.encode blank) = blanked s blank raw (samples + 1) := by
  set bytes := s.format.bytesPerSample with hbytes
  have hle : samples * bytes ≤ (samples + 1) * bytes := Nat.mul_le_mul_right _ samples.le_succ
  have hfront : (s.format.layout.flatRow samples blank).size = samples * bytes :=
    Layout.size_flatRow _ _ _
  have hlength : (s.format.layout.encode blank).length =
      (raw.extract (samples * bytes) ((samples + 1) * bytes)).size := by
    rw [Layout.length_encode, ByteArray.size_extract, Nat.min_eq_left h, Nat.succ_mul,
      Nat.add_sub_cancel_left]
    rfl
  have hsplit : raw.extract (samples * bytes) raw.size =
      raw.extract (samples * bytes) ((samples + 1) * bytes) ++
        raw.extract ((samples + 1) * bytes) raw.size := by
    rw [ByteArray.extract_append_extract, Nat.min_eq_left hle, Nat.max_eq_right h]
  have hput := putBytes_append (s.format.layout.flatRow samples blank)
    (raw.extract ((samples + 1) * bytes) raw.size) ((Nat.zero_add _).trans_le hlength.le)
  rw [hfront, Nat.add_zero (samples * bytes), putBytes_zero hlength] at hput
  rw [blanked, hsplit, ← ByteArray.append_assoc, hput, blanked, Layout.flatRow_succ]

section Blank

variable {raw : ByteArray} (hsize : s.frameSize ≤ raw.size)

include hsize

theorem write?_blanked {number index : Nat} (hnumber : number < s.totalLines)
    (hindex : index < s.samplesPerLine) :
    write? s number index blank (blanked s blank raw (number * s.samplesPerLine + index)) =
      some (blanked s blank raw (number * s.samplesPerLine + index + 1)) := by
  have hrow : number * s.bytesPerLine + s.bytesPerLine ≤ raw.size := by
    refine Nat.le_trans ?_ hsize
    rw [← Nat.succ_mul, frameSize, Nat.mul_comm s.bytesPerLine]
    exact Nat.mul_le_mul_right _ hnumber
  have hindex : (index + 1) * s.format.bytesPerSample ≤ s.bytesPerLine :=
    Nat.mul_le_mul_right _ hindex
  have hplace : number * s.bytesPerLine + index * s.format.bytesPerSample =
      (number * s.samplesPerLine + index) * s.format.bytesPerSample := by
    rw [bytesPerLine, Nat.add_mul, Nat.mul_assoc]
  have hlast : (number * s.samplesPerLine + index + 1) * s.format.bytesPerSample ≤ raw.size := by
    rw [Nat.succ_mul] at hindex ⊢
    omega
  have hfits : (number * s.samplesPerLine + index) * s.format.bytesPerSample ≤ raw.size :=
    Nat.le_trans (Nat.mul_le_mul_right _ (Nat.le_succ _)) hlast
  dsimp only [write?]
  rw [if_pos ⟨by rw [size_blanked hfits]; exact hrow, hindex⟩, ← putBytes_blanked hlast, ← hplace]
  rfl

theorem blankRow?_blanked {number : Nat} (hnumber : number < s.totalLines) :
    blankRow? s blank number (blanked s blank raw (number * s.samplesPerLine)) =
      some (blanked s blank raw ((number + 1) * s.samplesPerLine)) := by
  have hpart (samples : Nat) (h : samples ≤ s.samplesPerLine) :
      (List.range samples).foldlM (fun raw index => write? s number index blank raw)
          (blanked s blank raw (number * s.samplesPerLine)) =
        some (blanked s blank raw (number * s.samplesPerLine + samples)) := by
    induction samples with
    | zero => rfl
    | succ samples ih =>
        rw [List.range_succ, List.foldlM_append, ih (Nat.le_of_succ_le h)]
        simp [write?_blanked hsize hnumber h, Nat.add_assoc]
  rw [blankRow?, hpart _ (Nat.le_refl _), Nat.succ_mul]

/-- Row after row, the front of a buffer becomes a field pair without any signal. -/
theorem blankRows?_eq (hvalid : s.Valid) :
    blankRows? s blank raw =
      some (bufferOf (s.blankRows blank).toList ++ raw.extract s.frameSize raw.size) := by
  have hpart (lines : Nat) (h : lines ≤ s.totalLines) :
      (List.range lines).foldlM (fun raw number => blankRow? s blank number raw) raw =
        some (blanked s blank raw (lines * s.samplesPerLine)) := by
    induction lines with
    | zero => rw [Nat.zero_mul, blanked_zero]; rfl
    | succ lines ih =>
        rw [List.range_succ, List.foldlM_append, ih (Nat.le_of_succ_le h)]
        simp [blankRow?_blanked hsize h]
  have hpos : 0 < s.bytesPerLine :=
    Nat.mul_pos (Nat.pos_of_ne_zero (valid_iff.mp hvalid).2.1) s.format.bytesPerSample_pos
  have hframe : s.totalLines * s.samplesPerLine * s.format.bytesPerSample = s.frameSize := by
    rw [frameSize, bytesPerLine, Nat.mul_assoc, Nat.mul_comm]
  rw [blankRows?, if_neg hpos.ne', frameSize, Nat.mul_div_cancel_left _ hpos,
    hpart _ (Nat.le_refl _), blanked, hframe, blankRows, Array.toList_replicate,
    bufferOf_replicate_flatRow, frameSize]

end Blank

/-! ## Records -/

section Records

variable {rows : Array ByteArray} {rest : ByteArray}

/-- A line is drawn onto its row, and the other rows and the bytes behind them stay. -/
theorem drawLine?_rows (hrows : s.HasRows rows) {number : Nat} {row : ByteArray}
    (hget : rows[number]? = some row) (t : Transmission) (payload : List UInt8) :
    drawLine? s number t payload blank white (bufferOf rows.toList ++ rest) =
      match s.drawLine row t payload blank white with
      | .error cause => some (bufferOf rows.toList ++ rest, .error cause)
      | .ok drawn => some (bufferOf (rows.setIfInBounds number drawn).toList ++ rest, .ok ()) := by
  have hget' : rows.toList[number]? = some row := by rw [Array.getElem?_toList, hget]
  obtain ⟨hlt, rfl⟩ := List.getElem?_eq_some_iff.mp hget'
  have hset (drawn : ByteArray) : bufferOf (rows.toList.set number drawn) ++ rest =
      bufferOf (rows.toList.take number) ++ drawn ++
        (bufferOf (rows.toList.drop (number + 1)) ++ rest) := by
    rw [List.set_eq_take_append_cons_drop, if_pos hlt, bufferOf_append, bufferOf_cons]
    simp only [ByteArray.append_assoc]
  have hfront : (bufferOf (rows.toList.take number)).size = number * s.bytesPerLine := by
    rw [Decoder.size_bufferOf fun row hrow => hrows.size_of_mem row (List.mem_of_mem_take hrow),
      List.length_take_of_le hlt.le]
  have hrow := hrows.size_of_mem _ (List.getElem_mem hlt)
  have hdraw := drawLine?_append hfront hrow (bufferOf (rows.toList.drop (number + 1)) ++ rest) t
    payload blank white
  rw [← hset, List.set_getElem_self] at hdraw
  rw [hdraw]
  split
  next => rfl
  next => rw [← hset, Array.toList_setIfInBounds]

/-- Records are drawn onto the rows up to one that cannot be drawn. -/
theorem drawRecords?_rows (hvalid : s.Valid) (hrows : s.HasRows rows) (rest : ByteArray)
    (blank white : UInt8) (records : List Record) :
    ∃ drawn, s.HasRows drawn ∧
      drawRecords? s blank white records (bufferOf rows.toList ++ rest) =
        some (bufferOf drawn.toList ++ rest,
          (s.drawRecords blank white rows records).map fun _ => ()) ∧
      ∀ last, s.drawRecords blank white rows records = .ok last → drawn = last := by
  induction records generalizing rows with
  | nil => exact ⟨rows, hrows, rfl, fun last hlast => Except.ok.inj hlast⟩
  | cons record records ih =>
      rw [drawRecords?, Sampling.drawRecords]
      cases hservice : record.service? with
      | none =>
          rw [drawRecord, hservice]
          exact ⟨rows, hrows, rfl, fun last hlast => by cases hlast⟩
      | some service =>
          cases hlocate : s.locate? record.line with
          | none =>
              rw [drawRecord, hservice, hlocate]
              exact ⟨rows, hrows, rfl, fun last hlast => by cases hlast⟩
          | some site =>
              obtain ⟨field, index⟩ := site
              have hlt := hvalid.row_lt (mem_of_locate? hlocate).2.1
              obtain ⟨row, hget⟩ : ∃ row, rows[s.row field index]? = some row :=
                ⟨_, Array.getElem?_eq_getElem (hrows.size.symm ▸ hlt)⟩
              have hrecord : s.drawRecord blank white rows record =
                  (s.drawLine row service.transmission record.data.toList blank white).map
                    (rows.setIfInBounds (s.row field index)) := by
                rw [drawRecord, hservice, hlocate]
                dsimp only
                rw [hget, Option.getD_some]
                cases s.drawLine row service.transmission record.data.toList blank white <;> rfl
              dsimp only
              rw [hrecord, drawLine?_rows hrows hget]
              cases hline : s.drawLine row service.transmission record.data.toList blank white with
              | error cause => exact ⟨rows, hrows, rfl, fun last hlast => by cases hlast⟩
              | ok drawn => exact ih (hrows.drawRecord (hrecord.trans (by rw [hline]; rfl)))

end Records

/-- Drawing in a buffer is drawing row by row. Where it fails, the bytes behind the rows are left as
they were, too. -/
theorem render?_eq (s : Sampling) (blank white : UInt8) (records : List Record)
    (raw : ByteArray) :
    ∃ memory, render? s blank white records raw =
        some (memory, (s.render raw blank white records).map fun _ => ()) ∧
      memory.size = raw.size ∧
      memory.extract s.frameSize memory.size = raw.extract s.frameSize raw.size ∧
      ∀ out, s.render raw blank white records = .ok out → memory = out := by
  unfold render? render
  cases hvalid : s.validate with
  | error cause => exact ⟨raw, rfl, rfl, rfl, fun out hout => by cases hout⟩
  | ok =>
      dsimp only
      split
      next => exact ⟨raw, rfl, rfl, rfl, fun out hout => by cases hout⟩
      next hlong =>
        have hlong := Nat.le_of_not_lt hlong
        obtain ⟨drawn, hdrawn, hrecords, hlast⟩ := drawRecords?_rows hvalid
          (hasRows_blankRows s blank) (raw.extract s.frameSize raw.size) blank white records
        obtain ⟨hsize, hrest⟩ := hdrawn.extract_append hlong
        refine ⟨_, ?_, hsize, hrest, ?_⟩
        · rw [blankRows?_eq hlong hvalid, Option.bind_some, hrecords]
          cases s.drawRecords blank white (s.blankRows blank) records <;> rfl
        · intro out hout
          cases hrows : s.drawRecords blank white (s.blankRows blank) records with
          | error cause => rw [hrows] at hout; cases hout
          | ok last =>
              rw [hrows] at hout
              rw [hlast last hrows, ← Except.ok.inj hout, foldl_append_eq_bufferOf]

end Blanking.Sampling.InPlace
