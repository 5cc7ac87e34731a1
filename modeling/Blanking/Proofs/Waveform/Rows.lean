import Mathlib.Data.List.Basic
import Blanking.Waveform
import Blanking.Proofs.Decoder.Interlaced
import Blanking.Proofs.Sample.Bytes
import Blanking.Proofs.Sampling.Rows

/-! # Rows of a drawn field pair

Each record is drawn onto the row of its line. So a row shows the records of one line, one after the
other, on a row of blank samples, and whether a record can be drawn depends neither on the row nor
on the other records. -/

namespace Blanking

@[simp]
theorem Waveform.size_drawSamples (w : Waveform) (layout : Layout) (rate start : Float)
    (blank white : UInt8) (samples left : Nat) (row : ByteArray) :
    (w.drawSamples layout rate start blank white samples left row).size = row.size := by
  induction left generalizing row with
  | zero => rfl
  | succ left ih =>
      rw [drawSamples, ih]
      split
      next => rfl
      next => exact layout.size_write _ row _

namespace Sampling

variable {s : Sampling} {blank white : UInt8}

/-! ## One row -/

/-- Draws a record onto a row. -/
def drawOn (s : Sampling) (blank white : UInt8) (row : ByteArray) (record : Record) :
    Except RenderError ByteArray :=
  match record.service? with
  | none => .error (.notOneService record.id)
  | some service => s.drawLine row service.transmission record.data.toList blank white

theorem size_of_drawLine {t : Transmission} {payload : List UInt8} {row drawn : ByteArray}
    (h : s.drawLine row t payload blank white = .ok drawn) : drawn.size = row.size := by
  unfold drawLine at h
  split at h
  next => cases h
  next =>
    split at h
    next => cases h
    next =>
      obtain rfl := Except.ok.inj h
      exact Waveform.size_drawSamples _ _ _ _ _ _ _ _ _

/-- A record has room for the payload of each service. -/
theorem bytesFor_payload_le (service : Service) :
    Payload.bytesFor service.transmission.payload ≤ recordBytes := by
  cases service <;> decide

theorem size_of_drawOn {row drawn : ByteArray} {record : Record}
    (h : s.drawOn blank white row record = .ok drawn) : drawn.size = row.size := by
  unfold drawOn at h
  split at h
  next => cases h
  next => exact size_of_drawLine h

/-- Whether a record can be drawn onto a row does not depend on the samples that are there. -/
theorem exists_drawOn_iff {row : ByteArray} (hsize : row.size = s.bytesPerLine)
    (blank white : UInt8) (record : Record) :
    (∃ drawn, s.drawOn blank white row record = .ok drawn) ↔ record.service?.isSome := by
  unfold drawOn
  cases record.service? with
  | none => simp
  | some service =>
      have hlong : ¬ row.size < s.samplesPerLine * s.format.bytesPerSample :=
        hsize ▸ Nat.lt_irrefl s.bytesPerLine
      have hpayload :
          ¬ record.data.toList.length < Payload.bytesFor service.transmission.payload := by
        rw [Vector.length_toList]
        exact Nat.not_lt_of_le (bytesFor_payload_le service)
      dsimp only
      rw [drawLine, if_neg hlong, Waveform.ofPayload, Payload.toBits, if_neg hpayload]
      exact ⟨fun _ => rfl, fun _ => ⟨_, rfl⟩⟩

/-! ## All rows -/

/-- The row that a record is drawn onto. -/
def rowFor? (s : Sampling) (record : Record) : Option Nat :=
  (s.locate? record.line).map fun site => s.row site.1 site.2

theorem drawRecord_eq_ok_iff {rows drawn : Array ByteArray} {record : Record} :
    s.drawRecord blank white rows record = .ok drawn ↔ ∃ number row,
      s.rowFor? record = some number ∧
        s.drawOn blank white (rows[number]?.getD ByteArray.empty) record = .ok row ∧
        drawn = rows.setIfInBounds number row := by
  unfold drawRecord drawOn rowFor?
  cases record.service? with
  | none => simp
  | some service =>
      cases s.locate? record.line with
      | none => simp
      | some site =>
          obtain ⟨field, index⟩ := site
          simp only [Option.map_some, Option.some.injEq, exists_and_left, exists_eq_left']
          cases s.drawLine (rows[s.row field index]?.getD ByteArray.empty) service.transmission
            record.data.toList blank white <;> simp [eq_comm]

theorem drawRecords_cons_eq_ok_iff {rows drawn : Array ByteArray} {record : Record}
    {rest : List Record} :
    s.drawRecords blank white rows (record :: rest) = .ok drawn ↔ ∃ next,
      s.drawRecord blank white rows record = .ok next ∧
        s.drawRecords blank white next rest = .ok drawn := by
  rw [drawRecords]
  cases s.drawRecord blank white rows record <;> simp

/-- A row shows its own records, in their order. -/
theorem getElem?_of_drawRecords {rows drawn : Array ByteArray} {records : List Record}
    (h : s.drawRecords blank white rows records = .ok drawn) :
    drawn.size = rows.size ∧ ∀ number row, rows[number]? = some row → ∃ row',
      (records.filter (s.rowFor? · == some number)).foldlM (s.drawOn blank white) row = .ok row' ∧
        drawn[number]? = some row' := by
  induction records generalizing rows with
  | nil =>
      obtain rfl := Except.ok.inj h
      exact ⟨rfl, fun number row hrow => ⟨row, rfl, hrow⟩⟩
  | cons record rest ih =>
      obtain ⟨next, hrecord, hrest⟩ := drawRecords_cons_eq_ok_iff.mp h
      obtain ⟨place, changed, hplace, hdrawn, rfl⟩ := drawRecord_eq_ok_iff.mp hrecord
      obtain ⟨hsize, hrows⟩ := ih hrest
      refine ⟨hsize.trans (by simp), fun number row hrow => ?_⟩
      have hlt := (Array.getElem?_eq_some_iff.mp hrow).1
      by_cases hnumber : place = number
      · subst hnumber
        rw [hrow, Option.getD_some] at hdrawn
        obtain ⟨row', hfold, hget⟩ := hrows place changed (by simp [hlt])
        refine ⟨row', ?_, hget⟩
        rw [List.filter_cons_of_pos (by simp [hplace]), List.foldlM_cons, hdrawn]
        exact hfold
      · obtain ⟨row', hfold, hget⟩ := hrows number row (by simp [hnumber, hrow])
        refine ⟨row', ?_, hget⟩
        rw [List.filter_cons_of_neg (by simp [hplace, hnumber])]
        exact hfold

theorem eq_of_drawRecords {rows drawn drawn' : Array ByteArray} {records records' : List Record}
    (h : s.drawRecords blank white rows records = .ok drawn)
    (h' : s.drawRecords blank white rows records' = .ok drawn')
    (hsame : ∀ number, records'.filter (s.rowFor? · == some number) =
      records.filter (s.rowFor? · == some number)) : drawn' = drawn := by
  obtain ⟨hsize, hrows⟩ := getElem?_of_drawRecords h
  obtain ⟨hsize', hrows'⟩ := getElem?_of_drawRecords h'
  apply Array.ext_getElem?
  intro number
  cases hrow : rows[number]? with
  | none =>
      have hout := Array.getElem?_eq_none_iff.mp hrow
      rw [Array.getElem?_eq_none (hsize.trans_le hout),
        Array.getElem?_eq_none (hsize'.trans_le hout)]
  | some row =>
      obtain ⟨last, hlast, hget⟩ := hrows number row hrow
      obtain ⟨last', hlast', hget'⟩ := hrows' number row hrow
      rw [hsame, hlast] at hlast'
      rw [hget, hget', Except.ok.inj hlast']

/-- Whether a record has a waveform and a row. -/
def Drawable (s : Sampling) (record : Record) : Prop :=
  record.service?.isSome ∧ (s.locate? record.line).isSome

instance (s : Sampling) (record : Record) : Decidable (s.Drawable record) :=
  inferInstanceAs (Decidable (_ ∧ _))

/-- Whether there is a row of the right size for each line. -/
structure HasRows (s : Sampling) (rows : Array ByteArray) : Prop where
  size : rows.size = s.totalLines
  size_row : ∀ (number : Nat) (row : ByteArray), rows[number]? = some row →
    row.size = s.bytesPerLine

theorem getElem?_blankRows {number : Nat} (h : number < s.totalLines) :
    (s.blankRows blank)[number]? = some (s.format.layout.flatRow s.samplesPerLine blank) := by
  rw [blankRows, Array.getElem?_replicate, if_pos h]

theorem hasRows_blankRows (s : Sampling) (blank : UInt8) : s.HasRows (s.blankRows blank) := by
  have hsize : (s.blankRows blank).size = s.totalLines := Array.size_replicate
  refine ⟨hsize, fun number row hrow => ?_⟩
  have hlt := (Array.getElem?_eq_some_iff.mp hrow).1
  rw [getElem?_blankRows (hsize ▸ hlt)] at hrow
  obtain rfl := Option.some.inj hrow
  exact Layout.size_flatRow _ _ _

theorem HasRows.drawRecord {rows drawn : Array ByteArray} {record : Record} (h : s.HasRows rows)
    (hdrawn : s.drawRecord blank white rows record = .ok drawn) : s.HasRows drawn := by
  obtain ⟨number, changed, _, hchanged, rfl⟩ := drawRecord_eq_ok_iff.mp hdrawn
  refine ⟨by rw [Array.size_setIfInBounds, h.size], fun other row hrow => ?_⟩
  rw [Array.getElem?_setIfInBounds] at hrow
  split at hrow
  next hnumber =>
    split at hrow
    next hlt =>
      obtain rfl := Option.some.inj hrow
      have hget := Array.getElem?_eq_getElem hlt
      rw [hget, Option.getD_some] at hchanged
      exact (size_of_drawOn hchanged).trans (h.size_row number _ hget)
    next => cases hrow
  next => exact h.size_row other row hrow

theorem HasRows.drawRecords {rows drawn : Array ByteArray} {records : List Record}
    (h : s.HasRows rows) (hdrawn : s.drawRecords blank white rows records = .ok drawn) :
    s.HasRows drawn := by
  induction records generalizing rows with
  | nil => exact Except.ok.inj hdrawn ▸ h
  | cons record rest ih =>
      obtain ⟨next, hrecord, hrest⟩ := drawRecords_cons_eq_ok_iff.mp hdrawn
      exact ih (h.drawRecord hrecord) hrest

theorem HasRows.exists_drawRecord_iff {rows : Array ByteArray} (h : s.HasRows rows)
    (hvalid : s.Valid) (blank white : UInt8) (record : Record) :
    (∃ drawn, s.drawRecord blank white rows record = .ok drawn) ↔ s.Drawable record := by
  simp only [drawRecord_eq_ok_iff]
  cases hlocate : s.locate? record.line with
  | none => simp [rowFor?, Drawable, hlocate]
  | some site =>
      obtain ⟨row, hget⟩ : ∃ row, rows[s.row site.1 site.2]? = some row :=
        ⟨_, Array.getElem?_eq_getElem (h.size.symm ▸ hvalid.row_lt (mem_of_locate? hlocate).2.1)⟩
      have hdraw := exists_drawOn_iff (h.size_row _ row hget) blank white record
      simpa [rowFor?, Drawable, hlocate, hget] using hdraw

/-- Records can be drawn one after the other if each of them can be drawn. -/
theorem HasRows.exists_drawRecords_iff {rows : Array ByteArray} (h : s.HasRows rows)
    (hvalid : s.Valid) (blank white : UInt8) (records : List Record) :
    (∃ drawn, s.drawRecords blank white rows records = .ok drawn) ↔
      ∀ record ∈ records, s.Drawable record := by
  induction records generalizing rows with
  | nil => simp [Sampling.drawRecords]
  | cons record rest ih =>
      rw [List.forall_mem_cons, ← h.exists_drawRecord_iff hvalid blank white]
      simp only [drawRecords_cons_eq_ok_iff]
      constructor
      · rintro ⟨drawn, next, hrecord, hrest⟩
        exact ⟨⟨next, hrecord⟩, (ih (h.drawRecord hrecord)).mp ⟨drawn, hrest⟩⟩
      · rintro ⟨⟨next, hrecord⟩, hrest⟩
        obtain ⟨drawn, hdrawn⟩ := (ih (h.drawRecord hrecord)).mpr hrest
        exact ⟨drawn, next, hrecord, hdrawn⟩

/-! ## Rows and lines -/

/-- The records of the row of a line are those with its number. -/
theorem filter_rowFor? {line : Nat} {field : Field} {index : Nat}
    (hlocate : s.locate? line = some (field, index)) (records : List Record) :
    records.filter (s.rowFor? · == some (s.row field index)) =
      records.filter (·.line = line) := by
  refine List.filter_congr fun record _ => ?_
  rw [Bool.eq_iff_iff, beq_iff_eq, decide_eq_true_eq, rowFor?, Option.map_eq_some_iff]
  constructor
  · rintro ⟨⟨field', index'⟩, hlocate', hrow⟩
    obtain ⟨_, hindex, hline⟩ := mem_of_locate? hlocate
    obtain ⟨_, hindex', hline'⟩ := mem_of_locate? hlocate'
    obtain ⟨rfl, rfl⟩ := Prod.mk.inj (row_injective hindex' hindex hrow)
    exact hline'.symm.trans hline
  · rintro rfl
    exact ⟨_, hlocate, rfl⟩

/-- Records in two orders are in the same order on each row if they are on each line. -/
theorem filter_rowFor?_congr {records records' : List Record}
    (hlines : ∀ line, records'.filter (·.line = line) = records.filter (·.line = line))
    (number : Nat) :
    records'.filter (s.rowFor? · == some number) =
      records.filter (s.rowFor? · == some number) := by
  by_cases hsite : ∃ line field index, s.locate? line = some (field, index) ∧
      s.row field index = number
  · obtain ⟨line, field, index, hlocate, rfl⟩ := hsite
    rw [filter_rowFor? hlocate, filter_rowFor? hlocate, hlines]
  · have hnone (record : Record) : ¬ (s.rowFor? record == some number) = true := by
      rw [beq_iff_eq, rowFor?, Option.map_eq_some_iff]
      rintro ⟨⟨field, index⟩, hlocate, hrow⟩
      exact hsite ⟨record.line, field, index, hlocate, hrow⟩
    rw [List.filter_eq_nil_iff.mpr fun record _ => hnone record,
      List.filter_eq_nil_iff.mpr fun record _ => hnone record]

end Sampling

end Blanking
