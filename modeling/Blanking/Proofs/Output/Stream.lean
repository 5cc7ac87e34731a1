import Mathlib.Data.List.Basic
import Mathlib.Tactic.Ring
import Blanking.Output.Writer

/-! # Reading binary streams

Whatever is taken from the front of a stream are the bytes that are written for it, and nothing else
is. So the reader accepts exactly the streams that are written, and each in one way only. -/

namespace Blanking.Stream

/-! ## Numbers -/

@[simp]
theorem length_littleEndian (width value : Nat) : (littleEndian width value).length = width := by
  induction width generalizing value with
  | zero => rfl
  | succ width ih => rw [littleEndian, List.length_cons, ih]

@[simp]
theorem numberOf_cons (byte : UInt8) (bytes : List UInt8) :
    numberOf (byte :: bytes) = byte.toNat + 256 * numberOf bytes := rfl

theorem numberOf_lt (bytes : List UInt8) : numberOf bytes < 256 ^ bytes.length := by
  induction bytes with
  | nil => simp [numberOf]
  | cons byte bytes ih =>
      have hbyte := byte.toNat_lt
      rw [numberOf_cons, List.length_cons, pow_succ]
      omega

theorem numberOf_littleEndian {width value : Nat} (h : value < 256 ^ width) :
    numberOf (littleEndian width value) = value := by
  induction width generalizing value with
  | zero => simpa [littleEndian, numberOf, eq_comm] using h
  | succ width ih =>
      rw [pow_succ] at h
      rw [littleEndian, numberOf_cons, ih (by omega), UInt8.toNat_ofNat']
      omega

theorem littleEndian_numberOf (bytes : List UInt8) :
    littleEndian bytes.length (numberOf bytes) = bytes := by
  induction bytes with
  | nil => rfl
  | cons byte bytes ih =>
      have hbyte := byte.toNat_lt
      have hlow : UInt8.ofNat (byte.toNat + 256 * numberOf bytes) = byte := by
        apply UInt8.toNat_inj.mp
        rw [UInt8.toNat_ofNat']
        omega
      have hrest : (byte.toNat + 256 * numberOf bytes) / 256 = numberOf bytes := by omega
      rw [numberOf_cons, List.length_cons, littleEndian, hlow, hrest, ih]

theorem readNumber_eq_some_iff {width value : Nat} {bytes rest : List UInt8} :
    readNumber width bytes = some (value, rest) ↔
      value < 256 ^ width ∧ bytes = littleEndian width value ++ rest := by
  unfold readNumber
  split
  next hshort =>
    simp only [reduceCtorEq, false_iff, not_and]
    rintro _ rfl
    simp at hshort
  next henough =>
    have hlength : (bytes.take width).length = width := by
      rw [List.length_take]
      omega
    rw [Option.some.injEq, Prod.mk.injEq]
    constructor
    · rintro ⟨rfl, rfl⟩
      have hnumber := littleEndian_numberOf (bytes.take width)
      have hlt := numberOf_lt (bytes.take width)
      rw [hlength] at hnumber hlt
      exact ⟨hlt, by rw [hnumber, List.take_append_drop]⟩
    · rintro ⟨hlt, rfl⟩
      have htake : (littleEndian width value ++ rest).take width = littleEndian width value :=
        List.take_left' (length_littleEndian width value)
      have hdrop : (littleEndian width value ++ rest).drop width = rest :=
        List.drop_left' (length_littleEndian width value)
      rw [htake, hdrop, numberOf_littleEndian hlt]
      exact ⟨rfl, rfl⟩

/-! ## Records -/

theorem toList_ofFn_front {bytes : List UInt8} (h : recordBytes ≤ bytes.length) :
    (Vector.ofFn fun i : Fin recordBytes => getElem bytes i.val (i.isLt.trans_le h)).toList =
      bytes.take recordBytes := by
  apply List.ext_getElem
  · simpa using h
  · intro i hi hi'
    simp

theorem readRecord_eq_some_iff {record : Record} {bytes rest : List UInt8} :
    readRecord bytes = some (record, rest) ↔
      record.line < 256 ^ 4 ∧ bytes = ofRecord record ++ rest := by
  unfold readRecord ofRecord
  simp only [Option.bind_eq_bind, Option.bind_eq_some_iff, Prod.exists, readNumber_eq_some_iff]
  constructor
  · rintro ⟨id, _, ⟨hid, rfl⟩, line, bytes, ⟨hline, rfl⟩, h⟩
    split at h
    next henough =>
      obtain ⟨rfl, rfl⟩ := Prod.mk.inj (Option.some.inj h)
      have hword : (UInt32.ofNat id).toNat = id := by
        rw [UInt32.toNat_ofNat']
        exact Nat.mod_eq_of_lt hid
      refine ⟨hline, ?_⟩
      simp only [hword, toList_ofFn_front henough, List.append_assoc, List.take_append_drop]
    next => exact absurd h (by simp)
  · rintro ⟨hline, rfl⟩
    have hlength : record.data.toList.length = recordBytes := by simp
    have henough : recordBytes ≤ (record.data.toList ++ rest).length := by simp
    have hdata : (Vector.ofFn fun i : Fin recordBytes =>
        (record.data.toList ++ rest)[i.val]) = record.data := by
      rw [← Vector.toList_inj, toList_ofFn_front henough, List.take_left' hlength]
    refine ⟨record.id.bits.toNat, littleEndian 4 record.line ++ (record.data.toList ++ rest),
      ⟨record.id.bits.toNat_lt, ?_⟩, record.line, record.data.toList ++ rest, ⟨hline, rfl⟩, ?_⟩
    · simp only [List.append_assoc]
    · rw [dif_pos henough, hdata, UInt32.ofNat_toNat, List.drop_left' hlength]

theorem readRecords_eq_some_iff {count : Nat} {records : List Record} {bytes rest : List UInt8} :
    readRecords count bytes = some (records, rest) ↔
      records.length = count ∧ (∀ record ∈ records, record.line < 256 ^ 4) ∧
        bytes = records.flatMap ofRecord ++ rest := by
  induction count generalizing records bytes rest with
  | zero =>
      simp only [readRecords, Option.some.injEq, Prod.mk.injEq, List.length_eq_zero_iff]
      constructor
      · rintro ⟨rfl, rfl⟩
        simp
      · rintro ⟨rfl, _, rfl⟩
        simp
  | succ count ih =>
      simp only [readRecords, Option.bind_eq_bind, Option.bind_eq_some_iff, Prod.exists,
        readRecord_eq_some_iff, ih, Option.pure_def, Option.some.injEq, Prod.mk.injEq]
      constructor
      · rintro ⟨record, _, ⟨hline, rfl⟩, records, _, ⟨rfl, hlines, rfl⟩, rfl, rfl⟩
        exact ⟨rfl, List.forall_mem_cons.mpr ⟨hline, hlines⟩, by simp⟩
      · rintro ⟨hlength, hlines, rfl⟩
        obtain ⟨record, records, rfl⟩ := List.exists_cons_of_length_eq_add_one hlength
        obtain ⟨hline, hlines⟩ := List.forall_mem_cons.mp hlines
        exact ⟨record, _, ⟨hline, by simp⟩, records, _, ⟨Nat.succ.inj hlength, hlines, rfl⟩, rfl,
          rfl⟩

/-! ## Field pairs -/

/-- Whether the numbers of a field pair fit into the bytes that a stream has for them. -/
structure Frame.Fits (frame : Frame) : Prop where
  number : frame.number < 2 ^ 64
  count : frame.records.length < 2 ^ 32
  lines : ∀ record ∈ frame.records, record.line < 2 ^ 32

theorem readFrame_eq_some_iff {frame : Frame} {bytes rest : List UInt8} :
    readFrame bytes = some (frame, rest) ↔ frame.Fits ∧ bytes = ofFrame frame ++ rest := by
  unfold readFrame ofFrame
  simp only [Option.bind_eq_bind, Option.bind_eq_some_iff, Prod.exists, readNumber_eq_some_iff,
    readRecords_eq_some_iff, Option.pure_def, Option.some.injEq, Prod.mk.injEq]
  constructor
  · rintro ⟨number, _, ⟨hnumber, rfl⟩, _, _, ⟨hcount, rfl⟩, records, _, ⟨rfl, hlines, rfl⟩, rfl,
      rfl⟩
    exact ⟨⟨hnumber, hcount, hlines⟩, by simp⟩
  · rintro ⟨hfits, rfl⟩
    exact ⟨frame.number, _, ⟨hfits.number, by simp⟩, _, _, ⟨hfits.count, rfl⟩, frame.records, _,
      ⟨rfl, hfits.lines, rfl⟩, rfl, rfl⟩

theorem ofFrame_ne_nil (frame : Frame) : ofFrame frame ≠ [] := by
  simp [ofFrame, littleEndian]

/-- Each field pair takes some bytes, so there is fuel enough for all of them. -/
theorem readFrames_eq_some_iff {fuel : Nat} {frames : List Frame} {bytes : List UInt8}
    (hfuel : bytes.length ≤ fuel) :
    readFrames fuel bytes = some frames ↔
      (∀ frame ∈ frames, frame.Fits) ∧ bytes = frames.flatMap ofFrame := by
  fun_induction readFrames fuel bytes generalizing frames with
  | case1 =>
      rw [Option.some.injEq, @eq_comm _ [], @eq_comm _ [] (List.flatMap _ _),
        List.flatMap_eq_nil_iff]
      constructor
      · rintro rfl
        simp
      · rintro ⟨_, hnil⟩
        exact List.eq_nil_iff_forall_not_mem.mpr fun frame hframe =>
          ofFrame_ne_nil frame (hnil frame hframe)
  | case2 bytes hne =>
      exact absurd (List.length_eq_zero_iff.mp (Nat.le_zero.mp hfuel)) hne
  | case3 fuel bytes hne ih =>
      have hshorter {frame : Frame} {rest : List UInt8} (h : bytes = ofFrame frame ++ rest) :
          rest.length ≤ fuel := by
        have hpos := List.length_pos_iff.mpr (ofFrame_ne_nil frame)
        rw [h, List.length_append] at hfuel
        omega
      simp only [Option.bind_eq_bind, Option.bind_eq_some_iff, Prod.exists,
        readFrame_eq_some_iff, Option.pure_def, Option.some.injEq]
      constructor
      · rintro ⟨frame, rest, ⟨hfits, hbytes⟩, frames, hrest, rfl⟩
        obtain ⟨hall, rfl⟩ := (ih rest (hshorter hbytes)).mp hrest
        exact ⟨List.forall_mem_cons.mpr ⟨hfits, hall⟩, hbytes⟩
      · rintro ⟨hall, hbytes⟩
        cases frames with
        | nil => exact absurd hbytes hne
        | cons frame frames =>
            obtain ⟨hfits, hall⟩ := List.forall_mem_cons.mp hall
            exact ⟨frame, _, ⟨hfits, hbytes⟩, frames, (ih _ (hshorter hbytes)).mpr ⟨hall, rfl⟩, rfl⟩

/-! ## Streams -/

/-- The reader accepts what is written, and nothing else. -/
theorem read_eq_some_iff {lines : Nat} {frames : List Frame} {bytes : List UInt8} :
    read bytes = some (lines, frames) ↔
      (lines < 2 ^ 16 ∧ ∀ frame ∈ frames, frame.Fits) ∧ bytes = ofFrames lines frames := by
  have htake (rest : List UInt8) : (mark ++ rest).take 4 = mark := rfl
  unfold read ofFrames header
  dsimp only
  split
  next hmark =>
    simp only [Option.bind_eq_bind, Option.bind_none, reduceCtorEq, false_iff, not_and]
    rintro _ rfl
    simp only [List.append_assoc, htake, ne_eq, not_true_eq_false] at hmark
  next hmark =>
    obtain ⟨rest, rfl⟩ : ∃ rest, bytes = mark ++ rest :=
      ⟨bytes.drop 4, by rw [← not_not.mp hmark, List.take_append_drop]⟩
    rw [show (mark ++ rest).drop 4 = rest from rfl]
    simp only [Option.bind_eq_bind, Option.bind_eq_some_iff, Prod.exists, readNumber_eq_some_iff,
      List.append_assoc, List.append_cancel_left_eq]
    constructor
    · rintro ⟨found, rest, ⟨_, rfl⟩, h⟩
      split at h
      next => exact absurd h (by simp)
      next hversion =>
        simp only [Option.bind_eq_some_iff, Prod.exists, readNumber_eq_some_iff, Option.pure_def,
          Option.some.injEq, Prod.mk.injEq] at h
        obtain ⟨lines, rest, ⟨hlines, rfl⟩, frames, hframes, rfl, rfl⟩ := h
        obtain ⟨hall, hrest⟩ := (readFrames_eq_some_iff (Nat.le_refl _)).mp hframes
        rw [not_not.mp hversion, ← hrest]
        exact ⟨⟨hlines, hall⟩, rfl⟩
    · rintro ⟨⟨hlines, hall⟩, rfl⟩
      refine ⟨version, _, ⟨by decide, rfl⟩, ?_⟩
      rw [if_neg (by simp), readNumber_eq_some_iff.mpr ⟨hlines, rfl⟩, Option.bind_some,
        (readFrames_eq_some_iff (Nat.le_refl _)).mpr ⟨hall, rfl⟩]
      rfl

end Blanking.Stream
