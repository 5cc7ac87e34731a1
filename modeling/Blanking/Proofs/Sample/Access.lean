import Mathlib.Data.List.Basic
import Mathlib.Tactic.Ring
import Blanking.Proofs.Sample.Bytes
import Blanking.Proofs.Slicer.Levels

/-! # Samples that are read back

Reading a sample that was drawn gives the level it was drawn with, in steps of its format, and any
other sample reads as before. -/

namespace Blanking

/-! ## Bytes of a row -/

theorem getElem?_eq_toList (row : ByteArray) (position : Nat) :
    row[position]? = row.data.toList[position]? := by
  by_cases h : position < row.size
  · rw [getElem?_pos row position h, ByteArray.getElem_eq_getElem_data, Array.getElem?_toList]
    exact (Array.getElem?_eq_getElem h).symm
  · rw [getElem?_neg row position h, Array.getElem?_toList]
    exact (Array.getElem?_eq_none (Nat.le_of_not_lt h)).symm

theorem byteAt_eq_getElem? (row : ByteArray) (position : Nat) :
    byteAt row position = (row[position]?.map UInt8.toNat).getD 0 := by
  unfold byteAt
  split
  next h => rw [getElem?_pos row position h]; rfl
  next h => rw [getElem?_neg row position h]; rfl

namespace Layout

variable {layout : Layout} {row : ByteArray} {index : Nat}

section Write

variable (hinside : (index + 1) * layout.storage.stride ≤ row.size) (level : UInt8)

include hinside

theorem toList_write :
    (layout.write row index level).data.toList =
      row.data.toList.take (index * layout.storage.stride) ++ layout.encode level ++
        row.data.toList.drop ((index + 1) * layout.storage.stride) := by
  have hlength := length_encode layout level
  rw [write, toList_putBytes (by rw [hlength, ← Nat.succ_mul]; exact hinside), hlength,
    ← Nat.succ_mul]

theorem getElem?_write_of_outside {position : Nat}
    (h : position < index * layout.storage.stride ∨
      (index + 1) * layout.storage.stride ≤ position) :
    (layout.write row index level)[position]? = row[position]? := by
  have hsize : row.data.toList.length = row.size := Array.length_toList
  have hencode := length_encode layout level
  rw [getElem?_eq_toList, getElem?_eq_toList, toList_write hinside]
  rw [Nat.succ_mul] at hinside h ⊢
  rcases h with hfront | hback
  · rw [List.append_assoc, List.getElem?_append_left (by rw [List.length_take]; omega),
      List.getElem?_take_of_lt hfront]
  · rw [List.getElem?_append_right (by rw [List.length_append, List.length_take]; omega),
      List.getElem?_drop, List.length_append, List.length_take, hencode, hsize]
    congr 1
    omega

theorem byteAt_write {place : Nat} (hplace : place < layout.storage.stride) :
    byteAt (layout.write row index level) (index * layout.storage.stride + place) =
      ((layout.encode level)[place]?.map UInt8.toNat).getD 0 := by
  have hsize : row.data.toList.length = row.size := Array.length_toList
  have hencode := length_encode layout level
  rw [byteAt_eq_getElem?, getElem?_eq_toList, toList_write hinside, List.append_assoc]
  rw [Nat.succ_mul] at hinside
  rw [List.getElem?_append_right (by rw [List.length_take]; omega), List.length_take,
    List.getElem?_append_left (by omega), hsize, Nat.min_eq_left (by omega),
    Nat.add_sub_cancel_left]

theorem byteAt_write_word {first second : UInt8} (h : layout.encode level = [first, second]) :
    byteAt (layout.write row index level) (index * 2) = first.toNat ∧
      byteAt (layout.write row index level) (index * 2 + 1) = second.toNat := by
  have hstride : layout.storage.stride = 2 := by rw [← length_encode layout level, h]; rfl
  have hfirst := @byteAt_write layout row index hinside level 0 (by rw [hstride]; decide)
  have hsecond := @byteAt_write layout row index hinside level 1 (by rw [hstride]; decide)
  rw [hstride, h] at hfirst hsecond
  exact ⟨hfirst, hsecond⟩

end Write

/-! ## Levels in steps of a format -/

theorem and_mask (layout : Layout) (value : Nat) :
    value &&& layout.mask = value / 2 ^ layout.lsb % 2 ^ layout.width * 2 ^ layout.lsb := by
  rw [mask, Nat.one_shiftLeft, ← Nat.shiftLeft_eq]
  refine Nat.eq_of_testBit_eq fun place => ?_
  rw [Nat.testBit_and, Nat.testBit_shiftLeft, Nat.testBit_shiftLeft, Nat.testBit_two_pow_sub_one,
    Nat.testBit_mod_two_pow, Nat.testBit_div_two_pow]
  by_cases hplace : layout.lsb ≤ place
  · simp [hplace, Nat.sub_add_cancel hplace, Bool.and_comm]
  · simp [hplace]

/-- A level is cut to the bits of the component and moved to its place. -/
theorem quantise_eq (level : UInt8) :
    layout.quantise level = level.toNat * 2 ^ layout.width / 256 * 2 ^ layout.lsb := by
  have hsteps : level.toNat <<< (layout.lsb + layout.width) / 256 / 2 ^ layout.lsb =
      level.toNat * 2 ^ layout.width / 256 := by
    rw [Nat.shiftLeft_eq, Nat.pow_add, Nat.div_div_eq_div_mul, Nat.mul_left_comm,
      Nat.mul_comm 256, Nat.mul_div_mul_left _ _ (Nat.two_pow_pos _)]
  have hlt : level.toNat * 2 ^ layout.width / 256 < 2 ^ layout.width := by
    rw [Nat.div_lt_iff_lt_mul (show 0 < 256 by decide), Nat.mul_comm]
    exact Nat.mul_lt_mul_of_pos_left level.toNat_lt (Nat.two_pow_pos _)
  rw [quantise, and_mask, hsteps, Nat.mod_eq_of_lt hlt]

theorem quantise_mono {level level' : UInt8} (h : level ≤ level') :
    layout.quantise level ≤ layout.quantise level' := by
  rw [quantise_eq, quantise_eq]
  exact Nat.mul_le_mul_right _
    (Nat.div_le_div_right (Nat.mul_le_mul_right _ (UInt8.le_iff_toNat_le.mp h)))

theorem quantise_le_mask (level : UInt8) : layout.quantise level ≤ layout.mask := Nat.and_le_right

theorem quantise_and_mask (level : UInt8) :
    layout.quantise level &&& layout.mask = layout.quantise level := by
  rw [quantise, Nat.and_assoc, Nat.and_self]

end Layout

/-! ## Samples that were drawn -/

namespace PixelFormat

variable (format : PixelFormat) {row : ByteArray} {i j : Nat}

/-- A component that takes a byte has the steps of its levels. -/
theorem quantise_of_byte {stride skip : Nat} {neutral : UInt8}
    (h : format.layout.storage = .byte stride skip neutral) (level : UInt8) :
    format.layout.quantise level = level.toNat := by
  have hwhole : format.layout.width = 8 ∧ format.layout.lsb = 0 := by
    revert h
    cases format <;> rintro ⟨⟩ <;> exact ⟨rfl, rfl⟩
  rw [Layout.quantise_eq, hwhole.1, hwhole.2]
  omega

theorem mask_lt_of_packed (h : format.layout.storage = .packed) : format.layout.mask < 2 ^ 8 := by
  revert h
  cases format <;> rintro ⟨⟩ <;> decide

theorem level_write_self (hinside : (i + 1) * format.bytesPerSample ≤ row.size) (level : UInt8) :
    format.layout.level (format.layout.write row i level) i = format.layout.quantise level := by
  have hlt : format.layout.quantise level < 2 ^ 16 :=
    lt_of_le_of_lt ((Layout.quantise_le_mask level).trans format.bounded_layout.mask_le) (by decide)
  have hword : format.layout.quantise level % 2 ^ 8 +
      256 * (format.layout.quantise level / 256 % 2 ^ 8) = format.layout.quantise level := by
    omega
  have hand := @Layout.quantise_and_mask format.layout level
  have hbyte := fun place => @Layout.byteAt_write format.layout row i hinside level place
  cases hstorage : format.layout.storage with
  | byte stride skip neutral =>
      have hskip := format.skip_lt_stride hstorage
      have hput := hbyte skip (by rwa [hstorage])
      have hvalue := format.quantise_of_byte hstorage level
      simp only [hstorage, Storage.stride, Layout.encode, hvalue] at hput
      simp only [Layout.level, hstorage, hput, hvalue]
      simp [hskip]
  | littleWord =>
      obtain ⟨hlow, hhigh⟩ := Layout.byteAt_write_word hinside level
        (by rw [Layout.encode, hstorage])
      rw [UInt8.toNat_ofNat'] at hlow hhigh
      simp only [Layout.level, hstorage, hlow, hhigh, hword, hand]
  | bigWord =>
      obtain ⟨hhigh, hlow⟩ := Layout.byteAt_write_word hinside level
        (by rw [Layout.encode, hstorage])
      rw [UInt8.toNat_ofNat'] at hlow hhigh
      rw [Nat.add_comm] at hword
      simp only [Layout.level, hstorage, hlow, hhigh, hword, hand]
  | packed =>
      have hvalue := lt_of_le_of_lt (@Layout.quantise_le_mask format.layout level)
        (format.mask_lt_of_packed hstorage)
      have hput := hbyte 0 (by rw [hstorage]; decide)
      simp only [hstorage, Storage.stride, Layout.encode, Nat.mul_one, Nat.add_zero,
        List.getElem?_cons_zero, Option.map_some, Option.getD_some, UInt8.toNat_ofNat',
        Nat.mod_eq_of_lt hvalue] at hput
      simp only [Layout.level, hstorage, hput, hand]

/-- Another sample has no byte in common with the one that is drawn. -/
theorem level_write_of_ne (hinside : (i + 1) * format.bytesPerSample ≤ row.size) (hne : i ≠ j)
    (level : UInt8) :
    format.layout.level (format.layout.write row i level) j = format.layout.level row j := by
  refine format.level_eq_of_sameSignal fun place hplace => ?_
  have houtside : j * format.layout.storage.stride + place < i * format.layout.storage.stride ∨
      (i + 1) * format.layout.storage.stride ≤ j * format.layout.storage.stride + place := by
    rcases Nat.lt_or_gt_of_ne hne with hlt | hgt
    · exact Or.inr ((Nat.mul_le_mul_right _ hlt).trans (Nat.le_add_right _ _))
    · refine Or.inl (lt_of_lt_of_le (Nat.add_lt_add_left hplace _) ?_)
      rw [← Nat.succ_mul]
      exact Nat.mul_le_mul_right _ hgt
  rw [byteAt_eq_getElem?, byteAt_eq_getElem?,
    Layout.getElem?_write_of_outside hinside level houtside]

/-- The steps of a component, told from its mask alone: the scale ends one lowest bit above it. -/
def scale (level : UInt8) (mask : UInt32) : UInt32 :=
  let lowest := mask &&& (0 - mask)
  ((level.toUInt32 * (mask + lowest)) >>> 8) &&& mask

theorem toNat_scale (level : UInt8) :
    (scale level (UInt32.ofNat format.layout.mask)).toNat = format.layout.quantise level := by
  have hmask : (UInt32.ofNat format.layout.mask).toNat = format.layout.mask :=
    UInt32.toNat_ofNat_of_lt (lt_of_le_of_lt format.bounded_layout.mask_le (by decide))
  have hfull : (UInt32.ofNat format.layout.mask +
      (UInt32.ofNat format.layout.mask &&& (0 - UInt32.ofNat format.layout.mask))).toNat =
        2 ^ (format.layout.lsb + format.layout.width) := by
    cases format <;> decide
  have hplaces : format.layout.lsb + format.layout.width ≤ 12 := by cases format <;> decide
  have hproduct : level.toNat * 2 ^ (format.layout.lsb + format.layout.width) < 2 ^ 32 :=
    calc level.toNat * 2 ^ (format.layout.lsb + format.layout.width)
        ≤ 2 ^ 8 * 2 ^ 12 :=
          Nat.mul_le_mul (Nat.le_of_lt level.toNat_lt) (Nat.pow_le_pow_right (by decide) hplaces)
      _ < 2 ^ 32 := by decide
  rw [scale, UInt32.toNat_and, UInt32.toNat_shiftRight, UInt32.toNat_mul, hfull, hmask,
    UInt8.toNat_toUInt32, Nat.mod_eq_of_lt hproduct, show UInt32.toNat 8 % 32 = 8 from rfl,
    Nat.shiftRight_eq_div_pow, Layout.quantise, Nat.shiftLeft_eq]

/-- A sample that was drawn is read with its level in steps of the format, and every other sample of
the row with the level it had. No byte outside the sample changes. The steps of a component that
takes a byte are those of the levels, the ones of a bit field are scaled to its mask. They rise with
the levels and end at the mask. -/
theorem read_drawn_sample (hinside : (i + 1) * format.bytesPerSample ≤ row.size) (level : UInt8) :
    (∀ j, (j + 1) * format.bytesPerSample ≤ row.size →
      ∃ before, format.layout.level? row j = some before ∧
        format.layout.level? (format.layout.write row i level) j =
          some (if i = j then format.layout.quantise level else before)) ∧
    (∀ position, position < i * format.bytesPerSample ∨
        (i + 1) * format.bytesPerSample ≤ position →
      (format.layout.write row i level)[position]? = row[position]?) ∧
    (∀ stride skip neutral, format.layout.storage = .byte stride skip neutral →
      format.layout.quantise level = level.toNat) ∧
    format.layout.quantise level = (scale level (UInt32.ofNat format.layout.mask)).toNat ∧
    (∀ level' ≥ level, format.layout.quantise level ≤ format.layout.quantise level') ∧
    format.layout.quantise level ≤ format.layout.mask := by
  refine ⟨fun j hj => ⟨_, format.level?_eq hj, ?_⟩,
    fun _ houtside => Layout.getElem?_write_of_outside hinside level houtside,
    fun _ _ _ hbyte => format.quantise_of_byte hbyte level, (format.toNat_scale level).symm,
    fun _ hle => Layout.quantise_mono hle, Layout.quantise_le_mask level⟩
  rw [format.level?_eq (by rwa [Layout.size_write])]
  split
  next heq => rw [← heq, format.level_write_self hinside]
  next hne => rw [format.level_write_of_ne hinside hne]

/-- The middle one of three samples, in five bits of a word from the seventh on. -/
theorem read_drawn_sample_argb15be :
    let row : ByteArray := ⟨#[0x12, 0x34, 0x56, 0x78, 0x9A, 0xBC]⟩
    let layout := PixelFormat.argb15be.layout
    (1 + 1) * PixelFormat.argb15be.bytesPerSample ≤ row.size ∧
      layout.level? (layout.write row 1 200) 0 = some 0x0200 ∧
      layout.level? (layout.write row 1 200) 1 = some 0x0640 ∧
      layout.level? (layout.write row 1 200) 2 = some 0x0280 ∧
      (layout.write row 1 200)[5]? = some 0xBC := by
  intro row layout
  have hinside : (1 + 1) * PixelFormat.argb15be.bytesPerSample ≤ row.size := by decide
  obtain ⟨hread, hbytes, _⟩ := read_drawn_sample .argb15be hinside 200
  obtain ⟨first, hfirst, hfirst'⟩ := hread 0 (by decide)
  obtain ⟨_, _, hdrawn⟩ := hread 1 (by decide)
  obtain ⟨last, hlast, hlast'⟩ := hread 2 (by decide)
  refine ⟨hinside, ?_, ?_, ?_, ?_⟩
  · rw [hfirst', if_neg (by decide), ← hfirst]
    decide
  · rw [hdrawn, if_pos rfl]
    decide
  · rw [hlast', if_neg (by decide), ← hlast]
    decide
  · rw [hbytes 5 (by decide)]
    rfl

end PixelFormat

end Blanking
