import Mathlib.Data.List.Basic
import Blanking.Sample.Level

/-! # Bytes of drawn samples

A sample that is drawn takes the bytes of its place and no others. So a row keeps its size, and a
row inside a longer buffer is drawn on as it is by itself. -/

namespace Blanking

/-! ## Bytes that are put -/

@[simp]
theorem size_putByte (row : ByteArray) (position : Nat) (byte : UInt8) :
    (putByte row position byte).size = row.size := by
  unfold putByte
  split
  next => exact Array.size_set _
  next => rfl

@[simp]
theorem size_putBytes (row : ByteArray) (position : Nat) (bytes : List UInt8) :
    (putBytes row position bytes).size = row.size := by
  induction bytes generalizing row position with
  | nil => rfl
  | cons byte rest ih => rw [putBytes, ih, size_putByte]

theorem toList_putByte (row : ByteArray) (position : Nat) (byte : UInt8) :
    (putByte row position byte).data.toList = row.data.toList.set position byte := by
  unfold putByte
  split
  next => rw [ByteArray.data_set, Array.toList_set]
  next hout =>
    rw [List.set_eq_of_length_le]
    rw [Array.length_toList, ByteArray.size_data]
    exact Nat.le_of_not_lt hout

/-- Bytes that fit take the place of as many others. -/
theorem toList_putBytes {row : ByteArray} {position : Nat} {bytes : List UInt8}
    (h : position + bytes.length ≤ row.size) :
    (putBytes row position bytes).data.toList =
      row.data.toList.take position ++ bytes ++
        row.data.toList.drop (position + bytes.length) := by
  induction bytes generalizing row position with
  | nil => simp [putBytes]
  | cons byte rest ih =>
      rw [List.length_cons] at h
      have hlt : position < row.data.toList.length := by
        rw [Array.length_toList, ByteArray.size_data]
        omega
      rw [putBytes, ih (by rw [size_putByte]; omega), toList_putByte, List.take_add_one,
        List.take_set_of_le (Nat.le_refl position), List.getElem?_set_self hlt,
        List.drop_set_of_lt (by omega), List.length_cons]
      simp [Nat.add_comm, Nat.add_left_comm]

/-- Bytes that are put into a part of a buffer leave the other parts as they are. -/
theorem putBytes_append (front rest : ByteArray) {row : ByteArray} {position : Nat}
    {bytes : List UInt8} (h : position + bytes.length ≤ row.size) :
    putBytes (front ++ row ++ rest) (front.size + position) bytes =
      front ++ putBytes row position bytes ++ rest := by
  have hsize : front.size + position + bytes.length ≤ (front ++ row ++ rest).size := by
    rw [ByteArray.size_append, ByteArray.size_append]
    omega
  have hfront : front.data.toList.length = front.size := Array.length_toList
  have hrow : row.data.toList.length = row.size := Array.length_toList
  apply ByteArray.ext
  apply Array.toList_inj.mp
  simp only [ByteArray.toList_data_append, toList_putBytes hsize, toList_putBytes h]
  rw [List.append_assoc, List.append_assoc, ← hfront, List.take_length_add_append,
    Nat.add_assoc, List.drop_length_add_append,
    List.take_append_of_le_length (by omega), List.drop_append_of_le_length (by omega)]
  simp

/-- Bytes that fill a row are all that is left of it. -/
theorem putBytes_zero {row : ByteArray} {bytes : List UInt8} (h : bytes.length = row.size) :
    putBytes row 0 bytes = ⟨bytes.toArray⟩ := by
  have hrow : row.data.toList.length = bytes.length := Array.length_toList.trans h.symm
  apply ByteArray.ext
  apply Array.toList_inj.mp
  rw [toList_putBytes (by omega), Nat.zero_add, List.drop_of_length_le (by omega)]
  simp

/-! ## Samples that are drawn -/

namespace Layout

variable (layout : Layout) (level : UInt8)

@[simp]
theorem length_encode : (layout.encode level).length = layout.storage.stride := by
  unfold encode
  cases layout.storage <;> simp [Storage.stride]

@[simp]
theorem size_write (row : ByteArray) (index : Nat) :
    (layout.write row index level).size = row.size :=
  size_putBytes _ _ _

theorem toList_flatRow (samples : Nat) :
    (layout.flatRow samples level).data.toList =
      (List.replicate samples (layout.encode level)).flatten :=
  List.toList_toArray

@[simp]
theorem size_flatRow (samples : Nat) :
    (layout.flatRow samples level).size = samples * layout.storage.stride := by
  rw [← ByteArray.size_data, ← Array.length_toList, toList_flatRow]
  simp

theorem flatRow_succ (samples : Nat) :
    layout.flatRow (samples + 1) level =
      layout.flatRow samples level ++ ⟨(layout.encode level).toArray⟩ := by
  apply ByteArray.ext
  apply Array.toList_inj.mp
  rw [ByteArray.toList_data_append, toList_flatRow, toList_flatRow, List.replicate_succ']
  simp

theorem flatRow_add (samples samples' : Nat) :
    layout.flatRow (samples + samples') level =
      layout.flatRow samples level ++ layout.flatRow samples' level := by
  apply ByteArray.ext
  apply Array.toList_inj.mp
  rw [ByteArray.toList_data_append, toList_flatRow, toList_flatRow, toList_flatRow,
    List.replicate_add, List.flatten_append]

end Layout

end Blanking
