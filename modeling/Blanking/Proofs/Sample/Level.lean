import Mathlib.Algebra.Ring.Int.Defs
import Mathlib.Algebra.Ring.Nat
import Blanking.Sample.Level

/-! # Bounds of signal levels

Whatever bytes a row has, its levels do not exceed the largest one of their format. That is below
one step of the thresholds of the format, and small enough for words of 32 bits. -/

namespace Blanking

theorem byteAt_le (row : ByteArray) (position : Nat) : byteAt row position ≤ 255 := by
  unfold byteAt
  split
  next h => exact Nat.le_of_lt_succ row[position].toNat_lt
  next => exact Nat.zero_le _

/-- What slicing relies on in a layout of samples. -/
structure Layout.Bounded (layout : Layout) : Prop where
  mask_lt : layout.mask < 2 ^ layout.fraction
  mask_le : layout.mask ≤ 0xF00
  fraction_le : layout.fraction ≤ 13
  steps_pos : 0 < layout.oversampling
  steps_le : layout.oversampling ≤ 8
  seed_nonneg : 0 ≤ layout.seed
  seed_lt : layout.seed < (layout.mask + 1) * 2 ^ layout.fraction
  level_le : ∀ row index, layout.level row index ≤ layout.mask

namespace PixelFormat

theorem level_le_mask (format : PixelFormat) (row : ByteArray) (index : Nat) :
    format.layout.level row index ≤ format.layout.mask := by
  cases format <;> first | exact byteAt_le _ _ | exact Nat.and_le_right

theorem bounded_layout (format : PixelFormat) : format.layout.Bounded := by
  refine ⟨?_, ?_, ?_, ?_, ?_, ?_, ?_, format.level_le_mask⟩ <;> cases format <;> decide

end PixelFormat

end Blanking
