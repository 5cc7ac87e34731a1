import Blanking.Payload.Check

/-! # Packed words and their check

A word of 20 bits takes three bytes, of which the last keeps its low end only. So the word that is
packed is the one that is read again, whatever bytes follow. -/

namespace Blanking.Check

/-- The word of 14 bits of data with their check behind them. -/
def cpr1204Word (value : Nat) : Nat :=
  value % 0x4000 * 0x40 + (crc (value % 0x4000) dataBits).toNat

theorem cpr1204Word_lt (value : Nat) : cpr1204Word value < 0x100000 := by
  have hcheck := (crc (value % 0x4000) dataBits).isLt
  have hdata := Nat.mod_lt value (show 0 < 0x4000 by decide)
  unfold cpr1204Word
  omega

theorem cpr1204Word_div (value : Nat) : cpr1204Word value / 0x40 = value % 0x4000 := by
  have hcheck := (crc (value % 0x4000) dataBits).isLt
  unfold cpr1204Word
  omega

theorem cpr1204Word_mod (value : Nat) :
    cpr1204Word value % 0x40 = (crc (value % 0x4000) dataBits).toNat := by
  have hcheck := (crc (value % 0x4000) dataBits).isLt
  unfold cpr1204Word
  omega

theorem cpr1204Encode_eq (value : Nat) :
    cpr1204Encode value = [UInt8.ofNat (cpr1204Word value / 0x1000),
      UInt8.ofNat (cpr1204Word value / 0x10), UInt8.ofNat (cpr1204Word value % 0x10)] := rfl

@[simp]
theorem cpr1204Word?_encode (value : Nat) (rest : List UInt8) :
    cpr1204Word? (cpr1204Encode value ++ rest) = some (cpr1204Word value) := by
  have hword := cpr1204Word_lt value
  rw [cpr1204Encode_eq]
  simp only [List.cons_append, cpr1204Word?, UInt8.toNat_ofNat', Option.some.injEq]
  omega

/-- What is packed carries the check of its data. -/
theorem cpr1204Ok_encode (value : Nat) (rest : List UInt8) :
    cpr1204Ok (cpr1204Encode value ++ rest) = true := by
  rw [cpr1204Ok, cpr1204Word?_encode]
  simp only [cpr1204Word_div, cpr1204Word_mod, BEq.rfl]

end Blanking.Check
