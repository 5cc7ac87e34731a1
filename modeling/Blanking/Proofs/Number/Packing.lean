import Mathlib
import Blanking.Number.Double

/-! # Doubles and their bits

A double is unpacked into a sign, digits and an exponent for each operation, and the result is
packed again. What a double unpacks to is in a form of its own: there are 53 digits, or fewer at the
lowest exponent. A number in that form is packed without loss, and packing never changes a sign. -/

namespace Blanking.Double

open Float.Model Float.Model.UnpackedFloat

theorem exponentBias_binary64 : Format.binary64.exponentBias = 1023 := rfl

/-! ## Components -/

section Components

variable {spec : Format} {sign : Sign} {exponent : BitVec spec.exponentBits}
  {mantissa : BitVec spec.mantissaBitsWithoutImplicit}

theorem unpack_packComponents (hfinite : exponent ≠ -1#_) (hnormal : exponent ≠ 0#_) :
    ∃ hpos, UnpackedFloat.unpack spec (packComponents spec sign exponent mantissa) =
      .finite sign (1#1 ++ mantissa).toNat
        (exponent.toNat - (spec.exponentBias + spec.mantissaBitsWithoutImplicit)) hpos := by
  refine ⟨by simp, ?_⟩
  simp only [UnpackedFloat.unpack, unpackExponent_packComponents, unpackMantissa_packComponents,
    unpackSign_packComponents, Sign.ofBitVec_toBitVec, hfinite, hnormal, if_false]

theorem unpack_packComponents_zero (hmantissa : mantissa ≠ 0#_) :
    ∃ hpos, UnpackedFloat.unpack spec (packComponents spec sign 0#_ mantissa) =
      .finite sign mantissa.toNat
        (1 - (spec.exponentBias + spec.mantissaBitsWithoutImplicit) : Int) hpos := by
  have hfinite : (0#_ : BitVec spec.exponentBits) ≠ -1#_ := by
    simpa using Nat.ne_of_gt spec.he
  refine ⟨?_, ?_⟩
  · rw [Nat.pos_iff_ne_zero]
    exact fun hzero => hmantissa (BitVec.eq_of_toNat_eq (by simpa using hzero))
  · simp only [UnpackedFloat.unpack, unpackExponent_packComponents, unpackMantissa_packComponents,
      unpackSign_packComponents, Sign.ofBitVec_toBitVec, hfinite, hmantissa, if_false, dite_false,
      if_true]
    simp
    omega

theorem unpack_packedInfinity : UnpackedFloat.unpack spec (packedInfinity spec sign) =
    .infinity sign := by
  simp [UnpackedFloat.unpack, packedInfinity]

end Components

/-! ## The form of a double -/

/-- Whether digits and exponent are those that a double is unpacked into. -/
structure IsForm (mantissa : Nat) (exponent : Int) : Prop where
  mantissa_lt : mantissa < 2 ^ 53
  le_exponent : -1074 ≤ exponent
  exponent_le : exponent ≤ 971
  /-- There are fewer digits at the lowest exponent only. -/
  normal : exponent = -1074 ∨ 2 ^ 52 ≤ mantissa

/-- Whether a number can be packed into a double without loss. -/
def Canonical : UnpackedFloat → Prop
  | .finite _ mantissa exponent _ => IsForm mantissa exponent
  | _ => True

theorem log2_eq_of_normal {mantissa : Nat} (hlow : 2 ^ 52 ≤ mantissa) (hhigh : mantissa < 2 ^ 53) :
    mantissa.log2 = 52 := (Nat.log2_eq_iff (by omega)).mpr ⟨hlow, hhigh⟩

theorem IsForm.unpack_pack {mantissa : Nat} {exponent : Int} (h : IsForm mantissa exponent)
    (sign : Sign) (hpos : 0 < mantissa) :
    UnpackedFloat.unpack .binary64
        (UnpackedFloat.pack .binary64 (.finite sign mantissa exponent hpos)) =
      .finite sign mantissa exponent hpos := by
  obtain ⟨hhigh, hmin, hmax, hnormal⟩ := h
  have hbias : (exponent + Format.binary64.exponentBias + (52 : Nat)).toNat =
      (exponent + 1075).toNat := by
    rw [exponentBias_binary64]
    omega
  by_cases hlow : 2 ^ 52 ≤ mantissa
  · have hpack : UnpackedFloat.pack .binary64 (.finite sign mantissa exponent hpos) =
        packComponents .binary64 sign (BitVec.ofNat 11 (exponent + 1075).toNat)
          (BitVec.ofNat 52 mantissa) := by
      simp only [UnpackedFloat.pack, hbias]
      rw [if_neg (by omega), if_pos (by rw [log2_eq_of_normal hlow hhigh]; rfl)]
    have hexponent : (BitVec.ofNat 11 (exponent + 1075).toNat).toNat = (exponent + 1075).toNat := by
      rw [BitVec.toNat_ofNat]
      omega
    have hdigits : (1#1 ++ BitVec.ofNat 52 mantissa).toNat = mantissa := by
      rw [BitVec.toNat_append, ← Nat.shiftLeft_add_eq_or_of_lt (BitVec.isLt _), BitVec.toNat_ofNat,
        BitVec.toNat_ofNat, Nat.shiftLeft_eq]
      omega
    -- The exponent is neither that of zero nor that of infinity.
    have hne (other : BitVec 11) (h : other.toNat ≠ (exponent + 1075).toNat) :
        BitVec.ofNat 11 (exponent + 1075).toNat ≠ other := by
      rintro rfl
      exact h hexponent
    obtain ⟨_, hunpack⟩ := @unpack_packComponents .binary64 sign _ (BitVec.ofNat 52 mantissa)
      (hne (-1#11) (by simp; omega)) (hne 0#11 (by simp; omega))
    rw [hpack, hunpack, UnpackedFloat.finite.injEq]
    refine ⟨rfl, hdigits, ?_⟩
    rw [hexponent, exponentBias_binary64,
      show Format.binary64.mantissaBitsWithoutImplicit = 52 from rfl]
    omega
  · obtain rfl : exponent = -1074 := by omega
    have hlow := Nat.lt_of_not_le hlow
    have hfew : ¬ mantissa.log2 + 1 = Format.binary64.mantissaBits := by
      have hlog := (Nat.log2_lt (Nat.ne_of_gt hpos)).mpr hlow
      rw [show Format.binary64.mantissaBits = 53 from rfl]
      omega
    have hpack : UnpackedFloat.pack .binary64 (.finite sign mantissa (-1074) hpos) =
        packComponents .binary64 sign 0#11 (BitVec.ofNat 52 mantissa) := by
      simp only [UnpackedFloat.pack, hbias]
      rw [if_neg (by decide), if_neg hfew]
    have hdigits : (BitVec.ofNat 52 mantissa).toNat = mantissa := by
      rw [BitVec.toNat_ofNat, Nat.mod_eq_of_lt hlow]
    have hne : BitVec.ofNat 52 mantissa ≠ 0#52 := by
      intro hzero
      rw [hzero] at hdigits
      exact Nat.ne_of_gt hpos hdigits.symm
    obtain ⟨_, hunpack⟩ := @unpack_packComponents_zero .binary64 sign _ hne
    rw [hpack, hunpack, UnpackedFloat.finite.injEq]
    exact ⟨rfl, hdigits, rfl⟩

/-- Numbers of the form of a double are packed without loss. -/
theorem Canonical.unpack_pack {unpacked : UnpackedFloat} (h : Canonical unpacked) :
    (Float.Model.pack unpacked).unpack = unpacked := by
  have hbits : (Float.Model.pack unpacked).unpack =
      UnpackedFloat.unpack .binary64 (UnpackedFloat.pack .binary64 unpacked) := rfl
  rw [hbits]
  cases unpacked with
  | infinity sign => exact unpack_packedInfinity
  | notANumber => exact unpack_packedNaN
  | zero sign => exact unpack_packedZero
  | finite sign mantissa exponent hpos => exact IsForm.unpack_pack h sign hpos

/-- Doubles unpack to numbers of that form. -/
theorem canonical_unpack (x : Float.Model) : Canonical x.unpack := by
  have hbits : x.unpack = UnpackedFloat.unpack .binary64 x.toBits.toBitVec := rfl
  have hbias :
      ((Format.binary64.exponentBias : Int) + Format.binary64.mantissaBitsWithoutImplicit) = 1075 :=
    rfl
  rw [hbits]
  simp only [UnpackedFloat.unpack, hbias]
  set mantissa : BitVec 52 := @unpackMantissa .binary64 x.toBits.toBitVec
  set exponent : BitVec 11 := @unpackExponent .binary64 x.toBits.toBitVec
  have hmantissa := mantissa.isLt
  have hexponent := exponent.isLt
  split
  next => split <;> trivial
  next hfinite =>
    split
    next hzero =>
      split
      next => trivial
      next =>
        have hlowest : exponent.toNat = 0 := by rw [hzero]; rfl
        exact ⟨by omega, by omega, by omega, Or.inl (by omega)⟩
    next hnormal =>
      have hpos : exponent.toNat ≠ 0 := fun hzero => hnormal (BitVec.eq_of_toNat_eq hzero)
      have hlt : exponent.toNat ≠ 2047 := fun hall => hfinite (BitVec.eq_of_toNat_eq hall)
      have hdigits : (1#1 ++ mantissa).toNat = 2 ^ 52 + mantissa.toNat := by
        rw [BitVec.toNat_append, ← Nat.shiftLeft_add_eq_or_of_lt mantissa.isLt, Nat.shiftLeft_eq]
        rfl
      exact ⟨by rw [hdigits]; omega, by omega, by omega, Or.inr (by rw [hdigits]; omega)⟩

/-! ## Signs -/

/-- Whether a number has a sign. -/
def HasSign (sign : Sign) : UnpackedFloat → Prop
  | .notANumber => False
  | .infinity own | .zero own | .finite own _ _ _ => own = sign

theorem hasSign_unpack_packComponents {spec : Format} {sign : Sign}
    {exponent : BitVec spec.exponentBits} (hfinite : exponent ≠ -1#_)
    (mantissa : BitVec spec.mantissaBitsWithoutImplicit) :
    HasSign sign (UnpackedFloat.unpack spec (packComponents spec sign exponent mantissa)) := by
  simp only [UnpackedFloat.unpack, unpackExponent_packComponents, unpackMantissa_packComponents,
    unpackSign_packComponents, Sign.ofBitVec_toBitVec, hfinite, if_false]
  split
  next => split <;> rfl
  next => rfl

/-- Packing may round to infinity or to zero, but never to another sign. -/
theorem HasSign.unpack_pack {unpacked : UnpackedFloat} {sign : Sign} (h : HasSign sign unpacked) :
    HasSign sign (Float.Model.pack unpacked).unpack := by
  cases unpacked with
  | notANumber => exact h.elim
  | infinity own =>
      have hsame := @Canonical.unpack_pack (.infinity own) trivial
      rwa [hsame]
  | zero own =>
      have hsame := @Canonical.unpack_pack (.zero own) trivial
      rwa [hsame]
  | finite own mantissa exponent hpos =>
      obtain rfl : own = sign := h
      have hbits : (Float.Model.pack (.finite own mantissa exponent hpos)).unpack =
          UnpackedFloat.unpack .binary64
            (UnpackedFloat.pack .binary64 (.finite own mantissa exponent hpos)) := rfl
      rw [hbits]
      simp only [UnpackedFloat.pack]
      split
      next =>
        rw [unpack_packedInfinity]
        rfl
      next hsmall =>
        split
        next =>
          refine hasSign_unpack_packComponents (fun hall => hsmall ?_) _
          have hones : (-1#11).toNat = 2047 := rfl
          have htop := congrArg BitVec.toNat hall
          rw [BitVec.toNat_ofNat, hones] at htop
          omega
        next => exact hasSign_unpack_packComponents (by decide) _

end Blanking.Double
