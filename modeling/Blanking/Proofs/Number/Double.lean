import Mathlib
import Blanking.Proofs.Number.Packing

/-! # Whole numbers in double precision

A whole number below `2 ^ 53` is a double, and arithmetic on doubles is exact as long as its
operands and its result are such numbers. -/

namespace Blanking.Double

open Float.Model Float.Model.UnpackedFloat

/-! ## Exact rounding -/

theorem log2_mul_two_pow {value : Nat} (hpos : 0 < value) (shift : Nat) :
    (value * 2 ^ shift).log2 = value.log2 + shift := by
  rw [Nat.log2_eq_log_two, Nat.log2_eq_log_two]
  induction shift with
  | zero => simp
  | succ shift ih =>
      have hne := Nat.ne_of_gt (Nat.mul_pos hpos (Nat.two_pow_pos shift))
      rw [pow_succ, ← Nat.mul_assoc, Nat.log_mul_base (by decide) hne, ih, Nat.add_assoc]

theorem log2_le_log2 {first second : Nat} (hpos : 0 < first) (hle : first ≤ second) :
    first.log2 ≤ second.log2 := by
  have hfirst := Nat.log2_self_le (Nat.ne_of_gt hpos)
  exact (Nat.le_log2 (by omega)).mpr (Nat.le_trans hfirst hle)

theorem log2_mul_le {first second : Nat} (hpos : 0 < first * second) :
    (first * second).log2 ≤ first.log2 + second.log2 + 1 := by
  have hlt : first * second < 2 ^ (first.log2 + 1) * 2 ^ (second.log2 + 1) :=
    Nat.mul_lt_mul'' Nat.lt_log2_self Nat.lt_log2_self
  rw [← pow_add] at hlt
  have hlog := (Nat.log2_lt (Nat.ne_of_gt hpos)).mpr hlt
  omega

/-- Digits that are zero are dropped without a trace. -/
theorem exact_shiftRight (value shift : Nat) :
    ExtendedMantissa.ofMantissaAndAccuracy (value * 2 ^ shift) .exact >>> shift =
      ExtendedMantissa.ofMantissaAndAccuracy value .exact := by
  induction shift generalizing value with
  | zero => simp [HShiftRight.hShiftRight, Nat.repeat]
  | succ shift ih =>
      have hlast := ih (2 * value)
      rw [Nat.mul_comm 2, Nat.mul_assoc, ← pow_succ'] at hlast
      have hrepeat (mantissa : ExtendedMantissa) :
          mantissa >>> (shift + 1) = (mantissa >>> shift).shiftRightOne := rfl
      rw [hrepeat, hlast]
      simp [ExtendedMantissa.ofMantissaAndAccuracy, ExtendedMantissa.shiftRightOne]

/-- The form of a positive whole number: its digits are shifted up until there are 53. -/
def IsWhole (unpacked : UnpackedFloat) (value : Nat) : Prop :=
  ∃ shift hpos, value.log2 + shift = 52 ∧
    unpacked = .finite .positive (value * 2 ^ shift) (-(shift : Int)) hpos

theorem targetExponent_binary64 (total : Int) :
    Format.binary64.targetExponent total = max (total - 53) (-1074) := by
  have hmin : Format.binary64.minExponent = -1074 := by decide
  rw [Format.targetExponent, hmin]
  rfl

theorem targetExponent_whole {value shift : Nat} (hpos : 0 < value) :
    Format.binary64.targetExponent (totalExponent (value * 2 ^ shift) (-(shift : Int))) =
      (value.log2 : Int) - 52 := by
  rw [targetExponent_binary64, totalExponent, log2_mul_two_pow hpos]
  push_cast
  omega

theorem roundWithAccuracy_whole {value extra : Nat} (hpos : 0 < value) (hlt : value < 2 ^ 53)
    (hextra : 52 ≤ value.log2 + extra) :
    IsWhole (roundWithAccuracy .binary64 .positive (value * 2 ^ extra) (-(extra : Int)) .exact)
      value := by
  have hlog : value.log2 < 53 := (Nat.log2_lt (Nat.ne_of_gt hpos)).mpr hlt
  obtain ⟨shift, hshift⟩ := Nat.exists_eq_add_of_le (Nat.le_of_lt_succ hlog)
  obtain ⟨drop, rfl⟩ : ∃ drop, extra = shift + drop :=
    Nat.exists_eq_add_of_le (by omega)
  have hfirst : shiftToTargetExponent .binary64 (value * 2 ^ (shift + drop))
      (-((shift + drop : Nat) : Int)) .exact =
        (ExtendedMantissa.ofMantissaAndAccuracy (value * 2 ^ shift) .exact, -(shift : Int)) := by
    have hdrop : ((value.log2 : Int) - 52 - -((shift + drop : Nat) : Int)).toNat = drop := by
      omega
    simp only [shiftToTargetExponent, shiftToExponent]
    rw [targetExponent_whole hpos, hdrop, pow_add, ← Nat.mul_assoc, exact_shiftRight,
      Prod.mk.injEq]
    exact ⟨rfl, by omega⟩
  -- The digits that were kept are 53 already, so the second shift has nothing to do.
  have hsecond : shiftToTargetExponent .binary64 (value * 2 ^ shift) (-(shift : Int)) .exact =
      (ExtendedMantissa.ofMantissaAndAccuracy (value * 2 ^ shift) .exact, -(shift : Int)) := by
    have hnone : ((value.log2 : Int) - 52 - -(shift : Int)).toNat = 0 := by omega
    simp only [shiftToTargetExponent, shiftToExponent]
    rw [targetExponent_whole hpos, hnone, Prod.mk.injEq]
    exact ⟨rfl, by omega⟩
  have hrounded : (ExtendedMantissa.ofMantissaAndAccuracy (value * 2 ^ shift)
      .exact).roundedMantissa = value * 2 ^ shift := rfl
  have hmantissa : (ExtendedMantissa.ofMantissaAndAccuracy (value * 2 ^ shift)
      .exact).mantissa = value * 2 ^ shift := rfl
  have hne := Nat.ne_of_gt (Nat.mul_pos hpos (Nat.two_pow_pos shift))
  refine ⟨shift, Nat.pos_of_ne_zero hne, hshift.symm, ?_⟩
  simp only [roundWithAccuracy, hfirst, hrounded, hsecond, hmantissa, hne, dite_false]

theorem decreaseExponent_whole (value : Nat) {less more : Nat} (hle : less ≤ more) :
    decreaseExponent (value * 2 ^ less) (-(less : Int)) (-(more : Int)) =
      (value * 2 ^ more, -(more : Int)) := by
  obtain ⟨added, rfl⟩ := Nat.exists_eq_add_of_le hle
  have hadded : (-(less : Int) - -((less + added : Nat) : Int)).toNat = added := by omega
  simp only [decreaseExponent]
  rw [hadded, Nat.shiftLeft_eq, Nat.mul_assoc, ← pow_add, Prod.mk.injEq]
  exact ⟨rfl, by omega⟩

theorem round_whole {value extra : Nat} (hpos : 0 < value) (hlt : value < 2 ^ 53) :
    IsWhole (UnpackedFloat.round .binary64 .positive (value * 2 ^ extra) (-(extra : Int)))
      value := by
  have hexponent (more : Nat) :
      -(extra : Int) - (more : Int) = -((extra + more : Nat) : Int) := by omega
  simp only [UnpackedFloat.round, decreaseExponent]
  rw [targetExponent_whole hpos, Nat.shiftLeft_eq, Nat.mul_assoc, ← pow_add, hexponent]
  exact roundWithAccuracy_whole hpos hlt (by omega)

theorem normalize_whole {value extra : Nat} (hpos : 0 < value) (hlt : value < 2 ^ 53) :
    IsWhole (UnpackedFloat.normalize .binary64 ((value * 2 ^ extra : Nat) : Int)
      (-(extra : Int)) .positive) value := by
  have hmantissa := Nat.mul_pos hpos (Nat.two_pow_pos extra)
  have hcompare : compare ((value * 2 ^ extra : Nat) : Int) 0 = .gt := by
    rw [Int.compare_eq_gt]
    omega
  simp only [UnpackedFloat.normalize, hcompare]
  rw [Int.toNat_natCast]
  exact round_whole hpos hlt

/-! ## Arithmetic before packing -/

section Arithmetic

variable {first second : UnpackedFloat} {a b : Nat}

theorem IsWhole.mul (hfirst : IsWhole first a) (hsecond : IsWhole second b) (hpos : 0 < a * b)
    (hlt : a * b < 2 ^ 53) : IsWhole (UnpackedFloat.mul .binary64 first second) (a * b) := by
  obtain ⟨i, _, hi, rfl⟩ := hfirst
  obtain ⟨j, _, hj, rfl⟩ := hsecond
  have hmantissa : a * 2 ^ i * (b * 2 ^ j) = a * b * 2 ^ (i + j) := by
    rw [pow_add]
    ring
  have hexponent : -(i : Int) + -(j : Int) = -((i + j : Nat) : Int) := by omega
  have hlog : a.log2 ≤ (a * b).log2 :=
    log2_le_log2 (Nat.pos_of_mul_pos_right hpos)
      (Nat.le_mul_of_pos_right a (Nat.pos_of_mul_pos_left hpos))
  simp only [UnpackedFloat.mul]
  rw [hmantissa, hexponent]
  exact roundWithAccuracy_whole hpos hlt (by omega)

theorem IsWhole.mul_half (hfirst : IsWhole first (2 * a))
    (hsecond : ∃ hpos, second = .finite .positive (2 ^ 52) (-53) hpos) (hpos : 0 < a)
    (hlt : a < 2 ^ 53) : IsWhole (UnpackedFloat.mul .binary64 first second) a := by
  obtain ⟨i, _, hi, rfl⟩ := hfirst
  obtain ⟨_, rfl⟩ := hsecond
  have hmantissa : 2 * a * 2 ^ i * 2 ^ 52 = a * 2 ^ (i + 53) := by
    rw [pow_add]
    ring
  have hexponent : -(i : Int) + -53 = -((i + 53 : Nat) : Int) := by omega
  simp only [UnpackedFloat.mul]
  rw [hmantissa, hexponent]
  exact roundWithAccuracy_whole hpos hlt (by omega)

theorem IsWhole.div (hfirst : IsWhole first (a * b)) (hsecond : IsWhole second b)
    (hpos : 0 < a * b) (hlt : a < 2 ^ 53) :
    IsWhole (UnpackedFloat.div .binary64 first second) a := by
  obtain ⟨i, _, hi, rfl⟩ := hfirst
  obtain ⟨j, hdivisor, hj, rfl⟩ := hsecond
  have hleft := Nat.pos_of_mul_pos_right hpos
  have hright := Nat.pos_of_mul_pos_left hpos
  have hlog := log2_mul_le hpos
  obtain ⟨extra, hextra⟩ : ∃ extra, i + 53 = j + extra := Nat.exists_eq_add_of_le (by omega)
  have htarget : Format.binary64.targetExponent
      (totalExponent (a * b * 2 ^ i) (-(i : Int)) - totalExponent (b * 2 ^ j) (-(j : Int))) =
        -(extra : Int) := by
    rw [targetExponent_binary64, totalExponent, totalExponent, log2_mul_two_pow hpos,
      log2_mul_two_pow hright]
    push_cast
    omega
  have hmin : min (-(i : Int) - -(j : Int)) (-(extra : Int)) = -(extra : Int) := by omega
  have hshift : (-(i : Int) - -(j : Int) - -(extra : Int)).toNat = 53 := by omega
  have hmantissa : (a * b * 2 ^ i) <<< 53 = a * 2 ^ extra * (b * 2 ^ j) := by
    rw [Nat.shiftLeft_eq, Nat.mul_assoc (a * b), ← pow_add, hextra, pow_add]
    ring
  simp only [UnpackedFloat.div, divCore]
  rw [htarget, hmin, hshift, hmantissa, Nat.mul_mod_left, Nat.mul_div_cancel _ hdivisor]
  exact roundWithAccuracy_whole hleft hlt (by omega)

theorem IsWhole.add (hfirst : IsWhole first a) (hsecond : IsWhole second b) (hpos : 0 < a + b)
    (hlt : a + b < 2 ^ 53) : IsWhole (UnpackedFloat.add .binary64 first second) (a + b) := by
  obtain ⟨i, _, hi, rfl⟩ := hfirst
  obtain ⟨j, _, hj, rfl⟩ := hsecond
  obtain ⟨most, hmost⟩ : ∃ most, most = max i j := ⟨_, rfl⟩
  have hmin : min (-(i : Int)) (-(j : Int)) = -(most : Int) := by omega
  have hsum : Sign.apply .positive ((a * 2 ^ most : Nat) : Int) +
      Sign.apply .positive ((b * 2 ^ most : Nat) : Int) = (((a + b) * 2 ^ most : Nat) : Int) := by
    simp only [Sign.apply]
    push_cast
    ring
  simp only [UnpackedFloat.add]
  rw [hmin, decreaseExponent_whole a (by omega), decreaseExponent_whole b (by omega), hsum]
  exact normalize_whole hpos hlt

/-- A whole number taken from itself leaves nothing. -/
theorem IsWhole.sub_self (hfirst : IsWhole first a) (hsecond : IsWhole second a) :
    UnpackedFloat.sub .binary64 first second = .zero .positive := by
  obtain ⟨i, _, hi, rfl⟩ := hfirst
  obtain ⟨j, _, hj, rfl⟩ := hsecond
  obtain rfl : i = j := by omega
  have hcompare : compare (0 : Int) 0 = .eq := rfl
  simp only [UnpackedFloat.sub, Int.sub_self, UnpackedFloat.normalize,
    hcompare]

theorem IsWhole.toUInt64 (hfirst : IsWhole first a) (hlt : a < 2 ^ 53) :
    first.toUInt64 = UInt64.ofNat a := by
  obtain ⟨i, _, hi, rfl⟩ := hfirst
  have hnone : (-(i : Int) - 0).toNat = 0 := by omega
  have hall : (0 - (-(i : Int) - (0 : Nat))).toNat = i := by omega
  have hmantissa : (ExtendedMantissa.ofMantissaAndAccuracy a .exact).mantissa = a := rfl
  simp only [UnpackedFloat.toUInt64, UnpackedFloat.toInt, roundToInt, decreaseExponent,
    shiftToExponent, hnone, hall, Nat.shiftLeft_zero]
  rw [exact_shiftRight, hmantissa, Sign.apply, Int.toNat_natCast, UInt64.ofNatClamp,
    dif_pos (by simp only [UInt64.size]; omega), UInt64.ofNatLT_eq_ofNat]

end Arithmetic

/-! ## Doubles -/

theorem IsWhole.canonical {unpacked : UnpackedFloat} {value : Nat} (h : IsWhole unpacked value) :
    Canonical unpacked := by
  obtain ⟨shift, hpos, hshift, rfl⟩ := h
  have hlog : (value * 2 ^ shift).log2 = 52 := by
    rw [log2_mul_two_pow (Nat.pos_of_mul_pos_right hpos), hshift]
  obtain ⟨hlow, hhigh⟩ := (Nat.log2_eq_iff (Nat.ne_of_gt hpos)).mp hlog
  exact ⟨hhigh, by omega, by omega, Or.inr hlow⟩

/-- The 53 digits of a whole number fit into a double. -/
theorem IsWhole.unpack_pack {unpacked : UnpackedFloat} {value : Nat} (h : IsWhole unpacked value) :
    IsWhole (Float.Model.pack unpacked).unpack value := by
  rwa [h.canonical.unpack_pack]

/-- Whether a double is a positive whole number. -/
def Holds (x : Float) (value : Nat) : Prop := IsWhole x.toModel.unpack value

section Doubles

variable {x y : Float} {a b : Nat}

theorem holds_ofNat (hpos : 0 < a) (hlt : a < 2 ^ 53) : Holds (ofNat a) a := by
  have hnat : (UInt64.ofNat a).toNat = a := by
    rw [UInt64.toNat_ofNat']
    omega
  have hwhole : IsWhole (UnpackedFloat.ofUInt64 .binary64 (UInt64.ofNat a)) a := by
    have h := @normalize_whole a 0 hpos hlt
    rw [UnpackedFloat.ofUInt64, hnat]
    simpa [UnpackedFloat.ofNat, UnpackedFloat.ofInt] using h
  exact hwhole.unpack_pack

theorem Holds.mul (hx : Holds x a) (hy : Holds y b) (hpos : 0 < a * b) (hlt : a * b < 2 ^ 53) :
    Holds (x * y) (a * b) :=
  (IsWhole.mul hx hy hpos hlt).unpack_pack

theorem Holds.div (hx : Holds x (a * b)) (hy : Holds y b) (hpos : 0 < a * b) (hlt : a < 2 ^ 53) :
    Holds (x / y) a :=
  (IsWhole.div hx hy hpos hlt).unpack_pack

theorem Holds.add (hx : Holds x a) (hy : Holds y b) (hpos : 0 < a + b) (hlt : a + b < 2 ^ 53) :
    Holds (x + y) (a + b) :=
  (IsWhole.add hx hy hpos hlt).unpack_pack

theorem unpack_half :
    ∃ hpos, (0.5 : Float).toModel.unpack = .finite .positive (2 ^ 52) (-53) hpos :=
  ⟨by decide, by rfl⟩

theorem Holds.mul_half (hx : Holds x (2 * a)) (hpos : 0 < a) (hlt : a < 2 ^ 53) :
    Holds (x * 0.5) a :=
  (IsWhole.mul_half hx unpack_half hpos hlt).unpack_pack

theorem Holds.floor (hx : Holds x a) (hlt : a < 2 ^ 53) : floor x = a := by
  have huint : x.toUInt64 = UInt64.ofNat a := IsWhole.toUInt64 hx hlt
  rw [Double.floor, huint, UInt64.toNat_ofNat']
  omega

/-- Rounding leaves whole numbers as they are. -/
theorem Holds.round (hx : Holds x a) (hpos : 0 < a) (hlt : a < 2 ^ 53) : round x = a := by
  have hzero : (fraction x).toModel.unpack = .zero .positive := by
    have hsub := IsWhole.sub_self hx (holds_ofNat hpos hlt)
    have hpack : (fraction x).toModel = Float.Model.pack (.zero .positive) := by
      rw [fraction, hx.floor hlt, ← hsub]
      rfl
    rw [hpack]
    rfl
  have hless : ¬ 0.5 ≤ fraction x := by
    obtain ⟨_, hhalf⟩ := unpack_half
    have hle : ¬ (0.5 : Float).toModel ≤ (fraction x).toModel := by
      change ¬ Float.Model.le _ _ = true
      rw [Float.Model.le, hhalf, hzero]
      exact Bool.false_ne_true
    intro hdouble
    exact hle (of_decide_eq_true hdouble)
  rw [Double.round, if_neg hless, hx.floor hlt]

end Doubles

end Blanking.Double
