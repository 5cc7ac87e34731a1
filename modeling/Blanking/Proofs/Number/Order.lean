import Blanking.Proofs.Number.Double

/-! # The order of doubles

Doubles are ordered by their exponents and then by their digits, and rounding keeps to that order:
what is less than a double is not rounded to a larger one. So a double of positive sign gets no
larger when a positive double is taken from it. -/

namespace Blanking.Double

open Float.Model Float.Model.UnpackedFloat

/-! ## Rounding -/

theorem mantissa_shiftRight (extended : ExtendedMantissa) (shift : Nat) :
    (extended >>> shift).mantissa = extended.mantissa / 2 ^ shift := by
  induction shift with
  | zero => exact (Nat.div_one _).symm
  | succ shift ih =>
      have hrepeat : extended >>> (shift + 1) = (extended >>> shift).shiftRightOne := rfl
      rw [hrepeat, ExtendedMantissa.shiftRightOne, ih, Nat.div_div_eq_div_mul, pow_succ]

/-- Rounding adds one at most. -/
theorem roundedMantissa_le (extended : ExtendedMantissa) :
    extended.mantissa ≤ extended.roundedMantissa ∧
      extended.roundedMantissa ≤ extended.mantissa + 1 := by
  obtain ⟨mantissa, roundBit, stickyBit⟩ := extended
  cases roundBit <;> cases stickyBit <;>
    simp [ExtendedMantissa.roundedMantissa, ExtendedMantissa.accuracy,
      Accuracy.roundToNearestEven]
  omega

/-- The exponent that a positive number has as a double. -/
def exponentOf (mantissa : Nat) (exponent : Int) : Int :=
  max (mantissa.log2 + exponent - 52) (-1074)

/-- The digits of a positive number down to that exponent. -/
def digitsOf (mantissa : Nat) (exponent : Int) : Nat :=
  mantissa * 2 ^ (exponent - exponentOf mantissa exponent).toNat /
    2 ^ (exponentOf mantissa exponent - exponent).toNat

theorem targetExponent_eq (mantissa : Nat) (exponent : Int) :
    Format.binary64.targetExponent (totalExponent mantissa exponent) =
      exponentOf mantissa exponent := by
  rw [targetExponent_binary64, totalExponent, exponentOf]
  congr 1
  omega

theorem digitsOf_lt (mantissa : Nat) (exponent : Int) :
    digitsOf mantissa exponent < 2 ^ 53 := by
  rw [digitsOf, Nat.div_lt_iff_lt_mul (Nat.two_pow_pos _), ← pow_add]
  have hle : mantissa.log2 + 1 + (exponent - exponentOf mantissa exponent).toNat ≤
      53 + (exponentOf mantissa exponent - exponent).toNat := by
    rw [exponentOf]
    omega
  refine Nat.lt_of_lt_of_le ?_ (Nat.pow_le_pow_right (by decide) hle)
  rw [pow_add]
  exact Nat.mul_lt_mul_of_pos_right Nat.lt_log2_self (Nat.two_pow_pos _)

theorem le_digitsOf {mantissa : Nat} (hpos : 0 < mantissa) {exponent : Int}
    (h : exponentOf mantissa exponent ≠ -1074) :
    2 ^ 52 ≤ digitsOf mantissa exponent := by
  rw [digitsOf, Nat.le_div_iff_mul_le (Nat.two_pow_pos _), ← pow_add]
  have hle : 52 + (exponentOf mantissa exponent - exponent).toNat ≤
      mantissa.log2 + (exponent - exponentOf mantissa exponent).toNat := by
    rw [exponentOf] at h ⊢
    omega
  refine Nat.le_trans (Nat.pow_le_pow_right (by decide) hle) ?_
  rw [pow_add]
  exact Nat.mul_le_mul_right _ (Nat.log2_self_le (Nat.ne_of_gt hpos))

/-- Digits that are too many by one are cut. -/
theorem shiftToTargetExponent_exact {digits : Nat} {exponent : Int} (hmin : -1074 ≤ exponent)
    (hle : digits ≤ 2 ^ 53) :
    (digits < 2 ^ 53 ∧ shiftToTargetExponent .binary64 digits exponent .exact =
        (.ofMantissaAndAccuracy digits .exact, exponent)) ∨
      (digits = 2 ^ 53 ∧ shiftToTargetExponent .binary64 digits exponent .exact =
        (.ofMantissaAndAccuracy (2 ^ 52) .exact, exponent + 1)) := by
  simp only [shiftToTargetExponent, shiftToExponent, targetExponent_eq]
  obtain hlt | rfl := Nat.lt_or_eq_of_le hle
  · have hlog : digits.log2 ≤ 52 := by
      obtain rfl | hpos := Nat.eq_zero_or_pos digits
      · exact Nat.zero_le 52
      · exact Nat.le_of_lt_succ ((Nat.log2_lt (Nat.ne_of_gt hpos)).mpr hlt)
    have hnone : (exponentOf digits exponent - exponent).toNat = 0 := by
      rw [exponentOf]
      omega
    exact Or.inl ⟨hlt, by rw [hnone, Nat.cast_zero, add_zero]; rfl⟩
  · have hone : (exponentOf (2 ^ 53) exponent - exponent).toNat = 1 := by
      rw [exponentOf, Nat.log2_two_pow]
      omega
    exact Or.inr ⟨rfl, by rw [hone]; rfl⟩

/-- A number of given digits, which may all be zero. -/
def ofDigits (sign : Sign) (digits : Nat) (exponent : Int) : UnpackedFloat :=
  if h : digits = 0 then .zero sign else .finite sign digits exponent (Nat.pos_of_ne_zero h)

theorem roundWithAccuracy_eq {mantissa : Nat} {exponent target : Int} {accuracy : Accuracy}
    {extended : ExtendedMantissa} (sign : Sign) (hmin : -1074 ≤ target)
    (hle : extended.roundedMantissa ≤ 2 ^ 53)
    (hshift : shiftToTargetExponent .binary64 mantissa exponent accuracy = (extended, target)) :
    roundWithAccuracy .binary64 sign mantissa exponent accuracy =
      if extended.roundedMantissa < 2 ^ 53 then ofDigits sign extended.roundedMantissa target
      else ofDigits sign (2 ^ 52) (target + 1) := by
  simp only [roundWithAccuracy, hshift]
  obtain ⟨hlt, hlast⟩ | ⟨hcarry, hlast⟩ := shiftToTargetExponent_exact hmin hle
  · rw [if_pos hlt]
    simp only [hlast]
    rfl
  · rw [if_neg (Nat.not_lt_of_le hcarry.ge)]
    simp only [hlast]
    rfl

/-- The digits of a number are kept down to the exponent of a double, and the last of them may be
rounded up, which may give one more digit. -/
theorem round_eq {mantissa : Nat} (hpos : 0 < mantissa) (sign : Sign) (exponent : Int) :
    ∃ digits, digitsOf mantissa exponent ≤ digits ∧ digits ≤ digitsOf mantissa exponent + 1 ∧
      UnpackedFloat.round .binary64 sign mantissa exponent =
        if digits < 2 ^ 53 then ofDigits sign digits (exponentOf mantissa exponent)
        else ofDigits sign (2 ^ 52) (exponentOf mantissa exponent + 1) := by
  set target := exponentOf mantissa exponent with htarget
  have hmin : -1074 ≤ target := le_max_right _ _
  set more := (exponent - target).toNat with hmore
  have hraised : exponentOf (mantissa * 2 ^ more) (exponent - more) = target := by
    rw [exponentOf, log2_mul_two_pow hpos, htarget, exponentOf]
    congr 1
    push_cast
    ring
  set extended := ExtendedMantissa.ofMantissaAndAccuracy (mantissa * 2 ^ more) .exact >>>
    (target - exponent).toNat with hextended
  have hkept : extended.mantissa = digitsOf mantissa exponent := by
    rw [hextended, mantissa_shiftRight]
    rfl
  obtain ⟨hlow, hhigh⟩ := roundedMantissa_le extended
  have hlt := digitsOf_lt mantissa exponent
  rw [hkept] at hlow hhigh
  have hshift : shiftToTargetExponent .binary64 (mantissa * 2 ^ more) (exponent - more) .exact =
      (extended, target) := by
    have hless : (target - (exponent - more)).toNat = (target - exponent).toNat := by omega
    simp only [shiftToTargetExponent, shiftToExponent]
    rw [targetExponent_eq, hraised, hless, Prod.mk.injEq]
    exact ⟨rfl, by omega⟩
  have hround : UnpackedFloat.round .binary64 sign mantissa exponent =
      roundWithAccuracy .binary64 sign (mantissa * 2 ^ more) (exponent - more) .exact := by
    simp only [UnpackedFloat.round]
    rw [targetExponent_eq, decreaseExponent, ← htarget, ← hmore, Nat.shiftLeft_eq]
  exact ⟨extended.roundedMantissa, hlow, hhigh,
    hround.trans (roundWithAccuracy_eq sign hmin (by omega) hshift)⟩

/-! ## Order -/

/-- The place of digits at an exponent among all positive doubles. -/
def place (mantissa : Nat) (exponent : Int) : Int := (exponent + 1074) * 2 ^ 52 + mantissa

theorem IsForm.place_lt_iff {m n : Nat} {i j : Int} (hm : IsForm m i) (hn : IsForm n j) :
    place m i < place n j ↔ i < j ∨ i = j ∧ m < n := by
  obtain ⟨_, _, _, _⟩ := hm
  obtain ⟨_, _, _, _⟩ := hn
  unfold place
  omega

/-- The place of a number among all doubles. Both zeros have the same. -/
def rank : UnpackedFloat → Option Int
  | .notANumber => none
  | .infinity sign => some (sign.apply (2047 * 2 ^ 52))
  | .zero _ => some 0
  | .finite sign mantissa exponent _ => some (sign.apply (place mantissa exponent))

theorem IsForm.place_pos {m : Nat} {i : Int} (h : IsForm m i) (hpos : 0 < m) :
    0 < place m i ∧ place m i < 2047 * 2 ^ 52 := by
  obtain ⟨_, _, _, _⟩ := h
  unfold place
  omega

theorem compare_then_eq_lt {m n : Nat} {i j : Int} (hm : IsForm m i) (hn : IsForm n j) :
    (compare i j).then (compare m n) = .lt ↔ place m i < place n j := by
  rw [hm.place_lt_iff hn, Ordering.then_eq_lt, compare_lt_iff_lt, compare_eq_iff_eq,
    compare_lt_iff_lt]

theorem compare_then_eq_gt {m n : Nat} {i j : Int} (hm : IsForm m i) (hn : IsForm n j) :
    (compare i j).then (compare m n) = .gt ↔ place n j < place m i := by
  rw [hn.place_lt_iff hm, Ordering.then_eq_gt, compare_gt_iff_gt, compare_eq_iff_eq,
    compare_gt_iff_gt, @eq_comm _ i j]

/-- Doubles are compared by their places. One that is not a number is not less than another one. -/
theorem lt_iff_rank {u v : UnpackedFloat} (hu : Canonical u) (hv : Canonical v) :
    u.lt v = true ↔ ∃ a b, rank u = some a ∧ rank v = some b ∧ a < b := by
  rw [UnpackedFloat.lt, beq_iff_eq]
  cases u with
  | notANumber => simp [UnpackedFloat.compare, rank]
  | infinity s =>
      cases v with
      | notANumber => cases s <;> simp [UnpackedFloat.compare, rank]
      | infinity t =>
          cases s <;> cases t <;> simp [UnpackedFloat.compare, rank, Sign.apply, compare]
      | zero t => cases s <;> simp [UnpackedFloat.compare, rank, Sign.apply]
      | finite t n j hn =>
          obtain ⟨hpos, htop⟩ := IsForm.place_pos hv hn
          cases s <;> cases t <;> simp [UnpackedFloat.compare, rank, Sign.apply] <;> omega
  | zero s =>
      cases v with
      | notANumber => simp [UnpackedFloat.compare, rank]
      | infinity t => cases t <;> simp [UnpackedFloat.compare, rank, Sign.apply]
      | zero t => simp [UnpackedFloat.compare, rank]
      | finite t n j hn =>
          obtain ⟨hpos, htop⟩ := IsForm.place_pos hv hn
          cases t <;> simp [UnpackedFloat.compare, rank, Sign.apply] <;> omega
  | finite s m i hm =>
      obtain ⟨hpos, htop⟩ := IsForm.place_pos hu hm
      cases v with
      | notANumber => cases s <;> simp [UnpackedFloat.compare, rank]
      | infinity t =>
          cases s <;> cases t <;> simp [UnpackedFloat.compare, rank, Sign.apply] <;> omega
      | zero t => cases s <;> simp [UnpackedFloat.compare, rank, Sign.apply] <;> omega
      | finite t n j hn =>
          obtain ⟨hpos', htop'⟩ := IsForm.place_pos hv hn
          cases s <;> cases t <;>
            simp [UnpackedFloat.compare, rank, Sign.apply, compare_then_eq_lt hu hv,
              compare_then_eq_gt hu hv] <;> omega

theorem rank_nonpos {u : UnpackedFloat} (hu : Canonical u) (hsign : HasSign .negative u) :
    ∃ a, rank u = some a ∧ a ≤ 0 := by
  cases u with
  | notANumber => exact hsign.elim
  | infinity s =>
      obtain rfl : s = .negative := hsign
      exact ⟨_, rfl, by decide⟩
  | zero s => exact ⟨0, rfl, le_refl 0⟩
  | finite s m i hm =>
      obtain rfl : s = .negative := hsign
      exact ⟨_, rfl, Int.neg_nonpos_of_nonneg (IsForm.place_pos hu hm).1.le⟩

theorem IsForm.rank_ofDigits {digits : Nat} {exponent : Int} (h : IsForm digits exponent) :
    Canonical (ofDigits .positive digits exponent) ∧
      rank (ofDigits .positive digits exponent) = some (place digits exponent) := by
  unfold ofDigits
  split
  next hzero =>
    obtain ⟨_, _, _, hnormal⟩ := h
    have hlowest : exponent = -1074 := by omega
    rw [rank, hzero, hlowest]
    exact ⟨trivial, rfl⟩
  next => exact ⟨h, rfl⟩

/-! ## Rounding keeps the order -/

/-- What is less than a double is not rounded to a larger one. -/
theorem IsForm.round_le {m : Nat} {i : Int} (h : IsForm m i) {value : Nat} {exponent : Int}
    (hpos : 0 < value) (hle : exponent ≤ i) (hlt : value < m * 2 ^ (i - exponent).toNat) :
    ∃ digits target, UnpackedFloat.round .binary64 .positive value exponent =
        ofDigits .positive digits target ∧
      IsForm digits target ∧ place digits target ≤ place m i := by
  obtain ⟨hm, hmin, hmax, hnormal⟩ := h
  set target := exponentOf value exponent with htarget
  have hlowest : -1074 ≤ target := le_max_right _ _
  have htop : target ≤ i := by
    have hlog : value.log2 < 53 + (i - exponent).toNat := by
      rw [Nat.log2_lt (Nat.ne_of_gt hpos), pow_add]
      exact Nat.lt_of_lt_of_le hlt (Nat.mul_le_mul_right _ hm.le)
    rw [htarget, exponentOf]
    omega
  have hsame : target = i → digitsOf value exponent < m := by
    intro hsame
    have hnone : (exponent - target).toNat = 0 := by omega
    rw [digitsOf, ← htarget, hnone, pow_zero, mul_one, Nat.div_lt_iff_lt_mul (Nat.two_pow_pos _),
      hsame]
    exact hlt
  have hhigh := digitsOf_lt value exponent
  have hlow : target ≠ -1074 → 2 ^ 52 ≤ digitsOf value exponent := le_digitsOf hpos
  obtain ⟨digits, hkept, hmost, hround⟩ := round_eq hpos .positive exponent
  rw [← htarget] at hround
  unfold place
  split at hround
  next hfits => exact ⟨digits, target, hround, ⟨hfits, by omega, by omega, by omega⟩, by omega⟩
  next hcarry =>
    exact ⟨2 ^ 52, target + 1, hround, ⟨by decide, by omega, by omega, Or.inr le_rfl⟩, by omega⟩

theorem hasSign_roundWithAccuracy (spec : Format) (sign : Sign) (value : Nat) (exponent : Int)
    (accuracy : Accuracy) :
    HasSign sign (roundWithAccuracy spec sign value exponent accuracy) := by
  simp only [roundWithAccuracy]
  split <;> rfl

theorem hasSign_round (spec : Format) (sign : Sign) (value : Nat) (exponent : Int) :
    HasSign sign (UnpackedFloat.round spec sign value exponent) :=
  hasSign_roundWithAccuracy _ _ _ _ _

theorem Canonical.rank_unpack_pack {u : UnpackedFloat} (hu : Canonical u) :
    rank (Float.Model.pack u).unpack = rank u := by
  rw [hu.unpack_pack]

/-- A number gets no larger when a positive one is taken from it. -/
theorem IsForm.rank_sub_le {m : Nat} {i : Int} (h : IsForm m i) (hm : 0 < m) {n : Nat} {j : Int}
    (hn : 0 < n) :
    ∃ b, rank (Float.Model.pack (UnpackedFloat.sub .binary64 (.finite .positive m i hm)
      (.finite .positive n j hn))).unpack = some b ∧ b ≤ place m i := by
  have hnonneg := (h.place_pos hm).1.le
  set least := min i j with hleast
  have hless : UnpackedFloat.sub .binary64 (.finite .positive m i hm)
      (.finite .positive n j hn) = UnpackedFloat.normalize .binary64
        ((m * 2 ^ (i - least).toNat : Nat) - (n * 2 ^ (j - least).toNat : Nat)) least
        .positive := by
    simp only [UnpackedFloat.sub, decreaseExponent, Nat.shiftLeft_eq]
    rfl
  have htaken : 0 < n * 2 ^ (j - least).toNat := Nat.mul_pos hn (Nat.two_pow_pos _)
  rw [hless, UnpackedFloat.normalize]
  -- The difference is below zero, zero or above it.
  split
  next =>
    obtain ⟨b, hb, hle⟩ := rank_nonpos (canonical_unpack _)
      (hasSign_round .binary64 .negative _ least).unpack_pack
    exact ⟨b, hb, hle.trans hnonneg⟩
  next => exact ⟨0, @Canonical.rank_unpack_pack (.zero .positive) trivial, hnonneg⟩
  next hcompare =>
    have hpos := Int.compare_eq_gt.mp hcompare
    set rest := (((m * 2 ^ (i - least).toNat : Nat) : Int) -
      (n * 2 ^ (j - least).toNat : Nat)).toNat with hrest
    have hrest_pos : 0 < rest := by omega
    have hrest_lt : rest < m * 2 ^ (i - least).toNat := by omega
    obtain ⟨digits, target, hround, hform, hle⟩ :=
      h.round_le hrest_pos (min_le_left i j) hrest_lt
    obtain ⟨hcanonical, hrank⟩ := hform.rank_ofDigits
    rw [← hleast] at hround
    rw [hround]
    exact ⟨_, hcanonical.rank_unpack_pack.trans hrank, hle⟩

/-- A double of positive sign gets no larger when a positive one is taken from it. -/
theorem rank_sub_le {u : UnpackedFloat} (hu : Canonical u) (hsign : HasSign .positive u) {n : Nat}
    {j : Int} (hn : 0 < n) {a : Int} (ha : rank u = some a) :
    ∃ b, rank (Float.Model.pack (UnpackedFloat.sub .binary64 u (.finite .positive n j hn))).unpack =
      some b ∧ b ≤ a := by
  cases u with
  | notANumber => exact hsign.elim
  | infinity s => exact ⟨a, (@Canonical.rank_unpack_pack (.infinity s) trivial).trans ha, le_refl a⟩
  | zero s =>
      obtain rfl : 0 = a := Option.some.inj ha
      have hless : HasSign .negative (UnpackedFloat.sub .binary64 (.zero s)
        (.finite .positive n j hn)) := rfl
      exact rank_nonpos (canonical_unpack _) hless.unpack_pack
  | finite s m i hm =>
      obtain rfl : s = .positive := hsign
      obtain rfl : place m i = a := Option.some.inj ha
      exact IsForm.rank_sub_le hu hm hn

/-! ## Doubles -/

/-- Whether a double is not a number or has a positive sign. -/
def Unsigned (x : Float) : Prop :=
  x.toModel.unpack = .notANumber ∨ HasSign .positive x.toModel.unpack

theorem lt_iff_unpack {x y : Float} :
    x < y ↔ x.toModel.unpack.lt y.toModel.unpack = true := by
  change decide (x.toModel < y.toModel) = true ↔ _
  rw [decide_eq_true_iff]
  rfl

theorem hasSign_ofNat (value : Nat) : HasSign .positive (ofNat value).toModel.unpack := by
  have hnonneg : 0 ≤ ((UInt64.ofNat value).toNat : Int) := Int.natCast_nonneg _
  refine @HasSign.unpack_pack (UnpackedFloat.ofUInt64 .binary64 (UInt64.ofNat value)) _ ?_
  rw [UnpackedFloat.ofUInt64, UnpackedFloat.ofNat, UnpackedFloat.ofInt, UnpackedFloat.normalize]
  split
  next hcompare => exact absurd (Int.compare_eq_lt.mp hcompare) (Int.not_lt_of_ge hnonneg)
  next => rfl
  next => exact hasSign_round _ _ _ _

theorem hasSign_div {u v : UnpackedFloat} (hu : HasSign .positive u) (hv : HasSign .positive v) :
    UnpackedFloat.div .binary64 u v = .notANumber ∨
      HasSign .positive (UnpackedFloat.div .binary64 u v) := by
  cases u with
  | notANumber => exact hu.elim
  | infinity s =>
      obtain rfl : s = .positive := hu
      cases v with
      | notANumber => exact hv.elim
      | infinity t => exact Or.inl rfl
      | zero t | finite t n j hn =>
          obtain rfl : t = .positive := hv
          exact Or.inr rfl
  | zero s =>
      obtain rfl : s = .positive := hu
      cases v with
      | notANumber => exact hv.elim
      | zero t => exact Or.inl rfl
      | infinity t | finite t n j hn =>
          obtain rfl : t = .positive := hv
          exact Or.inr rfl
  | finite s m i hm =>
      obtain rfl : s = .positive := hu
      cases v with
      | notANumber => exact hv.elim
      | infinity t | zero t =>
          obtain rfl : t = .positive := hv
          exact Or.inr rfl
      | finite t n j hn =>
          obtain rfl : t = .positive := hv
          exact Or.inr (hasSign_roundWithAccuracy _ _ _ _ _)

/-- A quotient of whole numbers has no negative sign. -/
theorem unsigned_div (a b : Nat) : Unsigned (ofNat a / ofNat b) := by
  have hmodel : (ofNat a / ofNat b).toModel = Float.Model.pack
      (UnpackedFloat.div .binary64 (ofNat a).toModel.unpack (ofNat b).toModel.unpack) := rfl
  rw [Unsigned, hmodel]
  obtain hnan | hsign := hasSign_div (hasSign_ofNat a) (hasSign_ofNat b)
  · rw [hnan]
    exact Or.inl (@Canonical.unpack_pack .notANumber trivial)
  · exact Or.inr hsign.unpack_pack

/-- What is below a bound stays below it when a positive number is taken from it. -/
theorem sub_lt_of_lt {x y z : Float} (hx : Unsigned x) {n : Nat} {j : Int} {hn : 0 < n}
    (hy : y.toModel.unpack = .finite .positive n j hn) (h : x < z) : x - y < z := by
  have hmodel : (x - y).toModel = Float.Model.pack
      (UnpackedFloat.sub .binary64 x.toModel.unpack y.toModel.unpack) := rfl
  obtain ⟨a, c, ha, hc, hlt⟩ := (lt_iff_rank (canonical_unpack _) (canonical_unpack _)).mp
    (lt_iff_unpack.mp h)
  have hsign : HasSign .positive x.toModel.unpack := by
    refine hx.resolve_left fun hnan => ?_
    rw [hnan] at ha
    cases ha
  obtain ⟨b, hb, hle⟩ := rank_sub_le (canonical_unpack x.toModel) hsign hn ha
  rw [← hy, ← hmodel] at hb
  exact lt_iff_unpack.mpr ((lt_iff_rank (canonical_unpack _) (canonical_unpack _)).mpr
    ⟨b, c, hb, hc, by omega⟩)

end Blanking.Double
