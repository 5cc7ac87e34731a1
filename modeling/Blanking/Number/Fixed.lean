/-! # Fixed point text of doubles

A double is written with a fixed number of decimals, rounded correctly from its exact binary
value; of two equally near decimals the even one is taken. -/

namespace Blanking.Fixed

/-- The quotient nearest to `dividend / divisor`, the even one of two that are equally near. -/
def roundDiv (dividend divisor : Nat) : Nat :=
  let quotient := dividend / divisor
  let twice := 2 * (dividend % divisor)
  if divisor < twice || (twice == divisor && quotient % 2 == 1) then quotient + 1 else quotient

/-- The magnitude of a finite double, counted in units of `1 / scale`. -/
def scaled (bits : UInt64) (scale : Nat) : Nat :=
  let exponent := (bits.toNat >>> 52) % 0x800
  let field := bits.toNat % (1 <<< 52)
  let mantissa := if exponent = 0 then field else field + (1 <<< 52)
  let shift := if exponent = 0 then 1 else exponent
  if 1075 ≤ shift then (mantissa * scale) <<< (shift - 1075)
  else roundDiv (mantissa * scale) (1 <<< (1075 - shift))

/-- A number with leading zeros up to a width. -/
def padded (width value : Nat) : String :=
  let digits := toString value
  String.ofList (List.replicate (width - digits.length) '0') ++ digits

/-- A count of units of `1 / 10 ^ places` as a decimal number. -/
def ofUnits (places units : Nat) : String :=
  let scale := Nat.pow 10 places
  toString (units / scale) ++ "." ++ padded places (units % scale)

/-- A double with `places` decimals. -/
def ofDouble (places : Nat) (value : Float) : String :=
  if value.isNaN then "NaN"
  else
    let bits := value.toBits
    let sign := if bits.toNat >>> 63 = 1 then "-" else ""
    if value.isInf then sign ++ "inf" else sign ++ ofUnits places (scaled bits (Nat.pow 10 places))

end Blanking.Fixed
