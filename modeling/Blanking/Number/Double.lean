/-! # Integers and doubles

Times and rates are computed in double precision. These are the ways in and out: a whole number
becomes the nearest double, and a double is cut or rounded to a whole number. Negative values
and values that are not numbers become zero. -/

namespace Blanking.Double

/-- The double nearest to a whole number below `2 ^ 64`. -/
def ofNat (value : Nat) : Float := (UInt64.ofNat value).toFloat

/-- The whole part of a double. -/
def floor (value : Float) : Nat := value.toUInt64.toNat

/-- What a double has beyond its whole part. -/
def fraction (value : Float) : Float := value - ofNat (floor value)

/-- The least whole number that is not below a double. -/
def ceil (value : Float) : Nat :=
  if 0 < fraction value then floor value + 1 else floor value

/-- The whole number nearest to a double, the larger one if two are equally near. -/
def round (value : Float) : Nat :=
  if 0.5 ≤ fraction value then floor value + 1 else floor value

end Blanking.Double
