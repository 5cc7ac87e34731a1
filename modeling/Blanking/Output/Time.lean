import Blanking.Number.Fixed

/-! # Frame times

Field pairs are counted from zero and follow each other at the frame rate of their scanning, so
that the number of one gives its time. -/

namespace Blanking

/-- Frames per second, as a fraction. -/
def frameRate (lines : Nat) : Nat × Nat := if lines = 525 then (30000, 1001) else (25, 1)

/-- Milliseconds from the first field pair to another one, rounded down. -/
def frameMillis (frame lines : Nat) : Nat :=
  let (frames, seconds) := frameRate lines
  frame * seconds * 1000 / frames

/-- Milliseconds as hours, minutes and seconds with three decimals. Hours take as many digits as
they need, and two at least. -/
def clockTime (millis : Nat) : String :=
  Fixed.padded 2 (millis / 3600000) ++ ":" ++ Fixed.padded 2 (millis % 3600000 / 60000) ++ ":" ++
    Fixed.padded 2 (millis % 60000 / 1000) ++ "." ++ Fixed.padded 3 (millis % 1000)

/-- The time of a field pair. -/
def frameTime (frame lines : Nat) : String := clockTime (frameMillis frame lines)

end Blanking
