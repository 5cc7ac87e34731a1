/-! # Numbers in machine words

Lines, samples and positions are counted with unbounded numbers. The sums and products of them that
have to be words are taken here with a check: one that its word does not hold has no result, and
neither has anything that depends on it. -/

namespace Blanking

/-- The least number that is no word of 32 bits. -/
@[irreducible]
def wordLimit : Nat := 0x100000000

/-- The least number that is no word of 64 bits. -/
@[irreducible]
def longLimit : Nat := 0x10000000000000000

/-- A number that has to be less than a limit. -/
def below? (limit value : Nat) : Option Nat := if value < limit then some value else none

/-- What is computed in words: a value or an error, unless some number is no word. -/
abbrev Checked (ε α : Type) : Type := ExceptT ε Option α

end Blanking
