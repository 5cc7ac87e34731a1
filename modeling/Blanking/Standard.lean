import Blanking.Number.Hex

/-! # Analog video standards

A set of standards is a word of 64 bits, one bit per standard, in the layout that capture
drivers use. Bits without a known standard are carried along unchanged. -/

namespace Blanking

/-- The two ways in which a frame is scanned. -/
inductive Scanning where
  | lines525
  | lines625
deriving DecidableEq, Repr

namespace Scanning

/-- Lines per frame. -/
def lines : Scanning → Nat
  | .lines525 => 525
  | .lines625 => 625

end Scanning

/-- A set of analog video standards. -/
structure StandardSet where
  bits : UInt64
deriving DecidableEq, Repr

namespace StandardSet

def empty : StandardSet := ⟨0⟩

/-- PAL B, B1 and G. -/
def palBG : StandardSet := ⟨0x7⟩

/-- NTSC M as used in Japan. -/
def ntscMJapan : StandardSet := ⟨0x2000⟩

/-- The standards of 525 lines and 60 fields: PAL M, PAL 60, NTSC M with its two national
variants, and NTSC 4.43. -/
def lines525 : StandardSet := ⟨0xF900⟩

/-- The standards of 625 lines and 50 fields: PAL B to K, PAL N and Nc, and SECAM. -/
def lines625 : StandardSet := ⟨0xFF06FF⟩

def union (a b : StandardSet) : StandardSet := ⟨a.bits ||| b.bits⟩

def inter (a b : StandardSet) : StandardSet := ⟨a.bits &&& b.bits⟩

instance : Union StandardSet := ⟨union⟩

instance : Inter StandardSet := ⟨inter⟩

/-- Every known standard. -/
def all : StandardSet := lines525 ∪ lines625

/-- The known standards outside the set. -/
def compl (a : StandardSet) : StandardSet := ⟨~~~a.bits &&& all.bits⟩

def isEmpty (a : StandardSet) : Bool := a.bits == 0

def intersects (a b : StandardSet) : Bool := (a ∩ b).bits != 0

def contains (a b : StandardSet) : Bool := (a ∩ b).bits == b.bits

/-- The standards that scan a frame in this way. -/
def ofScanning : Scanning → StandardSet
  | .lines525 => lines525
  | .lines625 => lines625

/-- The standards with this many lines per frame, none for a count that no standard has. -/
def ofLines (lines : Nat) : StandardSet :=
  if lines = 525 then lines525 else if lines = 625 then lines625 else empty

/-- The scanning that the set implies, if it does not mix both ways. -/
def scanning (a : StandardSet) : Option Scanning :=
  match a.intersects lines525, a.intersects lines625 with
  | true, false => some .lines525
  | false, true => some .lines625
  | _, _ => none

/-- The set as a report names it, led by the scanning where there is one. -/
def display (a : StandardSet) : String :=
  let word := Hex.marked a.bits.toNat
  match a.scanning with
  | some .lines525 => "525/60 (" ++ word ++ ")"
  | some .lines625 => "625/50 (" ++ word ++ ")"
  | none => word

theorem scanning_ofScanning (scanning : Scanning) :
    (ofScanning scanning).scanning = some scanning := by
  cases scanning <;> decide

end StandardSet

end Blanking
