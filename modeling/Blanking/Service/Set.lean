import Blanking.Service.Basic

/-! # Sets of services

A set is a word of 32 bits. Bits that stand for no service are carried along unchanged. -/

namespace Blanking

/-- A set of services. -/
structure ServiceSet where
  bits : UInt32
deriving DecidableEq, Repr

namespace ServiceSet

def empty : ServiceSet := ⟨0⟩

def singleton (service : Service) : ServiceSet := ⟨service.bit⟩

def contains (set : ServiceSet) (service : Service) : Bool := set.bits &&& service.bit != 0

def insert (set : ServiceSet) (service : Service) : ServiceSet := ⟨set.bits ||| service.bit⟩

def erase (set : ServiceSet) (service : Service) : ServiceSet := ⟨set.bits &&& ~~~service.bit⟩

def union (a b : ServiceSet) : ServiceSet := ⟨a.bits ||| b.bits⟩

def inter (a b : ServiceSet) : ServiceSet := ⟨a.bits &&& b.bits⟩

def diff (a b : ServiceSet) : ServiceSet := ⟨a.bits &&& ~~~b.bits⟩

instance : Union ServiceSet := ⟨union⟩

instance : Inter ServiceSet := ⟨inter⟩

instance : SDiff ServiceSet := ⟨diff⟩

def ofList (services : List Service) : ServiceSet := services.foldl insert empty

/-- Both levels of Teletext B at 625 lines. -/
def teletextB625 : ServiceSet := ⟨0x3⟩

/-- VPS on either field. -/
def vps : ServiceSet := ⟨0x1004⟩

/-- Captions at 625 lines on either field. -/
def caption625 : ServiceSet := ⟨0x18⟩

/-- Captions at 525 lines on either field. -/
def caption525 : ServiceSet := ⟨0x60⟩

/-- Wide screen signalling of both scannings. -/
def wss : ServiceSet := ⟨0xC00⟩

def all : ServiceSet := ⟨0x7FCFF⟩

def compl (set : ServiceSet) : ServiceSet := ⟨~~~set.bits &&& all.bits⟩

def isEmpty (set : ServiceSet) : Bool := set.bits == 0

/-- Whether two sets share a member. -/
def intersects (a b : ServiceSet) : Bool := (a ∩ b).bits != 0

def isSubset (a b : ServiceSet) : Bool := a.bits &&& ~~~b.bits == 0

/-- Members of the set, bits that stand for no service included. -/
def size (set : ServiceSet) : Nat :=
  ((List.range 32).filter set.bits.toNat.testBit).length

/-- The services of the set in the order of their table. -/
def toList (set : ServiceSet) : List Service := Service.all.filter set.contains

/-- The member of a set that has one member only, if it is a service. -/
def single? (set : ServiceSet) : Option Service := Service.ofBit? set.bits

/-- Whether one slicer can serve the whole set: its services then share run-in, framing code,
rates and modulation, and differ only in the lines they use. -/
def isMergeable (set : ServiceSet) : Bool :=
  set.isSubset teletextB625 || set.isSubset caption525 || set.isSubset caption625 ||
    set.isSubset vps

def display (set : ServiceSet) : String :=
  if set.isEmpty then "none" else ", ".intercalate (set.toList.map Service.name)

theorem single?_singleton (service : Service) : (singleton service).single? = some service :=
  Service.ofBit?_bit service

end ServiceSet

end Blanking
