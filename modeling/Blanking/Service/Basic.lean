import Blanking.Field
import Blanking.Standard

/-! # Data services

The services that may be sent in the vertical blanking interval, and how each of them is
transmitted. -/

namespace Blanking

/-- A data service. Its fields and levels are services of their own where they differ in the
lines they use. -/
inductive Service where
  | teletextA
  | teletextB625Level1
  | teletextB625Level2
  | teletextC625
  | teletextD625
  | vps
  | vpsField2
  | wss625
  | caption625Field1
  | caption625Field2
  | teletextB525
  | teletextC525
  | teletextD525
  | caption525Field1
  | caption525Field2
  | doubleCaption525
  | wssCpr1204
deriving DecidableEq, Repr

/-- Line code of a payload, and the end of a byte that its first bit is packed into. -/
inductive Modulation where
  /-- Non-return to zero, least significant bit first. -/
  | nrzLsb
  /-- Non-return to zero, most significant bit first. -/
  | nrzMsb
  /-- Biphase, least significant bit first. -/
  | biphaseLsb
  /-- Biphase, most significant bit first. -/
  | biphaseMsb
deriving DecidableEq, Repr

namespace Modulation

def isBiphase : Modulation → Bool
  | .biphaseLsb | .biphaseMsb => true
  | _ => false

def isMsbFirst : Modulation → Bool
  | .nrzMsb | .biphaseMsb => true
  | _ => false

end Modulation

namespace Service

/-- All services in the order of their table. -/
def all : List Service :=
  [.teletextA, .teletextB625Level1, .teletextB625Level2, .teletextC625, .teletextD625,
   .vps, .vpsField2, .wss625, .caption625Field1, .caption625Field2,
   .teletextB525, .teletextC525, .teletextD525,
   .caption525Field1, .caption525Field2, .doubleCaption525, .wssCpr1204]

/-- The bit that stands for the service in a set. -/
def bit : Service → UInt32
  | .teletextB625Level1 => 0x00001
  | .teletextB625Level2 => 0x00002
  | .vps => 0x00004
  | .caption625Field1 => 0x00008
  | .caption625Field2 => 0x00010
  | .caption525Field1 => 0x00020
  | .caption525Field2 => 0x00040
  | .doubleCaption525 => 0x00080
  | .wss625 => 0x00400
  | .wssCpr1204 => 0x00800
  | .vpsField2 => 0x01000
  | .teletextA => 0x02000
  | .teletextC625 => 0x04000
  | .teletextD625 => 0x08000
  | .teletextB525 => 0x10000
  | .teletextC525 => 0x20000
  | .teletextD525 => 0x40000

/-- The name by which a user selects the service. -/
def name : Service → String
  | .teletextA => "teletext-a"
  | .teletextB625Level1 => "teletext-b-l10-625"
  | .teletextB625Level2 => "teletext-b-l25-625"
  | .teletextC625 => "teletext-c-625"
  | .teletextD625 => "teletext-d-625"
  | .vps => "vps"
  | .vpsField2 => "vps-f2"
  | .wss625 => "wss-625"
  | .caption625Field1 => "caption-625-f1"
  | .caption625Field2 => "caption-625-f2"
  | .teletextB525 => "teletext-b-525"
  | .teletextC525 => "teletext-c-525"
  | .teletextD525 => "teletext-d-525"
  | .caption525Field1 => "caption-525-f1"
  | .caption525Field2 => "caption-525-f2"
  | .doubleCaption525 => "2xcaption-525"
  | .wssCpr1204 => "wss-cpr1204"

/-- The title of the service in messages. -/
def label : Service → String
  | .teletextA => "Teletext System A"
  | .teletextB625Level1 => "Teletext System B 625 Level 1.5"
  | .teletextB625Level2 => "Teletext System B 625 Level 2.5"
  | .teletextC625 => "Teletext System C 625"
  | .teletextD625 => "Teletext System D 625"
  | .vps => "Video Program System"
  | .vpsField2 => "Pseudo-VPS on field 2"
  | .wss625 => "Wide Screen Signalling 625"
  | .caption625Field1 => "Closed Caption 625, field 1"
  | .caption625Field2 => "Closed Caption 625, field 2"
  | .teletextB525 => "Teletext System B 525"
  | .teletextC525 => "Teletext System C 525"
  | .teletextD525 => "Teletext System D 525"
  | .caption525Field1 => "Closed Caption 525, field 1"
  | .caption525Field2 => "Closed Caption 525, field 2"
  | .doubleCaption525 => "2xCaption 525"
  | .wssCpr1204 => "Wide Screen Signalling 525"

/-- The service that a bit stands for. -/
def ofBit? (bit : UInt32) : Option Service := all.find? (·.bit == bit)

theorem mem_all (service : Service) : service ∈ all := by
  cases service <;> decide

theorem ofBit?_bit (service : Service) : ofBit? service.bit = some service := by
  cases service <;> decide

end Service

end Blanking
