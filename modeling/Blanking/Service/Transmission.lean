import Blanking.Number.Double
import Blanking.Service.Basic

/-! # Transmission parameters

Where on a line, on which lines and at which rates a service is sent. Bit patterns are given in
the order of transmission: the last bit sent is the lowest bit of a pattern. -/

namespace Blanking

/-- The lowest `count` bits of a word of 32 bits. -/
def lowBits (count : Nat) : UInt32 :=
  if 32 ≤ count then 0xFFFFFFFF else (1 <<< UInt32.ofNat count) - 1

/-- How a data service is transmitted. -/
structure Transmission where
  service : Service
  standards : StandardSet
  /-- First line of each field that carries the service, zero for none. -/
  first : PerField Nat
  /-- Last line of each field that carries the service, zero for none. -/
  last : PerField Nat
  /-- Nanoseconds from the start of the line to the clock run-in. -/
  offset : Nat
  /-- Bits per second of the clock run-in. -/
  criRate : Nat
  /-- Bits per second of framing code and payload. -/
  bitRate : Nat
  /-- Clock run-in followed by the framing code. -/
  criFrc : UInt32
  /-- The bits of run-in and framing code that have to match. -/
  criFrcMask : UInt32
  criBits : Nat
  frcBits : Nat
  payload : Nat
  modulation : Modulation
  /-- Bit 0: the line has to be known to decode the service. Bit 1: the field has to be. -/
  flags : UInt32
deriving DecidableEq, Repr

namespace Transmission

/-- The clock run-in. -/
def cri (t : Transmission) : UInt32 := t.criFrc >>> UInt32.ofNat t.frcBits

/-- The bits of the clock run-in that have to match. -/
def criMask (t : Transmission) : UInt32 := t.criFrcMask >>> UInt32.ofNat t.frcBits

/-- The framing code. -/
def frc (t : Transmission) : UInt32 := t.criFrc &&& lowBits t.frcBits

/-- Bytes that hold the payload. -/
def payloadBytes (t : Transmission) : Nat := (t.payload + 7) / 8

/-- Seconds that clock run-in, framing code and payload take. -/
def duration (t : Transmission) : Float :=
  Double.ofNat t.criBits / Double.ofNat t.criRate +
    Double.ofNat (t.frcBits + t.payload) / Double.ofNat t.bitRate

/-- Seconds from the start of the line to the clock run-in. -/
def start (t : Transmission) : Float := Double.ofNat t.offset * 1e-9

/-- Whether the field carries the service at all. -/
def onField (t : Transmission) (field : Field) : Bool :=
  0 < t.first.on field && 0 < t.last.on field

/-- Whether the line of this number carries the service on the field. -/
def covers (t : Transmission) (field : Field) (line : Nat) : Bool :=
  t.onField field && t.first.on field ≤ line && line ≤ t.last.on field

def needsLine (t : Transmission) : Bool := t.flags &&& 1 != 0

def needsField (t : Transmission) : Bool := t.flags &&& 2 != 0

end Transmission

namespace Service

/-- Teletext at 625 lines, whose systems differ in rate, length and framing code. -/
def teletext625 (service : Service) (offset rate : Nat) (criFrc : UInt32) (bytes : Nat) :
    Transmission where
  service := service
  standards := .lines625
  first := ⟨6, 318⟩
  last := ⟨22, 335⟩
  offset := offset
  criRate := rate
  bitRate := rate
  criFrc := criFrc
  criFrcMask := 0xFFFF
  criBits := 18
  frcBits := 6
  payload := bytes * 8
  modulation := .nrzLsb
  flags := 0

/-- Teletext at 525 lines, where all systems run at 364 times the line frequency. -/
def teletext525 (service : Service) (offset : Nat) (criFrc : UInt32) (bytes : Nat) :
    Transmission where
  service := service
  standards := .lines525
  first := ⟨10, 272⟩
  last := ⟨21, 284⟩
  offset := offset
  criRate := 5727272
  bitRate := 5727272
  criFrc := criFrc
  criFrcMask := 0xFFFF
  criBits := 18
  frcBits := 6
  payload := bytes * 8
  modulation := .nrzLsb
  flags := 0

/-- VPS on a line of one field. -/
def vpsOn (service : Service) (line : PerField Nat) : Transmission where
  service := service
  standards := .palBG
  first := line
  last := line
  offset := 12500
  criRate := 5000000
  bitRate := 2500000
  criFrc := 0xAAAA8A99
  criFrcMask := 0x00FFFFFF
  criBits := 32
  frcBits := 0
  payload := 13 * 8
  modulation := .biphaseMsb
  flags := 2

/-- Captions at 625 lines on a line of one field. -/
def caption625On (service : Service) (line : PerField Nat) : Transmission where
  service := service
  standards := .lines625
  first := line
  last := line
  offset := 10500
  criRate := 1000000
  bitRate := 500000
  criFrc := 0x5551
  criFrcMask := 0x7FF
  criBits := 14
  frcBits := 2
  payload := 2 * 8
  modulation := .nrzLsb
  flags := 2

/-- Captions at 525 lines on a line of one field. Only the start bits have to match, because the
clock run-in of some encoders is distorted. -/
def caption525On (service : Service) (line : PerField Nat) : Transmission where
  service := service
  standards := .lines525
  first := line
  last := line
  offset := 10500
  criRate := 1006976
  bitRate := 503488
  criFrc := 0x03
  criFrcMask := 0x0F
  criBits := 4
  frcBits := 0
  payload := 2 * 8
  modulation := .nrzLsb
  flags := 3

def transmission : Service → Transmission
  | .teletextA => teletext625 .teletextA 10500 6203125 0xAAAAE7 37
  | .teletextB625Level1 =>
      { teletext625 .teletextB625Level1 10300 6937500 0xAAAAE4 42 with first := ⟨7, 320⟩ }
  | .teletextB625Level2 => teletext625 .teletextB625Level2 10300 6937500 0xAAAAE4 42
  | .teletextC625 => teletext625 .teletextC625 10480 5734375 0xAAAAE7 33
  | .teletextD625 => teletext625 .teletextD625 10500 5642787 0xAAAAE5 34
  | .vps => vpsOn .vps ⟨16, 0⟩
  | .vpsField2 => vpsOn .vpsField2 ⟨0, 329⟩
  | .wss625 => {
      service := .wss625
      standards := .lines625
      first := ⟨23, 0⟩
      last := ⟨23, 0⟩
      offset := 11000
      criRate := 5000000
      bitRate := 833333
      criFrc := 0x8E3C783E
      criFrcMask := 0x2499339C
      criBits := 32
      frcBits := 0
      payload := 14
      modulation := .biphaseLsb
      flags := 3 }
  | .caption625Field1 => caption625On .caption625Field1 ⟨22, 0⟩
  | .caption625Field2 => caption625On .caption625Field2 ⟨0, 335⟩
  | .teletextB525 => teletext525 .teletextB525 10500 0xAAAAE4 34
  | .teletextC525 => teletext525 .teletextC525 10480 0xAAAAE7 33
  | .teletextD525 => teletext525 .teletextD525 9780 0xAAAAE5 34
  | .caption525Field1 => caption525On .caption525Field1 ⟨21, 0⟩
  | .caption525Field2 => caption525On .caption525Field2 ⟨0, 284⟩
  | .doubleCaption525 => {
      service := .doubleCaption525
      standards := .lines525
      first := ⟨10, 0⟩
      last := ⟨21, 0⟩
      offset := 10500
      criRate := 1006976
      bitRate := 1006976
      criFrc := 0x554ED
      criFrcMask := 0xFFFF
      criBits := 12
      frcBits := 8
      payload := 4 * 8
      modulation := .nrzLsb
      flags := 2 }
  | .wssCpr1204 => {
      service := .wssCpr1204
      standards := .ntscMJapan
      first := ⟨20, 283⟩
      last := ⟨20, 283⟩
      offset := 11200
      criRate := 1789773
      bitRate := 447443
      criFrc := 0xF0
      criFrcMask := 0xFF
      criBits := 8
      frcBits := 0
      payload := 20
      modulation := .nrzMsb
      flags := 0 }

theorem transmission_service (service : Service) : service.transmission.service = service := by
  cases service <;> rfl

end Service

end Blanking
