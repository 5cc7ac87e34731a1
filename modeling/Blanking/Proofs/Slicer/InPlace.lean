import Mathlib.Data.List.Basic
import Mathlib.Tactic.Ring
import Blanking.Proofs.Slicer.Clock
import Blanking.Proofs.Slicer.Data

/-! # Slicing in place

A line is sliced here in one pass over memory that is changed on the way: the threshold moves with
every sample, each decision is handed on as soon as it is taken, and a byte of the payload is stored
when its last bit has arrived. What is left behind is what the search and the reception of the
line say, and nothing is stored before the framing code was the right one. -/

namespace Blanking

theorem SlicerConfig.payloadBits_eq_of_octets {target : Target} {c : SlicerConfig}
    (hconfig : ofTarget target = .ok c)
    (hpacking : c.packing = .octetLsb ∨ c.packing = .octetMsb) :
    c.payloadBits = 8 * c.payloadBytes := by
  obtain ⟨_, rfl⟩ := ofTarget_eq_ok_iff.mp hconfig
  have hwhole : target.payloadBits % 8 = 0 := by
    by_contra hpart
    have hbits : (target.payloadBits % 8 == 0) = false := beq_eq_false_iff_ne.mpr hpart
    simp only [derive, Packing.of, hbits] at hpacking
    cases hmodulation : target.modulation.isMsbFirst <;> simp [hmodulation] at hpacking
  simp only [derive]
  omega

section Record

variable {ρ : Type} {c : SlicerConfig} {level : Nat → Nat} {threshold : Int}

/-- A record is made of the decisions one after the other, the earliest one first. -/
theorem SlicerConfig.traceAt_eq_foldr (record : Point → ρ → ρ) (trace : ρ) (step : Nat) :
    c.traceAt record level threshold trace step =
      (c.traceAt List.cons level threshold [] step).foldr record trace := by
  induction step with
  | zero => rfl
  | succ step ih =>
      rw [traceAt, traceAt]
      split
      next => rw [List.foldr_cons, ih]
      next => exact ih

theorem SlicerConfig.search_eq_foldr (record : Point → ρ → ρ) (trace : ρ) :
    c.search record level threshold trace =
      (c.search List.cons level threshold []).map fun found =>
        (found.1, found.2.foldr record trace) := by
  rw [search_eq, search_eq, Option.map_map]
  congr 1
  funext last
  exact Prod.ext rfl (traceAt_eq_foldr record trace (last + 1))

end Record

namespace InPlace

/-- What is done with the decisions about a line. -/
structure Sink (σ : Type) where
  criBit : Point → σ → σ
  /-- What is done once the run-in is complete, which has so many bits. -/
  criMatched : (criBits : Nat) → σ → σ
  dataBit : Point → σ → σ

/-- Decisions are forgotten. -/
def Sink.forget : Sink Unit := ⟨fun _ s => s, fun _ s => s, fun _ s => s⟩

/-- The memory that changes while a line is sliced. -/
structure Work (σ : Type) (size : Nat) where
  threshold : Int
  /-- Position of the next bit behind the run-in. -/
  position : Nat
  sink : σ
  buffer : Vector UInt8 size

variable {σ : Type} {size : Nat}

/-- Stores one byte of the payload. -/
def Work.put (work : Work σ size) (place : Nat) (byte : UInt8) : Work σ size :=
  { work with buffer := work.buffer.setIfInBounds place byte }

section Line

variable (c : SlicerConfig) (sink : Sink σ) (level : Nat → Nat)

section Data

variable (slice : Int)

/-- Decides about the next bit. -/
def nextBit (kind : PointKind) (work : Work σ size) : Bool × Work σ size :=
  let point := SlicerConfig.pointAt level slice kind work.position
  (point.bit, { work with
    position := work.position + c.step
    sink := sink.dataBit point work.sink })

/-- Shifts bits of the framing code into a register. -/
def readFrc : (left : Nat) → (word : UInt32) → Work σ size → UInt32 × Work σ size
  | 0, word, work => (word, work)
  | left + 1, word, work =>
      let (bit, work) := nextBit c sink level slice .frc work
      readFrc left (shiftIn word bit) work

/-- Takes some bits of the payload. -/
def readBits : (left : Nat) → Work σ size → List Bool × Work σ size
  | 0, work => ([], work)
  | left + 1, work =>
      let (bit, work) := nextBit c sink level slice .payload work
      let (rest, work) := readBits left work
      (bit :: rest, work)

/-- Stores octets of the payload from a place on. -/
def readOctets (octet : List Bool → UInt8) :
    (left place : Nat) → Work σ size → Work σ size
  | 0, _, work => work
  | left + 1, place, work =>
      let (bits, work) := readBits c sink level slice 8 work
      readOctets octet left (place + 1) (work.put place (octet bits))

/-- Stores the payload from one of its bits on. The bits enter a register, which leaves as a byte
after every eighth, and what is left of it becomes the last byte. -/
def readBitwise (push : UInt32 → Bool → UInt32) (last : UInt32 → Nat → UInt8) :
    (left number : Nat) → (register : UInt32) → Work σ size → Work σ size
  | 0, number, register, work => work.put (number / 8) (last register (number % 8))
  | left + 1, number, register, work =>
      let (bit, work) := nextBit c sink level slice .payload work
      let register := push register bit
      let work := if number % 8 = 7 then work.put (number / 8) register.toUInt8 else work
      readBitwise push last left (number + 1) register work

/-- Stores the payload. -/
def readPayload (work : Work σ size) : Work σ size :=
  match c.packing with
  | .octetLsb => readOctets c sink level slice Packing.octetLow c.payloadBytes 0 work
  | .octetMsb => readOctets c sink level slice Packing.octetHigh c.payloadBytes 0 work
  | .bitwiseLsb =>
      readBitwise c sink level slice
        (fun register bit => register >>> 1 ||| (if bit then 0x80 else 0))
        (fun register filled => (register >>> UInt32.ofNat (8 - filled)).toUInt8)
        c.payloadBits 0 0 work
  | .bitwiseMsb =>
      readBitwise c sink level slice shiftIn
        (fun register filled => (register &&& lowBits filled).toUInt8) c.payloadBits 0 0 work

end Data

/-- Reads what follows a clock run-in, and tells whether it is the right transmission. -/
def readData (lock : Lock) (work : Work σ size) : Work σ size × Bool :=
  if !c.fits lock then (work, false)
  else
    let (word, work) := readFrc c sink level lock.slice c.frcBits 0 work
    if word != c.frc then (work, false) else (readPayload c sink level lock.slice work, true)

/-- Searches `left` samples from sample `index` on, and reads what follows the run-in. -/
def searchSamples :
    (left index : Nat) → Clock → Work σ size → Work σ size × Bool
  | 0, _, _, work => (work, false)
  | left + 1, index, clock, work =>
      let now := level index
      let next := level (index + 1)
      let slice := c.sliceLevel work.threshold
      let work := { work with threshold := c.adapt work.threshold now next }
      match c.searchSteps sink.criBit index now next slice c.layout.oversampling clock
          work.sink with
      | .locked position heard =>
          let lock : Lock := ⟨position, slice, work.threshold⟩
          readData c sink level lock { work with
            position := c.firstBit lock
            sink := sink.criMatched c.criBits heard }
      | .searching clock heard => searchSamples left (index + 1) clock { work with sink := heard }

/-- Slices a line. -/
def sliceLine (work : Work σ size) : Work σ size × Bool :=
  searchSamples c sink level (c.criEnd - c.sampleOffset) c.sampleOffset .start work

end Line

/-! ## Entries of a buffer -/

section Store

variable {α : Type}

/-- Stores entries one after the other. -/
def storeFrom (place : Nat) : List α → Vector α size → Vector α size
  | [], buffer => buffer
  | entry :: rest, buffer => storeFrom (place + 1) rest (buffer.setIfInBounds place entry)

theorem getElem_storeFrom (place : Nat) (entries : List α) (buffer : Vector α size) {i : Nat}
    (hi : i < size) :
    (storeFrom place entries buffer)[i] =
      if i < place then buffer[i] else entries[i - place]?.getD buffer[i] := by
  induction entries generalizing place buffer with
  | nil => simp [storeFrom]
  | cons entry rest ih =>
      rw [storeFrom, ih, Vector.getElem_setIfInBounds]
      rcases Nat.lt_trichotomy i place with hlt | rfl | hgt
      · rw [if_pos (Nat.lt_succ_of_lt hlt), if_neg (Nat.ne_of_gt hlt), if_pos hlt]
      · simp
      · obtain ⟨behind, rfl⟩ := Nat.exists_eq_add_of_lt hgt
        have hfirst : place + behind + 1 - (place + 1) = behind := by omega
        have hall : place + behind + 1 - place = behind + 1 := by omega
        rw [if_neg (by omega), if_neg (by omega), if_neg (by omega), hfirst, hall,
          List.getElem?_cons_succ]

theorem storeFrom_zero (entries : List α) (buffer : Vector α size) :
    storeFrom 0 entries buffer = overwrite entries buffer := by
  ext i hi
  rw [getElem_storeFrom 0 entries buffer hi, if_neg (Nat.not_lt_zero i), Nat.sub_zero]
  simp [overwrite]

end Store

/-- Stores some bytes of the payload. -/
def Work.store (work : Work σ size) (place : Nat) (bytes : List UInt8) : Work σ size :=
  { work with buffer := storeFrom place bytes work.buffer }

/-! ## Decisions behind the run-in -/

/-- Hands on some decisions, which are a step apart. -/
def Work.tell (work : Work σ size) (c : SlicerConfig) (sink : Sink σ) (points : List Point) :
    Work σ size :=
  { work with
    position := work.position + points.length * c.step
    sink := points.foldl (fun heard point => sink.dataBit point heard) work.sink }

section Data

variable {c : SlicerConfig} {sink : Sink σ} {level : Nat → Nat} {slice : Int}

theorem tell_nil (work : Work σ size) : work.tell c sink [] = work := by
  simp [Work.tell]

theorem tell_append (work : Work σ size) (front rest : List Point) :
    (work.tell c sink front).tell c sink rest = work.tell c sink (front ++ rest) := by
  simp [Work.tell, Nat.add_mul, Nat.add_assoc]

theorem tell_cons (work : Work σ size) (point : Point) (rest : List Point) :
    (work.tell c sink [point]).tell c sink rest = work.tell c sink (point :: rest) :=
  tell_append work [point] rest

theorem nextBit_eq (kind : PointKind) (work : Work σ size) :
    nextBit c sink level slice kind work =
      ((SlicerConfig.pointAt level slice kind work.position).bit,
        work.tell c sink [SlicerConfig.pointAt level slice kind work.position]) := by
  simp [nextBit, Work.tell]

theorem readFrc_eq (left : Nat) (word : UInt32) (work : Work σ size) :
    readFrc c sink level slice left word work =
      (((c.points level slice .frc left work.position).map Point.bit).foldl shiftIn word,
        work.tell c sink (c.points level slice .frc left work.position)) := by
  induction left generalizing word work with
  | zero => rw [readFrc, SlicerConfig.points, tell_nil]; rfl
  | succ left ih =>
      rw [readFrc, nextBit_eq]
      dsimp only
      rw [ih, tell_cons, SlicerConfig.points, List.map_cons, List.foldl_cons]
      simp [Work.tell]

theorem readBits_eq (left : Nat) (work : Work σ size) :
    readBits c sink level slice left work =
      ((c.points level slice .payload left work.position).map Point.bit,
        work.tell c sink (c.points level slice .payload left work.position)) := by
  induction left generalizing work with
  | zero => rw [readBits, SlicerConfig.points, tell_nil]; rfl
  | succ left ih =>
      rw [readBits, nextBit_eq]
      dsimp only
      rw [ih, tell_cons, SlicerConfig.points, List.map_cons]
      simp [Work.tell]

theorem points_add (kind : PointKind) (first rest position : Nat) :
    c.points level slice kind (first + rest) position =
      c.points level slice kind first position ++
        c.points level slice kind rest (position + first * c.step) := by
  induction first generalizing position with
  | zero => simp [SlicerConfig.points]
  | succ first ih =>
      have hbehind : position + c.step + first * c.step = position + (first + 1) * c.step := by
        ring
      rw [Nat.succ_add, SlicerConfig.points, ih, hbehind, SlicerConfig.points, List.cons_append]

theorem readOctets_eq (octet : List Bool → UInt8) (left place : Nat) (work : Work σ size) :
    readOctets c sink level slice octet left place work =
      (work.store place (Packing.octets octet
        ((c.points level slice .payload (8 * left) work.position).map Point.bit) left)).tell c sink
          (c.points level slice .payload (8 * left) work.position) := by
  induction left generalizing place work with
  | zero => rw [readOctets, Nat.mul_zero, SlicerConfig.points, tell_nil]; rfl
  | succ left ih =>
      rw [readOctets, readBits_eq]
      dsimp only
      rw [ih, Nat.mul_succ, Nat.add_comm (8 * left), points_add, ← tell_append, Packing.octets,
        List.map_append]
      have hlength :
          ((c.points level slice .payload 8 work.position).map Point.bit).length = 8 := by
        simp
      rw [List.take_left' hlength, List.drop_left' hlength]
      simp [Work.tell, Work.store, Work.put, storeFrom]

/-- A payload of whole octets has all of its bits in them. -/
theorem readOctets_of_whole (hwhole : c.payloadBits = 8 * c.payloadBytes)
    (octet : List Bool → UInt8) (work : Work σ size) :
    readOctets c sink level slice octet c.payloadBytes 0 work =
      (work.store 0 (Packing.octets octet
        ((c.points level slice .payload c.payloadBits work.position).map Point.bit)
          (c.payloadBits / 8))).tell c sink
            (c.points level slice .payload c.payloadBits work.position) := by
  rw [readOctets_eq, ← hwhole, hwhole, Nat.mul_div_cancel_left _ (by decide)]

/-- Bytes that leave a register bit by bit are stored at the places of their bits. -/
theorem readBitwise_eq {push : UInt32 → Bool → UInt32} {last : UInt32 → Nat → UInt8}
    {bytes : UInt32 → Nat → List Bool → List UInt8}
    (hnil : ∀ register filled, bytes register filled [] = [last register filled])
    (hcons : ∀ register filled bit rest, bytes register filled (bit :: rest) =
      if filled = 7 then (push register bit).toUInt8 :: bytes (push register bit) 0 rest
      else bytes (push register bit) (filled + 1) rest)
    (left number : Nat) (register : UInt32) (work : Work σ size) :
    readBitwise c sink level slice push last left number register work =
      (work.store (number / 8) (bytes register (number % 8)
        ((c.points level slice .payload left work.position).map Point.bit))).tell c sink
          (c.points level slice .payload left work.position) := by
  induction left generalizing number register work with
  | zero =>
      rw [readBitwise, SlicerConfig.points, tell_nil, List.map_nil, hnil]
      rfl
  | succ left ih =>
      rw [readBitwise, nextBit_eq]
      dsimp only
      rw [ih, SlicerConfig.points, ← tell_cons, List.map_cons, hcons]
      -- Only an eighth bit completes a byte, and then the place moves on with the number.
      by_cases hfull : number % 8 = 7
      · have hnext : (number + 1) / 8 = number / 8 + 1 ∧ (number + 1) % 8 = 0 := by omega
        rw [if_pos hfull, if_pos hfull, hnext.1, hnext.2]
        simp [Work.tell, Work.store, Work.put, storeFrom]
        ring
      · have hnext : (number + 1) / 8 = number / 8 ∧ (number + 1) % 8 = number % 8 + 1 := by omega
        rw [if_neg hfull, if_neg hfull, hnext.1, hnext.2]
        simp [Work.tell, Work.store]
        ring

/-- The payload is stored as the bytes that its bits are put together to. -/
theorem readPayload_eq {target : Target} (hconfig : SlicerConfig.ofTarget target = .ok c)
    (work : Work σ size) :
    readPayload c sink level slice work =
      (work.store 0 (c.packing.bytes
        ((c.points level slice .payload c.payloadBits work.position).map Point.bit))).tell c sink
          (c.points level slice .payload c.payloadBits work.position) := by
  have hlength : ((c.points level slice .payload c.payloadBits work.position).map
      Point.bit).length = c.payloadBits := by
    simp
  rw [readPayload]
  cases hpacking : c.packing with
  | octetLsb =>
      have hoctets := SlicerConfig.payloadBits_eq_of_octets hconfig (Or.inl hpacking)
      simp only [Packing.bytes, hlength]
      exact readOctets_of_whole hoctets _ work
  | octetMsb =>
      have hoctets := SlicerConfig.payloadBits_eq_of_octets hconfig (Or.inr hpacking)
      simp only [Packing.bytes, hlength]
      exact readOctets_of_whole hoctets _ work
  | bitwiseLsb =>
      exact readBitwise_eq (fun _ _ => rfl) (fun _ _ _ _ => rfl) _ 0 0 work
  | bitwiseMsb =>
      exact readBitwise_eq (fun _ _ => rfl) (fun _ _ _ _ => rfl) _ 0 0 work

/-- Behind a run-in the payload is stored if it is received, and nothing otherwise. -/
theorem readData_eq {target : Target} (hconfig : SlicerConfig.ofTarget target = .ok c)
    {lock : Lock} {work : Work σ size} (hposition : work.position = c.firstBit lock) :
    readData c sink level lock work =
      match c.receive level lock with
      | none => (work.tell c sink (c.frcPoints level lock), false)
      | some reception =>
          ((work.store 0 reception.payload).tell c sink reception.points, true) := by
  rw [readData, SlicerConfig.receive]
  cases hfits : c.fits lock with
  | false => simp [SlicerConfig.frcPoints, hfits, tell_nil]
  | true =>
      have hfrc : c.frcPoints level lock =
          c.points level lock.slice .frc c.frcBits (c.firstBit lock) := by
        rw [SlicerConfig.frcPoints, if_pos hfits]
      rw [readFrc_eq, hposition, ← hfrc, ← wordOfBits]
      by_cases hmatch : wordOfBits ((c.frcPoints level lock).map Point.bit) = c.frc
      · have hbehind : (work.tell c sink (c.frcPoints level lock)).position =
            c.firstBit lock + c.frcBits * c.step := by
          simp [Work.tell, hposition, hfrc]
        have hpayload : c.points level lock.slice .payload c.payloadBits
            (c.firstBit lock + c.frcBits * c.step) = c.payloadPoints level lock := rfl
        simp [hmatch, readPayload_eq hconfig, hbehind, hpayload, ← tell_append]
        rfl
      · simp [hmatch]

end Data

/-! ## The search -/

section Search

variable {c : SlicerConfig} {sink : Sink σ} {level : Nat → Nat}

/-- What every bit of the run-in keeps is kept by the steps of a sample. -/
theorem searchSteps_keeps {Keeps : σ → Prop}
    (hbit : ∀ point heard, Keeps heard → Keeps (sink.criBit point heard))
    {index now next left : Nat} {slice : Int} {clock after : Clock} {heard later : σ}
    (h : Keeps heard)
    (hsteps : c.searchSteps sink.criBit index now next slice left clock heard =
      .searching after later) : Keeps later := by
  induction left generalizing clock heard with
  | zero =>
      obtain ⟨_, rfl⟩ := Progress.searching.inj hsteps
      exact h
  | succ left ih =>
      rw [SlicerConfig.searchSteps_succ] at hsteps
      dsimp only at hsteps
      split at hsteps
      next => cases hsteps
      next =>
        refine ih ?_ hsteps
        split
        next => exact hbit _ _ h
        next => exact h

theorem searchSamples_of_none {Keeps : σ → Prop}
    (hbit : ∀ point heard, Keeps heard → Keeps (sink.criBit point heard)) {left index : Nat}
    {clock : Clock} {work : Work σ size} (hkeeps : Keeps work.sink)
    (h : c.searchSamples sink.criBit level left index work.threshold clock work.sink = none) :
    ∃ after, searchSamples c sink level left index clock work = (after, false) ∧
      after.buffer = work.buffer ∧ Keeps after.sink := by
  induction left generalizing index clock work with
  | zero => exact ⟨work, rfl, rfl, hkeeps⟩
  | succ left ih =>
      rw [SlicerConfig.searchSamples] at h
      rw [searchSamples]
      dsimp only at h ⊢
      cases hsteps : c.searchSteps sink.criBit index (level index) (level (index + 1))
          (c.sliceLevel work.threshold) c.layout.oversampling clock work.sink with
      | locked position later =>
          rw [hsteps] at h
          cases h
      | searching later heard =>
          rw [hsteps] at h
          have hheard := searchSteps_keeps hbit hkeeps hsteps
          -- The threshold that moved is part of the memory here, and an argument there.
          apply ih
          · exact hheard
          · exact h

theorem searchSamples_of_lock {left index : Nat} {clock : Clock} {work : Work σ size}
    {lock : Lock} {heard : σ}
    (h : c.searchSamples sink.criBit level left index work.threshold clock work.sink =
      some (lock, heard)) :
    searchSamples c sink level left index clock work = readData c sink level lock { work with
      threshold := lock.threshold
      position := c.firstBit lock
      sink := sink.criMatched c.criBits heard } := by
  induction left generalizing index clock work with
  | zero => cases h
  | succ left ih =>
      rw [SlicerConfig.searchSamples] at h
      rw [searchSamples]
      dsimp only at h ⊢
      cases hsteps : c.searchSteps sink.criBit index (level index) (level (index + 1))
          (c.sliceLevel work.threshold) c.layout.oversampling clock work.sink with
      | locked position later =>
          rw [hsteps] at h
          obtain ⟨rfl, rfl⟩ := Prod.mk.inj (Option.some.inj h)
          rfl
      | searching later heard =>
          rw [hsteps] at h
          apply ih
          exact h

/-- Without a run-in nothing is stored. -/
theorem sliceLine_of_none (sink : Sink σ) (Keeps : σ → Prop)
    (hbit : ∀ point heard, Keeps heard → Keeps (sink.criBit point heard))
    {work : Work σ size} (hkeeps : Keeps work.sink)
    (h : c.search List.cons level work.threshold [] = none) :
    ∃ after, sliceLine c sink level work = (after, false) ∧ after.buffer = work.buffer ∧
      Keeps after.sink := by
  apply searchSamples_of_none hbit hkeeps
  rw [← SlicerConfig.search, SlicerConfig.search_eq_foldr, h, Option.map_none]

/-- Behind a run-in the payload is stored if it is received, and nothing otherwise. The bits of
the run-in are handed on from the earliest one. -/
theorem sliceLine_of_lock {target : Target} (hconfig : SlicerConfig.ofTarget target = .ok c)
    {work : Work σ size} {lock : Lock} {latest : List Point}
    (h : c.search List.cons level work.threshold [] = some (lock, latest)) :
    let locked : Work σ size := { work with
      threshold := lock.threshold
      position := c.firstBit lock
      sink := sink.criMatched c.criBits (latest.foldr sink.criBit work.sink) }
    sliceLine c sink level work =
      match c.receive level lock with
      | none => (locked.tell c sink (c.frcPoints level lock), false)
      | some reception =>
          ((locked.store 0 reception.payload).tell c sink reception.points, true) := by
  have hsearch : c.search sink.criBit level work.threshold work.sink =
      some (lock, latest.foldr sink.criBit work.sink) := by
    rw [SlicerConfig.search_eq_foldr, h, Option.map_some]
  rw [sliceLine, searchSamples_of_lock hsearch]
  exact readData_eq hconfig rfl

end Search

/-! ## The line -/

section Receive

variable {target : Target} {s next : Slicer} {reception : Reception} {level : Nat → Nat}
  (sink : Sink σ) (work : Work σ size)

theorem sliceLine_of_receive_none (hconfig : SlicerConfig.ofTarget target = .ok s.config)
    (hthreshold : work.threshold = s.threshold) (h : s.receive level = none) :
    (sliceLine s.config sink level work).2 = false ∧
      (sliceLine s.config sink level work).1.buffer = work.buffer := by
  unfold Slicer.receive at h
  rw [SlicerConfig.search_eq_foldr, ← hthreshold] at h
  cases hsearch : s.config.search List.cons level work.threshold [] with
  | none =>
      obtain ⟨after, hafter, hbuffer, _⟩ :=
        sliceLine_of_none sink (fun _ => True) (fun _ _ _ => trivial) trivial hsearch
      rw [hafter]
      exact ⟨rfl, hbuffer⟩
  | some found =>
      obtain ⟨lock, latest⟩ := found
      cases hreceive : s.config.receive level lock with
      | none =>
          rw [sliceLine_of_lock hconfig hsearch, hreceive]
          exact ⟨rfl, rfl⟩
      | some reception => simp [hsearch, hreceive] at h

theorem sliceLine_of_receive (hconfig : SlicerConfig.ofTarget target = .ok s.config)
    (hthreshold : work.threshold = s.threshold)
    (h : s.receive level = some (next, reception)) :
    (sliceLine s.config sink level work).2 = true ∧
      (sliceLine s.config sink level work).1.threshold = next.threshold ∧
      (sliceLine s.config sink level work).1.buffer = overwrite reception.payload work.buffer := by
  obtain ⟨lock, hsearch, hreceive, rfl⟩ := Slicer.receive_eq_some h
  rw [SlicerConfig.search_eq_foldr, ← hthreshold] at hsearch
  obtain ⟨⟨_, latest⟩, hlatest, hlock⟩ := Option.map_eq_some_iff.mp hsearch
  obtain ⟨rfl, _⟩ := Prod.mk.inj hlock
  rw [sliceLine_of_lock hconfig hlatest, hreceive]
  exact ⟨rfl, rfl, storeFrom_zero reception.payload work.buffer⟩

end Receive

end InPlace

end Blanking
