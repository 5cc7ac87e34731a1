import Blanking.Proofs.Slicer.Recorder

/-! # A slicer in its memory

A configuration, which may be missing, and a threshold that is changed while a line is searched.
Before the search the threshold is saved, and where nothing is found it is restored. Every
operation answers as it does for a receiver, and a line is either sliced as a whole or leaves all
as it was. -/

namespace Blanking

/-- Only a target that passed its check leads to a configuration. -/
def SlicerConfig.Made (config : Option SlicerConfig) : Prop :=
  ∀ c ∈ config, ∃ target, ofTarget target = .ok c

theorem SlicerConfig.made_none : Made none := fun _ h => absurd h (Option.not_mem_none _)

theorem SlicerConfig.made_some {target : Target} {c : SlicerConfig}
    (h : ofTarget target = .ok c) : Made (some c) :=
  fun _ hc => ⟨target, Option.mem_some.mp hc ▸ h⟩

/-- The memory of a slicer. -/
structure Device where
  config : Option SlicerConfig
  /-- The adapted threshold, left over from before if there is no configuration. -/
  threshold : Int
  /-- Whether the use without a configuration was reported. -/
  warned : Bool
  made : SlicerConfig.Made config

namespace Device

open InPlace

def blank : Device := ⟨none, 0, false, SlicerConfig.made_none⟩

/-- Looks for another target from now on. Without a configuration for it there is none. -/
def configure (d : Device) (target : Target) : Device × Except TargetError Unit :=
  match h : SlicerConfig.ofTarget target with
  | .error cause => (⟨none, d.threshold, false, SlicerConfig.made_none⟩, .error cause)
  | .ok c => (⟨some c, c.layout.seed, false, SlicerConfig.made_some h⟩, .ok ())

/-- The memory of a slicer that has seen no line yet. -/
def new (target : Target) : Except TargetError Device :=
  match blank.configure target with
  | (_, .error cause) => .error cause
  | (d, .ok ()) => .ok d

/-- The memory once the use without a configuration was reported. -/
def warn (d : Device) : Device := { d with warned := true }

/-- The memory with another threshold. -/
def adapt (d : Device) (threshold : Int) : Device := { d with threshold := threshold }

def slicer (d : Device) (c : SlicerConfig) : Slicer := ⟨c, d.threshold⟩

def payloadBytes (d : Device) : Nat := (d.config.map (·.payloadBytes)).getD 0

section Line

variable {σ : Type} {size count : Nat}

/-- Searches a line. A threshold that led to nothing is given up again. -/
def search (d : Device) (c : SlicerConfig) (sink : Sink σ) (heard : σ)
    (buffer : Vector UInt8 size) (row : ByteArray) : Device × Work σ size × Bool :=
  let saved := d.threshold
  let (work, found) := sliceLine c sink (c.layout.level row) ⟨d.threshold, 0, heard, buffer⟩
  (d.adapt (if found then work.threshold else saved), work, found)

/-- Searches a line, and puts the payload into a buffer. -/
def slice (d : Device) (buffer : Vector UInt8 size) (row : ByteArray) :
    Device × Vector UInt8 size × Except SliceError Bool :=
  match d.config with
  | none => (d.warn, buffer, .ok false)
  | some c =>
      match (d.slicer c).checkSizes size row with
      | .error cause => (d, buffer, .error cause)
      | .ok () =>
          let (next, work, found) := d.search c .forget () buffer row
          (next, work.buffer, .ok found)

/-- Searches a line, puts the payload into a buffer, and records the decisions. -/
def slicePoints (d : Device) (buffer : Vector UInt8 size) (points : Vector Point count)
    (row : ByteArray) :
    Device × Vector UInt8 size × Vector Point count × Except SliceError (Option Nat) :=
  match d.config with
  | none => (d.warn, buffer, points, .ok none)
  | some c =>
      match (d.slicer c).checkPoints count with
      | .error cause => (d, buffer, points, .error cause)
      | .ok () =>
          match (d.slicer c).checkSizes size row with
          | .error cause => (d, buffer, points, .error cause)
          | .ok () =>
              let (next, work, found) := d.search c (.record count) (.start points) buffer row
              (next, work.buffer, work.sink.out,
                .ok (if found then some work.sink.length else none))

/-! ## What the operations do -/

theorem configure_of_ok (d : Device) {target : Target} {c : SlicerConfig}
    (h : SlicerConfig.ofTarget target = .ok c) :
    d.configure target =
      (⟨some c, c.layout.seed, false, SlicerConfig.made_some h⟩, .ok ()) := by
  unfold configure
  split
  next hcause => cases h.symm.trans hcause
  next other hother =>
    obtain rfl := Except.ok.inj (h.symm.trans hother)
    rfl

theorem configure_of_error (d : Device) {target : Target} {cause : TargetError}
    (h : SlicerConfig.ofTarget target = .error cause) :
    d.configure target =
      (⟨none, d.threshold, false, SlicerConfig.made_none⟩, .error cause) := by
  unfold configure
  split
  next other hother =>
    obtain rfl := Except.error.inj (h.symm.trans hother)
    rfl
  next hc => cases h.symm.trans hc

variable {d : Device} {c : SlicerConfig} (buffer : Vector UInt8 size)
  (points : Vector Point count) (row : ByteArray)

theorem slice_of_none (h : d.config = none) :
    d.slice buffer row = (d.warn, buffer, .ok false) := by
  simp only [slice, h]

theorem slicePoints_of_none (h : d.config = none) :
    d.slicePoints buffer points row = (d.warn, buffer, points, .ok none) := by
  simp only [slicePoints, h]

theorem search_eq (h : d.config = some c) (sink : Sink σ) (heard : σ) :
    ((d.search c sink heard buffer row).1, (d.search c sink heard buffer row).2.1.buffer,
        (d.search c sink heard buffer row).2.2) =
      match (d.slicer c).receive (c.layout.level row) with
      | none => (d, buffer, false)
      | some (next, reception) =>
          (d.adapt next.threshold, overwrite reception.payload buffer, true) := by
  obtain ⟨target, hconfig⟩ := d.made c h
  simp only [search]
  cases hreceive : (d.slicer c).receive (c.layout.level row) with
  | none =>
      -- Wherever the search went, the threshold that was saved is put back.
      obtain ⟨hfound, hbuffer⟩ := @sliceLine_of_receive_none _ _ _ (d.slicer c) _ sink
        ⟨d.threshold, 0, heard, buffer⟩ hconfig rfl hreceive
      simp only [slicer] at hfound hbuffer
      simp [hfound, hbuffer, adapt]
  | some found =>
      obtain ⟨hfound, hthreshold, hbuffer⟩ := sliceLine_of_receive sink
        ⟨d.threshold, 0, heard, buffer⟩ hconfig rfl hreceive
      simp only [slicer] at hfound hthreshold hbuffer
      simp [hfound, hthreshold, hbuffer]

theorem slice_of_some (h : d.config = some c) :
    d.slice buffer row =
      match (d.slicer c).checkSizes size row with
      | .error cause => (d, buffer, .error cause)
      | .ok () =>
          match (d.slicer c).receive (c.layout.level row) with
          | none => (d, buffer, .ok false)
          | some (next, reception) =>
              (d.adapt next.threshold, overwrite reception.payload buffer, .ok true) := by
  have hsearch := search_eq buffer row h .forget ()
  simp only [slice, h]
  cases (d.slicer c).checkSizes size row with
  | error cause => rfl
  | ok =>
      dsimp only
      generalize d.search c .forget () buffer row = result at hsearch
      obtain ⟨next, work, found⟩ := result
      cases hreceive : (d.slicer c).receive (c.layout.level row) with
      | none => simpa [hreceive] using hsearch
      | some received => simpa [hreceive] using hsearch

theorem slicePoints_of_some (h : d.config = some c) :
    d.slicePoints buffer points row =
      match (d.slicer c).checkPoints count with
      | .error cause => (d, buffer, points, .error cause)
      | .ok () =>
          match (d.slicer c).checkSizes size row with
          | .error cause => (d, buffer, points, .error cause)
          | .ok () =>
              let (recorded, received) := (d.slicer c).trace (c.layout.level row)
              match received with
              | none => (d, buffer, overwrite recorded points, .ok none)
              | some (next, reception) =>
                  (d.adapt next.threshold, overwrite reception.payload buffer,
                    overwrite recorded points, .ok (some recorded.length)) := by
  obtain ⟨target, hconfig⟩ := d.made c h
  have hsearch := search_eq buffer row h (.record count) (.start points)
  simp only [slicePoints, h]
  cases hpoints : (d.slicer c).checkPoints count with
  | error cause => rfl
  | ok =>
      dsimp only
      cases (d.slicer c).checkSizes size row with
      | error cause => rfl
      | ok =>
          have hroom : c.pointCount ≤ count := (Slicer.checkPoints_eq_ok_iff.mp hpoints).2
          have hsink : (d.search c (.record count) (.start points) buffer row).2.1.sink.Shows
              ((d.slicer c).trace (c.layout.level row)).1 points :=
            sliceLine_shows hconfig hroom rfl rfl
          rw [← Slicer.trace_snd] at hsearch
          dsimp only
          generalize d.search c (.record count) (.start points) buffer row = result
            at hsearch hsink
          obtain ⟨next, work, found⟩ := result
          generalize (d.slicer c).trace (c.layout.level row) = traced at hsearch hsink
          obtain ⟨recorded, received⟩ := traced
          obtain ⟨hout, hlength⟩ := hsink
          dsimp only at hout hlength
          cases received with
          | none => simpa [hout] using hsearch
          | some received => simpa [hout, hlength] using hsearch

end Line

/-! ## The receiver in the memory -/

/-- The receiver that the memory belongs to. -/
def view (d : Device) : Receiver := ⟨d.config.map d.slicer, d.warned⟩

section View

variable {size count : Nat} {d : Device} {c : SlicerConfig}

theorem view_of_some (h : d.config = some c) : d.view = ⟨some (d.slicer c), d.warned⟩ := by
  rw [view, h, Option.map_some]

/-- What was received with a threshold changes nothing but that threshold. -/
theorem view_adapt (h : d.config = some c) {level : Nat → Nat} {next : Slicer}
    {reception : Reception} (hreceive : (d.slicer c).receive level = some (next, reception)) :
    (d.adapt next.threshold).view = { d.view with slicer := some next } := by
  have hconfig : next.config = c := Slicer.config_receive hreceive
  have hnext : (d.adapt next.threshold).slicer c = next := by
    rw [← hconfig]
    rfl
  have hafter : (d.adapt next.threshold).config = some c := h
  rw [view_of_some hafter, hnext, view_of_some h]
  rfl

theorem view_slice (d : Device) (buffer : Vector UInt8 size) (row : ByteArray) :
    ((d.slice buffer row).1.view, (d.slice buffer row).2) = d.view.slice buffer row := by
  cases hconfig : d.config with
  | none => simp [slice_of_none buffer row hconfig, Receiver.slice, view, warn, hconfig]
  | some c =>
      rw [slice_of_some buffer row hconfig, Receiver.slice, view_of_some hconfig]
      dsimp only
      rw [Slicer.slice]
      cases (d.slicer c).checkSizes size row with
      | error cause => simp [view_of_some hconfig]
      | ok =>
          have hslicer : (d.slicer c).config = c := rfl
          rw [hslicer]
          cases hreceive : (d.slicer c).receive (c.layout.level row) with
          | none => simp [view_of_some hconfig]
          | some received => simp [view_adapt hconfig hreceive, view_of_some hconfig]

theorem view_slicePoints (d : Device) (buffer : Vector UInt8 size) (points : Vector Point count)
    (row : ByteArray) :
    ((d.slicePoints buffer points row).1.view, (d.slicePoints buffer points row).2) =
      d.view.slicePoints buffer points row := by
  cases hconfig : d.config with
  | none =>
      simp [slicePoints_of_none buffer points row hconfig, Receiver.slicePoints, view, warn,
        hconfig]
  | some c =>
      rw [slicePoints_of_some buffer points row hconfig, Receiver.slicePoints,
        view_of_some hconfig]
      dsimp only
      rw [Slicer.slicePoints]
      cases (d.slicer c).checkPoints count with
      | error cause => simp [view_of_some hconfig]
      | ok =>
          cases (d.slicer c).checkSizes size row with
          | error cause => simp [view_of_some hconfig]
          | ok =>
              have hslicer : (d.slicer c).config = c := rfl
              have hreceive := Slicer.trace_snd (d.slicer c) (c.layout.level row)
              rw [hslicer]
              generalize (d.slicer c).trace (c.layout.level row) = traced at hreceive
              obtain ⟨recorded, received⟩ := traced
              cases received with
              | none => simp [view_of_some hconfig]
              | some received => simp [view_adapt hconfig hreceive.symm, view_of_some hconfig]

theorem view_configure (d : Device) (target : Target) :
    ((d.configure target).1.view, (d.configure target).2) = d.view.configure target := by
  rw [Receiver.configure, Slicer.ofTarget]
  cases hconfig : SlicerConfig.ofTarget target with
  | error cause =>
      rw [configure_of_error d hconfig]
      rfl
  | ok c =>
      rw [configure_of_ok d hconfig]
      rfl

end View

/-! ## What a line leaves as it was -/

section Frame

variable {size count : Nat}

/-- Without a match a line leaves everything as it was, and otherwise all but the threshold and
the place of the payload. -/
structure Spares (d : Device) (buffer : Vector UInt8 size) (next : Device)
    (filled : Vector UInt8 size) (found : Prop) : Prop where
  config : next.config = d.config
  threshold : ¬found → next.threshold = d.threshold
  kept : ¬found → filled = buffer
  behind : ∀ place, d.payloadBytes ≤ place → filled[place]? = buffer[place]?

variable (d : Device) (buffer : Vector UInt8 size) (points : Vector Point count)
  (row : ByteArray)

theorem Spares.refl (found : Prop) : d.Spares buffer d buffer found :=
  ⟨rfl, fun _ => rfl, fun _ => rfl, fun _ _ => rfl⟩

theorem Spares.warn (found : Prop) : d.Spares buffer d.warn buffer found :=
  ⟨rfl, fun _ => rfl, fun _ => rfl, fun _ _ => rfl⟩

variable {d} in
theorem Spares.of_receive {c : SlicerConfig} (h : d.config = some c) {level : Nat → Nat}
    {next : Slicer} {reception : Reception}
    (hreceive : (d.slicer c).receive level = some (next, reception)) {found : Prop}
    (hfound : found) :
    d.Spares buffer (d.adapt next.threshold) (overwrite reception.payload buffer) found := by
  obtain ⟨target, hconfig⟩ := d.made c h
  obtain ⟨lock, _, hlock, _⟩ := Slicer.receive_eq_some hreceive
  have hlength := SlicerConfig.length_payload_of_receive hconfig hlock
  refine ⟨rfl, fun hnot => absurd hfound hnot, fun hnot => absurd hfound hnot, ?_⟩
  intro place hplace
  rw [payloadBytes, h, Option.map_some, Option.getD_some, ← hlength] at hplace
  exact getElem?_overwrite_of_le hplace

theorem slice_spares : d.Spares buffer (d.slice buffer row).1 (d.slice buffer row).2.1
    ((d.slice buffer row).2.2 = .ok true) := by
  cases hconfig : d.config with
  | none =>
      rw [slice_of_none buffer row hconfig]
      exact .warn d buffer _
  | some c =>
      rw [slice_of_some buffer row hconfig]
      split
      next => exact .refl d buffer _
      next =>
        split
        next => exact .refl d buffer _
        next hreceive => exact .of_receive buffer hconfig hreceive rfl

theorem slicePoints_spares :
    d.Spares buffer (d.slicePoints buffer points row).1 (d.slicePoints buffer points row).2.1
        (∃ found, (d.slicePoints buffer points row).2.2.2 = .ok (some found)) ∧
      ∀ cause, (d.slicePoints buffer points row).2.2.2 = .error cause →
        (d.slicePoints buffer points row).2.2.1 = points := by
  cases hconfig : d.config with
  | none =>
      rw [slicePoints_of_none buffer points row hconfig]
      exact ⟨.warn d buffer _, fun _ _ => rfl⟩
  | some c =>
      rw [slicePoints_of_some buffer points row hconfig]
      split
      next => exact ⟨.refl d buffer _, fun _ _ => rfl⟩
      next =>
        split
        next => exact ⟨.refl d buffer _, fun _ _ => rfl⟩
        next =>
          have hreceive := Slicer.trace_snd (d.slicer c) (c.layout.level row)
          generalize (d.slicer c).trace (c.layout.level row) = traced at hreceive
          obtain ⟨recorded, received⟩ := traced
          cases received with
          | none => exact ⟨.refl d buffer _, fun _ h => absurd h (by simp)⟩
          | some received =>
              exact ⟨.of_receive buffer hconfig hreceive.symm ⟨_, rfl⟩,
                fun _ h => absurd h (by simp)⟩

end Frame

/-! ## What a configuration leaves behind -/

/-- The memory after one line. -/
def after (d : Device) : Receiver.Call → Device
  | .slice buffer row => (d.slice buffer row).1
  | .slicePoints buffer points row => (d.slicePoints buffer points row).1

/-- The memory after some lines. -/
def run (d : Device) (calls : List Receiver.Call) : Device := calls.foldl after d

theorem config_after (d : Device) (call : Receiver.Call) : (d.after call).config = d.config := by
  cases call with
  | slice buffer row => exact (slice_spares d buffer row).config
  | slicePoints buffer points row => exact (slicePoints_spares d buffer points row).1.config

theorem config_run (d : Device) (calls : List Receiver.Call) :
    (d.run calls).config = d.config := by
  induction calls generalizing d with
  | nil => rfl
  | cons call rest ih => exact (ih (d.after call)).trans (config_after d call)

/-- A slicer that was configured has nothing left of what it was before. -/
theorem new_of_configure {d : Device} {target : Target} (h : (d.configure target).2 = .ok ()) :
    new target = .ok (d.configure target).1 := by
  cases hconfig : SlicerConfig.ofTarget target with
  | error cause =>
      rw [configure_of_error d hconfig] at h
      cases h
  | ok c => rw [new, configure_of_ok d hconfig, configure_of_ok blank hconfig]

theorem config_configure_of_error {d : Device} {target : Target} {cause : TargetError}
    (h : (d.configure target).2 = .error cause) : (d.configure target).1.config = none := by
  cases hconfig : SlicerConfig.ofTarget target with
  | error cause => rw [configure_of_error d hconfig]
  | ok c =>
      rw [configure_of_ok d hconfig] at h
      cases h

/-! ## All or nothing -/

/-- A line is sliced as a whole, or all but the points stays as it was, and these do too if the
line is not searched at all. A slicer that could not be configured finds nothing on any line, and
one that was configured is the same as a new one. -/
theorem whole_or_nothing (d : Device) {size count : Nat} (buffer : Vector UInt8 size)
    (points : Vector Point count) (row : ByteArray) (target : Target) :
    (((d.slice buffer row).1.view, (d.slice buffer row).2) = d.view.slice buffer row ∧
        d.Spares buffer (d.slice buffer row).1 (d.slice buffer row).2.1
          ((d.slice buffer row).2.2 = .ok true)) ∧
      (((d.slicePoints buffer points row).1.view, (d.slicePoints buffer points row).2) =
          d.view.slicePoints buffer points row ∧
        d.Spares buffer (d.slicePoints buffer points row).1 (d.slicePoints buffer points row).2.1
          (∃ found, (d.slicePoints buffer points row).2.2.2 = .ok (some found)) ∧
        ∀ cause, (d.slicePoints buffer points row).2.2.2 = .error cause →
          (d.slicePoints buffer points row).2.2.1 = points) ∧
      ((d.configure target).1.view, (d.configure target).2) = d.view.configure target ∧
      (∀ cause, (d.configure target).2 = .error cause → ∀ calls,
        let later := (d.configure target).1.run calls
        (later.slice buffer row).2 = (buffer, .ok false) ∧
          (later.slicePoints buffer points row).2 = (buffer, points, .ok none)) ∧
      ((d.configure target).2 = .ok () → new target = .ok (d.configure target).1) := by
  refine ⟨⟨view_slice d buffer row, slice_spares d buffer row⟩,
    ⟨view_slicePoints d buffer points row, slicePoints_spares d buffer points row⟩,
    view_configure d target, ?_, new_of_configure⟩
  intro cause hcause calls later
  have hnone : later.config = none :=
    (config_run (d.configure target).1 calls).trans (config_configure_of_error hcause)
  exact ⟨congrArg (·.2) (slice_of_none buffer row hnone),
    congrArg (·.2) (slicePoints_of_none buffer points row hnone)⟩

def shortDevice : Device := (blank.configure Receiver.shortTarget).1

/-- The short line without its framing code. -/
def damagedRow : ByteArray := ⟨(Receiver.shortRow.data.set! 10 16).set! 11 16⟩

/-- The short line is found, and its payload leaves the last byte alone. Without its framing code
it leaves the whole buffer and the threshold alone. -/
theorem whole_or_nothing_shortRow :
    (shortDevice.slice (Vector.replicate 3 (0xEE : UInt8)) Receiver.shortRow).2.2 = .ok true ∧
      (shortDevice.slice (Vector.replicate 3 (0xEE : UInt8)) Receiver.shortRow).2.1[2]? =
        some 0xEE ∧
      (shortDevice.slice (Vector.replicate 3 (0xEE : UInt8)) damagedRow).2.2 = .ok false ∧
      (shortDevice.slice (Vector.replicate 3 (0xEE : UInt8)) damagedRow).2.1 =
        Vector.replicate 3 0xEE ∧
      (shortDevice.slice (Vector.replicate 3 (0xEE : UInt8)) damagedRow).1.threshold =
        shortDevice.threshold := by
  have hfound : (shortDevice.slice (Vector.replicate 3 (0xEE : UInt8)) Receiver.shortRow).2.2 =
      .ok true := by
    decide +kernel
  have hnothing : (shortDevice.slice (Vector.replicate 3 (0xEE : UInt8)) damagedRow).2.2 =
      .ok false := by
    decide +kernel
  have hpayload : shortDevice.payloadBytes = 2 := by decide +kernel
  have hall := fun row => whole_or_nothing shortDevice (Vector.replicate 3 (0xEE : UInt8))
    (Vector.replicate 13 Recorder.blank) row Receiver.shortTarget
  obtain ⟨⟨_, hspared⟩, _⟩ := hall Receiver.shortRow
  obtain ⟨⟨_, hkept⟩, _⟩ := hall damagedRow
  have hnot : ¬(shortDevice.slice (Vector.replicate 3 (0xEE : UInt8)) damagedRow).2.2 =
      .ok true := by
    rw [hnothing]
    decide
  exact ⟨hfound, hspared.behind 2 hpayload.le, hnothing, hkept.kept hnot, hkept.threshold hnot⟩

end Device

end Blanking
