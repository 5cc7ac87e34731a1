import Blanking.Proofs.Decoder.Acceptance
import Blanking.Proofs.Decoder.Bounds

/-! # A decoder in its memory

The operations of a decoder are carried out here step by step on one memory, and what they leave
there is told also where they fail. Taking on a service lays out the lines, which gives up the
jobs there are, before the last of its checks, and another sampling is put in place of the old one
before the services are taken on again. Still each operation either succeeds or leaves the memory
as it was. Accesses are checked as well: there is no result where a line or a job is looked for
that does not exist. -/

namespace Blanking.Decoder.InPlace

/-! ## Operations -/

/-- Lays out the lines before the first service, with a new list of jobs. -/
def layOut (d : Decoder) : Decoder :=
  if d.patterns.isEmpty then
    { d with patterns := List.replicate d.sampling.totalLines .empty, jobs := [] }
  else d

/-- The first job that looks for the signal of a service. -/
def joined? (d : Decoder) (service : Service) : Option Nat :=
  d.jobs.findIdx? fun job => (job.services.insert service).isMergeable

/-- The slicer of a service that has no job to join. -/
def newSlicer (d : Decoder) (joined : Option Nat) (service : Service) (strictness : Strictness) :
    Except AddError (Option Slicer) :=
  match joined with
  | some _ => .ok none
  | none =>
      if maxJobs ≤ d.jobs.length then .error (.tooManyJobs service)
      else
        match Slicer.ofTarget (.ofService service.transmission d.sampling strictness) with
        | .error cause => .error (.noSlicer service cause)
        | .ok slicer => .ok (some slicer)

/-- The first of some lines that has no place for a job. -/
def fullLine? (patterns : List LinePattern) (number : Nat) : List Nat → Option (Option Nat)
  | [] => some none
  | position :: rest =>
      match patterns[position]? with
      | none => none
      | some pattern =>
          if !pattern.contains number && !pattern.hasRoom then some (some position)
          else fullLine? patterns number rest

/-- Puts a job on some lines. -/
def putOn (number : Nat) : List Nat → List LinePattern → Option (List LinePattern)
  | [], patterns => some patterns
  | position :: rest, patterns =>
      match patterns[position]? with
      | none => none
      | some pattern => putOn number rest (patterns.set position (pattern.add number).1)

/-- Gives a service to a job, which may be a new one, and puts the job on its lines. -/
def enroll (d : Decoder) (service : Service) (number : Nat) (slicer : Option Slicer) :
    Option Decoder :=
  let jobs := d.jobs ++ (slicer.map (Job.mk .empty)).toList
  if number < jobs.length then
    (putOn number (d.sampling.candidates service.transmission) d.patterns).map fun patterns =>
      { d with
        services := d.services.insert service
        jobs := jobs.modify number fun job => { job with services := job.services.insert service }
        patterns := patterns }
  else none

/-- Takes on a service. -/
def addService (service : Service) (strictness : Strictness) (d : Decoder) :
    Option (Decoder × Except AddError Unit) :=
  if d.services.contains service then some (d, .ok ())
  else
    match d.sampling.permit service.transmission strictness with
    | .error cause => some (d, .error (.notPermitted cause))
    | .ok () =>
        let joined := joined? d service
        match newSlicer d joined service strictness with
        | .error cause => some (d, .error cause)
        | .ok slicer =>
            let d := layOut d
            let number := joined.getD d.jobs.length
            let positions := d.sampling.candidates service.transmission
            match fullLine? d.patterns number positions with
            | none => none
            | some (some line) => some (d, .error (.lineFull service line))
            | some none => (enroll d service number slicer).map (·, .ok ())

/-- Takes on one service after the other. A refusal is only reported. -/
def addEach (strictness : Strictness) : List Service → Decoder → Option Decoder
  | [], d => some d
  | service :: rest, d =>
      (addService service strictness d).bind fun result => addEach strictness rest result.1

/-- Takes on those services of a set that are not decoded yet, and tells which ones of the set are
decoded then. -/
def addServices (services : ServiceSet) (strictness : Strictness) (d : Decoder) :
    Option (Decoder × ServiceSet) :=
  (addEach strictness (services \ d.services).toList d).map fun d => (d, d.services ∩ services)

/-- Goes on with another sampling, and tells which services are still decoded. -/
def setSampling (s : Sampling) (strictness : Strictness) (d : Decoder) :
    Option (Decoder × Except SamplingError ServiceSet) :=
  match s.validate with
  | .error cause => some (d, .error cause)
  | .ok () =>
      let services := d.services
      let d := { d.reset with sampling := s }
      (addServices services strictness d).map fun (d, added) => (d, .ok added)

/-- Decodes a field pair into an output, and tells how many records were written. -/
def decode {size : Nat} (raw : ByteArray) (memory : Decoder × Vector Record size) :
    Option ((Decoder × Vector Record size) × Except DecodeError Nat) :=
  let (d, output) := memory
  if raw.size < d.sampling.frameSize then
    some (memory, .error (.rawTooShort d.sampling.frameSize raw.size))
  else
    let probe := d.sinceProbe == 0
    let d := { d with sinceProbe := (d.sinceProbe + 1) % probePeriod }
    if d.patterns.isEmpty then some ((d, output), .ok 0)
    else
      (Guarded.decodeLines d.sampling raw probe d.sampling.sites
        ⟨d.jobs, d.patterns, output, 0⟩).map fun last =>
          (({ d with jobs := last.jobs, patterns := last.patterns }, last.output), .ok last.written)

/-- What an operation that succeeds or fails as a whole leaves of a memory, and what it answers. By
a failure the memory is left as it was. -/
def whole {σ ε α : Type} (memory : σ) : Except ε (σ × α) → σ × Except ε α
  | .ok (next, answer) => (next, .ok answer)
  | .error cause => (memory, .error cause)

/-! ## Phases -/

section Phases

variable {patterns : List LinePattern} {number : Nat} {positions : List Nat}

theorem fullLine?_eq (h : ∀ position ∈ positions, position < patterns.length) :
    fullLine? patterns number positions = some (Decoder.fullLine? patterns positions number) := by
  induction positions with
  | nil => rfl
  | cons position rest ih =>
      obtain ⟨hlt, hrest⟩ := List.forall_mem_cons.mp h
      have hget := List.getElem?_eq_getElem hlt
      rw [fullLine?, Decoder.fullLine?, List.find?_cons, hget]
      dsimp only
      split
      next hfull => rw [hfull]
      next hroom => rw [Bool.eq_false_iff.mpr hroom, ih hrest, Decoder.fullLine?]

theorem register_nil (patterns : List LinePattern) (number : Nat) :
    register patterns [] number = patterns := by
  apply List.ext_getElem?
  simp [register]

theorem register_cons {position : Nat} {pattern : LinePattern} (hnot : position ∉ positions)
    (hget : patterns[position]? = some pattern) :
    register (patterns.set position (pattern.add number).1) positions number =
      register patterns (position :: positions) number := by
  obtain ⟨hlt, rfl⟩ := List.getElem?_eq_some_iff.mp hget
  apply List.ext_getElem?
  intro other
  by_cases hsame : position = other
  · subst hsame
    simp [register, hnot, hlt]
  · simp [register, List.getElem?_set_ne hsame, Ne.symm hsame]

theorem putOn_eq (h : ∀ position ∈ positions, position < patterns.length)
    (hnodup : positions.Nodup) :
    putOn number positions patterns = some (register patterns positions number) := by
  induction positions generalizing patterns with
  | nil => rw [putOn, register_nil]
  | cons position rest ih =>
      obtain ⟨hlt, hrest⟩ := List.forall_mem_cons.mp h
      obtain ⟨hnot, hnodup⟩ := List.nodup_cons.mp hnodup
      have hget := List.getElem?_eq_getElem hlt
      rw [putOn, hget]
      dsimp only
      rw [ih (by simpa using hrest) hnodup, register_cons hnot hget]

end Phases

section Job

theorem modify_last (jobs : List Job) (job : Job) (change : Job → Job) :
    (jobs ++ [job]).modify jobs.length change = jobs ++ [change job] := by
  induction jobs with
  | nil => rfl
  | cons first rest ih => rw [List.cons_append, List.length_cons, List.modify_succ_cons, ih]; rfl

variable (d : Decoder) (service : Service) (strictness : Strictness)

theorem assign_eq :
    d.assign service strictness =
      (newSlicer d (joined? d service) service strictness).map fun slicer =>
        ((d.jobs ++ (slicer.map (Job.mk .empty)).toList).modify
            ((joined? d service).getD d.jobs.length) fun job =>
              { job with services := job.services.insert service },
          (joined? d service).getD d.jobs.length) := by
  unfold assign joined? newSlicer
  cases d.jobs.findIdx? fun job => (job.services.insert service).isMergeable with
  | some number => simp [Except.map]
  | none =>
      dsimp only
      split
      next => rfl
      next =>
        cases Slicer.ofTarget (.ofService service.transmission d.sampling strictness) with
        | error cause => rfl
        | ok slicer =>
            have hlast := modify_last d.jobs ⟨.empty, slicer⟩ fun job =>
              { job with services := job.services.insert service }
            have hsingleton : ServiceSet.empty.insert service = .singleton service := by
              simp [ServiceSet.insert, ServiceSet.empty, ServiceSet.singleton]
            simp [Except.map, hlast, hsingleton]

theorem number_lt {slicer : Option Slicer}
    (h : newSlicer d (joined? d service) service strictness = .ok slicer) :
    (joined? d service).getD d.jobs.length <
      (d.jobs ++ (slicer.map (Job.mk .empty)).toList).length := by
  cases hjoined : joined? d service with
  | some number =>
      obtain ⟨hlt, _⟩ := List.findIdx?_eq_some_iff_getElem.mp hjoined
      rw [List.length_append, Option.getD_some]
      exact Nat.lt_add_right _ hlt
  | none =>
      rw [hjoined] at h
      simp only [newSlicer] at h
      split at h
      next => exact absurd h (by simp)
      next =>
        split at h
        next => exact absurd h (by simp)
        next made _ =>
          obtain rfl := Except.ok.inj h
          simp

end Job

/-- Decoding that tells the state only where it succeeds does the same. -/
theorem decode_eq_guarded {size : Nat} (d : Decoder) (raw : ByteArray)
    (output : Vector Record size) :
    InPlace.decode raw (d, output) =
      (Guarded.decode d output raw).map fun
        | .ok (next, output', written) => ((next, output'), .ok written)
        | .error cause => ((d, output), .error cause) := by
  unfold InPlace.decode Guarded.decode
  dsimp only
  split
  next => rfl
  next =>
    split
    next => rfl
    next =>
      cases Guarded.decodeLines d.sampling raw (d.sinceProbe == 0) d.sampling.sites
        ⟨d.jobs, d.patterns, output, 0⟩ <;> rfl

section Reachable

variable {d : Decoder} (h : d.Reachable)

include h

theorem layOut_eq : layOut d = { d with patterns := d.patternsOrNew } := by
  unfold layOut patternsOrNew
  split
  next hempty =>
    rcases h.consistent.length_eq with ⟨_, hjobs⟩ | hlength
    · rw [hjobs]
    · -- A sampling has lines.
      have hpos := h.valid.totalLines_pos
      rw [← hlength, List.isEmpty_iff.mp hempty] at hpos
      exact absurd hpos (Nat.lt_irrefl 0)
  next => rfl

theorem addService_eq (service : Service) (strictness : Strictness) :
    InPlace.addService service strictness d =
      some (whole d ((d.addService service strictness).map (·, ()))) := by
  unfold InPlace.addService Decoder.addService
  by_cases hdecoded : d.services.contains service = true
  · rw [if_pos hdecoded, if_pos hdecoded]
    rfl
  rw [if_neg hdecoded, if_neg hdecoded]
  cases hpermit : d.sampling.permit service.transmission strictness with
  | error cause => rfl
  | ok =>
      dsimp only
      cases hslicer : newSlicer d (joined? d service) service strictness with
      | error cause =>
        rw [assign_eq, hslicer]
        rfl
      | ok slicer =>
        have hassign := assign_eq d service strictness
        rw [hslicer, Except.map] at hassign
        have hroom := h.fullLine?_eq_none (d.sampling.candidates service.transmission)
          (by simpa using hdecoded) hpermit hassign
        have hlines : ∀ position ∈ d.sampling.candidates service.transmission,
            position < d.patternsOrNew.length := by
          rw [h.consistent.patternsOrNew.1]
          exact fun position => Sampling.lt_of_mem_candidates
        rw [hassign, layOut_eq h]
        dsimp only
        rw [fullLine?_eq hlines, hroom]
        dsimp only
        rw [enroll, if_pos (number_lt d service strictness hslicer),
          putOn_eq hlines (d.sampling.nodup_candidates _)]
        rfl

theorem addEach_eq (strictness : Strictness) (services : List Service) :
    InPlace.addEach strictness services d = some (d.addEach strictness services).1 := by
  induction services generalizing d with
  | nil => rfl
  | cons service rest ih =>
      have hnext : (whole d ((d.addService service strictness).map (·, ()))).1 =
          d.after (.addService service strictness) := by
        rw [after]
        cases d.addService service strictness <;> rfl
      rw [InPlace.addEach, addService_eq h, Option.bind_some, hnext, addEach_cons_fst]
      exact ih (h.step _)

theorem addServices_eq (services : ServiceSet) (strictness : Strictness) :
    InPlace.addServices services strictness d =
      some ((d.addServices services strictness).1,
        (d.addServices services strictness).1.services ∩ services) := by
  rw [InPlace.addServices, addEach_eq h]
  rfl

theorem decode_eq {size : Nat} (raw : ByteArray) (output : Vector Record size) :
    InPlace.decode raw (d, output) =
      some (whole (d, output) ((d.decode size raw).map fun (next, records) =>
        ((next, overwrite records output), records.length))) := by
  by_cases hsize : raw.size < d.sampling.frameSize
  · rw [InPlace.decode, Decoder.decode, if_pos hsize, if_pos hsize]
    rfl
  · obtain ⟨next, records, hnext, hguarded⟩ := h.guarded_decode_eq (Nat.le_of_not_lt hsize) output
    rw [decode_eq_guarded, hguarded, hnext]
    rfl

end Reachable

theorem setSampling_eq (d : Decoder) (s : Sampling) (strictness : Strictness) :
    InPlace.setSampling s strictness d =
      some (whole d ((d.setSampling s strictness).map fun (next, _) =>
        (next, next.services ∩ d.services))) := by
  unfold InPlace.setSampling Decoder.setSampling
  cases hvalid : s.validate with
  | error cause => rfl
  | ok =>
      have hfresh : (ofSampling s).Reachable := .new (by rw [Decoder.new, hvalid])
      have hreset : { d.reset with sampling := s } = ofSampling s := rfl
      dsimp only
      rw [hreset, addServices_eq hfresh]
      rfl

end Blanking.Decoder.InPlace
