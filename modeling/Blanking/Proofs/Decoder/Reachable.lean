import Mathlib.Data.List.Basic
import Blanking.Decoder.Basic
import Blanking.Proofs.Service.Set

/-! # Runs of a decoder

A decoder that is used goes through one operation after the other, some of which may fail. What
holds of every new decoder and is kept by taking on one service, by giving up services and by
decoding holds throughout every run. -/

namespace Blanking.Decoder

/-- What a user of a decoder can ask for. -/
inductive Operation where
  | addService (service : Service) (strictness : Strictness)
  | addServices (services : ServiceSet) (strictness : Strictness)
  | removeServices (services : ServiceSet)
  | reset
  | setSampling (s : Sampling) (strictness : Strictness)
  | decode (capacity : Nat) (raw : ByteArray)

/-- The decoder after an operation. One that fails leaves it as it was. -/
def after (d : Decoder) : Operation → Decoder
  | .addService service strictness =>
      match d.addService service strictness with
      | .ok next => next
      | .error _ => d
  | .addServices services strictness => (d.addServices services strictness).1
  | .removeServices services => d.removeServices services
  | .reset => d.reset
  | .setSampling s strictness =>
      match d.setSampling s strictness with
      | .ok (next, _) => next
      | .error _ => d
  | .decode capacity raw =>
      match d.decode capacity raw with
      | .ok (next, _) => next
      | .error _ => d

/-- The states that a decoder can come to. -/
inductive Reachable : Decoder → Prop where
  | new {s : Sampling} {d : Decoder} (h : Decoder.new s = .ok d) : Reachable d
  | step {d : Decoder} (operation : Operation) (h : Reachable d) : Reachable (d.after operation)

/-- The decoder after some operations. -/
def run (d : Decoder) (operations : List Operation) : Decoder := operations.foldl after d

theorem Reachable.run {d : Decoder} (h : d.Reachable) (operations : List Operation) :
    (d.run operations).Reachable := by
  induction operations generalizing d with
  | nil => exact h
  | cons operation rest ih => exact ih (h.step operation)

theorem new_eq_ok {s : Sampling} {d : Decoder} (h : Decoder.new s = .ok d) :
    s.Valid ∧ d = ofSampling s := by
  unfold Decoder.new at h
  split at h
  next hvalid => exact ⟨hvalid, (Except.ok.inj h).symm⟩
  next => exact absurd h (by simp)

/-! ## What each operation does -/

/-- The job that gets a service is one that looks for the same signal, or else a new one. -/
theorem assign_eq_ok {d : Decoder} {service : Service} {strictness : Strictness}
    {jobs : List Job} {number : Nat} (h : d.assign service strictness = .ok (jobs, number)) :
    (∃ job, d.jobs[number]? = some job ∧ (job.services.insert service).isMergeable = true ∧
      jobs = d.jobs.set number { job with services := job.services.insert service }) ∨
    ∃ slicer,
      Slicer.ofTarget (.ofService service.transmission d.sampling strictness) = .ok slicer ∧
      number = d.jobs.length ∧ jobs = d.jobs ++ [⟨.singleton service, slicer⟩] := by
  unfold assign at h
  split at h
  next found hfound =>
    obtain ⟨rfl, rfl⟩ := Prod.mk.inj (Except.ok.inj h)
    obtain ⟨hlt, hmergeable, _⟩ := List.findIdx?_eq_some_iff_getElem.mp hfound
    refine Or.inl ⟨_, List.getElem?_eq_getElem hlt, hmergeable, ?_⟩
    rw [List.modify_eq_set_getElem?, List.getElem?_eq_getElem hlt]
    rfl
  next =>
    split at h
    next => exact absurd h (by simp)
    next =>
      split at h
      next => exact absurd h (by simp)
      next slicer hslicer =>
        obtain ⟨rfl, rfl⟩ := Prod.mk.inj (Except.ok.inj h)
        exact Or.inr ⟨slicer, hslicer, rfl, rfl⟩

/-- What happens when a service is taken on that was not decoded before. -/
structure Added (d : Decoder) (service : Service) (strictness : Strictness) (jobs : List Job)
    (number : Nat) (next : Decoder) : Prop where
  isNew : d.services.contains service = false
  permitted : d.sampling.permit service.transmission strictness = .ok ()
  assigned : d.assign service strictness = .ok (jobs, number)
  hasRoom : fullLine? d.patternsOrNew (d.sampling.candidates service.transmission) number = none
  next_eq : next = { d with
    services := d.services.insert service
    jobs := jobs
    patterns := register d.patternsOrNew (d.sampling.candidates service.transmission) number }

theorem addService_eq_ok {d next : Decoder} {service : Service} {strictness : Strictness}
    (h : d.addService service strictness = .ok next) :
    (next = d ∧ d.services.contains service = true) ∨
      ∃ jobs number, d.Added service strictness jobs number next := by
  unfold addService at h
  split at h
  next hdecoded => exact Or.inl ⟨(Except.ok.inj h).symm, hdecoded⟩
  next hnew =>
    split at h
    next => exact absurd h (by simp)
    next hpermit =>
      split at h
      next => exact absurd h (by simp)
      next jobs number hassign =>
        dsimp only at h
        split at h
        next => exact absurd h (by simp)
        next hroom =>
          exact Or.inr ⟨jobs, number, by simpa using hnew, hpermit, hassign, hroom,
            (Except.ok.inj h).symm⟩

/-- A service gets no job if there are as many as there can be, or if its signal cannot be
sliced. -/
theorem assign_eq_error {d : Decoder} {service : Service} {strictness : Strictness}
    {cause : AddError} (h : d.assign service strictness = .error cause) :
    (maxJobs ≤ d.jobs.length ∧ cause = .tooManyJobs service) ∨
      ∃ reason,
        Slicer.ofTarget (.ofService service.transmission d.sampling strictness) = .error reason ∧
        cause = .noSlicer service reason := by
  unfold assign at h
  split at h
  next => exact absurd h (by simp)
  next =>
    split at h
    next hmany => exact Or.inl ⟨hmany, (Except.error.inj h).symm⟩
    next =>
      split at h
      next reason hreason => exact Or.inr ⟨reason, hreason, (Except.error.inj h).symm⟩
      next => exact absurd h (by simp)

/-- Why a service is not taken on. -/
theorem addService_eq_error {d : Decoder} {service : Service} {strictness : Strictness}
    {cause : AddError} (h : d.addService service strictness = .error cause) :
    d.services.contains service = false ∧
      ((∃ reason, d.sampling.permit service.transmission strictness = .error reason ∧
          cause = .notPermitted reason) ∨
        d.sampling.permit service.transmission strictness = .ok () ∧
          (d.assign service strictness = .error cause ∨
            ∃ jobs number line, d.assign service strictness = .ok (jobs, number) ∧
              fullLine? d.patternsOrNew (d.sampling.candidates service.transmission) number =
                some line ∧ cause = .lineFull service line)) := by
  unfold addService at h
  split at h
  next => exact absurd h (by simp)
  next hnew =>
    refine ⟨by simpa using hnew, ?_⟩
    split at h
    next reason hreason => exact Or.inl ⟨reason, hreason, (Except.error.inj h).symm⟩
    next hpermit =>
      refine Or.inr ⟨hpermit, ?_⟩
      split at h
      next hassign =>
        rw [Except.error.inj h] at hassign
        exact Or.inl hassign
      next jobs number hassign =>
        dsimp only at h
        split at h
        next line hline =>
          exact Or.inr ⟨jobs, number, line, hassign, hline, (Except.error.inj h).symm⟩
        next => exact absurd h (by simp)

theorem sampling_addService {d next : Decoder} {service : Service} {strictness : Strictness}
    (h : d.addService service strictness = .ok next) : next.sampling = d.sampling := by
  rcases addService_eq_ok h with ⟨rfl, _⟩ | ⟨jobs, number, hadded⟩
  · rfl
  · rw [hadded.next_eq]

/-- What happens when a field pair is decoded. -/
theorem decode_eq_ok {d next : Decoder} {capacity : Nat} {raw : ByteArray}
    {records : List Record} (h : d.decode capacity raw = .ok (next, records)) :
    d.sampling.frameSize ≤ raw.size ∧
      next = { d with
        jobs := (d.verdicts capacity raw).1
        patterns := List.zipWith Verdict.learn (d.verdicts capacity raw).2 d.patterns
        sinceProbe := (d.sinceProbe + 1) % probePeriod } ∧
      records = (reports d.sampling (d.verdicts capacity raw).2).map (·.2) := by
  unfold decode at h
  split at h
  next => exact absurd h (by simp)
  next hsize =>
    obtain ⟨hnext, hrecords⟩ := Prod.mk.inj (Except.ok.inj h)
    exact ⟨Nat.le_of_not_lt hsize, hnext.symm, hrecords.symm⟩

theorem setSampling_eq_ok {d next : Decoder} {s : Sampling} {strictness : Strictness}
    {outcomes : List Outcome} (h : d.setSampling s strictness = .ok (next, outcomes)) :
    s.Valid ∧ next = ((ofSampling s).addServices d.services strictness).1 := by
  unfold setSampling at h
  split at h
  next => exact absurd h (by simp)
  next hvalid => exact ⟨hvalid, by rw [Except.ok.inj h]⟩

/-! ## Invariants of runs -/

section Invariant

variable (Inv : Decoder → Prop)

/-- What is kept by taking on one service is kept by taking on several. -/
theorem addEach_invariant
    (hadd : ∀ d next service strictness, Inv d →
      Decoder.addService d service strictness = .ok next → Inv next)
    {d : Decoder} (strictness : Strictness) (services : List Service) (h : Inv d) :
    Inv (d.addEach strictness services).1 := by
  induction services generalizing d with
  | nil => exact h
  | cons service rest ih =>
      unfold addEach
      split
      next => exact ih h
      next next hnext => exact ih (hadd d next service strictness h hnext)

theorem sampling_addEach (d : Decoder) (strictness : Strictness) (services : List Service) :
    (d.addEach strictness services).1.sampling = d.sampling :=
  addEach_invariant (fun next => next.sampling = d.sampling)
    (fun _ _ _ _ hkept hnext => (sampling_addService hnext).trans hkept) strictness services rfl

theorem sampling_run_addServices (d : Decoder) (services : ServiceSet) (strictness : Strictness) :
    (d.run [.addServices services strictness]).sampling = d.sampling :=
  sampling_addEach _ _ _

theorem dropFrom_of_spared {s : Sampling} {removed : ServiceSet} {number : Nat} {jobs : List Job}
    {patterns : List LinePattern}
    (hspared : ∀ job ∈ jobs, job.services.intersects removed = false) :
    dropFrom s removed number jobs patterns = (jobs, patterns) := by
  induction jobs generalizing number with
  | nil => rfl
  | cons job rest ih =>
      rw [dropFrom, hspared job List.mem_cons_self,
        ih fun other hother => hspared other (List.mem_cons_of_mem _ hother)]
      rfl

/-- Services that are not decoded can be given up in the same way as those that are. -/
theorem removeServices_eq (d : Decoder) (services : ServiceSet) :
    d.removeServices services =
      { d with
        services := d.services \ (d.services ∩ services)
        jobs := (dropFrom d.sampling (d.services ∩ services) 0 d.jobs d.patterns).1
        patterns := (dropFrom d.sampling (d.services ∩ services) 0 d.jobs d.patterns).2 } := by
  unfold removeServices
  dsimp only
  split
  next hnone =>
    have hspared (set : ServiceSet) : set.intersects (d.services ∩ services) = false :=
      ServiceSet.not_intersects_of_isEmpty hnone
    rw [ServiceSet.sdiff_eq_self (hspared _), dropFrom_of_spared fun job _ => hspared _]
  next => rfl

theorem sampling_removeServices (d : Decoder) (services : ServiceSet) :
    (d.removeServices services).sampling = d.sampling := by
  rw [removeServices_eq]

/-- What holds of every decoder without services and is kept by each of the three operations
that change more than the sampling holds in every run, and the sampling is always consistent. -/
theorem Reachable.valid_and_invariant
    (hfresh : ∀ s : Sampling, s.Valid → Inv (ofSampling s))
    (hadd : ∀ d next service strictness, Inv d →
      Decoder.addService d service strictness = .ok next → Inv next)
    (hremove : ∀ d services, Inv d → Inv (Decoder.removeServices d services))
    (hdecode : ∀ d next capacity raw records, Inv d →
      Decoder.decode d capacity raw = .ok (next, records) → Inv next)
    {d : Decoder} (h : d.Reachable) : d.sampling.Valid ∧ Inv d := by
  induction h with
  | new hnew =>
      obtain ⟨hvalid, rfl⟩ := new_eq_ok hnew
      exact ⟨hvalid, hfresh _ hvalid⟩
  | @step d operation _ ih =>
      obtain ⟨hvalid, hinv⟩ := ih
      cases operation with
      | addService service strictness =>
          simp only [after]
          split
          next next hnext =>
            rw [sampling_addService hnext]
            exact ⟨hvalid, hadd d next service strictness hinv hnext⟩
          next => exact ⟨hvalid, hinv⟩
      | addServices services strictness =>
          simp only [after, addServices, sampling_addEach]
          exact ⟨hvalid, addEach_invariant Inv hadd strictness _ hinv⟩
      | removeServices services =>
          simp only [after, sampling_removeServices]
          exact ⟨hvalid, hremove d services hinv⟩
      | reset => exact ⟨hvalid, hfresh _ hvalid⟩
      | setSampling s strictness =>
          simp only [after]
          split
          next next outcomes hnext =>
            obtain ⟨hvalid, rfl⟩ := setSampling_eq_ok hnext
            rw [addServices, sampling_addEach]
            exact ⟨hvalid, addEach_invariant Inv hadd strictness _ (hfresh s hvalid)⟩
          next => exact ⟨hvalid, hinv⟩
      | decode capacity raw =>
          simp only [after]
          split
          next next records hnext =>
            have hkept : next.sampling = d.sampling := by rw [(decode_eq_ok hnext).2.1]
            rw [hkept]
            exact ⟨hvalid, hdecode d next capacity raw records hinv hnext⟩
          next => exact ⟨hvalid, hinv⟩

theorem Reachable.invariant
    (hfresh : ∀ s : Sampling, s.Valid → Inv (ofSampling s))
    (hadd : ∀ d next service strictness, Inv d →
      Decoder.addService d service strictness = .ok next → Inv next)
    (hremove : ∀ d services, Inv d → Inv (Decoder.removeServices d services))
    (hdecode : ∀ d next capacity raw records, Inv d →
      Decoder.decode d capacity raw = .ok (next, records) → Inv next)
    {d : Decoder} (h : d.Reachable) : Inv d :=
  (h.valid_and_invariant Inv hfresh hadd hremove hdecode).2

end Invariant

theorem Reachable.valid {d : Decoder} (h : d.Reachable) : d.sampling.Valid :=
  (h.valid_and_invariant (fun _ => True) (fun _ _ => trivial) (fun _ _ _ _ _ _ => trivial)
    (fun _ _ _ => trivial) fun _ _ _ _ _ _ _ => trivial).1

end Blanking.Decoder
