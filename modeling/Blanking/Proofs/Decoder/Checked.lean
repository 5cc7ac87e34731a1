import Mathlib.Data.List.Basic
import Blanking.Proofs.Decoder.Jobs
import Blanking.Proofs.Sampling.Checked
import Blanking.Proofs.Slicer.Checked

/-! # Decoders in words

Each operation in words comes to what the operation with unbounded numbers does, or to nothing. So
what is known of the states that a decoder can come to holds in particular of those that it comes to
in words. Operations come to something if the numbers of the sampling are small enough. -/

namespace Blanking

/-- Whether all sums, sizes and positions for a sampling are words. -/
structure Sampling.FitsWords (s : Sampling) : Prop where
  lines : s.totalLines < wordLimit
  samples : s.samplesPerLine < wordLimit
  bytes : s.frameSize < longLimit
  place : s.offset + s.samplesPerLine < wordLimit
  positions : ∀ (service : Service) (strictness : Strictness) (config : SlicerConfig),
    SlicerConfig.ofTarget (.ofService service.transmission s strictness) = .ok config →
      config.PositionsFit

namespace Sampling.FitsWords

variable {s : Sampling}

theorem totalLines?_eq (h : s.FitsWords) : s.totalLines? = some s.totalLines :=
  totalLines?_eq_some_iff.mpr ⟨h.lines, rfl⟩

theorem frameSize?_eq (h : s.FitsWords) : s.frameSize? = some s.frameSize :=
  frameSize?_eq_some_iff.mpr ⟨h.samples, h.lines, h.bytes, rfl⟩

end Sampling.FitsWords

namespace Decoder

/-! ## Decoding -/

section Jobs

variable {job : Job} {jobs after : List Job} {row : ByteArray} {field : Field} {line : Nat}

theorem forall_config_of_setup (P : SlicerConfig → Prop) (hjobs : ∀ job ∈ jobs, P job.slicer.config)
    (hsetup : after.map Job.setup = jobs.map Job.setup) : ∀ job ∈ after, P job.slicer.config := by
  intro job hjob
  obtain ⟨number, hnumber⟩ := List.mem_iff_getElem?.mp hjob
  obtain ⟨before, hbefore, hsame⟩ := setup_getElem? hsetup hnumber
  have hconfig : before.slicer.config = job.slicer.config := congrArg Prod.snd hsame
  rw [← hconfig]
  exact hjobs before (List.mem_of_getElem? hbefore)

theorem tryJob_agrees (hend : job.slicer.config.criEnd ≤ wordLimit)
    {found : Option (Job × Vector UInt8 recordBytes)} (h : InWords.tryJob job row = some found) :
    tryJob job row = found := by
  have hagrees := Blanking.InWords.slice_agrees hend (Vector.replicate recordBytes 0) row
  rw [InWords.tryJob] at h
  rw [tryJob]
  split at h
  next => exact absurd h (by simp)
  next slicer data hslice =>
    rw [← hagrees _ hslice]
    exact Option.some.inj h
  next outcome hnot hslice =>
    rw [← hagrees _ hslice, ← Option.some.inj h]
    rcases outcome with cause | _ | ⟨slicer, data⟩
    · rfl
    · rfl
    · exact absurd rfl (hnot slicer data)

theorem tryJob_eq (hfit : job.slicer.config.PositionsFit) :
    InWords.tryJob job row = some (tryJob job row) := by
  rw [InWords.tryJob, tryJob, Blanking.InWords.run_slice hfit]
  rcases job.slicer.slice (Vector.replicate recordBytes 0) row with cause | _ | ⟨slicer, data⟩ <;>
    rfl

theorem tryJobs_agrees {order : List Nat}
    (hjobs : ∀ job ∈ jobs, job.slicer.config.criEnd ≤ wordLimit) {way : Nat}
    {found : List Job × Option Hit}
    (h : InWords.tryJobs field line row way order jobs = some found) :
    tryJobs field line row way order jobs = found := by
  induction order generalizing jobs way with
  | nil => exact Option.some.inj h
  | cons number order ih =>
      rw [InWords.tryJobs] at h
      rw [tryJobs]
      split at h
      next hnone =>
        rw [hnone]
        exact ih hjobs h
      next job hjob =>
        have hagrees := @tryJob_agrees job row (hjobs job (List.mem_of_getElem? hjob))
        rw [hjob, Option.bind_some]
        split at h
        next => exact absurd h (by simp)
        next htry =>
          rw [hagrees htry]
          exact ih hjobs h
        next next data htry =>
          have htry := hagrees htry
          have hset := map_setup_set hjob (setup_tryJob htry)
          rw [htry]
          dsimp only at h ⊢
          cases hservice : next.identify field line data.toList with
          | some service =>
              rw [hservice] at h
              exact Option.some.inj h
          | none =>
              rw [hservice] at h
              exact ih (forall_config_of_setup (·.criEnd ≤ wordLimit) hjobs hset) h

theorem tryJobs_eq (hjobs : ∀ job ∈ jobs, job.slicer.config.PositionsFit) (way : Nat)
    (order : List Nat) :
    InWords.tryJobs field line row way order jobs =
      some (tryJobs field line row way order jobs) := by
  induction order generalizing jobs way with
  | nil => rfl
  | cons number order ih =>
      rw [InWords.tryJobs, tryJobs]
      cases hjob : jobs[number]? with
      | none => exact ih hjobs (way + 1)
      | some job =>
          dsimp only
          rw [tryJob_eq (hjobs job (List.mem_of_getElem? hjob)), Option.bind_some]
          rcases htry : tryJob job row with _ | ⟨next, data⟩
          · exact ih hjobs (way + 1)
          · have hset := map_setup_set hjob (setup_tryJob htry)
            dsimp only
            cases next.identify field line data.toList with
            | some service => rfl
            | none => exact ih (forall_config_of_setup SlicerConfig.PositionsFit hjobs hset) (way + 1)

variable {s : Sampling} {raw : ByteArray} {probe : Bool}

theorem decodeLines_agrees {sites : List (Field × Nat)} {patterns : List LinePattern}
    {room : Nat} (hjobs : ∀ job ∈ jobs, job.slicer.config.criEnd ≤ wordLimit)
    {found : List Job × List Verdict}
    (h : InWords.decodeLines s raw probe sites patterns jobs room = some found) :
    decodeLines s raw probe sites patterns jobs room = found := by
  fun_induction InWords.decodeLines s raw probe sites patterns jobs room generalizing found with
  | case1 field index sites pattern patterns jobs room htried ih =>
      rw [decodeLines, if_pos htried]
      obtain ⟨rest, hrest, h⟩ := Option.bind_eq_some_iff.mp h
      rw [ih hjobs hrest]
      exact Option.some.inj h
  | case2 field index sites pattern patterns jobs room htried htry => exact absurd h (by simp)
  | case3 field index sites pattern patterns jobs room htried after htry ih =>
      have htry := tryJobs_agrees hjobs htry
      have hsetup := map_setup_of_tryJobs_eq htry
      obtain ⟨rest, hrest, h⟩ := Option.bind_eq_some_iff.mp h
      rw [decodeLines, if_neg htried, htry]
      dsimp only
      rw [ih (forall_config_of_setup (·.criEnd ≤ wordLimit) hjobs hsetup) hrest]
      exact Option.some.inj h
  | case4 field index sites pattern patterns jobs room htried after hit htry ih =>
      have htry := tryJobs_agrees hjobs htry
      have hsetup := map_setup_of_tryJobs_eq htry
      obtain ⟨rest, hrest, h⟩ := Option.bind_eq_some_iff.mp h
      rw [decodeLines, if_neg htried, htry]
      dsimp only
      rw [ih (forall_config_of_setup (·.criEnd ≤ wordLimit) hjobs hsetup) hrest]
      exact Option.some.inj h
  | case5 sites patterns jobs room hnot =>
      rw [decodeLines.eq_def]
      split
      next => exact absurd rfl (hnot _ _ _ _ _ _ rfl rfl)
      next => exact Option.some.inj h

theorem decodeLines_eq (hjobs : ∀ job ∈ jobs, job.slicer.config.PositionsFit)
    (sites : List (Field × Nat)) (patterns : List LinePattern) (room : Nat) :
    InWords.decodeLines s raw probe sites patterns jobs room =
      some (decodeLines s raw probe sites patterns jobs room) := by
  fun_induction decodeLines s raw probe sites patterns jobs room with
  | case1 field index sites pattern patterns jobs room htried after verdicts hrest ih =>
      rw [InWords.decodeLines, if_pos htried, ih hjobs, hrest]
      rfl
  | case2 field index sites pattern patterns jobs room htried adapted htry after verdicts hrest ih =>
      have hsetup := map_setup_of_tryJobs_eq htry
      rw [InWords.decodeLines, if_neg htried, tryJobs_eq hjobs, htry]
      dsimp only
      rw [ih (forall_config_of_setup SlicerConfig.PositionsFit hjobs hsetup), hrest]
      rfl
  | case3 field index sites pattern patterns jobs room htried adapted hit htry after verdicts hrest
      ih =>
      have hsetup := map_setup_of_tryJobs_eq htry
      rw [InWords.decodeLines, if_neg htried, tryJobs_eq hjobs, htry]
      dsimp only
      rw [ih (forall_config_of_setup SlicerConfig.PositionsFit hjobs hsetup), hrest]
      rfl
  | case4 sites patterns jobs room hnot =>
      rw [InWords.decodeLines.eq_def]
      split
      next => exact absurd rfl (hnot _ _ _ _ _ _ rfl rfl)
      next => rfl

end Jobs

section Decode

variable {d : Decoder} {capacity : Nat} {raw : ByteArray}

/-- The search for a run-in ends on the line. -/
theorem Sound.criEnd_le (h : d.Sound) (hsamples : d.sampling.samplesPerLine < wordLimit) :
    ∀ job ∈ d.jobs, job.slicer.config.criEnd ≤ wordLimit := by
  intro job hjob
  obtain ⟨_, _, hend, _⟩ := (h.jobs job hjob).config_sampling
  omega

theorem Sound.positionsFit (h : d.Sound) (hfit : d.sampling.FitsWords) :
    ∀ job ∈ d.jobs, job.slicer.config.PositionsFit := by
  intro job hjob
  obtain ⟨strictness, hconfig⟩ := (h.jobs job hjob).configured
  obtain ⟨service, hservice⟩ := (h.jobs job hjob).exists_contains
  exact hfit.positions service strictness _ (hconfig service hservice)

theorem Sound.decode_agrees (h : d.Sound) :
    Checked.Agrees (InWords.decode d capacity raw) (d.decode capacity raw) := by
  unfold InWords.decode
  apply Checked.agrees_ofOption_bind
  intro size hsize
  obtain ⟨hsamples, _, _, rfl⟩ := Sampling.frameSize?_eq_some_iff.mp hsize
  unfold Decoder.decode
  split
  next => exact Checked.agrees_of_run_eq rfl
  next =>
    apply Checked.agrees_ofOption_bind
    intro found hfound
    rw [verdicts, decodeLines_agrees (h.criEnd_le hsamples) hfound]
    exact Checked.agrees_of_run_eq rfl

/-- Decoding comes to something if the field pair has a size and no position is too large. -/
theorem run_decode (hsize : d.sampling.frameSize? = some d.sampling.frameSize)
    (hjobs : ∀ job ∈ d.jobs, job.slicer.config.PositionsFit) :
    (InWords.decode d capacity raw).run = some (d.decode capacity raw) := by
  rw [InWords.decode, hsize, Checked.run_ofOption_bind, decode]
  split
  next => rfl
  next =>
    rw [decodeLines_eq hjobs, Checked.run_ofOption_bind]
    rfl

end Decode

/-! ## Services -/

theorem agrees_new {s : Sampling} : Checked.Agrees (InWords.new s) (Decoder.new s) := by
  have hnew : Decoder.new s = do
      s.validate
      return ofSampling s := by
    unfold Decoder.new
    cases s.validate <;> rfl
  rw [hnew]
  exact Sampling.agrees_validate?.bind fun _ _ => Checked.agrees_of_run_eq rfl

theorem run_new {s : Sampling} (h : s.Valid) :
    (InWords.new s).run = some (.ok (ofSampling s)) := by
  rw [InWords.new, Checked.run_bind_of_ok (Sampling.run_validate? h)]
  rfl

section Services

variable {d : Decoder} {service : Service} {strictness : Strictness}

theorem patternsOrNew_agrees {patterns : List LinePattern}
    (h : InWords.patternsOrNew d = some patterns) : d.patternsOrNew = patterns := by
  unfold InWords.patternsOrNew at h
  unfold patternsOrNew
  split at h
  next hempty =>
    obtain ⟨total, htotal, rfl⟩ := Option.map_eq_some_iff.mp h
    obtain ⟨_, rfl⟩ := Sampling.totalLines?_eq_some_iff.mp htotal
    exact if_pos hempty
  next hsome =>
    rw [if_neg hsome]
    exact Option.some.inj h

theorem patternsOrNew_eq (h : d.sampling.FitsWords) :
    InWords.patternsOrNew d = some d.patternsOrNew := by
  unfold InWords.patternsOrNew patternsOrNew
  rw [h.totalLines?_eq]
  split <;> rfl

/-- Taking on a service as a chain of steps that may fail. -/
theorem addService_eq (d : Decoder) (service : Service) (strictness : Strictness) :
    d.addService service strictness =
      if d.services.contains service then .ok d
      else (do
        (d.sampling.permit service.transmission strictness).mapError .notPermitted
        let (jobs, number) ← d.assign service strictness
        let patterns := d.patternsOrNew
        let positions := d.sampling.candidates service.transmission
        match fullLine? patterns positions number with
        | some line => .error (.lineFull service line)
        | none =>
            .ok { d with
              services := d.services.insert service
              jobs := jobs
              patterns := register patterns positions number }) := by
  unfold addService
  split
  next => rfl
  next =>
    cases d.sampling.permit service.transmission strictness with
    | error cause => rfl
    | ok => cases d.assign service strictness <;> rfl

theorem addService_agrees (hvalid : d.sampling.Valid) :
    Checked.Agrees (InWords.addService d service strictness) (d.addService service strictness) := by
  unfold InWords.addService
  rw [addService_eq]
  split
  next => exact Checked.agrees_of_run_eq rfl
  next =>
    apply (Sampling.agrees_permit?.adapt _).bind
    rintro ⟨⟩ -
    apply (Checked.agrees_of_run_eq (Checked.run_lift _)).bind
    rintro ⟨jobs, number⟩ -
    apply Checked.agrees_ofOption_bind
    intro patterns hpatterns
    rw [hvalid.candidates?_eq, patternsOrNew_agrees hpatterns]
    apply Checked.agrees_of_run_eq
    rw [Checked.run_ofOption_bind]
    split
    next line hline => simp only [hline]; rfl
    next hroom => simp only [hroom]; rfl

theorem run_addService (hvalid : d.sampling.Valid) (hfit : d.sampling.FitsWords) :
    (InWords.addService d service strictness).run = some (d.addService service strictness) := by
  unfold InWords.addService
  rw [addService_eq]
  split
  next => rfl
  next =>
    apply Checked.run_bind_eq
    · rw [Checked.run_adapt, hvalid.run_permit? hfit.place _]
      rfl
    · rintro ⟨⟩ -
      apply Checked.run_bind_eq (Checked.run_lift _)
      rintro ⟨jobs, number⟩ -
      rw [patternsOrNew_eq hfit, Checked.run_ofOption_bind, hvalid.candidates?_eq,
        Checked.run_ofOption_bind]
      split
      next line hline => simp only [hline]; rfl
      next hroom => simp only [hroom]; rfl

theorem addEach_agrees (hvalid : d.sampling.Valid) {services : List Service}
    {found : Decoder × List Outcome} (h : InWords.addEach d strictness services = some found) :
    d.addEach strictness services = found := by
  induction services generalizing d found with
  | nil => exact Option.some.inj h
  | cons service rest ih =>
      obtain ⟨outcome, houtcome, h⟩ := Option.bind_eq_some_iff.mp h
      have hadd := addService_agrees hvalid _ houtcome
      rw [addEach, ← hadd]
      cases outcome with
      | error cause =>
          obtain ⟨later, hlater, h⟩ := Option.bind_eq_some_iff.mp h
          dsimp only
          rw [ih hvalid hlater, ← Option.some.inj h]
      | ok next =>
          obtain ⟨later, hlater, h⟩ := Option.bind_eq_some_iff.mp h
          have hnext : next.sampling.Valid := by rwa [sampling_addService hadd.symm]
          dsimp only
          rw [ih hnext hlater, ← Option.some.inj h]

theorem addEach_eq (hvalid : d.sampling.Valid) (hfit : d.sampling.FitsWords)
    (services : List Service) :
    InWords.addEach d strictness services = some (d.addEach strictness services) := by
  induction services generalizing d with
  | nil => rfl
  | cons service rest ih =>
      rw [InWords.addEach, run_addService hvalid hfit, addEach]
      cases hadd : d.addService service strictness with
      | error cause =>
          simp only [Option.bind_eq_bind, Option.bind_some, ih hvalid hfit]
      | ok next =>
          have hsame := sampling_addService hadd
          have hrest := @ih next (by rwa [hsame]) (by rwa [hsame])
          simp only [Option.bind_eq_bind, Option.bind_some, hrest]

theorem setSampling_agrees {s : Sampling} :
    Checked.Agrees (InWords.setSampling d s strictness) (d.setSampling s strictness) := by
  have hset : d.setSampling s strictness = do
      s.validate
      return (ofSampling s).addServices d.services strictness := by
    unfold setSampling
    cases s.validate <;> rfl
  rw [hset]
  apply Sampling.agrees_validate?.bind
  rintro ⟨⟩ hvalid
  intro outcome houtcome
  obtain ⟨found, hfound, rfl⟩ := Checked.run_ofOption_eq_some_iff.mp houtcome
  rw [← addEach_agrees (d := ofSampling s) hvalid hfound]
  rfl

end Services

/-! ## Runs -/

namespace InWords

/-- The decoder after an operation. One that fails leaves it as it was. -/
def after? (d : Decoder) : Operation → Option Decoder
  | .addService service strictness =>
      (addService d service strictness).run.map fun
        | .ok next => next
        | .error _ => d
  | .addServices services strictness => (addServices d services strictness).map (·.1)
  | .removeServices services => some (d.removeServices services)
  | .reset => some d.reset
  | .setSampling s strictness =>
      (setSampling d s strictness).run.map fun
        | .ok (next, _) => next
        | .error _ => d
  | .decode capacity raw =>
      (decode d capacity raw).run.map fun
        | .ok (next, _) => next
        | .error _ => d

/-- The states that a decoder can come to in words. -/
inductive Reachable : Decoder → Prop where
  | new {s : Sampling} {d : Decoder} (h : (InWords.new s).run = some (.ok d)) : Reachable d
  | step {d next : Decoder} (operation : Operation) (h : Reachable d)
      (hnext : after? d operation = some next) : Reachable next

/-- The decoder after some operations. -/
def run? (d : Decoder) (operations : List Operation) : Option Decoder :=
  operations.foldlM after? d

end InWords

/-- An operation that comes to something in words does what it does otherwise. -/
theorem Reachable.after?_agrees {d next : Decoder} (h : d.Reachable) {operation : Operation}
    (hnext : InWords.after? d operation = some next) : d.after operation = next := by
  cases operation with
  | addService service strictness =>
      obtain ⟨outcome, houtcome, rfl⟩ := Option.map_eq_some_iff.mp hnext
      rw [addService_agrees h.valid _ houtcome]
      rfl
  | addServices services strictness =>
      obtain ⟨found, hfound, rfl⟩ := Option.map_eq_some_iff.mp hnext
      rw [← addEach_agrees h.valid hfound]
      rfl
  | removeServices services => exact Option.some.inj hnext
  | reset => exact Option.some.inj hnext
  | setSampling s strictness =>
      obtain ⟨outcome, houtcome, rfl⟩ := Option.map_eq_some_iff.mp hnext
      rw [setSampling_agrees _ houtcome]
      rfl
  | decode capacity raw =>
      obtain ⟨outcome, houtcome, rfl⟩ := Option.map_eq_some_iff.mp hnext
      rw [h.sound.decode_agrees _ houtcome]
      rfl

theorem Reachable.run?_agrees {d last : Decoder} (h : d.Reachable) {operations : List Operation}
    (hlast : InWords.run? d operations = some last) : d.run operations = last := by
  induction operations generalizing d with
  | nil => exact Option.some.inj hlast
  | cons operation rest ih =>
      obtain ⟨next, hnext, hlast⟩ := Option.bind_eq_some_iff.mp hlast
      obtain rfl := h.after?_agrees hnext
      exact ih (h.step operation) hlast

namespace InWords.Reachable

variable {d last : Decoder}

/-- A decoder comes in words only to states that it comes to otherwise. -/
theorem reachable (h : InWords.Reachable d) : d.Reachable := by
  induction h with
  | new hnew => exact .new (agrees_new _ hnew).symm
  | step operation _ hnext ih =>
      rw [← ih.after?_agrees hnext]
      exact ih.step operation

theorem run? (h : InWords.Reachable d) {operations : List Operation}
    (hlast : InWords.run? d operations = some last) : InWords.Reachable last := by
  induction operations generalizing d with
  | nil => exact Option.some.inj hlast ▸ h
  | cons operation rest ih =>
      obtain ⟨next, hnext, hlast⟩ := Option.bind_eq_some_iff.mp hlast
      exact ih (h.step operation hnext) hlast

/-- A run from a consistent sampling. -/
theorem of_run? {s : Sampling} (hvalid : s.Valid) {operations : List Operation}
    (hlast : InWords.run? (ofSampling s) operations = some last) : InWords.Reachable last :=
  (Reachable.new (run_new hvalid)).run? hlast

end InWords.Reachable

end Decoder

end Blanking
