import Mathlib.Data.List.Perm.Subperm
import Blanking.Proofs.Decoder.Partition
import Blanking.Proofs.Decoder.Registration
import Blanking.Proofs.Service.Standard

/-! # Room for every service

A decoder has a bounded number of jobs, and a line has a bounded number of places for them. Both
suffice for all that can be decoded at a time: the services that are permitted are of one
scanning, and as those of a group share a job they fill no more jobs than a line has places. -/

namespace Blanking

/-! ## Services of one scanning -/

namespace Service

/-- The services of a scanning that stand for themselves or for a group. -/
def leaders (scanning : Scanning) : List Service :=
  all.filter fun service => service.leader = service ∧ service.scanning = scanning

theorem leader_mem_leaders (service : Service) : service.leader ∈ leaders service.scanning := by
  cases service <;> decide

theorem length_leaders_le (scanning : Scanning) : (leaders scanning).length ≤ patternWays := by
  cases scanning <;> decide

end Service

/-- What a sampling permits is of its scanning. -/
theorem Sampling.scanning_of_permit {s : Sampling} {scanning : Scanning}
    (hscanning : s.scanning = some scanning) {service : Service} {strictness : Strictness}
    (hpermit : s.permit service.transmission strictness = .ok ()) :
    service.scanning = scanning := by
  have hstandard := (permit_eq_ok hpermit).standard
  unfold permitStandard at hstandard
  split at hstandard
  next hmeet => exact Service.scanning_eq hscanning hmeet
  next => exact absurd hstandard (by simp)

/-- Services that a sampling permits are divided into no more shares than a line can have jobs. -/
theorem ServiceSet.Divided.length_le {s : Sampling} (hvalid : s.Valid) {services : ServiceSet}
    {shares : List ServiceSet} (h : services.Divided shares)
    (hnonempty : ∀ share ∈ shares, ∃ service, share.contains service = true)
    (hpermitted : ∀ service, services.contains service = true →
      ∃ strictness, s.permit service.transmission strictness = .ok ()) :
    shares.length ≤ patternWays := by
  obtain ⟨scanning, hscanning, _⟩ := hvalid.exists_scanning
  have : Nonempty Service := ⟨.vps⟩
  choose! member hmember using hnonempty
  let leaders := shares.map fun share => (member share).leader
  have hnodup : leaders.Nodup := by
    refine List.pairwise_map.mpr (h.apart.imp_of_mem ?_)
    intro first second hfirst hsecond hapart
    exact hapart _ _ (hmember first hfirst) (hmember second hsecond)
  have hsub : leaders ⊆ Service.leaders scanning := by
    intro leader hleader
    obtain ⟨share, hshare, rfl⟩ := List.mem_map.mp hleader
    have hdecoded := (h.covered (member share)).mpr ⟨share, hshare, hmember share hshare⟩
    obtain ⟨strictness, hpermit⟩ := hpermitted _ hdecoded
    rw [← Sampling.scanning_of_permit hscanning hpermit]
    exact (member share).leader_mem_leaders
  calc shares.length
    _ = leaders.length := (List.length_map _).symm
    _ ≤ (Service.leaders scanning).length := (hnodup.subperm hsub).length_le
    _ ≤ patternWays := Service.length_leaders_le scanning

/-- Whether a service was turned down for want of a job or of a place on a line. -/
def AddError.lacksRoom : AddError → Bool
  | .tooManyJobs _ | .lineFull _ _ => true
  | .notPermitted _ | .noSlicer _ _ => false

namespace Decoder

variable {d : Decoder}

namespace Partitioned

theorem length_jobs_le (h : d.Partitioned) (hvalid : d.sampling.Valid) :
    d.jobs.length ≤ patternWays := by
  rw [← List.length_map (f := Job.services)]
  refine h.divided.length_le hvalid ?_ h.sound.permitted
  intro share hshare
  obtain ⟨job, hjob, rfl⟩ := List.mem_map.mp hshare
  exact (h.sound.jobs job hjob).exists_contains

/-- There is a job for one more service that is permitted. -/
theorem length_assign_le (h : d.Partitioned) (hvalid : d.sampling.Valid) {service : Service}
    {strictness : Strictness} {jobs : List Job} {number : Nat}
    (hnew : d.services.contains service = false)
    (hpermit : d.sampling.permit service.transmission strictness = .ok ())
    (hassign : d.assign service strictness = .ok (jobs, number)) :
    jobs.length ≤ patternWays := by
  rw [← List.length_map (f := Job.services)]
  refine (divided_assign h.sound h.divided hnew hassign).length_le hvalid ?_ ?_
  · intro share hshare
    obtain ⟨job, hjob, rfl⟩ := List.mem_map.mp hshare
    obtain ⟨before, hget, _, rfl⟩ | ⟨slicer, _, _, rfl⟩ := assign_eq_ok hassign
    · rcases List.mem_or_eq_of_mem_set hjob with hjob | rfl
      · exact (h.sound.jobs job hjob).exists_contains
      · exact ⟨service, by simp⟩
    · rcases List.mem_append.mp hjob with hjob | hjob
      · exact (h.sound.jobs job hjob).exists_contains
      · obtain rfl := List.mem_singleton.mp hjob
        exact ⟨service, by simp⟩
  · intro other hother
    rw [ServiceSet.contains_insert, Bool.or_eq_true, decide_eq_true_eq] at hother
    rcases hother with hother | rfl
    · exact h.sound.permitted other hother
    · exact ⟨strictness, hpermit⟩

end Partitioned

/-- A line has room for a job unless all of its places are taken by others. -/
theorem Registered.hasRoom {position number count : Nat} {pattern : LinePattern}
    (h : Registered d.sampling (Serves d.jobs) position pattern)
    (hlength : d.jobs.length ≤ count) (hle : count ≤ patternWays) (hlt : number < count)
    (hnew : pattern.contains number = false) :
    pattern.hasRoom = true := by
  have hnot : number ∉ pattern.jobs := by simpa [LinePattern.contains] using hnew
  have hnodup : (number :: pattern.jobs).Nodup := List.nodup_cons.mpr ⟨hnot, h.wellFormed.nodup⟩
  have hsub : number :: pattern.jobs ⊆ List.range count := by
    intro other hother
    rw [List.mem_range]
    rcases List.mem_cons.mp hother with rfl | hother
    · exact hlt
    · obtain ⟨_, ⟨job, hjob, _⟩, _⟩ := (h.mem_jobs_iff other).mp hother
      exact Nat.lt_of_lt_of_le (List.getElem?_eq_some_iff.mp hjob).1 hlength
  have hcount := (hnodup.subperm hsub).length_le
  rw [List.length_cons, List.length_range] at hcount
  rw [h.wellFormed.hasRoom_eq, decide_eq_true_eq]
  omega

/-- Every line has room for the job that a permitted service gets. -/
theorem Reachable.fullLine?_eq_none (h : d.Reachable) {service : Service}
    {strictness : Strictness} {jobs : List Job} {number : Nat} (positions : List Nat)
    (hnew : d.services.contains service = false)
    (hpermit : d.sampling.permit service.transmission strictness = .ok ())
    (hassign : d.assign service strictness = .ok (jobs, number)) :
    fullLine? d.patternsOrNew positions number = none := by
  have hle := h.partitioned.length_assign_le h.valid hnew hpermit hassign
  obtain ⟨hlength, hlt⟩ : d.jobs.length ≤ jobs.length ∧ number < jobs.length := by
    obtain ⟨job, hget, _, rfl⟩ | ⟨slicer, _, rfl, rfl⟩ := assign_eq_ok hassign
    · rw [List.length_set]
      exact ⟨Nat.le_refl _, (List.getElem?_eq_some_iff.mp hget).1⟩
    · rw [List.length_append, List.length_singleton]
      omega
  refine List.find?_eq_none.mpr fun position _ => ?_
  split
  next pattern hget =>
    have hregistered := h.consistent.patternsOrNew.2 position pattern hget
    have hroom := hregistered.hasRoom hlength hle hlt
    cases hhas : pattern.contains number with
    | true => simp
    | false => simp [hroom hhas]
  next => simp

/-- A service that is not taken on is not permitted, or its signal cannot be sliced. -/
theorem Reachable.addService_eq_error (h : d.Reachable) {service : Service}
    {strictness : Strictness} {cause : AddError}
    (herror : d.addService service strictness = .error cause) :
    (∃ reason, d.sampling.permit service.transmission strictness = .error reason ∧
        cause = .notPermitted reason) ∨
      ∃ reason,
        Slicer.ofTarget (.ofService service.transmission d.sampling strictness) =
          .error reason ∧ cause = .noSlicer service reason := by
  obtain ⟨hnew, hrefused | ⟨hpermit, hassign | ⟨jobs, number, line, hassign, hline, _⟩⟩⟩ :=
    Decoder.addService_eq_error herror
  · exact Or.inl hrefused
  · refine Or.inr ((assign_eq_error hassign).resolve_left ?_)
    rintro ⟨hmany, _⟩
    have hle := h.partitioned.length_jobs_le h.valid
    simp only [maxJobs, patternWays] at hmany hle
    omega
  · rw [h.fullLine?_eq_none _ hnew hpermit hassign] at hline
    exact absurd hline (by simp)

/-- The causes for which some of several services are not taken on come from states of the
decoder. -/
theorem Reachable.rejected_of_mem_addEach (h : d.Reachable) {strictness : Strictness}
    {services : List Service} {cause : AddError}
    (hrejected : .rejected cause ∈ (d.addEach strictness services).2) :
    ∃ (before : Decoder) (service : Service), before.Reachable ∧
      before.addService service strictness = .error cause := by
  induction services generalizing d with
  | nil => exact absurd hrejected (by simp [addEach])
  | cons service rest ih =>
      unfold addEach at hrejected
      split at hrejected
      next refusal herror =>
        rcases List.mem_cons.mp hrejected with heq | hrest
        · exact ⟨d, service, h, by rw [herror, Outcome.rejected.inj heq]⟩
        · exact ih h hrest
      next next hnext =>
        rcases List.mem_cons.mp hrejected with heq | hrest
        · exact absurd heq (by simp)
        · have hstep : next = d.after (.addService service strictness) := by
            simp only [after, hnext]
          exact ih (hstep ▸ h.step _) hrest

/-- In every state of a decoder there are at most seven jobs, and no service is ever turned down
for want of a job or of a place on a line, be it added alone or with others, or carried over to
another sampling. -/
theorem Reachable.has_capacity (h : d.Reachable) :
    d.jobs.length ≤ 7 ∧
      (∀ service strictness cause,
        d.addService service strictness = .error cause → cause.lacksRoom = false) ∧
      (∀ services strictness cause,
        .rejected cause ∈ (d.addServices services strictness).2 → cause.lacksRoom = false) ∧
      ∀ s strictness next outcomes cause,
        d.setSampling s strictness = .ok (next, outcomes) → .rejected cause ∈ outcomes →
          cause.lacksRoom = false := by
  have hadd (d : Decoder) (h : d.Reachable) (service : Service) (strictness : Strictness)
      (cause : AddError) (herror : d.addService service strictness = .error cause) :
      cause.lacksRoom = false := by
    obtain ⟨_, _, rfl⟩ | ⟨_, _, rfl⟩ := h.addService_eq_error herror <;> rfl
  refine ⟨h.partitioned.length_jobs_le h.valid, hadd d h, ?_, ?_⟩
  · intro services strictness cause hrejected
    obtain ⟨before, service, hbefore, herror⟩ := h.rejected_of_mem_addEach hrejected
    exact hadd before hbefore service strictness cause herror
  · intro s strictness next outcomes cause hnext hrejected
    unfold setSampling at hnext
    split at hnext
    next => exact absurd hnext (by simp)
    next hvalid =>
      have hfresh : (ofSampling s).Reachable := .new (by rw [Decoder.new, hvalid])
      obtain rfl : ((ofSampling s).addServices d.services strictness).2 = outcomes :=
        congrArg Prod.snd (Except.ok.inj hnext)
      obtain ⟨before, service, hbefore, herror⟩ := hfresh.rejected_of_mem_addEach hrejected
      exact hadd before hbefore service strictness cause herror

/-- A run that takes on every service of 625 lines, one half of a group a second time. -/
def runWithAll : Decoder :=
  (ofSampling .preset625).run
    [.addServices .all .loose, .removeServices (.singleton .vps), .addService .vps .loose]

/-- All seven jobs are in use then, and there is room for any other service. -/
theorem has_capacity_runWithAll :
    runWithAll.Reachable ∧ runWithAll.jobs.length = 7 ∧ runWithAll.jobs.length ≤ 7 ∧
      ∀ service strictness cause,
        runWithAll.addService service strictness = .error cause → cause.lacksRoom = false := by
  have hnew : Decoder.new .preset625 = .ok (ofSampling .preset625) := rfl
  have hreachable : runWithAll.Reachable := (Reachable.new hnew).run _
  obtain ⟨hlength, hadd, _, _⟩ := Reachable.has_capacity hreachable
  exact ⟨hreachable, by decide +kernel, hlength, hadd⟩

end Decoder

end Blanking
