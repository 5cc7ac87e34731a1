import Blanking.Proofs.Decoder.InPlace

/-! # What failures leave behind

A refusal leaves a decoder as it was, so of several services it takes on those that it would take
on alone. The order does not matter: a service that is taken on leaves all others as acceptable as
they were. -/

namespace Blanking

/-- Services of one group have the same target. -/
theorem Target.ofService_eq_of_leader_eq {a b : Service} (h : a.leader = b.leader) (s : Sampling)
    (strictness : Strictness) :
    Target.ofService a.transmission s strictness = .ofService b.transmission s strictness := by
  rcases Service.leader_eq_iff.mp h with rfl | ⟨group, hgroup, ha, hb⟩
  · rfl
  · refine Target.ofService_eq_of_isMergeable ?_ ha hb s strictness
    exact ServiceSet.isMergeable_iff.mpr ⟨group, hgroup, by simp [ServiceSet.isSubset]⟩

namespace Decoder

variable {d next : Decoder} {service added : Service} {strictness : Strictness}

/-- Whether a decoder takes on a service: it has it already, or else the service is permitted and
one of its group is decoded or its signal can be sliced. -/
def Accepts (d : Decoder) (strictness : Strictness) (service : Service) : Prop :=
  d.services.contains service = true ∨
    d.sampling.permit service.transmission strictness = .ok () ∧
      ((∃ member, d.services.contains member = true ∧ member.leader = service.leader) ∨
        ∃ slicer,
          Slicer.ofTarget (.ofService service.transmission d.sampling strictness) = .ok slicer)

/-! ## Services that are taken on alone -/

theorem accepts_of_addService (h : d.Sound) (hnext : d.addService service strictness = .ok next) :
    d.Accepts strictness service := by
  rcases addService_eq_ok hnext with ⟨_, hdecoded⟩ | ⟨jobs, number, hadded⟩
  · exact Or.inl hdecoded
  · refine Or.inr ⟨hadded.permitted, ?_⟩
    obtain ⟨job, hget, hmergeable, _⟩ | ⟨slicer, hslicer, _, _⟩ := assign_eq_ok hadded.assigned
    · have hjob := h.jobs job (List.mem_of_getElem? hget)
      obtain ⟨member, hmember⟩ := hjob.exists_contains
      refine Or.inl ⟨member, hjob.decoded member hmember, ?_⟩
      exact ServiceSet.leader_eq_of_isMergeable hmergeable (by simp [hmember]) (by simp)
    · exact Or.inr ⟨slicer, hslicer⟩

/-- A service of which another one of the group is decoded joins the job of that. -/
theorem Partitioned.exists_assign_of_member (h : d.Partitioned) {member : Service}
    (hnew : d.services.contains service = false) (hmember : d.services.contains member = true)
    (hleader : member.leader = service.leader) :
    ∃ jobs number, d.assign service strictness = .ok (jobs, number) := by
  obtain ⟨share, hshare, hheld⟩ := (h.divided.covered member).mp hmember
  obtain ⟨job, hjob, rfl⟩ := List.mem_map.mp hshare
  have hsound := h.sound.jobs job hjob
  have hmergeable : (job.services.insert service).isMergeable = true := by
    refine ServiceSet.isMergeable_insert hsound.known hheld ?_ fun other hother => ?_
    · by_contra hhas
      rw [hsound.decoded service (by simpa using hhas)] at hnew
      exact absurd hnew (by decide)
    · exact (h.divided.alike _ hshare other member hother hheld).trans hleader
  cases hjoined : d.jobs.findIdx? fun job => (job.services.insert service).isMergeable with
  | some number => exact ⟨_, number, by rw [assign, hjoined]⟩
  | none =>
      rw [List.findIdx?_eq_none_iff.mp hjoined job hjob] at hmergeable
      exact absurd hmergeable (by decide)

theorem Reachable.exists_assign_of_slicer (h : d.Reachable) {slicer : Slicer}
    (hslicer : Slicer.ofTarget (.ofService service.transmission d.sampling strictness) =
      .ok slicer) :
    ∃ jobs number, d.assign service strictness = .ok (jobs, number) := by
  cases hassign : d.assign service strictness with
  | ok assigned => exact ⟨_, _, rfl⟩
  | error cause =>
      have hle := h.partitioned.length_jobs_le h.valid
      obtain ⟨hmany, _⟩ | ⟨reason, hreason, _⟩ := assign_eq_error hassign
      · simp only [maxJobs, patternWays] at hmany hle
        omega
      · rw [hslicer] at hreason
        exact absurd hreason (by simp)

theorem Reachable.exists_addService_iff (h : d.Reachable) :
    (∃ next, d.addService service strictness = .ok next) ↔ d.Accepts strictness service := by
  refine ⟨fun ⟨next, hnext⟩ => accepts_of_addService h.sound hnext, fun haccepts => ?_⟩
  cases hdecoded : d.services.contains service with
  | true => exact ⟨d, by rw [addService, if_pos hdecoded]⟩
  | false =>
      obtain ⟨hpermit, hjob⟩ := haccepts.resolve_left (by simp [hdecoded])
      obtain ⟨jobs, number, hassign⟩ :
          ∃ jobs number, d.assign service strictness = .ok (jobs, number) := by
        obtain ⟨member, hmember, hleader⟩ | ⟨slicer, hslicer⟩ := hjob
        · exact h.partitioned.exists_assign_of_member hdecoded hmember hleader
        · exact h.exists_assign_of_slicer hslicer
      have hroom := h.fullLine?_eq_none (d.sampling.candidates service.transmission) hdecoded
        hpermit hassign
      unfold addService
      rw [hdecoded, hpermit, hassign]
      dsimp only
      rw [hroom]
      exact ⟨_, rfl⟩

/-! ## Services that are taken on one after the other -/

/-- Taking on one service makes no other one acceptable or unacceptable. -/
theorem Reachable.accepts_addService_iff (h : d.Reachable)
    (hnext : d.addService added strictness = .ok next) :
    next.Accepts strictness service ↔ d.Accepts strictness service := by
  have hadded := accepts_of_addService h.sound hnext
  rcases addService_eq_ok hnext with ⟨rfl, _⟩ | ⟨jobs, number, hnew⟩
  · rfl
  obtain ⟨hpermit, hjob⟩ := hadded.resolve_left (by simp [hnew.isNew])
  rw [hnew.next_eq]
  simp only [Accepts, ServiceSet.contains_insert, Bool.or_eq_true, decide_eq_true_eq]
  constructor
  · rintro ((hdecoded | rfl) | ⟨hpermitted, ⟨member, hmember | rfl, hleader⟩ | hslicer⟩)
    · exact Or.inl hdecoded
    · exact hadded
    · exact Or.inr ⟨hpermitted, Or.inl ⟨member, hmember, hleader⟩⟩
    · -- The service that was taken on is of the group, which one of the decoder was or else the
      -- signal of both can be sliced.
      refine Or.inr ⟨hpermitted, hjob.imp ?_ ?_⟩
      · exact fun ⟨other, hother, heq⟩ => ⟨other, hother, heq.trans hleader⟩
      · rw [Target.ofService_eq_of_leader_eq hleader]
        exact id
    · exact Or.inr ⟨hpermitted, Or.inr hslicer⟩
  · rintro (hdecoded | ⟨hpermitted, ⟨member, hmember, hleader⟩ | hslicer⟩)
    · exact Or.inl (Or.inl hdecoded)
    · exact Or.inr ⟨hpermitted, Or.inl ⟨member, Or.inl hmember, hleader⟩⟩
    · exact Or.inr ⟨hpermitted, Or.inr hslicer⟩

/-- Of several services those are taken on that are acceptable at first. -/
theorem Reachable.foldlM_addService (h : d.Reachable) {accepts : Service → Bool}
    (haccepts : ∀ service, accepts service = true ↔ d.Accepts strictness service)
    (services : List Service) :
    (services.filter accepts).foldlM (fun d service => d.addService service strictness) d =
      .ok (d.addEach strictness services).1 := by
  induction services generalizing d with
  | nil => rfl
  | cons service rest ih =>
      rw [addEach_cons_fst]
      cases hnext : d.addService service strictness with
      | ok next =>
          have hmember : accepts service = true :=
            (haccepts service).mpr (accepts_of_addService h.sound hnext)
          have hstep : d.after (.addService service strictness) = next := by rw [after, hnext]
          rw [List.filter_cons_of_pos hmember, List.foldlM_cons, hnext, hstep]
          refine ih (hstep ▸ h.step _) fun other => ?_
          rw [haccepts, h.accepts_addService_iff hnext]
      | error cause =>
          have hnot : ¬ accepts service = true := by
            rw [haccepts, ← h.exists_addService_iff, hnext]
            simp
          have hstep : d.after (.addService service strictness) = d := by rw [after, hnext]
          rw [List.filter_cons_of_neg hnot, hstep]
          exact ih h haccepts

/-- Services that are decoded already need not be asked for. -/
theorem addEach_filter_new (known : ServiceSet)
    (hknown : ∀ service, known.contains service = true → d.services.contains service = true)
    (services : List Service) :
    (d.addEach strictness (services.filter (!known.contains ·))).1 =
      (d.addEach strictness services).1 := by
  induction services generalizing d with
  | nil => rfl
  | cons service rest ih =>
      cases hmember : known.contains service with
      | true =>
          have hstep : d.after (.addService service strictness) = d := by
            simp only [after, addService, hknown service hmember, if_true]
          rw [List.filter_cons_of_neg (by simp [hmember]), addEach_cons_fst, hstep, ih hknown]
      | false =>
          rw [List.filter_cons_of_pos (by simp [hmember]), addEach_cons_fst, addEach_cons_fst]
          refine ih fun other hother => ?_
          rw [after]
          split
          next next hnext =>
            rcases addService_eq_ok hnext with ⟨rfl, _⟩ | ⟨_, _, hadded⟩
            · exact hknown other hother
            · simp [hadded.next_eq, hknown other hother]
          next => exact hknown other hother

theorem addServices_fst (d : Decoder) (services : ServiceSet) (strictness : Strictness) :
    (d.addServices services strictness).1 = (d.addEach strictness services.toList).1 := by
  have hnew : (services \ d.services).toList =
      services.toList.filter (!d.services.contains ·) := by
    rw [ServiceSet.toList, ServiceSet.toList, List.filter_filter]
    exact List.filter_congr fun service _ => by rw [ServiceSet.contains_sdiff, Bool.and_comm]
  rw [addServices, hnew, addEach_filter_new d.services fun _ => id]

/-! ## All operations -/

/-- An operation that fails leaves the memory of a decoder as it was, and decoding its output as
well; in the first three parts the failures are those of the operation on the whole. Taking on a
set of services leaves what is left by taking on those of them, in the order of their table, that
are taken on alone. -/
theorem Reachable.failures_change_nothing (h : d.Reachable) :
    (∀ service strictness, InPlace.addService service strictness d =
      some (InPlace.whole d ((d.addService service strictness).map (·, ())))) ∧
    (∀ s strictness, InPlace.setSampling s strictness d =
      some (InPlace.whole d ((d.setSampling s strictness).map fun (next, _) =>
        (next, next.services ∩ d.services)))) ∧
    (∀ (size : Nat) (raw : ByteArray) (output : Vector Record size),
      InPlace.decode raw (d, output) =
        some (InPlace.whole (d, output) ((d.decode size raw).map fun (next, records) =>
          ((next, overwrite records output), records.length)))) ∧
    ∀ services strictness, ∃ next,
      InPlace.addServices services strictness d = some (next, next.services ∩ services) ∧
        (services.toList.filter fun service => (d.addService service strictness).isOk).foldlM
          (fun d service => d.addService service strictness) d = .ok next := by
  refine ⟨InPlace.addService_eq h, InPlace.setSampling_eq d,
    fun size raw output => InPlace.decode_eq h raw output, fun services strictness => ?_⟩
  refine ⟨(d.addServices services strictness).1, InPlace.addServices_eq h services strictness, ?_⟩
  rw [addServices_fst]
  refine h.foldlM_addService (fun service => ?_) services.toList
  rw [← h.exists_addService_iff]
  cases d.addService service strictness <;> simp [Except.isOk, Except.toBool]

def runWithCaptions : Decoder := (ofSampling .preset625).run [.addServices .caption625 .strict]

def withoutLines : Sampling := { Sampling.preset625 with count := ⟨0, 0⟩ }

/-- A service of the other scanning, a sampling without lines and a missing field pair fail, and of
the services that follow only one is taken on. -/
theorem failures_change_nothing_runWithCaptions :
    runWithCaptions.Reachable ∧
      (∃ cause, InPlace.addService .caption525Field1 .strict runWithCaptions =
        some (runWithCaptions, .error cause)) ∧
      InPlace.setSampling withoutLines .strict runWithCaptions =
        some (runWithCaptions, .error .noLines) ∧
      (∀ output : Vector Record 4, InPlace.decode .empty (runWithCaptions, output) =
        some ((runWithCaptions, output), .error (.rawTooShort Sampling.preset625.frameSize 0))) ∧
      ∃ next added, InPlace.addServices (.caption525 ∪ .wss) .strict runWithCaptions =
          some (next, added) ∧
        runWithCaptions.addService .wss625 .strict = .ok next := by
  have hnew : Decoder.new .preset625 = .ok (ofSampling .preset625) := rfl
  have hreachable : runWithCaptions.Reachable := (Reachable.new hnew).run _
  have hsampling : runWithCaptions.sampling = .preset625 := sampling_run_addServices _ _ _
  have hinvalid : withoutLines.validate = .error .noLines := rfl
  have haccepted : ((ServiceSet.caption525 ∪ .wss).toList.filter fun service =>
      (runWithCaptions.addService service .strict).isOk) = [.wss625] := by
    decide +kernel
  obtain ⟨hadd, hsetSampling, hdecode, hbatch⟩ := Reachable.failures_change_nothing hreachable
  refine ⟨hreachable, ?_, ?_, fun output => ?_, ?_⟩
  · rw [hadd]
    cases hnext : runWithCaptions.addService .caption525Field1 .strict with
    | error cause => exact ⟨cause, rfl⟩
    | ok next =>
        have hmember : Service.caption525Field1 ∈ [Service.wss625] := by
          rw [← haccepted, List.mem_filter, hnext]
          exact ⟨by decide, rfl⟩
        exact absurd hmember (by decide)
  · rw [hsetSampling, setSampling, hinvalid]
    rfl
  · rw [hdecode, decode, hsampling, if_pos (by decide)]
    rfl
  · obtain ⟨next, hnext, hservice⟩ := hbatch (.caption525 ∪ .wss) .strict
    rw [haccepted, List.foldlM_cons] at hservice
    refine ⟨next, _, hnext, ?_⟩
    cases hlast : runWithCaptions.addService .wss625 .strict with
    | error cause =>
        rw [hlast] at hservice
        cases hservice
    | ok last =>
        rw [hlast] at hservice
        cases hservice
        rfl

end Decoder

end Blanking
