import Blanking.Proofs.Decoder.Lines
import Blanking.Proofs.Decoder.Reachable
import Blanking.Proofs.Service.Set

/-! # What jobs look for

A job finds services that are all decoded and that are sent in the same way. Its slicer is
configured for any one of them. -/

namespace Blanking

/-! ## Services that share a slicer -/

theorem ServiceSet.mem_teletextB625 {service : Service} :
    teletextB625.contains service = true ↔
      service = .teletextB625Level1 ∨ service = .teletextB625Level2 := by
  cases service <;> decide

theorem ServiceSet.mem_caption525 {service : Service} :
    caption525.contains service = true ↔
      service = .caption525Field1 ∨ service = .caption525Field2 := by
  cases service <;> decide

theorem ServiceSet.mem_caption625 {service : Service} :
    caption625.contains service = true ↔
      service = .caption625Field1 ∨ service = .caption625Field2 := by
  cases service <;> decide

theorem ServiceSet.mem_vps {service : Service} :
    vps.contains service = true ↔ service = .vps ∨ service = .vpsField2 := by
  cases service <;> decide

/-- Services that may share a slicer differ only in their lines. -/
theorem Target.ofService_eq_of_isMergeable {set : ServiceSet} {a b : Service}
    (hset : set.isMergeable = true) (ha : set.contains a = true) (hb : set.contains b = true)
    (s : Sampling) (strictness : Strictness) :
    Target.ofService a.transmission s strictness = .ofService b.transmission s strictness := by
  simp only [ServiceSet.isMergeable, Bool.or_eq_true] at hset
  rcases hset with ((hsub | hsub) | hsub) | hsub
  · obtain rfl | rfl := ServiceSet.mem_teletextB625.mp (ServiceSet.contains_of_isSubset hsub ha) <;>
    obtain rfl | rfl := ServiceSet.mem_teletextB625.mp (ServiceSet.contains_of_isSubset hsub hb) <;>
    rfl
  · obtain rfl | rfl := ServiceSet.mem_caption525.mp (ServiceSet.contains_of_isSubset hsub ha) <;>
    obtain rfl | rfl := ServiceSet.mem_caption525.mp (ServiceSet.contains_of_isSubset hsub hb) <;>
    rfl
  · obtain rfl | rfl := ServiceSet.mem_caption625.mp (ServiceSet.contains_of_isSubset hsub ha) <;>
    obtain rfl | rfl := ServiceSet.mem_caption625.mp (ServiceSet.contains_of_isSubset hsub hb) <;>
    rfl
  · obtain rfl | rfl := ServiceSet.mem_vps.mp (ServiceSet.contains_of_isSubset hsub ha) <;>
    obtain rfl | rfl := ServiceSet.mem_vps.mp (ServiceSet.contains_of_isSubset hsub hb) <;>
    rfl

/-- What holds of each job of a decoder for a sampling and some services. -/
structure Job.Sound (s : Sampling) (services : ServiceSet) (job : Job) : Prop where
  known : job.services.IsKnown
  nonempty : job.services.isEmpty = false
  decoded : ∀ service, job.services.contains service = true → services.contains service = true
  configured : ∃ strictness, ∀ service, job.services.contains service = true →
    SlicerConfig.ofTarget (.ofService service.transmission s strictness) = .ok job.slicer.config

namespace Job.Sound

variable {s : Sampling} {services services' : ServiceSet} {job : Job}

theorem exists_contains (h : job.Sound s services) :
    ∃ service, job.services.contains service = true :=
  h.known.exists_contains h.nonempty

theorem of_setup {before : Job} (h : before.Sound s services) (hsetup : job.setup = before.setup) :
    job.Sound s services := by
  obtain ⟨hservices, hconfig⟩ := Prod.mk.inj hsetup
  exact ⟨hservices ▸ h.known, hservices ▸ h.nonempty, hservices ▸ h.decoded,
    hservices ▸ hconfig ▸ h.configured⟩

theorem mono (h : job.Sound s services)
    (hdecoded : ∀ service, job.services.contains service = true →
      services.contains service = true → services'.contains service = true) :
    job.Sound s services' where
  known := h.known
  nonempty := h.nonempty
  decoded service hservice := hdecoded service hservice (h.decoded service hservice)
  configured := h.configured

theorem config_eq (h : job.Sound s services) : ∃ strictness, ∀ service,
    job.services.contains service = true →
      SlicerConfig.Feasible (.ofService service.transmission s strictness) ∧
        job.slicer.config = .derive (.ofService service.transmission s strictness) := by
  obtain ⟨strictness, hconfig⟩ := h.configured
  exact ⟨strictness, fun service hservice =>
    SlicerConfig.ofTarget_eq_ok_iff.mp (hconfig service hservice)⟩

/-- What the slicer of a job shares with the sampling. -/
theorem config_sampling (h : job.Sound s services) :
    job.slicer.config.layout = s.format.layout ∧
      job.slicer.config.samplesPerLine = s.samplesPerLine ∧
      job.slicer.config.criEnd ≤ s.samplesPerLine - 1 ∧
      0 < job.slicer.config.criRate ∧
      job.slicer.config.criRate ≤ job.slicer.config.stepRate ∧
      job.slicer.config.payloadBytes ≤ recordBytes := by
  obtain ⟨strictness, hconfig⟩ := h.config_eq
  obtain ⟨service, hservice⟩ := h.known.exists_contains h.nonempty
  obtain ⟨hfeasible, hderive⟩ := hconfig service hservice
  have hoversampling : 0 < s.format.layout.oversampling := by cases s.format <;> decide
  rw [hderive]
  refine ⟨rfl, rfl, Nat.min_le_right _ _, hfeasible.criRate_pos, ?_, hfeasible.payload⟩
  exact Nat.le_trans hfeasible.criRate_le (Nat.le_mul_of_pos_right _ hoversampling)

/-- A job may take on a service that is sent in the same way as those that it has. -/
theorem insert (h : job.Sound s services) {service : Service}
    (hmergeable : (job.services.insert service).isMergeable = true) :
    ({ job with services := job.services.insert service } : Job).Sound s
      (services.insert service) where
  known := h.known.insert service
  nonempty := by
    apply ServiceSet.isEmpty_of_contains
    simp only [ServiceSet.contains_insert, Bool.or_eq_true, decide_eq_true_eq]
    exact Or.inr rfl
  decoded other hother := by
    rw [ServiceSet.contains_insert, Bool.or_eq_true] at hother ⊢
    exact hother.imp_left (h.decoded other)
  configured := by
    obtain ⟨strictness, hconfig⟩ := h.configured
    -- Any service that the job had before shows how its slicer is configured.
    obtain ⟨present, hpresent⟩ := h.exists_contains
    refine ⟨strictness, ?_⟩
    intro other hother
    have hpresent' : (job.services.insert service).contains present = true := by simp [hpresent]
    rw [Target.ofService_eq_of_isMergeable hmergeable hother hpresent']
    exact hconfig present hpresent

theorem singleton {service : Service} {strictness : Strictness} {slicer : Slicer}
    (hslicer : Slicer.ofTarget (.ofService service.transmission s strictness) = .ok slicer) :
    (⟨.singleton service, slicer⟩ : Job).Sound s (services.insert service) where
  known := ServiceSet.isKnown_singleton service
  nonempty := by
    apply ServiceSet.isEmpty_of_contains
    simp only [ServiceSet.contains_singleton, decide_eq_true_eq]
    exact rfl
  decoded other hother := by
    rw [ServiceSet.contains_singleton] at hother
    simp [hother]
  configured := by
    refine ⟨strictness, ?_⟩
    intro other hother
    obtain rfl : service = other := by simpa using hother
    unfold Slicer.ofTarget at hslicer
    split at hslicer
    next config hconfig =>
      obtain rfl := Except.ok.inj hslicer
      exact hconfig
    next => exact absurd hslicer (by simp)

/-- A job may give up services as long as some are left. -/
theorem sdiff (h : job.Sound s services) {removed : ServiceSet}
    (hrest : (job.services \ removed).isEmpty = false) :
    ({ job with services := job.services \ removed } : Job).Sound s (services \ removed) where
  known := h.known.sdiff removed
  nonempty := hrest
  decoded service hservice := by
    rw [ServiceSet.contains_sdiff, Bool.and_eq_true] at hservice ⊢
    exact hservice.imp_left (h.decoded service)
  configured := by
    obtain ⟨strictness, hconfig⟩ := h.configured
    exact ⟨strictness, fun service hservice =>
      hconfig service (ServiceSet.contains_of_sdiff hservice)⟩

end Job.Sound

namespace Decoder

/-- What holds of the services and the jobs of a decoder at any time. -/
structure Sound (d : Decoder) : Prop where
  permitted : ∀ service, d.services.contains service = true →
    ∃ strictness, d.sampling.permit service.transmission strictness = .ok ()
  jobs : ∀ job ∈ d.jobs, job.Sound d.sampling d.services

theorem mem_dropFrom {s : Sampling} {removed : ServiceSet} {number : Nat} {jobs : List Job}
    {patterns : List LinePattern} {job : Job}
    (h : job ∈ (dropFrom s removed number jobs patterns).1) :
    ∃ before ∈ jobs, (job = before ∧ before.services.intersects removed = false) ∨
      job = { before with services := before.services \ removed } ∧
        (before.services \ removed).isEmpty = false := by
  fun_induction dropFrom s removed number jobs patterns with
  | case1 => exact absurd h (by simp)
  | case2 number first rest patterns hdisjoint jobs after hrest ih =>
      rw [hrest] at ih
      rcases List.mem_cons.mp h with rfl | hmem
      · exact ⟨job, List.mem_cons_self, Or.inl ⟨rfl, by simpa using hdisjoint⟩⟩
      · obtain ⟨before, hbefore, hkept⟩ := ih hmem
        exact ⟨before, List.mem_cons_of_mem _ hbefore, hkept⟩
  | case3 number first rest patterns hmeets remaining hempty ih =>
      obtain ⟨before, hbefore, hkept⟩ := ih h
      exact ⟨before, List.mem_cons_of_mem _ hbefore, hkept⟩
  | case4 number first rest patterns hmeets remaining hleft cleared moved jobs after hrest ih =>
      rw [hrest] at ih
      rcases List.mem_cons.mp h with rfl | hmem
      · exact ⟨first, List.mem_cons_self, Or.inr ⟨rfl, by simpa using hleft⟩⟩
      · obtain ⟨before, hbefore, hkept⟩ := ih hmem
        exact ⟨before, List.mem_cons_of_mem _ hbefore, hkept⟩

namespace Sound

theorem ofSampling (s : Sampling) : (Decoder.ofSampling s).Sound where
  permitted service hservice := absurd hservice (by simp [Decoder.ofSampling])
  jobs job hjob := absurd hjob (by simp [Decoder.ofSampling])

theorem addService {d next : Decoder} {service : Service} {strictness : Strictness}
    (h : d.Sound) (hnext : d.addService service strictness = .ok next) : next.Sound := by
  rcases addService_eq_ok hnext with ⟨rfl, _⟩ | ⟨jobs, number, hadded⟩
  · exact h
  · rw [hadded.next_eq]
    have hmono (job : Job) (hjob : job ∈ d.jobs) :
        job.Sound d.sampling (d.services.insert service) :=
      (h.jobs job hjob).mono fun other _ hother => by simp [hother]
    constructor
    · intro other hother
      rw [ServiceSet.contains_insert, Bool.or_eq_true, decide_eq_true_eq] at hother
      rcases hother with hother | rfl
      · exact h.permitted other hother
      · exact ⟨strictness, hadded.permitted⟩
    · intro job hjob
      obtain ⟨before, hget, hmergeable, rfl⟩ | ⟨slicer, hslicer, _, rfl⟩ :=
        assign_eq_ok hadded.assigned
      · rcases List.mem_or_eq_of_mem_set hjob with hjob | rfl
        · exact hmono job hjob
        · exact (h.jobs before (List.mem_of_getElem? hget)).insert hmergeable
      · rcases List.mem_append.mp hjob with hjob | hjob
        · exact hmono job hjob
        · obtain rfl := List.mem_singleton.mp hjob
          exact Job.Sound.singleton hslicer

theorem removeServices {d : Decoder} (h : d.Sound) (services : ServiceSet) :
    (d.removeServices services).Sound := by
  rw [removeServices_eq]
  constructor
  · intro service hservice
    exact h.permitted service (ServiceSet.contains_of_sdiff hservice)
  · intro job hjob
    obtain ⟨before, hbefore, ⟨rfl, hdisjoint⟩ | ⟨rfl, hrest⟩⟩ := mem_dropFrom hjob
    · apply (h.jobs job hbefore).mono
      intro service hservice hdecoded
      have hkept := ServiceSet.not_contains_of_not_intersects hdisjoint hservice
      rw [ServiceSet.contains_sdiff, hdecoded, hkept]
      rfl
    · exact (h.jobs before hbefore).sdiff hrest

theorem decode {d next : Decoder} {capacity : Nat} {raw : ByteArray} {records : List Record}
    (h : d.Sound) (hnext : d.decode capacity raw = .ok (next, records)) : next.Sound := by
  obtain ⟨_, rfl, _⟩ := decode_eq_ok hnext
  have hsetup := d.map_setup_verdicts capacity raw
  refine ⟨h.permitted, ?_⟩
  intro job hjob
  obtain ⟨number, hnumber⟩ := List.mem_iff_getElem?.mp hjob
  obtain ⟨before, hbefore, hsame⟩ := setup_getElem? hsetup hnumber
  exact (h.jobs before (List.mem_of_getElem? hbefore)).of_setup hsame.symm

end Sound

theorem Reachable.sound {d : Decoder} (h : d.Reachable) : d.Sound :=
  h.invariant Sound (fun s _ => Sound.ofSampling s) (fun _ _ _ _ hd hnext => hd.addService hnext)
    (fun _ services hd => hd.removeServices services) fun _ _ _ _ _ hd hnext => hd.decode hnext

end Decoder

end Blanking
