import Blanking.Proofs.Decoder.Capacity

/-! # Which services a decoder accepts

As long as the sampling and the strictness stay the same, it does not matter to a service which
other ones are decoded: the services of a decoder are those that a plain set would have after the
same requests, if it took in those services only that can be decoded alone. -/

namespace Blanking

/-- Whether a service can be decoded from a sampling: it is permitted, and its signal can be
sliced. -/
def Sampling.accepts (s : Sampling) (strictness : Strictness) (service : Service) : Bool :=
  s.permits strictness service &&
    (Slicer.ofTarget (.ofService service.transmission s strictness)).isOk

theorem Sampling.accepts_iff {s : Sampling} {strictness : Strictness} {service : Service} :
    s.accepts strictness service = true ↔
      s.permit service.transmission strictness = .ok () ∧
        ∃ slicer,
          Slicer.ofTarget (.ofService service.transmission s strictness) = .ok slicer := by
  rw [accepts, Bool.and_eq_true, permits_iff]
  cases Slicer.ofTarget (.ofService service.transmission s strictness) <;>
    simp [Except.isOk, Except.toBool]

/-! ## Plain sets -/

namespace ServiceSet

variable {accepts : Service → Bool}

/-- A set with one more service, if that is accepted. -/
def put (accepts : Service → Bool) (set : ServiceSet) (service : Service) : ServiceSet :=
  if accepts service then set.insert service else set

theorem IsKnown.put {set : ServiceSet} (hknown : set.IsKnown) (service : Service) :
    (set.put accepts service).IsKnown := by
  unfold ServiceSet.put
  split
  next => exact hknown.insert service
  next => exact hknown

theorem contains_put (set : ServiceSet) (added service : Service) :
    (set.put accepts added).contains service =
      (set.contains service || decide (added = service) && accepts service) := by
  unfold put
  by_cases heq : added = service
  · subst heq
    cases accepts added <;> simp
  · split <;> simp [heq]

theorem IsKnown.foldl_put {set : ServiceSet} (hknown : set.IsKnown) (services : List Service) :
    (services.foldl (ServiceSet.put accepts) set).IsKnown := by
  induction services generalizing set with
  | nil => exact hknown
  | cons service rest ih => exact ih (hknown.put service)

theorem contains_foldl_put (services : List Service) (set : ServiceSet) (service : Service) :
    (services.foldl (put accepts) set).contains service =
      (set.contains service || decide (service ∈ services) && accepts service) := by
  induction services generalizing set with
  | nil => simp
  | cons first rest ih =>
      rw [List.foldl_cons, ih, contains_put, Bool.or_assoc, ← Bool.and_or_distrib_right,
        ← Bool.decide_or]
      simp only [List.mem_cons, eq_comm]

/-- Services that are in the set already need not be put into it again. -/
theorem IsKnown.foldl_put_sdiff {set : ServiceSet} (hknown : set.IsKnown) (added : ServiceSet) :
    (added \ set).toList.foldl (ServiceSet.put accepts) set =
      added.toList.foldl (ServiceSet.put accepts) set := by
  apply (hknown.foldl_put _).ext (hknown.foldl_put _)
  intro service
  simp only [contains_foldl_put, mem_toList, contains_sdiff]
  cases set.contains service <;> simp

end ServiceSet

/-! ## Requests -/

namespace Decoder

/-- What can be asked of a decoder at a fixed sampling and strictness. -/
inductive Request where
  | add (service : Service)
  | addAll (services : ServiceSet)
  | remove (services : ServiceSet)
  | decode (capacity : Nat) (raw : ByteArray)

namespace Request

/-- What a decoder does on a request. -/
def operation (strictness : Strictness) : Request → Operation
  | .add service => .addService service strictness
  | .addAll services => .addServices services strictness
  | .remove services => .removeServices services
  | .decode capacity raw => .decode capacity raw

/-- What becomes of a plain set on a request. -/
def replay (accepts : Service → Bool) (set : ServiceSet) : Request → ServiceSet
  | .add service => set.put accepts service
  | .addAll services => services.toList.foldl (ServiceSet.put accepts) set
  | .remove services => set \ services
  | .decode _ _ => set

/-- Whether a request is for a service to be decoded. -/
def wants (service : Service) : Request → Bool
  | .add added => decide (added = service)
  | .addAll services => services.contains service
  | .remove _ | .decode _ _ => false

/-- Whether a request is for services not to be decoded any more. -/
def isRemoval : Request → Bool
  | .remove _ => true
  | .add _ | .addAll _ | .decode _ _ => false

section Replay

variable {accepts : Service → Bool} {set : ServiceSet}

theorem isKnown_replay (hknown : set.IsKnown) (request : Request) :
    (request.replay accepts set).IsKnown := by
  cases request with
  | add service => exact hknown.put service
  | addAll services => exact hknown.foldl_put _
  | remove services => exact hknown.sdiff services
  | decode capacity raw => exact hknown

theorem isKnown_foldl_replay (hknown : set.IsKnown) (requests : List Request) :
    (requests.foldl (replay accepts) set).IsKnown := by
  induction requests generalizing set with
  | nil => exact hknown
  | cons request rest ih => exact ih (isKnown_replay hknown request)

/-- Only what is accepted comes into the set. -/
theorem accepts_of_contains_replay {request : Request} {service : Service}
    (h : ∀ service, set.contains service = true → accepts service = true)
    (hservice : (request.replay accepts set).contains service = true) :
    accepts service = true := by
  cases request with
  | add added =>
      rw [replay, ServiceSet.contains_put, Bool.or_eq_true, Bool.and_eq_true] at hservice
      exact hservice.elim (h service) And.right
  | addAll services =>
      rw [replay, ServiceSet.contains_foldl_put, Bool.or_eq_true, Bool.and_eq_true] at hservice
      exact hservice.elim (h service) And.right
  | remove services =>
      rw [replay, ServiceSet.contains_sdiff, Bool.and_eq_true] at hservice
      exact h service hservice.1
  | decode capacity raw => exact h service hservice

/-- Without removals the set grows by what is wanted and accepted. -/
theorem contains_foldl_replay {requests : List Request}
    (h : ∀ request ∈ requests, request.isRemoval = false) (service : Service) :
    (requests.foldl (replay accepts) set).contains service =
      (set.contains service || requests.any (wants service) && accepts service) := by
  induction requests generalizing set with
  | nil => simp
  | cons request rest ih =>
      have hfirst : (request.replay accepts set).contains service =
          (set.contains service || request.wants service && accepts service) := by
        cases request with
        | add added => rw [replay, ServiceSet.contains_put, wants]
        | addAll services =>
            rw [replay, ServiceSet.contains_foldl_put, wants]
            simp only [ServiceSet.mem_toList, Bool.decide_eq_true]
        | remove services => exact absurd (h _ List.mem_cons_self) (by simp [isRemoval])
        | decode capacity raw => simp [replay, wants]
      rw [List.foldl_cons, ih fun other hother => h other (List.mem_cons_of_mem _ hother), hfirst,
        Bool.or_assoc, ← Bool.and_or_distrib_right, List.any_cons]

end Replay

end Request

/-! ## Decoders and plain sets -/

/-- The decoder after some requests. -/
def serve (strictness : Strictness) (d : Decoder) (requests : List Request) : Decoder :=
  d.run (requests.map (Request.operation strictness))

/-- The decoder after some requests, in words. -/
def InWords.serve? (strictness : Strictness) (d : Decoder) (requests : List Request) :
    Option Decoder :=
  run? d (requests.map (Request.operation strictness))

theorem sampling_after_operation (d : Decoder) (strictness : Strictness) (request : Request) :
    (d.after (request.operation strictness)).sampling = d.sampling := by
  cases request with
  | add service =>
      simp only [Request.operation, after]
      split
      next next hnext => exact sampling_addService hnext
      next => rfl
  | addAll services => exact sampling_addEach d strictness _
  | remove services => exact sampling_removeServices d services
  | decode capacity raw =>
      simp only [Request.operation, after]
      split
      next next records hnext => rw [(decode_eq_ok hnext).2.1]
      next => rfl

theorem addEach_cons_fst (d : Decoder) (strictness : Strictness) (service : Service)
    (rest : List Service) :
    (d.addEach strictness (service :: rest)).1 =
      ((d.after (.addService service strictness)).addEach strictness rest).1 := by
  rw [addEach, after]
  split
  next cause herror => simp only [herror]
  next next hnext => simp only [hnext]

/-- What holds of a decoder while all that it was asked for is of one strictness. -/
structure Uniform (s : Sampling) (strictness : Strictness) (d : Decoder) : Prop where
  reachable : d.Reachable
  sampling_eq : d.sampling = s
  accepted : ∀ service, d.services.contains service = true →
    s.accepts strictness service = true

namespace Uniform

variable {s : Sampling} {strictness : Strictness} {d : Decoder}

theorem known (h : d.Uniform s strictness) : d.services.IsKnown :=
  h.reachable.partitioned.divided.known

/-- A service that gets a job can be sliced, even if the job has its slicer for another one. -/
theorem ofTarget_of_assign (h : d.Uniform s strictness) {service : Service} {jobs : List Job}
    {number : Nat} (hassign : d.assign service strictness = .ok (jobs, number)) :
    ∃ slicer, Slicer.ofTarget (.ofService service.transmission s strictness) = .ok slicer := by
  obtain ⟨job, hget, hmergeable, _⟩ | ⟨slicer, hslicer, _, _⟩ := assign_eq_ok hassign
  · have hjob := h.reachable.sound.jobs job (List.mem_of_getElem? hget)
    obtain ⟨member, hmember⟩ := hjob.exists_contains
    obtain ⟨_, hslicer⟩ := Sampling.accepts_iff.mp (h.accepted member (hjob.decoded member hmember))
    rwa [Target.ofService_eq_of_isMergeable hmergeable (a := service) (b := member) (by simp)
      (by simp [hmember])]
  · rw [h.sampling_eq] at hslicer
    exact ⟨slicer, hslicer⟩

/-- A decoder takes on a service just if a plain set does. -/
theorem services_addService (h : d.Uniform s strictness) (service : Service) :
    (d.after (.addService service strictness)).services =
      d.services.put (s.accepts strictness) service := by
  unfold after ServiceSet.put
  dsimp only
  split
  next next hnext =>
    rcases addService_eq_ok hnext with ⟨rfl, hdecoded⟩ | ⟨jobs, number, hadded⟩
    · split
      next =>
        apply h.known.ext (h.known.insert service)
        intro other
        by_cases heq : service = other
        · subst heq
          simp [hdecoded]
        · simp [heq]
      next => rfl
    · have haccepts : s.accepts strictness service = true :=
        Sampling.accepts_iff.mpr
          ⟨h.sampling_eq ▸ hadded.permitted, h.ofTarget_of_assign hadded.assigned⟩
      rw [if_pos haccepts, hadded.next_eq]
  next cause herror =>
    have hrefused : ¬ s.accepts strictness service = true := by
      intro haccepts
      obtain ⟨hpermit, slicer, hslicer⟩ := Sampling.accepts_iff.mp haccepts
      obtain ⟨reason, hreason, _⟩ | ⟨reason, hreason, _⟩ := h.reachable.addService_eq_error herror
      · rw [h.sampling_eq, hpermit] at hreason
        exact absurd hreason (by simp)
      · rw [h.sampling_eq, hslicer] at hreason
        exact absurd hreason (by simp)
    rw [if_neg hrefused]

/-- What is asked for keeps a decoder uniform once its services are known to be those of the
plain set. -/
theorem after_of_services (h : d.Uniform s strictness) (request : Request)
    (hservices : (d.after (request.operation strictness)).services =
      request.replay (s.accepts strictness) d.services) :
    (d.after (request.operation strictness)).Uniform s strictness where
  reachable := h.reachable.step _
  sampling_eq := by rw [sampling_after_operation, h.sampling_eq]
  accepted service hservice := by
    rw [hservices] at hservice
    exact Request.accepts_of_contains_replay h.accepted hservice

/-- Of several services a decoder takes on those that a plain set does. -/
theorem services_addEach (h : d.Uniform s strictness) (services : List Service) :
    (d.addEach strictness services).1.services =
      services.foldl (ServiceSet.put (s.accepts strictness)) d.services := by
  induction services generalizing d with
  | nil => rfl
  | cons service rest ih =>
      have hservices := h.services_addService service
      have huniform := h.after_of_services (.add service) hservices
      rw [addEach_cons_fst, List.foldl_cons, ← hservices]
      exact ih huniform

theorem services_removeServices (h : d.Uniform s strictness) (services : ServiceSet) :
    (d.removeServices services).services = d.services \ services := by
  rw [removeServices_eq, h.known.sdiff_inter fun _ => id]

/-- Whatever a decoder is asked for, its services change as a plain set does. -/
theorem services_after (h : d.Uniform s strictness) (request : Request) :
    (d.after (request.operation strictness)).services =
      request.replay (s.accepts strictness) d.services := by
  cases request with
  | add service => exact h.services_addService service
  | addAll services => exact (h.services_addEach _).trans (h.known.foldl_put_sdiff services)
  | remove services => exact h.services_removeServices services
  | decode capacity raw =>
      simp only [Request.operation, Decoder.after, Request.replay]
      split
      next next records hnext => rw [(decode_eq_ok hnext).2.1]
      next => rfl

theorem serve (h : d.Uniform s strictness) (requests : List Request) :
    (d.serve strictness requests).Uniform s strictness := by
  induction requests generalizing d with
  | nil => exact h
  | cons request rest ih => exact ih (h.after_of_services request (h.services_after request))

theorem services_serve (h : d.Uniform s strictness) (requests : List Request) :
    (d.serve strictness requests).services =
      requests.foldl (Request.replay (s.accepts strictness)) d.services := by
  induction requests generalizing d with
  | nil => rfl
  | cons request rest ih =>
      have hservices := h.services_after request
      rw [List.foldl_cons, ← hservices]
      exact ih (h.after_of_services request hservices)

/-- What is asked for can be done in words if the numbers of the sampling are small enough. -/
theorem after?_eq (h : d.Uniform s strictness) (hfit : s.FitsWords) (request : Request) :
    InWords.after? d (request.operation strictness) =
      some (d.after (request.operation strictness)) := by
  have hvalid := h.reachable.valid
  have hfit : d.sampling.FitsWords := by rwa [h.sampling_eq]
  cases request with
  | add service =>
      rw [Request.operation, InWords.after?, run_addService hvalid hfit]
      rfl
  | addAll services =>
      rw [Request.operation, InWords.after?, InWords.addServices, addEach_eq hvalid hfit]
      rfl
  | remove services => rfl
  | decode capacity raw =>
      rw [Request.operation, InWords.after?,
        run_decode hfit.frameSize?_eq (h.reachable.sound.positionsFit hfit)]
      rfl

theorem serve?_eq (h : d.Uniform s strictness) (hfit : s.FitsWords) (requests : List Request) :
    InWords.serve? strictness d requests = some (d.serve strictness requests) := by
  induction requests generalizing d with
  | nil => rfl
  | cons request rest ih =>
      refine Option.bind_eq_some_iff.mpr ⟨_, h.after?_eq hfit request, ?_⟩
      exact ih (h.after_of_services request (h.services_after request))

end Uniform

theorem uniform_of_new {s : Sampling} {d : Decoder} (hnew : Decoder.new s = .ok d)
    (strictness : Strictness) : d.Uniform s strictness where
  reachable := .new hnew
  sampling_eq := by rw [(new_eq_ok hnew).2, ofSampling]
  accepted service hservice := by
    rw [(new_eq_ok hnew).2] at hservice
    exact absurd hservice (by simp [ofSampling])

theorem fitsWords_preset625 : Sampling.preset625.FitsWords where
  lines := by decide +kernel
  samples := by decide +kernel
  bytes := by decide +kernel
  place := by decide +kernel
  positions service strictness config hconfig := by
    have hfits : ∀ service ∈ Service.all, ∀ strictness ∈ [Strictness.loose, .reliable, .strict],
        ∀ config ∈ (SlicerConfig.ofTarget
          (.ofService service.transmission .preset625 strictness)).toOption,
            config.PositionsFit := by decide +kernel
    refine hfits service (Service.mem_all service) strictness ?_ config ?_
    · cases strictness <;> decide
    · rw [hconfig]
      rfl

end Decoder

end Blanking
