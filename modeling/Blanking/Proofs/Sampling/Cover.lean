import Blanking.Proofs.Sampling.Candidates
import Blanking.Proofs.Sampling.Rows
import Blanking.Proofs.Service.Set
import Blanking.Proofs.Service.Standard
import Blanking.Sampling.Cover

/-! # What a made sampling covers

A sampling that is made for some services is consistent, has the fewest lines in a row that take
in all of theirs, and carries each of them unless a line turns out too short in time. -/

namespace Blanking

namespace Sampling

/-- Lines that cover those of a service suffice for any check. -/
theorem linesSuffice_of_strict {s : Sampling} {service : Service} {field : Field}
    (h : s.linesSuffice service.transmission .strict field = true) (strictness : Strictness) :
    s.linesSuffice service.transmission strictness field = true := by
  obtain ⟨hfirst, hlast⟩ := linesSuffice_strict_iff.mp h
  have horder := service.first_le_last field
  cases strictness with
  | loose => rfl
  | reliable => exact linesSuffice_reliable_iff.mpr ⟨horder.trans hlast, hfirst.trans horder⟩
  | strict => exact h

end Sampling

namespace Coverage

/-! ## Ranges -/

theorem exists_range? {numbers : List Nat} (hne : numbers ≠ []) :
    ∃ low high, range? numbers = some (low, high) ∧ numbers.min? = some low ∧
      numbers.max? = some high := by
  induction numbers with
  | nil => exact absurd rfl hne
  | cons n rest ih =>
      rw [range?]
      cases rest with
      | nil => exact ⟨n, n, rfl, rfl, rfl⟩
      | cons m rest =>
          obtain ⟨low, high, hrange, hlow, hhigh⟩ := ih (List.cons_ne_nil m rest)
          rw [hrange, List.min?_cons, List.max?_cons, hlow, hhigh]
          exact ⟨_, _, rfl, rfl, rfl⟩

/-! ## Lines of a field -/

/-- The first and the last line of a field that some services use. -/
structure IsExtent (services : List Service) (field : Field) (first last : Nat) : Prop where
  first_le : ∀ service ∈ services, service.transmission.onField field = true →
    first ≤ service.transmission.first.on field
  le_last : ∀ service ∈ services, service.transmission.onField field = true →
    service.transmission.last.on field ≤ last
  exists_first : ∃ service ∈ services, service.transmission.onField field = true ∧
    service.transmission.first.on field = first
  exists_last : ∃ service ∈ services, service.transmission.onField field = true ∧
    service.transmission.last.on field = last

section Field

variable {services : List Service} {field : Field}

theorem used_or_unused (services : List Service) (field : Field) :
    (∃ service ∈ services, service.transmission.onField field = true) ∨
      ∀ service ∈ services, service.transmission.onField field = false := by
  simpa using em (∃ service ∈ services, service.transmission.onField field = true)

theorem fieldLines_of_unused
    (h : ∀ service ∈ services, service.transmission.onField field = false) :
    fieldLines services field = (0, 0) := by
  have hnone : (services.map Service.transmission).filter (·.onField field) = [] := by
    simpa [List.filter_eq_nil_iff] using h
  simp only [fieldLines, hnone, List.flatMap_nil, range?]

theorem exists_isExtent
    (h : ∃ service ∈ services, service.transmission.onField field = true) :
    ∃ first last, fieldLines services field = (first, last - first + 1) ∧
      IsExtent services field first last := by
  have hmem (n : Nat) :
      (n ∈ ((services.map Service.transmission).filter (·.onField field)).flatMap
        fun t => [t.first.on field, t.last.on field]) ↔
      ∃ service ∈ services, service.transmission.onField field = true ∧
        (n = service.transmission.first.on field ∨ n = service.transmission.last.on field) := by
    simp [and_assoc]
  obtain ⟨service, hservice, hfield⟩ := h
  obtain ⟨first, last, hrange, hmin, hmax⟩ := exists_range?
    (List.ne_nil_of_mem ((hmem _).mpr ⟨service, hservice, hfield, Or.inl rfl⟩))
  obtain ⟨hfirstMem, hfirstLe⟩ := List.min?_eq_some_iff.mp hmin
  obtain ⟨hlastMem, hleLast⟩ := List.max?_eq_some_iff.mp hmax
  have hfirst : ∀ service ∈ services, service.transmission.onField field = true →
      first ≤ service.transmission.first.on field := fun service hservice hfield =>
    hfirstLe _ ((hmem _).mpr ⟨service, hservice, hfield, Or.inl rfl⟩)
  have hlast : ∀ service ∈ services, service.transmission.onField field = true →
      service.transmission.last.on field ≤ last := fun service hservice hfield =>
    hleLast _ ((hmem _).mpr ⟨service, hservice, hfield, Or.inr rfl⟩)
  refine ⟨first, last, by simp only [fieldLines, hrange], hfirst, hlast, ?_, ?_⟩
  · obtain ⟨service, hservice, hfield, heq⟩ := (hmem first).mp hfirstMem
    have hle := hfirst service hservice hfield
    have horder := service.first_le_last field
    exact ⟨service, hservice, hfield, by omega⟩
  · obtain ⟨service, hservice, hfield, heq⟩ := (hmem last).mp hlastMem
    have hle := hlast service hservice hfield
    have horder := service.first_le_last field
    exact ⟨service, hservice, hfield, by omega⟩

/-! ## The made sampling -/

section Made

variable {standards : StandardSet}

@[simp]
theorem start_samplingFor (services : List Service) (standards : StandardSet) (field : Field) :
    (samplingFor services standards).start.on field = (fieldLines services field).1 := by
  cases field <;> rfl

@[simp]
theorem count_samplingFor (services : List Service) (standards : StandardSet) (field : Field) :
    (samplingFor services standards).count.on field = (fieldLines services field).2 := by
  cases field <;> rfl

/-- The sampled lines of a field that is used reach from the first to the last one in use. -/
theorem exists_extent_samplingFor
    (h : ∃ service ∈ services, service.transmission.onField field = true)
    (standards : StandardSet) :
    ∃ first last, IsExtent services field first last ∧ 0 < first ∧ first ≤ last ∧
      (samplingFor services standards).start.on field = first ∧
      (samplingFor services standards).count.on field = last - first + 1 := by
  obtain ⟨first, last, hlines, hextent⟩ := exists_isExtent h
  obtain ⟨service, hservice, hfield, hfirst⟩ := hextent.exists_first
  have hlast := hextent.le_last service hservice hfield
  have horder := service.first_le_last field
  simp only [Transmission.onField, Bool.and_eq_true, decide_eq_true_eq] at hfield
  exact ⟨first, last, hextent, by omega, by omega, by simp [hlines], by simp [hlines]⟩

theorem not_hasLine_of_unused
    (h : ∀ service ∈ services, service.transmission.onField field = false) {line : Nat} :
    ¬ (samplingFor services standards).HasLine field line := by
  rintro ⟨hstart, _⟩
  rw [start_samplingFor, fieldLines_of_unused h] at hstart
  exact absurd hstart (by decide)

theorem hasLine_of_covers {service : Service} (hservice : service ∈ services) {line : Nat}
    (hcovers : service.transmission.covers field line = true) :
    (samplingFor services standards).HasLine field line := by
  simp only [Transmission.covers, Bool.and_eq_true, decide_eq_true_eq] at hcovers
  obtain ⟨⟨hfield, hfirst⟩, hlast⟩ := hcovers
  obtain ⟨first, last, hextent, hpos, _, hstart, hcount⟩ :=
    exists_extent_samplingFor ⟨service, hservice, hfield⟩ standards
  have hfirst' := hextent.first_le service hservice hfield
  have hlast' := hextent.le_last service hservice hfield
  rw [Sampling.HasLine, hstart, hcount]
  omega

/-- Lines that take in those of all services take in the sampled ones. -/
theorem between_of_hasLine {low high line : Nat}
    (hall : ∀ service ∈ services, ∀ line, service.transmission.covers field line = true →
      low ≤ line ∧ line ≤ high)
    (hline : (samplingFor services standards).HasLine field line) :
    low ≤ line ∧ line ≤ high := by
  obtain hused | hunused := used_or_unused services field
  · obtain ⟨first, last, hextent, _, _, hstart, hcount⟩ :=
      exists_extent_samplingFor hused standards
    obtain ⟨service, hservice, hfield, rfl⟩ := hextent.exists_first
    have hlow := hall service hservice (service.transmission.first.on field)
      (by simp [Transmission.covers, hfield, service.first_le_last])
    obtain ⟨service', hservice', hfield', rfl⟩ := hextent.exists_last
    have hhigh := hall service' hservice' (service'.transmission.last.on field)
      (by simp [Transmission.covers, hfield', service'.first_le_last])
    rw [Sampling.HasLine, hstart, hcount] at hline
    omega
  · exact absurd hline (not_hasLine_of_unused hunused)

section Valid

variable {scanning : Scanning} (hservices : ∀ service ∈ services, service.scanning = scanning)

include hservices

theorem validateField_samplingFor (field : Field) :
    (samplingFor services standards).validateField scanning field = .ok () := by
  refine Sampling.validateField_eq_ok_iff.mpr ?_
  obtain hused | hunused := used_or_unused services field
  · obtain ⟨first, last, hextent, _, hle, hstart, hcount⟩ :=
      exists_extent_samplingFor hused standards
    obtain ⟨service, hservice, hfield, rfl⟩ := hextent.exists_first
    obtain ⟨service', hservice', hfield', rfl⟩ := hextent.exists_last
    have hfirst := (service.fieldLines_of_onField hfield).1
    have hlast := (service'.fieldLines_of_onField hfield').2
    rw [hservices service hservice] at hfirst
    rw [hservices service' hservice'] at hlast
    rw [Sampling.lastLine, hstart, hcount]
    omega
  · exact Or.inl (by rw [start_samplingFor, fieldLines_of_unused hunused])

theorem valid_samplingFor (hne : services ≠ [])
    (hstandards : standards.scanning = some scanning) :
    (samplingFor services standards).Valid := by
  obtain ⟨service, hservice⟩ := List.exists_mem_of_ne_nil services hne
  obtain ⟨field, hfield⟩ := service.exists_onField
  obtain ⟨_, _, _, _, _, _, hcount⟩ :=
    exists_extent_samplingFor ⟨service, hservice, hfield⟩ standards
  have htotal : 0 < (samplingFor services standards).totalLines := by
    cases field <;> simp only [PerField.on] at hcount <;> rw [Sampling.totalLines] <;> omega
  have hsamples : (samplingFor services standards).samplesPerLine ≠ 0 :=
    Nat.ne_of_gt (Nat.lt_of_lt_of_le (by decide) (Nat.le_max_right _ leastSamples))
  have hrate : rate ≠ 0 := by decide
  exact Sampling.valid_iff.mpr ⟨hrate, hsamples, htotal, scanning, hstandards,
    validateField_samplingFor hservices .first, validateField_samplingFor hservices .second, rfl⟩

end Valid

theorem requiredRate_le (service : Service) :
    Sampling.requiredRate service.transmission ≤ rate := by
  cases service <;> decide

section Permit

variable {service : Service} {strictness : Strictness} (hservice : service ∈ services)

include hservice

theorem lines_samplingFor (standards : StandardSet)
    (hfield : service.transmission.onField field = true) :
    (samplingFor services standards).start.on field ≠ 0 ∧
      (samplingFor services standards).count.on field ≠ 0 ∧
      (samplingFor services standards).linesSuffice service.transmission .strict field = true := by
  obtain ⟨first, last, hextent, hpos, hle, hstart, hcount⟩ :=
    exists_extent_samplingFor ⟨service, hservice, hfield⟩ standards
  have hfirst := hextent.first_le service hservice hfield
  have hlast := hextent.le_last service hservice hfield
  rw [Sampling.linesSuffice_strict_iff, Sampling.lastLine, hstart, hcount]
  omega

theorem permitLineNumbers_samplingFor :
    (samplingFor services standards).permitLineNumbers service.transmission = .ok () := by
  rw [Sampling.permitLineNumbers, if_neg]
  simp only [Bool.and_eq_true, List.any_eq_true, beq_iff_eq, not_and, not_exists]
  intro _ field _ hfield
  exact (lines_samplingFor hservice _ hfield).1

theorem permitField_samplingFor (field : Field) :
    (samplingFor services standards).permitField service.transmission strictness field =
      .ok () := by
  refine Sampling.permitField_eq_ok_iff.mpr fun hfield => ?_
  obtain ⟨hstart, hcount, hlines⟩ := lines_samplingFor hservice standards hfield
  exact ⟨hcount, fun hzero => absurd hzero hstart,
    fun _ => Sampling.linesSuffice_of_strict hlines strictness⟩

/-- A service that the sampling was made for is refused for its time only. -/
theorem ofTime_of_permit_samplingFor {cause : PermitError}
    (hmeet : service.transmission.standards.intersects standards = true)
    (h : (samplingFor services standards).permit service.transmission strictness =
      .error cause) : cause.OfTime service := by
  have hstandard :
      (samplingFor services standards).permitStandard service.transmission = .ok () :=
    if_pos hmeet
  have hrate : (samplingFor services standards).permitRate service.transmission = .ok () :=
    if_neg (Nat.not_lt_of_le (requiredRate_le service))
  have horder :
      (samplingFor services standards).permitFieldOrder service.transmission = .ok () := by
    rw [Sampling.permitFieldOrder, if_neg]
    simp [samplingFor]
  have hcause := Sampling.ofTime_of_permit hstandard (permitLineNumbers_samplingFor hservice)
    hrate horder (permitField_samplingFor hservice) h
  rwa [service.transmission_service] at hcause

end Permit

end Made

end Field

/-! ## Covered services -/

section Services

variable {services : ServiceSet} {request allowed : StandardSet}

/-- The services of a set that can be sent in allowed standards. -/
def covered (services : ServiceSet) (allowed : StandardSet) : List Service :=
  services.toList.filter (·.transmission.standards.intersects allowed)

/-- The allowed standards that some services can be sent in. -/
def usable (services : List Service) (allowed : StandardSet) : StandardSet :=
  services.foldl (fun set service => set ∪ (service.transmission.standards ∩ allowed)) .empty

/-- What is made for services that can be sent in allowed standards. -/
def make (services : List Service) (allowed : StandardSet) : Coverage where
  sampling := samplingFor services (usable services allowed)
  services := .ofList services
  highestRate := ((range? (services.flatMap fun service =>
    [service.transmission.criRate, service.transmission.bitRate])).getD (0, 0)).2

theorem ofServices_eq (services : ServiceSet) (request : StandardSet) :
    ofServices services request =
      match allowedStandards services.toList request with
      | .error cause => .error cause
      | .ok allowed =>
          if covered services allowed = [] then .error .noServices
          else .ok (make (covered services allowed) allowed) := by
  unfold ofServices
  cases allowedStandards services.toList request with
  | error cause => rfl
  | ok allowed =>
      change (if (covered services allowed).isEmpty then _ else _) = _
      simp only [List.isEmpty_iff]
      rfl

/-- Whether a service is requested, and can be sent in a requested standard. Without a request for
standards these are those of the first service. -/
def Wanted (services : ServiceSet) (request : StandardSet) (service : Service) : Prop :=
  services.contains service = true ∧
    if request.isEmpty then
      ∃ first scanning, services.toList.head? = some first ∧
        first.transmission.standards.scanning = some scanning ∧
        service.transmission.standards.intersects (.ofScanning scanning) = true
    else service.transmission.standards.intersects request = true

theorem allowedStandards_eq_error_iff {cause : SamplingError} {services : List Service} :
    allowedStandards services request = .error cause ↔
      (request.isEmpty = false ∧ request.scanning = none) ∧
        cause = .ambiguousStandards request := by
  unfold allowedStandards
  cases request.isEmpty with
  | true => cases services.head?.bind (·.transmission.standards.scanning) <;> simp
  | false => cases request.scanning <;> simp [eq_comm]

/-- Without a request the scanning of the first service is allowed. -/
theorem allowedStandards_of_isEmpty (hempty : request.isEmpty = true) {services : List Service}
    {first : Service} (hfirst : services.head? = some first) :
    allowedStandards services request = .ok (.ofScanning first.scanning) := by
  rw [allowedStandards, if_pos hempty, hfirst, Option.bind_some, first.scanning_standards]

/-- A request of one scanning allows itself. -/
theorem allowedStandards_of_scanning (hempty : request.isEmpty = false) {scanning : Scanning}
    (hscanning : request.scanning = some scanning) (services : List Service) :
    allowedStandards services request = .ok request := by
  rw [allowedStandards, if_neg (by simp [hempty]), hscanning]

theorem exists_scanning_of_allowedStandards
    (h : allowedStandards services.toList request = .ok allowed) {first : Service}
    (hfirst : services.toList.head? = some first) :
    (∃ scanning, allowed.scanning = some scanning) ∧
      allowed = if request.isEmpty then .ofScanning first.scanning else request := by
  cases hempty : request.isEmpty with
  | true =>
      rw [allowedStandards_of_isEmpty hempty hfirst] at h
      cases h
      exact ⟨⟨_, StandardSet.scanning_ofScanning _⟩, rfl⟩
  | false =>
      cases hscanning : request.scanning with
      | none =>
          cases h.symm.trans (allowedStandards_eq_error_iff.mpr ⟨⟨hempty, hscanning⟩, rfl⟩)
      | some scanning =>
          rw [allowedStandards_of_scanning hempty hscanning] at h
          cases h
          exact ⟨⟨scanning, hscanning⟩, rfl⟩

theorem wanted_iff {first service : Service} (hfirst : services.toList.head? = some first) :
    Wanted services request service ↔ services.contains service = true ∧
      service.transmission.standards.intersects
        (if request.isEmpty then .ofScanning first.scanning else request) = true := by
  rw [Wanted, hfirst]
  split <;> simp [Service.scanning_standards]

theorem exists_head?_of_contains {service : Service} (h : services.contains service = true) :
    ∃ first, services.toList.head? = some first :=
  Option.isSome_iff_exists.mp
    (List.isSome_head?.mpr (List.ne_nil_of_mem (ServiceSet.mem_toList.mpr h)))

theorem intersects_of_mem_covered {service : Service} (h : service ∈ covered services allowed) :
    service.transmission.standards.intersects allowed = true :=
  (List.mem_filter.mp h).2

theorem intersects_usable {service : Service} (h : service ∈ covered services allowed) :
    service.transmission.standards.intersects (usable (covered services allowed) allowed) =
      true := by
  rw [StandardSet.intersects_comm, usable, StandardSet.foldl_union_intersects]
  exact Or.inr ⟨service, h, StandardSet.inter_intersects_of_contains
    (StandardSet.contains_self _) (intersects_of_mem_covered h)⟩

theorem mem_covered_iff (h : allowedStandards services.toList request = .ok allowed)
    {service : Service} :
    service ∈ covered services allowed ↔ Wanted services request service := by
  rw [covered, List.mem_filter, ServiceSet.mem_toList]
  cases hservice : services.contains service with
  | false => simp [Wanted, hservice]
  | true =>
      obtain ⟨first, hfirst⟩ := exists_head?_of_contains hservice
      rw [wanted_iff hfirst, hservice, (exists_scanning_of_allowedStandards h hfirst).2]

/-- What is made, as far as it can be told from the services that it was made for. -/
structure Meets (services : ServiceSet) (request : StandardSet) (coverage : Coverage) : Prop where
  valid : coverage.sampling.Valid
  known : coverage.services.IsKnown
  contains_iff : ∀ service,
    coverage.services.contains service = true ↔ Wanted services request service
  no_lines : ∀ field, (∀ service, coverage.services.contains service = true →
    service.transmission.onField field = false) → coverage.sampling.count.on field = 0
  takes_in : ∀ service field line, coverage.services.contains service = true →
    service.transmission.covers field line = true → coverage.sampling.HasLine field line
  /-- Lines in a row that take in those of the services take in all that are sampled. -/
  least : ∀ field low high,
    (∀ service line, coverage.services.contains service = true →
      service.transmission.covers field line = true → low ≤ line ∧ line ≤ high) →
    ∀ line, coverage.sampling.HasLine field line → low ≤ line ∧ line ≤ high
  rate_le : ∀ service, coverage.services.contains service = true →
    service.transmission.criRate ≤ coverage.highestRate ∧
      service.transmission.bitRate ≤ coverage.highestRate
  exists_rate : ∃ service, coverage.services.contains service = true ∧
    (service.transmission.criRate = coverage.highestRate ∨
      service.transmission.bitRate = coverage.highestRate)
  ofTime : ∀ service strictness cause, coverage.services.contains service = true →
    coverage.sampling.permit service.transmission strictness = .error cause →
    cause.OfTime service

theorem highestRate_make {list : List Service} (hne : list ≠ []) (allowed : StandardSet) :
    (∀ service ∈ list, service.transmission.criRate ≤ (make list allowed).highestRate ∧
      service.transmission.bitRate ≤ (make list allowed).highestRate) ∧
    ∃ service ∈ list, service.transmission.criRate = (make list allowed).highestRate ∨
      service.transmission.bitRate = (make list allowed).highestRate := by
  have hmem (n : Nat) :
      (n ∈ list.flatMap fun service =>
        [service.transmission.criRate, service.transmission.bitRate]) ↔
      ∃ service ∈ list, n = service.transmission.criRate ∨ n = service.transmission.bitRate := by
    simp
  obtain ⟨service, hservice⟩ := List.exists_mem_of_ne_nil list hne
  obtain ⟨low, high, hrange, _, hmax⟩ :=
    exists_range? (List.ne_nil_of_mem ((hmem _).mpr ⟨service, hservice, Or.inl rfl⟩))
  obtain ⟨hhighMem, hleHigh⟩ := List.max?_eq_some_iff.mp hmax
  have hhigh : (make list allowed).highestRate = high := by
    simp only [make, hrange, Option.getD_some]
  rw [hhigh]
  refine ⟨fun service hservice => ⟨?_, ?_⟩, ?_⟩
  · exact hleHigh _ ((hmem _).mpr ⟨service, hservice, Or.inl rfl⟩)
  · exact hleHigh _ ((hmem _).mpr ⟨service, hservice, Or.inr rfl⟩)
  · obtain ⟨service, hservice, hrate⟩ := (hmem high).mp hhighMem
    exact ⟨service, hservice, hrate.imp Eq.symm Eq.symm⟩

theorem meets_make (h : allowedStandards services.toList request = .ok allowed)
    (hne : covered services allowed ≠ []) :
    Meets services request (make (covered services allowed) allowed) := by
  have hmem {service : Service} :
      (make (covered services allowed) allowed).services.contains service = true ↔
        service ∈ covered services allowed := ServiceSet.contains_ofList
  obtain ⟨service, hservice⟩ := List.exists_mem_of_ne_nil _ hne
  obtain ⟨first, hfirst⟩ :=
    exists_head?_of_contains (ServiceSet.mem_toList.mp (List.mem_filter.mp hservice).1)
  obtain ⟨⟨scanning, hscanning⟩, _⟩ := exists_scanning_of_allowedStandards h hfirst
  obtain ⟨hrate, hattained⟩ := highestRate_make hne allowed
  constructor
  case valid =>
    have hstandards : (usable (covered services allowed) allowed).scanning = some scanning :=
      StandardSet.scanning_foldl_union hne fun service hservice =>
        Service.scanning_inter hscanning (intersects_of_mem_covered hservice)
    have hservices : ∀ service ∈ covered services allowed, service.scanning = scanning :=
      fun service hservice => Service.scanning_eq hscanning (intersects_of_mem_covered hservice)
    exact valid_samplingFor hservices hne hstandards
  case known => exact ServiceSet.isKnown_ofList _
  case contains_iff => exact fun service => hmem.trans (mem_covered_iff h)
  case no_lines =>
    intro field hunused
    have hnone := fieldLines_of_unused fun service hservice => hunused service (hmem.mpr hservice)
    exact (count_samplingFor _ _ field).trans (congrArg Prod.snd hnone)
  case takes_in =>
    exact fun service field line hservice hcovers => hasLine_of_covers (hmem.mp hservice) hcovers
  case least =>
    intro field low high hall line hline
    refine between_of_hasLine (fun service hservice line => ?_) hline
    exact hall service line (hmem.mpr hservice)
  case rate_le => exact fun service hservice => hrate service (hmem.mp hservice)
  case exists_rate =>
    obtain ⟨service, hservice, hattained⟩ := hattained
    exact ⟨service, hmem.mpr hservice, hattained⟩
  case ofTime =>
    intro service strictness cause hservice hpermit
    have hservice := hmem.mp hservice
    exact ofTime_of_permit_samplingFor hservice (intersects_usable hservice) hpermit

theorem meets_of_ofServices {coverage : Coverage}
    (h : ofServices services request = .ok coverage) : Meets services request coverage := by
  rw [ofServices_eq] at h
  cases hallowed : allowedStandards services.toList request with
  | error cause =>
      rw [hallowed] at h
      cases h
  | ok allowed =>
      rw [hallowed] at h
      dsimp only at h
      split at h
      next => cases h
      next hne =>
        rw [← Except.ok.inj h]
        exact meets_make hallowed hne

/-- Nothing is made only if the requested standards are of no one scanning or if no service is
wanted. -/
theorem exists_ofServices_eq_error_iff (services : ServiceSet) (request : StandardSet) :
    (∃ cause, ofServices services request = .error cause) ↔
      (request.isEmpty = false ∧ request.scanning = none) ∨
        ∀ service, ¬ Wanted services request service := by
  rw [ofServices_eq]
  cases hallowed : allowedStandards services.toList request with
  | error cause =>
      obtain ⟨hmixed, rfl⟩ := allowedStandards_eq_error_iff.mp hallowed
      simp [hmixed]
  | ok allowed =>
      have hdefinite : ¬ (request.isEmpty = false ∧ request.scanning = none) := by
        intro hmixed
        have herror : allowedStandards services.toList request =
            .error (.ambiguousStandards request) :=
          allowedStandards_eq_error_iff.mpr ⟨hmixed, rfl⟩
        cases hallowed.symm.trans herror
      have hnone : covered services allowed = [] ↔
          ∀ service, ¬ Wanted services request service := by
        simp only [List.eq_nil_iff_forall_not_mem, mem_covered_iff hallowed]
      dsimp only
      split
      next hempty => simp [hnone.mp hempty]
      next hne => simpa [hdefinite, hnone] using hne

end Services

end Coverage

end Blanking
