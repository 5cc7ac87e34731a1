import Blanking.Proofs.Sampling.Cover

/-! # Covering services in one pass

A sampling can be made in one pass over the services, which gathers all that it is made of and
settles the scanning by the first service. Services that are left out change nothing but that, so
the pass gathers what is found in the covered services one value at a time. -/

namespace Blanking.Coverage

/-- What was gathered from some services. -/
structure Tally where
  /-- The standards of the scanning, none as long as it is open. -/
  scanned : StandardSet
  standards : StandardSet
  services : ServiceSet
  highestRate : Nat
  /-- The earliest start of a signal in nanoseconds. -/
  earliest : Nat
  /-- The latest end of a signal in seconds. -/
  latest : Float
  first : PerField Nat
  last : PerField Nat

/-- Stands for a smallest value as long as there is none. -/
def unset : Nat := 0xFFFFFFFF

namespace Tally

def nothing (scanned : StandardSet) : Tally :=
  ⟨scanned, .empty, .empty, 0, unset, 0, .both unset, .both 0⟩

/-- The line of each field that is picked with those of a service in view. -/
def pick (choose : Nat → Nat → Nat) (t : Transmission) (old new : PerField Nat) : PerField Nat :=
  ⟨if t.onField .first then choose old.first new.first else old.first,
    if t.onField .second then choose old.second new.second else old.second⟩

/-- Gathers what a service adds that can be sent in some standards. -/
def add (tally : Tally) (standards : StandardSet) (service : Service) : Tally :=
  let t := service.transmission
  let stop := t.start + t.duration
  { scanned := tally.scanned
    standards := tally.standards ∪ standards
    services := tally.services.insert service
    highestRate := max (max tally.highestRate t.criRate) t.bitRate
    earliest := min tally.earliest t.offset
    latest := if tally.latest < stop then stop else tally.latest
    first := pick min t tally.first t.first
    last := pick max t tally.last t.last }

/-- The standards of the scanning, which is that of the service if it is still open. -/
def settle (scanned : StandardSet) (service : Service) : StandardSet :=
  if scanned.isEmpty then
    match service.transmission.standards.scanning with
    | some scanning => .ofScanning scanning
    | none => scanned
  else scanned

/-- Takes in a service unless it cannot be sent in what is requested. -/
def step (request : StandardSet) (tally : Tally) (service : Service) : Tally :=
  let scanned := settle tally.scanned service
  let standards := service.transmission.standards ∩ if request.isEmpty then scanned else request
  let tally := { tally with scanned := scanned }
  if standards.isEmpty then tally else tally.add standards service

/-- Start and number of the lines of a field. -/
def lines (tally : Tally) (field : Field) : Nat × Nat :=
  if 0 < tally.last.on field then
    (tally.first.on field, tally.last.on field - tally.first.on field + 1)
  else (0, 0)

/-- The first sample, which is not before the start of the line. -/
def offset (tally : Tally) : Nat :=
  let lead := Double.ofNat tally.earliest * 1e-9 - Sampling.headroom
  Double.floor ((if lead < 0 then 0 else lead) * Double.ofNat rate)

/-- The sampling for what was gathered. -/
def sampling (tally : Tally) : Sampling :=
  let length := tally.latest - Double.ofNat tally.offset / Double.ofNat rate + Sampling.headroom
  { standards := tally.standards
    format := .yuv420
    rate := rate
    offset := tally.offset
    samplesPerLine := max (Double.ceil (length * Double.ofNat rate)) leastSamples
    start := ⟨(tally.lines .first).1, (tally.lines .second).1⟩
    count := ⟨(tally.lines .first).2, (tally.lines .second).2⟩
    interlaced := false
    synchronous := true }

/-- What is gathered from services that can all be sent as allowed. -/
def gather (scanned allowed : StandardSet) (services : List Service) : Tally :=
  services.foldl (fun tally service =>
    tally.add (service.transmission.standards ∩ allowed) service) (nothing scanned)

end Tally

/-- A sampling for the requested services that is made in one pass over them. -/
def inOnePass (services : ServiceSet) (request : StandardSet) :
    Except SamplingError Coverage :=
  if request.isEmpty then finish (.nothing .empty)
  else
    match request.scanning with
    | some scanning => finish (.nothing (.ofScanning scanning))
    | none => .error (.ambiguousStandards request)
where
  finish (tally : Tally) : Except SamplingError Coverage :=
    let tally := services.toList.foldl (Tally.step request) tally
    if tally.services.isEmpty then .error .noServices
    else .ok ⟨tally.sampling, tally.services, tally.highestRate⟩

namespace Tally

/-! ## The pass -/

section Pass

variable {request allowed scanned : StandardSet}

/-- Once the scanning is settled, a service is taken in if it can be sent in what is allowed. -/
theorem step_eq (hscanned : scanned.isEmpty = false)
    (hallowed : (if request.isEmpty then scanned else request) = allowed) {tally : Tally}
    (htally : tally.scanned = scanned) (service : Service) :
    step request tally service =
      if service.transmission.standards.intersects allowed then
        tally.add (service.transmission.standards ∩ allowed) service
      else tally := by
  have hsettle : settle tally.scanned service = scanned := by
    rw [settle, htally, if_neg (by simp [hscanned])]
  rw [step, hsettle, hallowed, ← htally]
  simp only [StandardSet.intersects, StandardSet.isEmpty, bne_iff_ne, beq_iff_eq, ite_not]

theorem foldl_step (hscanned : scanned.isEmpty = false)
    (hallowed : (if request.isEmpty then scanned else request) = allowed)
    (services : List Service) {tally : Tally} (htally : tally.scanned = scanned) :
    services.foldl (step request) tally =
      (services.filter (·.transmission.standards.intersects allowed)).foldl
        (fun tally service => tally.add (service.transmission.standards ∩ allowed) service)
        tally := by
  induction services generalizing tally with
  | nil => rfl
  | cons service rest ih =>
      rw [List.foldl_cons, step_eq hscanned hallowed htally, List.filter_cons]
      split
      next => exact ih htally
      next => exact ih htally

/-- An open scanning is settled by the first service. -/
theorem step_open (request : StandardSet) (first : Service) :
    step request (.nothing .empty) first =
      step request (.nothing (.ofScanning first.scanning)) first := by
  have hopen : settle .empty first = .ofScanning first.scanning := by
    rw [settle, if_pos (by decide), first.scanning_standards]
  have hsettled : settle (.ofScanning first.scanning) first = .ofScanning first.scanning := by
    rw [settle, if_neg (by cases first.scanning <;> decide)]
  simp only [step, nothing, hopen, hsettled]

end Pass

/-! ## What a pass gathers -/

/-- The values of those services that use a field. -/
def onField (services : List Service) (field : Field) (value : Transmission → PerField Nat) :
    List Nat :=
  (services.filter (·.transmission.onField field)).map fun service =>
    (value service.transmission).on field

/-- Each value is gathered by itself. -/
theorem foldl_add (allowed : StandardSet) (services : List Service) (tally : Tally) :
    services.foldl (fun tally service =>
        tally.add (service.transmission.standards ∩ allowed) service) tally =
      { scanned := tally.scanned
        standards := services.foldl (fun set service =>
          set ∪ (service.transmission.standards ∩ allowed)) tally.standards
        services := services.foldl ServiceSet.insert tally.services
        highestRate := (services.flatMap fun service =>
          [service.transmission.criRate, service.transmission.bitRate]).foldl max
            tally.highestRate
        earliest := (services.map (·.transmission.offset)).foldl min tally.earliest
        latest := services.foldl (fun latest service =>
          let stop := service.transmission.start + service.transmission.duration
          if latest < stop then stop else latest) tally.latest
        first := ⟨(onField services .first (·.first)).foldl min tally.first.first,
          (onField services .second (·.first)).foldl min tally.first.second⟩
        last := ⟨(onField services .first (·.last)).foldl max tally.last.first,
          (onField services .second (·.last)).foldl max tally.last.second⟩ } := by
  induction services generalizing tally with
  | nil => rfl
  | cons service rest ih =>
      rw [List.foldl_cons, ih]
      -- Only the lines of a field depend on whether the service uses it.
      cases hfirst : service.transmission.onField .first <;>
        cases hsecond : service.transmission.onField .second <;>
          simp [add, pick, onField, hfirst, hsecond, PerField.on]

section Gather

variable {scanned allowed : StandardSet} {services : List Service} {field : Field}

theorem standards_gather :
    (gather scanned allowed services).standards = usable services allowed := by
  rw [gather, foldl_add]
  rfl

theorem services_gather : (gather scanned allowed services).services = .ofList services := by
  rw [gather, foldl_add]
  rfl

theorem latest_gather : (gather scanned allowed services).latest = latestEnd services := by
  rw [gather, foldl_add]
  rfl

/-- The smallest of some numbers takes the place of a start that is not below it. -/
theorem foldl_min_eq {numbers : List Nat} {low start : Nat} (hlow : numbers.min? = some low)
    (hstart : low ≤ start) : numbers.foldl min start = low := by
  rw [List.foldl_min, hlow, Option.getD_some, Nat.min_eq_right hstart]

theorem foldl_max_eq {numbers : List Nat} {high : Nat} (hhigh : numbers.max? = some high) :
    numbers.foldl max 0 = high := by
  rw [List.foldl_max, hhigh, Option.getD_some, Nat.zero_max]

theorem highestRate_gather (hne : services ≠ []) :
    (gather scanned allowed services).highestRate = (make services allowed).highestRate := by
  obtain ⟨service, hservice⟩ := List.exists_mem_of_ne_nil services hne
  obtain ⟨_, high, hrange, _, hmax⟩ := exists_range? (List.ne_nil_of_mem
    (List.mem_flatMap.mpr ⟨service, hservice, List.mem_cons_self⟩) :
      (services.flatMap fun service =>
        [service.transmission.criRate, service.transmission.bitRate]) ≠ [])
  rw [gather, foldl_add, make, hrange, Option.getD_some]
  exact foldl_max_eq hmax

/-- No signal starts so early that the headroom before it would start before the line. -/
theorem not_lead_neg (service : Service) :
    ¬ Double.ofNat service.transmission.offset * 1e-9 - Sampling.headroom < 0 := by
  cases service <;> decide +kernel

theorem offset_le_unset (service : Service) : service.transmission.offset ≤ unset := by
  cases service <;> decide

theorem first_le_unset (service : Service) (field : Field) :
    service.transmission.first.on field ≤ unset := by
  cases service <;> cases field <;> decide

theorem offset_gather (hne : services ≠ []) :
    (gather scanned allowed services).offset = (make services allowed).sampling.offset := by
  have hoffsets : services.map (·.transmission.offset) ≠ [] := by simpa using hne
  obtain ⟨_, _, hrange, hmin, _⟩ := exists_range? hoffsets
  obtain ⟨service, _, rfl⟩ := List.mem_map.mp (List.min?_eq_some_iff.mp hmin).1
  have hearliest : (gather scanned allowed services).earliest = service.transmission.offset := by
    rw [gather, foldl_add]
    exact foldl_min_eq hmin (offset_le_unset service)
  rw [offset, hearliest, make, samplingFor, hrange]
  dsimp only
  rw [if_neg (not_lead_neg service)]
  rfl

theorem first_gather : (gather scanned allowed services).first.on field =
    (onField services field (·.first)).foldl min unset := by
  rw [gather, foldl_add]
  cases field <;> rfl

theorem last_gather : (gather scanned allowed services).last.on field =
    (onField services field (·.last)).foldl max 0 := by
  rw [gather, foldl_add]
  cases field <;> rfl

theorem mem_onField {value : Transmission → PerField Nat} {n : Nat} :
    n ∈ onField services field value ↔ ∃ service ∈ services,
      service.transmission.onField field = true ∧ (value service.transmission).on field = n := by
  simp [onField, and_assoc]

theorem lines_gather :
    (gather scanned allowed services).lines field = fieldLines services field := by
  rw [lines, first_gather, last_gather]
  obtain hused | hunused := used_or_unused services field
  · obtain ⟨first, last, hlines, hextent⟩ := exists_isExtent hused
    have hmin : (onField services field (·.first)).min? = some first := by
      refine List.min?_eq_some_iff.mpr ⟨mem_onField.mpr hextent.exists_first, ?_⟩
      intro n hn
      obtain ⟨service, hservice, hfield, rfl⟩ := mem_onField.mp hn
      exact hextent.first_le service hservice hfield
    have hmax : (onField services field (·.last)).max? = some last := by
      refine List.max?_eq_some_iff.mpr ⟨mem_onField.mpr hextent.exists_last, ?_⟩
      intro n hn
      obtain ⟨service, hservice, hfield, rfl⟩ := mem_onField.mp hn
      exact hextent.le_last service hservice hfield
    obtain ⟨service, _, _, rfl⟩ := hextent.exists_first
    obtain ⟨service', _, hfield, rfl⟩ := hextent.exists_last
    simp only [Transmission.onField, Bool.and_eq_true, decide_eq_true_eq] at hfield
    rw [foldl_max_eq hmax, foldl_min_eq hmin (first_le_unset service field), if_pos hfield.2,
      hlines]
  · have hnone : services.filter (·.transmission.onField field) = [] := by
      simpa [List.filter_eq_nil_iff] using hunused
    simp [onField, hnone, fieldLines_of_unused hunused]

theorem sampling_gather (hne : services ≠ []) :
    (gather scanned allowed services).sampling = (make services allowed).sampling := by
  rw [sampling, lines_gather, lines_gather, standards_gather, latest_gather, offset_gather hne]
  rfl

end Gather

end Tally

/-! ## The result -/

section Result

variable {services : ServiceSet} {request allowed : StandardSet}

/-- One pass makes what is made for those services that can be sent as allowed. -/
theorem finish_eq (scanned : StandardSet) {tally : Tally}
    (hpass : services.toList.foldl (Tally.step request) tally =
      Tally.gather scanned allowed (covered services allowed)) :
    inOnePass.finish services request tally =
      if covered services allowed = [] then .error .noServices
      else .ok (make (covered services allowed) allowed) := by
  rw [inOnePass.finish, hpass, Tally.services_gather]
  by_cases hne : covered services allowed = []
  · rw [if_pos hne, hne]
    rfl
  · obtain ⟨service, hservice⟩ := List.exists_mem_of_ne_nil _ hne
    have hsome := ServiceSet.isEmpty_of_contains (ServiceSet.contains_ofList.mpr hservice)
    rw [if_neg hne, if_neg (by simp [hsome]), Tally.sampling_gather hne,
      Tally.highestRate_gather hne]
    rfl

/-- One pass over the services makes the sampling that covers them. -/
theorem inOnePass_eq_ofServices (services : ServiceSet) (request : StandardSet) :
    inOnePass services request = ofServices services request := by
  rw [ofServices_eq, inOnePass]
  have hdefinite (scanning : Scanning) : (StandardSet.ofScanning scanning).isEmpty = false := by
    cases scanning <;> decide
  cases hempty : request.isEmpty with
  | true =>
      rw [if_pos rfl]
      cases hlist : services.toList with
      | nil =>
          -- There is no first service, so the scanning stays open.
          have hcovered : covered services .empty = [] := by rw [covered, hlist, List.filter_nil]
          rw [allowedStandards, if_pos hempty]
          refine finish_eq .empty ?_
          rw [hlist, hcovered]
          rfl
      | cons first rest =>
          rw [allowedStandards_of_isEmpty hempty rfl]
          refine finish_eq (.ofScanning first.scanning) ?_
          rw [hlist, List.foldl_cons, Tally.step_open, ← List.foldl_cons,
            Tally.foldl_step (hdefinite _) (if_pos hempty) _ rfl, covered, hlist]
          rfl
  | false =>
      rw [if_neg (by simp)]
      cases hscanning : request.scanning with
      | none => rw [allowedStandards_eq_error_iff.mpr ⟨⟨hempty, hscanning⟩, rfl⟩]
      | some scanning =>
          rw [allowedStandards_of_scanning hempty hscanning]
          refine finish_eq (.ofScanning scanning) ?_
          rw [Tally.foldl_step (hdefinite _) (if_neg (by simp [hempty])) _ rfl]
          rfl

/-- A sampling for requested services is made in one pass over them. What is made covers all that
is wanted, and nothing is made only if nothing is wanted or the request is of no one scanning. -/
theorem ofServices_meets (services : ServiceSet) (request : StandardSet) :
    inOnePass services request = ofServices services request ∧
    (∀ coverage, ofServices services request = .ok coverage →
      Meets services request coverage) ∧
    ((∃ cause, ofServices services request = .error cause) ↔
      (request.isEmpty = false ∧ request.scanning = none) ∨
        ∀ service, ¬ Wanted services request service) :=
  ⟨inOnePass_eq_ofServices services request, fun _ => meets_of_ofServices,
    exists_ofServices_eq_error_iff services request⟩

/-- Captions at 525 lines are left out next to services at 625 lines, and alone they do not go with
a request for standards at 625 lines. -/
theorem ofServices_meets_bothScannings :
    (∃ coverage, ofServices (.teletextB625 ∪ .singleton .wss625 ∪ .singleton .caption525Field1)
        .empty = .ok coverage ∧
      coverage.services = .teletextB625 ∪ .singleton .wss625 ∧
      coverage.sampling.start = ⟨6, 318⟩ ∧ coverage.sampling.count = ⟨18, 18⟩ ∧
      coverage.highestRate = 6937500 ∧
      Meets (.teletextB625 ∪ .singleton .wss625 ∪ .singleton .caption525Field1) .empty coverage) ∧
    ∃ cause, ofServices .caption525 .palBG = .error cause := by
  constructor
  · have hmade : ofServices (.teletextB625 ∪ .singleton .wss625 ∪ .singleton .caption525Field1)
        .empty = .ok (make [.teletextB625Level1, .teletextB625Level2, .wss625] .lines625) := by
      rw [ofServices_eq]
      rfl
    exact ⟨_, hmade, rfl, rfl, rfl, rfl, (ofServices_meets _ _).2.1 _ hmade⟩
  · refine (ofServices_meets _ _).2.2.mpr (Or.inr fun service hwanted => ?_)
    obtain ⟨hservice, hstandard⟩ := hwanted
    rw [if_neg (by decide)] at hstandard
    revert hservice hstandard
    cases service <;> decide

end Result

end Blanking.Coverage
