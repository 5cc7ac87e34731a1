import Blanking.Sampling.Permit

/-! # Sampling that covers given services

The tightest sampling at 27 MHz, with a customary least length of a line, that takes in all
requested services of one scanning. -/

namespace Blanking

/-- A sampling and the services that it was made for. -/
structure Coverage where
  sampling : Sampling
  services : ServiceSet
  /-- The highest bit rate among the services. -/
  highestRate : Nat

namespace Coverage

/-- The smallest and the largest of some numbers. -/
def range? : List Nat → Option (Nat × Nat)
  | [] => none
  | n :: rest =>
      match range? rest with
      | none => some (n, n)
      | some (low, high) => some (min n low, max n high)

/-- The standards that may be sampled: the request, or without one those that share the scanning
of the first service. -/
def allowedStandards (services : List Service) (request : StandardSet) :
    Except SamplingError StandardSet :=
  if request.isEmpty then
    match services.head?.bind (·.transmission.standards.scanning) with
    | some scanning => .ok (.ofScanning scanning)
    | none => .ok .empty
  else
    match request.scanning with
    | some _ => .ok request
    | none => .error (.ambiguousStandards request)

/-- Start and number of the lines of a field that some services use. -/
def fieldLines (services : List Service) (field : Field) : Nat × Nat :=
  let used := (services.map Service.transmission).filter (·.onField field)
  match range? (used.flatMap fun t => [t.first.on field, t.last.on field]) with
  | none => (0, 0)
  | some (first, last) => (first, last - first + 1)

/-- The latest end of a signal, in seconds from the start of the line. -/
def latestEnd (services : List Service) : Float :=
  services.foldl (fun latest service =>
    let stop := service.transmission.start + service.transmission.duration
    if latest < stop then stop else latest) 0

/-- Samples per second. -/
def rate : Nat := 27000000

/-- Samples of a line that are taken at least. -/
def leastSamples : Nat := 1440

/-- The sampling for services of one scanning, which are not none. -/
def samplingFor (services : List Service) (standards : StandardSet) : Sampling :=
  let earliest := ((range? (services.map (·.transmission.offset))).getD (0, 0)).1
  let lead := Double.ofNat earliest * 1e-9 - Sampling.headroom
  let offset := Double.floor (lead * Double.ofNat rate)
  let length := latestEnd services - Double.ofNat offset / Double.ofNat rate + Sampling.headroom
  let lines := fieldLines services
  { standards := standards
    format := .yuv420
    rate := rate
    offset := offset
    samplesPerLine := max (Double.ceil (length * Double.ofNat rate)) leastSamples
    start := ⟨(lines .first).1, (lines .second).1⟩
    count := ⟨(lines .first).2, (lines .second).2⟩
    interlaced := false
    synchronous := true }

/-- A sampling for the requested services. Services that share no standard with the request are
left out; so are, without a request, those of another scanning than the first service. -/
def ofServices (services : ServiceSet) (request : StandardSet) :
    Except SamplingError Coverage := do
  let allowed ← allowedStandards services.toList request
  let covered := services.toList.filter fun service =>
    service.transmission.standards.intersects allowed
  if covered.isEmpty then throw .noServices
  let standards := covered.foldl (fun set service =>
    set ∪ (service.transmission.standards ∩ allowed)) StandardSet.empty
  let rates := covered.flatMap fun service =>
    [service.transmission.criRate, service.transmission.bitRate]
  return ⟨samplingFor covered standards, .ofList covered, ((range? rates).getD (0, 0)).2⟩

end Coverage

end Blanking
