import Blanking.Command.Run
import Blanking.Text.Pad

/-! # Listing the services

The sampling and, for each service, its parameters and whether the sampling can carry it. -/

namespace Blanking.Listing

/-- The sampled lines of a field. -/
def fieldText (s : Sampling) (field : Field) : String :=
  if s.count.on field = 0 then "none"
  else if s.start.on field = 0 then s!"{s.count.on field} lines, numbers unknown"
  else s!"{s.start.on field}-{s.lastLine field}"

/-- What is known of the sampling. -/
def samplingText (s : Sampling) (strictness : Strictness) : String :=
  let lines := [
    ("Video standard", s.standards.display),
    ("Pixel format", s.format.name),
    ("Sampling rate", s!"{s.rate} Hz"),
    ("Offset", s!"{s.offset} samples"),
    ("Samples per line", toString s.samplesPerLine)] ++
    (Field.all.map fun field => (s!"Field {field.number}", fieldText s field)) ++ [
    ("Interlaced", toString s.interlaced),
    ("Synchronous", toString s.synchronous),
    ("Strictness", toString strictness.level)]
  "\nSampling\n" ++
    String.join (lines.map fun (name, text) => "  " ++ Text.left 26 name ++ text ++ "\n") ++ "\n"

/-- The lines of each field that carry a service. -/
def lineText (t : Transmission) : String :=
  ", ".intercalate ((Field.all.filter (t.onField ·)).map fun field =>
    s!"{t.first.on field}-{t.last.on field}")

def row (name lines offset rates payload status : String) : String :=
  "  " ++ Text.left 22 name ++ "  " ++ Text.left 15 lines ++ "  " ++ offset ++ "  " ++ rates ++
    "  " ++ payload ++ "  " ++ status ++ "\n"

def head : String :=
  row "Name" "Lines" (Text.right 8 "Offset") (Text.right 16 "Rates (CRI/bit)")
    (Text.right 7 "Payload") "Status"

def serviceRow (s : Sampling) (strictness : Strictness) (service : Service) : String :=
  let t := service.transmission
  let offset := Fixed.ofDouble 2 (Double.ofNat t.offset / 1000)
  let status := match s.permit t strictness with
    | .ok () => "ok"
    | .error cause => cause.message
  row service.name (lineText t) (Text.right 5 offset ++ " us")
    (Text.right 7 (toString t.criRate) ++ "/" ++ Text.left 8 (toString t.bitRate))
    (Text.right 4 (toString t.payload) ++ " b") status

def text (s : Sampling) (strictness : Strictness) : String :=
  samplingText s strictness ++ "Services\n" ++ head ++
    String.join (Service.all.map (serviceRow s strictness)) ++ "\n"

def run (files : Files) (options : SamplingOptions) : Run Unit := do
  let sampling ← Run.sampling files options
  Run.permissions sampling Service.all (.ofLevel options.strictness)
  Run.print (text sampling (.ofLevel options.strictness)).toUTF8

end Blanking.Listing
