import Blanking.Command.Run
import Blanking.Decoder.Checked
import Blanking.Text.Pad

/-! # Decoding a file

The field pairs of a file are decoded in their order by one decoder, and the records of each are
written under its number. What is left of a file behind the last whole field pair is dropped. -/

namespace Blanking.Decode

/-- The whole field pairs in front of a file. -/
def frames (size : Nat) (file : ByteArray) : List ByteArray :=
  (List.range (file.size / size)).map fun number =>
    file.extract (number * size) (number * size + size)

/-- The records of field pairs that follow each other, up to the first one that cannot be decoded,
and whether there is no such one. -/
def decodeAll (d : Decoder) (capacity : Nat) : List ByteArray → List (List Record) × Bool
  | [] => ([], true)
  | raw :: rest =>
      match (Decoder.InWords.decode d capacity raw).run with
      | some (.ok (d, records)) =>
          let (later, whole) := decodeAll d capacity rest
          (records :: later, whole)
      | _ => ([], false)

/-- Writes the records of field pairs under their numbers. -/
def writeAll (w : Writer) : (number : Nat) → List (List Record) → Writer
  | _, [] => w
  | number, records :: rest => writeAll (w.write number records) (number + 1) rest

/-- What is written of decoded field pairs. -/
def stream (format : OutputFormat) (lines : Nat) (decoded : List (List Record)) : ByteArray :=
  (writeAll (.new format lines) 0 decoded).finish

def counts (records : List Record) : List (Service × Nat) :=
  Service.all.map fun service =>
    (service, (records.filter fun record => record.service? == some service).length)

/-- What is reported in the end. -/
def summary (records : List Record) : List Log.Entry :=
  ((counts records).filter fun count => 0 < count.2).map fun (service, count) =>
    .info ("  " ++ Text.left 24 service.name ++ " " ++ toString count ++ " lines")

def run (files : Files) (common : CommonOptions) (input : String) (options : SamplingOptions)
    (services : String) (format : OutputFormat) (path : Option String) : Run Unit := do
  let sampling ← Run.sampling files options
  let strictness := Strictness.ofLevel options.strictness
  let requested ← Run.ofExcept .unknownService (ServiceSet.parse services)
  let selected ← selectServices sampling requested strictness common.strict
  let decoder ← Run.ofChecked .sampling (Decoder.InWords.new sampling)
  let (decoder, outcomes) ← Run.ofWords
    (Decoder.InWords.addServices decoder selected strictness)
  Run.log (outcomes.map Decoder.Outcome.entry)
  let accepted := decoder.services ∩ selected
  if accepted != selected && common.strict then
    throw (.decoderRejected (selected \ accepted))
  let size ← Run.ofWords sampling.frameSize?
  let lines := (sampling.scanning.map Scanning.lines).getD 625
  Run.log [
    .info ("Decoding raw VBI: " ++ input ++ " (" ++ toString size ++
      " bytes per field pair, strictness " ++ toString strictness.level ++ ")"),
    .info ("Services: " ++ accepted.display)]
  if isPipe input then
    Run.log [.debug "Skipping progress estimation for pipe input"]
  let found ← Run.input files input
  let path := path.getD "-"
  Run.checkOutput files path
  let file ← match found with
    | .ok file => pure file
    | .error cause => do
        Run.output path (stream format lines [])
        throw (.file cause)
  let capacity ← Run.ofWords sampling.totalLines?
  let (decoded, whole) := decodeAll decoder capacity (frames size file)
  let records := decoded.flatten
  Run.log (records.map Record.entry)
  if !whole then
    Run.output path (stream format lines decoded)
    throw .decodingStopped
  let count := file.size / size
  let rest := file.size % size
  if 0 < rest then
    Run.log [.warn ("Dropping " ++ toString rest ++ " trailing bytes, a field pair is " ++
      toString size ++ " bytes")]
  Run.log [.debug ("Read " ++ toString count ++ " field pairs")]
  Run.output path (stream format lines decoded)
  Run.log (.info ("Decoding completed: " ++ toString count ++ " field pairs, " ++
    frameTime count lines) :: summary records)

end Blanking.Decode
