import Blanking.Command.Arguments
import Blanking.Command.Files
import Blanking.Sampling.Checked
import Blanking.Service.Name
import Blanking.Settings
import Blanking.Waveform

/-! # Running a command

A command reports what it does, prints some output, and may fail on the way; what it reported
and printed before remains. -/

namespace Blanking

/-- Why a command fails. -/
inductive CommandError where
  | usage
  | file (cause : FileError)
  /-- A file holds no settings. -/
  | malformedSettings
  | settings (cause : SettingsError)
  | unknownService (cause : UnknownService)
  /-- Services cannot be decoded from the sampling, which is to be an error. -/
  | servicesRejected (services : ServiceSet)
  | nothingToDecode
  | decoderRejected (services : ServiceSet)
  | sampling (cause : SamplingError)
  | render (cause : RenderError)
  /-- Some sum or size is no machine word. -/
  | overflow
  /-- Positions on a line are no machine words. What was decoded before is put out. -/
  | decodingStopped
deriving DecidableEq, Repr

/-- Services that cannot be decoded from the sampling. -/
def rejectedText (services : ServiceSet) : String :=
  "Services rejected for this sampling: " ++ services.display

/-- The text of an error, where it has one of its own. -/
def CommandError.message? : CommandError → Option String
  | .usage | .file _ | .malformedSettings | .overflow => none
  | .settings cause => some cause.message
  | .unknownService cause => some cause.message
  | .servicesRejected services => some (rejectedText services)
  | .nothingToDecode =>
      some "None of the requested services can be decoded from this sampling"
  | .decoderRejected services => some ("Decoder rejected services: " ++ services.display)
  | .sampling cause => some cause.message
  | .render cause => some cause.message
  | .decodingStopped => some "Decode thread panicked"

/-- What a command has done so far. -/
structure Report where
  log : List Log.Entry
  stdout : ByteArray
  written : Option (String × ByteArray)

/-- A course of action that reports what it does. -/
abbrev Run (α : Type) : Type := ExceptT CommandError (StateM Report) α

namespace Run

def log (entries : List Log.Entry) : Run Unit :=
  modify fun report => { report with log := report.log ++ entries }

def print (bytes : ByteArray) : Run Unit :=
  modify fun report => { report with stdout := report.stdout ++ bytes }

/-- Fails if something went wrong. -/
def ofExcept {ε α : Type} (wrap : ε → CommandError) (result : Except ε α) : Run α :=
  match result with
  | .ok value => pure value
  | .error cause => throw (wrap cause)

/-- Goes on with what could be computed in words. -/
def ofWords {α : Type} (value : Option α) : Run α :=
  match value with
  | some value => pure value
  | none => throw .overflow

/-- Fails if something went wrong, or could not be computed in words. -/
def ofChecked {ε α : Type} (wrap : ε → CommandError) (result : Checked ε α) : Run α := do
  ofExcept wrap (← ofWords result.run)

/-- Finds a file, or what comes through the pipe. A directory is found too, but cannot be read. -/
def input (files : Files) (path : String) : Run (Except FileError ByteArray) :=
  if isPipe path then pure (.ok files.piped)
  else
    match files.read path with
    | .ok content => pure (.ok content)
    | .error .isDirectory => pure (.error .isDirectory)
    | .error cause => throw (.file cause)

/-- Checks that a file can be written, unless its content is printed. -/
def checkOutput (files : Files) (path : String) : Run Unit :=
  if isPipe path then pure () else ofExcept .file (files.canWrite path)

/-- Writes a file, or prints its content. -/
def output (path : String) (content : ByteArray) : Run Unit :=
  if isPipe path then print content
  else modify fun report => { report with written := some (path, content) }

def run {α : Type} (action : Run α) : Except CommandError α × Report :=
  (ExceptT.run action).run ⟨[], ByteArray.empty, none⟩

def settingsFile (files : Files) (path : String) : Run Settings := do
  let bytes ← ofExcept .file (files.read path)
  match String.fromUTF8? bytes with
  | none => throw (.file .invalidText)
  | some text =>
      match Settings.parse text with
      | some settings => pure settings
      | none => throw .malformedSettings

/-- The sampling that options describe. What they say themselves replaces what the file with
settings says. -/
def sampling (files : Files) (options : SamplingOptions) : Run Sampling := do
  let file ← match options.config with
    | some path => settingsFile files path
    | none => pure Settings.empty
  let given : Settings := {
    standard := options.standard
    pixelFormat := options.pixelFormat
    interlaced := if options.interlaced then some true else none }
  ofChecked .settings (file.override given).toSampling

/-- Makes sure that it can be decided in words which services can be decoded. -/
def permissions (s : Sampling) (services : List Service) (strictness : Strictness) : Run Unit := do
  let _ ← ofWords (services.mapM fun service =>
    (s.permit? service.transmission strictness).run)

end Run

/-- The requested services that can be decoded. Those of another standard are left out; whether
the lack of others is an error is a matter of choice. -/
def selectServices (s : Sampling) (requested : ServiceSet) (strictness : Strictness)
    (strict : Bool) : Run ServiceSet := do
  let sameStandard := ServiceSet.ofList (requested.toList.filter fun service =>
    service.transmission.standards.intersects s.standards)
  let dropped := requested \ sameStandard
  if !dropped.isEmpty then
    Run.log [.debug ("Ignoring services of another video standard: " ++ dropped.display)]
  Run.permissions s sameStandard.toList strictness
  Run.log ((s.rejections sameStandard strictness).map fun cause => .info cause.message)
  let feasible := s.check sameStandard strictness
  let rejected := sameStandard \ feasible
  if !rejected.isEmpty then
    if strict then throw (.servicesRejected rejected)
    Run.log [.warn (rejectedText rejected)]
  if feasible.isEmpty then throw .nothingToDecode
  return feasible

end Blanking
