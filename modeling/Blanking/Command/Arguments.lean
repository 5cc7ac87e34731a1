import Blanking.Log
import Blanking.Output.Writer

/-! # Arguments of the command line

Options that concern every command stand in front of its name or behind it; those behind it have
the last word. No option may be given twice in the same place. -/

namespace Blanking

inductive LogFormat where
  | plain
  | json
deriving DecidableEq, Repr

/-- Options of every command. -/
structure CommonOptions where
  /-- The most detailed level that is shown, if any is. -/
  logLevel : Option Log.Level
  /-- Whether the rejection of a service is an error. -/
  strict : Bool
  logFormat : LogFormat
  progress : Bool
deriving DecidableEq, Repr

/-- Options that describe the sampling. -/
structure SamplingOptions where
  /-- Path of a file with settings. -/
  config : Option String
  standard : Option Nat
  pixelFormat : Option String
  interlaced : Bool
  strictness : Nat
deriving DecidableEq, Repr

inductive Command where
  /-- Decode a file of field pairs. -/
  | decode (input : String) (sampling : SamplingOptions) (services : String)
      (format : OutputFormat) (output : Option String)
  /-- List the services and whether the sampling can carry them. -/
  | services (sampling : SamplingOptions)
  /-- Write a file of field pairs with test data. -/
  | synth (output : String) (sampling : SamplingOptions) (services : String) (frames : Nat)
deriving DecidableEq, Repr

/-- Whether a path stands for what is printed, or read from a pipe. -/
def isPipe (path : String) : Bool := path == "-"

namespace Command

def isPiped : Command → Bool
  | .decode input _ _ _ _ => isPipe input
  | _ => false

/-- The paths of the files that a command reads. -/
def inputs : Command → List String
  | .decode input sampling _ _ _ =>
      if isPipe input then sampling.config.toList else input :: sampling.config.toList
  | .services sampling | .synth _ sampling _ _ => sampling.config.toList

end Command

structure Arguments where
  common : CommonOptions
  command : Command
deriving DecidableEq, Repr

structure Words where
  values : List (String × String)
  flags : List String
  /-- All other words. -/
  operands : List String

namespace Words

def empty : Words := ⟨[], [], []⟩

def value? (words : Words) (name : String) : Option String :=
  (words.values.find? (·.1 == name)).map Prod.snd

def flag (words : Words) (name : String) : Bool := words.flags.contains name

/-- Notes an option with its value, for the first time. -/
def addValue (words : Words) (name value : String) : Option Words :=
  if (words.value? name).isSome then none
  else some { words with values := (name, value) :: words.values }

/-- Notes an option without a value, for the first time. -/
def addFlag (words : Words) (name : String) : Option Words :=
  if words.flag name then none else some { words with flags := name :: words.flags }

/-- The options that a place on the command line allows. -/
structure Allowed where
  values : List String
  flags : List String

/-- Whether a word is an option, or would be one. -/
def isOption (word : String) : Bool := word.toList.head? == some '-' && word != "-"

/-- The name of an option, and its value if that is in the same word. -/
def split (word : String) : String × Option String :=
  let name := word.toList.takeWhile (· != '=')
  let rest := word.toList.drop name.length
  (String.ofList name, rest.head?.map fun _ => String.ofList rest.tail)

/-- Sorts words up to the first operand, or all words. -/
def scan (allowed : Allowed) (toOperand : Bool) :
    Words → List String → Option (Words × List String)
  | words, [] => some (words, [])
  | words, word :: rest =>
      if word == "--" then
        if toOperand then none
        else some ({ words with operands := words.operands ++ rest }, [])
      else if !isOption word then
        if toOperand then some (words, word :: rest)
        else scan allowed toOperand { words with operands := words.operands ++ [word] } rest
      else
        let (name, value?) := split word
        if allowed.flags.contains name then
          match value?, words.addFlag name with
          | none, some words => scan allowed toOperand words rest
          | _, _ => none
        else if allowed.values.contains name then
          match value?, rest with
          | some value, rest =>
              match words.addValue name value with
              | some words => scan allowed toOperand words rest
              | none => none
          | none, value :: rest =>
              if isOption value then none
              else
                match words.addValue name value with
                | some words => scan allowed toOperand words rest
                | none => none
          | none, [] => none
        else none

end Words

namespace Arguments

/-- The options of every command. -/
def commonWords : Words.Allowed := ⟨["--loglevel", "--log-format"], ["--strict", "--progress"]⟩

/-- The options of every command and those that describe the sampling. -/
def samplingWords : Words.Allowed :=
  ⟨commonWords.values ++ ["--config", "--standard", "--pixel-format", "--strictness"],
    commonWords.flags ++ ["--interlaced"]⟩

/-- The options of a command that has values of its own. -/
def commandWords (values : List String) : Words.Allowed :=
  { samplingWords with values := samplingWords.values ++ values }

/-- A value that may be missing, but not be wrong. -/
def read {α : Type} (parse : String → Option α) (value : Option String) : Option (Option α) :=
  match value with
  | none => some none
  | some text => (parse text).map some

/-- The number that decimal digits stand for, if there are any and no other characters. -/
def digits? (text : List Char) : Option Nat :=
  if !text.isEmpty && text.all Char.isDigit then
    some (text.foldl (fun value c => 10 * value + (c.toNat - '0'.toNat)) 0)
  else none

/-- A whole number below `2 ^ 32` with any sign. -/
def word32? (text : String) : Option Nat :=
  let value := match text.toList with
    | '+' :: digits => digits? digits
    | '-' :: digits => (digits? digits).filter (· == 0)
    | digits => digits? digits
  value.filter (· < 0x100000000)

/-- A whole number below `2 ^ 64` that may have a plus sign. -/
def word64? (text : String) : Option Nat :=
  let value := match text.toList with
    | '+' :: digits => digits? digits
    | digits => digits? digits
  value.filter (· < 0x10000000000000000)

/-- A path, which is not empty. -/
def path? (text : String) : Option String := if text.isEmpty then none else some text

def logLevel? : String → Option (Option Log.Level)
  | "off" => some none
  | "error" => some (some .error)
  | "warn" => some (some .warn)
  | "info" => some (some .info)
  | "debug" => some (some .debug)
  | "trace" => some (some .trace)
  | _ => none

def logFormat? : String → Option LogFormat
  | "plain" => some .plain
  | "json" => some .json
  | _ => none

def outputFormat? : String → Option OutputFormat
  | "yaml" => some .yaml
  | "binary" => some .binary
  | _ => none

/-- The common options, of which those in front of the command give way to those behind. -/
def common? (front behind : Words) : Option CommonOptions := do
  let frontLevel ← read logLevel? (front.value? "--loglevel")
  let behindLevel ← read logLevel? (behind.value? "--loglevel")
  let frontFormat ← read logFormat? (front.value? "--log-format")
  let behindFormat ← read logFormat? (behind.value? "--log-format")
  return {
    logLevel := (behindLevel.or frontLevel).getD (some .info)
    strict := front.flag "--strict" || behind.flag "--strict"
    logFormat := (behindFormat.or frontFormat).getD .plain
    progress := front.flag "--progress" || behind.flag "--progress" }

def sampling? (words : Words) : Option SamplingOptions := do
  let config ← read path? (words.value? "--config")
  let standard ← read word32? (words.value? "--standard")
  let strictness ← read word32? (words.value? "--strictness")
  return {
    config := config
    standard := standard
    pixelFormat := words.value? "--pixel-format"
    interlaced := words.flag "--interlaced"
    strictness := strictness.getD 1 }

/-- The services that a command is about, all if none are named. -/
def services (words : Words) : String := (words.value? "--services").getD "all"

/-- The only operand of a command, a path. -/
def operand? (words : Words) : Option String :=
  match words.operands with
  | [operand] => path? operand
  | _ => none

/-- A command by its name, and the words behind it. -/
def command? (name : String) (rest : List String) : Option (Words × Command) :=
  match name with
  | "decode" => do
      let (words, _) ← Words.scan (commandWords ["--services", "--format", "--output"]) false
        .empty rest
      let format ← read outputFormat? (words.value? "--format")
      let output ← read path? (words.value? "--output")
      return (words, .decode (← operand? words) (← sampling? words) (services words)
        (format.getD .yaml) output)
  | "services" => do
      let (words, _) ← Words.scan samplingWords false .empty rest
      if !words.operands.isEmpty then none
      return (words, .services (← sampling? words))
  | "synth" => do
      let (words, _) ← Words.scan (commandWords ["--services", "--frames"]) false .empty rest
      let frames ← read word64? (words.value? "--frames")
      return (words, .synth (← operand? words) (← sampling? words) (services words)
        (frames.getD 25))
  | _ => none

/-- The meaning of a command line, without the name of the program. -/
def parse (words : List String) : Option Arguments := do
  let (front, rest) ← Words.scan commonWords true .empty words
  match rest with
  | [] => none
  | name :: rest =>
      let (behind, command) ← command? name rest
      return ⟨← common? front behind, command⟩

end Arguments

end Blanking
