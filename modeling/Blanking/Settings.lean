import Blanking.Sampling.Checked
import Blanking.Yaml.Node

/-! # Settings

A description of the sampling as a user writes it: any part may be left out, and is then taken
from other settings or from the preset of the standard. -/

namespace Blanking

/-- A description of the sampling, any part of which may be missing. -/
structure Settings where
  /-- Lines per frame. -/
  standard : Option Nat := none
  pixelFormat : Option String := none
  samplingRate : Option Nat := none
  offset : Option Nat := none
  samplesPerLine : Option Nat := none
  start : Option (PerField Nat) := none
  count : Option (PerField Nat) := none
  interlaced : Option Bool := none
  synchronous : Option Bool := none
deriving DecidableEq, Repr

/-- Why settings describe no sampling. -/
inductive SettingsError where
  | unsupportedStandard (lines : Nat)
  | sampling (cause : SamplingError)
deriving DecidableEq, Repr

def SettingsError.message : SettingsError → String
  | .unsupportedStandard lines => s!"Unsupported standard {lines}, expected 625 or 525"
  | .sampling cause => cause.message

namespace Settings

def empty : Settings := {}

/-- Settings in which some parts are replaced by those of others. -/
def override (s others : Settings) : Settings where
  standard := others.standard.or s.standard
  pixelFormat := others.pixelFormat.or s.pixelFormat
  samplingRate := others.samplingRate.or s.samplingRate
  offset := others.offset.or s.offset
  samplesPerLine := others.samplesPerLine.or s.samplesPerLine
  start := others.start.or s.start
  count := others.count.or s.count
  interlaced := others.interlaced.or s.interlaced
  synchronous := others.synchronous.or s.synchronous

/-- The preset for a number of lines, 625 if none is set. -/
def preset (standard : Option Nat) : Except SettingsError Sampling :=
  let lines := standard.getD 625
  if lines = 625 then .ok .preset625
  else if lines = 525 then .ok .preset525
  else .error (.unsupportedStandard lines)

/-- The format of a name, or another one without a name. -/
def formatOr (name : Option String) (other : PixelFormat) : Except SettingsError PixelFormat :=
  match name with
  | none => .ok other
  | some name =>
      match PixelFormat.parse? name with
      | some format => .ok format
      | none => .error (.sampling (.unknownFormat name))

/-- The sampling that settings describe, which need not be consistent. -/
def description (s : Settings) : Except SettingsError Sampling := do
  let preset ← preset s.standard
  let format ← formatOr s.pixelFormat preset.format
  return { preset with
    format := format
    rate := s.samplingRate.getD preset.rate
    offset := s.offset.getD preset.offset
    samplesPerLine := s.samplesPerLine.getD preset.samplesPerLine
    start := s.start.getD preset.start
    count := s.count.getD preset.count
    interlaced := s.interlaced.getD preset.interlaced
    synchronous := s.synchronous.getD preset.synchronous }

/-- The consistent sampling that settings describe. -/
def toSampling (s : Settings) : Checked SettingsError Sampling := do
  let sampling ← s.description
  sampling.validate?.adapt .sampling
  return sampling

/-! ## Settings in YAML -/

/-- The full form of a common tag. -/
def commonTag (name : String) : Yaml.Tag := .ofString ("tag:yaml.org,2002:" ++ name)

/-- Whether a scalar may stand for a value that is not text: without quotes, or as a block with
the tag of its kind. -/
def isLiteral (kind : String) (tag : Option Yaml.Tag) (style : Yaml.Style) : Bool :=
  style == .plain || (style == .literal && tag == some (commonTag kind))

/-- The number that digits of a base stand for, if there are any and no other characters. -/
def digits? (base : Nat) (text : List Char) : Option Nat :=
  if text.isEmpty then none
  else text.foldlM (fun value c => do
    let digit ← Yaml.Scalar.hexValue? c
    if digit < base then some (base * value + digit) else none) 0

/-- A whole number without its sign: in base 16, 8 or 2 behind a mark, or else decimal and without
leading zeros. -/
def unsigned? (text : List Char) : Option Nat :=
  match text with
  | '0' :: 'x' :: digits => digits? 16 digits
  | '0' :: 'o' :: digits => digits? 8 digits
  | '0' :: 'b' :: digits => digits? 2 digits
  | '0' :: _ :: _ => none
  | digits => digits? 10 digits

/-- A whole number that may have a plus sign. -/
def number? : List Char → Option Nat
  | '+' :: rest => unsigned? rest
  | text => unsigned? text

/-- A whole number below `2 ^ 32`. -/
def numberOf (d : Yaml.Document) (node : Yaml.Node) : Option Nat :=
  match d.resolve node with
  | some (.scalar tag style text) =>
      if isLiteral "int" tag style then (number? text.toList).filter (· < 0x100000000) else none
  | _ => none

/-- A truth value, in one of three cases of its letters. -/
def boolOf (d : Yaml.Document) (node : Yaml.Node) : Option Bool :=
  match d.resolve node with
  | some (.scalar tag style text) =>
      if !isLiteral "bool" tag style then none
      else if ["true", "True", "TRUE"].contains text then some true
      else if ["false", "False", "FALSE"].contains text then some false
      else none
  | _ => none

/-- Text in any style. -/
def textOf (d : Yaml.Document) (node : Yaml.Node) : Option String :=
  match d.resolve node with
  | some (.scalar _ _ text) => some text
  | _ => none

def pairOf (d : Yaml.Document) (node : Yaml.Node) : Option (PerField Nat) :=
  match d.resolve node with
  | some (.sequence [first, second]) => do return ⟨← numberOf d first, ← numberOf d second⟩
  | _ => none

/-- The spellings of a missing value. -/
def isNull (text : String) : Bool := ["null", "Null", "NULL", "~"].contains text

/-- A value that may be missing. -/
def optional {α : Type} (read : Yaml.Document → Yaml.Node → Option α) (d : Yaml.Document)
    (node : Yaml.Node) : Option (Option α) :=
  match d.resolve node with
  | some (.scalar (some tag) .plain text) =>
      if tag == commonTag "null" then (if isNull text then some none else none)
      else (read d node).map some
  | some (.scalar none .plain text) =>
      if text.isEmpty || isNull text then some none else (read d node).map some
  | _ => (read d node).map some

/-- Settings with one part read from a node. -/
def put (s : Settings) (d : Yaml.Document) (key : String) (node : Yaml.Node) :
    Option Settings := do
  match key with
  | "standard" => return { s with standard := ← optional numberOf d node }
  | "pixel_format" => return { s with pixelFormat := ← optional textOf d node }
  | "sampling_rate" => return { s with samplingRate := ← optional numberOf d node }
  | "offset" => return { s with offset := ← optional numberOf d node }
  | "samples_per_line" => return { s with samplesPerLine := ← optional numberOf d node }
  | "start" => return { s with start := ← optional pairOf d node }
  | "count" => return { s with count := ← optional pairOf d node }
  | "interlaced" => return { s with interlaced := ← optional boolOf d node }
  | "synchronous" => return { s with synchronous := ← optional boolOf d node }
  | _ => none

/-- Settings with several parts read from nodes. -/
def putAll (s : Settings) (d : Yaml.Document) : List (String × Yaml.Node) → Option Settings
  | [] => some s
  | (key, node) :: rest => do putAll (← s.put d key node) d rest

/-- The settings of a document: a mapping with no part twice, or nothing at all. -/
def ofDocument (d : Yaml.Document) : Option Settings :=
  match d.root with
  | .scalar _ style text => if style == .plain && text.isEmpty then some empty else none
  | .mapping entries => do
      let named ← entries.mapM fun (key, node) => (textOf d key).map fun key => (key, node)
      if (named.map Prod.fst).Nodup then empty.putAll d named else none
  | _ => none

/-- The settings that a text holds, if it is well formed. -/
def parse (text : String) : Option Settings := do
  match ← Yaml.content text with
  | .nothing => return empty
  | .document d => ofDocument d

end Settings

end Blanking
