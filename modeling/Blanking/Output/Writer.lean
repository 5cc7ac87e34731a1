import Blanking.Output.Document
import Blanking.Output.Stream

/-! # Writing decoded field pairs

Field pairs are written one after the other in one of two formats. -/

namespace Blanking

/-- How decoded lines are written. -/
inductive OutputFormat where
  | yaml
  | binary
deriving DecidableEq, Repr

/-- An output under way. -/
structure Writer where
  format : OutputFormat
  /-- Lines per frame of the scanning. -/
  lines : Nat
  /-- Whether the header of a binary stream was written. -/
  started : Bool
  output : ByteArray

namespace Writer

def new (format : OutputFormat) (lines : Nat) : Writer := ⟨format, lines, false, ByteArray.empty⟩

/-- Writes the header of a binary stream if it was not yet written. -/
def start (w : Writer) : Writer :=
  if w.started || w.format == .yaml then w
  else { w with started := true, output := w.output ++ (Stream.header w.lines).toByteArray }

/-- Writes the records of a field pair. -/
def write (w : Writer) (frame : Nat) (records : List Record) : Writer :=
  match w.format with
  | .yaml => { w with output := w.output ++ (Document.ofFrame w.lines frame records).toUTF8 }
  | .binary =>
      let w := w.start
      { w with output := w.output ++ (Stream.ofFrame ⟨frame, records⟩).toByteArray }

/-- Everything that was written, once no field pair follows. -/
def finish (w : Writer) : ByteArray := w.start.output

end Writer

end Blanking
