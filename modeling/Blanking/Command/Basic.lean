import Blanking.Command.Decode
import Blanking.Command.Listing
import Blanking.Command.Synth

/-! # Commands

The program as a function of its command line and of the files that it finds. -/

namespace Blanking

/-- What a command has led to. -/
structure Outcome where
  result : Except CommandError Unit
  /-- The messages up to the chosen level of detail. -/
  log : List Log.Entry
  stdout : ByteArray
  /-- The file to be written, by its path. -/
  written : Option (String × ByteArray)

/-- The course of action of a command. -/
def Command.action (files : Files) (common : CommonOptions) : Command → Run Unit
  | .decode input sampling wanted format output =>
      Decode.run files common input sampling wanted format output
  | .services sampling => Listing.run files sampling
  | .synth output sampling wanted frames =>
      Synth.run files common output sampling wanted frames

def Arguments.run (arguments : Arguments) (files : Files) : Outcome :=
  let (result, report) := (arguments.command.action files arguments.common).run
  ⟨result, Log.upTo arguments.common.logLevel report.log, report.stdout, report.written⟩

/-- Runs a command line given by its words. -/
def runWords (words : List String) (files : Files) : Outcome :=
  match Arguments.parse words with
  | some arguments => arguments.run files
  | none => ⟨.error .usage, [], ByteArray.empty, none⟩

end Blanking
