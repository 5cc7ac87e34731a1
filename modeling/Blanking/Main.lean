import Blanking.Command.Basic

/-! # The program

Runs a command line on the files of the system. What the command may read is read before it
runs, and what it writes is written when it is done. Messages go to the standard error. -/

namespace Blanking.Program

def usage : String := "usage: blanking [OPTIONS] decode|services|synth [OPTIONS] [PATH]"

/-- What is wrong with a file, in the words of the system or less. -/
def fileErrorText : FileError → String
  | .notFound => "no such file or directory"
  | .isDirectory => "is a directory"
  | .notDirectory => "not a directory"
  | .nameTooLong => "name is too long"
  | .invalidPath => "path has a zero character"
  | .invalidText => "text is not valid UTF-8"
  | .other => "input or output failed"

def errorText (cause : CommandError) : String :=
  match cause with
  | .usage => usage
  | .file cause => fileErrorText cause
  | .malformedSettings => "malformed settings"
  | cause => cause.message?.getD ""

def logLine (format : LogFormat) (entry : Log.Entry) : String :=
  match format with
  | .plain => entry.display
  | .json =>
      "\x7b\"lvl\":" ++ entry.level.name.quote ++ ",\"msg\":" ++ entry.message.quote ++ "\x7d"

/-- Reads a stream to its end, behind what was read before. -/
partial def readAll (stream : IO.FS.Stream) (before : ByteArray) : IO ByteArray := do
  let more ← stream.read 65536
  if more.isEmpty then return before
  readAll stream (before ++ more)

/-- Reads a file, if the system lets it be read. -/
def load (path : String) : IO (Except FileError ByteArray) := do
  try
    return .ok (← IO.FS.readBinFile path)
  catch cause =>
    match cause with
    | .noFileOrDirectory .. => return .error .notFound
    | _ => return .error .other

/-- What a command may read. Whether a file can be written shows only when it is. -/
def view (command : Command) : IO Files := do
  let loaded ← command.inputs.mapM fun path => do return (path, ← load path)
  let piped ←
    if command.isPiped then readAll (← IO.getStdin) ByteArray.empty else pure ByteArray.empty
  let read (path : String) :=
    ((loaded.find? (·.1 == path)).map Prod.snd).getD (.error .notFound)
  return ⟨read, fun _ => .ok (), piped⟩

/-- Runs a command line, and tells how the program is to end. -/
def run (arguments : Arguments) : IO UInt32 := do
  let outcome := arguments.run (← view arguments.command)
  let stderr ← IO.getStderr
  for entry in outcome.log do
    stderr.putStrLn (logLine arguments.common.logFormat entry)
  (← IO.getStdout).write outcome.stdout
  if let some (path, content) := outcome.written then
    IO.FS.writeBinFile path content
  match outcome.result with
  | .ok () => return 0
  | .error cause =>
      stderr.putStrLn ("Error: " ++ errorText cause)
      return 1

end Blanking.Program

/-- The program on the words behind its name. -/
def main (words : List String) : IO UInt32 := do
  match Blanking.Arguments.parse words with
  | some arguments => Blanking.Program.run arguments
  | none =>
      (← IO.getStderr).putStrLn Blanking.Program.usage
      return 2
