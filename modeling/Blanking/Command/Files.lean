/-! # Files of a command

A command reads files, or what comes through a pipe, and writes at most one file. What it may
find and make is given to it as a view, so that it runs on any store of files. -/

namespace Blanking

/-- Why a file cannot be read or made. -/
inductive FileError where
  | notFound
  | isDirectory
  | notDirectory
  /-- A path, or a name in it, is longer than the system allows. -/
  | nameTooLong
  /-- A path has a zero character. -/
  | invalidPath
  | invalidText
  | other
deriving DecidableEq, Repr

/-- A view of a store of files. -/
structure Files where
  read : String → Except FileError ByteArray
  /-- Whether a file can be made, or replaced. -/
  canWrite : String → Except FileError Unit
  piped : ByteArray

/-- The files of one directory. -/
structure Directory where
  entries : List (String × ByteArray)

namespace Directory

def empty : Directory := ⟨[]⟩

def find? (d : Directory) (name : String) : Option ByteArray :=
  (d.entries.find? (·.1 == name)).map Prod.snd

/-- The directory with one file made or replaced. -/
def put (d : Directory) (name : String) (content : ByteArray) : Directory :=
  ⟨(name, content) :: d.entries.filter (·.1 != name)⟩

/-- What a path leads to. -/
inductive Place where
  | file (name : String)
  /-- A name that is said to be that of a directory. -/
  | slashed (name : String)
  /-- Something in a directory of this name, which there is none of. -/
  | below (name : String)
  | directory
  /-- The file that is always empty and drops what is written to it. -/
  | sink
  | nowhere (cause : FileError)

/-- Bytes of a name at most. -/
def longestName : Nat := 255

/-- Bytes of a path at most. -/
def longestPath : Nat := 4095

/-- The parts of a path, without those that lead nowhere from the start. -/
def parts (path : String) : List String :=
  ((path.splitOn "/").filter (· != "")).dropWhile (· == ".")

/-- Whether a part of a path leads upwards or nowhere. -/
def leadsUp (part : String) : Bool := part == "." || part == ".."

/-- What a path within the directory leads to, by its parts. Nothing is known of other directories,
but that they exist. -/
def placeOf (slashed : Bool) : List String → Place
  | [] => .directory
  | name :: rest =>
      if name == ".." then if rest.all leadsUp then .directory else .nowhere .notFound
      else if !rest.isEmpty then .below name
      else if slashed then .slashed name
      else if longestName < name.utf8ByteSize then .nowhere .nameTooLong
      else .file name

/-- What a path from the root of the system leads to, by its parts. -/
def rootedPlace (slashed : Bool) (parts : List String) : Place :=
  match parts.dropWhile leadsUp with
  | [] => .directory
  | "dev" :: "null" :: rest =>
      if slashed || !rest.isEmpty then .nowhere .notDirectory else .sink
  | _ => .nowhere .notFound

def place (path : String) : Place :=
  if path.toList.contains '\x00' then .nowhere .invalidPath
  else if path.isEmpty then .nowhere .notFound
  else if longestPath < path.utf8ByteSize then .nowhere .nameTooLong
  else if path.startsWith "/" then rootedPlace (path.endsWith "/") (parts path)
  else placeOf (path.endsWith "/") (parts path)

/-- Why a name cannot stand for a directory. -/
def noDirectory (d : Directory) (name : String) : FileError :=
  if longestName < name.utf8ByteSize then .nameTooLong
  else if (d.find? name).isSome then .notDirectory
  else .notFound

def read (d : Directory) (path : String) : Except FileError ByteArray :=
  match place path with
  | .file name =>
      match d.find? name with
      | some content => .ok content
      | none => .error .notFound
  | .slashed name | .below name => .error (d.noDirectory name)
  | .directory => .error .isDirectory
  | .sink => .ok ByteArray.empty
  | .nowhere cause => .error cause

/-- Whether a file can be made or replaced at a path. -/
def canWrite (d : Directory) (path : String) : Except FileError Unit :=
  match place path with
  | .file _ | .sink => .ok ()
  | .below name => .error (d.noDirectory name)
  | .slashed _ | .directory => .error .isDirectory
  | .nowhere cause => .error cause

/-- The directory as a store of files. -/
def files (d : Directory) : Files where
  read := d.read
  canWrite := d.canWrite
  piped := ByteArray.empty

/-- The directory with the file at a path made or replaced, if it can be. -/
def write (d : Directory) (path : String) (content : ByteArray) : Directory :=
  match place path with
  | .file name => d.put name content
  | _ => d

end Directory

end Blanking
