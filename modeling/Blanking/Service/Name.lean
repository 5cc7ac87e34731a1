import Blanking.Service.Set
import Blanking.Text.Blank

/-! # Naming services

A user selects services by a list of names between commas. Case and white space around a name
do not matter, pieces without a name are skipped, and some names stand for a group. -/

namespace Blanking

/-- A piece of text that names no service, as it was spelled. -/
structure UnknownService where
  text : String
deriving DecidableEq, Repr

def UnknownService.message (unknown : UnknownService) : String :=
  "Unknown service name: " ++ unknown.text

namespace Service

def ofName? (text : List Char) : Option Service :=
  all.find? fun service => service.name.toList = Text.lower (Text.trim text)

/-- The service of this name, or the text that names none. -/
def parse (text : String) : Except UnknownService Service :=
  match ofName? text.toList with
  | some service => .ok service
  | none => .error ⟨text⟩

end Service

namespace ServiceSet

def groups : List (String × ServiceSet) :=
  [("teletext-b", teletextB625), ("caption-525", caption525), ("caption-625", caption625),
   ("wss", wss), ("all", all)]

def ofGroup? (text : List Char) : Option ServiceSet :=
  (groups.find? fun group => group.1.toList = Text.lower text).map Prod.snd

/-- The services that a name without surrounding white space stands for. -/
def ofName (text : List Char) : Except UnknownService ServiceSet :=
  match ofGroup? text with
  | some group => .ok group
  | none =>
      match Service.ofName? text with
      | some service => .ok (singleton service)
      | none => .error ⟨String.ofList text⟩

/-- The names of a list between commas. -/
def names (text : List Char) : List (List Char) :=
  ((Text.split ',' text).map Text.trim).filter (!·.isEmpty)

/-- All services of a list of names, or its first name that stands for none. -/
def ofNames : List (List Char) → Except UnknownService ServiceSet
  | [] => .ok empty
  | name :: rest => do
      let set ← ofName name
      let others ← ofNames rest
      return set ∪ others

/-- The services that a list of names between commas selects. -/
def parse (text : String) : Except UnknownService ServiceSet :=
  ofNames (names text.toList)

end ServiceSet

end Blanking
