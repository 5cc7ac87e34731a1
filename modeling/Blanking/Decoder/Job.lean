import Blanking.Payload.Check
import Blanking.Slicer.Basic

/-! # Jobs

A job is a slicer together with the services that it finds. They all look alike on a line, so
the line decides which of them was sent. -/

namespace Blanking

/-- A slicer and the services that it finds. -/
structure Job where
  services : ServiceSet
  slicer : Slicer
deriving DecidableEq

/-- Whether a payload passes the check of its service; most services have none. -/
def Service.intact (service : Service) (data : List UInt8) : Bool :=
  match service with
  | .wss625 => Check.wss625Ok data
  | .wssCpr1204 => Check.cpr1204Ok data
  | _ => true

namespace Job

/-- The service that is known to be sent on a line. Of a line without a number only the field is
known. -/
def located? (job : Job) (field : Field) (line : Nat) : Option Service :=
  let services := job.services.toList
  if line = 0 then services.find? (·.transmission.onField field)
  else services.find? (·.transmission.covers field line)

/-- The service that was sent on a line: any one if none is known to be sent there. -/
def serviceOn? (job : Job) (field : Field) (line : Nat) : Option Service :=
  (job.located? field line).or job.services.toList.head?

/-- The service of a payload that was found on a line, if the payload passes its check. -/
def identify (job : Job) (field : Field) (line : Nat) (data : List UInt8) : Option Service :=
  (job.serviceOn? field line).filter (·.intact data)

end Job

end Blanking
