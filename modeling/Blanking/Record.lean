import Blanking.Service.Set
import Blanking.Service.Transmission

/-! # Records of decoded lines

One line of decoded data: the service, the number of the line, and the payload in front of a
buffer of fixed size. -/

namespace Blanking

/-- Bytes of a record, enough for the payload of every service. -/
def recordBytes : Nat := 56

/-- The data of one decoded line. -/
structure Record where
  /-- The service, as a set of one member. -/
  id : ServiceSet
  /-- Number of the line, zero if unknown. -/
  line : Nat
  data : Vector UInt8 recordBytes
deriving DecidableEq

/-- Some bytes in front of a buffer; what does not fit is dropped. -/
def overwrite {size : Nat} {α : Type} (front : List α) (buffer : Vector α size) :
    Vector α size :=
  let values := front.toArray
  Vector.ofFn fun i => values[i.val]?.getD buffer[i]

namespace Record

/-- A record with data in front of zeros. -/
def ofId (id : ServiceSet) (line : Nat) (data : List UInt8) : Record :=
  ⟨id, line, overwrite data (Vector.replicate recordBytes 0)⟩

/-- The record of a payload of one service. -/
def ofPayload (service : Service) (line : Nat) (payload : List UInt8) : Record :=
  ofId (.singleton service) line payload

/-- The service of the record, if it has exactly one. -/
def service? (record : Record) : Option Service := record.id.single?

def payload (record : Record) : List UInt8 :=
  record.data.toList.take ((record.service?.map (·.transmission.payloadBytes)).getD 0)

end Record

end Blanking
