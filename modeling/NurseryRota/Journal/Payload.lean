import NurseryRota.Bytes
import NurseryRota.Edit
import NurseryRota.Uuid.Text

/-!
# Edits as bytes

An edit is written as the number of its kind and its fields in order.  Kinds and bands are
32-bit numbers, times and days are 16-bit words in two's complement, and an identifier is its
length, as a 64-bit number, and its sixteen bytes.  A reader takes an edit from the front and
hands back what follows it.
-/

namespace NurseryRota

abbrev ByteReader (α : Type) := Bytes → Option (α × Bytes)

namespace Payload

def ofUuid (u : Uuid) : Bytes := Bytes.littleEndian 8 16 ++ u.toBytes

def uuid? : ByteReader Uuid := fun bytes => do
  let (length, rest) ← Bytes.number? 8 bytes
  let (word, rest) ← Bytes.split? length rest
  let u ← Uuid.ofBytes? word
  return (u, rest)

def ofWord (w : Int16) : Bytes := Bytes.littleEndian 2 w.toUInt16.toNat

def word? : ByteReader Int16 := fun bytes => do
  let (n, rest) ← Bytes.number? 2 bytes
  return ((UInt16.ofNat n).toInt16, rest)

def ofRole : Role → Bytes
  | .staff => Bytes.littleEndian 4 0
  | .child b => Bytes.littleEndian 4 1 ++ Bytes.littleEndian 4 b.index

def role? : ByteReader Role := fun bytes => do
  let (kind, rest) ← Bytes.number? 4 bytes
  match kind with
  | 0 => return (.staff, rest)
  | 1 =>
    let (index, rest) ← Bytes.number? 4 rest
    let band ← Band.all[index]?
    return (.child band, rest)
  | _ => none

def ofEnrolment (m : Enrolment) : Bytes := ofUuid m.project ++ ofRole m.role

def enrolment? : ByteReader Enrolment := fun bytes => do
  let (project, rest) ← uuid? bytes
  let (role, rest) ← role? rest
  return (⟨project, role⟩, rest)

def ofBooking (r : Booking) : Bytes :=
  ofUuid r.id ++ ofUuid r.member ++ ofWord r.day ++ ofWord r.inTime ++ ofWord r.outTime

def booking? : ByteReader Booking := fun bytes => do
  let (id, rest) ← uuid? bytes
  let (member, rest) ← uuid? rest
  let (day, rest) ← word? rest
  let (inTime, rest) ← word? rest
  let (outTime, rest) ← word? rest
  return (⟨id, member, day, inTime, outTime⟩, rest)

def ofEdit : Edit → Bytes
  | .memberRegistered id m => Bytes.littleEndian 4 0 ++ ofUuid id ++ ofEnrolment m
  | .memberRemoved id => Bytes.littleEndian 4 1 ++ ofUuid id
  | .shiftAdded booking => Bytes.littleEndian 4 2 ++ ofBooking booking
  | .shiftUpdated booking => Bytes.littleEndian 4 3 ++ ofBooking booking
  | .shiftRemoved id => Bytes.littleEndian 4 4 ++ ofUuid id

/-- The edit at the front of a byte string, and the bytes that follow it. -/
def edit? : ByteReader Edit := fun bytes => do
  let (kind, rest) ← Bytes.number? 4 bytes
  match kind with
  | 0 =>
    let (id, rest) ← uuid? rest
    let (m, rest) ← enrolment? rest
    return (.memberRegistered id m, rest)
  | 1 =>
    let (id, rest) ← uuid? rest
    return (.memberRemoved id, rest)
  | 2 =>
    let (booking, rest) ← booking? rest
    return (.shiftAdded booking, rest)
  | 3 =>
    let (booking, rest) ← booking? rest
    return (.shiftUpdated booking, rest)
  | 4 =>
    let (id, rest) ← uuid? rest
    return (.shiftRemoved id, rest)
  | _ => none

end Payload

end NurseryRota
