import NurseryRota.Journal.Checksum
import NurseryRota.Journal.Payload

/-!
# Frames and recovery

A journal is a sequence of frames, one for each edit: the length of the payload, the payload and
its checksum.  Recovery reads intact frames from the front until the bytes end or a damaged frame
is met, and says what the damage was; bytes that follow an edit within its payload are passed
over.
-/

namespace NurseryRota

/-- The longest payload that a frame may announce. -/
def maxPayload : Nat := 1024 * 1024

inductive Damage
  | torn
  | checksum
  | oversized (length : Nat)
  | undecodable
deriving DecidableEq, Repr

def Damage.message : Damage → String
  | torn => "torn frame"
  | checksum => "checksum mismatch"
  | oversized length =>
    "frame length " ++ toString length ++ " exceeds " ++ toString maxPayload
  | undecodable => "payload does not decode"

namespace Frame

def ofPayload (payload : Bytes) : Bytes :=
  Bytes.littleEndian 4 payload.length ++ payload ++
    Bytes.littleEndian 4 (Checksum.ofBytes payload).toNat

def ofEdit (e : Edit) : Bytes := ofPayload (Payload.ofEdit e)

def ofEdits (es : List Edit) : Bytes := es.flatMap ofEdit

def first (bytes : Bytes) : Except Damage (Edit × Nat) :=
  match Bytes.number? 4 bytes with
  | none => .error .torn
  | some (length, rest) =>
    if maxPayload < length then .error (.oversized length)
    else
      match Bytes.split? length rest with
      | none => .error .torn
      | some (payload, rest) =>
        match Bytes.number? 4 rest with
        | none => .error .torn
        | some (sum, _) =>
          if sum ≠ (Checksum.ofBytes payload).toNat then .error .checksum
          else
            match Payload.edit? payload with
            | none => .error .undecodable
            | some (e, _) => .ok (e, length + 8)

theorem pos_of_first {bytes : Bytes} {e : Edit} {size : Nat} (h : first bytes = .ok (e, size)) :
    0 < size := by
  unfold first at h
  repeat' split at h
  all_goals cases h
  all_goals omega

end Frame

structure Recovery where
  edits : List Edit
  /-- The length of the intact frames at the front. -/
  validLength : Nat
  damage : Option Damage
deriving DecidableEq

namespace Recovery

def empty : Recovery := ⟨[], 0, none⟩

def push (e : Edit) (size : Nat) (r : Recovery) : Recovery :=
  ⟨e :: r.edits, size + r.validLength, r.damage⟩

/-- Reads frames until the bytes end or a damaged frame is met. -/
def ofBytes (bytes : Bytes) : Recovery :=
  if _hend : bytes = [] then empty
  else
    match _hframe : Frame.first bytes with
    | .error damage => ⟨[], 0, some damage⟩
    | .ok (e, size) => (ofBytes (bytes.drop size)).push e size
  termination_by bytes.length
  decreasing_by
    have := Frame.pos_of_first _hframe
    have := List.length_pos_iff.2 _hend
    rw [List.length_drop]
    omega

end Recovery

end NurseryRota
