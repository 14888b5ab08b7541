/-
Records of predictions, and the history that an engine keeps of them.

The written form of a history is an indented JSON array of its records, oldest first. A record leaves
out its raw prediction and its time where it has none.

The memory for all records of a history is asked for when it is made, in one block. A machine may have no
such block, and then the program ends. No other block has a size that a configuration sets, and all others are
taken for granted.
-/
import AdaptiveMtu.BoundedLog
import AdaptiveMtu.Error
import AdaptiveMtu.Features.Vector
import AdaptiveMtu.Json.Reader
import AdaptiveMtu.Json.Writer
import AdaptiveMtu.Storage.Directory

namespace AdaptiveMtu

/-- One prediction that was made. -/
structure Record where
  /-- Seconds since the beginning of 1970. -/
  timestamp : Float
  inputs : FeatureVector
  mtu : Nat
  raw : Option Float
  isOverride : Bool
  /-- How long the model took, in milliseconds. -/
  inferenceMs : Option Float

namespace Record

/-- A member that is left out when there is nothing to say. -/
def optionalMember (name : String) (x : Option Float) : List (String × Json) :=
  match x with
  | none => []
  | some x => [(name, .ofFloat x)]

/-- The JSON value of a record. -/
def toJson (r : Record) : Json :=
  Json.ofMembers <|
    [("timestamp", .ofFloat r.timestamp),
      ("inputs", r.inputs.toJson),
      ("output", Json.ofMembers <|
        ("predicted_mtu", .ofNat r.mtu) :: optionalMember "raw_prediction" r.raw),
      ("is_override", .bool r.isOverride)]
    ++ optionalMember "inference_time_ms" r.inferenceMs

/-- The MTU and the raw prediction that a JSON value describes. -/
def outputOf? (v : Json) : Option (Nat × Option Float) := do
  let fields ← v.fields? ["predicted_mtu", "raw_prediction"]
  let mtu ← Json.required fields "predicted_mtu" Json.toCount?
  let raw ← Json.withDefault fields "raw_prediction" (Json.optional Json.toFloat?) none
  return (mtu, raw)

/-- The record that a JSON value describes. -/
def ofJson? (v : Json) : Option Record := do
  let fields ←
    v.fields? ["timestamp", "inputs", "output", "is_override", "inference_time_ms"]
  let timestamp ← Json.required fields "timestamp" Json.toFloat?
  let inputs ← Json.required fields "inputs" FeatureVector.ofJson?
  let (mtu, raw) ← Json.required fields "output" outputOf?
  let isOverride ← Json.required fields "is_override" Json.toBool?
  let inferenceMs ←
    Json.withDefault fields "inference_time_ms" (Json.optional Json.toFloat?) none
  return { timestamp, inputs, mtu, raw, isOverride, inferenceMs }

/-- The record that a text spells. -/
def parse? (text : String) : Option Record := (Json.read? text).bind ofJson?

end Record

/-! ### Memory -/

/-- The memory of a machine. -/
structure Memory where
  /-- How many bytes a record takes up. -/
  recordBytes : Nat
  recordBytes_pos : 0 < recordBytes
  /-- Whether a block of so many bytes is given out. -/
  grants : Nat → Bool

namespace Memory

/-- The most bytes that one block may have, 2⁶³ - 1: distances within it are counts with a sign. -/
def largestBlock : Nat := 0x7fffffffffffffff

/-- How many bytes a history of the given capacity takes up; a capacity of zero counts as one. -/
def historyBytes (memory : Memory) (capacity : Nat) : Nat := max capacity 1 * memory.recordBytes

/-- A machine with 47 bits to an address that gives out whatever can be addressed. A record has 176 bytes: seven
measurements of sixteen each and the network in eight, the MTU and the timestamp in eight each, raw
prediction and time in sixteen each, and whether it was an override in eight. -/
def addressable : Memory := ⟨176, by decide, fun bytes => bytes < 0x800000000000⟩

end Memory

/-- Why the program ends for want of memory. -/
inductive Abort where
  /-- A block was asked for that is larger than any. -/
  | capacityOverflow
  /-- A block was asked for and not given out. -/
  | outOfMemory (bytes : Nat)
deriving DecidableEq, Repr

/-- The last words of the program. -/
def Abort.message : Abort → String
  | .capacityOverflow => "capacity overflow"
  | .outOfMemory bytes => "memory allocation of " ++ toString bytes ++ " bytes failed"

/-! ### Histories -/

/-- The records that an engine remembers. -/
abbrev History := BoundedLog Record

namespace History

/-- How many records a history keeps when it is not told. -/
def defaultCapacity : Nat := 1000

/-- An empty history with room for all its records, which are asked for at once. -/
def create (memory : Memory) (capacity : Nat) : Except Abort History :=
  if Memory.largestBlock < memory.historyBytes capacity then .error .capacityOverflow
  else if memory.grants (memory.historyBytes capacity) then .ok (.empty capacity)
  else .error (.outOfMemory (memory.historyBytes capacity))

/-- The last records, or all of them, oldest first. -/
def select (h : History) : (limit : Option Nat) → List Record
  | none => h.toList
  | some limit => h.recent limit

/-- The written form of records. -/
def textOf (records : List Record) : String := (Json.array (records.map Record.toJson)).indented

/-- The records that a text spells. -/
def parse? (text : String) : Option (List Record) :=
  ((Json.read? text).bind Json.toList?).bind (·.mapM Record.ofJson?)

/-- Writing a history to a file: how many records it has, and the directory afterwards. -/
def writeTo (h : History) (d : Directory) (path : String) : Except Error (Nat × Directory) :=
  match d.write path (textOf h.toList).toUTF8 with
  | .error cause => .error (.file cause)
  | .ok d => .ok (h.size, d)

end History

end AdaptiveMtu
