/-
Records and histories that are written and read again.

Whether a record comes back depends on its measurements alone, as long as its time is a number and its
MTU a count: a raw prediction or an inference time that is not finite is written as `null` and comes
back missing, but a measurement that is not finite spoils the record, and one such record spoils the
history that it stands in.
-/
import AdaptiveMtu.Engine.Record
import AdaptiveMtu.Proofs.Features.Codec
import Mathlib.Data.List.Forall2

namespace AdaptiveMtu

namespace Record

variable {r : Record}

/-! ### Texts -/

theorem proper_optionalMember (name : String) (x : Option Float) :
    ∀ m ∈ optionalMember name x, m.2.Proper := by
  intro m hm
  cases x with
  | none => cases hm
  | some x =>
      obtain rfl := List.mem_singleton.mp hm
      exact Json.proper_ofFloat x

theorem proper_toJson (r : Record) : r.toJson.Proper := by
  refine Json.proper_ofMembers fun m hm => ?_
  rw [List.mem_append] at hm
  rcases hm with hm | hm
  · simp only [List.mem_cons, List.not_mem_nil, or_false] at hm
    rcases hm with rfl | rfl | rfl | rfl
    · exact Json.proper_ofFloat _
    · exact r.inputs.proper_toJson
    · refine Json.proper_ofMembers fun m hm => ?_
      rw [List.mem_cons] at hm
      rcases hm with rfl | hm
      · exact Numeral.proper_ofNat _
      · exact proper_optionalMember _ _ m hm
    · trivial
  · exact proper_optionalMember _ _ m hm

/-! ### Decoding -/

/-- An optional number as it comes back: missing if it is not finite. -/
def finiteOnly (x : Option Float) : Option Float := x.filter (·.isFinite)

theorem finiteOnly_some (x : Float) : finiteOnly (some x) = if x.isFinite then some x else none := by
  cases hx : x.isFinite <;> simp [finiteOnly, hx]

theorem outputOf?_ofMembers {mtu : Nat} (hmtu : mtu ≤ largestCount) (raw : Option Float) :
    outputOf? (Json.ofMembers
        (("predicted_mtu", .ofNat mtu) :: optionalMember "raw_prediction" raw))
      = some (mtu, finiteOnly raw) := by
  cases raw with
  | none =>
      rw [optionalMember, outputOf?, Json.fields?_of_known (by simp) (by simp)]
      simp [Json.required, Json.withDefault, Json.toCount?_ofNat hmtu, finiteOnly, List.lookup]
  | some x =>
      rw [optionalMember, outputOf?, Json.fields?_of_known (by simp) (by simp)]
      simp [Json.required, Json.withDefault, Json.toCount?_ofNat hmtu, finiteOnly_some,
        Json.optional_ofFloat, List.lookup]

/-- A record is decoded member by member. -/
theorem ofJson?_ofMembers (time inputs output isOverride : Json) (inferenceMs : Option Float) :
    ofJson? (Json.ofMembers <| [("timestamp", time), ("inputs", inputs), ("output", output),
        ("is_override", isOverride)] ++ optionalMember "inference_time_ms" inferenceMs) = do
      let timestamp ← time.toFloat?
      let inputs ← FeatureVector.ofJson? inputs
      let (mtu, raw) ← outputOf? output
      let isOverride ← isOverride.toBool?
      return ⟨timestamp, inputs, mtu, raw, isOverride, finiteOnly inferenceMs⟩ := by
  cases inferenceMs with
  | none =>
      rw [optionalMember, ofJson?, Json.fields?_of_known (by simp) (by simp)]
      rfl
  | some x =>
      have htime : Json.withDefault [("timestamp", time), ("inputs", inputs), ("output", output),
          ("is_override", isOverride), ("inference_time_ms", .ofFloat x)] "inference_time_ms"
          (Json.optional Json.toFloat?) none = some (finiteOnly (some x)) := by
        rw [finiteOnly_some, ← Json.optional_ofFloat]
        rfl
      rw [optionalMember, ofJson?, Json.fields?_of_known (by simp) (by simp)]
      simp only [List.cons_append, List.nil_append, Option.bind_eq_bind, Option.bind_some, htime]
      rfl

/-- **A record with a time and a count comes back if its measurements do, without what is not finite.** -/
theorem ofJson?_toJson (r : Record) (htime : r.timestamp.isFinite = true)
    (hmtu : r.mtu ≤ largestCount) :
    ofJson? r.toJson = (FeatureVector.ofJson? r.inputs.toJson).map fun inputs =>
      { r with inputs, raw := finiteOnly r.raw, inferenceMs := finiteOnly r.inferenceMs } := by
  rw [toJson, ofJson?_ofMembers, outputOf?_ofMembers hmtu, Json.toFloat?_ofFloat, if_pos htime]
  cases FeatureVector.ofJson? r.inputs.toJson <;> rfl

theorem parse?_compact (r : Record) : parse? r.toJson.compact = ofJson? r.toJson := by
  rw [parse?, Json.read?_compact r.proper_toJson, Option.bind_some]

/-! ### Records that a text can hold -/

/-- Every number of a record is finite, and every measurement in its range. -/
structure Storable (r : Record) : Prop where
  timestamp : r.timestamp.isFinite = true
  inputs : r.inputs.Storable
  mtu : r.mtu ≤ largestCount
  raw : ∀ x ∈ r.raw, x.isFinite = true
  inferenceMs : ∀ x ∈ r.inferenceMs, x.isFinite = true

/-- Two records are the same, measurements that are held above zero being compared as numbers. -/
structure Same (r s : Record) : Prop where
  timestamp : r.timestamp = s.timestamp
  inputs : r.inputs.Same s.inputs
  mtu : r.mtu = s.mtu
  raw : r.raw = s.raw
  isOverride : r.isOverride = s.isOverride
  inferenceMs : r.inferenceMs = s.inferenceMs

/-- The record with its measurements reread. -/
def reread (r : Record) : Record := { r with inputs := r.inputs.reread }

theorem finiteOnly_eq {x : Option Float} (h : ∀ y ∈ x, y.isFinite = true) : finiteOnly x = x := by
  cases x with
  | none => rfl
  | some y => rw [finiteOnly_some, if_pos (h y rfl)]

theorem Storable.ofJson?_toJson (h : r.Storable) : ofJson? r.toJson = some r.reread := by
  rw [Record.ofJson?_toJson r h.timestamp h.mtu, FeatureVector.ofJson?_toJson h.inputs.allFinite,
    finiteOnly_eq h.raw, finiteOnly_eq h.inferenceMs]
  rfl

theorem Storable.same_reread (h : r.Storable) : r.Same r.reread :=
  ⟨rfl, h.inputs.same_reread, rfl, rfl, rfl, rfl⟩

theorem Storable.reread_eq_self (h : r.Storable) (hzero : r.inputs.NoNegativeZero) :
    r.reread = r := by
  rw [reread, h.inputs.reread_eq_self hzero]

end Record

namespace History

/-- A history is decoded record by record. -/
theorem parse?_textOf (records : List Record) :
    parse? (textOf records) = records.mapM fun r => Record.ofJson? r.toJson := by
  have hproper : (Json.array (records.map Record.toJson)).Proper := by
    refine Json.proper_array fun v hv => ?_
    obtain ⟨r, -, rfl⟩ := List.mem_map.mp hv
    exact r.proper_toJson
  rw [parse?, textOf, Json.read?_indented hproper, Option.bind_some, Json.toList?, Option.bind_some,
    List.mapM_map]
  rfl

/-- **Records that a text can hold come back from the text of the history and each from its own.**  They
come back bit by bit; a negative zero that is held above zero comes back as zero, which equals it. -/
theorem records_come_back {records : List Record} (h : ∀ r ∈ records, r.Storable) :
    ∃ read, parse? (textOf records) = some read ∧
      (records.mapM fun r => Record.parse? r.toJson.compact) = some read ∧
      List.Forall₂ Record.Same records read ∧
      ((∀ r ∈ records, r.inputs.NoNegativeZero) → read = records) := by
  have hall : (records.mapM fun r => Record.ofJson? r.toJson) = some (records.map Record.reread) :=
    mapM_eq_some fun r hr => (h r hr).ofJson?_toJson
  refine ⟨records.map Record.reread, ?_, ?_, ?_, ?_⟩
  · rw [parse?_textOf, hall]
  · simp only [Record.parse?_compact, hall]
  · rw [List.forall₂_map_right_iff, List.forall₂_same]
    exact fun r hr => (h r hr).same_reread
  · intro hzero
    calc records.map Record.reread = records.map id :=
          List.map_congr_left fun r hr => (h r hr).reread_eq_self (hzero r hr)
      _ = records := List.map_id records

/-- A record with all measurements, and one with none of them. -/
def sampleRecords : List Record :=
  [{ timestamp := 1700000000.25
     inputs := ⟨some 12.5, some 940000000, some 0.015625, some 64, some 1448, some 0.1, some .wifi,
       some 23.75⟩
     mtu := 1500, raw := some 1487.3, isOverride := false, inferenceMs := some 5e-7 },
    ⟨1700000001, .empty, 9000, none, true, none⟩]

theorem sampleRecords_come_back : parse? (textOf sampleRecords) = some sampleRecords := by
  have hstorable : ∀ r ∈ sampleRecords, r.Storable := by
    intro r hr
    simp only [sampleRecords, List.mem_cons, List.not_mem_nil, or_false] at hr
    rcases hr with rfl | rfl
    all_goals
      refine ⟨?_, ⟨?_, ?_, ?_, ?_, ?_, ?_, ?_⟩, ?_, ?_, ?_⟩
      all_goals decide +kernel
  have hzero : ∀ r ∈ sampleRecords, r.inputs.NoNegativeZero := by
    intro r hr
    simp only [sampleRecords, List.mem_cons, List.not_mem_nil, or_false] at hr
    rcases hr with rfl | rfl
    all_goals
      refine ⟨?_, ?_, ?_⟩
      all_goals decide +kernel
  obtain ⟨read, hparse, -, -, hsame⟩ := records_come_back hstorable
  rw [hparse, hsame hzero]

end History

end AdaptiveMtu
