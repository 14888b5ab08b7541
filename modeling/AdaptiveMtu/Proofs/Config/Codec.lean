/-
Configurations that are read from their members in any order.

What a field is read as does not depend on where it stands, nor on the members that are not known, and
a field that is left out has its default.  So a configuration comes back from every arrangement of its
members, but for the fields that were left out.  The only limit is how deep its model is nested.
-/
import AdaptiveMtu.Config.Codec
import AdaptiveMtu.Proofs.Model.KindCodec

namespace AdaptiveMtu

namespace Discretization

theorem ofJson?_toJson (d : Discretization) : ofJson? d.toJson = some d := by
  cases d <;> rfl

end Discretization

namespace EngineConfig

variable {c : EngineConfig}

/-- Every number of a configuration fits the type that it is read with. -/
structure Fits (c : EngineConfig) : Prop where
  model : c.model.Fits
  minMtu : c.minMtu ≤ largestCount
  maxMtu : c.maxMtu ≤ largestCount
  defaultMtu : c.defaultMtu ≤ largestCount
  historyCapacity : c.historyCapacity ≤ largestCount
  intervalMs : c.intervalMs ≤ largestCount
  initialOverride : ∀ n ∈ c.initialOverride, n < wordLimit

/-- The members of a configuration whose model is written in the given way. -/
def membersWith (c : EngineConfig) (model : Json) : List (String × Json) :=
  [("model", model),
    ("min_mtu", .ofNat c.minMtu),
    ("max_mtu", .ofNat c.maxMtu),
    ("default_mtu", .ofNat c.defaultMtu),
    ("history_capacity", .ofNat c.historyCapacity),
    ("prediction_interval_ms", .ofNat c.intervalMs),
    ("discretization", c.discretization.toJson),
    ("initial_override", Json.ofOption Json.ofNat c.initialOverride)]

/-- The configuration with the default values in the named fields. -/
def restore (c : EngineConfig) (left : List String) : EngineConfig where
  model := if "model" ∈ left then standard.model else c.model
  minMtu := if "min_mtu" ∈ left then standard.minMtu else c.minMtu
  maxMtu := if "max_mtu" ∈ left then standard.maxMtu else c.maxMtu
  defaultMtu := if "default_mtu" ∈ left then standard.defaultMtu else c.defaultMtu
  historyCapacity := if "history_capacity" ∈ left then standard.historyCapacity else c.historyCapacity
  intervalMs := if "prediction_interval_ms" ∈ left then standard.intervalMs else c.intervalMs
  discretization := if "discretization" ∈ left then standard.discretization else c.discretization
  initialOverride :=
    if "initial_override" ∈ left then standard.initialOverride else c.initialOverride

theorem optional_override {o : Option Nat} (h : ∀ n ∈ o, n < wordLimit) :
    Json.optional (Json.toNat? wordLimit) (Json.ofOption Json.ofNat o) = some o := by
  cases o with
  | none => rfl
  | some n => exact congrArg (Option.map some) (Json.toNat?_ofNat (h n rfl))

/-- A configuration is read from every arrangement of its members, but for those that are left out. -/
theorem ofJson?_of_arranged (hc : c.Fits) {model : Json}
    (hmodel : c.model.Written (Json.nestingLimit - 1) model) {left : List String}
    {members : List (String × Json)}
    (h : Json.Arranges fieldNames ((c.membersWith model).filter fun m => m.1 ∉ left) members) :
    ofJson? (.ofMembers members) = some (c.restore left) := by
  have hnodup : (((c.membersWith model).filter fun m => m.1 ∉ left).map (·.1)).Nodup := by
    refine (List.filter_sublist.map _).nodup ?_
    show fieldNames.Nodup
    decide
  obtain ⟨kept, hkept, hlookup⟩ := h.fields? hnodup
  have hread {α : Type} (name : String) {v : Json} (hv : (c.membersWith model).lookup name = some v)
      {decode : Json → Option α} {a : α} (ha : decode v = some a) (default : α) :
      Json.withDefault kept name decode default = some (if name ∈ left then default else a) :=
    Json.withDefault_of_lookup hlookup hv ha default
  have hmodel' := hread "model" rfl hmodel.ofJson? standard.model
  have hmin := hread "min_mtu" rfl (Json.toCount?_ofNat hc.minMtu) standard.minMtu
  have hmax := hread "max_mtu" rfl (Json.toCount?_ofNat hc.maxMtu) standard.maxMtu
  have hdefault := hread "default_mtu" rfl (Json.toCount?_ofNat hc.defaultMtu) standard.defaultMtu
  have hcapacity := hread "history_capacity" rfl (Json.toCount?_ofNat hc.historyCapacity)
    standard.historyCapacity
  have hinterval := hread "prediction_interval_ms" rfl (Json.toCount?_ofNat hc.intervalMs)
    standard.intervalMs
  have hdiscretization := hread "discretization" rfl c.discretization.ofJson?_toJson
    standard.discretization
  have hoverride := hread "initial_override" rfl (optional_override hc.initialOverride)
    standard.initialOverride
  simp only [ofJson?, hkept, Option.bind_eq_bind, Option.bind_some, hmodel', hmin, hmax, hdefault,
    hcapacity, hinterval, hdiscretization, hoverride]
  rfl

/-! ### The form that is written -/

theorem proper_toJson (c : EngineConfig) : c.toJson.Proper := by
  refine Json.proper_ofMembers fun m hm => ?_
  simp only [List.mem_cons, List.not_mem_nil, or_false] at hm
  rcases hm with rfl | rfl | rfl | rfl | rfl | rfl | rfl | rfl
  · exact c.model.proper_toJson
  · exact Numeral.proper_ofNat _
  · exact Numeral.proper_ofNat _
  · exact Numeral.proper_ofNat _
  · exact Numeral.proper_ofNat _
  · exact Numeral.proper_ofNat _
  · cases c.discretization <;> trivial
  · cases c.initialOverride with
    | none => trivial
    | some n => exact Numeral.proper_ofNat n

/-- A model that is nested too deep keeps the configuration from being read. -/
theorem ofJson?_toJson_of_deep (h : ¬ c.model.height ≤ Json.nestingLimit - 1) :
    ofJson? c.toJson = none := by
  have hmodel : ModelKind.ofJson? 1 c.model.toJson = none := by
    rw [ModelKind.ofJson?, if_neg fun hsound => h (c.model.height_le_of_isSound hsound)]
  rw [toJson, ofJson?, Json.fields?_of_known (by simp [fieldNames]) (by simp)]
  simp [Json.withDefault, hmodel]

/-- **What is written is read as the same configuration, unless its model is nested too deep.** -/
theorem parse?_compact (hc : c.Fits) :
    parse? c.toJson.compact = if c.model.height ≤ Json.nestingLimit - 1 then some c else none := by
  rw [parse?, Json.read?_compact c.proper_toJson, Option.bind_some]
  by_cases h : c.model.height ≤ Json.nestingLimit - 1
  · rw [if_pos h]
    have hself : Json.Arranges fieldNames
        ((c.membersWith c.model.toJson).filter fun m => m.1 ∉ ([] : List String))
        (c.membersWith c.model.toJson) := by
      rw [List.filter_eq_self.mpr (by simp)]
      exact Json.arranges_self (by simp [membersWith, fieldNames])
    exact ofJson?_of_arranged hc (ModelKind.written_toJson c.model hc.model h) hself
  · rw [if_neg h]
    exact ofJson?_toJson_of_deep h

/-- **A configuration comes back from every text of its members, in any order and with any others among
them, but for the fields that are left out.**  This goes as deep as texts are read. -/
theorem any_arrangement_decodes (hc : c.Fits) :
    (∀ (model : Json) (left : List String) (members : List (String × Json)) (text : String),
      c.model.Written (Json.nestingLimit - 1) model →
      Json.Arranges fieldNames ((c.membersWith model).filter fun m => m.1 ∉ left) members →
      Json.read? text = some (.ofMembers members) → parse? text = some (c.restore left)) ∧
    parse? c.toJson.compact
      = if c.model.height ≤ Json.nestingLimit - 1 then some c else none := by
  refine ⟨?_, parse?_compact hc⟩
  intro model left members text hmodel hmembers htext
  rw [parse?, htext, Option.bind_some]
  exact ofJson?_of_arranged hc hmodel hmembers

/-- A configuration with an ensemble of an empty ensemble and two other models. -/
def sample : EngineConfig :=
  { standard with
    model := .ensemble [.ensemble [], .linear none, .rules 1400]
    minMtu := 1000, maxMtu := 4000, initialOverride := some 1300 }

/-- The model of it, with every tag behind the other members. -/
def sampleModel : Json :=
  .ofMembers
    [("members", .array
      [.ofMembers [("members", .array []), ("type", .ofString "ensemble")],
        .ofMembers [("artifact", .null), ("type", .ofString "linear_regression")],
        .ofMembers [("base_mtu", .ofNat 1400), ("type", .ofString "rule_based")]]),
      ("type", .ofString "ensemble")]

theorem written_sampleModel : sample.model.Written (Json.nestingLimit - 1) sampleModel := by
  have hswap {room : Nat} {tag : ModelKind.Tag} {name : String} {v : Json}
      (hname : ModelKind.fieldsOf tag = [name]) :
      ModelKind.Tagged room tag [(name, v)] [(name, v), ("type", .ofString tag.name)] := by
    refine ⟨(Json.arranges_self ?_).trans (.swap _ _ _), ?_⟩
    · simp [hname]
    · simp [hname]
  show ModelKind.Written 126 _ _
  exact .ensemble (.cons (.ensemble .nil (hswap rfl)) (.cons (.linear (hswap rfl))
    (.cons (.rules (by decide) (hswap rfl)) .nil))) (hswap rfl)

/-- Some of the members, in the opposite order, with a note on top. -/
def sampleMembers : List (String × Json) :=
  [("note", .ofString "office"), ("initial_override", .ofNat 1300), ("max_mtu", .ofNat 4000),
    ("model", sampleModel)]

theorem sample_decodes :
    sample.Fits ∧ sample.model.height = 4 ∧
    parse? sample.toJson.compact = some sample ∧
    parse? (Json.ofMembers sampleMembers).compact = some { sample with minMtu := standard.minMtu } := by
  have hfits : sample.Fits := by
    refine ⟨?_, by decide, by decide, by decide, by decide, by decide, ?_⟩
    · exact ⟨trivial, trivial, (by decide : 1400 ≤ largestCount), trivial⟩
    · rintro n ⟨⟩
      decide
  have hmembers : Json.Arranges fieldNames ((sample.membersWith sampleModel).filter fun m =>
      m.1 ∉ ["min_mtu", "default_mtu", "history_capacity", "prediction_interval_ms",
        "discretization"]) sampleMembers :=
    List.reverse_perm [("model", sampleModel), ("max_mtu", .ofNat 4000),
      ("initial_override", .ofNat 1300)]
  have hproper : (Json.ofMembers sampleMembers).Proper := by
    simp [sampleMembers, sampleModel, Json.ofMembers, Json.Proper, Json.MembersProper,
      Json.AllProper, Json.ofString, Json.ofNat, Numeral.proper_ofNat]
  obtain ⟨harranged, hself⟩ := any_arrangement_decodes hfits
  refine ⟨hfits, rfl, ?_, ?_⟩
  · rw [hself, if_pos (by decide)]
  · exact harranged _ _ _ _ written_sampleModel hmembers (Json.read?_compact hproper)

end EngineConfig

end AdaptiveMtu
