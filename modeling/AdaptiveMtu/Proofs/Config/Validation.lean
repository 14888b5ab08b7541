/-
Which configurations are acceptable, and which are loaded.

Validating refuses numbers, and building an engine moves them to the nearest place that they may have;
neither looks at what the other does.  Both draw the same line among the configurations whose history finds
room in memory: what is acceptable is what an engine takes as it stands, with a time between
predictions besides, of which an engine knows nothing.  Validating does not look at the size of a history
either, so what is acceptable may still be too large for any engine.  A configuration is loaded from the
defaults or from a file that is acceptable by itself, the command line takes precedence for three of its
fields, and then it is validated once more.
-/
import AdaptiveMtu.CommandLine.Load
import AdaptiveMtu.Proofs.Engine.Creation
import AdaptiveMtu.Proofs.Json.Fields
import AdaptiveMtu.Proofs.Json.Reading

namespace AdaptiveMtu

/-! ### What is acceptable -/

namespace EngineConfig

variable {c : EngineConfig}

theorem validate_eq_ok_iff :
    c.validate = .ok () ↔
      (smallestMtu ≤ c.minMtu ∧ c.minMtu ≤ c.maxMtu ∧ c.maxMtu ≤ largestMtu) ∧
      (c.minMtu ≤ c.defaultMtu ∧ c.defaultMtu ≤ c.maxMtu) ∧ 0 < c.historyCapacity ∧
      0 < c.intervalMs := by
  unfold validate
  split_ifs with hrange hcrossed hdefault hcapacity hinterval
  all_goals
    simp only [Bool.or_eq_true, decide_eq_true_eq, false_iff, true_iff] at *
    omega

/-- **What is acceptable is what an engine takes as it stands.** -/
theorem validate_iff_keepsNumbers {σ : Type} (model : σ) :
    c.validate = .ok () ↔ (Engine.withModel c model).KeepsNumbers c ∧ 0 < c.intervalMs := by
  rw [validate_eq_ok_iff, Engine.keepsNumbers_iff]
  simp only [and_assoc]

/-- **If there is room for the history, what is acceptable is what the engine that is made has as it stands.** -/
theorem validate_iff_created {σ : Type} (memory : Memory) (model : σ) :
    (c.validate = .ok () ∧ memory.HasRoom c.historyCapacity) ↔
      ∃ e, Engine.create memory c model = .ok e ∧ e.KeepsNumbers c ∧ 0 < c.intervalMs := by
  rw [validate_iff_keepsNumbers model]
  constructor
  · rintro ⟨⟨hkeeps, hinterval⟩, hroom⟩
    exact ⟨_, Engine.create_eq_ok_iff.mpr ⟨hroom, rfl⟩, hkeeps, hinterval⟩
  · rintro ⟨e, hmade, hkeeps, hinterval⟩
    obtain ⟨hroom, rfl⟩ := Engine.create_eq_ok_iff.mp hmade
    exact ⟨⟨hkeeps, hinterval⟩, hroom⟩

theorem reflects_of_validate (h : c.validate = .ok ()) (χ : Type) (read : TextReader) :
    (Engine.ofConfig read c : Engine (Model χ)).Reflects read c where
  toKeepsNumbers := ((validate_iff_keepsNumbers _).mp h).1
  gate := OverrideGate.value_ofOption c.initialOverride
  discretization := rfl
  model := rfl

/-- Of an acceptable configuration, the engine has everything that it says, if there is room for the history. -/
theorem hasRoom_iff_reflected (h : c.validate = .ok ()) (memory : Memory) (χ : Type)
    (read : TextReader) :
    memory.HasRoom c.historyCapacity ↔
      ∃ e : Engine (Model χ), Engine.createFrom memory read c = .ok e ∧ e.Reflects read c := by
  constructor
  · intro hroom
    exact ⟨_, Engine.create_eq_ok_iff.mpr ⟨hroom, rfl⟩, reflects_of_validate h χ read⟩
  · rintro ⟨e, hmade, -⟩
    exact (Engine.create_eq_ok_iff.mp hmade).1

/-! ### Configurations in files -/

/-- Every field is read from what is given for it, or has its default. -/
structure ReadFrom (field : String → Option Json) (c : EngineConfig) : Prop where
  model : Json.Settles (ModelKind.ofJson? 1) standard.model (field "model") c.model
  minMtu : Json.Settles Json.toCount? standard.minMtu (field "min_mtu") c.minMtu
  maxMtu : Json.Settles Json.toCount? standard.maxMtu (field "max_mtu") c.maxMtu
  defaultMtu : Json.Settles Json.toCount? standard.defaultMtu (field "default_mtu") c.defaultMtu
  historyCapacity :
    Json.Settles Json.toCount? standard.historyCapacity (field "history_capacity") c.historyCapacity
  intervalMs :
    Json.Settles Json.toCount? standard.intervalMs (field "prediction_interval_ms") c.intervalMs
  discretization : Json.Settles Discretization.ofJson? standard.discretization
    (field "discretization") c.discretization
  initialOverride : Json.Settles (Json.optional (Json.toNat? wordLimit)) standard.initialOverride
    (field "initial_override") c.initialOverride

theorem ReadFrom.congr {field field' : String → Option Json} (h : ReadFrom field c)
    (hsame : ∀ name ∈ fieldNames, field name = field' name) : ReadFrom field' c where
  model := hsame "model" (by simp [fieldNames]) ▸ h.model
  minMtu := hsame "min_mtu" (by simp [fieldNames]) ▸ h.minMtu
  maxMtu := hsame "max_mtu" (by simp [fieldNames]) ▸ h.maxMtu
  defaultMtu := hsame "default_mtu" (by simp [fieldNames]) ▸ h.defaultMtu
  historyCapacity := hsame "history_capacity" (by simp [fieldNames]) ▸ h.historyCapacity
  intervalMs := hsame "prediction_interval_ms" (by simp [fieldNames]) ▸ h.intervalMs
  discretization := hsame "discretization" (by simp [fieldNames]) ▸ h.discretization
  initialOverride := hsame "initial_override" (by simp [fieldNames]) ▸ h.initialOverride

theorem ofJson?_eq_some_iff {v : Json} :
    ofJson? v = some c ↔ ∃ field, v.Gives fieldNames field ∧ ReadFrom field c := by
  have hfields : ofJson? v = some c ↔
      ∃ kept, v.fields? fieldNames = some kept ∧ ReadFrom (kept.lookup ·) c := by
    simp only [ofJson?, Option.bind_eq_bind, Option.bind_eq_some_iff, Json.withDefault_eq_some_iff]
    constructor
    · rintro ⟨kept, hkept, model, hmodel, min, hmin, max, hmax, default, hdefault, capacity,
        hcapacity, interval, hinterval, discretization, hdiscretization, override, hoverride, hc⟩
      rw [← Option.some.inj hc]
      exact ⟨kept, hkept, hmodel, hmin, hmax, hdefault, hcapacity, hinterval, hdiscretization,
        hoverride⟩
    · rintro ⟨kept, hkept, h⟩
      exact ⟨kept, hkept, _, h.model, _, h.minMtu, _, h.maxMtu, _, h.defaultMtu, _,
        h.historyCapacity, _, h.intervalMs, _, h.discretization, _, h.initialOverride, rfl⟩
  rw [hfields]
  constructor
  · rintro ⟨kept, hkept, hread⟩
    obtain ⟨field, hgives, hfield⟩ := Json.gives_of_fields? hkept
    exact ⟨field, hgives, hread.congr hfield⟩
  · rintro ⟨field, hgives, hread⟩
    obtain ⟨kept, hkept, hfield⟩ := hgives.fields?
    exact ⟨kept, hkept, hread.congr fun name hname => (hfield name hname).symm⟩

/-- The text is a configuration, of which it may leave fields out. -/
inductive Spelled (text : String) (c : EngineConfig) : Prop where
  | intro {v : Json} {field : String → Option Json} (hv : v.SpelledAs text)
      (hgives : v.Gives fieldNames field) (hread : ReadFrom field c)

theorem parse?_eq_some_iff {text : String} : parse? text = some c ↔ Spelled text c := by
  simp only [parse?, Option.bind_eq_some_iff, Json.read?_eq_some_iff, ofJson?_eq_some_iff]
  constructor
  · rintro ⟨v, hv, field, hgives, hread⟩
    exact ⟨hv, hgives, hread⟩
  · rintro ⟨hv, hgives, hread⟩
    exact ⟨_, hv, _, hgives, hread⟩

theorem load_eq_ok_iff {read : TextReader} {path : String} :
    load read path = .ok c ↔ ∃ text, read path = .ok text ∧ Spelled text c ∧ c.validate = .ok () := by
  simp only [load, bind_eq_ok_iff, mapError_eq_ok_iff, ← parse?_eq_some_iff]
  refine exists_congr fun text => and_congr_right fun _ => ?_
  cases parse? text with
  | none => simp
  | some config =>
      simp only [bind_eq_ok_iff, mapError_eq_ok_iff, Option.some.injEq]
      constructor
      · rintro ⟨_, hvalid, hconfig⟩
        obtain rfl := Except.ok.inj hconfig
        exact ⟨rfl, hvalid⟩
      · rintro ⟨rfl, hvalid⟩
        exact ⟨(), hvalid, rfl⟩

end EngineConfig

/-! ### The command line -/

namespace Options

variable {o : Options} {read : TextReader} {c base : EngineConfig}

/-- What the command line takes precedence over. -/
inductive Starts (o : Options) (read : TextReader) : EngineConfig → Prop where
  | standard (hconfig : o.config = none) : Starts o read .standard
  | file {path text : String} {base : EngineConfig} (hconfig : o.config = some path)
      (htext : read path = .ok text) (hspelled : EngineConfig.Spelled text base)
      (hvalid : base.validate = .ok ()) : Starts o read base

/-- The model, the interval and the override are those of the command line where it gives them; all other
fields are those of the base. -/
structure Merges (o : Options) (base c : EngineConfig) : Prop where
  model : c.model = o.model.getD base.model
  intervalMs : c.intervalMs = o.intervalMs.getD base.intervalMs
  initialOverride : c.initialOverride = o.overrideMtu.or base.initialOverride
  minMtu : c.minMtu = base.minMtu
  maxMtu : c.maxMtu = base.maxMtu
  defaultMtu : c.defaultMtu = base.defaultMtu
  historyCapacity : c.historyCapacity = base.historyCapacity
  discretization : c.discretization = base.discretization

theorem merges_iff : o.Merges base c ↔ c = o.applyTo base := by
  constructor
  · rintro ⟨hmodel, hinterval, hoverride, hmin, hmax, hdefault, hcapacity, hdiscretization⟩
    obtain ⟨model, min, max, default, capacity, interval, discretization, override⟩ := c
    dsimp only at *
    subst_vars
    rfl
  · rintro rfl
    exact ⟨rfl, rfl, rfl, rfl, rfl, rfl, rfl, rfl⟩

theorem baseConfig_eq_ok_iff : o.baseConfig read = .ok base ↔ o.Starts read base := by
  unfold baseConfig
  cases hconfig : o.config with
  | none =>
      refine ⟨fun h => ?_, fun h => ?_⟩
      · obtain rfl := Except.ok.inj h
        exact .standard hconfig
      · cases h with
        | standard => rfl
        | file hfile => rw [hconfig] at hfile; cases hfile
  | some path =>
      refine mapError_eq_ok_iff.trans (EngineConfig.load_eq_ok_iff.trans ⟨?_, fun h => ?_⟩)
      · rintro ⟨text, htext, hspelled, hvalid⟩
        exact .file hconfig htext hspelled hvalid
      · cases h with
        | standard hnone => rw [hconfig] at hnone; cases hnone
        | @file path' text _ hfile htext hspelled hvalid =>
            rw [hconfig] at hfile
            cases hfile
            exact ⟨text, htext, hspelled, hvalid⟩

/-- What is loaded is validated after the command line took precedence. -/
theorem loadConfig_eq_ok_iff :
    o.loadConfig read = .ok c ↔
      ∃ base, o.Starts read base ∧ o.Merges base c ∧ c.validate = .ok () := by
  simp only [loadConfig, bind_eq_ok_iff, mapError_eq_ok_iff, ← baseConfig_eq_ok_iff, merges_iff]
  refine exists_congr fun base => and_congr_right fun _ => ?_
  constructor
  · rintro ⟨_, hvalid, hconfig⟩
    obtain rfl := Except.ok.inj hconfig
    exact ⟨rfl, hvalid⟩
  · rintro ⟨rfl, hvalid⟩
    exact ⟨(), hvalid, rfl⟩

end Options

/-- **A configuration is acceptable and its history finds room exactly if an engine is made that has its
numbers as they stand, and its interval is not zero.**  An engine is not made exactly if the history does not
find room.  What is loaded is a base, which is the defaults or what a file says and is acceptable by
itself, with the model, the interval and the override of the command line where it gives them; it is
acceptable, and if there is room for its history an engine is made that has everything that it says. -/
theorem validation_agrees_with_construction (memory : Memory) :
    (∀ (σ : Type) (model : σ) (c : EngineConfig),
      ((c.validate = .ok () ∧ memory.HasRoom c.historyCapacity) ↔
        ∃ e, Engine.create memory c model = .ok e ∧ e.KeepsNumbers c ∧ 0 < c.intervalMs) ∧
      ∀ abort, Engine.create memory c model = .error abort ↔
        memory.Refuses c.historyCapacity abort) ∧
    (∀ (o : Options) (read : TextReader) (c : EngineConfig),
      o.loadConfig read = .ok c ↔
        ∃ base, o.Starts read base ∧ o.Merges base c ∧ c.validate = .ok ()) ∧
    (∀ (o : Options) (read : TextReader) (c : EngineConfig), o.loadConfig read = .ok c →
      c.validate = .ok () ∧
        ∀ (χ : Type) (artifacts : TextReader), memory.HasRoom c.historyCapacity ↔
          ∃ e : Engine (Model χ), Engine.createFrom memory artifacts c = .ok e ∧
            e.Reflects artifacts c) := by
  refine ⟨fun σ model c => ⟨EngineConfig.validate_iff_created memory model,
    fun abort => Engine.create_eq_error_iff⟩, fun o read c => Options.loadConfig_eq_ok_iff,
    fun o read c hload => ?_⟩
  obtain ⟨base, -, -, hvalid⟩ := Options.loadConfig_eq_ok_iff.mp hload
  exact ⟨hvalid, fun χ artifacts => EngineConfig.hasRoom_iff_reflected hvalid memory χ artifacts⟩

/-- A file with narrower bounds. -/
def narrowFile : String := "\x7b\"min_mtu\":1200,\"max_mtu\":4000\x7d"

/-- Options that name it and take precedence over three fields. -/
def preciseOptions : Options :=
  { Options.unset with
    config := some "engine.json"
    model := some .decision
    intervalMs := some 250
    overrideMtu := some 1500 }

/-- What these come to. -/
def preciseConfig : EngineConfig where
  model := .decision
  minMtu := 1200
  maxMtu := 4000
  defaultMtu := fallbackMtu
  historyCapacity := 1000
  intervalMs := 250
  discretization := .nearestHundred
  initialOverride := some 1500

theorem spelled_narrowFile :
    EngineConfig.Spelled narrowFile { EngineConfig.standard with minMtu := 1200, maxMtu := 4000 } := by
  have htext : narrowFile.toList
      = Json.compactChars (.ofMembers [("min_mtu", .ofNat 1200), ("max_mtu", .ofNat 4000)]) := by
    decide
  have hspelled : (Json.ofMembers [("min_mtu", .ofNat 1200), ("max_mtu", .ofNat 4000)]).SpelledAs
      narrowFile :=
    Json.spelledAs_of_compactChars htext ⟨Numeral.proper_ofNat 1200, Numeral.proper_ofNat 4000, trivial⟩
  refine ⟨hspelled, .named (by decide), ?_⟩
  exact ⟨.missing, .given (Json.toCount?_ofNat (by decide)), .given (Json.toCount?_ofNat (by decide)),
    .missing, .missing, .missing, .missing, .missing⟩

/-- The options are loaded with the narrow bounds of the file, there is room for a thousand records, and the
engine has all of it. -/
theorem precise_options_load :
    preciseOptions.loadConfig (fun _ => .ok narrowFile) = .ok preciseConfig ∧
    preciseConfig.validate = .ok () ∧ Memory.addressable.HasRoom preciseConfig.historyCapacity ∧
    ∃ e : Engine (Model Unit),
      Engine.createFrom .addressable (fun _ => .error .notFound) preciseConfig = .ok e ∧
        e.Reflects (fun _ => .error .notFound) preciseConfig := by
  have hload : preciseOptions.loadConfig (fun _ => .ok narrowFile) = .ok preciseConfig :=
    Options.loadConfig_eq_ok_iff.mpr ⟨_, .file rfl rfl spelled_narrowFile rfl,
      ⟨rfl, rfl, rfl, rfl, rfl, rfl, rfl, rfl⟩, rfl⟩
  have hroom : Memory.addressable.HasRoom preciseConfig.historyCapacity := ⟨by decide, by decide⟩
  obtain ⟨hvalid, hreflects⟩ :=
    (validation_agrees_with_construction .addressable).2.2 _ _ _ hload
  exact ⟨hload, hvalid, hroom, (hreflects Unit fun _ => .error .notFound).mp hroom⟩

/-- The defaults, but for a history of the largest capacity. -/
def vastConfig : EngineConfig := { EngineConfig.standard with historyCapacity := largestCount }

/-- A file that asks for this history. -/
def vastFile : String := "\x7b\"history_capacity\":18446744073709551615\x7d"

theorem spelled_vastFile : EngineConfig.Spelled vastFile vastConfig := by
  have htext : vastFile.toList
      = Json.compactChars (.ofMembers [("history_capacity", .ofNat largestCount)]) := by decide
  have hspelled : (Json.ofMembers [("history_capacity", .ofNat largestCount)]).SpelledAs vastFile :=
    Json.spelledAs_of_compactChars htext ⟨Numeral.proper_ofNat largestCount, trivial⟩
  refine ⟨hspelled, .named (by decide), ?_⟩
  exact ⟨.missing, .missing, .missing, .missing, .given (Json.toCount?_ofNat (by decide)), .missing,
    .missing, .missing⟩

/-- The file is loaded and acceptable, and no machine makes an engine of it. -/
theorem vast_history_is_never_made :
    { Options.unset with config := some "engine.json" }.loadConfig (fun _ => .ok vastFile)
        = .ok vastConfig ∧
    vastConfig.validate = .ok () ∧
    ∀ memory, (Engine.createFrom memory (fun _ => .error .notFound) vastConfig :
      Except Abort (Engine (Model Unit))) = .error .capacityOverflow := by
  refine ⟨Options.loadConfig_eq_ok_iff.mpr ⟨_, .file rfl rfl spelled_vastFile rfl,
    ⟨rfl, rfl, rfl, rfl, rfl, rfl, rfl, rfl⟩, rfl⟩, rfl, fun memory => ?_⟩
  have hlarge : Memory.largestBlock < largestCount := by decide
  exact Engine.create_eq_error_iff.mpr
    (.overflow (hlarge.trans_le (memory.le_historyBytes largestCount)))

end AdaptiveMtu
