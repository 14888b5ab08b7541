/-
Which artifacts are accepted, and why the others are not.

A file passes three gates: its bytes are a text, the text is a way of writing a value that describes an
artifact, and of the artifact there are nine weights and a rate above zero.  Every number of a text is
finite, so no artifact is refused for a weight that is not.
-/
import AdaptiveMtu.Proofs.Json.Fields
import AdaptiveMtu.Proofs.Json.Reading
import AdaptiveMtu.Proofs.Linear.Starting
import AdaptiveMtu.Proofs.Storage.Directory

namespace AdaptiveMtu

namespace Artifact

open Json (ReadsAs ListsNumbers valuesOf)

/-! ### What describes an artifact -/

/-- What a learning rate is given as; it may be missing, and `null` counts as missing. -/
inductive RateFrom : Option Json → Option Float → Prop where
  | missing : RateFrom none none
  | null : RateFrom (some .null) none
  | number {v : Json} {x : Float} (h : v.ReadsAs x) : RateFrom (some v) (some x)

/-- The value describes the artifact: an object with one member for the weights, at most one for the rate,
and any others whose names denote texts, or an array of the weights and perhaps the rate. -/
inductive Describes : Json → Artifact → Prop where
  | named {members : List (String × Json)} {w : Json} {r : Option Json} {ws : List Float}
      {rate : Option Float} (hweights : valuesOf members "weights" = [w])
      (hrate : valuesOf members "learning_rate" = r.toList) (hw : w.ListsNumbers ws)
      (hr : RateFrom r rate) : Describes (.ofMembers members) ⟨ws, rate⟩
  | listed {w : Json} {r : Option Json} {ws : List Float} {rate : Option Float}
      (hw : w.ListsNumbers ws) (hr : RateFrom r rate) : Describes (.array (w :: r.toList)) ⟨ws, rate⟩

variable {v : Json} {a : Artifact} {text : String}

theorem rateFrom_iff {r : Option Json} {rate : Option Float} :
    Json.Settles (Json.optional Json.toFloat?) none r rate ↔ RateFrom r rate := by
  constructor
  · intro h
    cases h with
    | missing => exact .missing
    | @given v _ h =>
        cases v with
        | null =>
            cases h
            exact .null
        | number n =>
            obtain ⟨x, hx, rfl⟩ := Option.map_eq_some_iff.mp h
            exact .number (.number hx)
        | _ => cases h
  · intro h
    cases h with
    | missing => exact .missing
    | null => exact .given rfl
    | number h =>
        obtain ⟨h⟩ := h
        exact .given (Option.map_eq_some_iff.mpr ⟨_, h, rfl⟩)

/-- An artifact is read from the fields that a value gives. -/
theorem ofJson?_eq_some_iff_gives :
    ofJson? v = some a ↔ ∃ field w, v.Gives ["weights", "learning_rate"] field ∧
      field "weights" = some w ∧ w.ListsNumbers a.weights ∧
      RateFrom (field "learning_rate") a.rate := by
  have hfirst : "weights" ∈ ["weights", "learning_rate"] := by simp
  have hsecond : "learning_rate" ∈ ["weights", "learning_rate"] := by simp
  constructor
  · intro h
    obtain ⟨kept, hkept, h⟩ := Option.bind_eq_some_iff.mp h
    obtain ⟨ws, hws, h⟩ := Option.bind_eq_some_iff.mp h
    obtain ⟨rate, hrate, h⟩ := Option.bind_eq_some_iff.mp h
    obtain rfl := Option.some.inj h
    obtain ⟨field, hgives, hfield⟩ := Json.gives_of_fields? hkept
    obtain ⟨w, hw, hlist⟩ := Option.bind_eq_some_iff.mp hws
    rw [Json.withDefault_eq_some_iff, rateFrom_iff, hfield _ hsecond] at hrate
    rw [hfield _ hfirst] at hw
    exact ⟨field, w, hgives, hw, Json.toNumbers?_eq_some_iff.mp hlist, hrate⟩
  · rintro ⟨field, w, hgives, hw, hlist, hrate⟩
    obtain ⟨kept, hkept, hfield⟩ := hgives.fields?
    rw [← hfield _ hsecond, ← rateFrom_iff, ← Json.withDefault_eq_some_iff] at hrate
    rw [← hfield _ hfirst] at hw
    have hweights : Json.required kept "weights" (fun w => w.toList?.bind (·.mapM Json.toFloat?))
        = some a.weights :=
      Option.bind_eq_some_iff.mpr ⟨w, hw, Json.toNumbers?_eq_some_iff.mpr hlist⟩
    simp only [ofJson?, hkept, hweights, hrate, Option.bind_eq_bind, Option.bind_some]
    rfl

/-- **An artifact is read from the values that describe it.** -/
theorem ofJson?_eq_some_iff : ofJson? v = some a ↔ Describes v a := by
  rw [ofJson?_eq_some_iff_gives]
  constructor
  · rintro ⟨field, w, hgives, hw, hlist, hrate⟩
    cases hgives with
    | @named members honce =>
        have hweights : valuesOf members "weights" = [w] := by
          have hhead : (valuesOf members "weights").head? = some w := hw
          rw [eq_toList_head? (honce "weights" (by simp)), hhead, Option.toList_some]
        exact .named hweights (eq_toList_head? (honce "learning_rate" (by simp))) hlist hrate
    | @listed elements hlength =>
        match elements, hlength with
        | [], _ => cases hw
        | [u], _ =>
            cases hw
            exact .listed (r := none) hlist hrate
        | [u, r], _ =>
            cases hw
            exact .listed (r := some r) hlist hrate
        | _ :: _ :: _ :: _, hlength => simp at hlength
  · intro h
    cases h with
    | @named members w r ws rate hweights hrate hw hr =>
        refine ⟨_, w, .named fun name hname => ?_, ?_, hw, ?_⟩
        · rcases List.mem_cons.mp hname with rfl | hname
          · rw [hweights]
            exact le_rfl
          · rw [List.mem_singleton.mp hname, hrate]
            cases r <;> simp
        · rw [hweights]
          rfl
        · rw [hrate]
          cases r <;> exact hr
    | @listed w r ws rate hw hr =>
        refine ⟨_, w, .listed ?_, ?_, hw, ?_⟩
        · cases r <;> simp
        · cases r <;> rfl
        · cases r <;> exact hr

theorem parse?_eq_some_iff :
    parse? text = some a ↔ ∃ v, v.SpelledAs text ∧ Describes v a := by
  simp only [parse?, Option.bind_eq_some_iff, Json.read?_eq_some_iff, ofJson?_eq_some_iff]

/-! ### What becomes of an artifact -/

theorem Describes.weights_finite (h : Describes v a) : ∀ x ∈ a.weights, x.isFinite = true := by
  cases h with
  | named _ _ hw _ => exact hw.isFinite
  | listed hw _ => exact hw.isFinite

theorem RateFrom.isFinite {r : Option Json} {rate : Option Float} (h : RateFrom r rate) :
    (rate.getD Learner.defaultRate).isFinite = true := by
  cases h with
  | missing => exact (Learner.sound_fresh .full).rate_finite
  | null => exact (Learner.sound_fresh .full).rate_finite
  | number h => exact h.isFinite

theorem Describes.rate_finite (h : Describes v a) :
    (a.rate.getD Learner.defaultRate).isFinite = true := by
  cases h with
  | named _ _ _ hr => exact hr.isFinite
  | listed _ hr => exact hr.isFinite

/-- With finite numbers, only the number of the weights and the sign of the rate matter. -/
theorem Describes.toLearner_eq (h : Describes v a) (bounds : MtuBounds) :
    a.toLearner bounds =
      if hcount : a.weights.length = 9 then
        if 0 < a.rate.getD Learner.defaultRate then
          .ok (Learner.withWeights ⟨a.weights, hcount⟩ (a.rate.getD Learner.defaultRate) bounds)
        else .error (.learningRate (a.rate.getD Learner.defaultRate))
      else .error (.weightCount a.weights.length) := by
  by_cases hcount : a.weights.length = 9
  · have hfinite : (Weights.mk a.weights hcount).allFinite = true :=
      List.all_eq_true.mpr h.weights_finite
    have hrate := h.rate_finite
    rw [dif_pos hcount, toLearner, Weights.ofList?, dif_pos hcount]
    by_cases hpos : 0 < a.rate.getD Learner.defaultRate
    · have hnot : ¬ a.rate.getD Learner.defaultRate ≤ 0 := fun hle => Binary64.not_lt_of_le hle hpos
      simp [hfinite, hrate, hpos, hnot]
    · have hle : a.rate.getD Learner.defaultRate ≤ 0 := by
        rw [Binary64.lt_iff Binary64.isFinite_zero hrate, not_lt] at hpos
        exact (Binary64.le_iff hrate Binary64.isFinite_zero).mpr hpos
      simp [hfinite, hpos, hle]
  · rw [dif_neg hcount, toLearner, Weights.ofList?, dif_neg hcount]

/-! ### Files -/

variable {bytes : String → Except FileFault ByteArray} {path : String} {bounds : MtuBounds}
  {m : Learner} {fault : ArtifactFault}

/-- Why a file is refused. -/
inductive Refused (path : String) (contents : Except FileFault ByteArray) : ArtifactFault → Prop where
  | unreadable {cause : FileFault} (h : contents = .error cause) :
      Refused path contents (.unreadable path cause)
  | notText {bytes : ByteArray} (h : contents = .ok bytes)
      (hnone : ∀ text : String, bytes ≠ text.toUTF8) :
      Refused path contents (.unreadable path .notText)
  | malformed {text : String} (h : contents = .ok text.toUTF8)
      (hnone : ∀ v a, v.SpelledAs text → ¬ Describes v a) : Refused path contents (.malformed path)
  | weightCount {text : String} {v : Json} {a : Artifact} (h : contents = .ok text.toUTF8)
      (hv : v.SpelledAs text) (ha : Describes v a) (hcount : a.weights.length ≠ 9) :
      Refused path contents (.weightCount a.weights.length)
  | learningRate {text : String} {v : Json} {a : Artifact} (h : contents = .ok text.toUTF8)
      (hv : v.SpelledAs text) (ha : Describes v a) (hcount : a.weights.length = 9)
      (hrate : ¬ 0 < a.rate.getD Learner.defaultRate) :
      Refused path contents (.learningRate (a.rate.getD Learner.defaultRate))

theorem load_of_text (h : bytes path = .ok text.toUTF8) :
    load (.ofBytes bytes) path bounds
      = (parse? text).elim (.error (.malformed path)) (toLearner · bounds) := by
  have hread : TextReader.ofBytes bytes path = .ok text := by
    rw [TextReader.ofBytes, h]
    exact decodeText_toUTF8 text
  simp only [load, hread]
  cases parse? text <;> rfl

/-- A file is accepted for what its text describes. -/
theorem load_eq_ok (h : bytes path = .ok text.toUTF8) (hv : v.SpelledAs text) (ha : Describes v a)
    (hcount : a.weights.length = 9) (hrate : 0 < a.rate.getD Learner.defaultRate) :
    load (.ofBytes bytes) path bounds
      = .ok (Learner.withWeights ⟨a.weights, hcount⟩ (a.rate.getD Learner.defaultRate) bounds) := by
  rw [load_of_text h, parse?_eq_some_iff.mpr ⟨v, hv, ha⟩, Option.elim_some, ha.toLearner_eq,
    dif_pos hcount, if_pos hrate]

/-- A file is refused for any of the reasons. -/
theorem Refused.load_eq (h : Refused path (bytes path) fault) :
    load (.ofBytes bytes) path bounds = .error fault := by
  cases h with
  | unreadable h =>
      rw [load, TextReader.ofBytes, h]
      rfl
  | notText h hnone =>
      have hdecoded := decodeText_eq_error_iff.mpr ⟨rfl, hnone⟩
      rw [load, TextReader.ofBytes, h, Except.bind, hdecoded]
  | malformed h hnone =>
      rw [load_of_text h]
      cases hparse : parse? _ with
      | none => rfl
      | some a =>
          obtain ⟨v, hv, ha⟩ := parse?_eq_some_iff.mp hparse
          exact absurd ha (hnone v a hv)
  | weightCount h hv ha hcount =>
      rw [load_of_text h, parse?_eq_some_iff.mpr ⟨_, hv, ha⟩, Option.elim_some, ha.toLearner_eq,
        dif_neg hcount]
  | learningRate h hv ha hcount hrate =>
      rw [load_of_text h, parse?_eq_some_iff.mpr ⟨_, hv, ha⟩, Option.elim_some, ha.toLearner_eq,
        dif_pos hcount, if_neg hrate]

/-- A file that is not refused is accepted. -/
theorem refused_or_described (bytes : String → Except FileFault ByteArray) (path : String) :
    (∃ fault, Refused path (bytes path) fault) ∨
      ∃ text v a, bytes path = .ok text.toUTF8 ∧ v.SpelledAs text ∧ Describes v a ∧
        a.weights.length = 9 ∧ 0 < a.rate.getD Learner.defaultRate := by
  cases hcontents : bytes path with
  | error cause => exact .inl ⟨_, .unreadable rfl⟩
  | ok found =>
      by_cases htext : ∃ text : String, found = text.toUTF8
      · obtain ⟨text, rfl⟩ := htext
        by_cases hdescribed : ∃ v a, v.SpelledAs text ∧ Describes v a
        · obtain ⟨v, a, hv, ha⟩ := hdescribed
          by_cases hcount : a.weights.length = 9
          · by_cases hrate : 0 < a.rate.getD Learner.defaultRate
            · exact .inr ⟨text, v, a, rfl, hv, ha, hcount, hrate⟩
            · exact .inl ⟨_, .learningRate rfl hv ha hcount hrate⟩
          · exact .inl ⟨_, .weightCount rfl hv ha hcount⟩
        · exact .inl ⟨_, .malformed rfl fun v a hv ha => hdescribed ⟨v, a, hv, ha⟩⟩
      · exact .inl ⟨_, .notText rfl fun text h => htext ⟨text, h⟩⟩

/-- **A file is accepted exactly if its bytes are a text that describes nine weights and a rate above zero**,
and the model then has these weights, this rate and no samples; every other file is refused, and why is told
by the first gate that it does not pass. -/
theorem load_accepts_exactly (bytes : String → Except FileFault ByteArray) (path : String)
    (bounds : MtuBounds) :
    (∀ m, load (.ofBytes bytes) path bounds = .ok m ↔
      ∃ text v a, bytes path = .ok text.toUTF8 ∧ v.SpelledAs text ∧ Describes v a ∧
        a.weights.length = 9 ∧ 0 < a.rate.getD Learner.defaultRate ∧
        m.weights.toList = a.weights ∧ m.rate = a.rate.getD Learner.defaultRate ∧
        m.bounds = bounds ∧ m.samples = .empty Learner.memory) ∧
    (∀ fault, load (.ofBytes bytes) path bounds = .error fault ↔
      Refused path (bytes path) fault) := by
  constructor
  · intro m
    constructor
    · intro hload
      rcases refused_or_described bytes path with ⟨fault, hrefused⟩ |
        ⟨text, v, a, htext, hv, ha, hcount, hrate⟩
      · rw [hrefused.load_eq] at hload
        cases hload
      · rw [load_eq_ok htext hv ha hcount hrate] at hload
        cases hload
        exact ⟨text, v, a, htext, hv, ha, hcount, hrate, rfl, rfl, rfl, rfl⟩
    · rintro ⟨text, v, a, htext, hv, ha, hcount, hrate, hweights, hmrate, hbounds, hsamples⟩
      rw [load_eq_ok htext hv ha hcount hrate]
      obtain ⟨⟨ws, hlength⟩, rate, mbounds, samples⟩ := m
      obtain rfl : ws = a.weights := hweights
      obtain rfl : rate = a.rate.getD Learner.defaultRate := hmrate
      obtain rfl : mbounds = bounds := hbounds
      obtain rfl : samples = .empty Learner.memory := hsamples
      rfl
  · intro fault
    refine ⟨fun hload => ?_, fun h => h.load_eq⟩
    rcases refused_or_described bytes path with ⟨other, hrefused⟩ |
      ⟨text, v, a, htext, hv, ha, hcount, hrate⟩
    · rw [hrefused.load_eq] at hload
      cases hload
      exact hrefused
    · rw [load_eq_ok htext hv ha hcount hrate] at hload
      cases hload

/-! ### An array that is accepted, and an object that is not -/

/-- Nine weights of zero. -/
def noWeights : Json := .array (List.replicate 9 (.ofNat 0))

/-- Nine weights by position. -/
def listedWeights : String := "[[0,0,0,0,0,0,0,0,0]]"

/-- Nine weights by name, and an unknown member whose name is half of a surrogate pair. -/
def brokenlyNamed : String := "\x7b\"weights\":[0,0,0,0,0,0,0,0,0],\"\\ud800\":0\x7d"

theorem proper_noWeights : noWeights.Proper :=
  Json.proper_array fun _ hv => List.eq_of_mem_replicate hv ▸ Numeral.proper_ofNat 0

theorem spelledAs_listedWeights : (Json.array [noWeights]).SpelledAs listedWeights := by
  have htext : listedWeights.toList = Json.compactChars (.array [noWeights]) := by decide
  exact Json.spelledAs_of_compactChars htext ⟨proper_noWeights, trivial⟩

theorem spelledAs_brokenlyNamed :
    (Json.object [(some "weights", noWeights), (none, .ofNat 0)]).SpelledAs brokenlyNamed := by
  have htext : brokenlyNamed.toList
      = Json.compactChars (.object [(some "weights", noWeights), (none, .ofNat 0)]) := by decide
  exact Json.spelledAs_of_compactChars htext ⟨proper_noWeights, Numeral.proper_ofNat 0, trivial⟩

theorem listsNumbers_noWeights :
    noWeights.ListsNumbers (List.replicate 9 (Binary64.ofFields false 0)) := by
  have hzero : (Json.ofNat 0).ReadsAs (Binary64.ofFields false 0) := .number rfl
  have hzeros (n : Nat) : List.Forall₂ ReadsAs (List.replicate n (.ofNat 0))
      (List.replicate n (Binary64.ofFields false 0)) := by
    induction n with
    | zero => exact .nil
    | succ n ih => exact .cons hzero ih
  exact .array (hzeros 9)

/-- A text that is no object is accepted, and an object is refused that has nine weights and one more member,
for the name of that member. -/
theorem acceptance_is_not_of_objects :
    ((∃ m, load (.ofBytes fun _ => .ok listedWeights.toUTF8) "w.json" .full = .ok m) ∧
      ∀ members, ¬ (Json.object members).SpelledAs listedWeights) ∧
    ((Json.object [(some "weights", noWeights), (none, .ofNat 0)]).SpelledAs brokenlyNamed ∧
      noWeights.ListsNumbers (List.replicate 9 (Binary64.ofFields false 0)) ∧
      load (.ofBytes fun _ => .ok brokenlyNamed.toUTF8) "w.json" .full
        = .error (.malformed "w.json")) := by
  refine ⟨⟨⟨_, load_eq_ok rfl spelledAs_listedWeights (.listed (r := none) listsNumbers_noWeights
    .missing) rfl (Learner.sound_fresh .full).rate_pos⟩, fun members hobject => ?_⟩,
    spelledAs_brokenlyNamed, listsNumbers_noWeights, ?_⟩
  · cases hobject.unique spelledAs_listedWeights
  · refine Refused.load_eq (.malformed rfl fun v a hv ha => ?_)
    obtain rfl := hv.unique spelledAs_brokenlyNamed
    generalize hobject : Json.object [(some "weights", noWeights), (none, .ofNat 0)] = v at ha
    cases ha with
    | @named members =>
        have hmembers := Json.object.inj hobject
        have hmem : (none, Json.ofNat 0) ∈ members.map fun m => (some m.1, m.2) := by
          rw [← hmembers]
          simp
        obtain ⟨m, -, hm⟩ := List.mem_map.mp hmem
        cases hm
    | listed => cases hobject

end Artifact

end AdaptiveMtu
