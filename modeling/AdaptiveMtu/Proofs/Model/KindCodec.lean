/-
Written forms of kinds.

A kind can be written in many ways: its tag and its fields stand in any order, other members may stand
among them, and a field that has its default may be left out.  `Written` is the relation between kinds
and these values, with a bound on how deep a value is.  Each of them is read as the kind that it was
written for, and the value that a kind is written as is one of them if the kind is not nested deeper
than the bound.
-/
import AdaptiveMtu.Model.KindCodec
import AdaptiveMtu.Proofs.Binary64.InRange
import AdaptiveMtu.Proofs.Json.Members

namespace AdaptiveMtu

namespace ModelKind

/-! ### Tags -/

/-- The name of a tag. -/
def Tag.name : Tag → String
  | .rules => "rule_based"
  | .linear => "linear_regression"
  | .decision => "decision_heuristic"
  | .ensemble => "ensemble"

/-- The kind of a tag whose fields are all left out. -/
def Tag.bare : Tag → ModelKind
  | .rules => .rules defaultBase
  | .linear => .linear none
  | .decision => .decision
  | .ensemble => .standard

theorem tagOf?_name (inside : Bool) (tag : Tag) : tagOf? inside (.ofString tag.name) = some tag := by
  cases tag <;> rfl

theorem nodup_fieldsOf (tag : Tag) : ("type" :: fieldsOf tag).Nodup := by
  cases tag <;> decide

/-- The members are a tag and its fields in any order, among others that are sound and not too deep. -/
structure Tagged (room : Nat) (tag : Tag) (fields members : List (String × Json)) : Prop where
  arranged : Json.Arranges ("type" :: fieldsOf tag) (("type", .ofString tag.name) :: fields) members
  others : ∀ m ∈ members, m.1 ∉ "type" :: fieldsOf tag → m.2.isSound room = true

/-! ### Soundness -/

theorem allMembersSound_iff (room : Nat) (members : List (Literal × Json)) :
    Json.allMembersSound room members = true
      ↔ ∀ m ∈ members, m.1.isSome = true ∧ m.2.isSound room = true := by
  induction members with
  | nil => simp [Json.allMembersSound]
  | cons m rest ih => simp [Json.allMembersSound, ih]

theorem isSound_ofMembers (room : Nat) (members : List (String × Json)) :
    (Json.ofMembers members).isSound (room + 1) = true ↔ ∀ m ∈ members, m.2.isSound room = true := by
  show (decide (0 < room + 1) && Json.allMembersSound room _) = true ↔ _
  rw [decide_eq_true (Nat.succ_pos room), Bool.true_and, allMembersSound_iff]
  constructor
  · intro h m hm
    exact (h (some m.1, m.2) (List.mem_map_of_mem hm)).2
  · intro h m hm
    obtain ⟨named, hnamed, rfl⟩ := List.mem_map.mp hm
    exact ⟨rfl, h named hnamed⟩

theorem isSound_ofNat {n : Nat} (h : n ≤ largestCount) (room : Nat) :
    (Json.ofNat n).isSound room = true := by
  show (Numeral.ofNat n).toFloat?.isSome = true
  have hscale : (Numeral.ofNat n).scale = 0 := rfl
  have hdigits : (Numeral.ofNat n).allDigits = n := rfl
  rw [Numeral.toFloat?, hscale, hdigits]
  by_cases hzero : n = 0
  · rw [if_pos hzero]
    rfl
  · rw [if_neg hzero, if_neg (by omega), if_neg (by omega)]
    show (Binary64.ofQuotient? false (n * 1 * Binary64.unitsPerOne) 1).isSome = true
    rw [Nat.mul_one]
    exact Binary64.isSome_ofQuotient?_count h false

theorem isSound_array (room : Nat) (elements : List Json) :
    (Json.array elements).isSound (room + 1) = true ↔ Json.allSound room elements = true := by
  show (decide (0 < room + 1) && Json.allSound room elements) = true ↔ _
  rw [decide_eq_true (Nat.succ_pos room), Bool.true_and]

theorem isSound_artifact (artifact : Option String) (room : Nat) :
    (Json.ofOption Json.ofString artifact).isSound room = true := by
  cases artifact <;> rfl

theorem optional_artifact (artifact : Option String) :
    Json.optional Json.toString? (Json.ofOption Json.ofString artifact) = some artifact := by
  cases artifact <;> rfl

variable {room : Nat} {tag : Tag} {fields members : List (String × Json)}

theorem Tagged.isSound (h : Tagged room tag fields members)
    (hfields : ∀ m ∈ fields, m.2.isSound room = true) :
    (Json.ofMembers members).isSound (room + 1) = true := by
  rw [isSound_ofMembers]
  intro m hm
  by_cases hknown : m.1 ∈ "type" :: fieldsOf tag
  · rcases List.mem_cons.mp (h.arranged.mem_fields hm hknown) with rfl | hfield
    · rfl
    · exact hfields m hfield
  · exact h.others m hm hknown

/-! ### Nesting -/

mutual

/-- How many containers stand inside each other where a kind is written. -/
def height : ModelKind → Nat
  | .rules _ | .linear _ | .decision => 1
  | .ensemble members => heightOfAll members + 2

/-- How many containers stand inside each other where one of a list of kinds is written. -/
def heightOfAll : List ModelKind → Nat
  | [] => 0
  | kind :: rest => max (height kind) (heightOfAll rest)

end

mutual

/-- Every base MTU of a kind is a count. -/
def Fits : ModelKind → Prop
  | .rules base => base ≤ largestCount
  | .linear _ | .decision => True
  | .ensemble members => AllFit members

/-- Every base MTU of a list of kinds is a count. -/
def AllFit : List ModelKind → Prop
  | [] => True
  | kind :: rest => Fits kind ∧ AllFit rest

end

/-! ### Written forms -/

mutual

/-- The value is a written form of the kind, at most `room` containers deep. -/
inductive Written : (room : Nat) → ModelKind → Json → Prop where
  | bare {room : Nat} {tag : Tag} {members : List (String × Json)} (h : Tagged room tag [] members) :
      Written (room + 1) tag.bare (.ofMembers members)
  | rules {room base : Nat} {members : List (String × Json)} (hbase : base ≤ largestCount)
      (h : Tagged room .rules [("base_mtu", .ofNat base)] members) :
      Written (room + 1) (.rules base) (.ofMembers members)
  | linear {room : Nat} {artifact : Option String} {members : List (String × Json)}
      (h : Tagged room .linear [("artifact", Json.ofOption Json.ofString artifact)] members) :
      Written (room + 1) (.linear artifact) (.ofMembers members)
  | ensemble {room : Nat} {kinds : List ModelKind} {values : List Json}
      {members : List (String × Json)} (hall : WrittenAll room kinds values)
      (h : Tagged (room + 1) .ensemble [("members", .array values)] members) :
      Written (room + 2) (.ensemble kinds) (.ofMembers members)

/-- The values are written forms of the kinds, in order. -/
inductive WrittenAll : (room : Nat) → List ModelKind → List Json → Prop where
  | nil {room : Nat} : WrittenAll room [] []
  | cons {room : Nat} {kind : ModelKind} {kinds : List ModelKind} {value : Json} {values : List Json}
      (h : Written room kind value) (hrest : WrittenAll room kinds values) :
      WrittenAll room (kind :: kinds) (value :: values)

end

mutual

theorem Written.isSound {room : Nat} {kind : ModelKind} {v : Json} :
    Written room kind v → v.isSound room = true
  | .bare h => h.isSound (List.forall_mem_nil _)
  | .rules hbase h => h.isSound (List.forall_mem_singleton.mpr (isSound_ofNat hbase _))
  | .linear h => h.isSound (List.forall_mem_singleton.mpr (isSound_artifact _ _))
  | .ensemble hall h =>
      h.isSound (List.forall_mem_singleton.mpr ((isSound_array _ _).mpr hall.allSound))

theorem WrittenAll.allSound {room : Nat} {kinds : List ModelKind} {values : List Json} :
    WrittenAll room kinds values → Json.allSound room values = true
  | .nil => rfl
  | .cons h hrest => by rw [Json.allSound, h.isSound, hrest.allSound, Bool.true_and]

end

/-! ### Reading -/

theorem Tagged.arranges_tag (h : Tagged room tag fields members)
    (hnames : (fields.map (·.1)).Sublist (fieldsOf tag)) :
    Json.Arranges ["type"] [("type", .ofString tag.name)] members := by
  have hfresh : "type" ∉ fieldsOf tag := (List.nodup_cons.mp (nodup_fieldsOf tag)).1
  have hnone : (fields.filter fun m => ["type"].contains m.1) = [] := by
    rw [List.filter_eq_nil_iff]
    intro m hm
    have hfield : m.1 ∈ fieldsOf tag := hnames.subset (List.mem_map_of_mem hm)
    have hne : m.1 ≠ "type" := fun heq => hfresh (heq ▸ hfield)
    simpa using hne
  have hrestrict := h.arranged.restrict ["type"] (by simp)
  rwa [List.filter_cons_of_pos (by simp), hnone] at hrestrict

theorem Tagged.arranges_fields (h : Tagged room tag fields members)
    (hnames : (fields.map (·.1)).Sublist (fieldsOf tag)) :
    Json.Arranges (fieldsOf tag) fields (members.filter fun m => m.1 != "type") := by
  have hfresh : "type" ∉ fieldsOf tag := (List.nodup_cons.mp (nodup_fieldsOf tag)).1
  have hall : (fields.filter fun m => (fieldsOf tag).contains m.1) = fields := by
    rw [List.filter_eq_self]
    intro m hm
    exact List.contains_iff_mem.mpr (hnames.subset (List.mem_map_of_mem hm))
  have hrestrict := h.arranged.restrict (fieldsOf tag) (by simp +contextual)
  rw [List.filter_cons_of_neg (by simpa using hfresh), hall] at hrestrict
  exact hrestrict.without hfresh

/-- **The tag is found wherever it stands, and what is left are the other members.** -/
theorem Tagged.tagAndBody? (h : Tagged room tag fields members)
    (hnames : (fields.map (·.1)).Sublist (fieldsOf tag)) (inside : Bool) :
    ModelKind.tagAndBody? inside (.ofMembers members)
      = some (tag, .ofMembers (members.filter fun m => m.1 != "type")) := by
  obtain ⟨found, hfound, hlookup⟩ := (h.arranges_tag hnames).fields? (List.nodup_singleton _)
  have hrequired : Json.required found "type" (tagOf? inside) = some tag := by
    rw [Json.required, hlookup]
    exact tagOf?_name inside tag
  have hrest : ((members.map fun m => ((some m.1 : Literal), m.2)).filter fun m => m.1 != some "type")
      = (members.filter fun m => m.1 != "type").map fun m => (some m.1, m.2) := by
    rw [List.filter_map]
    rfl
  rw [Json.ofMembers] at hfound
  rw [Json.ofMembers, ModelKind.tagAndBody?, hfound, hrest]
  simp only [Option.bind_eq_bind, Option.bind_some, hrequired]
  rfl

/-- **A kind is put together from its fields, whatever way they were arranged in.** -/
theorem Tagged.ofSound? (h : Tagged room tag fields members)
    (hnames : (fields.map (·.1)).Sublist (fieldsOf tag)) {levels : Nat} (hlevels : 0 < levels)
    (inside : Bool) :
    ModelKind.ofSound? levels inside (.ofMembers members)
      = assemble? (ModelKind.ofSound? (levels - 1) true) tag (.ofMembers fields) := by
  have hnodup : (fields.map (·.1)).Nodup := hnames.nodup (List.nodup_cons.mp (nodup_fieldsOf tag)).2
  have hself : (Json.ofMembers fields).fields? (fieldsOf tag) = some fields :=
    Json.fields?_of_known (fun m hm => hnames.subset (List.mem_map_of_mem hm)) hnodup
  obtain ⟨kept, hkept, hlookup⟩ := (h.arranges_fields hnames).fields? hnodup
  cases levels with
  | zero => cases hlevels
  | succ levels =>
      rw [ModelKind.ofSound?, h.tagAndBody? hnames]
      show assemble? (ModelKind.ofSound? levels true) tag _ = _
      rw [assemble?, hkept, assemble?, hself]
      cases tag <;> simp [Json.withDefault, hlookup]

mutual

/-- **Every written form of a kind is read as that kind.** -/
theorem Written.ofSound? {room levels : Nat} {kind : ModelKind} {v : Json} (hlevels : room ≤ levels)
    (inside : Bool) : Written room kind v → ModelKind.ofSound? levels inside v = some kind
  | @Written.bare _ tag _ h => by
      rw [h.ofSound? (List.nil_sublist _) (by omega)]
      cases tag <;> rfl
  | .rules hbase h => by
      rw [h.ofSound? (List.Sublist.refl _) (by omega)]
      exact congrArg (Option.map ModelKind.rules) (Json.toCount?_ofNat hbase)
  | .linear h => by
      rw [h.ofSound? (List.Sublist.refl _) (by omega)]
      exact congrArg (Option.map ModelKind.linear) (optional_artifact _)
  | .ensemble hall h => by
      rw [h.ofSound? (List.Sublist.refl _) (by omega)]
      exact congrArg (Option.map ModelKind.ensemble) (hall.mapM (by omega))

theorem WrittenAll.mapM {room levels : Nat} {kinds : List ModelKind} {values : List Json}
    (hlevels : room ≤ levels) :
    WrittenAll room kinds values → values.mapM (ModelKind.ofSound? levels true) = some kinds
  | .nil => rfl
  | .cons h hrest => by
      rw [List.mapM_cons, h.ofSound? hlevels true, hrest.mapM hlevels]
      rfl

end

/-- **A written form that is not nested too deep in its text is read as its kind.** -/
theorem Written.ofJson? {outer : Nat} {kind : ModelKind} {v : Json}
    (h : Written (Json.nestingLimit - outer) kind v) : ModelKind.ofJson? outer v = some kind := by
  rw [ModelKind.ofJson?, if_pos h.isSound]
  exact h.ofSound? (Nat.sub_le _ _) false

/-! ### The form that is written -/

theorem tagged_self (hnames : (fields.map (·.1)).Sublist (fieldsOf tag)) :
    Tagged room tag fields (("type", .ofString tag.name) :: fields) := by
  have hknown : ∀ m ∈ ("type", Json.ofString tag.name) :: fields, m.1 ∈ "type" :: fieldsOf tag := by
    intro m hm
    rcases List.mem_cons.mp hm with rfl | hfield
    · exact List.mem_cons_self
    · exact List.mem_cons_of_mem _ (hnames.subset (List.mem_map_of_mem hfield))
  exact ⟨Json.arranges_self hknown, fun m hm hunknown => absurd (hknown m hm) hunknown⟩

mutual

/-- **What a kind is written as is a written form of it if there is room for its height.** -/
theorem written_toJson : (kind : ModelKind) → kind.Fits → {room : Nat} → kind.height ≤ room →
    Written room kind kind.toJson
  | .rules _, hfits, _ + 1, _ => .rules hfits (tagged_self (List.Sublist.refl _))
  | .linear _, _, _ + 1, _ => .linear (tagged_self (List.Sublist.refl _))
  | .decision, _, _ + 1, _ => @Written.bare _ .decision _ (tagged_self (List.nil_sublist _))
  | .ensemble kinds, hfits, _ + 2, hroom =>
      .ensemble (writtenAll_toJson kinds hfits (Nat.le_of_add_le_add_right hroom))
        (tagged_self (List.Sublist.refl _))

theorem writtenAll_toJson : (kinds : List ModelKind) → AllFit kinds → {room : Nat} →
    heightOfAll kinds ≤ room → WrittenAll room kinds (toJsonAll kinds)
  | [], _, _, _ => .nil
  | kind :: rest, hfits, _, hroom =>
      .cons (written_toJson kind hfits.1 (le_trans (Nat.le_max_left _ _) hroom))
        (writtenAll_toJson rest hfits.2 (le_trans (Nat.le_max_right _ _) hroom))

end

mutual

/-- What a kind is written as is as deep as the kind is high. -/
theorem height_le_of_isSound : (kind : ModelKind) → {room : Nat} →
    kind.toJson.isSound room = true → kind.height ≤ room
  | .rules _, 0, h | .linear _, 0, h | .decision, 0, h | .ensemble _, 0, h => by cases h
  | .rules _, _ + 1, _ | .linear _, _ + 1, _ | .decision, _ + 1, _ => Nat.succ_pos _
  | .ensemble _, 1, h => by cases h
  | .ensemble kinds, room + 2, h => by
      have hmembers := (isSound_ofMembers (room + 1) _).mp h ("members", .array (toJsonAll kinds))
        (by simp)
      exact Nat.add_le_add_right
        (heightOfAll_le_of_allSound kinds ((isSound_array room _).mp hmembers)) 2

theorem heightOfAll_le_of_allSound : (kinds : List ModelKind) → {room : Nat} →
    Json.allSound room (toJsonAll kinds) = true → heightOfAll kinds ≤ room
  | [], _, _ => Nat.zero_le _
  | kind :: rest, room, h => by
      rw [toJsonAll, Json.allSound, Bool.and_eq_true] at h
      exact Nat.max_le.mpr ⟨height_le_of_isSound kind h.1, heightOfAll_le_of_allSound rest h.2⟩

end

mutual

theorem proper_toJson : (kind : ModelKind) → kind.toJson.Proper
  | .rules base => Json.proper_ofMembers <| List.forall_mem_cons.mpr
      ⟨trivial, List.forall_mem_singleton.mpr (Numeral.proper_ofNat base)⟩
  | .linear none | .linear (some _) => Json.proper_ofMembers <| List.forall_mem_cons.mpr
      ⟨trivial, List.forall_mem_singleton.mpr trivial⟩
  | .decision => Json.proper_ofMembers <| List.forall_mem_singleton.mpr trivial
  | .ensemble kinds => Json.proper_ofMembers <| List.forall_mem_cons.mpr
      ⟨trivial, List.forall_mem_singleton.mpr (Json.proper_array (proper_toJsonAll kinds))⟩

theorem proper_toJsonAll : (kinds : List ModelKind) → ∀ v ∈ toJsonAll kinds, v.Proper
  | [] => by simp [toJsonAll]
  | kind :: rest => by
      rw [toJsonAll]
      exact List.forall_mem_cons.mpr ⟨proper_toJson kind, proper_toJsonAll rest⟩

end

end ModelKind

end AdaptiveMtu
