/-
From which values typed data is read.

Reading a number, a list or a structure succeeds for some values and fails for all others; here it is said
which these are.  A structure's value gives its known fields by name or by position.  By name, each
may stand there once, among any members whose names are not known; by position, the last ones may be
missing.
-/
import AdaptiveMtu.Proofs.Json.Members

namespace AdaptiveMtu

namespace Binary64

theorem isFinite_ofFields (sign : Bool) {f : Nat} (hf : f < infinityFields) :
    (ofFields sign f).isFinite = true := by
  have hfields := fields_ofFields sign hf
  rw [isFinite_iff]
  unfold fields at hfields
  unfold infinityFields at hf
  omega

end Binary64

/-- What a numeral is read as is a finite number. -/
theorem Numeral.isFinite_of_toFloat? {n : Numeral} {x : Float} (h : n.toFloat? = some x) :
    x.isFinite = true := by
  have hzero : (0 : Nat) < Binary64.infinityFields := by decide
  unfold Numeral.toFloat? at h
  dsimp only at h
  split_ifs at h
  · cases h
    exact Binary64.isFinite_ofFields _ hzero
  · cases h
    exact Binary64.isFinite_ofFields _ hzero
  · unfold Binary64.ofQuotient? at h
    dsimp only at h
    split_ifs at h with hfields
    cases h
    exact Binary64.isFinite_ofFields _ hfields

/-- A list is read element by element if every element is. -/
theorem mapM_eq_some_iff {α β : Type} {f : α → Option β} {l : List α} {k : List β} :
    l.mapM f = some k ↔ List.Forall₂ (fun a b => f a = some b) l k := by
  induction l generalizing k with
  | nil =>
      rw [List.mapM_nil, List.forall₂_nil_left_iff]
      exact ⟨fun h => (Option.some.inj h).symm, fun h => h ▸ rfl⟩
  | cons a rest ih =>
      rw [List.mapM_cons, Option.bind_eq_bind, Option.bind_eq_some_iff]
      constructor
      · rintro ⟨b, hb, hrest⟩
        obtain ⟨bs, hbs, hk⟩ := Option.bind_eq_some_iff.mp hrest
        rw [← Option.some.inj hk]
        exact .cons hb (ih.mp hbs)
      · intro h
        cases h with
        | @cons _ b _ bs hb hbs =>
            refine ⟨b, hb, ?_⟩
            rw [ih.mpr hbs]
            rfl

/-- A list of at most one element is given by its first one. -/
theorem eq_toList_head? {α : Type} {l : List α} (h : l.length ≤ 1) : l = l.head?.toList := by
  match l, h with
  | [], _ => rfl
  | [_], _ => rfl
  | _ :: _ :: _, h => simp at h

namespace Json

/-! ### Numbers and lists of numbers -/

/-- The value is a number that reads as `x`. -/
inductive ReadsAs : Json → Float → Prop where
  | number {n : Numeral} {x : Float} (h : n.toFloat? = some x) : ReadsAs (.number n) x

/-- The value is an array of numbers that read as `xs`. -/
inductive ListsNumbers : Json → List Float → Prop where
  | array {elements : List Json} {xs : List Float} (h : List.Forall₂ ReadsAs elements xs) :
      ListsNumbers (.array elements) xs

theorem toFloat?_eq_some_iff {v : Json} {x : Float} : v.toFloat? = some x ↔ v.ReadsAs x := by
  constructor
  · intro h
    cases v with
    | number n => exact .number h
    | _ => cases h
  · rintro ⟨h⟩
    exact h

theorem ReadsAs.isFinite {v : Json} {x : Float} (h : v.ReadsAs x) : x.isFinite = true := by
  cases h with
  | number h => exact Numeral.isFinite_of_toFloat? h

theorem toNumbers?_eq_some_iff {v : Json} {xs : List Float} :
    v.toList?.bind (·.mapM toFloat?) = some xs ↔ v.ListsNumbers xs := by
  have helements (elements : List Json) :
      elements.mapM toFloat? = some xs ↔ List.Forall₂ ReadsAs elements xs := by
    simp only [mapM_eq_some_iff, toFloat?_eq_some_iff]
  constructor
  · intro h
    cases v with
    | array elements => exact .array ((helements elements).mp h)
    | _ => cases h
  · rintro ⟨h⟩
    exact (helements _).mpr h

theorem ListsNumbers.isFinite {v : Json} {xs : List Float} (h : v.ListsNumbers xs) :
    ∀ x ∈ xs, x.isFinite = true := by
  obtain ⟨h⟩ := h
  intro x hx
  induction h with
  | nil => cases hx
  | cons hv _ ih =>
      rcases List.mem_cons.mp hx with rfl | hrest
      · exact hv.isFinite
      · exact ih hrest

/-! ### Members by name -/

/-- The values of the members that have a name. -/
def valuesOf (members : List (String × Json)) (name : String) : List Json :=
  (members.filter fun m => m.1 = name).map (·.2)

variable {known : List String} {members : List (String × Json)} {name : String}

theorem lookup_eq_head? (members : List (String × Json)) (name : String) :
    members.lookup name = (valuesOf members name).head? := by
  induction members with
  | nil => rfl
  | cons m rest ih =>
      rw [lookup_cons_eq, ih, valuesOf, valuesOf, List.filter_cons]
      by_cases h : m.1 = name
      · simp [h]
      · simp [h, Ne.symm h]

theorem valuesOf_filter (p : String → Bool) (members : List (String × Json)) (name : String) :
    valuesOf (members.filter fun m => p m.1) name
      = if p name then valuesOf members name else [] := by
  rw [valuesOf, List.filter_filter]
  cases hp : p name with
  | true =>
      have hsame : (members.filter fun m => decide (m.1 = name) && p m.1)
          = members.filter fun m => m.1 = name := by
        refine List.filter_congr fun m _ => ?_
        by_cases hm : m.1 = name <;> simp [hm, hp]
      rw [hsame, if_pos rfl, valuesOf]
  | false =>
      have hnone : (members.filter fun m => decide (m.1 = name) && p m.1) = [] := by
        refine List.filter_eq_nil_iff.mpr fun m _ => ?_
        by_cases hm : m.1 = name <;> simp [hm, hp]
      rw [hnone, if_neg Bool.false_ne_true]
      rfl

theorem count_name (members : List (String × Json)) (name : String) :
    (members.map (·.1)).count name = (valuesOf members name).length := by
  rw [valuesOf, List.length_map, List.count, List.countP_map, List.countP_eq_length_filter]
  rfl

/-- No known name is repeated if each has at most one value. -/
theorem nodup_kept_iff :
    ((members.filter fun m => known.contains m.1).map (·.1)).Nodup ↔
      ∀ name ∈ known, (valuesOf members name).length ≤ 1 := by
  simp only [List.nodup_iff_count_le_one, count_name,
    valuesOf_filter fun name => known.contains name]
  refine forall_congr' fun name => ?_
  by_cases hname : name ∈ known <;> simp [hname]

theorem lookup_kept (hname : name ∈ known) :
    (members.filter fun m => known.contains m.1).lookup name = (valuesOf members name).head? := by
  rw [lookup_filter fun name => known.contains name, if_pos (List.contains_iff_mem.mpr hname),
    lookup_eq_head?]

/-! ### Structures -/

/-- The fields that a structure's value gives: those members of an object that have the known names, none
of them repeated, or the elements of an array by position. -/
inductive Gives (known : List String) : Json → (String → Option Json) → Prop where
  | named {members : List (String × Json)}
      (honce : ∀ name ∈ known, (valuesOf members name).length ≤ 1) :
      Gives known (ofMembers members) fun name => (valuesOf members name).head?
  | listed {elements : List Json} (hlength : elements.length ≤ known.length) :
      Gives known (.array elements) fun name => (known.zip elements).lookup name

theorem namedMembers?_eq_some_iff {members : List (Literal × Json)} {named : List (String × Json)} :
    namedMembers? members = some named ↔ members = named.map fun m => (some m.1, m.2) := by
  constructor
  · intro h
    rw [namedMembers?, mapM_eq_some_iff] at h
    induction h with
    | nil => rfl
    | cons hm _ ih =>
        obtain ⟨name, hname, rfl⟩ := Option.map_eq_some_iff.mp hm
        rw [List.map_cons, ← ih, ← hname]
  · rintro rfl
    exact namedMembers?_ofMembers named

/-- **The fields that are found are those that the value gives.** -/
theorem gives_of_fields? {v : Json} {kept : List (String × Json)}
    (h : v.fields? known = some kept) :
    ∃ field, v.Gives known field ∧ ∀ name ∈ known, kept.lookup name = field name := by
  unfold fields? at h
  split at h
  · rename_i members
    obtain ⟨named, hnamed, hkept⟩ := Option.bind_eq_some_iff.mp h
    obtain rfl := namedMembers?_eq_some_iff.mp hnamed
    dsimp only at hkept
    split_ifs at hkept with hnodup
    cases hkept
    exact ⟨_, .named (nodup_kept_iff.mp hnodup), fun name hname => lookup_kept hname⟩
  · split_ifs at h with hlength
    cases h
    exact ⟨_, .listed hlength, fun _ _ => rfl⟩
  · cases h

/-- Whatever a value gives is found. -/
theorem Gives.fields? {v : Json} {field : String → Option Json} (h : v.Gives known field) :
    ∃ kept, v.fields? known = some kept ∧ ∀ name ∈ known, kept.lookup name = field name := by
  cases h with
  | named honce =>
      exact ⟨_, fields?_ofMembers known _ (nodup_kept_iff.mpr honce),
        fun name hname => lookup_kept hname⟩
  | listed hlength => exact ⟨_, if_pos hlength, fun _ _ => rfl⟩

/-- The value of a field that may be missing. -/
inductive Settles {α : Type} (decode : Json → Option α) (default : α) : Option Json → α → Prop where
  | missing : Settles decode default none default
  | given {v : Json} {a : α} (h : decode v = some a) : Settles decode default (some v) a

theorem withDefault_eq_some_iff {α : Type} {fields : List (String × Json)} {decode : Json → Option α}
    {default a : α} :
    withDefault fields name decode default = some a ↔
      Settles decode default (fields.lookup name) a := by
  unfold withDefault
  cases fields.lookup name with
  | none =>
      refine ⟨fun h => ?_, fun h => ?_⟩
      · cases h
        exact .missing
      · cases h
        rfl
  | some v =>
      refine ⟨.given, fun h => ?_⟩
      cases h with
      | given h => exact h

end Json

end AdaptiveMtu
