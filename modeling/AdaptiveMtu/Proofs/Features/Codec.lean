/-
Feature vectors that are written and read again.

Writing turns every measurement into a number under its key, and reading sets the measurements from
these numbers one by one.  A number that was set is brought into range again, so a vector comes back
as its `reread`; and if one of its numbers is not finite, nothing comes back at all.
-/
import AdaptiveMtu.Proofs.Binary64.Hours
import AdaptiveMtu.Proofs.Features.Neutral
import AdaptiveMtu.Proofs.Json.Access

namespace AdaptiveMtu

namespace FeatureVector

variable {v w : FeatureVector}

/-- Every known measurement is a finite number. -/
def AllFinite (v : FeatureVector) : Prop := ∀ field, ∀ x ∈ v.get? field, x.isFinite = true

/-- The vector with a measurement set from a number, or unset if there is none. -/
def put (w : FeatureVector) (field : Field) (number : Option Float) : FeatureVector :=
  match field with
  | .rtt => { w with rtt := number.map Binary64.atLeastZero }
  | .throughput => { w with throughput := number.map Binary64.atLeastZero }
  | .loss => { w with loss := number.map (Binary64.clamp 0 1) }
  | .congestionWindow => { w with congestionWindow := number.map Binary64.nearestCount }
  | .averageSize => { w with averageSize := number.map Binary64.nearestCount }
  | .sizeDeviation => { w with sizeDeviation := number.map Binary64.atLeastZero }
  | .network => { w with network := number.map NetworkType.ofCode }
  | .timeOfDay => { w with timeOfDay := number.map Binary64.wrapDay }

/-- The vector with every measurement turned into a number and brought into its range. -/
def reread (v : FeatureVector) : FeatureVector :=
  Field.alphabetical.foldl (fun w field => w.put field (v.get? field)) empty

/-! ### Entries -/

theorem mem_toEntries {v : FeatureVector} {e : String × Float} :
    e ∈ v.toEntries ↔ ∃ field : Field, e.1 = field.key ∧ v.get? field = some e.2 := by
  have hall : ∀ field, field ∈ Field.alphabetical := by
    intro field
    cases field <;> decide
  unfold toEntries entriesIn
  simp only [List.mem_filterMap, Option.map_eq_some_iff]
  constructor
  · rintro ⟨field, -, x, hx, rfl⟩
    exact ⟨field, rfl, hx⟩
  · rintro ⟨field, hkey, hx⟩
    exact ⟨field, hall field, e.2, hx, by rw [← hkey]⟩

theorem allFinite_iff (v : FeatureVector) :
    v.AllFinite ↔ ∀ e ∈ v.toEntries, e.2.isFinite = true := by
  constructor
  · intro h e he
    obtain ⟨field, -, hx⟩ := mem_toEntries.mp he
    exact h field e.2 hx
  · intro h field x hx
    exact h (field.key, x) (mem_toEntries.mpr ⟨field, rfl, hx⟩)

theorem ofKey?_key (field : Field) : Field.ofKey? field.key = some field := by
  cases field <;> decide

/-- The vector with a measurement set from a number, or left alone if there is none. -/
def fill (w : FeatureVector) (field : Field) (number : Option Float) : FeatureVector :=
  match number with
  | none => w
  | some x => w.set field x

/-- Leaving a missing measurement alone is unsetting it. -/
theorem fill_eq_put {field : Field} (h : w.get? field = none) (number : Option Float) :
    w.fill field number = w.put field number := by
  obtain ⟨rtt, throughput, loss, window, size, deviation, network, time⟩ := w
  cases number with
  | some x => cases field <;> rfl
  | none => cases field <;> simp_all [fill, put, get?]

theorem get?_put_of_ne (w : FeatureVector) {field other : Field} (h : other ≠ field)
    (number : Option Float) : (w.put field number).get? other = w.get? other := by
  cases field <;> cases other <;> first | rfl | exact absurd rfl h

/-- Adding the entries of a vector is putting in its measurements, field by field. -/
theorem foldl_addEntry_entriesIn (h : v.AllFinite) {order : List Field} (horder : order.Nodup)
    (hmissing : ∀ field ∈ order, w.get? field = none) :
    (entriesIn order v).foldl addEntry w
      = order.foldl (fun w field => w.put field (v.get? field)) w := by
  induction order generalizing w with
  | nil => rfl
  | cons field rest ih =>
      obtain ⟨hfresh, hrest⟩ := List.nodup_cons.mp horder
      have hfirst : (entriesIn (field :: rest) v).foldl addEntry w
          = (entriesIn rest v).foldl addEntry (w.fill field (v.get? field)) := by
        rw [entriesIn, List.filterMap_cons]
        cases hx : v.get? field with
        | none => rfl
        | some x =>
            have hadd : w.addEntry (field.key, x) = w.set field x := by
              simp only [addEntry, ofKey?_key, if_pos (h field x hx)]
            rw [Option.map_some, List.foldl_cons, hadd]
            rfl
      rw [hfirst, fill_eq_put (hmissing field List.mem_cons_self), List.foldl_cons]
      refine ih hrest fun other hother => ?_
      have hne : other ≠ field := fun heq => hfresh (heq ▸ hother)
      rw [get?_put_of_ne w hne, hmissing other (List.mem_cons_of_mem field hother)]

/-- **A vector that is turned into entries and back is reread.** -/
theorem ofEntries_toEntries (h : v.AllFinite) : ofEntries v.toEntries = v.reread :=
  foldl_addEntry_entriesIn h (by decide) fun field _ => by cases field <;> rfl

/-! ### Texts -/

/-- A list of numbers is read through exactly if all of them are finite. -/
theorem mapM_finite (entries : List (String × Float)) :
    (entries.mapM fun e => if e.2.isFinite then some e else none)
      = if ∀ e ∈ entries, e.2.isFinite = true then some entries else none := by
  by_cases h : ∀ e ∈ entries, e.2.isFinite = true
  · rw [if_pos h]
    exact (mapM_eq_some fun e he => if_pos (h e he)).trans (congrArg some (List.map_id entries))
  · rw [if_neg h]
    push Not at h
    obtain ⟨e, he, hinfinite⟩ := h
    exact mapM_eq_none he (if_neg hinfinite)

theorem entriesOf?_toJson (v : FeatureVector) :
    entriesOf? v.toJson
      = if ∀ e ∈ v.toEntries, e.2.isFinite = true then some v.toEntries else none := by
  have hread : ∀ e : String × Float, ((e.1, Json.ofFloat e.2).2.toFloat?.map fun x => (e.1, x))
      = if e.2.isFinite then some e else none := by
    intro e
    rw [Json.toFloat?_ofFloat]
    cases e.2.isFinite <;> rfl
  rw [toJson, Json.ofMembers, entriesOf?, Json.namedMembers?_ofMembers, ← mapM_finite]
  show List.mapM _ (v.toEntries.map _) = _
  rw [List.mapM_map]
  exact congrArg (List.mapM · v.toEntries) (funext hread)

/-- **A vector of finite numbers comes back reread.** -/
theorem ofJson?_toJson (h : v.AllFinite) : ofJson? v.toJson = some v.reread := by
  rw [ofJson?, entriesOf?_toJson, if_pos ((allFinite_iff v).mp h), Option.map_some,
    ofEntries_toEntries h]

/-- **A vector with an infinity or NaN in it does not come back.** -/
theorem ofJson?_toJson_of_not_finite (h : ¬ v.AllFinite) : ofJson? v.toJson = none := by
  rw [ofJson?, entriesOf?_toJson, if_neg fun hall => h ((allFinite_iff v).mpr hall)]
  rfl

theorem proper_toJson (v : FeatureVector) : v.toJson.Proper := by
  refine Json.proper_ofMembers fun m hm => ?_
  obtain ⟨e, -, rfl⟩ := List.mem_map.mp hm
  exact Json.proper_ofFloat e.2

/-! ### Measurements in their ranges -/

/-- Every known measurement is in its range, and every count is one that a binary64 number holds. -/
structure Storable (v : FeatureVector) : Prop where
  rtt : ∀ x ∈ v.rtt, x.isFinite = true ∧ 0 ≤ x
  throughput : ∀ x ∈ v.throughput, x.isFinite = true ∧ 0 ≤ x
  loss : ∀ x ∈ v.loss, x.isFinite = true ∧ 0 ≤ x ∧ x ≤ 1
  congestionWindow : ∀ n ∈ v.congestionWindow, Binary64.truncate (Binary64.ofCount n) = n
  averageSize : ∀ n ∈ v.averageSize, Binary64.truncate (Binary64.ofCount n) = n
  sizeDeviation : ∀ x ∈ v.sizeDeviation, x.isFinite = true ∧ 0 ≤ x
  timeOfDay : ∀ x ∈ v.timeOfDay, x.isFinite = true ∧ 0 ≤ x ∧ x < 24

/-- None of the measurements that are held above zero is the negative zero. -/
structure NoNegativeZero (v : FeatureVector) : Prop where
  rtt : v.rtt ≠ some (-0.0)
  throughput : v.throughput ≠ some (-0.0)
  sizeDeviation : v.sizeDeviation ≠ some (-0.0)

/-- The same is known in both vectors, numbers that are held above zero being compared as numbers. -/
structure Same (v w : FeatureVector) : Prop where
  rtt : (v.rtt == w.rtt) = true
  throughput : (v.throughput == w.throughput) = true
  loss : v.loss = w.loss
  congestionWindow : v.congestionWindow = w.congestionWindow
  averageSize : v.averageSize = w.averageSize
  sizeDeviation : (v.sizeDeviation == w.sizeDeviation) = true
  network : v.network = w.network
  timeOfDay : v.timeOfDay = w.timeOfDay

theorem isFinite_ofCount (n : Nat) : (Binary64.ofCount n).isFinite = true := by
  have hword : Binary64.ofCount n = Binary64.ofCount (n % 2 ^ 64) := by
    have hmod : UInt64.ofNat (n % 2 ^ 64) = UInt64.ofNat n := UInt64.ofNat_mod_size
    rw [Binary64.ofCount, Binary64.ofCount, hmod]
  rw [hword]
  exact (Binary64.ofCount_nearest (Nat.le_of_lt_succ (Nat.mod_lt n (by norm_num)))).1

theorem Storable.allFinite (h : v.Storable) : v.AllFinite := by
  intro field x hx
  cases field with
  | rtt => exact (h.rtt x hx).1
  | throughput => exact (h.throughput x hx).1
  | loss => exact (h.loss x hx).1
  | sizeDeviation => exact (h.sizeDeviation x hx).1
  | timeOfDay => exact (h.timeOfDay x hx).1
  | congestionWindow | averageSize | network =>
      obtain ⟨n, -, rfl⟩ := Option.map_eq_some_iff.mp hx
      exact isFinite_ofCount _

theorem map_eq_self {α : Type} {f : α → α} {o : Option α} (h : ∀ a ∈ o, f a = a) : o.map f = o := by
  cases o with
  | none => rfl
  | some a => exact congrArg some (h a rfl)

theorem ofCode_code (n : NetworkType) : NetworkType.ofCode (Binary64.ofCount n.code) = n := by
  cases n <;> decide +kernel

/-- What is not held above zero comes back exactly. -/
theorem Storable.reread_eq (h : v.Storable) : v.reread =
    { v with
      rtt := v.rtt.map Binary64.atLeastZero
      throughput := v.throughput.map Binary64.atLeastZero
      sizeDeviation := v.sizeDeviation.map Binary64.atLeastZero } := by
  have hloss : v.loss.map (Binary64.clamp 0 1) = v.loss :=
    map_eq_self fun x hx => Binary64.clamp_eq (h.loss x hx).2.1 (h.loss x hx).2.2
  have hwindow : (v.congestionWindow.map Binary64.ofCount).map Binary64.nearestCount
      = v.congestionWindow := by
    rw [Option.map_map]
    exact map_eq_self fun n hn => Binary64.nearestCount_ofCount (h.congestionWindow n hn)
  have hsize : (v.averageSize.map Binary64.ofCount).map Binary64.nearestCount = v.averageSize := by
    rw [Option.map_map]
    exact map_eq_self fun n hn => Binary64.nearestCount_ofCount (h.averageSize n hn)
  have hnetwork : (v.network.map fun n => Binary64.ofCount n.code).map NetworkType.ofCode
      = v.network := by
    rw [Option.map_map]
    exact map_eq_self fun n _ => ofCode_code n
  have htime : v.timeOfDay.map Binary64.wrapDay = v.timeOfDay :=
    map_eq_self fun x hx =>
      Binary64.wrapDay_eq (h.timeOfDay x hx).1 (h.timeOfDay x hx).2.1 (h.timeOfDay x hx).2.2
  show FeatureVector.mk _ _ (v.loss.map _) ((v.congestionWindow.map _).map _)
    ((v.averageSize.map _).map _) _ ((v.network.map _).map _) (v.timeOfDay.map _) = _
  rw [hloss, hwindow, hsize, hnetwork, htime]
  rfl

theorem beq_map_atLeastZero {o : Option Float} (h : ∀ x ∈ o, x.isFinite = true ∧ 0 ≤ x) :
    (o == o.map Binary64.atLeastZero) = true := by
  cases o with
  | none => rfl
  | some x => exact Binary64.beq_atLeastZero (h x rfl).1 (h x rfl).2

/-- **Measurements in their ranges are the same when they are reread.** -/
theorem Storable.same_reread (h : v.Storable) : v.Same v.reread := by
  rw [h.reread_eq]
  exact ⟨beq_map_atLeastZero h.rtt, beq_map_atLeastZero h.throughput, rfl, rfl, rfl,
    beq_map_atLeastZero h.sizeDeviation, rfl, rfl⟩

theorem map_atLeastZero_eq {o : Option Float} (h : ∀ x ∈ o, x.isFinite = true ∧ 0 ≤ x)
    (hne : o ≠ some (-0.0)) : o.map Binary64.atLeastZero = o :=
  map_eq_self fun x hx =>
    Binary64.atLeastZero_eq (h x hx).1 (h x hx).2 fun heq => hne (by rw [← heq]; exact hx)

/-- **They are so bit by bit unless one of them is the negative zero.** -/
theorem Storable.reread_eq_self (h : v.Storable) (hzero : v.NoNegativeZero) : v.reread = v := by
  rw [h.reread_eq, map_atLeastZero_eq h.rtt hzero.rtt,
    map_atLeastZero_eq h.throughput hzero.throughput,
    map_atLeastZero_eq h.sizeDeviation hzero.sizeDeviation]

end FeatureVector

end AdaptiveMtu
