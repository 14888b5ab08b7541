/-
Missing measurements and their means.

A measurement that was set is read back as the number that it was brought to, and all others are as they
were.  A mean is within the range of its measurement, so setting the measurement to it stores that number
and no other; a kind of network has no mean that could be stored.

A missing measurement normalizes to zero, and the heuristics take its mean for it.  A measurement at
its mean normalizes to zero as well, since a number less itself is a positive zero and so is that zero
divided by a deviation.  Two vectors that are `Alike` show the same to every model: the same
normalized numbers and the same conditions.  Filling in means gives a vector like the one that was
filled in.
-/
import AdaptiveMtu.Heuristic.Conditions
import AdaptiveMtu.Linear.Weights

namespace AdaptiveMtu

namespace FeatureVector

/-! ### Setting and reading measurements -/

/-- Setting one measurement leaves the others as they are. -/
theorem get?_set_of_ne (v : FeatureVector) {field other : Field} (h : other ≠ field) (x : Float) :
    (v.set field x).get? other = v.get? other := by
  cases field <;> cases other <;> first | rfl | exact absurd rfl h

/-- A measurement that is set to its mean is at its mean. -/
theorem get?_set_mean (v : FeatureVector) {field : Field} (h : field ≠ .network) :
    (v.set field field.mean).get? field = some field.mean := by
  have hwindow : Binary64.ofCount (Binary64.nearestCount 10) = 10 := by decide +kernel
  have hsize : Binary64.ofCount (Binary64.nearestCount 1200) = 1200 := by decide +kernel
  have hday : Binary64.wrapDay 12 = 12 := by decide +kernel
  cases field with
  | network => exact absurd rfl h
  | congestionWindow => exact congrArg some hwindow
  | averageSize => exact congrArg some hsize
  | timeOfDay => exact congrArg some hday
  | rtt | throughput | loss | sizeDeviation => rfl

theorem networkType_set (v : FeatureVector) {field : Field} (h : field ≠ .network) (x : Float) :
    (v.set field x).networkType = v.networkType := by
  cases field with
  | network => exact absurd rfl h
  | _ => rfl

/-! ### Vectors that show the same -/

/-- Two vectors show the same to every model. -/
structure Alike (v w : FeatureVector) : Prop where
  normalizedValue : ∀ field, v.normalizedValue field = w.normalizedValue field
  conditions : Conditions.ofFeatures v = Conditions.ofFeatures w

/-- The second vector is the first one, with some of its missing measurements set to their means. -/
inductive Filled : FeatureVector → FeatureVector → Prop where
  | refl (v : FeatureVector) : Filled v v
  | fill {v w : FeatureVector} (h : Filled v w) (field : Field) (hnetwork : field ≠ .network)
      (hmissing : w.get? field = none) : Filled v (w.set field field.mean)

theorem Alike.refl (v : FeatureVector) : Alike v v := ⟨fun _ => rfl, rfl⟩

theorem Alike.trans {u v w : FeatureVector} (h : Alike u v) (h' : Alike v w) : Alike u w :=
  ⟨fun field => (h.normalizedValue field).trans (h'.normalizedValue field),
    h.conditions.trans h'.conditions⟩

/-! ### One measurement at its mean -/

theorem mean_normalizes_to_zero (field : Field) : (field.mean - field.mean) / field.deviation = 0 := by
  cases field <;> decide +kernel

theorem valueOrMean_set_mean (v : FeatureVector) {field : Field} (h : field ≠ .network)
    (hmissing : v.get? field = none) (other : Field) :
    (v.set field field.mean).valueOrMean other = v.valueOrMean other := by
  unfold valueOrMean
  by_cases hother : other = field
  · rw [hother, get?_set_mean v h, hmissing]
    rfl
  · rw [get?_set_of_ne v hother]

theorem normalizedValue_set_mean (v : FeatureVector) {field : Field} (h : field ≠ .network)
    (hmissing : v.get? field = none) (other : Field) :
    (v.set field field.mean).normalizedValue other = v.normalizedValue other := by
  unfold normalizedValue
  by_cases hother : other = field
  · rw [hother, get?_set_mean v h, hmissing]
    exact mean_normalizes_to_zero field
  · rw [get?_set_of_ne v hother]

/-- A vector and the one with a missing measurement at its mean are alike. -/
theorem alike_set_mean (v : FeatureVector) {field : Field} (h : field ≠ .network)
    (hmissing : v.get? field = none) : Alike v (v.set field field.mean) := by
  have hvalue := valueOrMean_set_mean v h hmissing
  refine ⟨fun other => (normalizedValue_set_mean v h hmissing other).symm, ?_⟩
  unfold Conditions.ofFeatures
  rw [hvalue, hvalue, hvalue, hvalue, networkType_set v h]

/-- **Filling in means changes nothing that a model sees.** -/
theorem Filled.alike {v w : FeatureVector} (h : Filled v w) : Alike v w := by
  induction h with
  | refl => exact .refl v
  | fill _ field hnetwork hmissing ih => exact ih.trans (alike_set_mean _ hnetwork hmissing)

/-! ### What models see of vectors that are alike -/

theorem Alike.inputs {v w : FeatureVector} (h : Alike v w) : v.inputs = w.inputs := by
  have hnormalized : v.normalized = w.normalized :=
    List.map_congr_left fun field _ => h.normalizedValue field
  rw [FeatureVector.inputs, hnormalized]
  rfl

end FeatureVector

end AdaptiveMtu
