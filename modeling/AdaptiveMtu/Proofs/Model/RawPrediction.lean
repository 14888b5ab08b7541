/-
A prediction and the number behind it.

A linear model and an ensemble compute the same number twice: to tell it as it is, and to answer an MTU.
Both fail together.  The MTU is the whole hundred that is nearest to the number within the bounds, a half going
up, and so for the number as the rational that it is: between whole numbers there is no half of a hundred, so
cutting the number down to whole bytes first makes no difference (`nearestHundred_iff`).
-/
import AdaptiveMtu.Proofs.Model.ExactMean

namespace AdaptiveMtu

open Binary64

/-! ### The nearest whole hundred -/

/-- The whole hundred that is nearest to a rational, the upper one of two. -/
structure NearestHundred (q : ℚ) (mtu : ℕ) : Prop where
  whole : 100 ∣ mtu
  above : -50 < mtu - q
  below : mtu - q ≤ 50

/-- **There is one nearest whole hundred, and the whole part of a number has the same.** -/
theorem nearestHundred_iff {q : ℚ} {mtu : ℕ} (hq : 0 ≤ q) (hroom : ⌊q⌋₊ + 50 ≤ largestCount) :
    NearestHundred q mtu ↔ mtu = roundToHundred ⌊q⌋₊ := by
  have hfloor : (⌊q⌋₊ : ℚ) ≤ q := Nat.floor_le hq
  have hnext : q < ⌊q⌋₊ + 1 := Nat.lt_floor_add_one q
  rw [roundToHundred_eq hroom]
  obtain ⟨bytes, hbytes⟩ : ∃ bytes, ⌊q⌋₊ = bytes := ⟨_, rfl⟩
  rw [hbytes] at hfloor hnext ⊢
  constructor
  · rintro ⟨⟨hundreds, rfl⟩, habove, hbelow⟩
    have hlow : ((100 * hundreds : ℕ) : ℚ) < (bytes + 51 : ℕ) := by
      push_cast at hbelow ⊢
      linarith
    have hhigh : ((bytes : ℕ) : ℚ) < (100 * hundreds + 50 : ℕ) := by
      push_cast at habove ⊢
      linarith
    have hlow' : 100 * hundreds < bytes + 51 := by exact_mod_cast hlow
    have hhigh' : bytes < 100 * hundreds + 50 := by exact_mod_cast hhigh
    omega
  · rintro rfl
    obtain ⟨mtu, hmtu⟩ : ∃ mtu, (bytes + 50) / 100 * 100 = mtu := ⟨_, rfl⟩
    have hlow : mtu ≤ bytes + 50 := by omega
    have hhigh : bytes + 1 ≤ mtu + 50 := by omega
    have hlow' : (mtu : ℚ) ≤ bytes + 50 := by exact_mod_cast hlow
    have hhigh' : (bytes : ℚ) + 1 ≤ mtu + 50 := by exact_mod_cast hhigh
    rw [hmtu]
    refine ⟨⟨(bytes + 50) / 100, by omega⟩, by linarith, by linarith⟩

/-! ### Numbers within bounds -/

/-- The rational within bounds that is nearest to the given one. -/
def MtuBounds.within (b : MtuBounds) (q : ℚ) : ℚ := Max.max (b.min : ℚ) (Min.min q b.max)

theorem MtuBounds.floor_within (b : MtuBounds) (q : ℚ) :
    ⌊b.within q⌋₊ = Max.max b.min (Min.min ⌊q⌋₊ b.max) := by
  rw [within, Nat.floor_mono.map_max, Nat.floor_mono.map_min, Nat.floor_natCast, Nat.floor_natCast]

theorem MtuBounds.within_nonneg (b : MtuBounds) (q : ℚ) : 0 ≤ b.within q :=
  (Nat.cast_nonneg b.min).trans (le_max_left _ _)

/-- Rounding has room for whatever is within bounds. -/
theorem MtuBounds.room_within (b : MtuBounds) (q : ℚ) : ⌊b.within q⌋₊ + 50 ≤ largestCount := by
  have hmax : b.max ≤ 9000 := b.max_le_largest
  have hmin := b.min_le_max
  rw [floor_within]
  unfold largestCount
  omega

namespace Model

variable {χ : Type} [Predictor χ]

/-- A model answers exactly if it has a number to tell. -/
def AnswersTogether (m : Model χ) (v : FeatureVector) : Prop :=
  (∃ mtu, (m.predict v).1 = .ok mtu) ↔ ∃ r, (m.raw v).1 = some r

/-- The number that a model tells is finite, and the whole hundred nearest to it within bounds, which is that
of its whole part, is the one MTU that the model answers. -/
def RoundsRaw (m : Model χ) (bounds : MtuBounds) (v : FeatureVector) : Prop :=
  ∀ mtu r, (m.predict v).1 = .ok mtu → (m.raw v).1 = some r →
    r.isFinite = true ∧ (∀ n, NearestHundred (bounds.within (value r)) n ↔ n = mtu) ∧
      roundToHundred ⌊bounds.within (value r)⌋₊ = mtu

/-- To answer the whole hundred of the whole part is enough. -/
theorem roundsRaw_of_floor {m : Model χ} {bounds : MtuBounds} {v : FeatureVector}
    (h : ∀ mtu r, (m.predict v).1 = .ok mtu → (m.raw v).1 = some r →
      r.isFinite = true ∧ mtu = roundToHundred ⌊bounds.within (value r)⌋₊) : m.RoundsRaw bounds v := by
  intro mtu r hmtu hr
  obtain ⟨hfinite, rfl⟩ := h mtu r hmtu hr
  refine ⟨hfinite, fun n => ?_, rfl⟩
  exact nearestHundred_iff (bounds.within_nonneg _) (bounds.room_within _)

/-! ### Linear models -/

theorem truncate_clamp (bounds : MtuBounds) {r : Float} (hr : r.isFinite = true) :
    truncate (clamp (ofCount bounds.min) (ofCount bounds.max) r) = ⌊bounds.within (value r)⌋₊ := by
  obtain ⟨⟨hlow, hlowValue⟩, ⟨hhigh, hhighValue⟩, hle⟩ := bounds.ofCount_ends
  have hroom := bounds.room_within (value r)
  obtain ⟨hfinite, hvalue⟩ := value_clamp hlow hhigh hr hle
  rw [truncate_eq hfinite, hvalue, hlowValue, hhighValue]
  exact Nat.min_eq_left ((Nat.le_add_right _ 50).trans hroom)

theorem linear_together (learner : Learner) (v : FeatureVector) :
    (linear learner : Model χ).AnswersTogether v := by
  show (∃ mtu, learner.predict v = .ok mtu) ↔ ∃ r, learner.raw v = some r
  by_cases hfinite : (learner.weights.dot v).isFinite = true
  · exact iff_of_true ⟨_, if_pos hfinite⟩ ⟨_, if_pos hfinite⟩
  · have hpredict : learner.predict v = .error _ := if_neg hfinite
    have hraw : learner.raw v = none := if_neg hfinite
    simp [hpredict, hraw]

theorem linear_roundsRaw (learner : Learner) (v : FeatureVector) :
    (linear learner : Model χ).RoundsRaw learner.bounds v := by
  refine roundsRaw_of_floor fun mtu r hmtu hr => ?_
  replace hmtu : learner.predict v = .ok mtu := hmtu
  replace hr : learner.raw v = some r := hr
  obtain ⟨hfinite, hsum⟩ := Option.ite_none_right_eq_some.mp hr
  cases hsum
  rw [Learner.predict_of_finite hfinite, truncate_clamp _ hfinite] at hmtu
  exact ⟨hfinite, (Except.ok.inj hmtu).symm⟩

/-! ### Ensembles -/

theorem ensemble_together (members : List (Model χ)) (v : FeatureVector) :
    (ensemble members).AnswersTogether v := by
  unfold AnswersTogether
  rw [predict, raw]
  rcases predictAll v members with ⟨collected, next⟩
  cases collected with
  | error fault => simp [Except.bind, Except.toOption]
  | ok mtus =>
      cases hmean : mean mtus with
      | error fault => simp [Except.bind, Except.map, Except.toOption, hmean]
      | ok r => simp [Except.bind, Except.map, Except.toOption, hmean]

/-- A mean that is hardly outside the widest bounds is rounded as if it were within them. -/
theorem roundMean_eq {r : Float} (hr : r.isFinite = true) (hlow : (575 : ℕ) ≤ value r)
    (hhigh : value r ≤ (9001 : ℕ)) :
    roundMean r = roundToHundred ⌊MtuBounds.full.within (value r)⌋₊ := by
  obtain ⟨hmin, hmax⟩ := truncate_mem hr hlow hhigh (by decide)
  have hwhole : truncate r = ⌊value r⌋₊ := by
    have hfloor : ⌊value r⌋₊ ≤ 9001 := Nat.floor_le_of_le hhigh
    rw [truncate_eq hr]
    exact Nat.min_eq_left (hfloor.trans (by decide))
  rw [roundMean, hwhole, MtuBounds.floor_within]
  rw [hwhole] at hmin hmax
  obtain ⟨bytes, hbytes⟩ : ∃ bytes, ⌊value r⌋₊ = bytes := ⟨_, rfl⟩
  rw [hbytes] at hmin hmax ⊢
  have hfull : MtuBounds.full.min = 576 ∧ MtuBounds.full.max = 9000 := ⟨rfl, rfl⟩
  have hroom : bytes + 50 ≤ largestCount := by
    unfold largestCount
    omega
  have hroom' : max 576 (min bytes 9000) + 50 ≤ largestCount := by
    unfold largestCount
    omega
  rw [hfull.1, hfull.2, roundToHundred_eq hroom, roundToHundred_eq hroom']
  have hsame : (bytes + 50) / 100 * 100 = (max 576 (min bytes 9000) + 50) / 100 * 100 := by omega
  rw [← hsame]
  exact MtuBounds.full.clamp_of_mem (by rw [hfull.1]; omega) (by rw [hfull.2]; omega)

theorem ensemble_roundsRaw {members : List (Model χ)} {v : FeatureVector}
    (hmembers : ∀ m ∈ members, ∀ mtu, (m.predict v).1 = .ok mtu →
      smallestMtu ≤ mtu ∧ mtu ≤ largestMtu)
    (hroom : members.length * largestMtu ≤ largestCount) : (ensemble members).RoundsRaw .full v := by
  refine roundsRaw_of_floor fun mtu r hmtu hr => ?_
  have hne : members ≠ [] := by
    rintro rfl
    cases hr
  obtain ⟨collected, hcollected, hpredict, hraw⟩ := predict_ensemble hne v
  rw [hpredict] at hmtu
  rw [hraw] at hr
  cases hcollected with
  | failure mtus fault rest _ => cases hr
  | all mtus hall =>
      cases hmtu
      cases hr
      have hlength : mtus.length = members.length := length_of_answers hall
      have hmtus : mtus ≠ [] := by
        rintro rfl
        exact hne (List.length_eq_zero_iff.mp hlength.symm)
      have hbounds : ∀ mtu ∈ mtus, 575 + 1 ≤ mtu ∧ mtu ≤ 9000 := by
        intro mtu hmtu
        have hmem : .ok mtu ∈ members.map fun m => (m.predict v).1 := hall ▸ List.mem_map_of_mem hmtu
        obtain ⟨m, hm, hanswer⟩ := List.mem_map.mp hmem
        exact hmembers m hm mtu hanswer
      obtain ⟨hfinite, hlow, hhigh⟩ := average_mem hmtus hbounds (by decide) (by rwa [hlength])
      exact ⟨hfinite, roundMean_eq hfinite hlow hhigh⟩

/-- **A prediction is the whole hundred nearest to the raw one within the bounds.**  This holds of linear models
with any weights, and of ensembles of any models that were built and have learned since.  Both predictions fail
together.  The number of members is so that the sum of their answers is a count; a machine has no room
for more. -/
theorem predict_rounds_raw (v : FeatureVector) :
    (∀ learner : Learner, (linear learner : Model χ).AnswersTogether v ∧
      (linear learner : Model χ).RoundsRaw learner.bounds v) ∧
    ∀ recipes : List Recipe,
      (ensemble (recipes.map Recipe.make) : Model χ).AnswersTogether v ∧
        (recipes.length * largestMtu ≤ largestCount →
          (ensemble (recipes.map Recipe.make) : Model χ).RoundsRaw .full v) := by
  refine ⟨fun learner => ⟨linear_together learner v, linear_roundsRaw learner v⟩, fun recipes => ?_⟩
  refine ⟨ensemble_together _ v, fun hroom => ensemble_roundsRaw ?_ ?_⟩
  · intro m hm mtu hmtu
    obtain ⟨r, -, rfl⟩ := List.mem_map.mp hm
    exact built_answer_mem r.kind r.lessons v mtu hmtu
  · rwa [List.length_map]

/-- A rule model and a linear one, both new. -/
def freshDuo : List Recipe :=
  [.rules 1500, .linear none].map fun kind => ⟨fun _ => .error .notFound, .full, kind, []⟩

/-- They answer 1500 and 1200, and the half of a hundred in their mean goes up. -/
theorem freshDuo_rounds_up :
    freshDuo.length * largestMtu ≤ largestCount ∧
      ((ensemble (freshDuo.map Recipe.make : List (Model Empty))).predict .empty).1 = .ok 1400 ∧
      ((ensemble (freshDuo.map Recipe.make : List (Model Empty))).raw .empty).1 = some 1350 ∧
      NearestHundred (MtuBounds.full.within (value 1350)) 1400 ∧
      ¬NearestHundred (MtuBounds.full.within (value 1350)) 1300 := by
  have hroom : freshDuo.length * largestMtu ≤ largestCount := by decide
  have hpredict : ((ensemble (freshDuo.map Recipe.make : List (Model Empty))).predict .empty).1
      = .ok 1400 := eq_ok_of_toOption (by decide +kernel)
  have hraw : ((ensemble (freshDuo.map Recipe.make : List (Model Empty))).raw .empty).1
      = some 1350 := by decide +kernel
  obtain ⟨-, hrounds⟩ := (predict_rounds_raw (χ := Empty) .empty).2 freshDuo
  obtain ⟨-, hnearest, -⟩ := hrounds hroom 1400 1350 hpredict hraw
  exact ⟨hroom, hpredict, hraw, (hnearest 1400).mpr rfl, fun h => by cases (hnearest 1300).mp h⟩

end Model

end AdaptiveMtu
