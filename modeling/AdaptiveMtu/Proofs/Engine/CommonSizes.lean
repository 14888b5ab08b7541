/-
Answers moved to the MTUs that links commonly have.

A prediction is first moved to the common size of its band, and that size to the nearest one of those
inside the bounds, or to the nearest bound if there is none inside.  `NearestOf` says so without the
way in which it is found: one choice is nearer than all others.  That it is the only nearest one is what
makes the answers monotone: of two numbers in order, the nearest choices are in order too.
-/
import AdaptiveMtu.Model.Scripted
import AdaptiveMtu.Proofs.Binary64.Extended
import AdaptiveMtu.Proofs.Bounds
import AdaptiveMtu.Proofs.Session.Step
import Mathlib.Data.Nat.Dist

namespace AdaptiveMtu

/-! ### The nearest of several choices -/

/-- One of several choices that is nearer to a number than all others. -/
structure NearestOf (choices : List ℕ) (target answer : ℕ) : Prop where
  mem : answer ∈ choices
  nearer : ∀ other ∈ choices, other ≠ answer → Nat.dist answer target < Nat.dist other target

namespace NearestOf

variable {choices : List ℕ} {target target' answer answer' : ℕ}

theorem of_mem (h : target ∈ choices) : NearestOf choices target target where
  mem := h
  nearer := by
    intro other _ hne
    unfold Nat.dist
    omega

/-- The largest choice is the nearest one to whatever is above it. -/
theorem of_le (hmem : answer ∈ choices) (hlargest : ∀ other ∈ choices, other ≤ answer)
    (h : answer ≤ target) : NearestOf choices target answer where
  mem := hmem
  nearer := by
    intro other hother hne
    have := hlargest other hother
    unfold Nat.dist
    omega

/-- The least choice is the nearest one to whatever is below it. -/
theorem of_ge (hmem : answer ∈ choices) (hleast : ∀ other ∈ choices, answer ≤ other)
    (h : target ≤ answer) : NearestOf choices target answer where
  mem := hmem
  nearer := by
    intro other hother hne
    have := hleast other hother
    unfold Nat.dist
    omega

/-- **The nearest choices of numbers in order are in order.** -/
theorem mono (h : NearestOf choices target answer) (h' : NearestOf choices target' answer')
    (hle : target ≤ target') : answer ≤ answer' := by
  by_contra hgt
  have hnear := h.nearer answer' h'.mem (by omega)
  have hnear' := h'.nearer answer h.mem (by omega)
  unfold Nat.dist at hnear hnear'
  omega

end NearestOf

/-! ### Common sizes within bounds -/

variable {bounds : MtuBounds} {size size' : ℕ}

theorem mem_standardInside :
    size ∈ standardInside bounds ↔ size ∈ standardMtus ∧ bounds.min ≤ size ∧ size ≤ bounds.max := by
  simp [standardInside]

theorem sorted_standardInside (bounds : MtuBounds) : (standardInside bounds).Pairwise (· < ·) :=
  List.Pairwise.filter _ (by decide)

/-- What a common size may move to: the common sizes inside the bounds, or the bounds if none is inside. -/
def snapChoices (bounds : MtuBounds) : List ℕ :=
  if standardInside bounds = [] then [bounds.min, bounds.max] else standardInside bounds

/-- A common size above the bounds moves to the last choice. -/
theorem snapWithin_nearest_of_above (h : bounds.max < size) :
    NearestOf (snapChoices bounds) size (snapWithin bounds size) := by
  rw [snapWithin, if_pos h, snapChoices]
  rcases List.eq_nil_or_concat (standardInside bounds) with hnil | ⟨others, last, hlast⟩
  · have hclamp : bounds.clamp size = bounds.max := by
      have := bounds.min_le_max
      rw [MtuBounds.clamp, clampNat, if_neg (by omega), if_pos h]
    rw [hnil, if_pos rfl, List.getLast?_nil, Option.getD_none, hclamp]
    refine .of_le (by simp) ?_ h.le
    simp [bounds.min_le_max]
  · have hmem : last ∈ standardInside bounds := by simp [hlast]
    have hsorted := sorted_standardInside bounds
    rw [hlast, List.concat_eq_append, List.pairwise_append] at hsorted
    rw [hlast, List.concat_eq_append, if_neg (by simp), List.getLast?_concat, Option.getD_some]
    refine .of_le (by simp) ?_ ((mem_standardInside.mp hmem).2.2.trans h.le)
    intro other hother
    rcases List.mem_append.mp hother with hbefore | hother
    · exact (hsorted.2.2 other hbefore last (List.mem_singleton_self last)).le
    · exact (List.mem_singleton.mp hother).le

/-- A common size below the bounds moves to the first choice. -/
theorem snapWithin_nearest_of_below (h : size < bounds.min) :
    NearestOf (snapChoices bounds) size (snapWithin bounds size) := by
  have hle := bounds.min_le_max
  rw [snapWithin, if_neg (by omega), if_pos h, snapChoices]
  cases hinside : standardInside bounds with
  | nil =>
      have hclamp : bounds.clamp size = bounds.min := by
        rw [MtuBounds.clamp, clampNat, if_pos h]
      rw [if_pos rfl, List.head?_nil, Option.getD_none, hclamp]
      refine .of_ge (by simp) ?_ h.le
      simp [hle]
  | cons first others =>
      have hmem : first ∈ standardInside bounds := by simp [hinside]
      have hsorted := sorted_standardInside bounds
      rw [hinside, List.pairwise_cons] at hsorted
      rw [if_neg (List.cons_ne_nil _ _), List.head?_cons, Option.getD_some]
      refine .of_ge (List.mem_cons_self) ?_ (h.le.trans (mem_standardInside.mp hmem).2.1)
      intro other hother
      rcases List.mem_cons.mp hother with rfl | hafter
      · exact Nat.le_refl _
      · exact (hsorted.1 other hafter).le

/-- **A common size moves to the nearest choice.** -/
theorem snapWithin_nearest (h : size ∈ standardMtus) :
    NearestOf (snapChoices bounds) size (snapWithin bounds size) := by
  by_cases habove : bounds.max < size
  · exact snapWithin_nearest_of_above habove
  by_cases hbelow : size < bounds.min
  · exact snapWithin_nearest_of_below hbelow
  have hmem : size ∈ standardInside bounds :=
    mem_standardInside.mpr ⟨h, not_lt.mp hbelow, not_lt.mp habove⟩
  rw [snapWithin, if_neg habove, if_neg hbelow, snapChoices, if_neg (List.ne_nil_of_mem hmem)]
  exact .of_mem hmem

theorem snapWithin_mem (bounds : MtuBounds) (h : size ∈ standardMtus) :
    bounds.min ≤ snapWithin bounds size ∧ snapWithin bounds size ≤ bounds.max := by
  have hle := bounds.min_le_max
  have hmem : snapWithin bounds size ∈ snapChoices bounds := (snapWithin_nearest h).mem
  unfold snapChoices at hmem
  split_ifs at hmem with hnil
  · simp only [List.mem_cons, List.not_mem_nil, or_false] at hmem
    omega
  · exact (mem_standardInside.mp hmem).2

/-! ### Bands -/

theorem snapToStandard_mem (x : Float) : snapToStandard x ∈ standardMtus := by
  unfold snapToStandard
  split_ifs <;> decide

/-- A choice between two numbers by a condition that the larger argument meets only if the smaller one does. -/
theorem ite_le_ite {p q : Prop} [Decidable p] [Decidable q] {low high high' : ℕ} (hqp : q → p)
    (hlow : low ≤ high') (hhigh : high ≤ high') :
    (if p then low else high) ≤ if q then low else high' := by
  split_ifs with hp hq hq
  · exact Nat.le_refl _
  · exact hlow
  · exact absurd (hqp hq) hp
  · exact hhigh

theorem snapToStandard_mono {x y : Float} (h : x ≤ y) : snapToStandard x ≤ snapToStandard y := by
  have hband : ∀ limit : Float, y < limit → x < limit := fun _ => Binary64.lt_of_le_of_lt h
  unfold snapToStandard
  refine ite_le_ite (hband 800) (by split_ifs <;> decide) ?_
  refine ite_le_ite (hband 1300) (by split_ifs <;> decide) ?_
  refine ite_le_ite (hband 1450) (by split_ifs <;> decide) ?_
  refine ite_le_ite (hband 1550) (by split_ifs <;> decide) ?_
  exact ite_le_ite (hband 4000) (by decide) (Nat.le_refl _)

/-! ### Answers of an engine -/

namespace Engine

variable {σ : Type}

/-- An engine that serves common sizes asks its model, and the model answers an MTU with a raw prediction. -/
structure ServesCommon [Predictor σ] (e : Engine σ) (v : FeatureVector) (mtu : ℕ)
    (raw : Option Float) : Prop where
  sizes : e.discretization = .standardSizes
  gate : e.gate.value = none
  answer : (askModel e.model v).1 = .ok (mtu, raw)

namespace ServesCommon

variable [Predictor σ] {e : Engine σ} {v : FeatureVector} {mtu : ℕ} {raw : Option Float}

theorem predict_mtu (h : e.ServesCommon v mtu raw) (timing : Timing) :
    (e.predict v timing).1.mtu = e.settle mtu raw := by
  rcases e.predict_asks v timing with ⟨fixed, hgate, -⟩ | ⟨answer, raw', next, -, hask, heq⟩ |
    ⟨fault, next, -, hask, -⟩
  · rw [h.gate] at hgate
    cases hgate
  · have hanswer := h.answer
    rw [hask] at hanswer
    cases hanswer
    rw [heq]
  · have hanswer := h.answer
    rw [hask] at hanswer
    cases hanswer

/-- The last clamp has nothing left to do. -/
theorem settle_eq (h : e.ServesCommon v mtu raw) :
    e.settle mtu raw = snapWithin e.bounds (snapToStandard (raw.getD (Binary64.ofCount mtu))) := by
  rw [settle, h.sizes]
  obtain ⟨hmin, hmax⟩ := snapWithin_mem e.bounds (snapToStandard_mem (raw.getD (Binary64.ofCount mtu)))
  exact e.bounds.clamp_of_mem hmin hmax

theorem predict_eq (h : e.ServesCommon v mtu raw) (timing : Timing) :
    (e.predict v timing).1.mtu
      = snapWithin e.bounds (snapToStandard (raw.getD (Binary64.ofCount mtu))) :=
  (h.predict_mtu timing).trans h.settle_eq

theorem nearest (h : e.ServesCommon v mtu raw) (timing : Timing) :
    NearestOf (snapChoices e.bounds) (snapToStandard (raw.getD (Binary64.ofCount mtu)))
      (e.predict v timing).1.mtu := by
  rw [h.predict_eq]
  exact snapWithin_nearest (snapToStandard_mem _)

end ServesCommon

variable [Predictor σ] {e : Engine σ} {v : FeatureVector} {mtu : ℕ} {raw : Option Float}

/-- **An engine that serves common sizes answers the one inside its bounds that is nearest to the common size of
the prediction**, or the nearest bound if none is inside.  Bringing the answer into the bounds once more changes
nothing, and a larger raw prediction never comes to a smaller answer, whatever the models are. -/
theorem answers_nearest_common_size (h : e.ServesCommon v mtu raw) (timing : Timing) :
    let target := snapToStandard (raw.getD (Binary64.ofCount mtu))
    let answer := (e.predict v timing).1.mtu
    (e.bounds.min ≤ answer ∧ answer ≤ e.bounds.max) ∧
    (standardInside e.bounds ≠ [] →
      answer ∈ standardMtus ∧ NearestOf (standardInside e.bounds) target answer) ∧
    (standardInside e.bounds = [] → NearestOf [e.bounds.min, e.bounds.max] target answer) ∧
    e.discretization.apply e.bounds mtu raw = answer ∧
    ∀ {τ : Type} [Predictor τ] {e' : Engine τ} {v' : FeatureVector} {mtu' : ℕ} {x y : Float},
      raw = some x → e'.ServesCommon v' mtu' (some y) → e'.bounds = e.bounds → x ≤ y →
        ∀ timing', answer ≤ (e'.predict v' timing').1.mtu := by
  intro target answer
  have hanswer : answer = snapWithin e.bounds target := h.predict_eq timing
  have hnearest : NearestOf (snapChoices e.bounds) target answer := h.nearest timing
  refine ⟨?_, ?_, ?_, ?_, ?_⟩
  · rw [hanswer]
    exact snapWithin_mem e.bounds (snapToStandard_mem _)
  · intro hinside
    rw [snapChoices, if_neg hinside] at hnearest
    exact ⟨(mem_standardInside.mp hnearest.mem).1, hnearest⟩
  · intro hnone
    rwa [snapChoices, if_pos hnone] at hnearest
  · rw [hanswer, h.sizes]
    rfl
  · intro τ _ e' v' mtu' x y hraw h' hbounds hle timing'
    have hnearest' := h'.nearest timing'
    rw [hbounds] at hnearest'
    refine hnearest.mono hnearest' ?_
    show snapToStandard (raw.getD _) ≤ snapToStandard y
    rw [hraw]
    exact snapToStandard_mono hle

/-- An engine with bounds from 1300 to 2000 and a model that always has the same raw prediction. -/
def narrowEngine (raw : Float) : Engine Scripted :=
  .withModel { EngineConfig.standard with
      minMtu := 1300, maxMtu := 2000, discretization := .standardSizes }
    (.ofScript [.mtu 1900 (some raw)] [] false)

/-- Of the two common sizes between these bounds it answers 1400 for 1340, and no less for infinity. -/
theorem narrow_engine_answers :
    let answer := ((narrowEngine 1340).predict .empty ⟨0, 0⟩).1.mtu
    (narrowEngine 1340).ServesCommon .empty 1900 (some 1340) ∧
      (narrowEngine (1 / 0)).ServesCommon .empty 1900 (some (1 / 0)) ∧ (1340 : Float) ≤ 1 / 0 ∧
      standardInside (narrowEngine 1340).bounds = [1400, 1500] ∧ snapToStandard 1340 = 1400 ∧
      NearestOf [1400, 1500] 1400 answer ∧
      answer ≤ ((narrowEngine (1 / 0)).predict .empty ⟨0, 0⟩).1.mtu := by
  intro answer
  have hserves : ∀ raw, (narrowEngine raw).ServesCommon .empty 1900 (some raw) :=
    fun _ => ⟨rfl, rfl, rfl⟩
  have hle : (1340 : Float) ≤ 1 / 0 := by decide +kernel
  have hinside : standardInside (narrowEngine 1340).bounds = [1400, 1500] := by decide
  have htarget : snapToStandard 1340 = 1400 := by decide +kernel
  obtain ⟨-, hnearest, -, -, hlarger⟩ := answers_nearest_common_size (hserves 1340) ⟨0, 0⟩
  have hanswer := (hnearest (by rw [hinside]; exact List.cons_ne_nil _ _)).2
  rw [hinside, Option.getD_some, htarget] at hanswer
  exact ⟨hserves 1340, hserves (1 / 0), hle, hinside, htarget, hanswer,
    hlarger rfl (hserves (1 / 0)) rfl hle ⟨0, 0⟩⟩

end Engine

end AdaptiveMtu
