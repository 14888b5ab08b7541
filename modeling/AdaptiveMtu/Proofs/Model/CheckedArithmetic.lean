/-
Predicting with every operation checked.

Sums and products of counts wrap, a division may have no divisor, and bringing a number into a range
means nothing if the range is crossed or one of its ends is NaN.  Here each such operation of a
prediction is replaced by one that refuses; everything else is as it was.  For a built model nothing is
ever refused, so the answer is the same: what is rounded was brought into bounds before, what an
ensemble adds up are MTUs of at most 9000, and bounds are never crossed.
-/
import AdaptiveMtu.Config.Basic
import AdaptiveMtu.Proofs.Binary64.Extended
import AdaptiveMtu.Proofs.Model.Range

namespace AdaptiveMtu

open Binary64

namespace Checked

/-! ### Operations that refuse -/

/-- Why an operation is refused. -/
inductive Fault where
  /-- The result is no count. -/
  | overflow
  /-- The lower end of a range is not known to be at most the upper one. -/
  | crossedRange
  | zeroDivisor
deriving DecidableEq

/-- The sum of two counts. -/
def add (a b : Nat) : Except Fault Nat :=
  if a + b ≤ largestCount then .ok (a + b) else .error .overflow

/-- The product of two counts. -/
def mul (a b : Nat) : Except Fault Nat :=
  if a * b ≤ largestCount then .ok (a * b) else .error .overflow

/-- The whole quotient of two counts. -/
def div (a b : Nat) : Except Fault Nat :=
  if b = 0 then .error .zeroDivisor else .ok (a / b)

/-- The quotient of two numbers, of which the second is neither zero nor NaN. -/
def divFloat (x y : Float) : Except Fault Float :=
  if 0 < y ∨ y < 0 then .ok (x / y) else .error .zeroDivisor

/-- The sum of two counts, or the largest count if it is refused. -/
def saturatingAdd (a b : Nat) : Nat :=
  match add a b with
  | .ok sum => sum
  | .error _ => largestCount

/-- A count brought into a range. -/
def clamp (low high n : Nat) : Except Fault Nat :=
  if low ≤ high then .ok (clampNat low high n) else .error .crossedRange

/-- A number brought into a range; no range has an end that is NaN. -/
def clampFloat (low high x : Float) : Except Fault Float :=
  if low ≤ high then .ok (Binary64.clamp low high x) else .error .crossedRange

/-! ### Predicting with them -/

/-- The two ends of the bounds that two numbers stand for. -/
def ends (min max : Nat) : Except Fault (Nat × Nat) := do
  let low ← clamp smallestMtu largestMtu min
  let high ← clamp low largestMtu max
  return (low, high)

/-- The multiple of a hundred nearest to an MTU. -/
def round (mtu : Nat) : Except Fault Nat := do
  let sum ← add mtu 50
  let hundreds ← div sum 100
  mul hundreds 100

/-- The nearest MTU of the range, rounded. -/
def finalize (b : MtuBounds) (mtu : Nat) : Except Fault Nat := do
  round (← clamp b.min b.max mtu)

/-- Reconciling an MTU with the average packet size. -/
def reconcile (mtu averageSize : Nat) : Except Fault Nat := do
  if mtu < averageSize then return min (scaleMtu mtu 1.05) (saturatingAdd averageSize 100)
  else
    let half ← div mtu 2
    return if averageSize < half then scaleMtu mtu 0.95 else mtu

/-- The answer of the rules. -/
def rules (base : Nat) (bounds : MtuBounds) (v : FeatureVector) : Except Fault Nat := do
  let c := Conditions.ofFeatures v
  let sized ← reconcile (Rules.speedUp c (Rules.easeOffFurther c (Rules.easeOff c base))) c.averageSize
  finalize bounds (Rules.forNetwork c.network sized)

/-- The answer of the decision model. -/
def decision (bounds : MtuBounds) (v : FeatureVector) : Except Fault Nat := do
  let c := Conditions.ofFeatures v
  let sized ← reconcile (Decision.adjust bounds c (Decision.baseline c.network)) c.averageSize
  finalize bounds sized

/-- The answer of a linear model, which fails if its weighted sum is not finite. -/
def linear (m : Learner) (v : FeatureVector) : Except Fault (Except Error Nat) := do
  let sum := m.weights.dot v
  if sum.isFinite then
    let bounded ← clampFloat (ofCount m.bounds.min) (ofCount m.bounds.max) sum
    return .ok (← round (truncate bounded))
  else return .error (.prediction (.nonFinite sum))

/-- The MTU that an ensemble answers for the sum of the answers of its members. -/
def roundedMean (sum count : Nat) : Except Fault Nat := do
  let mean ← divFloat (ofCount sum) (ofCount count)
  clamp MtuBounds.full.min MtuBounds.full.max (← round (truncate mean))

variable {χ : Type} [Predictor χ]

mutual

/-- The answer of a model. -/
def predict (v : FeatureVector) : Model χ → Except Fault (Except Error Nat)
  | .rules base bounds => (rules base bounds v).map .ok
  | .decision bounds => (decision bounds v).map .ok
  | .linear learner => linear learner v
  | .degraded _ => .ok (.ok fallbackMtu)
  | .custom predictor => .ok (Predictor.predict predictor v).1
  | .ensemble members => do
    if members.isEmpty then return .error (.prediction .noMembers)
    else
      match ← total v 0 members with
      | .error fault => return .error fault
      | .ok sum => return .ok (← roundedMean sum members.length)

/-- A sum with the answers of several models added one by one, up to the first that fails. -/
def total (v : FeatureVector) (sum : Nat) : List (Model χ) → Except Fault (Except Error Nat)
  | [] => .ok (.ok sum)
  | m :: rest => do
    match ← predict v m with
    | .error fault => return .error fault
    | .ok mtu => total v (← add sum mtu) rest

end

/-! ### What is not refused -/

theorem ok_bind {α β : Type} (a : α) (f : α → Except Fault β) :
    ((Except.ok a : Except Fault α) >>= f) = f a := rfl

theorem add_eq {a b : Nat} (h : a + b ≤ largestCount) : add a b = .ok (a + b) := if_pos h

theorem clamp_eq {low high : Nat} (h : low ≤ high) (n : Nat) :
    clamp low high n = .ok (clampNat low high n) := if_pos h

theorem saturatingAdd_eq (a b : Nat) : saturatingAdd a b = min (a + b) largestCount := by
  unfold saturatingAdd add
  split_ifs with h
  · exact (Nat.min_eq_left h).symm
  · exact (Nat.min_eq_right (Nat.le_of_not_le h)).symm

theorem ends_eq (min max : Nat) :
    ends min max = .ok ((MtuBounds.ofRange min max).min, (MtuBounds.ofRange min max).max) := by
  have hlow : clampNat smallestMtu largestMtu min ≤ largestMtu := clampNat_le_high (by decide) min
  rw [ends, clamp_eq (by decide), ok_bind, clamp_eq hlow, ok_bind]
  rfl

theorem round_eq {mtu : Nat} (h : mtu + 50 ≤ largestCount) : round mtu = .ok (roundToHundred mtu) := by
  have hproduct : (mtu + 50) / 100 * 100 ≤ largestCount := (Nat.div_mul_le_self _ _).trans h
  rw [round, add_eq h, ok_bind, div, if_neg (by decide), ok_bind, mul, if_pos hproduct,
    roundToHundred_eq h]

/-- The largest counts cannot be rounded. -/
example : round largestCount = .error .overflow := by decide

theorem finalize_eq (b : MtuBounds) (mtu : Nat) : finalize b mtu = .ok (b.finalize mtu) := by
  have hroom : b.clamp mtu + 50 ≤ largestCount :=
    (Nat.add_le_add_right ((b.clamp_mem mtu).2.trans b.max_le_largest) 50).trans (by decide)
  rw [finalize, clamp_eq b.min_le_max, ok_bind, MtuBounds.finalize, ← round_eq hroom,
    MtuBounds.clamp]

theorem reconcile_eq (mtu averageSize : Nat) :
    reconcile mtu averageSize = .ok (reconcileSize mtu averageSize) := by
  unfold reconcile reconcileSize
  by_cases hsmall : mtu < averageSize
  · rw [if_pos hsmall, if_pos hsmall, saturatingAdd_eq]
    rfl
  · rw [if_neg hsmall, if_neg hsmall, div, if_neg (by decide), ok_bind]
    rfl

theorem rules_eq (base : Nat) (bounds : MtuBounds) (v : FeatureVector) :
    rules base bounds v = .ok (Rules.predict base bounds v) := by
  simp only [rules, reconcile_eq, ok_bind, finalize_eq]
  rfl

theorem decision_eq (bounds : MtuBounds) (v : FeatureVector) :
    decision bounds v = .ok (Decision.predict bounds v) := by
  simp only [decision, reconcile_eq, ok_bind, finalize_eq]
  rfl

/-- As binary64 numbers, the ends of bounds are in order too. -/
theorem linear_eq (m : Learner) (v : FeatureVector) : linear m v = .ok (m.predict v) := by
  cases hfinite : (m.weights.dot v).isFinite with
  | false =>
      rw [Learner.predict_of_not_finite hfinite, linear, if_neg (by rw [hfinite]; simp)]
      rfl
  | true =>
      obtain ⟨⟨hlow, -⟩, ⟨hhigh, -⟩, hends⟩ := m.bounds.ofCount_ends
      have hrange : ofCount m.bounds.min ≤ ofCount m.bounds.max := (le_iff hlow hhigh).mpr hends
      have hbytes := (m.bounds.truncate_clamp_mem hfinite).2.trans m.bounds.max_le_largest
      have hroom := (Nat.add_le_add_right hbytes 50).trans (by decide : 9000 + 50 ≤ largestCount)
      rw [Learner.predict_of_finite hfinite, linear, if_pos hfinite, clampFloat, if_pos hrange,
        ok_bind, round_eq hroom]
      rfl

/-- The mean of MTUs has a divisor and is small. -/
theorem roundedMean_eq {mtus : List Nat} (hne : mtus ≠ []) (h : ∀ mtu ∈ mtus, WholeWithin 600 9000 mtu)
    (hcount : mtus.length * largestMtu ≤ largestCount) :
    roundedMean mtus.sum mtus.length = .ok (Model.roundMean (Model.average mtus)) := by
  have hsum : mtus.sum ≤ largestCount :=
    (Model.sum_mem fun mtu hmtu => ⟨(h mtu hmtu).low_le, (h mtu hmtu).le_high⟩).2.trans hcount
  have hlength : mtus.length ≤ 2 ^ 53 := by
    unfold largestMtu largestCount at hcount
    omega
  obtain ⟨hfinite, hvalue⟩ := ofCount_spec hlength
  have hpos : 0 < ofCount mtus.length := by
    rw [lt_iff isFinite_zero hfinite, value_zero, hvalue]
    exact_mod_cast List.length_pos_of_ne_nil hne
  have hnear : ∀ mtu ∈ mtus, 599 + 1 ≤ mtu ∧ mtu ≤ 9000 :=
    fun mtu hmtu => ⟨(h mtu hmtu).low_le, (h mtu hmtu).le_high⟩
  obtain ⟨hmean, hlow, hhigh⟩ := Model.average_mem hne hnear (by decide) hcount
  obtain ⟨-, hbytes⟩ := truncate_mem hmean hlow hhigh (by decide)
  have hroom := (Nat.add_le_add_right hbytes 50).trans (by decide : 9000 + 1 + 50 ≤ largestCount)
  have haverage : ofCount mtus.sum / ofCount mtus.length = Model.average mtus := by
    rw [Model.average, Model.total_eq_sum hsum]
  rw [roundedMean, divFloat, if_pos (.inl hpos), ok_bind, haverage, round_eq hroom, ok_bind,
    clamp_eq MtuBounds.full.min_le_max]
  rfl

/-! ### Built models -/

/-- A model answers from 600 to 9000, and nothing is refused on the way. -/
def Unfailing (m : Model χ) : Prop :=
  m.AnswersWithin 600 9000 ∧ ∀ v, predict v m = .ok (m.predict v).1

theorem unfailing_basic {bounds : MtuBounds} {m : Model χ} (h : m.Basic bounds) : Unfailing m := by
  refine ⟨h.answersWithin.1, fun v => ?_⟩
  cases h with
  | rules base => rw [predict, rules_eq]; rfl
  | decision => rw [predict, decision_eq]; rfl
  | linear learner _ => exact linear_eq learner v
  | degraded reason => rfl

/-- Adding up the answers of members that are not refused anything is not refused either. -/
theorem total_eq {members : List (Model χ)} (h : ∀ m ∈ members, Unfailing m) (v : FeatureVector)
    {sum : Nat} (hroom : sum + members.length * largestMtu ≤ largestCount) :
    total v sum members = .ok ((Model.predictAll v members).1.map fun mtus => sum + mtus.sum) := by
  induction members generalizing sum with
  | nil => rfl
  | cons m rest ih =>
      obtain ⟨hanswers, hpredict⟩ := h m List.mem_cons_self
      rw [total, hpredict v, ok_bind, Model.predictAll]
      rcases hasked : m.predict v with ⟨answer, next⟩
      cases answer with
      | error fault => rfl
      | ok mtu =>
          have hmtu : mtu ≤ largestMtu := (hanswers v mtu (by rw [hasked])).le_high
          rw [List.length_cons, Nat.succ_mul] at hroom
          have hrestRoom : sum + mtu + rest.length * largestMtu ≤ largestCount := by omega
          have hrest := ih (fun m hm => h m (List.mem_cons_of_mem _ hm)) hrestRoom
          show (add sum mtu >>= fun sum => total v sum rest) = _
          rw [add_eq (by omega), ok_bind, hrest]
          rcases Model.predictAll v rest with ⟨collected, nextRest⟩
          cases collected with
          | error fault => rfl
          | ok mtus =>
              have hsum : sum + mtu + mtus.sum = sum + (mtu :: mtus).sum := by
                rw [List.sum_cons, Nat.add_assoc]
              simp only [Except.map, hsum]

theorem unfailing_ensemble {members : List (Model χ)} (hmembers : members ≠ [])
    (hcount : members.length * largestMtu ≤ largestCount) (h : ∀ m ∈ members, Unfailing m) :
    Unfailing (.ensemble members) := by
  have hlow : WholeWithin 600 9000 600 := ⟨by decide, by decide, by decide⟩
  have hhigh : WholeWithin 600 9000 9000 := ⟨by decide, by decide, by decide⟩
  refine ⟨Model.answersWithin_ensemble hmembers hcount hlow hhigh fun m hm => (h m hm).1, fun v => ?_⟩
  have hcollected := Model.collected_predictAll v members
  rw [predict, if_neg (by simpa using hmembers), total_eq h v (by rwa [Nat.zero_add]), ok_bind,
    Model.predict]
  rcases hall : Model.predictAll v members with ⟨collected, next⟩
  rw [hall] at hcollected
  cases hcollected with
  | failure mtus fault rest _ => rfl
  | all mtus hmtus =>
      obtain ⟨hlength, hmem⟩ := Model.answers_of_map_eq hmtus
      have hne : mtus ≠ [] := by
        rintro rfl
        exact hmembers (List.length_eq_zero_iff.mp hlength.symm)
      have hwhole : ∀ mtu ∈ mtus, WholeWithin 600 9000 mtu := by
        intro mtu hmtu
        obtain ⟨m, hm, hanswer⟩ := hmem mtu hmtu
        exact (h m hm).1 v mtu hanswer
      show (roundedMean (0 + mtus.sum) members.length >>= fun mtu =>
        (.ok (.ok mtu) : Except Fault (Except Error Nat))) = _
      rw [Nat.zero_add, ← hlength, roundedMean_eq hne hwhole (by rwa [hlength]), ok_bind]
      simp only [Except.bind, Model.mean_of_ne_nil hne]
      rfl

/-- **No operation of a prediction is refused**: making the bounds of any configuration brings numbers into
ranges that are not crossed, and whatever the model was taught, asking it with every operation checked gives
the answer that it gives without. -/
theorem arithmetic_never_faults (read : TextReader) (c : EngineConfig)
    (hwidth : c.model.width < 2 ^ 32) (samples : List (FeatureVector × Nat)) (v : FeatureVector) :
    let m : Model χ := (Model.build read c.bounds c.model).learnAll samples
    ends c.minMtu c.maxMtu = .ok (c.bounds.min, c.bounds.max) ∧ predict v m = .ok (m.predict v).1 := by
  intro m
  refine ⟨ends_eq c.minMtu c.maxMtu, ?_⟩
  have hcount : c.model.width * largestMtu ≤ largestCount :=
    (Nat.mul_le_mul_right largestMtu (Nat.le_of_lt hwidth)).trans (by decide)
  have hunfailing : Unfailing m := by
    refine Model.built_induct (P := Unfailing) c.model samples (fun m hm => unfailing_basic hm) ?_
    intro members hmembers hlength hm
    exact unfailing_ensemble hmembers ((Nat.mul_le_mul_right largestMtu hlength).trans hcount) hm
  exact hunfailing.2 v

/-- A configuration of the largest numbers, with bounds that are crossed. -/
def extremeConfig : EngineConfig :=
  { EngineConfig.standard with
    model := .ensemble [.ensemble [], .rules largestCount]
    minMtu := largestCount
    maxMtu := 0 }

/-- The model of this configuration. -/
def extremeModel : Model Empty :=
  (Model.build (fun _ => .error .notFound) extremeConfig.bounds extremeConfig.model).learnAll []

/-- Nothing is refused to this model for the largest packets there are. -/
theorem extreme_model_never_faults :
    extremeConfig.model.width < 2 ^ 32 ∧
    ends extremeConfig.minMtu extremeConfig.maxMtu = .ok (9000, 9000) ∧
    predict (FeatureVector.empty.withAverageSize largestCount) extremeModel
      = .ok (extremeModel.predict (FeatureVector.empty.withAverageSize largestCount)).1 := by
  have hwidth : extremeConfig.model.width < 2 ^ 32 := by decide
  obtain ⟨hends, hpredict⟩ := arithmetic_never_faults (χ := Empty) (fun _ => .error .notFound)
    extremeConfig hwidth [] (FeatureVector.empty.withAverageSize largestCount)
  exact ⟨hwidth, hends, hpredict⟩

end Checked

end AdaptiveMtu
