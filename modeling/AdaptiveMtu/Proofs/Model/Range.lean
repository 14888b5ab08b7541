/-
What a built model can answer, and when it fails.

A single model that was built answers a whole hundred between its rounded bounds, or stands in for one that
could not be built and answers 1400; only a linear model fails, and only if its weighted sum is not
finite.  An ensemble fails if a member does, and the mean of whole hundreds within a range stays in it.
What holds of the leaves therefore holds of the whole tree, at any time of its learning.
-/
import AdaptiveMtu.Proofs.Linear.Starting
import AdaptiveMtu.Proofs.Model.Average

namespace AdaptiveMtu

open Binary64

/-! ### Bounds as numbers -/

namespace MtuBounds

/-- Converted, the ends of bounds are finite and in order; nothing is rounded. -/
theorem ofCount_ends (b : MtuBounds) :
    ((ofCount b.min).isFinite = true ∧ value (ofCount b.min) = b.min) ∧
      ((ofCount b.max).isFinite = true ∧ value (ofCount b.max) = b.max) ∧
        value (ofCount b.min) ≤ value (ofCount b.max) := by
  have hmax : b.max ≤ 2 ^ 53 := b.max_le_largest.trans (by decide)
  have hlow := ofCount_spec (b.min_le_max.trans hmax)
  have hhigh := ofCount_spec hmax
  refine ⟨hlow, hhigh, ?_⟩
  rw [hlow.2, hhigh.2]
  exact_mod_cast b.min_le_max

/-- The whole part of a number that was brought into bounds is within them. -/
theorem truncate_clamp_mem (b : MtuBounds) {x : Float} (hx : x.isFinite = true) :
    b.min ≤ truncate (Binary64.clamp (ofCount b.min) (ofCount b.max) x) ∧
      truncate (Binary64.clamp (ofCount b.min) (ofCount b.max) x) ≤ b.max := by
  obtain ⟨⟨hlow, hlowValue⟩, ⟨hhigh, hhighValue⟩, hends⟩ := b.ofCount_ends
  obtain ⟨hclamp, hge, hle⟩ := clamp_spec hlow hhigh hx hends
  rw [hlowValue] at hge
  rw [hhighValue] at hle
  exact truncate_mem hclamp hge hle (b.max_le_largest.trans (by decide))

end MtuBounds

/-! ### Linear models -/

namespace Learner

theorem bounds_update (m : Learner) (v : FeatureVector) (mtu : Nat) :
    (m.update v mtu).2.bounds = m.bounds := by
  rcases m.update_cases v mtu with ⟨-, heq⟩ | ⟨-, heq⟩
  all_goals
    rw [heq]
    rfl

theorem bounds_learn (m : Learner) (sample : FeatureVector × Nat) :
    (m.learn sample).bounds = m.bounds := m.bounds_update sample.1 sample.2

theorem predict_of_finite {m : Learner} {v : FeatureVector} (h : (m.weights.dot v).isFinite = true) :
    m.predict v = .ok (roundToHundred (truncate
      (clamp (ofCount m.bounds.min) (ofCount m.bounds.max) (m.weights.dot v)))) :=
  if_pos h

theorem predict_of_not_finite {m : Learner} {v : FeatureVector}
    (h : (m.weights.dot v).isFinite = false) :
    m.predict v = .error (.prediction (.nonFinite (m.weights.dot v))) :=
  if_neg (by rw [h]; exact Bool.false_ne_true)

/-- A linear model fails exactly if its weighted sum is not finite. -/
theorem predict_error_iff (m : Learner) (v : FeatureVector) :
    (∃ fault, m.predict v = .error fault) ↔ (m.weights.dot v).isFinite = false := by
  cases hfinite : (m.weights.dot v).isFinite with
  | true => simp [predict_of_finite hfinite]
  | false => simp [predict_of_not_finite hfinite]

/-- What a linear model answers is a whole hundred between its rounded bounds. -/
theorem predict_whole {m : Learner} {v : FeatureVector} {mtu : Nat} (h : m.predict v = .ok mtu) :
    WholeWithin (roundToHundred m.bounds.min) (roundToHundred m.bounds.max) mtu := by
  have hfinite : (m.weights.dot v).isFinite = true := by
    by_contra hinfinite
    simp [predict_of_not_finite (Bool.not_eq_true _ ▸ hinfinite)] at h
  rw [predict_of_finite hfinite] at h
  cases h
  obtain ⟨hge, hle⟩ := m.bounds.truncate_clamp_mem hfinite
  exact m.bounds.round_whole hge hle

end Learner

theorem Artifact.bounds_of_load {read : TextReader} {path : String} {bounds : MtuBounds}
    {learner : Learner} (h : Artifact.load read path bounds = .ok learner) :
    learner.bounds = bounds := by
  rw [(Artifact.spec_of_load h).2]
  rfl

namespace Model

variable {χ : Type}

/-! ### Single models that are built -/

/-- The single models that building comes to. -/
inductive Basic (bounds : MtuBounds) : Model χ → Prop where
  | rules (base : Nat) : Basic bounds (.rules base bounds)
  | decision : Basic bounds (.decision bounds)
  | linear (learner : Learner) (h : learner.bounds = bounds) : Basic bounds (.linear learner)
  | degraded (reason : String) : Basic bounds (.degraded reason)

variable {read : TextReader} {bounds : MtuBounds} {m : Model χ}

theorem BuiltLeaf.basic {leaf : ModelKind} (h : BuiltLeaf read bounds leaf m) : Basic bounds m := by
  cases h with
  | rules base => exact .rules base
  | decision => exact .decision
  | fresh => exact .linear _ rfl
  | loaded h => exact .linear _ (Artifact.bounds_of_load h)
  | rejected _ => exact .degraded _

theorem basic_build {kind : ModelKind} (h : kind.isSingle = true) :
    Basic bounds (build read bounds kind : Model χ) := (builtLeaf_build h).basic

variable [Predictor χ]

theorem Basic.learn (h : Basic bounds m) (sample : FeatureVector × Nat) :
    Basic bounds (m.learn sample) := by
  cases h with
  | rules base => exact .rules base
  | decision => exact .decision
  | degraded reason => exact .degraded reason
  | linear learner h => exact .linear _ ((learner.bounds_update sample.1 sample.2).trans h)

theorem Basic.learnAll (h : Basic bounds m) (samples : List (FeatureVector × Nat)) :
    Basic bounds (m.learnAll samples) := by
  induction samples generalizing m with
  | nil => exact h
  | cons sample rest ih => exact ih (h.learn sample)

/-- **What holds of the single models that building comes to, and of an ensemble if it holds of its
members, holds of every built model at any time of its learning.** -/
theorem built_induct {P : Model χ → Prop} (kind : ModelKind) (samples : List (FeatureVector × Nat))
    (basic : ∀ m, Basic bounds m → P m)
    (ensemble : ∀ members, members ≠ [] → members.length ≤ kind.width → (∀ m ∈ members, P m) →
      P (.ensemble members)) : P ((build read bounds kind).learnAll samples) := by
  rw [learnAll_build]
  refine ModelKind.graft_induct ?_ ensemble
  intro leaf hleaf
  exact basic _ ((basic_build hleaf).learnAll samples)

/-! ### When a model fails -/

theorem Collected.error_iff {answers : List (Except Error Nat)} {collected : Except Error (List Nat)}
    (h : Collected answers collected) :
    (∃ fault, collected = .error fault) ↔ ∃ fault, .error fault ∈ answers := by
  cases h with
  | all mtus h => simp [h]
  | failure mtus fault rest h =>
      refine iff_of_true ⟨fault, rfl⟩ ⟨fault, ?_⟩
      simp [h]

/-- An ensemble fails if some member fails. -/
theorem predict_ensemble_error_iff {members : List (Model χ)} (hmembers : members ≠ [])
    (v : FeatureVector) :
    (∃ fault, ((ensemble members).predict v).1 = .error fault) ↔
      ∃ m ∈ members, ∃ fault, (m.predict v).1 = .error fault := by
  obtain ⟨collected, hcollected, hpredict, -⟩ := predict_ensemble hmembers v
  have hmap : (∃ fault, ((ensemble members).predict v).1 = .error fault) ↔
      ∃ fault, collected = .error fault := by
    rw [hpredict]
    cases collected <;> simp [Except.map]
  rw [hmap, hcollected.error_iff]
  constructor
  · intro ⟨fault, hmem⟩
    obtain ⟨m, hm, h⟩ := List.mem_map.mp hmem
    exact ⟨m, hm, fault, h⟩
  · intro ⟨m, hm, fault, h⟩
    exact ⟨fault, List.mem_map.mpr ⟨m, hm, h⟩⟩

/-- Some linear model at a leaf has a weighted sum that is not finite. -/
def Overflows (v : FeatureVector) (m : Model χ) : Prop :=
  ∃ learner, .linear learner ∈ m.leaves ∧ (learner.weights.dot v).isFinite = false

theorem Basic.predict_error_iff (h : Basic bounds m) (v : FeatureVector) :
    (∃ fault, (m.predict v).1 = .error fault) ↔ m.Overflows v := by
  cases h with
  | linear learner _ =>
      refine (learner.predict_error_iff v).trans ⟨fun h => ⟨learner, List.mem_cons_self, h⟩, ?_⟩
      rintro ⟨other, hmem, hother⟩
      cases List.mem_singleton.mp hmem
      exact hother
  | rules _ | decision | degraded _ =>
      refine iff_of_false (fun ⟨_, h⟩ => by cases h) ?_
      rintro ⟨learner, hmem, -⟩
      cases List.mem_singleton.mp hmem

/-- **A built model fails exactly if the weighted sum of some linear leaf is not finite.** -/
theorem predict_error_iff (kind : ModelKind) (samples : List (FeatureVector × Nat))
    (v : FeatureVector) :
    (∃ fault, (((build read bounds kind).learnAll samples : Model χ).predict v).1 = .error fault) ↔
      ((build read bounds kind).learnAll samples : Model χ).Overflows v := by
  refine built_induct (P := fun m => (∃ fault, (m.predict v).1 = .error fault) ↔ m.Overflows v)
    kind samples (fun m hm => hm.predict_error_iff v) ?_
  intro members hmembers _ ih
  rw [predict_ensemble_error_iff hmembers]
  constructor
  · rintro ⟨m, hm, hfault⟩
    obtain ⟨learner, hleaf, hsum⟩ := (ih m hm).mp hfault
    refine ⟨learner, ?_, hsum⟩
    rw [leaves_ensemble]
    exact List.mem_flatMap.mpr ⟨m, hm, hleaf⟩
  · rintro ⟨learner, hleaf, hsum⟩
    rw [leaves_ensemble] at hleaf
    obtain ⟨m, hm, hleaf⟩ := List.mem_flatMap.mp hleaf
    exact ⟨m, hm, (ih m hm).mpr ⟨learner, hleaf, hsum⟩⟩

/-! ### What a model answers -/

/-- Whatever a model answers is a whole hundred within a range. -/
def AnswersWithin (low high : Nat) (m : Model χ) : Prop :=
  ∀ v mtu, (m.predict v).1 = .ok mtu → WholeWithin low high mtu

theorem answersWithin_ensemble {members : List (Model χ)} {low high : Nat}
    (hmembers : members ≠ []) (hcount : members.length * largestMtu ≤ largestCount)
    (hlow : WholeWithin 600 9000 low) (hhigh : WholeWithin 600 9000 high)
    (h : ∀ m ∈ members, m.AnswersWithin low high) : (ensemble members).AnswersWithin low high := by
  intro v mtu hmtu
  obtain ⟨collected, hcollected, hpredict, -⟩ := predict_ensemble hmembers v
  rw [hpredict] at hmtu
  cases hcollected with
  | failure mtus fault rest _ => cases hmtu
  | all mtus hall =>
      cases hmtu
      obtain ⟨hlength, hmem⟩ := answers_of_map_eq hall
      have hne : mtus ≠ [] := by
        rintro rfl
        exact hmembers (List.length_eq_zero_iff.mp hlength.symm)
      refine roundMean_average hne ?_ hlow hhigh (by rwa [hlength])
      intro mtu hmtu
      obtain ⟨m, hm, hpredict⟩ := hmem mtu hmtu
      exact h m hm v mtu hpredict

/-- A single model answers between its rounded bounds, unless it only stands in for another. -/
theorem Basic.answersWithin (h : Basic bounds m) :
    m.AnswersWithin 600 9000 ∧ (m.isDegraded = false →
      m.AnswersWithin (roundToHundred bounds.min) (roundToHundred bounds.max)) := by
  obtain ⟨hmin, hmax⟩ := bounds.roundToHundred_bounds
  have hwiden : m.AnswersWithin (roundToHundred bounds.min) (roundToHundred bounds.max) →
      m.AnswersWithin 600 9000 :=
    fun h v mtu hmtu => (h v mtu hmtu).mono hmin.low_le hmax.le_high
  suffices hbounds : m.isDegraded = false →
      m.AnswersWithin (roundToHundred bounds.min) (roundToHundred bounds.max) by
    refine ⟨?_, hbounds⟩
    cases h with
    | rules _ | decision | linear _ _ => exact hwiden (hbounds rfl)
    | degraded reason =>
        intro v mtu hmtu
        cases hmtu
        exact ⟨by decide, by decide, by decide⟩
  intro hsound v mtu hmtu
  cases h with
  | rules base =>
      cases hmtu
      exact bounds.finalize_whole _
  | decision =>
      cases hmtu
      exact bounds.finalize_whole _
  | linear learner hbounds =>
      subst hbounds
      exact Learner.predict_whole hmtu
  | degraded reason => cases hsound

theorem isDegraded_ensemble (members : List (Model χ)) :
    (ensemble members).isDegraded = members.any isDegraded := by
  rw [isDegraded]
  induction members with
  | nil => rfl
  | cons m rest ih => rw [anyDegraded, ih, List.any_cons]

theorem isDegraded_of_mem {members : List (Model χ)} (h : (ensemble members).isDegraded = false)
    (m : Model χ) (hm : m ∈ members) : m.isDegraded = false := by
  rw [isDegraded_ensemble, List.any_eq_false] at h
  exact Bool.eq_false_iff.mpr (h m hm)

theorem answersWithin_build {kind : ModelKind} (hcount : kind.width * largestMtu ≤ largestCount)
    (samples : List (FeatureVector × Nat)) :
    ((build read bounds kind).learnAll samples : Model χ).AnswersWithin 600 9000 ∧
      (((build read bounds kind).learnAll samples : Model χ).isDegraded = false →
        ((build read bounds kind).learnAll samples : Model χ).AnswersWithin
          (roundToHundred bounds.min) (roundToHundred bounds.max)) := by
  obtain ⟨hmin, hmax⟩ := bounds.roundToHundred_bounds
  refine built_induct (P := fun m => m.AnswersWithin 600 9000 ∧ (m.isDegraded = false →
    m.AnswersWithin (roundToHundred bounds.min) (roundToHundred bounds.max))) kind samples
    (fun m hm => hm.answersWithin) ?_
  intro members hmembers hwidth ih
  have hmembersCount : members.length * largestMtu ≤ largestCount :=
    (Nat.mul_le_mul_right largestMtu hwidth).trans hcount
  refine ⟨?_, ?_⟩
  · exact answersWithin_ensemble hmembers hmembersCount ⟨by decide, by decide, by decide⟩
      ⟨by decide, by decide, by decide⟩ fun m hm => (ih m hm).1
  · intro hsound
    exact answersWithin_ensemble hmembers hmembersCount hmin hmax
      fun m hm => (ih m hm).2 (isDegraded_of_mem hsound m hm)

/-- **A built model answers a whole hundred from 600 to 9000, within its rounded bounds if nothing in it
only stands in for another, or it fails because the weighted sum of some linear leaf is not finite.**  The
width of the kind is so that the answers of no ensemble add up to more than a count; a machine
has no room for the two quadrillion members that this would take. -/
theorem predict_build (read : TextReader) (bounds : MtuBounds) (kind : ModelKind)
    (samples : List (FeatureVector × Nat)) (v : FeatureVector) :
    let m : Model χ := (build read bounds kind).learnAll samples
    ((∃ fault, (m.predict v).1 = .error fault) ↔
      ∃ learner, .linear learner ∈ m.leaves ∧ (learner.weights.dot v).isFinite = false) ∧
    (kind.width * largestMtu ≤ largestCount → ∀ mtu, (m.predict v).1 = .ok mtu →
      100 ∣ mtu ∧ 600 ≤ mtu ∧ mtu ≤ 9000 ∧
        (m.isDegraded = false →
          roundToHundred bounds.min ≤ mtu ∧ mtu ≤ roundToHundred bounds.max)) := by
  intro m
  refine ⟨predict_error_iff kind samples v, ?_⟩
  intro hcount mtu hmtu
  obtain ⟨hall, hsound⟩ : m.AnswersWithin 600 9000 ∧ (m.isDegraded = false →
      m.AnswersWithin (roundToHundred bounds.min) (roundToHundred bounds.max)) :=
    answersWithin_build hcount samples
  have hwhole := hall v mtu hmtu
  refine ⟨hwhole.whole, hwhole.low_le, hwhole.le_high, ?_⟩
  intro hdegraded
  exact ⟨(hsound hdegraded v mtu hmtu).low_le, (hsound hdegraded v mtu hmtu).le_high⟩

/-- An ensemble within an ensemble, the inner one without members of its own. -/
def nestedKind : ModelKind := .ensemble [.ensemble [], .rules 20000]

/-- A model of that kind with narrow bounds, after an update that failed and one more. -/
def nestedModel : Model Empty :=
  (build (fun _ => .error .notFound) (.ofRange 1450 1730) nestedKind).learnAll
    [({ FeatureVector.empty with throughput := some 1e300 }, 1500), (.empty, 1600)]

theorem eq_ok_of_toOption {α : Type} {x : Except Error α} {a : α} (h : x.toOption = some a) :
    x = .ok a := by
  cases x with
  | error fault => cases h
  | ok b => exact congrArg Except.ok (Option.some.inj h)

/-- Its answer for the largest packet size there is. -/
theorem nestedModel_answer :
    (nestedModel.predict (FeatureVector.empty.withAverageSize largestCount)).1 = .ok 1700 :=
  eq_ok_of_toOption (by decide +kernel)

/-- The answer is a whole hundred between 1500 and 1700, to which the bounds round. -/
theorem nested_ensemble_answers :
    nestedKind.width * largestMtu ≤ largestCount ∧ nestedModel.isDegraded = false ∧
      (nestedModel.predict (FeatureVector.empty.withAverageSize largestCount)).1 = .ok 1700 ∧
      100 ∣ 1700 ∧ roundToHundred (MtuBounds.ofRange 1450 1730).min ≤ 1700 ∧
      1700 ≤ roundToHundred (MtuBounds.ofRange 1450 1730).max := by
  have hwidth : nestedKind.width * largestMtu ≤ largestCount := by decide
  have hsound : nestedModel.isDegraded = false := by decide +kernel
  obtain ⟨hwhole, -, -, hbounds⟩ := (predict_build (fun _ => .error .notFound) (.ofRange 1450 1730)
    nestedKind [({ FeatureVector.empty with throughput := some 1e300 }, 1500), (.empty, 1600)]
    (FeatureVector.empty.withAverageSize largestCount)).2 hwidth 1700 nestedModel_answer
  exact ⟨hwidth, hsound, nestedModel_answer, hwhole, hbounds hsound⟩

end Model

end AdaptiveMtu
