/-
One step of descent, next to the exact step.

Weights and inputs are read as vectors of nine rationals.  In exact arithmetic a step moves the weights
along the inputs, and multiplies the residual of its sample by one minus `stepSize`.  The computed step is
off by a share of the largest weight, as long as the step size is below two: this bounds the inputs, and
so everything that is computed from them.
-/
import AdaptiveMtu.Linear.Learner
import AdaptiveMtu.Proofs.Binary64.Accuracy

namespace AdaptiveMtu

open Binary64

/-- One of the nine inputs. -/
def FeatureVector.input (v : FeatureVector) (i : Fin 9) : Float := v.inputs.get i

/-- One of the nine inputs as the rational that it is. -/
def FeatureVector.exact (v : FeatureVector) (i : Fin 9) : ℚ := value (v.input i)

/-- By how much a step shortens the residual of its sample in exact arithmetic: the rate times the
squared length of the inputs. -/
def stepSize (v : FeatureVector) : ℚ := value Learner.defaultRate * ∑ i, v.exact i ^ 2

/-- The place of a measurement among the nine inputs, behind the constant one. -/
def Field.place : Field → Fin 9
  | .rtt => 1
  | .throughput => 2
  | .loss => 3
  | .congestionWindow => 4
  | .averageSize => 5
  | .sizeDeviation => 6
  | .network => 7
  | .timeOfDay => 8

theorem FeatureVector.input_place (v : FeatureVector) (field : Field) :
    v.input field.place = v.normalizedValue field := by
  cases field <;> rfl

namespace Weights

/-- One of the nine weights. -/
def get (w : Weights) (i : Fin 9) : Float := w.toList.get (i.cast w.length_eq.symm)

/-- The weight of a measurement. -/
def of (w : Weights) (field : Field) : Float := w.get field.place

/-- One of the nine weights as the rational that it is. -/
def exact (w : Weights) (i : Fin 9) : ℚ := value (w.get i)

/-- What the exact weighted sum is short of a sample's MTU. -/
def residual (w : Weights) (sample : FeatureVector × Nat) : ℚ :=
  sample.2 - ∑ i, w.exact i * sample.1.exact i

/-- No weight is larger than this. -/
def Within (w : Weights) (bound : ℚ) : Prop := ∀ i, |w.exact i| ≤ bound

/-! ### Lists as vectors -/

theorem toList_eq_ofFn (w : Weights) : w.toList = List.ofFn w.get := by
  refine List.ext_getElem (by rw [w.length_eq, List.length_ofFn]) ?_
  intro n h1 h2
  rw [List.getElem_ofFn]
  rfl

theorem inputs_eq_ofFn (v : FeatureVector) : v.inputs = List.ofFn v.input := rfl

theorem dot_eq_foldl (w : Weights) (v : FeatureVector) :
    w.dot v = (List.finRange 9).foldl (fun sum i => sum + w.get i * v.input i) (-0.0) := by
  rw [dot, toList_eq_ofFn, inputs_eq_ofFn, List.ofFn_eq_map, List.ofFn_eq_map, List.zipWith_map,
    List.zipWith_self, List.foldl_map]

theorem get_descend (rate : Float) (w : Weights) (sample : FeatureVector × Nat) (i : Fin 9) :
    (w.descend rate sample).get i =
      w.get i + rate * (ofCount sample.2 - w.dot sample.1) * sample.1.input i := by
  simp only [get, descend, FeatureVector.input, List.get_eq_getElem, List.getElem_zipWith]
  rfl

theorem allFinite_iff_get (w : Weights) : w.allFinite = true ↔ ∀ i, (w.get i).isFinite = true := by
  rw [allFinite, List.all_eq_true, toList_eq_ofFn, List.forall_mem_ofFn_iff]

end Weights

/-! ### Inputs of a small step -/

theorem value_defaultRate :
    1 / 100 ≤ value Learner.defaultRate ∧ value Learner.defaultRate ≤ 101 / 10000 := by
  decide +kernel

theorem FeatureVector.exact_zero (v : FeatureVector) : v.exact 0 = 1 := value_one

/-- What all inputs are bounded by if the step size is below two. -/
structure Mild (v : FeatureVector) : Prop where
  le : ∀ i, |v.exact i| ≤ 15
  sum_le : ∑ i, |v.exact i| ≤ 43
  stepSize_lt : stepSize v < 2

variable {v : FeatureVector}

theorem sq_le_sum_sq (v : FeatureVector) (i : Fin 9) : v.exact i ^ 2 ≤ ∑ i, v.exact i ^ 2 :=
  Finset.single_le_sum (fun i _ => sq_nonneg (v.exact i)) (Finset.mem_univ i)

theorem one_le_sum_sq (v : FeatureVector) : 1 ≤ ∑ i, v.exact i ^ 2 := by
  have h := sq_le_sum_sq v 0
  rwa [v.exact_zero, one_pow] at h

theorem sum_sq_lt (h : stepSize v < 2) : ∑ i, v.exact i ^ 2 < 200 := by
  have hmul := mul_le_mul_of_nonneg_right value_defaultRate.1 (one_pos.trans_le (one_le_sum_sq v)).le
  unfold stepSize at h
  linarith

theorem mild_of_stepSize_lt (h : stepSize v < 2) : Mild v := by
  have hsq := sum_sq_lt h
  refine ⟨?_, ?_, h⟩
  · intro i
    refine abs_le_of_sq_le_sq ?_ (by norm_num)
    linarith [sq_le_sum_sq v i]
  · have hcauchy : (∑ i, |v.exact i|) ^ 2 ≤ 9 * ∑ i, v.exact i ^ 2 := by
      have h := sq_sum_le_card_mul_sum_sq (s := Finset.univ) (f := fun i => |v.exact i|)
      simpa using h
    refine abs_le_of_sq_le_sq' ?_ (by norm_num) |>.2
    linarith

theorem Mild.finite (h : Mild v) (i : Fin 9) : (v.input i).isFinite = true := by
  refine isFinite_of_abs_value_le ((h.le i).trans ?_)
  calc (15 : ℚ) ≤ 2 ^ 4 := by norm_num
    _ ≤ maxFinite := two_pow_le_maxFinite (by norm_num)

theorem abs_le_sum_sq (v : FeatureVector) (i : Fin 9) : |v.exact i| ≤ ∑ i, v.exact i ^ 2 := by
  have hi := sq_le_sum_sq v i
  rcases le_total |v.exact i| 1 with hsmall | hlarge
  · exact hsmall.trans (one_le_sum_sq v)
  · rw [← sq_abs] at hi
    exact (le_self_pow₀ hlarge two_ne_zero).trans hi

/-! ### The computed sum -/

/-- Each term that is added brings its own error and one more rounding. -/
theorem foldl_near {ι : Type} {term : ι → Float} {exact : ι → ℚ} {error bound : ℚ}
    (hterm : ∀ i, Near (term i) (exact i) error) (hone : 1 ≤ bound) (hmax : bound ≤ maxFinite)
    (is : List ι) {start : Float} {a startError : ℚ} (hstart : Near start a startError)
    (hbound : |a| + (is.map fun i => |exact i|).sum
      + (startError + is.length * (error + roundoff * bound)) ≤ bound) :
    Near (is.foldl (fun sum i => sum + term i) start) (a + (is.map exact).sum)
      (startError + is.length * (error + roundoff * bound)) := by
  induction is generalizing start a startError with
  | nil => simpa using hstart
  | cons i rest ih =>
      rw [List.map_cons, List.sum_cons, List.length_cons] at hbound ⊢
      push_cast at hbound ⊢
      have hround : 0 ≤ roundoff * bound := roundoff_mul_nonneg (by linarith)
      have herror := (hterm i).nonneg
      have hrest : 0 ≤ (rest.map fun i => |exact i|).sum := by
        refine List.sum_nonneg ?_
        simp
      have hcount : 0 ≤ (rest.length : ℚ) * (error + roundoff * bound) := by positivity
      have hstep := hstart.add (hterm i) hone hmax (by linarith)
      have h := ih hstep (by linarith [abs_add_le a (exact i)])
      rw [List.foldl_cons, ← add_assoc]
      refine h.mono ?_
      linarith

section Step

variable {w : Weights} {bound : ℚ}

theorem Weights.Within.finite (hw : w.Within bound) (hmax : bound ≤ maxFinite) (i : Fin 9) :
    (w.get i).isFinite = true :=
  isFinite_of_abs_value_le ((hw i).trans hmax)

theorem Weights.Within.allFinite (hw : w.Within bound) (hmax : bound ≤ maxFinite) :
    w.allFinite = true :=
  w.allFinite_iff_get.mpr (hw.finite hmax)

theorem sum_abs_mul_le (hv : Mild v) (hw : w.Within bound) (hbound : 0 ≤ bound) :
    ∑ i, |w.exact i * v.exact i| ≤ 43 * bound := by
  have hterm : ∀ i ∈ Finset.univ, |w.exact i * v.exact i| ≤ bound * |v.exact i| := by
    intro i _
    rw [abs_mul]
    exact mul_le_mul_of_nonneg_right (hw i) (abs_nonneg _)
  calc ∑ i, |w.exact i * v.exact i| ≤ ∑ i, bound * |v.exact i| := Finset.sum_le_sum hterm
    _ = bound * ∑ i, |v.exact i| := (Finset.mul_sum _ _ _).symm
    _ ≤ bound * 43 := mul_le_mul_of_nonneg_left hv.sum_le hbound
    _ = 43 * bound := mul_comm _ _

theorem abs_sum_mul_le (hv : Mild v) (hw : w.Within bound) (hbound : 0 ≤ bound) :
    |∑ i, w.exact i * v.exact i| ≤ 43 * bound :=
  (Finset.abs_sum_le_sum_abs _ _).trans (sum_abs_mul_le hv hw hbound)

/-- **The computed weighted sum is near the exact one.** -/
theorem dot_near (hv : Mild v) (hw : w.Within bound) (hlow : 1 ≤ bound)
    (hhigh : 45 * bound ≤ maxFinite) :
    Near (w.dot v) (∑ i, w.exact i * v.exact i) (540 * (roundoff * bound)) := by
  have hzero : Near (-0.0) 0 0 := by
    have h := near_value negative_zero_spec.1
    rwa [negative_zero_spec.2] at h
  have hterm : ∀ i, Near (w.get i * v.input i) (w.exact i * v.exact i) (roundoff * (15 * bound)) := by
    intro i
    have hsize : (|w.exact i| + 0) * (|v.exact i| + 0) ≤ 15 * bound := by
      rw [add_zero, add_zero, mul_comm 15 bound]
      exact mul_le_mul (hw i) (hv.le i) (abs_nonneg _) (by linarith)
    have h := (near_value (hw.finite (by linarith) i)).mul (near_value (hv.finite i))
      (by linarith) (by linarith) hsize
    simpa [Weights.exact, FeatureVector.exact] using h
  have habs := sum_abs_mul_le hv hw (by linarith)
  have hnoise : 0 ≤ roundoff * bound := roundoff_mul_nonneg (by linarith)
  have hsmall : roundoff * bound ≤ bound / 1000000 := roundoff_mul_le (by linarith)
  have hone : 1 ≤ 44 * bound := by linarith
  rw [Weights.dot_eq_foldl]
  have h := foldl_near hterm hone (by linarith) (List.finRange 9) hzero
  rw [abs_zero, ← List.ofFn_eq_map, List.sum_ofFn, ← List.ofFn_eq_map, List.sum_ofFn,
    List.length_finRange] at h
  have hnear := h (by push_cast; linarith)
  rw [zero_add] at hnear
  refine hnear.mono ?_
  push_cast
  linarith

/-! ### The computed step -/

variable {sample : FeatureVector × Nat}

theorem abs_mtu_le (ht : sample.2 ≤ 9000) : |(sample.2 : ℚ)| ≤ 9000 := by
  rw [Nat.abs_cast]
  exact_mod_cast ht

theorem abs_residual_le (hv : Mild sample.1) (ht : sample.2 ≤ 9000) (hw : w.Within bound)
    (hbound : 0 ≤ bound) : |w.residual sample| ≤ 9000 + 43 * bound :=
  (abs_sub _ _).trans (add_le_add (abs_mtu_le ht) (abs_sum_mul_le hv hw hbound))

theorem error_near (hv : Mild sample.1) (ht : sample.2 ≤ 9000) (hw : w.Within bound)
    (hlow : 9000 ≤ bound) (hhigh : 45 * bound ≤ maxFinite) :
    Near (ofCount sample.2 - w.dot sample.1) (w.residual sample) (585 * (roundoff * bound)) := by
  have hcount : Near (ofCount sample.2) sample.2 0 := by
    have h := ofCount_spec (n := sample.2) (by omega)
    exact ⟨h.1, by rw [h.2, sub_self, abs_zero]⟩
  have hmtu := abs_mtu_le ht
  have hdot := abs_sum_mul_le hv hw (by linarith)
  have hsmall : roundoff * bound ≤ bound / 1000000 := roundoff_mul_le (by linarith)
  have h := hcount.sub (dot_near hv hw (by linarith) hhigh) (by linarith) hhigh (by linarith)
  refine h.mono ?_
  linarith

theorem abs_value_defaultRate : |value Learner.defaultRate| ≤ 101 / 10000 := by
  obtain ⟨hlower, hupper⟩ := value_defaultRate
  rwa [abs_of_nonneg (by linarith)]

theorem abs_gain_le (hv : Mild sample.1) (ht : sample.2 ≤ 9000) (hw : w.Within bound)
    (hlow : 9000 ≤ bound) : |value Learner.defaultRate * w.residual sample| ≤ 9 / 20 * bound := by
  have hresidual := abs_residual_le hv ht hw (by linarith)
  rw [abs_mul]
  calc |value Learner.defaultRate| * |w.residual sample|
      ≤ 101 / 10000 * (44 * bound) :=
        mul_le_mul abs_value_defaultRate (by linarith) (abs_nonneg _) (by norm_num)
    _ ≤ 9 / 20 * bound := by linarith

/-- The rate times the error is off by little more than the rounding of this product. -/
theorem gain_near (hv : Mild sample.1) (ht : sample.2 ≤ 9000) (hw : w.Within bound)
    (hlow : 9000 ≤ bound) (hhigh : 45 * bound ≤ maxFinite) :
    Near (Learner.defaultRate * (ofCount sample.2 - w.dot sample.1))
      (value Learner.defaultRate * w.residual sample) (7 * (roundoff * bound)) := by
  have hfinite : Learner.defaultRate.isFinite = true := by decide +kernel
  have hresidual := abs_residual_le hv ht hw (by linarith)
  have hnoise : 0 ≤ 585 * (roundoff * bound) := by linarith [@roundoff_mul_nonneg bound (by linarith)]
  have hsmall : roundoff * bound ≤ bound / 1000000 := roundoff_mul_le (by linarith)
  have hsize : (|value Learner.defaultRate| + 0)
      * (|w.residual sample| + 585 * (roundoff * bound)) ≤ bound := by
    rw [add_zero]
    calc |value Learner.defaultRate| * (|w.residual sample| + 585 * (roundoff * bound))
        ≤ 101 / 10000 * (45 * bound) :=
          mul_le_mul abs_value_defaultRate (by linarith)
            (by linarith [abs_nonneg (w.residual sample)]) (by norm_num)
      _ ≤ bound := by linarith
  have h := (near_value hfinite).mul (error_near hv ht hw hlow hhigh) (by linarith)
    (by linarith) hsize
  refine h.mono ?_
  rw [add_zero, zero_mul, add_zero]
  linarith [mul_le_mul_of_nonneg_right abs_value_defaultRate hnoise]

theorem change_near (hv : Mild sample.1) (ht : sample.2 ≤ 9000) (hw : w.Within bound)
    (hlow : 9000 ≤ bound) (hhigh : 45 * bound ≤ maxFinite) (i : Fin 9) :
    Near (Learner.defaultRate * (ofCount sample.2 - w.dot sample.1) * sample.1.input i)
      (value Learner.defaultRate * w.residual sample * sample.1.exact i)
      (112 * (roundoff * bound)) := by
  have hgain := abs_gain_le hv ht hw hlow
  have hnoise : 0 ≤ 7 * (roundoff * bound) := by linarith [@roundoff_mul_nonneg bound (by linarith)]
  have hsmall : roundoff * bound ≤ bound / 1000000 := roundoff_mul_le (by linarith)
  have hinput : Near (sample.1.input i) (sample.1.exact i) 0 := near_value (hv.finite i)
  have hsize : (|value Learner.defaultRate * w.residual sample| + 7 * (roundoff * bound))
      * (|sample.1.exact i| + 0) ≤ 7 * bound := by
    rw [add_zero]
    calc (|value Learner.defaultRate * w.residual sample| + 7 * (roundoff * bound))
          * |sample.1.exact i|
        ≤ (7 / 15 * bound) * 15 := mul_le_mul (by linarith) (hv.le i) (abs_nonneg _) (by linarith)
      _ = 7 * bound := by ring
  have h := (gain_near hv ht hw hlow hhigh).mul hinput (by linarith) (by linarith) hsize
  refine h.mono ?_
  rw [mul_zero, zero_add]
  linarith [mul_le_mul_of_nonneg_left (hv.le i) hnoise]

/-- **The computed step is near the exact one.** -/
theorem descend_near (hv : Mild sample.1) (ht : sample.2 ≤ 9000) (hw : w.Within bound)
    (hlow : 9000 ≤ bound) (hhigh : 45 * bound ≤ maxFinite) (i : Fin 9) :
    Near ((w.descend Learner.defaultRate sample).get i)
      (w.exact i + value Learner.defaultRate * w.residual sample * sample.1.exact i)
      (120 * (roundoff * bound)) := by
  have hsmall : roundoff * bound ≤ bound / 1000000 := roundoff_mul_le (by linarith)
  have hchange : |value Learner.defaultRate * w.residual sample * sample.1.exact i|
      ≤ 27 / 4 * bound := by
    rw [abs_mul]
    calc |value Learner.defaultRate * w.residual sample| * |sample.1.exact i|
        ≤ (9 / 20 * bound) * 15 :=
          mul_le_mul (abs_gain_le hv ht hw hlow) (hv.le i) (abs_nonneg _) (by linarith)
      _ = 27 / 4 * bound := by ring
  have hweight : Near (w.get i) (w.exact i) 0 := near_value (hw.finite (by linarith) i)
  have hone : 1 ≤ 8 * bound := by linarith
  have h := hweight.add (change_near hv ht hw hlow hhigh i) hone (by linarith) (by linarith [hw i])
  rw [Weights.get_descend]
  refine h.mono ?_
  linarith

end Step

end AdaptiveMtu
