/-
The learner that forgets nothing.

An `Archive` keeps every sample in one list that only grows, and its arithmetic is written out weight by
weight.  It says what is learned without a word about room: which samples are replayed is read off the end
of the whole list.  A model goes in step with it through every update, whether that succeeds or
not (`InStep.update`), so dropping the oldest of a thousand samples never changes what is learned.
-/
import AdaptiveMtu.Proofs.Linear.Descent
import AdaptiveMtu.Proofs.Linear.Memory

namespace AdaptiveMtu

open Binary64

/-- A learner that keeps all of its samples, oldest first. -/
structure Archive where
  weights : Fin 9 → Float
  rate : Float
  bounds : MtuBounds
  samples : List (FeatureVector × Nat)

namespace Archive

/-- An archive with the given weights and no samples. -/
def withWeights (weights : Fin 9 → Float) (rate : Float) (bounds : MtuBounds) : Archive :=
  ⟨weights, rate, bounds, []⟩

/-- The weighted sum of a vector's inputs, from left to right. -/
def dot (w : Fin 9 → Float) (v : FeatureVector) : Float :=
  (List.finRange 9).foldl (fun sum i => sum + w i * v.input i) (-0.0)

/-- One step down the gradient of the squared error of a sample, weight by weight. -/
def descend (rate : Float) (w : Fin 9 → Float) (sample : FeatureVector × Nat) : Fin 9 → Float :=
  fun i => w i + rate * (ofCount sample.2 - dot w sample.1) * sample.1.input i

/-- The weighted sum, if it is finite. -/
def raw (a : Archive) (v : FeatureVector) : Option Float :=
  if (dot a.weights v).isFinite then some (dot a.weights v) else none

/-- The weighted sum brought into the bounds and rounded to a whole hundred. -/
def predict (a : Archive) (v : FeatureVector) : Except Error Nat :=
  match a.raw v with
  | some sum =>
    .ok (roundToHundred (truncate (clamp (ofCount a.bounds.min) (ofCount a.bounds.max) sum)))
  | none => .error (.prediction (.nonFinite (dot a.weights v)))

/-- The weights after one step for each of the last fifty samples, oldest first. -/
def replayed (a : Archive) : Fin 9 → Float :=
  (a.samples.rtake (min 50 a.samples.length)).foldl (descend a.rate) a.weights

/-- Adding a sample, and learning from the last ones of all. -/
def update (a : Archive) (v : FeatureVector) (mtu : Nat) : Except Error Unit × Archive :=
  let a := { a with samples := a.samples ++ [(v, mtu)] }
  if ∀ i, (a.replayed i).isFinite = true then (.ok (), { a with weights := a.replayed })
  else (.error (.prediction .diverged), { a with weights := Weights.initial.get })

/-- An archive after updates with all of the given samples, in order. -/
def learnAll (a : Archive) (samples : List (FeatureVector × Nat)) : Archive :=
  samples.foldl (fun a sample => (a.update sample.1 sample.2).2) a

theorem samples_update (a : Archive) (v : FeatureVector) (mtu : Nat) :
    (a.update v mtu).2.samples = a.samples ++ [(v, mtu)] := by
  rw [update]
  split <;> rfl

/-- An archive keeps all samples, whatever its updates report. -/
theorem samples_learnAll (a : Archive) (samples : List (FeatureVector × Nat)) :
    (a.learnAll samples).samples = a.samples ++ samples := by
  induction samples generalizing a with
  | nil => exact (List.append_nil _).symm
  | cons sample rest ih =>
      rw [List.append_cons, ← a.samples_update sample.1 sample.2]
      exact ih (a.update sample.1 sample.2).2

end Archive

/-! ### The same arithmetic -/

namespace Weights

theorem dot_get (w : Weights) (v : FeatureVector) : Archive.dot w.get v = w.dot v :=
  (w.dot_eq_foldl v).symm

theorem descend_get (rate : Float) (w : Weights) (sample : FeatureVector × Nat) :
    Archive.descend rate w.get sample = (w.descend rate sample).get := by
  funext i
  rw [Archive.descend, dot_get, get_descend]

theorem descendAll_get (rate : Float) (w : Weights) (samples : List (FeatureVector × Nat)) :
    samples.foldl (Archive.descend rate) w.get = (w.descendAll rate samples).get := by
  induction samples generalizing w with
  | nil => rfl
  | cons sample rest ih =>
      rw [List.foldl_cons, descend_get, ih]
      rfl

end Weights

namespace Learner

/-- A model has the weights, the rate and the bounds of an archive, and remembers the last of its samples. -/
structure InStep (m : Learner) (a : Archive) : Prop where
  weights : m.weights.get = a.weights
  taught : Taught a.rate a.bounds a.samples m

variable {m : Learner} {a : Archive}

theorem inStep_withWeights (weights : Weights) (rate : Float) (bounds : MtuBounds) :
    InStep (withWeights weights rate bounds) (.withWeights weights.get rate bounds) :=
  ⟨rfl, taught_withWeights weights rate bounds⟩

/-! ### What is answered in step -/

theorem InStep.dot (h : InStep m a) (v : FeatureVector) :
    Archive.dot a.weights v = m.weights.dot v := by
  rw [← h.weights, Weights.dot_get]

theorem InStep.raw (h : InStep m a) (v : FeatureVector) : m.raw v = a.raw v := by
  rw [Archive.raw, h.dot]
  rfl

theorem InStep.predict (h : InStep m a) (v : FeatureVector) : m.predict v = a.predict v := by
  rw [Archive.predict, Archive.raw, h.dot, ← h.taught.bounds, Learner.predict]
  cases (m.weights.dot v).isFinite <;> rfl

/-! ### What is learned in step -/

theorem InStep.replayed (h : InStep m a) (v : FeatureVector) (mtu : Nat) :
    (m.remember v mtu).replayed.get
      = ({ a with samples := a.samples ++ [(v, mtu)] } : Archive).replayed := by
  have hwindow : window a.samples (v, mtu) = (a.samples ++ [(v, mtu)]).rtake replayWindow :=
    (List.rtake_concat_succ a.samples (replayWindow - 1) (v, mtu)).symm
  rw [Archive.replayed, rtake_min_length, ← h.weights, Weights.descendAll_get, h.taught.replayed,
    hwindow]
  rfl

/-- **An update of a model that is in step with an archive is reported as the archive's, and leaves both in
step, also when it fails.** -/
theorem InStep.update (h : InStep m a) (v : FeatureVector) (mtu : Nat) :
    (m.update v mtu).1 = (a.update v mtu).1 ∧ InStep (m.update v mtu).2 (a.update v mtu).2 := by
  have hreplayed := h.replayed v mtu
  have htaught : Taught a.rate a.bounds (a.samples ++ [(v, mtu)]) (m.update v mtu).2 :=
    h.taught.learn (v, mtu)
  have hfinite := (m.remember v mtu).replayed.allFinite_iff_get
  rw [hreplayed] at hfinite
  -- Both outcomes keep the sample; they differ in the weights alone.
  rcases m.update_cases v mtu with ⟨hall, heq⟩ | ⟨hall, heq⟩
  · rw [heq] at htaught ⊢
    rw [Archive.update, if_pos (hfinite.mp hall)]
    exact ⟨rfl, hreplayed, htaught⟩
  · rw [heq] at htaught ⊢
    rw [Archive.update, if_neg (fun h => by rw [hfinite.mpr h] at hall; cases hall)]
    exact ⟨rfl, rfl, htaught⟩

theorem InStep.learnAll (h : InStep m a) (samples : List (FeatureVector × Nat)) :
    InStep (m.learnAll samples) (a.learnAll samples) := by
  induction samples generalizing m a with
  | nil => exact h
  | cons sample rest ih => exact ih (h.update sample.1 sample.2).2

/-- **Whatever a model is taught, it has learned what the archive of all its samples has, answers as that
does, and reports the next update as that does; it remembers all samples until there are a thousand.** -/
theorem refines_archive (weights : Weights) (rate : Float) (bounds : MtuBounds)
    (samples : List (FeatureVector × Nat)) :
    let m := (withWeights weights rate bounds).learnAll samples
    let a := (Archive.withWeights weights.get rate bounds).learnAll samples
    a.samples = samples ∧ m.weights.get = a.weights ∧ m.samples.size = min samples.length 1000 ∧
      (∀ v, m.predict v = a.predict v ∧ m.raw v = a.raw v) ∧
      ∀ v mtu, (m.update v mtu).1 = (a.update v mtu).1 := by
  intro m a
  have hsamples : a.samples = samples := Archive.samples_learnAll _ samples
  have hstep : InStep m a := (inStep_withWeights weights rate bounds).learnAll samples
  refine ⟨hsamples, hstep.weights, ?_, ?_, ?_⟩
  · rw [hstep.taught.remembers.size, hstep.taught.capacity, hsamples, Nat.min_comm]
    rfl
  · intro v
    exact ⟨hstep.predict v, hstep.raw v⟩
  · intro v mtu
    exact (hstep.update v mtu).1

end Learner

end AdaptiveMtu
