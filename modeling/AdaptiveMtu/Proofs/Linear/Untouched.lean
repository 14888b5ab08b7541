/-
What learning leaves alone.

A step of descent adds to every weight the product of its gain and the weight's input.  If the input is a
zero, the product is one as well, unless the gain was not finite: then the product is NaN, and so is the weight, for
good.  An update that succeeds ends with finite weights, so there was no such gain in any of its steps, and a
weight whose input was a zero in all of them is what it was.
-/
import AdaptiveMtu.Proofs.Features.Normalization
import AdaptiveMtu.Proofs.Linear.Descent
import AdaptiveMtu.Proofs.Linear.Memory

namespace AdaptiveMtu

open Binary64

namespace Weights

/-- **A step that ends with a finite weight changes it only if its input is not a zero.** -/
theorem get_descend_of_zero {rate : Float} {w : Weights} {sample : FeatureVector × Nat} {i : Fin 9}
    (hzero : (sample.1.input i == 0) = true)
    (hfinite : ((w.descend rate sample).get i).isFinite = true) :
    (w.get i).isFinite = true ∧ value ((w.descend rate sample).get i) = value (w.get i) := by
  rw [get_descend] at hfinite ⊢
  obtain ⟨hweight, hterm⟩ := isFinite_of_add hfinite
  obtain ⟨hgain, hinput⟩ := isFinite_of_mul hterm
  rw [beq_iff hinput isFinite_zero, value_zero] at hzero
  have hnothing := (mul_zero_spec hgain hinput hzero).2
  exact ⟨hweight, (add_zero_spec hweight hterm hnothing).2⟩

/-- The same of any number of steps: a weight that ends finite was finite all along. -/
theorem get_descendAll_of_zero {rate : Float} {w : Weights}
    {samples : List (FeatureVector × Nat)} {i : Fin 9}
    (hzero : ∀ sample ∈ samples, (sample.1.input i == 0) = true)
    (hfinite : ((w.descendAll rate samples).get i).isFinite = true) :
    (w.get i).isFinite = true ∧ value ((w.descendAll rate samples).get i) = value (w.get i) := by
  -- Finiteness is known of the last step and handed back to the first.
  induction samples generalizing w with
  | nil => exact ⟨hfinite, rfl⟩
  | cons sample rest ih =>
      obtain ⟨hfirst, hrest⟩ := List.forall_mem_cons.mp hzero
      obtain ⟨hstep, hsame⟩ := ih hrest hfinite
      obtain ⟨hweight, hvalue⟩ := get_descend_of_zero hfirst hstep
      exact ⟨hweight, hsame.trans hvalue⟩

end Weights

namespace Learner

/-- **An update that succeeds leaves the weight of a measurement as it was if no replayed sample has
anything to say about it**, which is to say that the measurement is missing or at its mean in each of the last
fifty samples, the new one among them. -/
theorem update_leaves_weight_of_zero (m : Learner) (v : FeatureVector) (mtu : Nat) (field : Field)
    (hok : (m.update v mtu).1 = .ok ()) :
    let replayed := (m.samples.push (v, mtu)).toList.rtake 50
    ((∀ sample ∈ replayed, (sample.1.normalizedValue field == 0) = true) ↔
      ∀ sample ∈ replayed, ∀ x ∈ sample.1.get? field, (x == field.mean) = true) ∧
    ((∀ sample ∈ replayed, (sample.1.normalizedValue field == 0) = true) →
      ((m.update v mtu).2.weights.of field == m.weights.of field) = true) := by
  intro replayed
  refine ⟨forall₂_congr fun sample _ => sample.1.normalizedValue_beq_zero_iff field, ?_⟩
  intro hzero
  have hinputs : ∀ sample ∈ replayed, (sample.1.input field.place == 0) = true := by
    intro sample hmem
    rw [FeatureVector.input_place]
    exact hzero sample hmem
  have hfinite := (m.update_ok_iff v mtu).mp hok
  have hweights : (m.update v mtu).2.weights = m.weights.descendAll m.rate replayed := by
    refine (weights_learn_of_allFinite v mtu hfinite).trans ?_
    rw [Learner.replayed, BoundedLog.recent_eq]
    rfl
  have hafter : ((m.update v mtu).2.weights.of field).isFinite = true := by
    rw [← weights_learn_of_allFinite v mtu hfinite] at hfinite
    exact (Weights.allFinite_iff_get _).mp hfinite field.place
  rw [hweights] at hafter ⊢
  obtain ⟨hbefore, hvalue⟩ := Weights.get_descendAll_of_zero hinputs hafter
  exact (beq_iff hafter hbefore).mpr hvalue

/-- A model that has seen a path of mean throughput, and then a slow one of unknown throughput, has another
weight for round-trip times, and the same for throughputs. -/
theorem update_leaves_throughput_weight :
    let m := (fresh .full).learn ({ FeatureVector.empty with throughput := some 5000000 }, 1400)
    let slow := { FeatureVector.empty with rtt := some 80 }
    (m.update slow 1500).1 = .ok () ∧
    (∀ sample ∈ (m.samples.push (slow, 1500)).toList.rtake 50,
      (sample.1.normalizedValue .throughput == 0) = true) ∧
    ((m.update slow 1500).2.weights.of .rtt == m.weights.of .rtt) = false ∧
    ((m.update slow 1500).2.weights.of .throughput == m.weights.of .throughput) = true := by
  intro m slow
  have hrun : (m.remember slow 1500).replayed.allFinite = true ∧
      (∀ sample ∈ (m.samples.push (slow, 1500)).toList.rtake 50,
        (sample.1.normalizedValue .throughput == 0) = true) ∧
      ((m.update slow 1500).2.weights.of .rtt == m.weights.of .rtt) = false := by
    decide +kernel
  have hok : (m.update slow 1500).1 = .ok () := (m.update_ok_iff slow 1500).mpr hrun.1
  exact ⟨hok, hrun.2.1, hrun.2.2,
    (update_leaves_weight_of_zero m slow 1500 .throughput hok).2 hrun.2.1⟩

end Learner

end AdaptiveMtu
