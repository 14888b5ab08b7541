/-
A linear model after it diverged.

An update that fails puts the initial weights back, but the sample that did it is remembered like any
other, and the next update replays it.  What the next update comes to is therefore decided by the last
samples of all, replayed from the initial weights: `residue` is what they leave before the new sample has
its turn.  A weight that is not finite stays so, whatever is added to it; if the residue is not finite,
every update fails, and goes on failing until the sample has left the window.
-/
import AdaptiveMtu.Proofs.Linear.Descent
import AdaptiveMtu.Proofs.Linear.Memory

namespace AdaptiveMtu

namespace Weights

/-! ### No way back to finite weights -/

/-- **A step of descent that leaves finite weights began with finite weights.** -/
theorem allFinite_of_descend {rate : Float} {w : Weights} {sample : FeatureVector × Nat}
    (h : (w.descend rate sample).allFinite = true) : w.allFinite = true := by
  rw [allFinite_iff_get] at h ⊢
  intro i
  have hi := h i
  rw [get_descend] at hi
  exact (Binary64.isFinite_of_add hi).1

theorem allFinite_of_descendAll {rate : Float} {w : Weights} {samples : List (FeatureVector × Nat)}
    (h : (w.descendAll rate samples).allFinite = true) : w.allFinite = true := by
  induction samples generalizing w with
  | nil => exact h
  | cons sample rest ih => exact allFinite_of_descend (ih h)

end Weights

namespace Learner

open Weights

variable {bounds : MtuBounds}

/-- The weights that the last samples leave when they are replayed from the initial ones, before the
next sample has its turn. -/
def residue (samples : List (FeatureVector × Nat)) : Weights :=
  Weights.initial.descendAll defaultRate (samples.rtake (replayWindow - 1))

/-- A fresh model accepts a sample if one step from the initial weights stays finite. -/
theorem fresh_update_ok_iff (bounds : MtuBounds) (v : FeatureVector) (mtu : Nat) :
    ((fresh bounds).update v mtu).1 = .ok () ↔
      (Weights.initial.descend defaultRate (v, mtu)).allFinite = true :=
  (taught_fresh bounds []).update_ok_iff v mtu

/-- A model whose weights are the initial ones accepts a sample if its residue is finite and one more step
from there stays so. -/
theorem Taught.update_ok_iff_residue {samples : List (FeatureVector × Nat)} {m : Learner}
    (h : Taught defaultRate bounds samples m) (hinitial : m.weights = .initial) (v : FeatureVector)
    (mtu : Nat) :
    (m.update v mtu).1 = .ok () ↔
      (residue samples).allFinite = true ∧
        ((residue samples).descend defaultRate (v, mtu)).allFinite = true := by
  rw [h.update_ok_iff, hinitial, window, descendAll_concat]
  constructor
  · intro hstep
    exact ⟨allFinite_of_descend hstep, hstep⟩
  · intro hboth
    exact hboth.2

/-- A fresh model accepts the sample in which nothing is known of the path. -/
theorem fresh_accepts_empty (bounds : MtuBounds) :
    ((fresh bounds).update .empty 1500).1 = .ok () := by
  rw [fresh_update_ok_iff]
  decide +kernel

/-! ### How long a sample that made the model diverge is in the way -/

/-- A list of samples that cannot be replayed from the initial weights fails every update, as long as all
samples are within the window. -/
theorem Taught.update_error_of_poison {history later : List (FeatureVector × Nat)} {m : Learner}
    (h : Taught defaultRate bounds (history ++ later) m) (hinitial : m.weights = .initial)
    (hpoison : (Weights.initial.descendAll defaultRate history).allFinite = false)
    (hroom : history.length + later.length < replayWindow) (v : FeatureVector) (mtu : Nat) :
    (m.update v mtu).1 = .error (.prediction .diverged) := by
  have hall : window (history ++ later) (v, mtu) = history ++ (later ++ [(v, mtu)]) := by
    rw [window, rtake_of_length_le, List.append_assoc]
    rw [List.length_append]
    omega
  rw [h.update_error_iff, hinitial, hall]
  by_contra hfinite
  rw [Bool.not_eq_false, descendAll, List.foldl_append] at hfinite
  have hhistory : (Weights.initial.descendAll defaultRate history).allFinite = true :=
    allFinite_of_descendAll hfinite
  rw [hpoison] at hhistory
  cases hhistory

/-- Each of these updates puts the initial weights back, so that the next one fails as well. -/
theorem Taught.weights_learnAll_of_poison {history : List (FeatureVector × Nat)} {m : Learner}
    (h : Taught defaultRate bounds history m) (hinitial : m.weights = .initial)
    (hpoison : (Weights.initial.descendAll defaultRate history).allFinite = false)
    (later : List (FeatureVector × Nat)) (hroom : history.length + later.length ≤ replayWindow) :
    (m.learnAll later).weights = .initial := by
  induction later using List.reverseRecOn with
  | nil => exact hinitial
  | append_singleton later sample ih =>
      rw [List.length_append, List.length_singleton] at hroom
      have hfails := (h.learnAll later).update_error_of_poison (ih (by omega)) hpoison (by omega)
        sample.1 sample.2
      rw [learnAll_concat]
      exact weights_learn_of_error hfails

/-! ### The outcome of updates after a divergence -/

/-- **A model that diverged accepts what a fresh one accepts exactly if the samples it remembers can be
replayed.**  Each later sample is accepted if the last samples of all, with the one that made the
model diverge at their end, leave finite weights when they are replayed from the initial ones, and one
more step keeps them finite.  Samples that cannot be replayed fail every update while all of them are within
the window, and have no part in any update after as many others as the window has room for. -/
theorem update_after_divergence (bounds : MtuBounds) (history : List (FeatureVector × Nat))
    (bad : FeatureVector × Nat)
    (hdiverged : (((fresh bounds).learnAll history).update bad.1 bad.2).1
      = .error (.prediction .diverged)) :
    let recovered := ((fresh bounds).learnAll history).learn bad
    let left := residue (history ++ [bad])
    ((∀ v mtu, ((fresh bounds).update v mtu).1 = .ok () → (recovered.update v mtu).1 = .ok ()) ↔
      left.allFinite = true ∧ ∀ v mtu, ((fresh bounds).update v mtu).1 = .ok () →
        (left.descend defaultRate (v, mtu)).allFinite = true) ∧
    (∀ v mtu, (recovered.update v mtu).1 = .ok () ↔
      left.allFinite = true ∧ (left.descend defaultRate (v, mtu)).allFinite = true) ∧
    ((Weights.initial.descendAll defaultRate (history ++ [bad])).allFinite = false →
      ∀ later v mtu, (history ++ [bad]).length + later.length < replayWindow →
        ((recovered.learnAll later).update v mtu).1 = .error (.prediction .diverged)) ∧
    (∀ later v mtu, replayWindow - 1 ≤ later.length →
      (((recovered.learnAll later).update v mtu).1 = .ok () ↔
        ((recovered.learnAll later).weights.descendAll defaultRate
          (window later (v, mtu))).allFinite = true)) := by
  intro recovered left
  have htaught : Taught defaultRate bounds (history ++ [bad]) recovered :=
    (taught_fresh bounds history).learn bad
  have hinitial : recovered.weights = .initial := weights_learn_of_error hdiverged
  have hnext : ∀ v mtu, (recovered.update v mtu).1 = .ok () ↔
      left.allFinite = true ∧ (left.descend defaultRate (v, mtu)).allFinite = true :=
    htaught.update_ok_iff_residue hinitial
  refine ⟨⟨?_, ?_⟩, hnext, ?_, ?_⟩
  · intro hclaim
    refine ⟨((hnext _ _).mp (hclaim _ _ (fresh_accepts_empty bounds))).1, ?_⟩
    intro v mtu hfresh
    exact ((hnext v mtu).mp (hclaim v mtu hfresh)).2
  · rintro ⟨hleft, hstep⟩ v mtu hfresh
    exact (hnext v mtu).mpr ⟨hleft, hstep v mtu hfresh⟩
  · intro hpoison later v mtu hroom
    refine (htaught.learnAll later).update_error_of_poison ?_ hpoison hroom v mtu
    exact htaught.weights_learnAll_of_poison hinitial hpoison later (Nat.le_of_lt hroom)
  · intro later v mtu hlong
    rw [(htaught.learnAll later).update_ok_iff, window, window, rtake_append_of_le _ _ hlong]

/-- A path whose throughput is far out of any real link's reach. -/
def farTooFast : FeatureVector := { FeatureVector.empty with throughput := some 1e300 }

theorem farTooFast_poison :
    (Weights.initial.descendAll defaultRate [(farTooFast, 1500)]).allFinite = false := by
  decide +kernel

theorem farTooFast_diverges (bounds : MtuBounds) :
    ((fresh bounds).update farTooFast 1500).1 = .error (.prediction .diverged) :=
  ((taught_fresh bounds []).update_error_iff farTooFast 1500).mpr farTooFast_poison

/-- One sample of such a path fails the next forty-nine updates of a fresh model, whatever they are
about. -/
theorem far_too_fast_fails_later_updates :
    ((fresh .full).update farTooFast 1500).1 = .error (.prediction .diverged) ∧
    ∀ later v mtu, later.length < 49 →
      ((((fresh .full).learn (farTooFast, 1500)).learnAll later).update v mtu).1
        = .error (.prediction .diverged) := by
  refine ⟨farTooFast_diverges .full, ?_⟩
  intro later v mtu hlater
  refine (update_after_divergence .full [] (farTooFast, 1500)
    (farTooFast_diverges .full)).2.2.1 farTooFast_poison later v mtu ?_
  show 1 + later.length < 50
  omega

/-- A fresh model accepts the sample in which nothing is known, and one that just diverged does not. -/
theorem diverged_model_rejects_empty :
    ((fresh .full).update farTooFast 1500).1 = .error (.prediction .diverged) ∧
    ((fresh .full).update .empty 1500).1 = .ok () ∧
    (((fresh .full).learn (farTooFast, 1500)).update .empty 1500).1
      = .error (.prediction .diverged) := by
  have htaught : Taught defaultRate .full ([(farTooFast, 1500)] ++ [])
      ((fresh .full).learn (farTooFast, 1500)) := (taught_fresh .full []).learn (farTooFast, 1500)
  refine ⟨farTooFast_diverges .full, fresh_accepts_empty .full, ?_⟩
  have hinitial : ((fresh .full).learn (farTooFast, 1500)).weights = .initial :=
    weights_learn_of_error (farTooFast_diverges .full)
  exact htaught.update_error_of_poison hinitial farTooFast_poison (by decide) .empty 1500

end Learner

end AdaptiveMtu
