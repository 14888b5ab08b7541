/-
Degraded models.

A linear leaf whose artifact is not accepted is replaced by one that answers 1400 to everything and learns
nothing.  This is the only way in which a model comes to be degraded: all other leaves are built as
they would be alone, however deep in the tree they are, and none of them ever becomes degraded later.
A tree says of itself that it is degraded if one of its leaves does, so whether it does is settled when it is
built.
-/
import AdaptiveMtu.Proofs.Model.Neutrality

namespace AdaptiveMtu

theorem ModelKind.isSingle_of_mem_leaves {leaf kind : ModelKind} (h : leaf ∈ kind.leaves) :
    leaf.isSingle = true := by
  induction kind using ModelKind.induct with
  | single kind hkind =>
      rw [leaves_single hkind, List.mem_singleton] at h
      rw [h]
      exact hkind
  | ensemble members ih =>
      rw [leaves_ensemble] at h
      obtain ⟨kind, hkind, hleaf⟩ := List.mem_flatMap.mp h
      exact ih kind hkind hleaf

namespace Model

variable {χ : Type} {read : TextReader} {bounds : MtuBounds}

/-- A leaf that names an artifact which is not accepted. -/
def Rejected (read : TextReader) (bounds : MtuBounds) (leaf : ModelKind) : Prop :=
  ∃ path cause, leaf = .linear (some path) ∧ Artifact.load read path bounds = .error cause

/-! ### What degraded models say of themselves -/

section Flag

variable [Predictor χ]

/-- **A leaf is degraded exactly if its artifact is not accepted.** -/
theorem BuiltLeaf.isDegraded_iff {leaf : ModelKind} {m : Model χ} (h : BuiltLeaf read bounds leaf m) :
    m.isDegraded = true ↔ Rejected read bounds leaf := by
  cases h with
  | rules _ | decision | fresh =>
      refine iff_of_false Bool.false_ne_true ?_
      rintro ⟨path, cause, heq, -⟩
      cases heq
  | loaded hload =>
      refine iff_of_false Bool.false_ne_true ?_
      rintro ⟨path, cause, heq, herror⟩
      cases heq
      rw [hload] at herror
      cases herror
  | rejected hload => exact iff_of_true rfl ⟨_, _, rfl, hload⟩

/-- A tree is degraded if one of its leaves is. -/
theorem isDegraded_graft_iff {f : ModelKind → Model χ} {kind : ModelKind} :
    (kind.graft f).isDegraded = true ↔ ∃ leaf ∈ kind.leaves, (f leaf).isDegraded = true := by
  induction kind using ModelKind.induct with
  | single leaf hleaf => simp [ModelKind.graft_single hleaf, ModelKind.leaves_single hleaf]
  | ensemble members ih =>
      rw [ModelKind.graft_ensemble, isDegraded_ensemble, List.any_map, List.any_eq_true,
        ModelKind.leaves_ensemble]
      constructor
      · rintro ⟨kind, hkind, hdegraded⟩
        obtain ⟨leaf, hleaf, hflag⟩ := (ih kind hkind).mp hdegraded
        exact ⟨leaf, List.mem_flatMap.mpr ⟨kind, hkind, hleaf⟩, hflag⟩
      · rintro ⟨leaf, hmem, hflag⟩
        obtain ⟨kind, hkind, hleaf⟩ := List.mem_flatMap.mp hmem
        exact ⟨kind, hkind, (ih kind hkind).mpr ⟨leaf, hleaf, hflag⟩⟩

/-- No single model that building comes to changes what it says of itself. -/
theorem Basic.isDegraded_learn {m : Model χ} (h : Basic bounds m) (sample : FeatureVector × Nat) :
    (m.learn sample).isDegraded = m.isDegraded := by
  cases h <;> rfl

theorem Basic.isDegraded_learnAll {m : Model χ} (h : Basic bounds m)
    (samples : List (FeatureVector × Nat)) : (m.learnAll samples).isDegraded = m.isDegraded := by
  induction samples generalizing m with
  | nil => rfl
  | cons sample rest ih => rw [learnAll_cons, ih (h.learn sample), h.isDegraded_learn]

/-! ### Runs -/

/-- The sample that a use of a model teaches. -/
def Use.sample? : Use → Option (FeatureVector × Nat)
  | .predict _ | .raw _ => none
  | .update v mtu => some (v, mtu)

/-- What a model answers that only stands in for another one. -/
def Use.standIn : Use → Response
  | .predict _ => .answer (.ok 1400)
  | .raw _ => .raw none
  | .update _ _ => .report (.ok ())

/-- A model that is never changed by asking it is what it was taught. -/
theorem useAll_of_steady {m : Model χ} (h : ∀ samples, (m.learnAll samples).Steady) (us : List Use) :
    (m.useAll us).2 = m.learnAll (us.filterMap Use.sample?) := by
  -- Asking leaves the model to the remaining uses, and teaching leaves them one that has learned more.
  induction us generalizing m with
  | nil => rfl
  | cons u rest ih =>
      have hm : m.Steady := h []
      cases u with
      | predict v =>
          show ((m.predict v).2.useAll rest).2 = _
          rw [hm.predict, ih h]
          rfl
      | raw v =>
          show ((m.raw v).2.useAll rest).2 = _
          rw [hm.raw, ih h]
          rfl
      | update v mtu => exact ih fun samples => h ((v, mtu) :: samples)

theorem useAll_degraded (reason : String) (us : List Use) :
    (degraded reason : Model χ).useAll us = (us.map Use.standIn, degraded reason) := by
  induction us with
  | nil => rfl
  | cons u rest ih => cases u <;> simp [useAll, use, predict, raw, update, ih, Use.standIn, fallbackMtu]

theorem useAll_of_rejected {leaf : ModelKind} (h : Rejected read bounds leaf) (us : List Use) :
    (build read bounds leaf : Model χ).useAll us = (us.map Use.standIn, build read bounds leaf) := by
  obtain ⟨path, cause, rfl, hload⟩ := h
  have hbuilt : (build read bounds (.linear (some path)) : Model χ)
      = .degraded (Error.artifact cause).message := by
    rw [build, ofArtifact, hload]
  rw [hbuilt, useAll_degraded]

/-- Each leaf of a tree that is used is what it would be if it were used alone. -/
theorem useAll_build (read : TextReader) (bounds : MtuBounds) (kind : ModelKind) (us : List Use) :
    ((build read bounds kind : Model χ).useAll us).2
      = kind.graft fun leaf => ((build read bounds leaf).useAll us).2 := by
  have hafter : ∀ kind, ((build read bounds kind : Model χ).useAll us).2
      = (build read bounds kind).learnAll (us.filterMap Use.sample?) :=
    fun kind => useAll_of_steady (steady_build read bounds kind) us
  simp only [hafter, learnAll_build kind]

/-- A built tree is degraded, at any time of its use, if an artifact of one of its leaves was not
accepted. -/
theorem isDegraded_useAll_iff (kind : ModelKind) (us : List Use) :
    ((build read bounds kind : Model χ).useAll us).2.isDegraded = true ↔
      ∃ leaf ∈ kind.leaves, Rejected read bounds leaf := by
  rw [useAll_build, isDegraded_graft_iff]
  refine exists_congr fun leaf => and_congr_right fun hmem => ?_
  have hleaf := ModelKind.isSingle_of_mem_leaves hmem
  rw [useAll_of_steady (steady_build read bounds leaf), (basic_build hleaf).isDegraded_learnAll]
  exact (builtLeaf_build hleaf).isDegraded_iff

end Flag

/-- **A model is degraded exactly if an artifact that it names is not accepted**, and no use of it changes
that.  Each leaf of the tree is built, and goes on, as it would alone; one whose artifact is not accepted
answers 1400 and takes every sample, and no ensemble is without members. -/
theorem degraded_iff_artifact_rejected [Predictor χ] (read : TextReader) (bounds : MtuBounds)
    (kind : ModelKind) (us : List Use) :
    let built (kind : ModelKind) : Model χ := build read bounds kind
    let after (kind : ModelKind) : Model χ := ((built kind).useAll us).2
    ((built kind).isDegraded = true ↔ ∃ leaf ∈ kind.leaves, Rejected read bounds leaf) ∧
    (after kind).isDegraded = (built kind).isDegraded ∧
    ((built kind).leaves = kind.leaves.map built ∧ (after kind).leaves = kind.leaves.map after) ∧
    (∀ leaf ∈ kind.leaves, BuiltLeaf read bounds leaf (built leaf)) ∧
    (∀ leaf ∈ kind.leaves, Rejected read bounds leaf →
      (built leaf).useAll us = (us.map Use.standIn, built leaf)) ∧
    ∀ members ∈ (built kind).ensembles ++ (after kind).ensembles, members ≠ [] := by
  intro built after
  have hbuilt : ∀ leaf : ModelKind, leaf.isSingle = true → (built leaf).isSingle = true :=
    fun leaf hleaf => isSingle_build hleaf
  have hafter : ∀ leaf : ModelKind, leaf.isSingle = true → (after leaf).isSingle = true := by
    intro leaf hleaf
    show ((built leaf).useAll us).2.isSingle = true
    rw [useAll_of_steady (steady_build read bounds leaf), isSingle_learnAll]
    exact isSingle_build hleaf
  have hbuiltTree : built kind = kind.graft built := build_eq_graft kind
  have hafterTree : after kind = kind.graft after := useAll_build read bounds kind us
  have hflag : (built kind).isDegraded = true ↔ ∃ leaf ∈ kind.leaves, Rejected read bounds leaf :=
    isDegraded_useAll_iff kind []
  refine ⟨hflag, ?_, ⟨?_, ?_⟩, ?_, ?_, ?_⟩
  · exact Bool.eq_iff_iff.mpr ((isDegraded_useAll_iff kind us).trans hflag.symm)
  · rw [hbuiltTree, leaves_graft hbuilt]
  · rw [hafterTree, leaves_graft hafter]
  · intro leaf hleaf
    exact builtLeaf_build (ModelKind.isSingle_of_mem_leaves hleaf)
  · intro leaf _ hrejected
    exact useAll_of_rejected hrejected us
  · intro members hmembers
    rw [hbuiltTree, hafterTree, List.mem_append] at hmembers
    rcases hmembers with hmembers | hmembers
    · exact ne_nil_of_mem_ensembles hbuilt members hmembers
    · exact ne_nil_of_mem_ensembles hafter members hmembers

/-- An ensemble within an ensemble, with a linear member whose artifact may be missing. -/
def kindWithArtifact : ModelKind :=
  .ensemble [.rules 1500, .ensemble [.linear (some "weights.json"), .ensemble []]]

/-- One missing file degrades the whole tree, although no other leaf knows of it. -/
theorem missing_artifact_degrades_whole_tree :
    let read : TextReader := fun _ => .error .notFound
    let leaf : ModelKind := .linear (some "weights.json")
    let us : List Use := [.predict .empty, .update .empty 1500, .raw .empty]
    leaf ∈ kindWithArtifact.leaves ∧ Rejected read .full leaf ∧ kindWithArtifact.leaves.length = 4 ∧
    ((build read .full kindWithArtifact : Model Empty).useAll us).2.isDegraded = true ∧
    ((build read .full leaf : Model Empty).useAll us).1
      = [.answer (.ok 1400), .report (.ok ()), .raw none] := by
  intro read leaf us
  have hmem : leaf ∈ kindWithArtifact.leaves := .tail _ (.head _)
  have hrejected : Rejected read .full leaf := ⟨"weights.json", _, rfl, rfl⟩
  obtain ⟨hflag, hsame, -, -, hstandIn, -⟩ :=
    degraded_iff_artifact_rejected (χ := Empty) read .full kindWithArtifact us
  refine ⟨hmem, hrejected, rfl, ?_, congrArg Prod.fst (hstandIn leaf hmem hrejected)⟩
  exact hsame.trans (hflag.mpr ⟨leaf, hmem, hrejected⟩)

end Model

end AdaptiveMtu
