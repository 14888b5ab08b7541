/-
Neutrality of missing measurements.

A model is used by asking it and by teaching it, in any order.  Two uses of a model are alike if they
differ in nothing but means that one of them has put in for missing measurements.  Leaf by leaf, such
uses get the same answers and teach the same weights, although the samples that a linear model
remembers, and replays for every later one, are not the same; so do they for a whole tree, since an
update of a tree is one of each leaf and an answer is made of the answers of the leaves.
-/
import AdaptiveMtu.Proofs.Linear.Likeness
import AdaptiveMtu.Proofs.Session.Noninterference

namespace AdaptiveMtu

namespace Model

variable {χ : Type}

/-! ### Weights -/

/-- The weights of the linear models at the leaves of a tree, in order. -/
def weights (m : Model χ) : List Weights :=
  m.leaves.filterMap fun leaf => match leaf with
    | .linear learner => some learner.weights
    | _ => none

theorem weights_ensemble (members : List (Model χ)) :
    (ensemble members).weights = members.flatMap weights := by
  rw [weights, leaves_ensemble, List.filterMap_flatMap]
  rfl

/-! ### Leaves that are alike -/

/-- Two models at a leaf are the same, or linear models that are alike. -/
inductive LeafAlike : Model χ → Model χ → Prop where
  | rules (base : Nat) (bounds : MtuBounds) : LeafAlike (.rules base bounds) (.rules base bounds)
  | decision (bounds : MtuBounds) : LeafAlike (.decision bounds) (.decision bounds)
  | degraded (reason : String) : LeafAlike (.degraded reason) (.degraded reason)
  | linear {l l' : Learner} (h : l.Alike l') : LeafAlike (.linear l) (.linear l')

variable {m n : Model χ} {v w : FeatureVector}

theorem Basic.leafAlike {bounds : MtuBounds} (h : Basic bounds m) : LeafAlike m m := by
  cases h with
  | rules base => exact .rules base bounds
  | decision => exact .decision bounds
  | linear learner _ => exact .linear (.refl learner)
  | degraded reason => exact .degraded reason

theorem LeafAlike.weights (h : LeafAlike m n) : m.weights = n.weights := by
  cases h with
  | rules | decision | degraded => rfl
  | linear h => exact congrArg (fun w => [w]) h.weights

/-- Models put at the leaves of a kind, two for each, that are alike. -/
def LeavesAlike (f g : ModelKind → Model χ) : Prop :=
  ∀ leaf, leaf.isSingle = true → LeafAlike (f leaf) (g leaf)

variable {f g : ModelKind → Model χ}

theorem LeavesAlike.weights (h : LeavesAlike f g) (kind : ModelKind) :
    (kind.graft f).weights = (kind.graft g).weights := by
  induction kind using ModelKind.induct with
  | single leaf hleaf =>
      rw [ModelKind.graft_single hleaf, ModelKind.graft_single hleaf]
      exact (h leaf hleaf).weights
  | ensemble members ih =>
      rw [ModelKind.graft_ensemble, ModelKind.graft_ensemble, weights_ensemble, weights_ensemble,
        List.flatMap_map, List.flatMap_map]
      exact List.flatMap_congr ih

variable [Predictor χ]

theorem LeafAlike.predict (h : LeafAlike m n) (hv : v.Alike w) :
    (m.predict v).1 = (n.predict w).1 := by
  cases h with
  | rules base bounds => simp only [Model.predict, Rules.predict, hv.conditions]
  | decision bounds => simp only [Model.predict, Decision.predict, hv.conditions]
  | degraded reason => rfl
  | linear h => exact h.predict hv

theorem LeafAlike.raw (h : LeafAlike m n) (hv : v.Alike w) : (m.raw v).1 = (n.raw w).1 := by
  cases h with
  | rules | decision | degraded => rfl
  | linear h => exact h.raw hv

theorem LeafAlike.update (h : LeafAlike m n) (hv : v.Alike w) (mtu : Nat) :
    (m.update v mtu).1 = (n.update w mtu).1 ∧
      LeafAlike (m.update v mtu).2 (n.update w mtu).2 := by
  cases h with
  | rules base bounds => exact ⟨rfl, .rules base bounds⟩
  | decision bounds => exact ⟨rfl, .decision bounds⟩
  | degraded reason => exact ⟨rfl, .degraded reason⟩
  | linear h => exact ⟨(h.update hv mtu).1, .linear (h.update hv mtu).2⟩

theorem LeafAlike.steady (h : LeafAlike m n) : m.Steady ∧ n.Steady := by
  cases h <;> exact ⟨⟨fun _ => rfl, fun _ => rfl⟩, ⟨fun _ => rfl, fun _ => rfl⟩⟩

/-! ### Using a model -/

/-- What a model can be used for. -/
inductive Use where
  | predict (v : FeatureVector)
  | raw (v : FeatureVector)
  | update (v : FeatureVector) (mtu : Nat)

/-- What a model gives back for a use of it. -/
inductive Response where
  | answer (mtu : Except Error Nat)
  | raw (value : Option Float)
  | report (r : Except Error Unit)

/-- One use of a model: the response, and the model afterwards. -/
def use (m : Model χ) : Use → Response × Model χ
  | .predict v => (.answer (m.predict v).1, (m.predict v).2)
  | .raw v => (.raw (m.raw v).1, (m.raw v).2)
  | .update v mtu => (.report (m.update v mtu).1, (m.update v mtu).2)

/-- The responses to a run of uses, in order, and the model afterwards. -/
def useAll (m : Model χ) : List Use → List Response × Model χ
  | [] => ([], m)
  | u :: rest => ((m.use u).1 :: ((m.use u).2.useAll rest).1, ((m.use u).2.useAll rest).2)

/-- The second use is the first one, with some of the missing measurements at their means. -/
inductive Use.Filled : Use → Use → Prop where
  | predict {v w : FeatureVector} (h : v.Filled w) : Filled (.predict v) (.predict w)
  | raw {v w : FeatureVector} (h : v.Filled w) : Filled (.raw v) (.raw w)
  | update {v w : FeatureVector} (h : v.Filled w) (mtu : Nat) : Filled (.update v mtu) (.update w mtu)

/-! ### Trees with leaves that are alike -/

theorem predictAll_congr {members members' : List (Model χ)}
    (h : List.Forall₂ (fun m n => (m.predict v).1 = (n.predict w).1) members members') :
    (predictAll v members).1 = (predictAll w members').1 := by
  induction h with
  | nil => rfl
  | @cons m n rest rest' hfirst _ ih =>
      rw [predictAll, predictAll]
      rcases hm : m.predict v with ⟨answer, next⟩
      rcases hn : n.predict w with ⟨answer', next'⟩
      rw [hm, hn] at hfirst
      obtain rfl : answer = answer' := hfirst
      cases answer with
      | error fault => rfl
      | ok mtu => exact congrArg (Except.map (mtu :: ·)) ih

/-- The trees of the members of an ensemble answer alike if the leaves do. -/
theorem predictAll_graft_congr {kinds : List ModelKind}
    (h : ∀ kind ∈ kinds, ((kind.graft f).predict v).1 = ((kind.graft g).predict w).1) :
    (predictAll v (kinds.map (ModelKind.graft f))).1
      = (predictAll w (kinds.map (ModelKind.graft g))).1 := by
  refine predictAll_congr ?_
  rw [List.forall₂_map_left_iff, List.forall₂_map_right_iff, List.forall₂_same]
  exact h

theorem LeavesAlike.predict (h : LeavesAlike f g) (hv : v.Alike w) (kind : ModelKind) :
    ((kind.graft f).predict v).1 = ((kind.graft g).predict w).1 := by
  induction kind using ModelKind.induct with
  | single leaf hleaf =>
      rw [ModelKind.graft_single hleaf, ModelKind.graft_single hleaf]
      exact (h leaf hleaf).predict hv
  | ensemble members ih =>
      rw [ModelKind.graft_ensemble, ModelKind.graft_ensemble]
      simp only [Model.predict, predictAll_graft_congr ih]

theorem LeavesAlike.raw (h : LeavesAlike f g) (hv : v.Alike w) (kind : ModelKind) :
    ((kind.graft f).raw v).1 = ((kind.graft g).raw w).1 := by
  induction kind using ModelKind.induct with
  | single leaf hleaf =>
      rw [ModelKind.graft_single hleaf, ModelKind.graft_single hleaf]
      exact (h leaf hleaf).raw hv
  | ensemble members _ =>
      rw [ModelKind.graft_ensemble, ModelKind.graft_ensemble]
      simp only [Model.raw, predictAll_graft_congr fun kind _ => h.predict hv kind]

/-- Leaves that are alike stay so in an update of their trees, and the reports are the same. -/
theorem LeavesAlike.update (h : LeavesAlike f g) (hv : v.Alike w) (mtu : Nat) (kind : ModelKind) :
    ((kind.graft f).update v mtu).1 = ((kind.graft g).update w mtu).1 ∧
      LeavesAlike (fun leaf => ((f leaf).update v mtu).2) fun leaf => ((g leaf).update w mtu).2 := by
  refine ⟨?_, fun leaf hleaf => ((h leaf hleaf).update hv mtu).2⟩
  induction kind using ModelKind.induct with
  | single leaf hleaf =>
      rw [ModelKind.graft_single hleaf, ModelKind.graft_single hleaf]
      exact ((h leaf hleaf).update hv mtu).1
  | ensemble members ih =>
      rw [ModelKind.graft_ensemble, ModelKind.graft_ensemble, update_ensemble, update_ensemble]
      refine congrArg firstFailureOf ?_
      rw [List.map_map, List.map_map]
      exact List.map_congr_left ih

theorem LeavesAlike.steady (h : LeavesAlike f g) (kind : ModelKind) :
    (kind.graft f).Steady ∧ (kind.graft g).Steady :=
  ⟨ModelKind.graft_induct (fun leaf hleaf => (h leaf hleaf).steady.1)
      fun _ _ _ hmembers => steady_ensemble hmembers,
    ModelKind.graft_induct (fun leaf hleaf => (h leaf hleaf).steady.2)
      fun _ _ _ hmembers => steady_ensemble hmembers⟩

/-! ### Runs that are alike -/

/-- **One use of trees with leaves that are alike** has the same response, and leaves such trees. -/
theorem LeavesAlike.use (h : LeavesAlike f g) (kind : ModelKind) {u u' : Use} (hu : u.Filled u') :
    ((kind.graft f).use u).1 = ((kind.graft g).use u').1 ∧
      ∃ f' g', LeavesAlike f' g' ∧ ((kind.graft f).use u).2 = kind.graft f' ∧
        ((kind.graft g).use u').2 = kind.graft g' := by
  obtain ⟨hf, hg⟩ := h.steady kind
  cases hu with
  | predict hv =>
      exact ⟨congrArg Response.answer (h.predict hv.alike kind), f, g, h, hf.predict _, hg.predict _⟩
  | raw hv => exact ⟨congrArg Response.raw (h.raw hv.alike kind), f, g, h, hf.raw _, hg.raw _⟩
  | update hv mtu =>
      obtain ⟨hreport, hnext⟩ := h.update hv.alike mtu kind
      refine ⟨congrArg Response.report hreport, _, _, hnext, ?_, ?_⟩
      · exact congrArg Prod.snd (update_graft f kind _ mtu)
      · exact congrArg Prod.snd (update_graft g kind _ mtu)

theorem LeavesAlike.useAll (h : LeavesAlike f g) (kind : ModelKind) {us us' : List Use}
    (hus : List.Forall₂ Use.Filled us us') :
    ((kind.graft f).useAll us).1 = ((kind.graft g).useAll us').1 ∧
      ((kind.graft f).useAll us).2.weights = ((kind.graft g).useAll us').2.weights := by
  induction hus generalizing f g with
  | nil => exact ⟨rfl, h.weights kind⟩
  | cons hu _ ih =>
      obtain ⟨hresponse, f', g', h', hf, hg⟩ := h.use kind hu
      obtain ⟨hresponses, hweights⟩ := ih h'
      simp only [Model.useAll, hresponse, hf, hg, hresponses, hweights]
      exact ⟨trivial, trivial⟩

/-- **A missing measurement is as good as one at its mean.**  Whatever a model is built from, and however it is
asked and taught, putting means in for missing measurements changes no answer, no raw prediction, no
report and no weight. -/
theorem neutral_filling (read : TextReader) (bounds : MtuBounds) (kind : ModelKind)
    {us us' : List Use} (h : List.Forall₂ Use.Filled us us') :
    let m : Model χ := build read bounds kind
    (m.useAll us).1 = (m.useAll us').1 ∧ (m.useAll us).2.weights = (m.useAll us').2.weights := by
  intro m
  have hleaves : LeavesAlike (build read bounds : ModelKind → Model χ) (build read bounds) :=
    fun leaf hleaf => (basic_build hleaf).leafAlike
  have htree : m = kind.graft (build read bounds) := build_eq_graft kind
  rw [htree]
  exact hleaves.useAll kind h

/-- What is known of some path: two measurements of eight. -/
def sparsePath : FeatureVector := (FeatureVector.empty.set .throughput 8000000).withNetwork .wifi

/-- The same path with the means of two more. -/
def filledPath : FeatureVector := (sparsePath.set .averageSize 1200).set .loss 0.01

/-- Teaching with the filled path and asking about it is teaching with the sparse one and asking about it. -/
theorem filled_path_teaches_the_same :
    let m : Model Empty := build (fun _ => .error .notFound) .full .standard
    sparsePath.Filled filledPath ∧ filledPath.loss = some 0.01 ∧ filledPath.averageSize = some 1200 ∧
      (m.useAll [.update sparsePath 1500, .update sparsePath 3000, .raw sparsePath]).1
        = (m.useAll [.update filledPath 1500, .update sparsePath 3000, .raw filledPath]).1 := by
  intro m
  have hsize : sparsePath.Filled (sparsePath.set .averageSize Field.averageSize.mean) :=
    (FeatureVector.Filled.refl _).fill .averageSize (by decide) rfl
  have hfilled : sparsePath.Filled filledPath := hsize.fill .loss (by decide) rfl
  refine ⟨hfilled, by decide +kernel, by decide +kernel, ?_⟩
  exact (neutral_filling (fun _ => .error .notFound) .full .standard
    (.cons (.update hfilled 1500) (.cons (.update (.refl _) 3000) (.cons (.raw hfilled) .nil)))).1

end Model

end AdaptiveMtu
