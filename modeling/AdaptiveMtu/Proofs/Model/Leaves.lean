/-
Kinds and models as trees with leaves.

A kind that is no ensemble asks for a single model; an ensemble asks for the models of its members, and for
those of the default ones if it names none.  `ModelKind.induct` is the induction that follows this, and
`graft` the tree of a kind with some model at each leaf.  Building a kind is grafting what its leaves are
built as (`build_eq_graft`), so what is shown of grafted trees holds of built ones.
-/
import AdaptiveMtu.Model.Build
import Mathlib.Data.List.Basic

namespace AdaptiveMtu

namespace ModelKind

/-- Whether a kind asks for a single model and not for an ensemble. -/
def isSingle : ModelKind → Bool
  | .ensemble _ => false
  | .rules _ | .linear _ | .decision => true

/-- The members that an ensemble is built with: the ones it names, or the default ones. -/
def effective : List ModelKind → List ModelKind
  | [] => defaultMembers
  | kind :: rest => kind :: rest

theorem effective_ne_nil (members : List ModelKind) : effective members ≠ [] := by
  cases members with
  | nil => exact List.cons_ne_nil _ _
  | cons kind rest => exact List.cons_ne_nil _ _

theorem isSingle_of_mem_defaultMembers {kind : ModelKind} (h : kind ∈ defaultMembers) :
    kind.isSingle = true := by
  rcases List.mem_cons.mp h with rfl | h
  · rfl
  · rw [List.mem_singleton.mp h]
    rfl

/-- What holds of all members of a list holds of those that an ensemble of them is built with, if it holds
of single models. -/
theorem forall_effective {P : ModelKind → Prop} (single : ∀ kind, kind.isSingle = true → P kind)
    {members : List ModelKind} (h : ∀ kind ∈ members, P kind) : ∀ kind ∈ effective members, P kind := by
  cases members with
  | nil =>
      intro kind hkind
      exact single kind (isSingle_of_mem_defaultMembers hkind)
  | cons first rest => exact h

/-- **Induction over kinds.**  What holds of single models, and of an ensemble whenever it holds of the
members that it is built with, holds of every kind. -/
@[elab_as_elim]
theorem induct {P : ModelKind → Prop} (single : ∀ kind, kind.isSingle = true → P kind)
    (ensemble : ∀ members, (∀ kind ∈ effective members, P kind) → P (.ensemble members))
    (kind : ModelKind) : P kind := by
  -- The second statement is of lists of kinds as they are written, before default members are put in.
  refine ModelKind.rec (motive_1 := P) (motive_2 := fun members => ∀ kind ∈ members, P kind)
    ?_ ?_ ?_ ?_ ?_ ?_ kind
  · intro base
    exact single _ rfl
  · intro artifact
    exact single _ rfl
  · exact single _ rfl
  · intro members h
    exact ensemble members (forall_effective single h)
  · intro kind hkind
    cases hkind
  · intro first rest hfirst hrest kind hkind
    rcases List.mem_cons.mp hkind with rfl | hmem
    · exact hfirst
    · exact hrest kind hmem

/-! ### Leaves and widths of kinds -/

mutual

/-- The single models that a kind asks for, in order. -/
def leaves : ModelKind → List ModelKind
  | .ensemble [] => defaultMembers
  | .ensemble (kind :: rest) => leaves kind ++ leavesOfAll rest
  | .rules base => [.rules base]
  | .linear artifact => [.linear artifact]
  | .decision => [.decision]

/-- The single models that a list of kinds asks for, in order. -/
def leavesOfAll : List ModelKind → List ModelKind
  | [] => []
  | kind :: rest => leaves kind ++ leavesOfAll rest

end

theorem leaves_single {kind : ModelKind} (h : kind.isSingle = true) : kind.leaves = [kind] := by
  cases kind with
  | ensemble members => cases h
  | rules base | linear artifact | decision => rfl

theorem leavesOfAll_eq (kinds : List ModelKind) : leavesOfAll kinds = kinds.flatMap leaves := by
  induction kinds with
  | nil => rfl
  | cons kind rest ih => rw [leavesOfAll, ih, List.flatMap_cons]

theorem leaves_ensemble (members : List ModelKind) :
    (ensemble members).leaves = (effective members).flatMap leaves := by
  cases members with
  | nil => rfl
  | cons kind rest => rw [leaves, leavesOfAll_eq, effective, List.flatMap_cons]

theorem artifactsOfAll_eq (kinds : List ModelKind) :
    artifactsOfAll kinds = kinds.flatMap artifacts := by
  induction kinds with
  | nil => rfl
  | cons kind rest ih => rw [artifactsOfAll, ih, List.flatMap_cons]

theorem artifacts_ensemble (members : List ModelKind) :
    (ensemble members).artifacts = (effective members).flatMap artifacts := by
  cases members with
  | nil => rfl
  | cons kind rest => rw [artifacts, artifactsOfAll_eq, effective]

mutual

/-- The largest number of members that any ensemble of a kind is built with. -/
def width : ModelKind → Nat
  | .ensemble [] => defaultMembers.length
  | .ensemble (kind :: rest) => max (rest.length + 1) (max (width kind) (widthOfAll rest))
  | .rules _ | .linear _ | .decision => 0

/-- The largest number of members that any ensemble of a list of kinds is built with. -/
def widthOfAll : List ModelKind → Nat
  | [] => 0
  | kind :: rest => max (width kind) (widthOfAll rest)

end

theorem width_le_widthOfAll {kind : ModelKind} {kinds : List ModelKind} (h : kind ∈ kinds) :
    kind.width ≤ widthOfAll kinds := by
  induction kinds with
  | nil => cases h
  | cons first rest ih =>
      rw [widthOfAll]
      rcases List.mem_cons.mp h with rfl | hmem
      · exact Nat.le_max_left _ _
      · exact Nat.le_trans (ih hmem) (Nat.le_max_right _ _)

theorem length_effective_le_width (members : List ModelKind) :
    (effective members).length ≤ (ensemble members).width := by
  cases members with
  | nil => exact Nat.le_refl _
  | cons kind rest =>
      rw [width]
      exact Nat.le_max_left _ _

theorem width_le_of_mem_effective {kind : ModelKind} {members : List ModelKind}
    (h : kind ∈ effective members) : kind.width ≤ (ensemble members).width := by
  cases members with
  | nil =>
      rcases List.mem_cons.mp h with rfl | h
      · exact Nat.zero_le _
      · rw [List.mem_singleton.mp h]
        exact Nat.zero_le _
  | cons first rest => exact Nat.le_trans (width_le_widthOfAll h) (Nat.le_max_right _ _)

/-! ### Models at the leaves of a kind -/

variable {χ : Type} {f g : ModelKind → Model χ}

mutual

/-- The tree of a kind with a model at each of its leaves. -/
def graft (f : ModelKind → Model χ) : ModelKind → Model χ
  | .ensemble [] => .ensemble (defaultMembers.map f)
  | .ensemble (kind :: rest) => .ensemble (graft f kind :: graftAll f rest)
  | .rules base => f (.rules base)
  | .linear artifact => f (.linear artifact)
  | .decision => f .decision

/-- The trees of a list of kinds with a model at each of their leaves. -/
def graftAll (f : ModelKind → Model χ) : List ModelKind → List (Model χ)
  | [] => []
  | kind :: rest => graft f kind :: graftAll f rest

end

theorem graft_single {kind : ModelKind} (h : kind.isSingle = true) : kind.graft f = f kind := by
  cases kind with
  | ensemble members => cases h
  | rules base | linear artifact | decision => rfl

theorem graftAll_eq (kinds : List ModelKind) : graftAll f kinds = kinds.map (graft f) := by
  induction kinds with
  | nil => rfl
  | cons kind rest ih => rw [graftAll, ih, List.map_cons]

theorem graft_ensemble (members : List ModelKind) :
    (ensemble members).graft f = .ensemble ((effective members).map (graft f)) := by
  cases members with
  | nil => rfl
  | cons kind rest => rw [graft, graftAll_eq, effective, List.map_cons]

/-- **Induction over grafted trees.**  What holds of the models at the leaves, and of an ensemble of
models of which it holds, holds of the whole tree; no ensemble is empty or wider than the kind. -/
theorem graft_induct {P : Model χ → Prop} {kind : ModelKind}
    (single : ∀ leaf, leaf.isSingle = true → P (f leaf))
    (ensemble : ∀ members, members ≠ [] → members.length ≤ kind.width → (∀ m ∈ members, P m) →
      P (.ensemble members)) : P (kind.graft f) := by
  suffices h : ∀ k : ModelKind, k.width ≤ kind.width → P (k.graft f) from h kind (Nat.le_refl _)
  intro k
  induction k using induct with
  | single leaf hleaf =>
      intro _
      rw [graft_single hleaf]
      exact single leaf hleaf
  | ensemble kinds ih =>
      intro hwidth
      rw [graft_ensemble]
      refine ensemble _ ?_ ?_ ?_
      · exact mt List.map_eq_nil_iff.mp (effective_ne_nil kinds)
      · rw [List.length_map]
        exact Nat.le_trans (length_effective_le_width kinds) hwidth
      · intro m hm
        obtain ⟨k, hk, rfl⟩ := List.mem_map.mp hm
        exact ih k hk (Nat.le_trans (width_le_of_mem_effective hk) hwidth)

end ModelKind

namespace Model

variable {χ : Type}

/-! ### Leaves and ensembles of models -/

mutual

/-- The models at the leaves of a tree, in order. -/
def leaves : Model χ → List (Model χ)
  | .ensemble members => leavesOfAll members
  | .rules base bounds => [.rules base bounds]
  | .decision bounds => [.decision bounds]
  | .linear learner => [.linear learner]
  | .degraded reason => [.degraded reason]
  | .custom predictor => [.custom predictor]

/-- The models at the leaves of several trees, in order. -/
def leavesOfAll : List (Model χ) → List (Model χ)
  | [] => []
  | m :: rest => leaves m ++ leavesOfAll rest

end

theorem leaves_ensemble (members : List (Model χ)) :
    (ensemble members).leaves = members.flatMap leaves := by
  rw [leaves]
  induction members with
  | nil => rfl
  | cons m rest ih => rw [leavesOfAll, ih, List.flatMap_cons]

mutual

/-- The member lists of all ensembles in a tree, outer ones first. -/
def ensembles : Model χ → List (List (Model χ))
  | .ensemble members => members :: ensemblesOfAll members
  | .rules _ _ | .decision _ | .linear _ | .degraded _ | .custom _ => []

/-- The member lists of all ensembles in several trees. -/
def ensemblesOfAll : List (Model χ) → List (List (Model χ))
  | [] => []
  | m :: rest => ensembles m ++ ensemblesOfAll rest

end

theorem ensembles_ensemble (members : List (Model χ)) :
    (ensemble members).ensembles = members :: members.flatMap ensembles := by
  rw [ensembles]
  congr 1
  induction members with
  | nil => rfl
  | cons m rest ih => rw [ensemblesOfAll, ih, List.flatMap_cons]

/-! ### Single models -/

/-- Whether a model is a single one and not an ensemble. -/
def isSingle : Model χ → Bool
  | .ensemble _ => false
  | .rules _ _ | .decision _ | .linear _ | .degraded _ | .custom _ => true

theorem leaves_of_isSingle {m : Model χ} (h : m.isSingle = true) : m.leaves = [m] := by
  cases m with
  | ensemble members => cases h
  | rules _ _ | decision _ | linear _ | degraded _ | custom _ => rfl

theorem ensembles_of_isSingle {m : Model χ} (h : m.isSingle = true) : m.ensembles = [] := by
  cases m with
  | ensemble members => cases h
  | rules _ _ | decision _ | linear _ | degraded _ | custom _ => rfl

theorem leaves_graft {f : ModelKind → Model χ}
    (h : ∀ leaf : ModelKind, leaf.isSingle = true → (f leaf).isSingle = true) (kind : ModelKind) :
    (kind.graft f).leaves = kind.leaves.map f := by
  induction kind using ModelKind.induct with
  | single leaf hleaf =>
      rw [ModelKind.graft_single hleaf, ModelKind.leaves_single hleaf,
        leaves_of_isSingle (h leaf hleaf), List.map_singleton]
  | ensemble members ih =>
      rw [ModelKind.graft_ensemble, ModelKind.leaves_ensemble, leaves_ensemble, List.flatMap_map,
        List.map_flatMap]
      exact List.flatMap_congr ih

/-- No ensemble of a grafted tree is without members. -/
theorem ne_nil_of_mem_ensembles {f : ModelKind → Model χ}
    (h : ∀ leaf : ModelKind, leaf.isSingle = true → (f leaf).isSingle = true) {kind : ModelKind} :
    ∀ members ∈ (kind.graft f).ensembles, members ≠ [] := by
  refine ModelKind.graft_induct (P := fun m => ∀ members ∈ m.ensembles, members ≠ []) ?_ ?_
  · intro leaf hleaf members hmem
    rw [ensembles_of_isSingle (h leaf hleaf)] at hmem
    cases hmem
  · intro outer houter _ hinner members hmem
    rw [ensembles_ensemble] at hmem
    rcases List.mem_cons.mp hmem with rfl | hmem
    · exact houter
    · obtain ⟨m, hm, hmem⟩ := List.mem_flatMap.mp hmem
      exact hinner m hm members hmem

/-! ### Building -/

variable {read : TextReader} {bounds : MtuBounds}

theorem buildAll_eq (kinds : List ModelKind) :
    (buildAll read bounds kinds : List (Model χ)) = kinds.map (build read bounds) := by
  induction kinds with
  | nil => rfl
  | cons kind rest ih => rw [buildAll, ih, List.map_cons]

theorem build_ensemble (members : List ModelKind) :
    (build read bounds (.ensemble members) : Model χ)
      = .ensemble ((ModelKind.effective members).map (build read bounds)) := by
  cases members with
  | nil => rfl
  | cons kind rest => rw [build, buildAll_eq, ModelKind.effective, List.map_cons]

/-- What each leaf is built as. -/
inductive BuiltLeaf (read : TextReader) (bounds : MtuBounds) : ModelKind → Model χ → Prop where
  | rules (base : Nat) : BuiltLeaf read bounds (.rules base) (.rules base bounds)
  | decision : BuiltLeaf read bounds .decision (.decision bounds)
  | fresh : BuiltLeaf read bounds (.linear none) (.linear (.fresh bounds))
  | loaded {path : String} {learner : Learner}
      (h : Artifact.load read path bounds = .ok learner) :
      BuiltLeaf read bounds (.linear (some path)) (.linear learner)
  | rejected {path : String} {cause : ArtifactFault}
      (h : Artifact.load read path bounds = .error cause) :
      BuiltLeaf read bounds (.linear (some path)) (.degraded (Error.artifact cause).message)

theorem builtLeaf_build {leaf : ModelKind} (h : leaf.isSingle = true) :
    BuiltLeaf read bounds leaf (build read bounds leaf : Model χ) := by
  cases leaf with
  | ensemble members => cases h
  | rules base => exact .rules base
  | decision => exact .decision
  | linear artifact =>
      cases artifact with
      | none => exact .fresh
      | some path =>
          rw [build, ofArtifact]
          cases hload : Artifact.load read path bounds with
          | ok learner => exact .loaded hload
          | error cause => exact .rejected hload

theorem BuiltLeaf.isSingle {leaf : ModelKind} {m : Model χ} (h : BuiltLeaf read bounds leaf m) :
    m.isSingle = true := by
  cases h <;> rfl

theorem isSingle_build {kind : ModelKind} (h : kind.isSingle = true) :
    (build read bounds kind : Model χ).isSingle = true := (builtLeaf_build h).isSingle

/-- **Building a kind puts at each of its leaves what that leaf is built as by itself.** -/
theorem build_eq_graft (kind : ModelKind) :
    (build read bounds kind : Model χ) = kind.graft (build read bounds) := by
  induction kind using ModelKind.induct with
  | single kind hkind => rw [ModelKind.graft_single hkind]
  | ensemble members ih =>
      rw [build_ensemble, ModelKind.graft_ensemble]
      exact congrArg Model.ensemble (List.map_congr_left ih)

/-- What a kind is built as depends on nothing but the artifacts that it names. -/
theorem build_congr {read' : TextReader} {kind : ModelKind}
    (h : ∀ path ∈ kind.artifacts, read path = read' path) :
    (build read bounds kind : Model χ) = build read' bounds kind := by
  induction kind using ModelKind.induct with
  | single kind hkind =>
      cases kind with
      | ensemble members => cases hkind
      | rules base | decision => rfl
      | linear artifact =>
          cases artifact with
          | none => rfl
          | some path =>
              rw [build, build, ofArtifact, ofArtifact, Artifact.load, Artifact.load,
                h path (List.mem_singleton_self path)]
  | ensemble members ih =>
      rw [build_ensemble, build_ensemble]
      refine congrArg Model.ensemble (List.map_congr_left ?_)
      intro kind hkind
      refine ih kind hkind ?_
      intro path hpath
      refine h path ?_
      rw [ModelKind.artifacts_ensemble]
      exact List.mem_flatMap.mpr ⟨kind, hkind, hpath⟩

end Model

end AdaptiveMtu
