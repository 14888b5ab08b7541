/-
What ensembles make of their members.

Teaching an ensemble teaches every member, whatever the others report, and reports the first failure.  Over a
whole tree, and over any number of lessons, each leaf therefore learns as if it were alone
(`learnAll_build`), and the report is the first failure among the leaves in order.  A prediction
needs the answers of the members and nothing else: the first failure among them, or their mean.
-/
import AdaptiveMtu.Proofs.Model.Leaves

namespace AdaptiveMtu

namespace Model

variable {χ : Type} [Predictor χ]

/-! ### First failures -/

/-- The first failure among reports, in order. -/
def firstFailureOf (reports : List (Except Error Unit)) : Except Error Unit :=
  reports.foldr firstFailure (.ok ())

theorem firstFailureOf_cons (report : Except Error Unit) (rest : List (Except Error Unit)) :
    firstFailureOf (report :: rest) = firstFailure report (firstFailureOf rest) := rfl

theorem firstFailureOf_singleton (report : Except Error Unit) : firstFailureOf [report] = report := by
  cases report <;> rfl

theorem firstFailureOf_append (reports more : List (Except Error Unit)) :
    firstFailureOf (reports ++ more) = firstFailure (firstFailureOf reports) (firstFailureOf more) := by
  induction reports with
  | nil => rfl
  | cons report rest ih =>
      rw [List.cons_append, firstFailureOf_cons, firstFailureOf_cons, ih]
      cases report <;> rfl

theorem firstFailureOf_flatMap {α : Type} (reports : α → List (Except Error Unit)) (l : List α) :
    firstFailureOf (l.flatMap reports) = firstFailureOf (l.map fun a => firstFailureOf (reports a)) := by
  induction l with
  | nil => rfl
  | cons a rest ih => rw [List.flatMap_cons, firstFailureOf_append, ih, List.map_cons,
      firstFailureOf_cons]

/-- There is no failure if nothing failed. -/
theorem firstFailureOf_map_eq_ok_iff {α : Type} (report : α → Except Error Unit) (l : List α) :
    firstFailureOf (l.map report) = .ok () ↔ ∀ a ∈ l, report a = .ok () := by
  induction l with
  | nil => simp [firstFailureOf]
  | cons a rest ih =>
      rw [List.map_cons, firstFailureOf_cons, List.forall_mem_cons, ← ih]
      cases report a <;> simp [firstFailure]

/-- A failure is the first one if all reports before it are successes. -/
theorem firstFailureOf_map_eq_error_iff {α : Type} (report : α → Except Error Unit) (l : List α)
    (fault : Error) :
    firstFailureOf (l.map report) = .error fault ↔
      ∃ before a after, l = before ++ a :: after ∧ (∀ b ∈ before, report b = .ok ()) ∧
        report a = .error fault := by
  constructor
  · intro h
    induction l with
    | nil => simp [firstFailureOf] at h
    | cons first rest ih =>
        rw [List.map_cons, firstFailureOf_cons] at h
        cases hfirst : report first with
        | error other =>
            rw [hfirst] at h
            exact ⟨[], first, rest, rfl, by simp, hfirst.trans h⟩
        | ok u =>
            rw [hfirst] at h
            obtain ⟨before, a, after, rfl, hbefore, ha⟩ := ih h
            exact ⟨first :: before, a, after, rfl, List.forall_mem_cons.mpr ⟨hfirst, hbefore⟩, ha⟩
  · rintro ⟨before, a, after, rfl, hbefore, ha⟩
    rw [List.map_append, firstFailureOf_append,
      (firstFailureOf_map_eq_ok_iff report before).mpr hbefore, List.map_cons, firstFailureOf_cons, ha]
    rfl

/-! ### Learning -/

/-- A model after one update, whatever came of it. -/
def learn (m : Model χ) (sample : FeatureVector × Nat) : Model χ := (m.update sample.1 sample.2).2

/-- A model after updates with all of the given samples, in order. -/
def learnAll (m : Model χ) (samples : List (FeatureVector × Nat)) : Model χ := samples.foldl learn m

theorem learnAll_cons (m : Model χ) (sample : FeatureVector × Nat)
    (rest : List (FeatureVector × Nat)) :
    m.learnAll (sample :: rest) = (m.learn sample).learnAll rest := rfl

theorem learnAll_append (m : Model χ) (samples more : List (FeatureVector × Nat)) :
    m.learnAll (samples ++ more) = (m.learnAll samples).learnAll more :=
  List.foldl_append

/-- **An update of an ensemble is an update of each member**, and fails with the first that does. -/
theorem update_ensemble (members : List (Model χ)) (v : FeatureVector) (mtu : Nat) :
    (ensemble members).update v mtu =
      (firstFailureOf (members.map fun m => (m.update v mtu).1),
        .ensemble (members.map fun m => (m.update v mtu).2)) := by
  have hall : updateAll v mtu members = (firstFailureOf (members.map fun m => (m.update v mtu).1),
      members.map fun m => (m.update v mtu).2) := by
    induction members with
    | nil => rfl
    | cons m rest ih =>
        rw [updateAll, ih]
        rfl
  rw [update, hall]

/-- An update of a tree is an update of each of its leaves, and fails with the first that does. -/
theorem update_graft (f : ModelKind → Model χ) (kind : ModelKind) (v : FeatureVector) (mtu : Nat) :
    (kind.graft f).update v mtu =
      (firstFailureOf (kind.leaves.map fun leaf => ((f leaf).update v mtu).1),
        kind.graft fun leaf => ((f leaf).update v mtu).2) := by
  induction kind using ModelKind.induct with
  | single leaf hleaf =>
      rw [ModelKind.graft_single hleaf, ModelKind.graft_single hleaf, ModelKind.leaves_single hleaf,
        List.map_singleton, firstFailureOf_singleton]
  | ensemble members ih =>
      rw [ModelKind.graft_ensemble, ModelKind.graft_ensemble, update_ensemble,
        ModelKind.leaves_ensemble, List.map_map, List.map_map, List.map_flatMap,
        firstFailureOf_flatMap]
      refine Prod.ext (congrArg firstFailureOf ?_) (congrArg ensemble ?_)
      · refine List.map_congr_left ?_
        intro kind hkind
        exact congrArg Prod.fst (ih kind hkind)
      · refine List.map_congr_left ?_
        intro kind hkind
        exact congrArg Prod.snd (ih kind hkind)

theorem learnAll_graft (f : ModelKind → Model χ) (kind : ModelKind)
    (samples : List (FeatureVector × Nat)) :
    (kind.graft f).learnAll samples = kind.graft fun leaf => (f leaf).learnAll samples := by
  induction samples generalizing f with
  | nil => rfl
  | cons sample rest ih =>
      have hlearn : (kind.graft f).learn sample = kind.graft fun leaf => (f leaf).learn sample := by
        rw [learn, update_graft]
        rfl
      rw [learnAll_cons, hlearn, ih]
      rfl

variable {read : TextReader} {bounds : MtuBounds}

/-- **Each leaf of a tree learns as if it were alone.** -/
theorem learnAll_build (kind : ModelKind) (samples : List (FeatureVector × Nat)) :
    ((build read bounds kind).learnAll samples : Model χ)
      = kind.graft fun leaf => (build read bounds leaf).learnAll samples := by
  rw [build_eq_graft, learnAll_graft]

theorem isSingle_learn (m : Model χ) (sample : FeatureVector × Nat) :
    (m.learn sample).isSingle = m.isSingle := by
  cases m <;> rfl

theorem isSingle_learnAll (m : Model χ) (samples : List (FeatureVector × Nat)) :
    (m.learnAll samples).isSingle = m.isSingle := by
  induction samples generalizing m with
  | nil => rfl
  | cons sample rest ih => rw [learnAll_cons, ih, isSingle_learn]

/-! ### Predicting -/

/-- The mean of answers, as it is computed. -/
def average (mtus : List Nat) : Float :=
  Binary64.ofCount (total mtus) / Binary64.ofCount mtus.length

theorem mean_of_ne_nil {mtus : List Nat} (h : mtus ≠ []) : mean mtus = .ok (average mtus) := by
  rw [mean, if_neg (by rwa [List.isEmpty_iff])]
  rfl

/-- What becomes of answers that are collected in order: all MTUs, or the first failure. -/
inductive Collected (answers : List (Except Error Nat)) : Except Error (List Nat) → Prop where
  | all (mtus : List Nat) (h : answers = mtus.map .ok) : Collected answers (.ok mtus)
  | failure (mtus : List Nat) (fault : Error) (rest : List (Except Error Nat))
      (h : answers = mtus.map .ok ++ .error fault :: rest) : Collected answers (.error fault)

/-- Several models are asked for what each of them answers by itself. -/
theorem collected_predictAll (v : FeatureVector) (members : List (Model χ)) :
    Collected (members.map fun m => (m.predict v).1) (predictAll v members).1 := by
  induction members with
  | nil => exact .all [] rfl
  | cons m others ih =>
      rw [List.map_cons, predictAll]
      rcases m.predict v with ⟨answer, next⟩
      cases answer with
      | error fault => exact .failure [] fault _ rfl
      | ok mtu =>
          rcases hothers : predictAll v others with ⟨collected, nextOthers⟩
          rw [hothers] at ih
          cases ih with
          | all mtus h => exact .all (mtu :: mtus) (congrArg (Except.ok mtu :: ·) h)
          | failure mtus fault rest h =>
              exact .failure (mtu :: mtus) fault rest (congrArg (Except.ok mtu :: ·) h)

/-- Where all members answer, each answer is that of some member, and there are as many. -/
theorem answers_of_map_eq {members : List (Model χ)} {v : FeatureVector} {mtus : List Nat}
    (h : (members.map fun m => (m.predict v).1) = mtus.map .ok) :
    mtus.length = members.length ∧ ∀ mtu ∈ mtus, ∃ m ∈ members, (m.predict v).1 = .ok mtu := by
  have hlength := congrArg List.length h
  rw [List.length_map, List.length_map] at hlength
  refine ⟨hlength.symm, fun mtu hmtu => ?_⟩
  have hmem : .ok mtu ∈ members.map fun m => (m.predict v).1 := by
    rw [h]
    exact List.mem_map.mpr ⟨mtu, hmtu, rfl⟩
  exact List.mem_map.mp hmem

/-- **An ensemble answers the mean of its members' answers, or the first failure among them.** -/
theorem predict_ensemble {members : List (Model χ)} (hmembers : members ≠ []) (v : FeatureVector) :
    ∃ collected, Collected (members.map fun m => (m.predict v).1) collected ∧
      ((ensemble members).predict v).1 = collected.map (fun mtus => roundMean (average mtus)) ∧
      ((ensemble members).raw v).1 = (collected.map average).toOption := by
  have hcollected := collected_predictAll v members
  refine ⟨(predictAll v members).1, hcollected, ?_⟩
  rw [predict, raw]
  rcases hall : predictAll v members with ⟨collected, next⟩
  rw [hall] at hcollected
  cases hcollected with
  | failure mtus fault rest h => exact ⟨rfl, rfl⟩
  | all mtus h =>
      have hmtus : mtus ≠ [] := by
        rintro rfl
        exact hmembers (List.map_eq_nil_iff.mp h)
      simp only [Except.bind, mean_of_ne_nil hmtus]
      exact ⟨rfl, rfl⟩

/-! ### The law of composition -/

/-- **A tree of models behaves as its leaves do by themselves.**  After any updates each leaf is what it
would be alone, an update succeeds if it does for every leaf and else fails as the first leaf that does,
and an ensemble answers by what its members answer. -/
theorem ensemble_composition (read : TextReader) (bounds : MtuBounds) (kind : ModelKind)
    (samples : List (FeatureVector × Nat)) :
    let alone (leaf : ModelKind) : Model χ := (build read bounds leaf).learnAll samples
    let m : Model χ := (build read bounds kind).learnAll samples
    (m = kind.graft alone ∧ m.leaves = kind.leaves.map alone) ∧
    (∀ v mtu, ((m.update v mtu).1 = .ok () ↔
        ∀ leaf ∈ kind.leaves, ((alone leaf).update v mtu).1 = .ok ()) ∧
      ∀ fault, (m.update v mtu).1 = .error fault ↔
        ∃ before leaf after, kind.leaves = before ++ leaf :: after ∧
          (∀ other ∈ before, ((alone other).update v mtu).1 = .ok ()) ∧
          ((alone leaf).update v mtu).1 = .error fault) ∧
    ∀ members ∈ m.ensembles, ∀ v,
      ∃ collected, Collected (members.map fun member => (member.predict v).1) collected ∧
        ((ensemble members).predict v).1 = collected.map (fun mtus => roundMean (average mtus)) ∧
        ((ensemble members).raw v).1 = (collected.map average).toOption := by
  intro alone m
  have htree : m = kind.graft alone := learnAll_build kind samples
  have hsingle : ∀ leaf : ModelKind, leaf.isSingle = true → (alone leaf).isSingle = true := by
    intro leaf hleaf
    rw [isSingle_learnAll]
    exact isSingle_build hleaf
  refine ⟨⟨htree, ?_⟩, ?_, ?_⟩
  · rw [htree, leaves_graft hsingle]
  · intro v mtu
    have hreport : (m.update v mtu).1
        = firstFailureOf (kind.leaves.map fun leaf => ((alone leaf).update v mtu).1) := by
      rw [htree, update_graft]
    rw [hreport]
    exact ⟨firstFailureOf_map_eq_ok_iff _ _, firstFailureOf_map_eq_error_iff _ _⟩
  · intro members hmembers v
    rw [htree] at hmembers
    exact predict_ensemble (ne_nil_of_mem_ensembles hsingle members hmembers) v

end Model

end AdaptiveMtu
