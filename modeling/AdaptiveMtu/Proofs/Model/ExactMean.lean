/-
The mean of an ensemble, in whole numbers.

For fewer than 2³² members the sum of the answers and their number are converted exactly, so the computed mean
is off by one rounding of their quotient.  A quotient that is not whole is further below the next whole
number than that, so it is cut down to the whole quotient, and what an ensemble answers depends on nothing but
the sum and the number of its members' answers.
-/
import AdaptiveMtu.Proofs.Model.Range

namespace AdaptiveMtu

namespace Model

open Binary64

variable {χ : Type}

/-! ### The quotient -/

/-- The number nearest to a quotient up to 9000 is cut down to the whole quotient, if it is one of fewer than
2³² parts. -/
theorem floor_nearest_quotient {sum n : ℕ} (hn : 0 < n) (hcount : n < 2 ^ 32)
    (hsum : sum ≤ n * largestMtu) : ⌊nearest (sum / n : ℚ)⌋₊ = sum / n := by
  obtain ⟨whole, hwhole⟩ : ∃ whole, sum / n = whole := ⟨_, rfl⟩
  have hnpos : (0 : ℚ) < n := by exact_mod_cast hn
  have hnine : whole ≤ 9000 := hwhole ▸ Nat.div_le_of_le_mul hsum
  have hlow : (whole : ℚ) ≤ sum / n := by
    rw [le_div_iff₀ hnpos]
    exact_mod_cast hwhole ▸ Nat.div_mul_le_self sum n
  -- The next whole number is at least one part away.
  have hnext : (sum / n : ℚ) ≤ whole + 1 - 1 / n := by
    have hrest : sum + 1 ≤ (whole + 1) * n := by
      rw [← hwhole, Nat.mul_comm]
      exact Nat.lt_mul_div_succ sum hn
    have : ((sum + 1 : ℕ) : ℚ) ≤ ((whole + 1) * n : ℕ) := by exact_mod_cast hrest
    rw [div_le_iff₀ hnpos, sub_mul, one_div, inv_mul_cancel₀ hnpos.ne']
    push_cast at this
    linarith
  have hpart : 1 / 2 ^ 32 < (1 : ℚ) / n :=
    one_div_lt_one_div_of_lt hnpos (by exact_mod_cast hcount)
  have hsize : |(sum / n : ℚ)| ≤ 9001 := by
    have : (whole : ℚ) ≤ 9000 := by exact_mod_cast hnine
    rw [abs_of_nonneg ((Nat.cast_nonneg whole).trans hlow)]
    linarith
  have hround := (abs_le.mp (abs_nearest_sub_le_roundoff (by norm_num) hsize)).2
  have hbelow : (whole : ℚ) ≤ nearest (sum / n) := by
    rw [← nearest_natCast (n := whole) (by omega)]
    exact nearest_mono hlow
  have habove : nearest (sum / n : ℚ) < whole + 1 := by
    unfold roundoff at hround
    linarith
  rw [hwhole, Nat.floor_eq_iff ((Nat.cast_nonneg whole).trans hbelow)]
  exact ⟨hbelow, habove⟩

variable {mtus : List ℕ}

/-- If the sum and the number of MTUs are converted exactly, only their quotient is rounded. -/
theorem average_spec (hne : mtus ≠ []) (hsum : mtus.sum ≤ 2 ^ 53) (hcount : mtus.length ≤ 2 ^ 53) :
    (average mtus).isFinite = true ∧ value (average mtus) = nearest (mtus.sum / mtus.length) := by
  have htotal : total mtus = mtus.sum := total_eq_sum (hsum.trans (by decide))
  obtain ⟨hsumFinite, hsumValue⟩ := ofCount_spec hsum
  obtain ⟨hnFinite, hnValue⟩ := ofCount_spec hcount
  have hone : (1 : ℚ) ≤ mtus.length := by exact_mod_cast List.length_pos_of_ne_nil hne
  have hmax : |(mtus.sum / mtus.length : ℚ)| ≤ maxFinite := by
    rw [abs_of_nonneg (by positivity)]
    calc (mtus.sum / mtus.length : ℚ) ≤ mtus.sum := div_le_self (Nat.cast_nonneg _) hone
      _ ≤ 2 ^ 53 := by exact_mod_cast hsum
      _ ≤ maxFinite := two_pow_le_maxFinite (by norm_num)
  have hquotient := div_spec hsumFinite hnFinite (by rw [hnValue]; exact (zero_lt_one.trans_le hone).ne')
    (by rwa [hsumValue, hnValue])
  rw [hsumValue, hnValue] at hquotient
  rwa [average, htotal]

/-- **The computed mean of MTUs is cut down to the whole quotient of their sum and their number.** -/
theorem truncate_average (hne : mtus ≠ []) (hmtus : ∀ mtu ∈ mtus, mtu ≤ largestMtu)
    (hcount : mtus.length < 2 ^ 32) : truncate (average mtus) = mtus.sum / mtus.length := by
  have hle : mtus.sum ≤ mtus.length * largestMtu :=
    (sum_mem fun mtu hmtu => ⟨Nat.zero_le mtu, hmtus mtu hmtu⟩).2
  have hsmall : mtus.sum ≤ 2 ^ 53 := by
    unfold largestMtu at hle
    omega
  obtain ⟨hfinite, hvalue⟩ := average_spec hne hsmall (by omega)
  have hquotient : mtus.sum / mtus.length ≤ largestCount :=
    (Nat.div_le_of_le_mul hle).trans (by decide)
  rw [truncate_eq hfinite, hvalue,
    floor_nearest_quotient (List.length_pos_of_ne_nil hne) hcount hle, Nat.min_eq_left hquotient]

/-- The mean of MTUs that are within the widest bounds is rounded to the nearest hundred. -/
theorem roundMean_average_eq (hne : mtus ≠ [])
    (hmtus : ∀ mtu ∈ mtus, smallestMtu ≤ mtu ∧ mtu ≤ largestMtu) (hcount : mtus.length < 2 ^ 32) :
    roundMean (average mtus) = (mtus.sum / mtus.length + 50) / 100 * 100 := by
  have hpos := List.length_pos_of_ne_nil hne
  obtain ⟨hlow, hhigh⟩ := sum_mem hmtus
  have hmin : smallestMtu ≤ mtus.sum / mtus.length := by
    rwa [Nat.le_div_iff_mul_le hpos, Nat.mul_comm]
  have hmax : mtus.sum / mtus.length ≤ largestMtu := Nat.div_le_of_le_mul hhigh
  rw [roundMean, truncate_average hne (fun mtu hmtu => (hmtus mtu hmtu).2) hcount]
  generalize mtus.sum / mtus.length = mean at hmin hmax
  unfold smallestMtu at hmin
  unfold largestMtu at hmax
  rw [roundToHundred_eq (by unfold largestCount; omega)]
  exact MtuBounds.full.clamp_of_mem (by show 576 ≤ _; omega) (by show _ ≤ 9000; omega)

/-- The order of the answers does not matter. -/
theorem average_perm {arranged : List ℕ} (h : arranged.Perm mtus) (hsum : mtus.sum ≤ largestCount) :
    average arranged = average mtus := by
  rw [average, average, h.length_eq, total_eq_sum hsum, total_eq_sum (by rwa [h.sum_eq]), h.sum_eq]

/-! ### Ensembles whose members all answer -/

variable [Predictor χ]

theorem Collected.eq_ok {collected : Except Error (List ℕ)}
    (h : Collected (mtus.map .ok) collected) : collected = .ok mtus := by
  have hinjective : Function.Injective (Except.ok : ℕ → Except Error ℕ) := fun _ _ => Except.ok.inj
  cases h with
  | all mtus' h => rw [List.map_injective_iff.mpr hinjective h]
  | failure mtus' fault rest h =>
      have hmem : .error fault ∈ mtus.map (Except.ok : ℕ → Except Error ℕ) := by simp [h]
      obtain ⟨mtu, -, hmtu⟩ := List.mem_map.mp hmem
      cases hmtu

/-- The answer of each of several models. -/
def answers (v : FeatureVector) (members : List (Model χ)) : List (Except Error ℕ) :=
  members.map fun m => (m.predict v).1

theorem length_of_answers {v : FeatureVector} {members : List (Model χ)}
    (h : answers v members = mtus.map .ok) : mtus.length = members.length := by
  have hlength := congrArg List.length h
  rwa [answers, List.length_map, List.length_map, eq_comm] at hlength

theorem ensemble_of_answers {v : FeatureVector} {members : List (Model χ)} (hne : members ≠ [])
    (h : answers v members = mtus.map .ok) :
    ((ensemble members).predict v).1 = .ok (roundMean (average mtus)) ∧
      ((ensemble members).raw v).1 = some (average mtus) := by
  obtain ⟨collected, hcollected, hpredict, hraw⟩ := predict_ensemble hne v
  rw [show members.map (fun m => (m.predict v).1) = mtus.map .ok from h] at hcollected
  rw [hpredict, hraw, hcollected.eq_ok]
  exact ⟨rfl, rfl⟩

/-- **The order of the members does not matter.** -/
theorem ensemble_perm {v : FeatureVector} {members arranged : List (Model χ)} (hne : members ≠ [])
    (h : answers v members = mtus.map .ok) (hsum : mtus.sum ≤ largestCount)
    (harranged : arranged.Perm members) :
    ((ensemble arranged).predict v).1 = ((ensemble members).predict v).1 ∧
      ((ensemble arranged).raw v).1 = ((ensemble members).raw v).1 := by
  have hperm : (answers v arranged).Perm (mtus.map .ok) := h ▸ harranged.map _
  obtain ⟨mtus', hmtus', hsame⟩ :=
    (congrFun (congrFun (List.eq_map_comp_perm (Except.ok : ℕ → Except Error ℕ)) _) _).mpr hperm
  have hne' : arranged ≠ [] := fun hnil => hne (harranged.symm.trans (hnil ▸ .refl _)).eq_nil
  obtain ⟨hpredict, hraw⟩ := ensemble_of_answers hne h
  obtain ⟨hpredict', hraw'⟩ := ensemble_of_answers hne' hmtus'
  rw [hpredict, hraw, hpredict', hraw', average_perm hsame hsum]
  exact ⟨rfl, rfl⟩

/-! ### Ensembles of built models -/

/-- However many members its ensembles have, a built model answers within the widest bounds. -/
theorem built_answer_mem {read : TextReader} {bounds : MtuBounds} (kind : ModelKind)
    (samples : List (FeatureVector × ℕ)) (v : FeatureVector) :
    ∀ mtu, (((build read bounds kind).learnAll samples : Model χ).predict v).1 = .ok mtu →
      smallestMtu ≤ mtu ∧ mtu ≤ largestMtu := by
  refine built_induct (P := fun m => ∀ mtu, (m.predict v).1 = .ok mtu →
    smallestMtu ≤ mtu ∧ mtu ≤ largestMtu) kind samples ?_ ?_
  · intro leaf hleaf mtu hmtu
    have hwhole := hleaf.answersWithin.1 v mtu hmtu
    exact ⟨le_trans (by decide) hwhole.low_le, hwhole.le_high⟩
  · -- An ensemble bounds its mean whatever it is, so nothing is needed of the members.
    intro members hmembers _ _ mtu hmtu
    obtain ⟨collected, -, hpredict, -⟩ := predict_ensemble hmembers v
    rw [hpredict] at hmtu
    cases collected with
    | error fault => cases hmtu
    | ok mtus =>
        cases hmtu
        exact MtuBounds.full.clamp_mem _

/-- What a model is built from, and the lessons it has had since. -/
structure Recipe where
  read : TextReader
  bounds : MtuBounds
  kind : ModelKind
  lessons : List (FeatureVector × ℕ)

/-- The model that comes of a recipe. -/
def Recipe.make (r : Recipe) : Model χ := (build r.read r.bounds r.kind).learnAll r.lessons

/-- Each answer is that of a model that was built. -/
theorem exists_recipe_of_mem {recipes : List Recipe} {v : FeatureVector}
    (h : answers v (recipes.map Recipe.make : List (Model χ)) = mtus.map .ok) {mtu : ℕ}
    (hmtu : mtu ∈ mtus) : ∃ r ∈ recipes, ((r.make : Model χ).predict v).1 = .ok mtu := by
  have hmem : .ok mtu ∈ answers v (recipes.map Recipe.make : List (Model χ)) :=
    h ▸ List.mem_map_of_mem hmtu
  rw [answers, List.map_map] at hmem
  exact List.mem_map.mp hmem

/-- Some answers are the smallest and the largest. -/
theorem exists_extremes (hne : mtus ≠ []) :
    ∃ low ∈ mtus, ∃ high ∈ mtus, ∀ mtu ∈ mtus, low ≤ mtu ∧ mtu ≤ high := by
  obtain ⟨first, hfirst⟩ := List.exists_mem_of_ne_nil mtus hne
  have hnonempty : mtus.toFinset.Nonempty := ⟨first, List.mem_toFinset.mpr hfirst⟩
  obtain ⟨low, hlow, hleast⟩ := mtus.toFinset.exists_min_image id hnonempty
  obtain ⟨high, hhigh, hgreatest⟩ := mtus.toFinset.exists_max_image id hnonempty
  refine ⟨low, List.mem_toFinset.mp hlow, high, List.mem_toFinset.mp hhigh, ?_⟩
  intro mtu hmtu
  have hmem := List.mem_toFinset.mpr hmtu
  exact ⟨hleast mtu hmem, hgreatest mtu hmem⟩

/-- **An ensemble of built models answers the whole quotient of the sum of their answers and their number,
rounded to the nearest hundred.**  It lies between their smallest and their largest answer, and neither it
nor the value before rounding depends on their order.  The width of a kind is so that the answers of no
ensemble within a member add up to more than a count, as a sum that wraps could leave a member with the lower
bound 576, which is no whole hundred. -/
theorem ensemble_mean_exact (recipes : List Recipe) (hne : recipes ≠ []) (hcount : recipes.length < 2 ^ 32)
    (v : FeatureVector) (mtus : List ℕ)
    (hanswers : answers v (recipes.map Recipe.make : List (Model χ)) = mtus.map .ok) :
    let members : List (Model χ) := recipes.map Recipe.make
    let answer := (mtus.sum / mtus.length + 50) / 100 * 100
    (((ensemble members).predict v).1 = .ok answer ∧
      ((ensemble members).raw v).1 = some (ofCount mtus.sum / ofCount mtus.length)) ∧
    ((∀ r ∈ recipes, r.kind.width * largestMtu ≤ largestCount) →
      ∃ low ∈ mtus, ∃ high ∈ mtus, (∀ mtu ∈ mtus, low ≤ mtu ∧ mtu ≤ high) ∧
        low ≤ answer ∧ answer ≤ high) ∧
    ∀ arranged : List (Model χ), arranged.Perm members →
      ((ensemble arranged).predict v).1 = ((ensemble members).predict v).1 ∧
        ((ensemble arranged).raw v).1 = ((ensemble members).raw v).1 := by
  intro members answer
  have hmembers : members ≠ [] := fun hnil => hne (List.map_eq_nil_iff.mp hnil)
  have hlength : mtus.length = recipes.length :=
    (length_of_answers hanswers).trans (List.length_map _)
  have hmtus : mtus ≠ [] := by
    rintro rfl
    exact hne (List.length_eq_zero_iff.mp hlength.symm)
  rw [← hlength] at hcount
  have hbounds : ∀ mtu ∈ mtus, smallestMtu ≤ mtu ∧ mtu ≤ largestMtu := by
    intro mtu hmtu
    obtain ⟨r, -, hr⟩ := exists_recipe_of_mem hanswers hmtu
    exact built_answer_mem r.kind r.lessons v mtu hr
  have hroom : mtus.length * largestMtu ≤ largestCount := by
    unfold largestMtu largestCount
    omega
  have hsum : mtus.sum ≤ largestCount := (sum_mem hbounds).2.trans hroom
  have hmean : roundMean (average mtus) = answer := roundMean_average_eq hmtus hbounds hcount
  obtain ⟨hpredict, hraw⟩ := ensemble_of_answers hmembers hanswers
  refine ⟨⟨hpredict.trans (congrArg Except.ok hmean), ?_⟩, ?_, ?_⟩
  · rw [hraw, average, total_eq_sum hsum]
  · intro hwidth
    have hwhole : ∀ mtu ∈ mtus, WholeWithin 600 9000 mtu := by
      intro mtu hmtu
      obtain ⟨r, hmem, hr⟩ := exists_recipe_of_mem hanswers hmtu
      exact (answersWithin_build (hwidth r hmem) r.lessons).1 v mtu hr
    obtain ⟨low, hlow, high, hhigh, hextremes⟩ := exists_extremes hmtus
    have hwithin : WholeWithin low high answer := by
      refine hmean ▸ roundMean_average hmtus ?_ (hwhole low hlow) (hwhole high hhigh) hroom
      intro mtu hmtu
      exact ⟨(hwhole mtu hmtu).whole, (hextremes mtu hmtu).1, (hextremes mtu hmtu).2⟩
    exact ⟨low, hlow, high, hhigh, hextremes, hwithin.low_le, hwithin.le_high⟩
  · intro arranged harranged
    exact ensemble_perm hmembers hanswers hsum harranged

/-- One model of each kind, new and without files. -/
def freshTrio : List Recipe :=
  [.rules 1500, .decision, .linear none].map fun kind => ⟨fun _ => .error .notFound, .full, kind, []⟩

/-- They answer 1500, 1400 and 1200, of which the mean is 1366 and two thirds. -/
theorem freshTrio_mean :
    answers .empty (freshTrio.map Recipe.make : List (Model Empty)) = [1500, 1400, 1200].map .ok ∧
      (∀ r ∈ freshTrio, r.kind.width * largestMtu ≤ largestCount) ∧
      ((ensemble (freshTrio.map Recipe.make : List (Model Empty))).predict .empty).1 = .ok 1400 ∧
      ((ensemble (freshTrio.map Recipe.make : List (Model Empty)).reverse).predict .empty).1 = .ok 1400 ∧
      ∃ low ∈ [1500, 1400, 1200], ∃ high ∈ [1500, 1400, 1200], low ≤ 1400 ∧ 1400 ≤ high := by
  have hanswers : answers .empty (freshTrio.map Recipe.make : List (Model Empty))
      = [1500, 1400, 1200].map .ok := by
    have hrules : ((build (fun _ => .error .notFound) .full (.rules 1500) : Model Empty).predict .empty).1
        = .ok 1500 := eq_ok_of_toOption (by decide +kernel)
    have hdecision : ((build (fun _ => .error .notFound) .full .decision : Model Empty).predict .empty).1
        = .ok 1400 := eq_ok_of_toOption (by decide +kernel)
    have hlinear : ((build (fun _ => .error .notFound) .full (.linear none) : Model Empty).predict .empty).1
        = .ok 1200 := eq_ok_of_toOption (by decide +kernel)
    exact congrArg₂ List.cons hrules (congrArg₂ List.cons hdecision (congrArg₂ List.cons hlinear rfl))
  have hwidth : ∀ r ∈ freshTrio, r.kind.width * largestMtu ≤ largestCount := by decide
  obtain ⟨⟨hpredict, -⟩, hbetween, hperm⟩ :=
    ensemble_mean_exact (χ := Empty) freshTrio (by decide) (by decide) .empty [1500, 1400, 1200] hanswers
  obtain ⟨low, hlow, high, hhigh, -, hmem⟩ := hbetween hwidth
  exact ⟨hanswers, hwidth, hpredict, (hperm _ (List.reverse_perm _)).1.trans hpredict,
    low, hlow, high, hhigh, hmem⟩

end Model

end AdaptiveMtu
