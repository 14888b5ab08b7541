/-
Reading typed data back out of values that were made from it.

A finite number and a count that is small enough come back as they are, and an infinity or NaN comes
back as nothing, since it was written as `null`.  Of an object, a structure keeps the members that it
knows; these are in the order of the text, but what a field is does not depend on the order.
-/
import AdaptiveMtu.Json.Access
import AdaptiveMtu.Proofs.Decimal.RoundTrip
import AdaptiveMtu.Proofs.Json.RoundTrip

namespace AdaptiveMtu

/-! ### Lists that are read element by element -/

theorem mapM_eq_some {α β : Type} {f : α → Option β} {g : α → β} {l : List α}
    (h : ∀ a ∈ l, f a = some (g a)) : l.mapM f = some (l.map g) := by
  induction l with
  | nil => rfl
  | cons a rest ih =>
      rw [List.mapM_cons, h a List.mem_cons_self, ih fun b hb => h b (List.mem_cons_of_mem a hb)]
      rfl

theorem mapM_eq_none {α β : Type} {f : α → Option β} {l : List α} {a : α} (ha : a ∈ l)
    (h : f a = none) : l.mapM f = none := by
  induction l with
  | nil => cases ha
  | cons b rest ih =>
      rw [List.mapM_cons]
      rcases List.mem_cons.mp ha with rfl | hrest
      · rw [h]
        rfl
      · rw [ih hrest]
        cases f b <;> rfl

namespace Json

/-! ### Proper values -/

theorem allProper_iff (elements : List Json) : AllProper elements ↔ ∀ v ∈ elements, v.Proper := by
  induction elements with
  | nil => simp [AllProper]
  | cons v rest ih => simp [AllProper, ih]

theorem membersProper_iff (members : List (Literal × Json)) :
    MembersProper members ↔ ∀ m ∈ members, m.2.Proper := by
  induction members with
  | nil => simp [MembersProper]
  | cons m rest ih => simp [MembersProper, ih]

theorem proper_array {elements : List Json} (h : ∀ v ∈ elements, v.Proper) :
    (Json.array elements).Proper :=
  (allProper_iff elements).mpr h

theorem proper_ofMembers {members : List (String × Json)} (h : ∀ m ∈ members, m.2.Proper) :
    (ofMembers members).Proper := by
  refine (membersProper_iff _).mpr fun m hm => ?_
  obtain ⟨named, hnamed, rfl⟩ := List.mem_map.mp hm
  exact h named hnamed

/-! ### Numbers -/

theorem ofFloat_of_finite {x : Float} (hx : x.isFinite = true) :
    ofFloat x = .number (Numeral.ofFloat numberStyle x) := by
  rw [ofFloat, if_pos hx]

theorem ofFloat_of_not_finite {x : Float} (hx : x.isFinite = false) : ofFloat x = .null := by
  rw [ofFloat, if_neg (by rw [hx]; exact Bool.false_ne_true)]

theorem proper_ofFloat (x : Float) : (ofFloat x).Proper := by
  cases hx : x.isFinite with
  | true =>
      rw [ofFloat_of_finite hx]
      exact Numeral.proper_ofFloat (.inr rfl) x
  | false =>
      rw [ofFloat_of_not_finite hx]
      trivial

/-- **A finite number comes back as it is, and no other number comes back.** -/
theorem toFloat?_ofFloat (x : Float) :
    (ofFloat x).toFloat? = if x.isFinite then some x else none := by
  cases hx : x.isFinite with
  | true =>
      rw [ofFloat_of_finite hx]
      exact Numeral.toFloat?_ofFloat (.inr rfl) hx
  | false =>
      rw [ofFloat_of_not_finite hx]
      rfl

theorem optional_ofFloat (x : Float) :
    optional toFloat? (ofFloat x) = some (if x.isFinite then some x else none) := by
  have h := toFloat?_ofFloat x
  cases hx : x.isFinite with
  | true =>
      rw [hx, ofFloat_of_finite hx] at h
      rw [ofFloat_of_finite hx]
      exact congrArg (Option.map some) h
  | false =>
      rw [ofFloat_of_not_finite hx]
      rfl

theorem toNat?_ofNat {limit n : Nat} (h : n < limit) : (ofNat n).toNat? limit = some n := by
  simp [ofNat, toNat?, Numeral.ofNat, Numeral.toNat?, h]

theorem toCount?_ofNat {n : Nat} (h : n ≤ largestCount) : (ofNat n).toCount? = some n :=
  toNat?_ofNat (Nat.lt_succ_of_le h)

/-! ### Structures -/

theorem namedMembers?_ofMembers (members : List (String × Json)) :
    namedMembers? (members.map fun m => (some m.1, m.2)) = some members := by
  rw [namedMembers?, List.mapM_map]
  exact (mapM_eq_some fun m _ => rfl).trans (congrArg some (List.map_id members))

/-- A structure keeps the members that it knows, if none of them is repeated. -/
theorem fields?_ofMembers (known : List String) (members : List (String × Json))
    (h : ((members.filter fun m => known.contains m.1).map (·.1)).Nodup) :
    (ofMembers members).fields? known = some (members.filter fun m => known.contains m.1) := by
  simp only [ofMembers, fields?, namedMembers?_ofMembers, Option.bind_eq_bind, Option.bind_some,
    if_pos h]

/-- A structure that knows all members keeps them all. -/
theorem fields?_of_known {known : List String} {members : List (String × Json)}
    (hknown : ∀ m ∈ members, m.1 ∈ known) (h : (members.map (·.1)).Nodup) :
    (ofMembers members).fields? known = some members := by
  have hkept : (members.filter fun m => known.contains m.1) = members :=
    List.filter_eq_self.mpr fun m hm => List.contains_iff_mem.mpr (hknown m hm)
  rw [fields?_ofMembers known members (by rwa [hkept]), hkept]

end Json

end AdaptiveMtu
