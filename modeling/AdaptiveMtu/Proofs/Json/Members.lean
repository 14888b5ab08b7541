/-
Objects whose members stand in any order.

A structure looks its fields up by name and passes over the members that it does not know.  So it
reads the same from every arrangement of its fields: in whatever order they stand, and whatever stands
among them.
-/
import AdaptiveMtu.Proofs.Json.Access
import Mathlib.Data.List.Nodup

namespace AdaptiveMtu

namespace Json

/-! ### Looking up by name -/

theorem lookup_cons_eq (m : String × Json) (rest : List (String × Json)) (name : String) :
    (m :: rest).lookup name = if name = m.1 then some m.2 else rest.lookup name := by
  by_cases h : name = m.1
  · rw [if_pos h, h, List.lookup_cons_self]
  · rw [if_neg h, List.lookup_cons, beq_eq_false_iff_ne.mpr h]

/-- What is found under a name does not depend on the order if no name is repeated. -/
theorem lookup_perm {l k : List (String × Json)} (h : l.Perm k) (hnodup : (l.map (·.1)).Nodup)
    (name : String) : l.lookup name = k.lookup name := by
  induction h with
  | nil => rfl
  | cons m _ ih => rw [lookup_cons_eq, lookup_cons_eq, ih (List.nodup_cons.mp hnodup).2]
  | swap m n rest =>
      have hne : n.1 ≠ m.1 := by
        intro heq
        simp [heq] at hnodup
      simp only [lookup_cons_eq]
      by_cases hm : name = m.1
      · rw [if_neg fun hn => hne (hn.symm.trans hm), if_pos hm, if_pos hm]
      · rw [if_neg hm, if_neg hm]
  | trans hfirst _ ihfirst ihsecond =>
      rw [ihfirst hnodup, ihsecond ((hfirst.map _).nodup_iff.mp hnodup)]

/-- What is found under a name after some names were left out. -/
theorem lookup_filter (p : String → Bool) (l : List (String × Json)) (name : String) :
    (l.filter fun m => p m.1).lookup name = if p name then l.lookup name else none := by
  induction l with
  | nil => simp
  | cons m rest ih =>
      have hrest : (List.filter (fun m => p m.1) (m :: rest)).lookup name
          = if p m.1 && name = m.1 then some m.2 else (rest.filter fun m => p m.1).lookup name := by
        cases hp : p m.1 with
        | true => simp [hp, lookup_cons_eq]
        | false => simp [hp]
      rw [hrest, ih, lookup_cons_eq]
      by_cases hname : name = m.1
      · cases hp : p m.1 <;> simp [hname, hp]
      · simp [hname]

/-! ### Arrangements -/

variable {known : List String} {fields members : List (String × Json)}

/-- The known members are the given fields, in any order; others may stand anywhere among them. -/
def Arranges (known : List String) (fields members : List (String × Json)) : Prop :=
  (members.filter fun m => known.contains m.1).Perm fields

theorem arranges_self (h : ∀ m ∈ fields, m.1 ∈ known) : Arranges known fields fields := by
  have hkept : (fields.filter fun m => known.contains m.1) = fields :=
    List.filter_eq_self.mpr fun m hm => List.contains_iff_mem.mpr (h m hm)
  rw [Arranges, hkept]

/-- A known member of an arrangement is one of the fields. -/
theorem Arranges.mem_fields (h : Arranges known fields members) {m : String × Json}
    (hm : m ∈ members) (hknown : m.1 ∈ known) : m ∈ fields :=
  h.mem_iff.mp (List.mem_filter.mpr ⟨hm, List.contains_iff_mem.mpr hknown⟩)

/-- Of fewer known names, the arrangement is one of the fields that have them. -/
theorem Arranges.restrict (h : Arranges known fields members) (fewer : List String)
    (hfewer : ∀ name ∈ fewer, name ∈ known) :
    Arranges fewer (fields.filter fun m => fewer.contains m.1) members := by
  have hfilter : (members.filter fun m => fewer.contains m.1)
      = (members.filter fun m => known.contains m.1).filter fun m => fewer.contains m.1 := by
    rw [List.filter_filter]
    refine List.filter_congr fun m _ => ?_
    cases hm : fewer.contains m.1 with
    | false => rw [Bool.false_and]
    | true =>
        rw [List.contains_iff_mem.mpr (hfewer _ (List.contains_iff_mem.mp hm)), Bool.true_and]
  rw [Arranges, hfilter]
  exact h.filter _

/-- Leaving out members of an unknown name changes nothing. -/
theorem Arranges.without (h : Arranges known fields members) {name : String} (hname : name ∉ known) :
    Arranges known fields (members.filter fun m => m.1 != name) := by
  have hfilter : ((members.filter fun m => m.1 != name).filter fun m => known.contains m.1)
      = members.filter fun m => known.contains m.1 := by
    rw [List.filter_filter]
    refine List.filter_congr fun m _ => ?_
    by_cases hm : m.1 = name
    · simp [hm, hname]
    · simp [hm]
  rw [Arranges, hfilter]
  exact h

/-- **A structure finds in an arrangement of its fields what it finds in the fields themselves.** -/
theorem Arranges.fields? (h : Arranges known fields members) (hnodup : (fields.map (·.1)).Nodup) :
    ∃ kept, (ofMembers members).fields? known = some kept ∧
      ∀ name, kept.lookup name = fields.lookup name := by
  have hkept : ((members.filter fun m => known.contains m.1).map (·.1)).Nodup :=
    (h.map _).nodup_iff.mpr hnodup
  exact ⟨_, fields?_ofMembers known members hkept, lookup_perm h hkept⟩

/-- A field that was left out has its default, and one that was not is read. -/
theorem withDefault_of_lookup {α : Type} {kept : List (String × Json)} {left : List String}
    (hkept : ∀ name, kept.lookup name
      = (fields.filter fun m => m.1 ∉ left).lookup name)
    {name : String} {v : Json} (hv : fields.lookup name = some v) {decode : Json → Option α} {a : α}
    (ha : decode v = some a) (default : α) :
    withDefault kept name decode default = some (if name ∈ left then default else a) := by
  rw [withDefault, hkept, lookup_filter fun name => name ∉ left]
  by_cases hleft : name ∈ left
  · simp [hleft]
  · simp [hleft, hv, ha]

end Json

end AdaptiveMtu
