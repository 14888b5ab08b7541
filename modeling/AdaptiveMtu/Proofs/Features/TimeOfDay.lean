/-
The time of day that a vector keeps.

Whichever way it is set, the time is the number nearest to the exact hour (`stored_time`).  So it is an hour of
the day, which stays what it is when it is set once more, for every number but those that are below zero by
2⁻⁴⁹ at most.  For these, the hour nearest to what is just short of midnight is the full day, which is no
hour of the day, and becomes zero when it is set once more.
-/
import AdaptiveMtu.Proofs.Features.Entries

namespace AdaptiveMtu

namespace FeatureVector

open Binary64 (value nearest hour JustBeforeMidnight)

/-- The time of day is set to a number of hours: on its own, by the last entry of a sparse map that counts for
it, or by that of a JSON object. -/
inductive TimeSet (x : Float) : FeatureVector → Prop where
  | set (v : FeatureVector) : TimeSet x (v.set .timeOfDay x)
  | ofEntries {entries : List (String × Float)} {key : String}
      (h : (entries.filter Field.timeOfDay.takes).getLast? = some (key, x)) :
      TimeSet x (ofEntries entries)
  | ofJson {json : Json} {entries : List (String × Float)} {key : String} {v : FeatureVector}
      (hjson : entriesOf? json = some entries)
      (h : (entries.filter Field.timeOfDay.takes).getLast? = some (key, x))
      (hv : ofJson? json = some v) : TimeSet x v

variable {v : FeatureVector} {x : Float}

theorem TimeSet.timeOfDay (h : v.TimeSet x) : v.timeOfDay = some (Binary64.wrapDay x) := by
  have hentries : ∀ {entries : List (String × Float)} {key : String},
      (entries.filter Field.timeOfDay.takes).getLast? = some (key, x) →
        (FeatureVector.ofEntries entries).timeOfDay = some (Binary64.wrapDay x) := by
    intro entries key hlast
    have hcontent := content?_ofEntries entries .timeOfDay
    rwa [hlast] at hcontent
  cases h with
  | set v => rfl
  | ofEntries h => exact hentries h
  | ofJson hjson h hv =>
      rw [ofJson?, hjson] at hv
      cases hv
      exact hentries h

/-- An hour of the day stays what it is. -/
theorem TimeSet.timeOfDay_of_lt (h : v.TimeSet x) (hx : x.isFinite = true) (hlow : 0 ≤ x) (hhigh : x < 24) :
    v.timeOfDay = some x := by
  rw [h.timeOfDay, Binary64.wrapDay_eq hx hlow hhigh]

/-- **The time of day that is stored.**  It is the number nearest to the exact hour and never below zero.  Unless
the number was just before midnight, it is below the full day and stays what it is when it is set once more. -/
theorem stored_time (hx : x.isFinite = true) (h : v.TimeSet x) :
    ∃ t, v.timeOfDay = some t ∧ t.isFinite = true ∧ 0 ≤ t ∧ value t = nearest (hour (value x)) ∧
      (¬JustBeforeMidnight (value x) → t < 24 ∧ ∀ w, TimeSet t w → w.timeOfDay = some t) ∧
      (JustBeforeMidnight (value x) → t = 24 ∧ ∀ w, TimeSet t w → w.timeOfDay = some 0) := by
  obtain ⟨hfinite, hvalue⟩ := Binary64.wrapDay_spec hx
  have hlow := Binary64.wrapDay_nonneg hx
  refine ⟨Binary64.wrapDay x, h.timeOfDay, hfinite, hlow, hvalue, ?_, ?_⟩
  · intro hbefore
    have hhigh := Binary64.wrapDay_lt_day hx hbefore
    exact ⟨hhigh, fun w hw => hw.timeOfDay_of_lt hfinite hlow hhigh⟩
  · intro hbefore
    have hday := Binary64.wrapDay_eq_day hx hbefore
    have hagain : Binary64.wrapDay 24 = 0 := by decide +kernel
    refine ⟨hday, fun w hw => ?_⟩
    rw [hw.timeOfDay, hday, hagain]

/-- A map whose last time of day that counts is one and a half hours before midnight. -/
def eveningEntries : List (String × Float) :=
  [("time_of_day", 30), ("time_of_day", -1.5), ("rtt_ms", 35), ("time_of_day", Binary64.nan)]

/-- It is stored as half past ten. -/
theorem evening_stored :
    (-1.5 : Float).isFinite = true ∧ TimeSet (-1.5) (ofEntries eveningEntries) ∧
      (ofEntries eveningEntries).timeOfDay = some 22.5 ∧
      (22.5 : Float) < 24 ∧ ∀ w, TimeSet 22.5 w → w.timeOfDay = some 22.5 := by
  have hfinite : (-1.5 : Float).isFinite = true := by decide
  have hlast : (eveningEntries.filter Field.timeOfDay.takes).getLast? = some ("time_of_day", -1.5) := by
    decide +kernel
  have hset : TimeSet (-1.5) (ofEntries eveningEntries) := .ofEntries hlast
  have htime : (ofEntries eveningEntries).timeOfDay = some 22.5 := by decide +kernel
  have hvalue : value (-1.5) = -3 / 2 := by decide +kernel
  have hfar : ¬JustBeforeMidnight (value (-1.5)) := by
    rw [hvalue]
    rintro ⟨hge, -⟩
    norm_num at hge
  obtain ⟨t, ht, -, -, -, hday, -⟩ := stored_time hfinite hset
  obtain rfl : t = 22.5 := Option.some.inj (ht.symm.trans htime)
  exact ⟨hfinite, hset, htime, hday hfar⟩

/-- Less than a nanosecond before midnight, it is the full day that is stored, and zero when that is set. -/
theorem full_day_stored :
    (-1e-17 : Float).isFinite = true ∧
      (empty.set .timeOfDay (-1e-17)).timeOfDay = some 24 ∧ ¬(24 : Float) < 24 ∧
      (empty.set .timeOfDay 24).timeOfDay = some 0 := by
  decide +kernel

end FeatureVector

end AdaptiveMtu
