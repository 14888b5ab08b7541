/-
How vectors are built, and what may get into them.

Entries and JSON are filtered: an entry that is not finite is passed over, and JSON has no such
numbers.  A measurement that is set is only brought into its range, which leaves an infinity or NaN
what it is, or makes NaN of it.  So a vector that is built by way of finite numbers is one of finite
numbers, and one that is not need not be.
-/
import AdaptiveMtu.Proofs.Features.Codec

namespace AdaptiveMtu

namespace FeatureVector

variable {v w : FeatureVector}

/-- The vector is read from entries or from JSON, and single measurements are set from finite numbers. -/
inductive FromNumbers : FeatureVector → Prop where
  | ofEntries (entries : List (String × Float)) : FromNumbers (ofEntries entries)
  | ofJson {json : Json} {v : FeatureVector} (h : ofJson? json = some v) : FromNumbers v
  | set {v : FeatureVector} (h : FromNumbers v) (field : Field) {x : Float} (hx : x.isFinite = true) :
      FromNumbers (v.set field x)
  | withCongestionWindow {v : FeatureVector} (h : FromNumbers v) (packets : Nat) :
      FromNumbers (v.withCongestionWindow packets)
  | withAverageSize {v : FeatureVector} (h : FromNumbers v) (bytes : Nat) :
      FromNumbers (v.withAverageSize bytes)
  | withNetwork {v : FeatureVector} (h : FromNumbers v) (network : NetworkType) :
      FromNumbers (v.withNetwork network)

theorem allFinite_empty : empty.AllFinite := by
  intro field x hx
  cases field <;> cases hx

/-- A vector stays one of finite numbers if one measurement changes to a finite number. -/
theorem AllFinite.change (h : v.AllFinite) (field : Field)
    (hothers : ∀ other, other ≠ field → w.get? other = v.get? other)
    (hfield : ∀ x ∈ w.get? field, x.isFinite = true) : w.AllFinite := by
  intro other x hx
  by_cases hother : other = field
  · rw [hother] at hx
    exact hfield x hx
  · rw [hothers other hother] at hx
    exact h other x hx

/-- It stays one if one measurement changes to a count. -/
theorem AllFinite.changeToCount (h : v.AllFinite) (field : Field) (n : Nat)
    (hfield : w.get? field = some (Binary64.ofCount n))
    (hothers : ∀ other, other ≠ field → w.get? other = v.get? other) : w.AllFinite := by
  refine h.change field hothers ?_
  rw [hfield]
  rintro x ⟨⟩
  exact isFinite_ofCount n

/-- What a finite number is brought to is finite. -/
theorem allFinite_set (h : v.AllFinite) (field : Field) {x : Float} (hx : x.isFinite = true) :
    (v.set field x).AllFinite := by
  refine h.change field (fun other hother => get?_set_of_ne v hother x) ?_
  intro y hy
  cases field with
  | rtt | throughput | sizeDeviation =>
      cases hy
      exact Binary64.isFinite_atLeastZero hx
  | loss =>
      cases hy
      exact Binary64.isFinite_clamp Binary64.isFinite_zero Binary64.isFinite_one hx
  | timeOfDay =>
      cases hy
      exact (Binary64.wrapDay_spec hx).1
  | congestionWindow | averageSize | network =>
      cases hy
      exact isFinite_ofCount _

theorem allFinite_addEntry (h : v.AllFinite) (entry : String × Float) :
    (v.addEntry entry).AllFinite := by
  unfold addEntry
  cases Field.ofKey? entry.1 with
  | none => exact h
  | some field =>
      dsimp only
      split_ifs with hfinite
      · exact allFinite_set h field hfinite
      · exact h

theorem allFinite_ofEntries (entries : List (String × Float)) : (ofEntries entries).AllFinite := by
  suffices h : ∀ v : FeatureVector, v.AllFinite → (entries.foldl addEntry v).AllFinite from
    h empty allFinite_empty
  induction entries with
  | nil => exact fun v h => h
  | cons entry rest ih => exact fun v h => ih _ (allFinite_addEntry h entry)

/-- **A vector that is built by way of finite numbers is one of finite numbers.** -/
theorem FromNumbers.allFinite (h : v.FromNumbers) : v.AllFinite := by
  induction h with
  | ofEntries entries => exact allFinite_ofEntries entries
  | @ofJson json v h =>
      obtain ⟨entries, -, rfl⟩ := Option.map_eq_some_iff.mp h
      exact allFinite_ofEntries entries
  | set _ field hx ih => exact allFinite_set ih field hx
  | withCongestionWindow _ packets ih =>
      refine ih.changeToCount .congestionWindow packets rfl fun other hother => ?_
      cases other <;> first | rfl | exact absurd rfl hother
  | withAverageSize _ bytes ih =>
      refine ih.changeToCount .averageSize bytes rfl fun other hother => ?_
      cases other <;> first | rfl | exact absurd rfl hother
  | withNetwork _ network ih =>
      refine ih.changeToCount .network network.code rfl fun other hother => ?_
      cases other <;> first | rfl | exact absurd rfl hother

end FeatureVector

end AdaptiveMtu
