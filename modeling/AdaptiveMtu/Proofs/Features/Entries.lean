/-
What becomes of a sparse map.

An entry counts for a measurement if its key names the measurement in either spelling and its number is
finite.  One entry sets the measurement that it counts for and leaves every other alone, so after all of
them a measurement is what the last entry that counts for it was brought to, and is missing if none
counts (`content?_ofEntries`).

A vector keeps counts, a kind of network and plain numbers.  `content?` reads any of them without turning it
into a number first, so that nothing is lost of a count that no binary64 number holds.
-/
import AdaptiveMtu.Proofs.Binary64.Extended
import AdaptiveMtu.Proofs.Features.Codec

namespace AdaptiveMtu

namespace Field

/-- What a vector keeps of a measurement. -/
def Content : Field → Type
  | .rtt | .throughput | .loss | .sizeDeviation | .timeOfDay => Float
  | .congestionWindow | .averageSize => Nat
  | .network => NetworkType

/-- What a number is brought to when a measurement is set from it. -/
def fit : (field : Field) → Float → field.Content
  | .rtt | .throughput | .sizeDeviation => Binary64.atLeastZero
  | .loss => Binary64.clamp 0 1
  | .congestionWindow | .averageSize => Binary64.nearestCount
  | .network => NetworkType.ofCode
  | .timeOfDay => Binary64.wrapDay

/-- What a vector keeps of a measurement, as a number. -/
def number : (field : Field) → field.Content → Float
  | .rtt | .throughput | .loss | .sizeDeviation | .timeOfDay => id
  | .congestionWindow | .averageSize => Binary64.ofCount
  | .network => fun n => Binary64.ofCount n.code

/-- Whether a key names a measurement, in either spelling. -/
def isNamed (field : Field) (key : String) : Bool := key = field.key || field.alias? = some key

/-- Whether an entry counts for a measurement. -/
def takes (field : Field) (entry : String × Float) : Bool := field.isNamed entry.1 && entry.2.isFinite

/-- **A key is resolved to the one measurement that it names.** -/
theorem ofKey?_eq_some_iff {key : String} {field : Field} :
    ofKey? key = some field ↔ field.isNamed key = true := by
  constructor
  · intro h
    have hnamed := List.find?_some h
    simp only [Bool.or_eq_true, decide_eq_true_eq] at hnamed
    simp only [isNamed, Bool.or_eq_true, decide_eq_true_eq]
    exact hnamed.imp_left Eq.symm
  · intro h
    simp only [isNamed, Bool.or_eq_true, decide_eq_true_eq] at h
    rcases h with rfl | halias
    · exact FeatureVector.ofKey?_key field
    · cases field with
      | rtt | throughput | loss =>
          cases halias
          decide
      | _ => cases halias

end Field

namespace FeatureVector

variable {v w : FeatureVector}

/-! ### What a vector keeps -/

/-- What is kept of a measurement, if it is known. -/
def content? (v : FeatureVector) : (field : Field) → Option field.Content
  | .rtt => v.rtt
  | .throughput => v.throughput
  | .loss => v.loss
  | .congestionWindow => v.congestionWindow
  | .averageSize => v.averageSize
  | .sizeDeviation => v.sizeDeviation
  | .network => v.network
  | .timeOfDay => v.timeOfDay

/-- Vectors that keep the same of every measurement are the same. -/
theorem ext_content (h : ∀ field, v.content? field = w.content? field) : v = w := by
  cases v
  cases w
  rw [mk.injEq]
  exact ⟨h .rtt, h .throughput, h .loss, h .congestionWindow, h .averageSize, h .sizeDeviation,
    h .network, h .timeOfDay⟩

theorem get?_eq_content (v : FeatureVector) (field : Field) :
    v.get? field = (v.content? field).map field.number := by
  cases field with
  | congestionWindow | averageSize | network => rfl
  | _ => exact Option.map_id'.symm

theorem content?_set_self (v : FeatureVector) (field : Field) (x : Float) :
    (v.set field x).content? field = some (field.fit x) := by
  cases field <;> rfl

theorem content?_set_of_ne (v : FeatureVector) {field other : Field} (h : other ≠ field) (x : Float) :
    (v.set field x).content? other = v.content? other := by
  cases field <;> cases other <;> first | rfl | exact absurd rfl h

/-! ### One entry after the other -/

/-- An entry sets the measurement that it counts for and no other. -/
theorem content?_addEntry (v : FeatureVector) (entry : String × Float) (field : Field) :
    (v.addEntry entry).content? field
      = if field.takes entry then some (field.fit entry.2) else v.content? field := by
  by_cases htakes : field.takes entry = true
  · obtain ⟨hnamed, hfinite⟩ := Bool.and_eq_true_iff.mp htakes
    rw [if_pos htakes]
    simp only [addEntry, Field.ofKey?_eq_some_iff.mpr hnamed, if_pos hfinite]
    exact content?_set_self v field entry.2
  · rw [if_neg htakes]
    unfold addEntry
    cases hkey : Field.ofKey? entry.1 with
    | none => rfl
    | some named =>
        by_cases hfinite : entry.2.isFinite = true
        · -- The entry is finite, so it is the key that names another measurement.
          have hne : field ≠ named := by
            rintro rfl
            exact htakes (Bool.and_eq_true_iff.mpr ⟨Field.ofKey?_eq_some_iff.mp hkey, hfinite⟩)
          simp only [if_pos hfinite]
          exact content?_set_of_ne v hne entry.2
        · simp only [if_neg hfinite]

/-- **A measurement is what the last entry that counts for it is brought to**, whatever entries come before it,
between and after. -/
theorem content?_ofEntries (entries : List (String × Float)) (field : Field) :
    (ofEntries entries).content? field
      = ((entries.filter field.takes).getLast?).map fun entry => field.fit entry.2 := by
  induction entries using List.reverseRecOn with
  | nil => cases field <;> rfl
  | append_singleton before entry ih =>
      have hadd : ofEntries (before ++ [entry]) = (ofEntries before).addEntry entry :=
        List.foldl_append
      rw [hadd, content?_addEntry, ih, List.filter_append, List.getLast?_append]
      by_cases htakes : field.takes entry = true
      · simp [htakes]
      · simp [htakes]

theorem exists_of_content {entries : List (String × Float)} (field : Field) {c : field.Content}
    (h : (ofEntries entries).content? field = some c) :
    ∃ entry ∈ entries, field.takes entry = true ∧ field.fit entry.2 = c := by
  rw [content?_ofEntries, Option.map_eq_some_iff] at h
  obtain ⟨entry, hlast, hfit⟩ := h
  obtain ⟨hmem, htakes⟩ := List.mem_filter.mp (List.mem_of_getLast? hlast)
  exact ⟨entry, hmem, htakes, hfit⟩

/-- A measurement is known exactly if some entry counts for it. -/
theorem isSome_content?_ofEntries (entries : List (String × Float)) (field : Field) :
    ((ofEntries entries).content? field).isSome = true ↔
      ∃ entry ∈ entries, field.takes entry = true := by
  constructor
  · intro h
    obtain ⟨c, hc⟩ := Option.isSome_iff_exists.mp h
    obtain ⟨entry, hmem, htakes, -⟩ := exists_of_content field hc
    exact ⟨entry, hmem, htakes⟩
  · rintro ⟨entry, hmem, htakes⟩
    have hne : entries.filter field.takes ≠ [] :=
      List.ne_nil_of_mem (List.mem_filter.mpr ⟨hmem, htakes⟩)
    rw [content?_ofEntries, Option.isSome_map, Option.isSome_iff_ne_none, ne_eq,
      List.getLast?_eq_none_iff]
    exact hne

/-! ### Ranges -/

/-- A finite number that is held above zero is finite and not below zero. -/
theorem atLeastZero_mem {x : Float} (hx : x.isFinite = true) :
    (Binary64.atLeastZero x).isFinite = true ∧ 0 ≤ Binary64.atLeastZero x := by
  refine ⟨Binary64.isFinite_atLeastZero hx, ?_⟩
  unfold Binary64.atLeastZero
  by_cases hpos : 0 < x
  · rw [if_pos hpos]
    exact Binary64.le_of_lt hpos
  · rw [if_neg hpos]
    decide

/-- A finite number that is brought between zero and one is a share. -/
theorem clamp_share_mem {x : Float} (hx : x.isFinite = true) :
    (Binary64.clamp 0 1 x).isFinite = true ∧ 0 ≤ Binary64.clamp 0 1 x ∧ Binary64.clamp 0 1 x ≤ 1 := by
  have hle : Binary64.value 0 ≤ Binary64.value 1 := by
    rw [Binary64.value_zero, Binary64.value_one]
    exact zero_le_one
  obtain ⟨hfinite, hlow, hhigh⟩ :=
    Binary64.clamp_spec Binary64.isFinite_zero Binary64.isFinite_one hx hle
  exact ⟨hfinite, (Binary64.le_iff Binary64.isFinite_zero hfinite).mpr hlow,
    (Binary64.le_iff hfinite Binary64.isFinite_one).mpr hhigh⟩

theorem isFinite_of_takes {field : Field} {entry : String × Float} (h : field.takes entry = true) :
    entry.2.isFinite = true :=
  (Bool.and_eq_true_iff.mp h).2

/-- What is read of the three measurements that are held above zero is finite and not below zero. -/
theorem nonneg_of_mem_ofEntries {entries : List (String × Float)} {x : Float}
    (h : (ofEntries entries).rtt = some x ∨ (ofEntries entries).throughput = some x ∨
      (ofEntries entries).sizeDeviation = some x) : x.isFinite = true ∧ 0 ≤ x := by
  rcases h with h | h | h
  · obtain ⟨entry, -, htakes, rfl⟩ := exists_of_content .rtt h
    exact atLeastZero_mem (isFinite_of_takes htakes)
  · obtain ⟨entry, -, htakes, rfl⟩ := exists_of_content .throughput h
    exact atLeastZero_mem (isFinite_of_takes htakes)
  · obtain ⟨entry, -, htakes, rfl⟩ := exists_of_content .sizeDeviation h
    exact atLeastZero_mem (isFinite_of_takes htakes)

theorem share_of_mem_ofEntries {entries : List (String × Float)} {x : Float}
    (h : (ofEntries entries).loss = some x) : x.isFinite = true ∧ 0 ≤ x ∧ x ≤ 1 := by
  obtain ⟨entry, -, htakes, rfl⟩ := exists_of_content .loss h
  exact clamp_share_mem (isFinite_of_takes htakes)

/-! ### What is listed -/

/-- The keys that are listed are those of the known measurements. -/
theorem map_fst_toEntries (v : FeatureVector) :
    v.toEntries.map (·.1)
      = (Field.alphabetical.filter fun field => (v.content? field).isSome).map Field.key := by
  unfold toEntries entriesIn
  induction Field.alphabetical with
  | nil => rfl
  | cons field rest ih =>
      rw [List.filterMap_cons, List.filter_cons, get?_eq_content]
      cases v.content? field with
      | none => simpa using ih
      | some c => simpa using ih

/-- **What a sparse map means.**  A measurement is known exactly if some entry counts for it, and is then what
the last such entry is brought to.  So what is held above zero is, and a share is one; and turned
into entries again, the vector lists the measurements that it knows under their own keys. -/
theorem sparse_map_meaning (entries : List (String × Float)) :
    let v : FeatureVector := ofEntries entries
    (∀ field : Field,
      ((v.content? field).isSome = true ↔ ∃ entry ∈ entries, field.takes entry = true) ∧
      v.content? field
        = ((entries.filter field.takes).getLast?).map fun entry => field.fit entry.2) ∧
    (∀ x, (v.rtt = some x ∨ v.throughput = some x ∨ v.sizeDeviation = some x) →
      x.isFinite = true ∧ 0 ≤ x) ∧
    (∀ x, v.loss = some x → x.isFinite = true ∧ 0 ≤ x ∧ x ≤ 1) ∧
    v.toEntries.map (·.1)
      = (Field.alphabetical.filter fun field => (v.content? field).isSome).map Field.key ∧
    ∀ entry, entry ∈ v.toEntries ↔
      ∃ field : Field, entry.1 = field.key ∧ (v.content? field).map field.number = some entry.2 := by
  intro v
  refine ⟨?_, ?_, ?_, map_fst_toEntries v, ?_⟩
  · intro field
    exact ⟨isSome_content?_ofEntries entries field, content?_ofEntries entries field⟩
  · intro x hx
    exact nonneg_of_mem_ofEntries hx
  · intro x hx
    exact share_of_mem_ofEntries hx
  · intro entry
    simp only [mem_toEntries, get?_eq_content]

/-- A map with both spellings of a key, an unknown key and numbers that are skipped. -/
def sampleEntries : List (String × Float) :=
  [("rtt_ms", -5), ("packet_loss_rate", 1.7), ("avg_rtt_ms", 35), ("jitter", 4),
    ("rtt_ms", Binary64.nan), ("time_of_day", Binary64.nan)]

/-- Its round-trip time is the one under the other spelling, since the last one is skipped. -/
theorem sampleEntries_meaning :
    (ofEntries sampleEntries).rtt = some 35 ∧ (ofEntries sampleEntries).loss = some 1 ∧
      (0 : Float) ≤ 35 ∧ (1 : Float) ≤ 1 ∧
      (ofEntries sampleEntries).toEntries.map (·.1) = ["loss_rate", "rtt_ms"] := by
  have hrtt : (ofEntries sampleEntries).rtt = some 35 := by decide +kernel
  have hloss : (ofEntries sampleEntries).loss = some 1 := by decide +kernel
  obtain ⟨-, hnonneg, hshare, hkeys, -⟩ := sparse_map_meaning sampleEntries
  refine ⟨hrtt, hloss, (hnonneg 35 (.inl hrtt)).2, (hshare 1 hloss).2.2, hkeys.trans ?_⟩
  decide +kernel

end FeatureVector

end AdaptiveMtu
