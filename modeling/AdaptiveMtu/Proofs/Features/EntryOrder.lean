/-
Sparse maps whose entries come in no particular order.

The last entry that counts for a measurement sets it, so the order of the entries matters only between
entries that count for the same one: the vector is the same in every order exactly if such entries are
brought to the same (`order_irrelevant_iff`).  A map has every key once, and a measurement has two spellings
at most.  So what is left is a map that gives both spellings of a key, with two finite numbers that are not
brought to the same; what it is read as is up to the order.
-/
import AdaptiveMtu.Proofs.Features.Entries

namespace AdaptiveMtu

namespace FeatureVector

variable {entries arranged : List (String × Float)}

/-- Entries that count for the same measurement are brought to the same. -/
def Unanimous (entries : List (String × Float)) : Prop :=
  ∀ field : Field, ∀ entry ∈ entries, ∀ other ∈ entries, field.takes entry = true →
    field.takes other = true → field.fit entry.2 = field.fit other.2

/-- Among unanimous entries, any one that counts for a measurement says what it is. -/
theorem Unanimous.content_iff (h : Unanimous entries) {field : Field} {c : field.Content} :
    (ofEntries entries).content? field = some c ↔
      ∃ entry ∈ entries, field.takes entry = true ∧ field.fit entry.2 = c := by
  refine ⟨exists_of_content field, ?_⟩
  rintro ⟨entry, hmem, htakes, rfl⟩
  have hknown := (isSome_content?_ofEntries entries field).mpr ⟨entry, hmem, htakes⟩
  obtain ⟨c, hc⟩ := Option.isSome_iff_exists.mp hknown
  obtain ⟨last, hlast, hlastTakes, rfl⟩ := exists_of_content field hc
  rw [hc, h field last hlast entry hmem hlastTakes htakes]

theorem Unanimous.perm (h : Unanimous entries) (hperm : arranged.Perm entries) :
    Unanimous arranged := by
  intro field entry hentry other hother
  exact h field entry (hperm.mem_iff.mp hentry) other (hperm.mem_iff.mp hother)

/-- Unanimous entries give the same vector in every order. -/
theorem Unanimous.ofEntries_perm (h : Unanimous entries) (hperm : arranged.Perm entries) :
    ofEntries arranged = ofEntries entries := by
  refine ext_content fun field => Option.ext fun c => ?_
  rw [(h.perm hperm).content_iff, h.content_iff]
  simp only [hperm.mem_iff]

/-- Any entry can be put last, and is then what its measurement is read from. -/
theorem exists_arranged_last {entry : String × Float} (h : entry ∈ entries) :
    ∃ arranged : List (String × Float), arranged.Perm entries ∧ ∀ field : Field,
      field.takes entry = true →
        (ofEntries arranged).content? field = some (field.fit entry.2) := by
  obtain ⟨before, after, rfl⟩ := List.append_of_mem h
  refine ⟨before ++ after ++ [entry], ?_, fun field htakes => ?_⟩
  · rw [List.append_assoc]
    exact (List.perm_append_singleton entry after).append_left before
  · rw [content?_ofEntries, List.filter_append, List.getLast?_append]
    simp [htakes]

/-- **Every order of the entries gives the same vector exactly if those that count for the same measurement
are brought to the same.** -/
theorem order_irrelevant_iff :
    (∀ arranged : List (String × Float), arranged.Perm entries →
      ofEntries arranged = ofEntries entries) ↔ Unanimous entries := by
  refine ⟨?_, fun h arranged hperm => h.ofEntries_perm hperm⟩
  intro hsame field entry hentry other hother htakes hothers
  obtain ⟨arranged, hperm, hlast⟩ := exists_arranged_last hentry
  obtain ⟨arranged', hperm', hlast'⟩ := exists_arranged_last hother
  refine Option.some.inj ?_
  rw [← hlast field htakes, ← hlast' field hothers, hsame arranged hperm, hsame arranged' hperm']

/-- **A map is read as the same vector in every order, unless it gives both spellings of a key.**  Then it is
read so exactly if the two numbers are brought to the same, or one of them is skipped. -/
theorem map_order_irrelevant_iff (hkeys : (entries.map (·.1)).Nodup) :
    (∀ arranged : List (String × Float), arranged.Perm entries →
      ofEntries arranged = ofEntries entries) ↔
    ∀ (field : Field) (spelling : String) (x y : Float), field.alias? = some spelling →
      (field.key, x) ∈ entries → (spelling, y) ∈ entries → x.isFinite = true → y.isFinite = true →
      field.fit x = field.fit y := by
  rw [order_irrelevant_iff]
  constructor
  · intro h field spelling x y hspelling hx hy hxfinite hyfinite
    refine h field (field.key, x) hx (spelling, y) hy ?_ ?_
    · simp [Field.takes, Field.isNamed, hxfinite]
    · simp [Field.takes, Field.isNamed, hspelling, hyfinite]
  · intro h field entry hentry other hother htakes hothers
    -- With the same spelling they are the same entry, else one has the key and one the other spelling.
    obtain ⟨key, x⟩ := entry
    obtain ⟨key', y⟩ := other
    simp only [Field.takes, Field.isNamed, Bool.and_eq_true, Bool.or_eq_true,
      decide_eq_true_eq] at htakes hothers
    obtain ⟨hkey, hx⟩ := htakes
    obtain ⟨hkey', hy⟩ := hothers
    have hsame : key = key' → field.fit x = field.fit y := by
      intro heq
      have := List.inj_on_of_nodup_map hkeys hentry hother heq
      rw [(Prod.mk.inj this).2]
    rcases hkey with rfl | halias
    · rcases hkey' with hkey' | halias'
      · exact hsame hkey'.symm
      · exact h field key' x y halias' hentry hother hx hy
    · rcases hkey' with rfl | halias'
      · exact (h field key y x halias hother hentry hy hx).symm
      · exact hsame (Option.some.inj (halias.symm.trans halias'))

/-- A map that gives two keys in both spellings: once with numbers that are both cut to one, once with a
number that is skipped. -/
def harmlessEntries : List (String × Float) :=
  [("loss_rate", 1.5), ("avg_rtt_ms", Binary64.nan), ("packet_loss_rate", 2), ("rtt_ms", 35)]

/-- It is read as the same vector in every order. -/
theorem harmless_in_every_order :
    (harmlessEntries.map (·.1)).Nodup ∧
      ∀ arranged : List (String × Float), arranged.Perm harmlessEntries →
        ofEntries arranged = ofEntries harmlessEntries := by
  have hkeys : (harmlessEntries.map (·.1)).Nodup := by decide
  refine ⟨hkeys, (map_order_irrelevant_iff hkeys).mpr ?_⟩
  intro field spelling x y hspelling hx hy hxfinite hyfinite
  cases field with
  | rtt =>
      cases hspelling
      obtain rfl : y = Binary64.nan := by simpa [harmlessEntries] using hy
      exact absurd hyfinite (by decide +kernel)
  | throughput => simp [harmlessEntries, Field.key] at hx
  | loss =>
      cases hspelling
      obtain rfl : x = 1.5 := by simpa [harmlessEntries, Field.key] using hx
      obtain rfl : y = 2 := by simpa [harmlessEntries] using hy
      show Binary64.clamp 0 1 1.5 = Binary64.clamp 0 1 2
      decide +kernel
  | _ => cases hspelling

/-- A map that gives one key in both spellings, with two round-trip times. -/
def clashingEntries : List (String × Float) := [("rtt_ms", 10), ("avg_rtt_ms", 200)]

/-- The order decides which of the two is read. -/
theorem clashing_spellings_differ :
    (clashingEntries.map (·.1)).Nodup ∧ clashingEntries.reverse.Perm clashingEntries ∧
      ofEntries clashingEntries.reverse ≠ ofEntries clashingEntries := by
  refine ⟨by decide, List.reverse_perm _, fun h => ?_⟩
  have hrtt : (ofEntries clashingEntries.reverse).rtt = (ofEntries clashingEntries).rtt :=
    congrArg rtt h
  have hne : (ofEntries clashingEntries.reverse).rtt ≠ (ofEntries clashingEntries).rtt := by
    decide +kernel
  exact hne hrtt

end FeatureVector

end AdaptiveMtu
