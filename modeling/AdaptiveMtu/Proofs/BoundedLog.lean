/-
What a bounded log remembers.

The entries of a log are read against the list of everything that was ever put into it.  `Remembers`
says that the log holds exactly the last entries of that list, as many as it has room for; an empty log
remembers the empty list, and putting an entry into the log is putting it behind the list.  Whatever is
stored newest first and cut off at the capacity is thereby gone from view, and a log can be talked about
as the tail of a list that never loses anything.
-/
import AdaptiveMtu.BoundedLog
import Mathlib.Data.List.DropRight

namespace AdaptiveMtu

/-- Fewer of the last entries can be taken from the last entries themselves. -/
theorem rtake_rtake {α : Type} (l : List α) (m n : Nat) :
    (l.rtake m).rtake n = l.rtake (min n m) := by
  rw [List.rtake_eq_reverse_take_reverse l, List.rtake_eq_reverse_take_reverse, List.reverse_reverse,
    List.take_take, ← List.rtake_eq_reverse_take_reverse]

theorem length_rtake {α : Type} (l : List α) (n : Nat) : (l.rtake n).length = min n l.length := by
  simp [List.rtake_eq_reverse_take_reverse]

/-- Asking for more entries than there are is asking for all of them. -/
theorem rtake_of_length_le {α : Type} {l : List α} {n : Nat} (h : l.length ≤ n) : l.rtake n = l := by
  rw [List.rtake, Nat.sub_eq_zero_of_le h, List.drop_zero]

theorem rtake_min_length {α : Type} (l : List α) (n : Nat) :
    l.rtake (min n l.length) = l.rtake n := by
  rcases Nat.le_total n l.length with h | h
  · rw [Nat.min_eq_left h]
  · rw [Nat.min_eq_right h, rtake_of_length_le h, rtake_of_length_le (Nat.le_refl _)]

theorem getLast?_rtake {α : Type} (l : List α) {n : Nat} (hn : 0 < n) :
    (l.rtake n).getLast? = l.getLast? := by
  rw [List.rtake_eq_reverse_take_reverse, List.getLast?_reverse, List.head?_take,
    if_neg (Nat.ne_of_gt hn), List.head?_reverse]

/-- Of two lists one behind the other, the first is out of reach once the second is long enough. -/
theorem rtake_append_of_le {α : Type} (k l : List α) {n : Nat} (hn : n ≤ l.length) :
    (k ++ l).rtake n = l.rtake n := by
  have hdrop : (k ++ l).length - n = k.length + (l.length - n) := by
    rw [List.length_append]
    omega
  rw [List.rtake, hdrop, List.drop_length_add_append, List.rtake]

namespace BoundedLog

variable {α : Type}

/-! ### Reading a log from its entries, oldest first -/

theorem recent_eq (log : BoundedLog α) (n : Nat) : log.recent n = log.toList.rtake n := by
  rw [recent, toList, List.rtake_eq_reverse_take_reverse, List.reverse_reverse]

theorem size_eq (log : BoundedLog α) : log.size = log.toList.length := by
  rw [size, toList, List.length_reverse]

theorem last?_eq (log : BoundedLog α) : log.last? = log.toList.getLast? := by
  rw [last?, toList, List.getLast?_reverse]

theorem toList_push (log : BoundedLog α) (a : α) :
    (log.push a).toList = (log.toList ++ [a]).rtake log.capacity := by
  simp only [toList, push, List.rtake_eq_reverse_take_reverse, List.reverse_append,
    List.reverse_reverse, List.reverse_singleton, List.singleton_append]

/-- A log keeps every capacity but zero. -/
theorem capacity_empty_eq_iff {capacity : Nat} :
    (empty capacity : BoundedLog α).capacity = capacity ↔ 0 < capacity := by
  show max capacity 1 = capacity ↔ 0 < capacity
  omega

/-! ### What has been put into a log -/

/-- The log holds the last of the given entries, as many as it has room for. -/
def Remembers (log : BoundedLog α) (entries : List α) : Prop :=
  log.toList = entries.rtake log.capacity

theorem remembers_empty (capacity : Nat) : (empty capacity : BoundedLog α).Remembers [] := by
  simp [Remembers, toList, empty]

theorem Remembers.push {log : BoundedLog α} {entries : List α} (h : log.Remembers entries) (a : α) :
    (log.push a).Remembers (entries ++ [a]) := by
  unfold Remembers at h ⊢
  rw [toList_push, h, capacity_push]
  -- A log with room for `k + 1` entries keeps `k` of the old ones.
  obtain ⟨k, hk⟩ := Nat.exists_eq_succ_of_ne_zero (Nat.ne_of_gt log.capacity_pos)
  rw [hk]
  calc (entries.rtake (k + 1) ++ [a]).rtake (k + 1)
      = (entries.rtake (k + 1)).rtake k ++ [a] := List.rtake_concat_succ _ _ a
    _ = entries.rtake k ++ [a] := by rw [rtake_rtake, Nat.min_eq_left (Nat.le_succ k)]
    _ = (entries ++ [a]).rtake (k + 1) := (List.rtake_concat_succ _ _ a).symm

theorem Remembers.recent {log : BoundedLog α} {entries : List α} (h : log.Remembers entries)
    (n : Nat) : log.recent n = entries.rtake (min n log.capacity) := by
  rw [recent_eq, h, rtake_rtake]

theorem Remembers.size {log : BoundedLog α} {entries : List α} (h : log.Remembers entries) :
    log.size = min log.capacity entries.length := by
  rw [size_eq, h, length_rtake]

theorem Remembers.last? {log : BoundedLog α} {entries : List α} (h : log.Remembers entries) :
    log.last? = entries.getLast? := by
  rw [last?_eq, h, getLast?_rtake _ log.capacity_pos]

end BoundedLog

end AdaptiveMtu
