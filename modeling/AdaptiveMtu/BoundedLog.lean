/-
A log that keeps its most recent entries.

Entries stand newest first, so that adding one is putting it in front and dropping what is then too
many at the end. Its view is `toList`, oldest first. The capacity is positive and never exceeded; both are
part of the type. It is a number and not memory: whoever makes a log of a size that is not fixed has to see that there is
room for it.
-/
namespace AdaptiveMtu

/-- The most recent entries, at most `capacity` of them. -/
structure BoundedLog (α : Type) where
  capacity : Nat
  newestFirst : List α
  capacity_pos : 0 < capacity
  length_le : newestFirst.length ≤ capacity

namespace BoundedLog

variable {α : Type}

/-- An empty log; a capacity of zero counts as one. -/
def empty (capacity : Nat) : BoundedLog α where
  capacity := max capacity 1
  newestFirst := []
  capacity_pos := by omega
  length_le := by simp

/-- The log with one more entry, without the oldest one if it was full. -/
def push (log : BoundedLog α) (a : α) : BoundedLog α where
  capacity := log.capacity
  newestFirst := (a :: log.newestFirst).take log.capacity
  capacity_pos := log.capacity_pos
  length_le := by rw [List.length_take]; omega

/-- How many entries there are. -/
def size (log : BoundedLog α) : Nat := log.newestFirst.length

/-- All entries, oldest first. -/
def toList (log : BoundedLog α) : List α := log.newestFirst.reverse

/-- The last `count` entries, oldest first. -/
def recent (log : BoundedLog α) (count : Nat) : List α := (log.newestFirst.take count).reverse

/-- The newest entry. -/
def last? (log : BoundedLog α) : Option α := log.newestFirst.head?

@[simp] theorem capacity_push (log : BoundedLog α) (a : α) : (log.push a).capacity = log.capacity :=
  rfl

end BoundedLog

end AdaptiveMtu
