/-
Which engines are made, and with which numbers.

Making an engine moves every number of its configuration to the nearest place that it may have.
`KeepsNumbers` says that there was nothing to move.  The one thing that can keep an engine from being made is its
history, for which there has to be room in memory: either there is (`HasRoom`), or the program ends for
one of two reasons (`Refuses`).
-/
import AdaptiveMtu.Engine.Basic
import AdaptiveMtu.Proofs.BoundedLog
import AdaptiveMtu.Proofs.Bounds

namespace AdaptiveMtu

/-! ### Results of several steps -/

theorem bind_eq_ok_iff {ε α β : Type} {x : Except ε α} {f : α → Except ε β} {b : β} :
    x >>= f = .ok b ↔ ∃ a, x = .ok a ∧ f a = .ok b := by
  cases x <;> simp [bind, Except.bind]

theorem bind_eq_error_iff {ε α β : Type} {x : Except ε α} {f : α → Except ε β} {fault : ε} :
    x >>= f = .error fault ↔ x = .error fault ∨ ∃ a, x = .ok a ∧ f a = .error fault := by
  cases x <;> simp [bind, Except.bind]

theorem mapError_eq_ok_iff {ε ε' α : Type} {x : Except ε α} {f : ε → ε'} {a : α} :
    x.mapError f = .ok a ↔ x = .ok a := by
  cases x <;> simp [Except.mapError]

/-! ### Engines as configured -/

/-- The engine has the numbers of the configuration. -/
structure Engine.KeepsNumbers {σ : Type} (e : Engine σ) (c : EngineConfig) : Prop where
  min : e.bounds.min = c.minMtu
  max : e.bounds.max = c.maxMtu
  default : e.defaultMtu = c.defaultMtu
  capacity : e.history.capacity = c.historyCapacity

/-- The engine has everything that the configuration says of it. -/
structure Engine.Reflects {χ : Type} (e : Engine (Model χ)) (read : TextReader) (c : EngineConfig) :
    Prop extends e.KeepsNumbers c where
  gate : e.gate.value = c.initialOverride
  discretization : e.discretization = c.discretization
  model : e.model = Model.build read e.bounds c.model

theorem Engine.keepsNumbers_iff {σ : Type} {c : EngineConfig} {model : σ} :
    (Engine.withModel c model).KeepsNumbers c ↔
      (smallestMtu ≤ c.minMtu ∧ c.minMtu ≤ c.maxMtu ∧ c.maxMtu ≤ largestMtu) ∧
      (c.minMtu ≤ c.defaultMtu ∧ c.defaultMtu ≤ c.maxMtu) ∧ 0 < c.historyCapacity := by
  constructor
  · rintro ⟨hmin, hmax, hdefault, hcapacity⟩
    have hclamp := c.bounds.clamp_eq_iff.mp hdefault
    have hbounds : c.bounds.min = c.minMtu ∧ c.bounds.max = c.maxMtu := ⟨hmin, hmax⟩
    rw [hbounds.1, hbounds.2] at hclamp
    exact ⟨MtuBounds.ofRange_eq_iff.mp hbounds, hclamp,
      BoundedLog.capacity_empty_eq_iff.mp hcapacity⟩
  · rintro ⟨hrange, hdefault, hcapacity⟩
    obtain ⟨hmin, hmax⟩ := MtuBounds.ofRange_eq_iff.mpr hrange
    refine ⟨hmin, hmax, c.bounds.clamp_eq_iff.mpr ?_, BoundedLog.capacity_empty_eq_iff.mpr hcapacity⟩
    rw [EngineConfig.bounds, hmin, hmax]
    exact hdefault

/-! ### Room in memory -/

namespace Memory

/-- There is a block for all records of a history. -/
structure HasRoom (memory : Memory) (capacity : Nat) : Prop where
  small : memory.historyBytes capacity ≤ largestBlock
  granted : memory.grants (memory.historyBytes capacity) = true

/-- Why there is no block for them. -/
inductive Refuses (memory : Memory) (capacity : Nat) : Abort → Prop where
  | overflow (hlarge : largestBlock < memory.historyBytes capacity) :
      Refuses memory capacity .capacityOverflow
  | exhausted (hsmall : memory.historyBytes capacity ≤ largestBlock)
      (hrefused : memory.grants (memory.historyBytes capacity) = false) :
      Refuses memory capacity (.outOfMemory (memory.historyBytes capacity))

/-- Whatever a record takes up, a history takes up at least its capacity. -/
theorem le_historyBytes (memory : Memory) (capacity : Nat) : capacity ≤ memory.historyBytes capacity :=
  (Nat.le_max_left capacity 1).trans (Nat.le_mul_of_pos_right _ memory.recordBytes_pos)

end Memory

namespace History

variable {memory : Memory} {capacity : Nat} {h : History} {abort : Abort}

theorem create_eq_ok_iff :
    create memory capacity = .ok h ↔ memory.HasRoom capacity ∧ h = .empty capacity := by
  unfold create
  constructor
  · intro hmade
    split_ifs at hmade with hlarge hgranted
    exact ⟨⟨Nat.le_of_not_lt hlarge, hgranted⟩, (Except.ok.inj hmade).symm⟩
  · rintro ⟨⟨hsmall, hgranted⟩, rfl⟩
    rw [if_neg (Nat.not_lt.mpr hsmall), if_pos hgranted]

theorem create_eq_error_iff :
    create memory capacity = .error abort ↔ memory.Refuses capacity abort := by
  unfold create
  constructor
  · intro hmade
    split_ifs at hmade with hlarge hgranted
    · rw [← Except.error.inj hmade]
      exact .overflow hlarge
    · rw [← Except.error.inj hmade]
      exact .exhausted (Nat.le_of_not_lt hlarge) (Bool.not_eq_true _ ▸ hgranted)
  · intro hrefuses
    cases hrefuses with
    | overflow hlarge => rw [if_pos hlarge]
    | exhausted hsmall hrefused =>
        rw [if_neg (Nat.not_lt.mpr hsmall), if_neg (by rw [hrefused]; exact Bool.false_ne_true)]

end History

/-! ### Engines that are made -/

namespace Engine

variable {σ : Type} {memory : Memory} {c : EngineConfig} {model : σ}

/-- An engine is made exactly if there is room for its history. -/
theorem create_eq_ok_iff {e : Engine σ} :
    create memory c model = .ok e ↔ memory.HasRoom c.historyCapacity ∧ e = withModel c model := by
  rw [create, bind_eq_ok_iff]
  constructor
  · rintro ⟨h, hmade, he⟩
    obtain ⟨hroom, rfl⟩ := History.create_eq_ok_iff.mp hmade
    exact ⟨hroom, (Except.ok.inj he).symm⟩
  · rintro ⟨hroom, rfl⟩
    exact ⟨_, History.create_eq_ok_iff.mpr ⟨hroom, rfl⟩, rfl⟩

theorem create_eq_error_iff {abort : Abort} :
    create memory c model = .error abort ↔ memory.Refuses c.historyCapacity abort := by
  rw [create, bind_eq_error_iff, History.create_eq_error_iff]
  -- Behind its history, nothing stands in the way of an engine.
  refine or_iff_left ?_
  rintro ⟨h, -, hmade⟩
  cases hmade

end Engine

end AdaptiveMtu
