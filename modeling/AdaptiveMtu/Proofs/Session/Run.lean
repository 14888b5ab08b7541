/-
Runs of calls, moment by moment.

A moment of a run is one call with the session that it found and the reply that it got.  The moments of a
run say everything that happened in it, so what an engine owes to its past can be stated as a
function of them: which override was set last, which predictions were served, which of those the model
itself answered.  `invariant_run` is the only induction over runs that is needed.
-/
import AdaptiveMtu.Engine.Session

namespace AdaptiveMtu

/-- The override that a call sets. -/
def Call.setting? : Call → Option (Option Nat)
  | .setOverride mtu => some mtu
  | _ => none

namespace Session

variable {σ : Type} [Predictor σ]

/-- A fresh engine around a model, next to a directory. -/
def start (config : EngineConfig) (model : σ) (directory : Directory) : Session σ :=
  ⟨Engine.withModel config model, directory⟩

/-- The session after a list of calls. -/
def after (s : Session σ) (calls : List Call) : Session σ := (s.run calls).2

/-- The replies to a list of calls. -/
def replies (s : Session σ) (calls : List Call) : List Reply := (s.run calls).1

@[simp] theorem after_nil (s : Session σ) : s.after [] = s := rfl

@[simp] theorem after_cons (s : Session σ) (call : Call) (rest : List Call) :
    s.after (call :: rest) = (s.step call).2.after rest := rfl

theorem after_append (s : Session σ) (calls more : List Call) :
    s.after (calls ++ more) = (s.after calls).after more := by
  induction calls generalizing s with
  | nil => rfl
  | cons call rest ih => exact ih (s.step call).2

@[simp] theorem replies_nil (s : Session σ) : s.replies [] = [] := rfl

@[simp] theorem replies_cons (s : Session σ) (call : Call) (rest : List Call) :
    s.replies (call :: rest) = (s.step call).1 :: (s.step call).2.replies rest := rfl

/-- A call in the middle of a run is answered by the session that the calls before it have left. -/
theorem replies_getElem? (s : Session σ) (calls more : List Call) (call : Call) :
    (s.replies (calls ++ call :: more))[calls.length]? = some ((s.after calls).step call).1 := by
  induction calls generalizing s with
  | nil => rfl
  | cons first rest ih =>
      rw [List.cons_append, replies_cons, List.length_cons, List.getElem?_cons_succ, after_cons]
      exact ih (s.step first).2

/-! ### Moments -/

/-- One call, the session that it found, and the reply that it got. -/
structure Moment (σ : Type) where
  found : Session σ
  call : Call
  reply : Reply

/-- What happens when a call is made now. -/
def moment (s : Session σ) (call : Call) : Moment σ := ⟨s, call, (s.step call).1⟩

/-- What happens in the course of a list of calls. -/
def moments (s : Session σ) : List Call → List (Moment σ)
  | [] => []
  | call :: rest => s.moment call :: (s.step call).2.moments rest

/-- The calls of a run and their replies are those of its moments. -/
theorem zip_replies (s : Session σ) (calls : List Call) :
    calls.zip (s.replies calls) = (s.moments calls).map fun m => (m.call, m.reply) := by
  induction calls generalizing s with
  | nil => rfl
  | cons call rest ih => exact congrArg ((call, (s.step call).1) :: ·) (ih (s.step call).2)

theorem filterMap_concat {α β : Type} (f : α → Option β) (l : List α) (a : α) :
    (l ++ [a]).filterMap f = l.filterMap f ++ (f a).toList := by
  rw [List.filterMap_append]
  cases h : f a with
  | none => rw [List.filterMap_cons_none h, List.filterMap_nil, Option.toList_none]
  | some b => rw [List.filterMap_cons_some h, List.filterMap_nil, Option.toList_some]

/-- **Invariants of runs.**  What holds before any call, and what every call keeps while its moment is
added to the past, holds after every run. -/
theorem invariant_run {P : List (Moment σ) → Session σ → Prop} {s : Session σ} (hstart : P [] s)
    (hstep : ∀ past now call, P past now → P (past ++ [now.moment call]) (now.step call).2)
    (calls : List Call) : P (s.moments calls) (s.after calls) := by
  suffices h : ∀ past now, P past now → P (past ++ now.moments calls) (now.after calls) from
    h [] s hstart
  induction calls with
  | nil =>
      intro past now hnow
      rw [moments, List.append_nil]
      exact hnow
  | cons call rest ih =>
      intro past now hnow
      rw [moments, List.append_cons]
      exact ih _ _ (hstep past now call hnow)

/-! ### The override in force -/

/-- The override in force after some calls: the one that was set last, or the one to begin with. -/
def overrideAfter (initial : Option Nat) (calls : List Call) : Option Nat :=
  (calls.filterMap Call.setting?).getLast?.getD initial

end Session

end AdaptiveMtu
