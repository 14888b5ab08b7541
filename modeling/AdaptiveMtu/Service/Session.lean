/-
What is done with a service, step by step.

One act is one step; it comes with the predictions that were handed over during it. A run is the steps
of a list of acts in order, so what a service delivers over time is a function of the acts. Starting and
moving the clock on come in two forms: one that gives the loops their turns, and one that leaves
them waiting, so that turns can be given in any order and at any later time.
-/
import AdaptiveMtu.Service.Basic

namespace AdaptiveMtu

/-- Something that is done with a service. -/
inductive Act where
  /-- One tick outside the loop. -/
  | tick (callback : Callback) (timing : Timing)
  | reportObserved (mtu : Nat)
  | setOverride (mtu : Option Nat)
  | start (callback : Callback) (timing : Timing)
  | stop
  /-- Moving the clock on by some milliseconds. -/
  | advance (ms : Nat) (timing : Timing)
  /-- Starting without a first turn for the loop. -/
  | launch (callback : Callback)
  /-- Moving the clock on while no loop gets a turn. -/
  | pass (ms : Nat)
  /-- A turn of the loop that a start has left. -/
  | turn (start : Nat) (timing : Timing)

/-- What comes of it: success or failure, and what was handed over. -/
structure Outcome where
  report : Except Error Unit
  delivered : List Delivery

namespace Service

variable {σ : Type} [Predictor σ]

/-- One act: what comes of it, and the service afterwards. -/
def act (s : Service σ) : Act → Outcome × Service σ
  | .tick callback timing =>
    let (delivery, s) := s.tick callback timing
    (⟨.ok (), delivery.toList⟩, s)
  | .reportObserved mtu =>
    let (report, s) := s.reportObserved mtu
    (⟨report, []⟩, s)
  | .setOverride mtu => (⟨.ok (), []⟩, { s with engine := s.engine.setOverride mtu })
  | .start callback timing =>
    match s.start callback timing with
    | .error fault => (⟨.error fault, []⟩, s)
    | .ok (delivered, s) => (⟨.ok (), delivered⟩, s)
  | .stop => (⟨.ok (), []⟩, s.stop)
  | .advance ms timing =>
    let (delivered, s) := s.advance ms timing
    (⟨.ok (), delivered⟩, s)
  | .launch callback =>
    match s.launch callback with
    | .error fault => (⟨.error fault, []⟩, s)
    | .ok s => (⟨.ok (), []⟩, s)
  | .pass ms => (⟨.ok (), []⟩, s.pass ms)
  | .turn start timing =>
    let (delivery, s) := s.turn start timing
    (⟨.ok (), delivery.toList⟩, s)

/-- What comes of a list of acts, in order, and the service afterwards. -/
def run (s : Service σ) : List Act → List Outcome × Service σ
  | [] => ([], s)
  | a :: rest =>
    let (outcome, s) := s.act a
    let (outcomes, s) := s.run rest
    (outcome :: outcomes, s)

/-! ### What a run leaves and what it hands over -/

/-- The service after a list of acts. -/
def after (s : Service σ) (acts : List Act) : Service σ := (s.run acts).2

/-- What is handed over in the course of a list of acts. -/
def deliveries (s : Service σ) (acts : List Act) : List Delivery := (s.run acts).1.flatMap (·.delivered)

@[simp] theorem after_nil (s : Service σ) : s.after [] = s := rfl

@[simp] theorem after_cons (s : Service σ) (a : Act) (rest : List Act) :
    s.after (a :: rest) = (s.act a).2.after rest := rfl

theorem after_append (s : Service σ) (acts more : List Act) :
    s.after (acts ++ more) = (s.after acts).after more := by
  induction acts generalizing s with
  | nil => rfl
  | cons a rest ih => exact ih (s.act a).2

@[simp] theorem deliveries_nil (s : Service σ) : s.deliveries [] = [] := rfl

@[simp] theorem deliveries_cons (s : Service σ) (a : Act) (rest : List Act) :
    s.deliveries (a :: rest) = (s.act a).1.delivered ++ (s.act a).2.deliveries rest := rfl

theorem deliveries_append (s : Service σ) (acts more : List Act) :
    s.deliveries (acts ++ more) = s.deliveries acts ++ (s.after acts).deliveries more := by
  induction acts generalizing s with
  | nil => rfl
  | cons a rest ih => rw [List.cons_append, deliveries_cons, deliveries_cons, after_cons, ih,
      List.append_assoc]

end Service

end AdaptiveMtu
