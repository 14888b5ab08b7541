/-
Starting and stopping over whole runs.

Every act keeps a service in order, with the starts that have succeeded and the ticks that were served
added to its past.  A run may give turns to any loop at any time, also to one of an earlier start.  It may
move the clock on before a loop has begun its timer, or past a deadline; where it does not (`Waits`,
`KeepsTime`), timers begin with the start, and ticks are served at the very instants that they were due.
-/
import AdaptiveMtu.Proofs.Service.Loops
import Mathlib.Data.List.Induction

namespace AdaptiveMtu

namespace Act

/-- How far an act moves the clock on. -/
def elapsed : Act → Nat
  | .advance ms _ | .pass ms => ms
  | _ => 0

end Act

namespace Service

variable {σ : Type}

section OneAct

variable {s : Service σ} {launches : List Launch} {ticks : List LoopTick} {begun timely : Prop}

theorem Orderly.mono {begun' timely' : Prop} (h : Orderly s launches ticks begun timely)
    (hbegun : begun' → begun) (htimely : timely' → timely) :
    Orderly s launches ticks begun' timely' := by
  refine ⟨h.starts, h.past, h.ordered, ?_⟩
  rcases h.alive with hnone | ⟨loop, hloops, hcurrent⟩
  · exact .inl hnone
  · obtain ⟨l, hl, hcallback, htimer⟩ := hcurrent.launch
    exact .inr ⟨loop, hloops, hcurrent.running, hcurrent.handle, hcurrent.latest, ⟨l, hl, hcallback,
      htimer.begins, htimer.grid, htimer.prompt ∘ hbegun, htimer.inTime ∘ htimely⟩, hcurrent.ahead⟩

/-! ### Starting -/

theorem launch_running (h : s.running = true) (callback : Callback) :
    s.launch callback = .error (.argument .alreadyRunning) := by
  rw [launch, if_pos h]

theorem Orderly.idle (h : Orderly s launches ticks begun timely) (hidle : s.running = false) :
    s.loops = [] := by
  rcases h.alive with hnone | ⟨loop, -, hcurrent⟩
  · exact hnone
  · exact absurd (hidle.symm.trans hcurrent.running) Bool.false_ne_true

/-- A start while the service is not running leaves its loop as the only one. -/
theorem Orderly.launch (h : Orderly s launches ticks begun timely) (hidle : s.running = false)
    (callback : Callback) :
    ∃ s', s.launch callback = .ok s' ∧
      Orderly s' (launches ++ [⟨callback, s.now⟩]) ticks begun timely ∧ s'.period = s.period ∧
        s'.running = true := by
  have hcount : s.starts + 1 = (launches ++ [(⟨callback, s.now⟩ : Launch)]).length := by
    rw [List.length_append, h.starts, List.length_singleton]
  have hnew : ∀ tick ∈ ticks, tick.start < s.starts + 1 := by
    intro tick htick
    have := h.past tick htick
    have := h.starts
    omega
  refine ⟨_, if_neg (by simp [hidle]), ⟨hcount, ?_, h.ordered, .inr ⟨_, by rw [h.idle hidle]; rfl, ?_⟩⟩,
    rfl, rfl⟩
  · intro tick htick
    rw [← hcount]
    exact Nat.le_of_lt (hnew tick htick)
  · refine ⟨rfl, rfl, hcount, ⟨_, List.getLast?_concat, rfl, Nat.le_refl _, ⟨0, ?_⟩, fun _ => rfl,
      fun _ => Nat.le_refl _⟩, ?_⟩
    · rw [Nat.zero_mul]
      rfl
    · intro tick htick hstart
      exact absurd hstart (Nat.ne_of_lt (hnew tick htick))

theorem Orderly.length_loops (h : Orderly s launches ticks begun timely) : s.loops.length ≤ 1 := by
  rcases h.alive with hnone | ⟨loop, hloops, -⟩
  · simp [hnone]
  · simp [hloops]

/-! ### Stopping -/

/-- Stopping is about the loops, the flag and the handle. -/
theorem stop_eq (s : Service σ) :
    s.stop = { s with running := false, handle := none, loops := s.stop.loops } := by
  obtain ⟨engine, readings, period, now, running, loops, handle, starts, last⟩ := s
  cases handle <;> rfl

theorem stop_stop (s : Service σ) : s.stop.stop = s.stop := by
  unfold stop
  cases s.handle <;> rfl

theorem running_stop (s : Service σ) : s.stop.running = false := by rw [stop_eq]

theorem engine_stop (s : Service σ) : s.stop.engine = s.engine := by rw [stop_eq]

theorem loops_stop_of_no_loops (h : s.loops = []) : s.stop.loops = [] := by
  unfold stop
  cases s.handle <;> simp [dropLoop, h]

/-- Stopping ends the only loop there is. -/
theorem Orderly.loops_stop (h : Orderly s launches ticks begun timely) : s.stop.loops = [] := by
  rcases h.alive with hnone | ⟨loop, hloops, hcurrent⟩
  · exact loops_stop_of_no_loops hnone
  · simp [Service.stop, hcurrent.handle, dropLoop, hloops]

theorem Orderly.stop (h : Orderly s launches ticks begun timely) :
    Orderly s.stop launches ticks begun timely := by
  refine h.without_loops ?_ h.loops_stop
  rw [stop_eq]

/-! ### The clock -/

/-- Every loop has begun its timer. -/
def AllBegun (s : Service σ) : Prop := ∀ loop ∈ s.loops, ∃ t, loop.ticker = some t

/-- No loop misses its deadline when the clock moves on by some milliseconds. -/
def InTime (s : Service σ) (ms : Nat) : Prop :=
  ∀ loop ∈ s.loops, ∀ t, loop.ticker = some t → s.now + ms ≤ t.deadline

theorem Orderly.pass (h : Orderly s launches ticks begun timely) (ms : Nat) :
    Orderly (s.pass ms) launches ticks (begun ∧ (ms = 0 ∨ s.AllBegun))
      (timely ∧ (ms = 0 ∨ s.InTime ms)) := by
  refine ⟨h.starts, h.past, h.ordered, ?_⟩
  rcases h.alive with hnone | ⟨loop, hloops, hcurrent⟩
  · exact .inl hnone
  · obtain ⟨l, hl, hcallback, hbegins, hgrid, hprompt, hinTime⟩ := hcurrent.launch
    refine .inr ⟨loop, hloops, hcurrent.running, hcurrent.handle, hcurrent.latest, ⟨l, hl, hcallback, ?_⟩,
      hcurrent.ahead⟩
    cases hticker : loop.ticker with
    | some t =>
        have htimer : ∀ now, loop.timer now = t := by simp [Loop.timer, hticker]
        rw [htimer] at hbegins hgrid hprompt hinTime ⊢
        refine ⟨hbegins, hgrid, hprompt ∘ And.left, ?_⟩
        rintro ⟨htimely, rfl | hpass⟩
        · exact hinTime htimely
        · exact hpass loop (by simp [hloops]) t hticker
    | none =>
        -- A timer that has not begun moves with the clock.
        have htimer : ∀ now, loop.timer now = .beginning now := by simp [Loop.timer, hticker]
        rw [htimer] at hbegins hprompt ⊢
        refine ⟨Nat.le_trans hbegins (Nat.le_add_right _ _), ⟨0, by rw [Nat.zero_mul]; rfl⟩, ?_,
          fun _ => Nat.le_refl _⟩
        rintro ⟨hbegun, rfl | hall⟩
        · exact hprompt hbegun
        · obtain ⟨t, ht⟩ := hall loop (by simp [hloops])
          cases hticker.symm.trans ht

variable [Predictor σ]

/-! ### One act -/

/-- A start while the service is running is refused, and changes nothing. -/
theorem act_start_running (h : s.running = true) (callback : Callback) (timing : Timing) :
    s.act (.start callback timing) = (⟨.error (.argument .alreadyRunning), []⟩, s) := by
  simp only [act, start, launch_running h]
  rfl

theorem act_launch_running (h : s.running = true) (callback : Callback) :
    s.act (.launch callback) = (⟨.error (.argument .alreadyRunning), []⟩, s) := by
  simp only [act, launch_running h]

/-- A start that succeeds gives the loop its first turn. -/
theorem act_start_idle {s₁ : Service σ} {callback : Callback} (h : s.launch callback = .ok s₁)
    (timing : Timing) :
    s.act (.start callback timing)
      = (⟨.ok (), (s₁.catchUp timing).1⟩, (s₁.catchUp timing).2) := by
  simp only [act, start, h]
  rfl

/-- A report is between the caller and the engine. -/
theorem act_report (s : Service σ) (mtu : Nat) : ∃ report engine,
    s.act (.reportObserved mtu) = (⟨report, []⟩, { s with engine := engine }) := by
  simp only [act, reportObserved]
  split <;> exact ⟨_, _, rfl⟩

/-- What an act launches: a start that is not refused. -/
def launched? (s : Service σ) (a : Act) : Option Launch :=
  match a, (s.act a).1.report with
  | .start callback _, .ok () | .launch callback, .ok () => some ⟨callback, s.now⟩
  | _, _ => none

/-- An act that moves the clock on finds all timers begun. -/
def Waits (s : Service σ) (a : Act) : Prop := a.elapsed = 0 ∨ s.AllBegun

/-- An act that moves the clock on does not pass a deadline. -/
def KeepsTime (s : Service σ) (a : Act) : Prop := a.elapsed = 0 ∨ s.InTime a.elapsed

/-- What an act of an orderly service leaves behind. -/
structure ActInOrder (s : Service σ) (a : Act) (launches : List Launch) (ticks : List LoopTick)
    (begun timely : Prop) : Prop where
  orderly : Orderly (s.act a).2 (launches ++ (s.launched? a).toList)
    (ticks ++ (s.act a).1.delivered.filterMap (·.origin)) (begun ∧ s.Waits a)
    (timely ∧ s.KeepsTime a)
  period : (s.act a).2.period = s.period
  outside : ∀ d ∈ (s.act a).1.delivered, d.origin = none → ∃ callback timing, a = .tick callback timing
  fromLast : ∀ d ∈ (s.act a).1.delivered, ∀ tick, d.origin = some tick →
    (s.act a).2.running = true ∧ FromLast d tick (launches ++ (s.launched? a).toList) s.period
      (begun ∧ s.Waits a) (timely ∧ s.KeepsTime a)

/-- An act that starts nothing and hands over nothing, unless it is a tick outside the loop. -/
theorem ActInOrder.of_quiet {a : Act} (hlaunched : s.launched? a = none)
    (hdelivered : ∀ d ∈ (s.act a).1.delivered,
      d.origin = none ∧ ∃ callback timing, a = .tick callback timing)
    (hperiod : (s.act a).2.period = s.period)
    (h : Orderly (s.act a).2 launches ticks (begun ∧ s.Waits a) (timely ∧ s.KeepsTime a)) :
    ActInOrder s a launches ticks begun timely := by
  have hticks : (s.act a).1.delivered.filterMap (·.origin) = [] := by
    rw [List.filterMap_eq_nil_iff]
    exact fun d hd => (hdelivered d hd).1
  refine ⟨?_, hperiod, fun d hd _ => (hdelivered d hd).2, ?_⟩
  · rw [hlaunched, hticks, Option.toList_none, List.append_nil, List.append_nil]
    exact h
  · intro d hd tick horigin
    cases (hdelivered d hd).1.symm.trans horigin

/-- An act that ends with turns. -/
theorem ActInOrder.of_turns {a : Act} {s₁ : Service σ} {l? : Option Launch}
    (hlaunched : s.launched? a = l?) (hperiod : s₁.period = s.period)
    (h : InOrder s₁ (s.act a).2 (s.act a).1.delivered (launches ++ l?.toList) ticks
      (begun ∧ s.Waits a) (timely ∧ s.KeepsTime a)) :
    ActInOrder s a launches ticks begun timely := by
  subst hlaunched
  refine ⟨h.orderly, h.same.period.trans hperiod, ?_, ?_⟩
  · intro d hd hnone
    obtain ⟨-, tick, hlast⟩ := h.fromLast d hd
    cases hnone.symm.trans hlast.origin
  · intro d hd tick horigin
    obtain ⟨hrunning, tick', hlast⟩ := h.fromLast d hd
    obtain rfl : tick' = tick := Option.some.inj (hlast.origin.symm.trans horigin)
    exact ⟨h.same.running.trans hrunning, hperiod ▸ hlast⟩

/-- **Every act keeps a service in order.** -/
theorem Orderly.act (h : Orderly s launches ticks begun timely) (a : Act) :
    ActInOrder s a launches ticks begun timely := by
  have hmono : ∀ {s' : Service σ} {launches'}, Orderly s' launches' ticks begun timely →
      Orderly s' launches' ticks (begun ∧ s.Waits a) (timely ∧ s.KeepsTime a) :=
    fun h => h.mono And.left And.left
  cases a with
  | tick callback timing =>
      obtain ⟨hsame, hloops, hdelivery⟩ := s.tickWith_spec callback none timing
      refine .of_quiet rfl ?_ hsame.period (hmono (h.congr hsame hloops))
      intro d hd
      exact ⟨(hdelivery d (Option.mem_toList.mp hd)).2.1, callback, timing, rfl⟩
  | reportObserved mtu =>
      obtain ⟨report, engine, hact⟩ := s.act_report mtu
      refine .of_quiet rfl ?_ ?_ ?_
      · simp [hact]
      · rw [hact]
      · rw [hact]
        exact hmono (h.congr ⟨rfl, rfl, rfl, rfl, rfl⟩ rfl)
  | setOverride mtu =>
      exact .of_quiet rfl (by simp [Service.act]) rfl (hmono (h.congr ⟨rfl, rfl, rfl, rfl, rfl⟩ rfl))
  | start callback timing =>
      cases hrunning : s.running with
      | true =>
          have hact := act_start_running hrunning callback timing
          have hlaunched : s.launched? (.start callback timing) = none := by simp [launched?, hact]
          refine .of_quiet hlaunched ?_ ?_ ?_
          · simp [hact]
          · rw [hact]
          · rw [hact]
            exact hmono h
      | false =>
          obtain ⟨s₁, hlaunch, horderly, hperiod, -⟩ := h.launch hrunning callback
          have hact := act_start_idle hlaunch timing
          have hlaunched : s.launched? (.start callback timing) = some ⟨callback, s.now⟩ := by
            simp [launched?, hact]
          refine .of_turns hlaunched hperiod ?_
          rw [hact]
          exact (hmono horderly).catchUp timing
  | launch callback =>
      cases hrunning : s.running with
      | true =>
          have hact := act_launch_running hrunning callback
          have hlaunched : s.launched? (.launch callback) = none := by simp [launched?, hact]
          refine .of_quiet hlaunched ?_ ?_ ?_
          · simp [hact]
          · rw [hact]
          · rw [hact]
            exact hmono h
      | false =>
          obtain ⟨s₁, hlaunch, horderly, hperiod, -⟩ := h.launch hrunning callback
          have hact : s.act (.launch callback) = (⟨.ok (), []⟩, s₁) := by
            simp only [Service.act, hlaunch]
          have hlaunched : s.launched? (.launch callback) = some ⟨callback, s.now⟩ := by
            simp [launched?, hact]
          refine .of_turns hlaunched hperiod ?_
          rw [hact]
          exact (hmono horderly).quiet (.refl s₁)
  | stop =>
      have hperiod : s.stop.period = s.period := by rw [stop_eq]
      exact .of_quiet rfl (by simp [Service.act]) hperiod (hmono h.stop)
  | advance ms timing =>
      have hturns := (h.pass ms).catchUp timing
      have hperiod : (s.pass ms).period = s.period := rfl
      rw [← List.append_nil launches] at hturns
      exact .of_turns rfl hperiod hturns
  | pass ms => exact .of_quiet rfl (by simp [Service.act]) rfl (h.pass ms)
  | turn start timing =>
      have hturn := (hmono h).turn start timing
      rw [← List.append_nil launches] at hturn
      exact .of_turns rfl rfl hturn

end OneAct

/-! ### Whole runs -/

variable [Predictor σ]

/-- Something that holds of every act of a run and the service that finds it. -/
def Throughout (P : Service σ → Act → Prop) (s : Service σ) : List Act → Prop
  | [] => True
  | a :: rest => P s a ∧ Throughout P (s.act a).2 rest

/-- The starts that succeed in the course of a list of acts. -/
def launches (s : Service σ) : List Act → List Launch
  | [] => []
  | a :: rest => (s.launched? a).toList ++ (s.act a).2.launches rest

/-- The ticks of loops that predictions are handed over for. -/
def ticks (s : Service σ) (acts : List Act) : List LoopTick := (s.deliveries acts).filterMap (·.origin)

theorem launches_concat (s : Service σ) (acts : List Act) (a : Act) :
    s.launches (acts ++ [a]) = s.launches acts ++ ((s.after acts).launched? a).toList := by
  induction acts generalizing s with
  | nil => exact List.append_nil _
  | cons first rest ih => rw [List.cons_append, launches, launches, ih, List.append_assoc, after_cons]

theorem throughout_concat (P : Service σ → Act → Prop) (s : Service σ) (acts : List Act) (a : Act) :
    Throughout P s (acts ++ [a]) ↔ Throughout P s acts ∧ P (s.after acts) a := by
  induction acts generalizing s with
  | nil => simp [Throughout]
  | cons first rest ih => rw [List.cons_append, Throughout, Throughout, ih, and_assoc, after_cons]

theorem ticks_concat (s : Service σ) (acts : List Act) (a : Act) :
    s.ticks (acts ++ [a])
      = s.ticks acts ++ ((s.after acts).act a).1.delivered.filterMap (·.origin) := by
  rw [ticks, deliveries_append, List.filterMap_append, deliveries_cons, deliveries_nil,
    List.append_nil]
  rfl

/-- A service that was created a while ago is in order. -/
theorem orderly_after (engine : Engine σ) (readings : List (Except Error FeatureVector))
    (period : Nat) (acts : List Act) :
    let s := create engine readings period
    Orderly (s.after acts) (s.launches acts) (s.ticks acts) (s.Throughout Waits acts)
        (s.Throughout KeepsTime acts) ∧
      (s.after acts).period = period := by
  intro s
  induction acts using List.reverseRecOn with
  | nil => exact ⟨orderly_create engine readings period, rfl⟩
  | append_singleton acts a ih =>
      have hact := ih.1.act a
      rw [launches_concat, ticks_concat, after_append]
      exact ⟨hact.orderly.mono (throughout_concat Waits s acts a).mp
        (throughout_concat KeepsTime s acts a).mp, hact.period.trans ih.2⟩

end Service

end AdaptiveMtu
