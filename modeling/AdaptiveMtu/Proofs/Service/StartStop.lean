/-
What starting and stopping promise.

Stopping leaves no loop alive, and without one the service stays as it is.  A service that has caught up has
no loop due (`Settled`), so a clock that goes on by a millisecond at a time, with every turn given that is
due, passes no deadline; and a loop that has had its first turn has begun its timer.
-/
import AdaptiveMtu.Model.Scripted
import AdaptiveMtu.Proofs.Service.Lifecycle

namespace AdaptiveMtu

namespace Act

/-- An act that stops the service, moves the clock on or gives a turn. -/
def IsQuiet : Act → Prop
  | .stop | .advance _ _ | .pass _ | .turn _ _ => True
  | _ => False

/-- An act that leaves no new loop without its first turn. -/
def IsPrompt : Act → Prop
  | .launch _ => False
  | _ => True

/-- An act that gives every turn that is due, and moves the clock on by at most a millisecond. -/
def IsSmooth : Act → Prop
  | .launch _ | .pass _ => False
  | .advance ms _ => ms ≤ 1
  | _ => True

theorem IsSmooth.isPrompt {a : Act} (h : a.IsSmooth) : a.IsPrompt := by
  cases a with
  | launch callback => exact h
  | _ => trivial

theorem IsSmooth.elapsed_le {a : Act} (h : a.IsSmooth) : a.elapsed ≤ 1 := by
  cases a with
  | advance ms timing => exact h
  | pass ms => exact h.elim
  | _ => exact Nat.zero_le _

end Act

namespace Service

variable {σ : Type}

/-! ### Loops in time -/

/-- No loop is due. -/
def Settled (s : Service σ) : Prop := ∀ loop ∈ s.loops, loop.isDue s.now = false

theorem settled_of_no_loops {s : Service σ} (h : s.loops = []) : s.Settled := by
  intro loop hloop
  rw [h] at hloop
  cases hloop

/-- A timer that has not begun is due. -/
theorem Settled.allBegun {s : Service σ} (h : s.Settled) : s.AllBegun := by
  intro loop hloop
  have hahead := isDue_eq_false.mp (h loop hloop)
  cases hticker : loop.ticker with
  | some t => exact ⟨t, rfl⟩
  | none =>
      rw [Loop.timer, hticker] at hahead
      exact absurd hahead (Nat.lt_irrefl _)

theorem Settled.inTime {s : Service σ} (h : s.Settled) : s.InTime 1 := by
  intro loop hloop t hticker
  have hahead := isDue_eq_false.mp (h loop hloop)
  rw [Loop.timer, hticker] at hahead
  exact hahead

/-- From one service to the next, timers stay begun, and a service with no loop due stays one. -/
structure StaysReady (s s' : Service σ) : Prop where
  allBegun : s.AllBegun → s'.AllBegun
  settled : s.Settled → s'.Settled

theorem StaysReady.of_settled {s s' : Service σ} (h : s'.Settled) : StaysReady s s' :=
  ⟨fun _ => h.allBegun, fun _ => h⟩

theorem StaysReady.of_same {s s' : Service σ} (hloops : s'.loops = s.loops) (hnow : s'.now = s.now) :
    StaysReady s s' := by
  refine ⟨fun h => ?_, fun h => ?_⟩
  · rwa [AllBegun, hloops]
  · rwa [Settled, hloops, hnow]

variable [Predictor σ]

section OneAct

variable {s : Service σ} {launches : List Launch} {ticks : List LoopTick} {begun timely : Prop}

theorem Orderly.turn_staysReady (h : Orderly s launches ticks begun timely) (start : Nat)
    (timing : Timing) : StaysReady s (s.turn start timing).2 := by
  rcases h.alive with hnone | ⟨loop, hloops, -⟩
  · rw [turn_of_not_alive (by simp [hnone]) timing]
    exact .of_same rfl rfl
  · by_cases hstart : loop.start = start
    · subst hstart
      rcases turn_cases hloops timing with hend | ⟨hwait, hturn⟩ | ⟨-, hdue, -, hnext, -⟩
      · rw [hend]
        exact .of_settled (settled_of_no_loops rfl)
      · rw [hturn]
        refine .of_settled fun waiting hwaiting => ?_
        rw [List.mem_singleton.mp hwaiting, isDue_eq_false]
        exact hwait
      · refine ⟨fun _ ticking hticking => ?_, fun hsettled => ?_⟩
        · rw [hnext, List.mem_singleton] at hticking
          rw [hticking]
          exact ⟨_, rfl⟩
        · have hahead := isDue_eq_false.mp (hsettled loop (by simp [hloops]))
          omega
    · rw [turn_of_not_alive (by simpa [hloops] using hstart) timing]
      exact .of_same rfl rfl

/-- A start gives its loop the first turn, moving the clock on gives every turn that is due, and stopping
leaves no loop at all. -/
theorem Orderly.act_staysReady (h : Orderly s launches ticks begun timely) {a : Act} (ha : a.IsPrompt) :
    (s.AllBegun → (s.act a).2.AllBegun) ∧ (a.IsSmooth → s.Settled → (s.act a).2.Settled) := by
  have hready : StaysReady s (s.act a).2 →
      (s.AllBegun → (s.act a).2.AllBegun) ∧ (a.IsSmooth → s.Settled → (s.act a).2.Settled) :=
    fun h => ⟨h.allBegun, fun _ => h.settled⟩
  cases a with
  | tick callback timing =>
      obtain ⟨hsame, hloops, -⟩ := s.tickWith_spec callback none timing
      exact hready (.of_same hloops hsame.now)
  | reportObserved mtu =>
      obtain ⟨report, engine, hact⟩ := s.act_report mtu
      rw [hact] at hready ⊢
      exact hready (.of_same rfl rfl)
  | setOverride mtu => exact hready (.of_same rfl rfl)
  | start callback timing =>
      cases hrunning : s.running with
      | true =>
          rw [act_start_running hrunning callback timing] at hready ⊢
          exact hready (.of_same rfl rfl)
      | false =>
          obtain ⟨s₁, hlaunch, horderly, -⟩ := h.launch hrunning callback
          have hnow : (s₁.catchUp timing).2.now = s₁.now := (horderly.catchUp timing).same.now
          rw [act_start_idle hlaunch timing] at hready ⊢
          refine hready (.of_settled fun loop hloop => ?_)
          rw [hnow]
          exact horderly.catchUp_settled timing loop hloop
  | stop => exact hready (.of_settled (settled_of_no_loops h.loops_stop))
  | advance ms timing =>
      have hpass := h.pass ms
      have hnow : ((s.pass ms).catchUp timing).2.now = (s.pass ms).now :=
        (hpass.catchUp timing).same.now
      refine hready (.of_settled fun loop hloop => ?_)
      exact hnow ▸ hpass.catchUp_settled timing loop hloop
  | launch callback => exact ha.elim
  | pass ms => exact ⟨id, False.elim⟩
  | turn start timing => exact hready (h.turn_staysReady start timing)

end OneAct

/-- A run that gives every new loop its first turn has all timers begun before the clock moves on, and a
smooth one passes no deadline. -/
theorem ready_after (engine : Engine σ) (readings : List (Except Error FeatureVector)) (period : Nat)
    {acts : List Act} (hprompt : ∀ a ∈ acts, a.IsPrompt) :
    let s := create engine readings period
    ((s.after acts).AllBegun ∧ s.Throughout Waits acts) ∧
      ((∀ a ∈ acts, a.IsSmooth) → (s.after acts).Settled ∧ s.Throughout KeepsTime acts) := by
  intro s
  induction acts using List.reverseRecOn with
  | nil =>
      have hsettled : s.Settled := settled_of_no_loops rfl
      exact ⟨⟨hsettled.allBegun, trivial⟩, fun _ => ⟨hsettled, trivial⟩⟩
  | append_singleton acts a ih =>
      rw [List.forall_mem_append, List.forall_mem_singleton] at hprompt
      obtain ⟨⟨hbegun, hwaits⟩, hsmooth⟩ := ih hprompt.1
      have horderly := (orderly_after engine readings period acts).1
      obtain ⟨hallBegun, hsettled⟩ := horderly.act_staysReady hprompt.2
      rw [after_append, throughout_concat, throughout_concat, List.forall_mem_append,
        List.forall_mem_singleton]
      refine ⟨⟨hallBegun hbegun, hwaits, .inr hbegun⟩, ?_⟩
      rintro ⟨hacts, ha⟩
      obtain ⟨hnow, htime⟩ := hsmooth hacts
      refine ⟨hsettled ha hnow, htime, ?_⟩
      rcases Nat.le_one_iff_eq_zero_or_eq_one.mp ha.elapsed_le with hzero | hone
      · exact .inl hzero
      · exact .inr (hone ▸ hnow.inTime)

/-! ### While the service is not running -/

theorem catchUp_of_no_loops {s : Service σ} (h : s.loops = []) (timing : Timing) :
    s.catchUp timing = ([], s) := by
  rw [catchUp]
  cases s.dueLimit with
  | zero => rfl
  | succ count => simp [runDue, h]

/-- Without a loop, no quiet act hands anything over or has anything logged, and there is no loop after
it. -/
theorem act_quiet {s : Service σ} (h : s.loops = []) {a : Act} (ha : a.IsQuiet) :
    (s.act a).1.delivered = [] ∧ (s.act a).2.engine = s.engine ∧ (s.act a).2.loops = [] := by
  cases a with
  | stop => exact ⟨rfl, s.engine_stop, loops_stop_of_no_loops h⟩
  | advance ms timing =>
      have hloops : (s.pass ms).loops = [] := h
      have hact : s.act (.advance ms timing) = (⟨.ok (), []⟩, s.pass ms) := by
        simp only [act, advance, catchUp_of_no_loops hloops]
      rw [hact]
      exact ⟨rfl, rfl, h⟩
  | pass ms => exact ⟨rfl, rfl, h⟩
  | turn start timing =>
      have hturn : s.turn start timing = (none, s) := turn_of_not_alive (by simp [h]) timing
      have hact : s.act (.turn start timing) = (⟨.ok (), []⟩, s) := by
        simp only [act, hturn, Option.toList_none]
      rw [hact]
      exact ⟨rfl, rfl, h⟩
  | _ => exact ha.elim

theorem quiet_run {s : Service σ} (h : s.loops = []) {acts : List Act} (hacts : ∀ a ∈ acts, a.IsQuiet) :
    s.deliveries acts = [] ∧ (s.after acts).engine = s.engine := by
  induction acts generalizing s with
  | nil => exact ⟨rfl, rfl⟩
  | cons a rest ih =>
      obtain ⟨hdelivered, hengine, hloops⟩ := act_quiet h (hacts a List.mem_cons_self)
      obtain ⟨hrest, hengine'⟩ := ih hloops fun a ha => hacts a (List.mem_cons_of_mem _ ha)
      exact ⟨by rw [deliveries_cons, hdelivered, hrest, List.nil_append],
        by rw [after_cons, hengine', hengine]⟩

/-! ### Safety of starting and stopping -/

/-- **In any run, loops hand over only what the last start owes.**  There is never more than one of them,
and none once the service was stopped. -/
theorem start_stop_safety (engine : Engine σ) (readings : List (Except Error FeatureVector))
    (period : Nat) (acts : List Act) (a : Act) :
    let s := create engine readings period
    let now := s.after acts
    let launches := s.launches (acts ++ [a])
    let begun := s.Throughout Waits (acts ++ [a])
    let timely := s.Throughout KeepsTime (acts ++ [a])
    -- Nothing is handed over but by loops and by ticks outside them.
    (∀ d ∈ (now.act a).1.delivered, d.origin = none → ∃ callback timing, a = .tick callback timing) ∧
    -- What comes from a loop comes while the service is running, by way of the last start's callback.
    (∀ d ∈ (now.act a).1.delivered, ∀ tick, d.origin = some tick →
      (now.act a).2.isRunning = true ∧ ∃ l, launches.getLast? = some l ∧
        tick.start = launches.length ∧ d.report = l.callback d.prediction ∧
        -- It was due a whole number of periods after that start, and comes then unless the clock jumped.
        l.instant ≤ tick.startedAt ∧ (∃ k, tick.deadline = tick.startedAt + k * period) ∧
        tick.deadline ≤ d.instant ∧ (begun → tick.startedAt = l.instant) ∧
        (timely → d.instant = tick.deadline) ∧
        (begun → timely → ∃ k, d.instant = l.instant + k * period)) ∧
    -- Timers begin with the start where it gives the first turn, and a smooth clock does not jump.
    ((∀ x ∈ acts ++ [a], x.IsPrompt) → begun) ∧
    ((∀ x ∈ acts ++ [a], x.IsSmooth) → begun ∧ timely) ∧
    -- There is one loop at most, and no tick is served twice.
    now.loops.length ≤ 1 ∧ (s.ticks (acts ++ [a])).Pairwise LoopTick.Before ∧
    -- A start is refused while the service is running, and only then.
    (now.isRunning = true → ∀ callback timing,
      now.act (.start callback timing) = (⟨.error (.argument .alreadyRunning), []⟩, now) ∧
      now.act (.launch callback) = (⟨.error (.argument .alreadyRunning), []⟩, now)) ∧
    (now.isRunning = false → ∀ callback timing,
      (now.act (.start callback timing)).1.report = .ok () ∧
      (now.act (.start callback timing)).2.isRunning = true) ∧
    -- Stopping twice is stopping once, and nothing is handed over or logged until the next start.
    now.stop.stop = now.stop ∧ now.stop.isRunning = false ∧
    ∀ rest : List Act, (∀ a ∈ rest, a.IsQuiet) →
      now.stop.deliveries rest = [] ∧ (now.stop.after rest).engine = now.engine := by
  intro s now launches begun timely
  obtain ⟨horderly, hperiod⟩ := orderly_after engine readings period acts
  have hact := horderly.act a
  have hready (hprompt : ∀ x ∈ acts ++ [a], x.IsPrompt) := ready_after engine readings period hprompt
  refine ⟨hact.outside, ?_, fun hprompt => (hready hprompt).1.2, ?_, horderly.length_loops, ?_, ?_,
    ?_, now.stop_stop, now.running_stop, ?_⟩
  · intro d hd tick horigin
    obtain ⟨hrunning, hlast⟩ := hact.fromLast d hd tick horigin
    rw [← launches_concat, hperiod, ← throughout_concat, ← throughout_concat] at hlast
    obtain ⟨l, hl, hreport, hbegins, hprompt⟩ := hlast.launch
    refine ⟨hrunning, l, hl, hlast.start, hreport, hbegins, hlast.grid, hlast.due, hprompt,
      hlast.inTime, fun hbegun htimely => ?_⟩
    obtain ⟨k, hk⟩ := hlast.grid
    exact ⟨k, by rw [hlast.inTime htimely, hk, hprompt hbegun]⟩
  · intro hsmooth
    obtain ⟨⟨-, hbegun⟩, htimely⟩ := hready fun x hx => (hsmooth x hx).isPrompt
    exact ⟨hbegun, (htimely hsmooth).2⟩
  · rw [ticks_concat]
    exact hact.orderly.ordered
  · intro hrunning callback timing
    exact ⟨act_start_running hrunning callback timing, act_launch_running hrunning callback⟩
  · intro hidle callback timing
    obtain ⟨s₁, hlaunch, hstarted, -, hrunning⟩ := horderly.launch hidle callback
    rw [act_start_idle hlaunch timing]
    exact ⟨rfl, (hstarted.catchUp timing).same.running.trans hrunning⟩
  · intro rest hrest
    obtain ⟨hdeliveries, hengine⟩ := quiet_run horderly.loops_stop hrest
    exact ⟨hdeliveries, hengine.trans now.engine_stop⟩

/-- An engine that always answers the same. -/
def steadyEngine : Engine Scripted := .withModel .standard (.ofScript [.mtu 1500 none] [] false)

/-- A callback that takes nothing. -/
def refusing : Callback := fun _ => .error (.prediction (.reported "not taken"))

/-- A service is stopped and started again before its first loop has had a turn; then both loops get one,
and the clock moves on to the next deadline. -/
def restartedActs : List Act :=
  [.launch fun _ => .ok (), .stop, .launch refusing, .turn 1 ⟨0, 1⟩, .turn 2 ⟨0, 1⟩, .pass 10]

theorem replaced_loop_ticks_alone :
    let s := create steadyEngine [.ok .empty, .ok .empty] 10
    let now := s.after restartedActs
    let acts := restartedActs ++ [.turn 2 ⟨1, 1⟩]
    s.Throughout Waits acts ∧ s.Throughout KeepsTime acts ∧
    s.ticks acts = [⟨2, 0, 0⟩, ⟨2, 0, 10⟩] ∧ (s.ticks acts).Pairwise LoopTick.Before ∧
    (∃ d ∈ (now.act (.turn 2 ⟨1, 1⟩)).1.delivered, d.instant = 10 ∧ d.report = refusing d.prediction) ∧
    now.act (.launch fun _ => .ok ()) = (⟨.error (.argument .alreadyRunning), []⟩, now) ∧
    now.stop.deliveries [.advance 10 ⟨1, 1⟩, .turn 2 ⟨1, 1⟩] = [] := by
  intro s now acts
  obtain ⟨-, hlast, -, -, -, hordered, hrefused, -, -, -, hquiet⟩ :=
    start_stop_safety steadyEngine [.ok .empty, .ok .empty] 10 restartedActs (.turn 2 ⟨1, 1⟩)
  -- The only loop, once it has ticked for the first time.
  have hloops : (s.after (restartedActs.take 5)).loops = [⟨refusing, 2, some ⟨0, 10⟩⟩] := rfl
  have hbegun : (s.after (restartedActs.take 5)).AllBegun := by
    intro loop hloop
    rw [hloops, List.mem_singleton] at hloop
    exact ⟨⟨0, 10⟩, hloop ▸ rfl⟩
  have hahead : (s.after (restartedActs.take 5)).InTime 10 := by
    intro loop hloop t hticker
    rw [hloops, List.mem_singleton] at hloop
    subst hloop
    cases hticker
    exact Nat.le_refl 10
  have hwaits : s.Throughout Waits acts :=
    ⟨.inl rfl, .inl rfl, .inl rfl, .inl rfl, .inl rfl, .inr hbegun, .inl rfl, trivial⟩
  have htime : s.Throughout KeepsTime acts :=
    ⟨.inl rfl, .inl rfl, .inl rfl, .inl rfl, .inl rfl, .inr hahead, .inl rfl, trivial⟩
  obtain ⟨d, hdelivered, horigin⟩ : ∃ d, (now.act (.turn 2 ⟨1, 1⟩)).1.delivered = [d] ∧
      d.origin = some ⟨2, 0, 10⟩ := ⟨_, rfl, rfl⟩
  have hmem : d ∈ (now.act (.turn 2 ⟨1, 1⟩)).1.delivered := by simp [hdelivered]
  obtain ⟨-, l, hl, -, hreport, -, -, -, -, hinstant, -⟩ := hlast d hmem _ horigin
  obtain rfl : (⟨refusing, 0⟩ : Launch) = l := Option.some.inj hl
  refine ⟨hwaits, htime, rfl, hordered, ⟨d, hmem, hinstant htime, hreport⟩, ?_, ?_⟩
  · exact (hrefused rfl (fun _ => .ok ()) ⟨0, 1⟩).2
  · exact (hquiet _ (by simp [Act.IsQuiet])).1

end Service

end AdaptiveMtu
