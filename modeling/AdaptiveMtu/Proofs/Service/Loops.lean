/-
Loops, the flag and the handle.

All loops of a service look at one flag, and stopping aborts the loop that the handle names, so nothing in
a single call keeps a loop of an earlier start from ticking again.  What does is `Orderly`: a loop that is
alive comes from the last start, the flag is set and the handle names it, and its timer is ahead of all
its ticks.  Turns, starts, stops and the clock keep this in any order.
-/
import AdaptiveMtu.Service.Session

namespace AdaptiveMtu

/-- The deadlines of a timer are a whole number of periods apart. -/
theorem Schedule.exists_next_eq (period deadline now : Nat) :
    ∃ k, next period deadline now = deadline + k * period := by
  unfold next
  split
  · exact ⟨1, by rw [Nat.one_mul]⟩
  · exact ⟨_, rfl⟩

/-- A start that succeeded. -/
structure Launch where
  callback : Callback
  instant : Nat

/-- One tick comes before another: from an earlier start, or from the same loop and due earlier. -/
def LoopTick.Before (t t' : LoopTick) : Prop :=
  t.start < t'.start ∨ t.start = t'.start ∧ t.startedAt = t'.startedAt ∧ t.deadline < t'.deadline

namespace Service

variable {σ : Type}

/-- Two services with the same clock, flag, handle and number of starts. -/
structure SameSetting (s s' : Service σ) : Prop where
  period : s'.period = s.period
  now : s'.now = s.now
  running : s'.running = s.running
  handle : s'.handle = s.handle
  starts : s'.starts = s.starts

theorem SameSetting.refl (s : Service σ) : SameSetting s s := ⟨rfl, rfl, rfl, rfl, rfl⟩

theorem SameSetting.trans {s s' s'' : Service σ} (h : SameSetting s s') (h' : SameSetting s' s'') :
    SameSetting s s'' :=
  ⟨h'.period.trans h.period, h'.now.trans h.now, h'.running.trans h.running,
    h'.handle.trans h.handle, h'.starts.trans h.starts⟩

/-! ### One turn -/

section Turn

variable [Predictor σ] {s : Service σ} {loop : Loop}

/-- A tick leaves the loops alone, and hands over what it predicts. -/
theorem tickWith_spec (s : Service σ) (callback : Callback) (origin : Option LoopTick)
    (timing : Timing) :
    SameSetting s (s.tickWith callback origin timing).2 ∧
      (s.tickWith callback origin timing).2.loops = s.loops ∧
      ∀ d ∈ (s.tickWith callback origin timing).1,
        d.instant = s.now ∧ d.origin = origin ∧ d.report = callback d.prediction := by
  obtain ⟨engine, readings, period, now, running, loops, handle, starts, last⟩ := s
  cases readings with
  | nil => exact ⟨.refl _, rfl, by intro d hd; cases hd⟩
  | cons reading rest =>
      cases reading with
      | error fault => exact ⟨⟨rfl, rfl, rfl, rfl, rfl⟩, rfl, by intro d hd; cases hd⟩
      | ok v =>
          refine ⟨⟨rfl, rfl, rfl, rfl, rfl⟩, rfl, ?_⟩
          intro d hd
          cases hd
          exact ⟨rfl, rfl, rfl⟩

theorem turn_of_not_alive {start : Nat} (h : ∀ loop ∈ s.loops, loop.start ≠ start) (timing : Timing) :
    s.turn start timing = (none, s) := by
  have hfind : s.loops.find? (·.start = start) = none := by
    rw [List.find?_eq_none]
    intro loop hloop
    simpa using h loop hloop
  rw [turn, hfind]

/-- **A turn of the only loop.**  The loop ends, or waits with its timer running, or ticks. -/
theorem turn_cases (hloops : s.loops = [loop]) (timing : Timing) :
    s.turn loop.start timing = (none, { s with loops := [] }) ∨
    (s.now < (loop.timer s.now).deadline ∧ s.turn loop.start timing
      = (none, { s with loops := [{ loop with ticker := some (loop.timer s.now) }] })) ∨
    (0 < s.period ∧ (loop.timer s.now).deadline ≤ s.now ∧
      SameSetting s (s.turn loop.start timing).2 ∧
      (s.turn loop.start timing).2.loops
        = [{ loop with ticker := some ((loop.timer s.now).next s.period s.now) }] ∧
      ∀ d ∈ (s.turn loop.start timing).1, d.instant = s.now ∧
        d.origin = some ⟨loop.start, (loop.timer s.now).startedAt, (loop.timer s.now).deadline⟩ ∧
        d.report = loop.callback d.prediction) := by
  have hfind : s.loops.find? (·.start = loop.start) = some loop := by simp [hloops]
  have hdrop : s.dropLoop loop.start = { s with loops := [] } := by simp [dropLoop, hloops]
  have hset : ∀ (next : Service σ) ticker, next.loops = [loop] →
      next.setTicker loop.start ticker
        = { next with loops := [{ loop with ticker := some ticker }] } := by
    intro next ticker hnext
    simp [setTicker, hnext]
  rw [turn, hfind]
  by_cases hperiod : s.period = 0
  · exact .inl (by simp [hperiod, hdrop])
  · by_cases hwait : s.now < (loop.timer s.now).deadline
    · exact .inr (.inl ⟨hwait, by simp [hperiod, hwait, hset s _ hloops]⟩)
    · by_cases hrunning : s.running = true
      · refine .inr (.inr ⟨Nat.pos_of_ne_zero hperiod, Nat.le_of_not_lt hwait, ?_⟩)
        obtain ⟨hsame, hkept, hdelivery⟩ := s.tickWith_spec loop.callback
          (some ⟨loop.start, (loop.timer s.now).startedAt, (loop.timer s.now).deadline⟩) timing
        simp only [hperiod, hwait, hrunning, if_true, if_false]
        rw [hset _ _ (hkept.trans hloops)]
        exact ⟨⟨hsame.period, hsame.now, hsame.running, hsame.handle, hsame.starts⟩, rfl, hdelivery⟩
      · exact .inl (by simp [hperiod, hwait, hrunning, hdrop])

end Turn

/-! ### The invariant -/

/-- A timer of a loop that comes from the given launch.  `begun` stands for timers having begun before
the clock moved on, and `timely` for the clock never having passed a deadline. -/
structure TimerOf (t : Ticker) (s : Service σ) (l : Launch) (begun timely : Prop) : Prop where
  begins : l.instant ≤ t.startedAt
  grid : ∃ k, t.deadline = t.startedAt + k * s.period
  prompt : begun → t.startedAt = l.instant
  inTime : timely → s.now ≤ t.deadline

/-- The loop of the last launch, whose timer is ahead of all its ticks. -/
structure Current (loop : Loop) (s : Service σ) (launches : List Launch) (ticks : List LoopTick)
    (begun timely : Prop) : Prop where
  running : s.running = true
  handle : s.handle = some loop.start
  latest : loop.start = launches.length
  launch : ∃ l, launches.getLast? = some l ∧ loop.callback = l.callback ∧
    TimerOf (loop.timer s.now) s l begun timely
  ahead : ∀ tick ∈ ticks, tick.start = loop.start → ∃ t, loop.ticker = some t ∧
    t.startedAt = tick.startedAt ∧ tick.deadline < t.deadline

/-- A service after the given launches and ticks. -/
structure Orderly (s : Service σ) (launches : List Launch) (ticks : List LoopTick)
    (begun timely : Prop) : Prop where
  starts : s.starts = launches.length
  past : ∀ tick ∈ ticks, tick.start ≤ launches.length
  ordered : ticks.Pairwise LoopTick.Before
  alive : s.loops = [] ∨ ∃ loop, s.loops = [loop] ∧ Current loop s launches ticks begun timely

/-- A prediction that the loop of the last launch has handed over. -/
structure FromLast (d : Delivery) (tick : LoopTick) (launches : List Launch) (period : Nat)
    (begun timely : Prop) : Prop where
  origin : d.origin = some tick
  start : tick.start = launches.length
  launch : ∃ l, launches.getLast? = some l ∧ d.report = l.callback d.prediction ∧
    l.instant ≤ tick.startedAt ∧ (begun → tick.startedAt = l.instant)
  grid : ∃ k, tick.deadline = tick.startedAt + k * period
  due : tick.deadline ≤ d.instant
  inTime : timely → d.instant = tick.deadline

variable {s s' : Service σ} {launches : List Launch} {ticks : List LoopTick} {begun timely : Prop}

theorem orderly_create (engine : Engine σ) (readings : List (Except Error FeatureVector))
    (period : Nat) : Orderly (create engine readings period) [] [] True True :=
  ⟨rfl, by simp, .nil, .inl rfl⟩

theorem Current.timer_ahead {loop : Loop} (h : Current loop s launches ticks begun timely)
    {tick : LoopTick} (hmem : tick ∈ ticks) (hstart : tick.start = loop.start) :
    (loop.timer s.now).startedAt = tick.startedAt ∧ tick.deadline < (loop.timer s.now).deadline := by
  obtain ⟨t, ht, hahead⟩ := h.ahead tick hmem hstart
  rw [Loop.timer, ht, Option.getD_some]
  exact hahead

/-- Nothing else of a service matters. -/
theorem Orderly.congr (h : Orderly s launches ticks begun timely) (hsame : SameSetting s s')
    (hloops : s'.loops = s.loops) : Orderly s' launches ticks begun timely := by
  refine ⟨hsame.starts.trans h.starts, h.past, h.ordered, ?_⟩
  rw [hloops]
  refine h.alive.imp_right fun ⟨loop, hloop, hcurrent⟩ => ⟨loop, hloop, ?_⟩
  obtain ⟨l, hl, hcallback, htimer⟩ := hcurrent.launch
  refine ⟨hsame.running.trans hcurrent.running, hsame.handle.trans hcurrent.handle, hcurrent.latest,
    ⟨l, hl, hcallback, ?_⟩, hcurrent.ahead⟩
  rw [hsame.now]
  exact ⟨htimer.begins, hsame.period ▸ htimer.grid, htimer.prompt, hsame.now ▸ htimer.inTime⟩

theorem Orderly.without_loops (h : Orderly s launches ticks begun timely) (hstarts : s'.starts = s.starts)
    (hloops : s'.loops = []) : Orderly s' launches ticks begun timely :=
  ⟨hstarts.trans h.starts, h.past, h.ordered, .inl hloops⟩

/-! ### Turns -/

/-- The tick that a loop's timer waits for. -/
def pendingTick (s : Service σ) (loop : Loop) : LoopTick :=
  ⟨loop.start, (loop.timer s.now).startedAt, (loop.timer s.now).deadline⟩

theorem Current.wait {loop : Loop} (h : Current loop s launches ticks begun timely) :
    Current { loop with ticker := some (loop.timer s.now) }
      { s with loops := [{ loop with ticker := some (loop.timer s.now) }] } launches ticks begun
      timely where
  running := h.running
  handle := h.handle
  latest := h.latest
  launch := by
    obtain ⟨l, hl, hcallback, htimer⟩ := h.launch
    exact ⟨l, hl, hcallback, htimer.begins, htimer.grid, htimer.prompt, htimer.inTime⟩
  ahead := fun _ hmem hstart => ⟨_, rfl, h.timer_ahead hmem hstart⟩

/-- Once the pending tick is served, the timer is ahead of it as well. -/
theorem Current.next {loop : Loop} (h : Current loop s launches ticks begun timely)
    (hperiod : 0 < s.period) (hsame : SameSetting s s') {new : List LoopTick}
    (hnew : ∀ tick ∈ new, tick = s.pendingTick loop) :
    Current { loop with ticker := some ((loop.timer s.now).next s.period s.now) } s' launches
      (ticks ++ new) begun timely := by
  have hlater : (loop.timer s.now).deadline < ((loop.timer s.now).next s.period s.now).deadline :=
    Schedule.lt_next hperiod _ _
  obtain ⟨l, hl, hcallback, htimer⟩ := h.launch
  refine ⟨hsame.running.trans h.running, hsame.handle.trans h.handle, h.latest,
    ⟨l, hl, hcallback, htimer.begins, ?_, htimer.prompt, ?_⟩, ?_⟩
  · obtain ⟨k, hk⟩ := htimer.grid
    obtain ⟨j, hj⟩ := Schedule.exists_next_eq s.period (loop.timer s.now).deadline s.now
    refine ⟨k + j, ?_⟩
    show Schedule.next s.period (loop.timer s.now).deadline s.now = _
    rw [hj, hk, hsame.period, Nat.add_mul, Nat.add_assoc]
    rfl
  · intro htimely
    rw [hsame.now]
    exact Nat.le_trans (htimer.inTime htimely) (Nat.le_of_lt hlater)
  · intro tick hmem hstart
    refine ⟨_, rfl, ?_⟩
    rcases List.mem_append.mp hmem with hold | hmem
    · obtain ⟨hbegan, hdeadline⟩ := h.timer_ahead hold hstart
      exact ⟨hbegan, Nat.lt_trans hdeadline hlater⟩
    · rw [hnew tick hmem]
      exact ⟨rfl, hlater⟩

/-- Every tick that was served comes before the pending one. -/
theorem Orderly.before_pending (h : Orderly s launches ticks begun timely) {loop : Loop}
    (hcurrent : Current loop s launches ticks begun timely) {tick : LoopTick} (hmem : tick ∈ ticks) :
    tick.Before (s.pendingTick loop) := by
  have hpast := h.past tick hmem
  rw [← hcurrent.latest] at hpast
  rcases Nat.lt_or_eq_of_le hpast with hlt | heq
  · exact .inl hlt
  · obtain ⟨hbegan, hdeadline⟩ := hcurrent.timer_ahead hmem heq
    exact .inr ⟨heq, hbegan.symm, hdeadline⟩

/-- The pending tick of the only loop, once it is due, is one of the loop of the last launch. -/
theorem Current.fromLast {loop : Loop} (h : Current loop s launches ticks begun timely) {d : Delivery}
    (hdue : (loop.timer s.now).deadline ≤ s.now) (hinstant : d.instant = s.now)
    (horigin : d.origin = some (s.pendingTick loop)) (hreport : d.report = loop.callback d.prediction) :
    FromLast d (s.pendingTick loop) launches s.period begun timely := by
  obtain ⟨l, hl, hcallback, htimer⟩ := h.launch
  refine ⟨horigin, h.latest, ⟨l, hl, hcallback ▸ hreport, htimer.begins, htimer.prompt⟩, htimer.grid,
    hinstant ▸ hdue, fun htimely => ?_⟩
  rw [hinstant]
  exact Nat.le_antisymm (htimer.inTime htimely) hdue

/-- From one service to the next with some predictions handed over on the way, all of them in order. -/
structure InOrder (s s' : Service σ) (ds : List Delivery) (launches : List Launch)
    (ticks : List LoopTick) (begun timely : Prop) : Prop where
  orderly : Orderly s' launches (ticks ++ ds.filterMap (·.origin)) begun timely
  same : SameSetting s s'
  fromLast : ∀ d ∈ ds, s.running = true ∧ ∃ tick, FromLast d tick launches s.period begun timely

theorem Orderly.quiet (h : Orderly s' launches ticks begun timely) (hsame : SameSetting s s') :
    InOrder s s' [] launches ticks begun timely :=
  ⟨by simpa using h, hsame, by simp⟩

theorem InOrder.trans {s'' : Service σ} {ds ds' : List Delivery}
    (h : InOrder s s' ds launches ticks begun timely)
    (h' : InOrder s' s'' ds' launches (ticks ++ ds.filterMap (·.origin)) begun timely) :
    InOrder s s'' (ds ++ ds') launches ticks begun timely := by
  refine ⟨?_, h.same.trans h'.same, ?_⟩
  · rw [List.filterMap_append, ← List.append_assoc]
    exact h'.orderly
  · intro d hd
    rcases List.mem_append.mp hd with hd | hd
    · exact h.fromLast d hd
    · have hlast := h'.fromLast d hd
      rwa [h.same.running, h.same.period] at hlast

variable [Predictor σ]

/-- **A turn keeps the order, and what it hands over comes from the last launch.** -/
theorem Orderly.turn (h : Orderly s launches ticks begun timely) (start : Nat) (timing : Timing) :
    InOrder s (s.turn start timing).2 (s.turn start timing).1.toList launches ticks begun timely := by
  have hquiet : ∀ s' : Service σ, s.turn start timing = (none, s') → SameSetting s s' →
      Orderly s' launches ticks begun timely →
      InOrder s (s.turn start timing).2 (s.turn start timing).1.toList launches ticks begun timely := by
    intro s' hturn hsame horderly
    rw [hturn]
    exact horderly.quiet hsame
  rcases h.alive with hnone | ⟨loop, hloops, hcurrent⟩
  · exact hquiet s (turn_of_not_alive (by simp [hnone]) timing) (.refl s) h
  · by_cases hstart : loop.start = start
    · subst hstart
      rcases turn_cases hloops timing with hend | ⟨-, hwait⟩ | ⟨hperiod, hdue, hsame, hnext, hdelivery⟩
      · exact hquiet _ hend ⟨rfl, rfl, rfl, rfl, rfl⟩ (h.without_loops rfl rfl)
      · exact hquiet _ hwait ⟨rfl, rfl, rfl, rfl, rfl⟩
          ⟨h.starts, h.past, h.ordered, .inr ⟨_, rfl, hcurrent.wait⟩⟩
      · have hnew : ∀ tick ∈ (s.turn loop.start timing).1.toList.filterMap (·.origin),
            tick = s.pendingTick loop := by
          intro tick htick
          obtain ⟨d, hd, horigin⟩ := List.mem_filterMap.mp htick
          rw [(hdelivery d (Option.mem_toList.mp hd)).2.1] at horigin
          exact (Option.some.inj horigin).symm
        refine ⟨⟨hsame.starts.trans h.starts, ?_, ?_, .inr ⟨_, hnext, ?_⟩⟩, hsame, ?_⟩
        · intro tick htick
          rcases List.mem_append.mp htick with hold | htick
          · exact h.past tick hold
          · rw [hnew tick htick]
            exact Nat.le_of_eq hcurrent.latest
        · refine List.pairwise_append.mpr ⟨h.ordered, ?_, ?_⟩
          · cases (s.turn loop.start timing).1 with
            | none => exact .nil
            | some d => cases horigin : d.origin <;> simp [horigin]
          · intro tick hold new htick
            rw [hnew new htick]
            exact h.before_pending hcurrent hold
        · exact hcurrent.next hperiod hsame hnew
        · intro d hd
          obtain ⟨hinstant, horigin, hreport⟩ := hdelivery d (Option.mem_toList.mp hd)
          exact ⟨hcurrent.running, _, hcurrent.fromLast hdue hinstant horigin hreport⟩
    · exact hquiet s (turn_of_not_alive (by simpa [hloops] using hstart) timing) (.refl s) h

theorem Orderly.runDue (h : Orderly s launches ticks begun timely) (timing : Timing) (count : Nat) :
    InOrder s (runDue timing count s).2 (runDue timing count s).1 launches ticks begun timely := by
  induction count generalizing s ticks with
  | zero => exact h.quiet (.refl s)
  | succ count ih =>
      rw [Service.runDue]
      split
      · exact h.quiet (.refl s)
      · next loop _ =>
          have hturn := h.turn loop.start timing
          exact hturn.trans (ih hturn.orderly)

theorem isDue_eq_false {loop : Loop} {now : Nat} :
    loop.isDue now = false ↔ now < (loop.timer now).deadline := by
  simp [Loop.isDue]

/-- Enough turns leave no loop due. -/
theorem Orderly.runDue_settled (h : Orderly s launches ticks begun timely) (timing : Timing) {count : Nat}
    (hcount : s.dueLimit ≤ count) :
    ∀ loop ∈ (Service.runDue timing count s).2.loops, loop.isDue s.now = false := by
  induction count generalizing s ticks with
  | zero =>
      intro loop hloop
      rcases h.alive with hnone | ⟨only, hloops, -⟩
      · simp [Service.runDue, hnone] at hloop
      · obtain rfl : loop = only := by simpa [Service.runDue, hloops] using hloop
        rw [isDue_eq_false]
        simp [dueLimit, hloops] at hcount
        omega
  | succ count ih =>
      rw [Service.runDue]
      split
      · next hfind => simpa using List.find?_eq_none.mp hfind
      · next loop hfind =>
          have hturn := h.turn loop.start timing
          have hdue : (loop.timer s.now).deadline ≤ s.now := by
            simpa [Loop.isDue] using List.find?_some hfind
          have hloops : s.loops = [loop] := by
            rcases h.alive with hnone | ⟨only, honly, -⟩
            · simp [hnone] at hfind
            · have hmem := List.mem_of_find?_eq_some hfind
              rw [honly, List.mem_singleton] at hmem
              rw [honly, hmem]
          rw [← hturn.same.now]
          refine ih hturn.orderly ?_
          -- The turn has ended the loop, or moved its deadline on.
          rcases turn_cases hloops timing with hend | ⟨hwait, -⟩ | ⟨hperiod, -, hsame, hnext, -⟩
          · rw [hend]
            exact Nat.zero_le _
          · omega
          · have hlater := Schedule.lt_next hperiod (loop.timer s.now).deadline s.now
            have hlimit : (s.turn loop.start timing).2.dueLimit
                = s.now + 1 - Schedule.next s.period (loop.timer s.now).deadline s.now := by
              simp [dueLimit, hnext, hsame.now, Loop.timer, Ticker.next]
            simp [dueLimit, hloops] at hcount
            omega

/-- **Catching up leaves no loop due.** -/
theorem Orderly.catchUp_settled (h : Orderly s launches ticks begun timely) (timing : Timing) :
    ∀ loop ∈ (s.catchUp timing).2.loops, loop.isDue s.now = false :=
  h.runDue_settled timing (Nat.le_refl _)

theorem Orderly.catchUp (h : Orderly s launches ticks begun timely) (timing : Timing) :
    InOrder s (s.catchUp timing).2 (s.catchUp timing).1 launches ticks begun timely :=
  h.runDue timing s.dueLimit

end Service

end AdaptiveMtu
