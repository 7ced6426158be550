import TaktOS.Proof.KernelStack

/-!
# Runs of the kernel

Every run of the kernel is, for each part, a run of that part, so what is proved of the parts
holds in the whole. What the parts do for one another is told here: a takt goes on to its modules
with nothing queued, the ticks and events that the scheduler makes all arrive, in their order, and
the kernel is never stuck.
-/

namespace TaktOS.Proof

open TaktOS Kernel Lib

variable {μ ω κ υ τ ξ : Type}

/-! ## The parts -/

/-- Where the scheduler is about to go on after `dispatchQueued`, nothing is queued. -/
theorem callStack_drained {s : Sys μ ω κ υ τ ξ} {fs : List (AnyFrame τ)} (h : CallStack s fs)
    (hctl : s.control.head? = some .scheduler) {taktStart : UInt64} {rest : List Scheduler.Frame}
    (hs : s.sched.stack = .events taktStart :: rest) : s.bus.bus.queueCount = 0 := by
  have hst : partStack s .scheduler = .scheduler (.events taktStart) :: rest.map .scheduler :=
    congrArg (List.map AnyFrame.scheduler) hs
  obtain ⟨below, rfl⟩ := frames_top h.frames hctl hst
  exact h.drained _ rfl rfl

/-! ## What the scheduler tells the other parts -/

/-- The period of the takt that the call begins. -/
def periodOf : Scheduler.Call μ → Option UInt32
  | .timers periodMs => some periodMs
  | _ => none

/-- The event that the call publishes. -/
def eventOf : Scheduler.Call μ → Option EventData
  | .overrun elapsedUs budgetUs =>
    some { id := .TaktOverrun, param1 := elapsedUs, param2 := budgetUs }
  | .shutdownEvent => some { id := .SystemShutdown }
  | _ => none

/-- By how much the timers are ticked there. -/
def tickOf : TimerManager.Entry τ → Option UInt32
  | .tick deltaMs => some deltaMs
  | _ => none

/-- The event is one of the scheduler's or of `requestShutdown`. -/
def ofScheduler (data : EventData) : Bool :=
  data.id == .TaktOverrun || data.id == .SystemShutdown

/-- The event of those that is published there. -/
def toldOf : EventBus.Entry κ υ → Option EventData
  | .dispatched data false => if ofScheduler data then some data else none
  | _ => none

theorem inward_tells_none {c : Scheduler.Call μ} (h : Inward (some c)) :
    periodOf c = none ∧ eventOf c = none := by
  cases c <;> first | exact ⟨rfl, rfl⟩ | exact absurd h id

/-- Clients leave the timers' ticks and the scheduler's events to the scheduler. -/
def apart : Kernel.Act μ ω κ υ τ ξ → Bool
  | .call (.timers (.tick _)) _ _ => false
  | .call (.bus (.publish data)) _ _ => !ofScheduler data
  | _ => true

/-- The bus publishes none of those events. -/
theorem step_told {e e' : EventBus.Exec κ υ} {b : EventBus.Act κ υ} (h : e.step b = some e')
    (hb : ∀ data, b = .call (.publish data) → ofScheduler data = false) :
    e'.log.filterMap toldOf = e.log.filterMap toldOf := by
  have hentry : ∀ {x : EventBus.Entry κ υ}, toldOf x = none →
      (e.log ++ [x]).filterMap toldOf = e.log.filterMap toldOf := by
    intro x hx
    rw [List.filterMap_append, List.filterMap_cons_none hx]
    exact List.append_nil _
  cases b with
  | call op =>
    rw [EventBus.Exec.step] at h
    split at h
    · rw [← Option.some.inj h]
      cases op with
      | subscribe event callback userData =>
        rw [EventBus.Exec.call]
        split
        split
        · rfl
        · exact hentry rfl
      | unsubscribe handle =>
        rw [EventBus.Exec.call]
        split
        · rfl
        · split
          · exact hentry rfl
          · rfl
      | publish data => exact hentry (if_neg (by rw [hb data rfl]; decide))
      | enqueue data =>
        rw [EventBus.Exec.call]
        split
        · exact hentry rfl
        · rfl
      | dispatchQueued => rfl
    · exact absurd h (by simp)
  | ret =>
    cases step_effect h with
    | returned => rfl
  | advance =>
    cases step_effect h with
    | dequeued => exact hentry rfl
    | drained => rfl
    | invoked => exact hentry rfl
    | passed => exact hentry rfl
    | finished => exact hentry rfl

/-- Nor is another event one of them. -/
theorem published_told {s : Sys μ ω κ υ τ ξ} {id : EventBus.Event} (param1 param2 : UInt32)
    (hid : ofScheduler { id, param1, param2 } = false) :
    (withPublished s id param1 param2).bus.log.filterMap toldOf = s.bus.log.filterMap toldOf := by
  have hentry : toldOf (κ := κ) (υ := υ) (.dispatched { id, param1, param2 } false) = none :=
    if_neg (by rw [hid]; decide)
  simp [withPublished, EventBus.Exec.dispatch, hentry]

/-- The ticks and events of the scheduler are those that the other two have seen. -/
structure Arrived (s : Sys μ ω κ υ τ ξ) : Prop where
  ticks : s.timers.log.filterMap tickOf = s.sched.log.filterMap periodOf
  told : s.bus.log.filterMap toldOf = s.sched.log.filterMap eventOf

theorem Arrived.calls {s s' : Sys μ ω κ υ τ ξ} (h : Arrived s) {l : List (Scheduler.Call μ)}
    (hl : s'.sched.log = s.sched.log ++ l)
    (ht : s'.timers.log.filterMap tickOf
      = s.timers.log.filterMap tickOf ++ l.filterMap periodOf)
    (hb : s'.bus.log.filterMap toldOf = s.bus.log.filterMap toldOf ++ l.filterMap eventOf) :
    Arrived s' := by
  refine ⟨?_, ?_⟩
  · rw [ht, h.ticks, hl, List.filterMap_append]
  · rw [hb, h.told, hl, List.filterMap_append]

/-- Calls of no other part tell it nothing. -/
theorem inward_filterMap {calls : List (Scheduler.Call μ)} (h : ∀ c ∈ calls, Inward (some c)) :
    calls.filterMap periodOf = [] ∧ calls.filterMap eventOf = [] :=
  ⟨List.filterMap_eq_nil_iff.mpr fun c hc => (inward_tells_none (h c hc)).1,
    List.filterMap_eq_nil_iff.mpr fun c hc => (inward_tells_none (h c hc)).2⟩

theorem Arrived.inward {s s' : Sys μ ω κ υ τ ξ} (h : Arrived s) {calls : List (Scheduler.Call μ)}
    (hl : s'.sched.log = s.sched.log ++ calls) (hin : ∀ c ∈ calls, Inward (some c))
    (ht : s'.timers.log.filterMap tickOf = s.timers.log.filterMap tickOf)
    (hb : s'.bus.log.filterMap toldOf = s.bus.log.filterMap toldOf) : Arrived s' := by
  obtain ⟨hperiod, hevent⟩ := inward_filterMap hin
  refine h.calls hl ?_ ?_
  · rw [ht, hperiod, List.append_nil]
  · rw [hb, hevent, List.append_nil]

theorem sched_arrived {m : IModule μ ω} {s s' : Sys μ ω κ υ τ ξ} {b : Scheduler.Act μ ω}
    (h : Arrived s) (hturn : SchedTurn m s b s') : Arrived s' := by
  cases hturn with
  | inward sched hs hin =>
    obtain ⟨calls, hl, hcalls⟩ := inward_calls (sys_step_effect hs) hin
    exact h.inward hl hcalls rfl rfl
  | takt sched hs world now ha hsched hc =>
    refine h.calls (l := [.timers s.sched.sched.taktPeriodMs]) (by rw [hsched]; rfl) ?_ ?_
    · simp [withTick, withSched, tickOf, periodOf]
    · simp [withTick, withSched, eventOf]
  | timersDone sched hs world now taktStart rest ha hst hsched hc =>
    refine h.calls (l := [.events]) (by rw [hsched]; rfl) ?_ ?_
    · simp [withDraining, withSched, periodOf]
    · simp [withDraining, withSched, eventOf]
  | overrun sched hs now taktStart id rest ha hst elapsedUs budgetUs hsched hc =>
    refine h.calls (l := [.overrun elapsedUs budgetUs]) (by rw [hsched]; rfl) ?_ ?_
    · simp [withPublished, withSched, periodOf]
    · simp [withPublished, withSched, EventBus.Exec.dispatch, eventOf, toldOf, ofScheduler]
  | requested sched hs world now ha hsched hc =>
    refine h.calls (l := [.shutdownEvent]) (by rw [hsched]; rfl) ?_ ?_
    · simp [withPublished, withSched, periodOf]
    · simp [withPublished, withSched, EventBus.Exec.dispatch, eventOf, toldOf, ofScheduler]

section Runs

variable [DecidableEq τ] {m : IModule μ ω}

/-- What a step of the whole is to each part: none, or a step. -/
structure PartSteps (m : IModule μ ω) (s s' : Sys μ ω κ υ τ ξ) : Prop where
  sched : s'.sched = s.sched ∨ ∃ b, s.sched.step m b = some s'.sched
  bus : s'.bus = s.bus ∨ ∃ b, s.bus.step b = some s'.bus
  timers : s'.timers = s.timers ∨ ∃ b, s.timers.step b = some s'.timers

theorem sched_parts {s s' : Sys μ ω κ υ τ ξ} {b : Scheduler.Act μ ω} (h : SchedTurn m s b s') :
    PartSteps m s s' := by
  cases h with
  | inward sched h hin => exact ⟨.inr ⟨b, h⟩, .inl rfl, .inl rfl⟩
  | takt sched h world now ha hsched hc => exact ⟨.inr ⟨b, h⟩, .inl rfl, .inr ⟨_, step_tick hc _⟩⟩
  | timersDone sched h world now taktStart rest ha hs hsched hc =>
    exact ⟨.inr ⟨b, h⟩, .inr ⟨_, step_dispatchQueued hc⟩, .inl rfl⟩
  | overrun sched h now taktStart id rest ha hs elapsedUs budgetUs hsched hc =>
    exact ⟨.inr ⟨b, h⟩, .inr ⟨_, step_publish hc _ _ _⟩, .inl rfl⟩
  | requested sched h world now ha hsched hc =>
    exact ⟨.inr ⟨b, h⟩, .inr ⟨_, step_publish hc _ _ _⟩, .inl rfl⟩

theorem kernel_parts {s s' : Sys μ ω κ υ τ ξ} {a : Kernel.Act μ ω κ υ τ ξ}
    (h : KernelEffect m s a s') : PartSteps m s s' := by
  cases h with
  | scheduler _ b hacts shutdown s' hturn =>
    obtain ⟨hsched, hbus, htimers⟩ := sched_parts hturn
    exact ⟨hsched, hbus, htimers⟩
  | requestDone world now rest hs hctl s' hturn =>
    obtain ⟨hsched, hbus, htimers⟩ := sched_parts hturn
    exact ⟨hsched, hbus, htimers⟩
  | bus _ b hacts bus hbus => exact ⟨.inl rfl, .inr ⟨b, hbus⟩, .inl rfl⟩
  | timers _ b hacts timers htimers => exact ⟨.inl rfl, .inl rfl, .inr ⟨b, htimers⟩⟩
  | boot world now hc hb => exact ⟨.inl rfl, .inr ⟨_, step_publish hb _ _ _⟩, .inl rfl⟩
  | runRefused => exact ⟨.inl rfl, .inl rfl, .inl rfl⟩
  | run => exact ⟨.inl rfl, .inl rfl, .inl rfl⟩
  | initialized world now rest hs hctl sched h hst hin hok hb =>
    exact ⟨.inr ⟨_, h⟩, .inr ⟨_, step_publish hb _ _ _⟩, .inl rfl⟩
  | initFailed world now rest hs hctl sched h => exact ⟨.inr ⟨_, h⟩, .inl rfl, .inl rfl⟩
  | announced => exact ⟨.inl rfl, .inl rfl, .inl rfl⟩
  | nextTakt world now rest hs hctl s' hturn => exact sched_parts hturn

/-- **A run of the kernel is a run of each part.** -/
theorem kernel_runs_parts {acts : List (Kernel.Act μ ω κ υ τ ξ)} {s t : Sys μ ω κ υ τ ξ}
    (h : run (Sys.step m) s acts = some t) :
    (∃ bs, run (Scheduler.Sys.step m) s.sched bs = some t.sched)
      ∧ (∃ bs, run EventBus.Exec.step s.bus bs = some t.bus)
      ∧ ∃ bs, run TimerManager.Sys.step s.timers bs = some t.timers :=
  ⟨run_view Sys.sched _ (fun _ _ _ hs => (kernel_parts (kernel_step_effect hs)).sched) h,
    run_view Sys.bus _ (fun _ _ _ hs => (kernel_parts (kernel_step_effect hs)).bus) h,
    run_view Sys.timers _ (fun _ _ _ hs => (kernel_parts (kernel_step_effect hs)).timers) h⟩

/-! ## Events before modules -/

/-- The scheduler goes on after `dispatchQueued` where it is in control only. -/
theorem events_in_control {s s' : Sys μ ω κ υ τ ξ} {a : Kernel.Act μ ω κ υ τ ξ}
    (h : KernelEffect m s a s') {taktStart : UInt64} {rest : List Scheduler.Frame}
    (hs : s.sched.stack = .events taktStart :: rest)
    (hs' : s'.sched.stack = .scanning taktStart 0 :: rest) :
    s.control.head? = some .scheduler := by
  have hsame : s'.sched.stack ≠ s.sched.stack := by rw [hs, hs']; simp
  cases h with
  | scheduler _ b hacts shutdown s' hturn =>
    cases hacts with
    | ret world now ts modStart id rest' hctl => exact hctl
    | goesOn world now b hctl => exact hctl
    | call op world now hc =>
      cases hturn with
      | inward sched h hin =>
        cases sys_step_effect h with
        | quiet _ _ _ _ _ _ _ _ hst => exact absurd hst hsame
        | runTakt => exact absurd hs' (by simp [withSched, hs])
        | requestShutdown => exact absurd hs' (by simp [withSched, hs])
        | _ => exact absurd rfl hsame
      | takt sched h world now ha hsched => exact absurd hs' (by simp [withTick, withSched, hsched])
      | timersDone _ _ _ _ _ _ ha => exact absurd ha (by simp)
      | overrun _ _ _ _ _ _ ha => exact absurd ha (by simp)
      | requested sched h world now ha hsched =>
        exact absurd hs' (by simp [withPublished, withSched, hsched])
  | requestDone world now rest' hreq => rw [hs] at hreq; exact absurd hreq (by simp)
  | bus => exact absurd rfl hsame
  | timers => exact absurd rfl hsame
  | boot => exact absurd rfl hsame
  | runRefused => exact absurd rfl hsame
  | run => exact absurd rfl hsame
  | initialized world now rest' hk hctl sched h hst => exact absurd hst hsame
  | initFailed world now rest' hk hctl sched h hst => exact absurd hst hsame
  | announced => exact absurd rfl hsame
  | nextTakt world now rest' hk hctl s' hturn =>
    cases hturn with
    | inward sched h hin =>
      cases sys_step_effect h with
      | quiet _ _ _ _ hq => exact absurd hq id
      | runTakt => exact absurd hs' (by simp [withSched, hs])
    | takt sched h world now ha hsched => exact absurd hs' (by simp [withTick, withSched, hsched])
    | timersDone _ _ _ _ _ _ ha => exact absurd ha (by simp)
    | overrun _ _ _ _ _ _ ha => exact absurd ha (by simp)
    | requested _ _ _ _ ha => exact absurd ha (by simp)

/--
**A takt goes on to its modules with nothing queued.** In every run, however deep client code
calls back, where a `runTakt` returns from `dispatchQueued` to its loop over the modules, every
event accepted so far has been dispatched, each once and in order.
-/
theorem takt_delivers {sched : Scheduler μ} {world : ω} {acts : List (Kernel.Act μ ω κ υ τ ξ)}
    {s s' : Sys μ ω κ υ τ ξ} {a : Kernel.Act μ ω κ υ τ ξ}
    (h : run (Sys.step m) (freshKernel sched world) acts = some s) (hstep : s.step m a = some s')
    {taktStart : UInt64} {rest : List Scheduler.Frame}
    (hs : s.sched.stack = .events taktStart :: rest)
    (hs' : s'.sched.stack = .scanning taktStart 0 :: rest) :
    dispatchedEvents s.bus.log = acceptedEvents s.bus.log := by
  obtain ⟨fs, hcs⟩ := kernel_run_callStack h
  obtain ⟨-, ⟨bs, hbs⟩, -⟩ := kernel_runs_parts h
  have hq : QueueLaw s.bus := run_queueLaw fresh_queueLaw hbs
  have hctl := events_in_control (kernel_step_effect hstep) hs hs'
  have hempty : pending s.bus.bus = [] := by
    rw [pending, callStack_drained hcs hctl hs]
    rfl
  rw [hq.fifo, hempty, List.append_nil]

/-- A listener that enqueues a second event while the first is delivered to it. -/
def takeBoth : List (Kernel.Act Nat Unit Nat Nat Nat Nat) :=
  [.call (.bus (.subscribe 1 (some 5) none)) () 0, .call (.bus (.enqueue { id := 1 })) () 0,
      .call (.scheduler .runTakt) () 0]
    ++ List.replicate 36 (.advance () 0)
    ++ [.call (.bus (.enqueue { id := 2 })) () 0, .ret () 0]
    ++ List.replicate 67 (.advance () 0)

theorem takt_delivers_both : ∃ s : Sys Nat Unit Nat Nat Nat Nat,
    run (Sys.step plainModule) (freshKernel {} ()) takeBoth = some s
      ∧ acceptedEvents s.bus.log = [{ id := 1 }, { id := 2 }]
      ∧ dispatchedEvents s.bus.log = acceptedEvents s.bus.log := by
  have hrun : ((run (Sys.step plainModule) (freshKernel {} ()) takeBoth).bind fun s =>
      (s.step plainModule (.advance () 0)).map fun s' =>
        (acceptedEvents s.bus.log, s.sched.stack, s'.sched.stack))
      = some ([{ id := 1 }, { id := 2 }], [.events 0], [.scanning 0 0]) := by decide +kernel
  obtain ⟨s, h, hs⟩ := Option.bind_eq_some_iff.mp hrun
  obtain ⟨s', hstep, hobs⟩ := Option.map_eq_some_iff.mp hs
  obtain ⟨haccepted, hobs⟩ := Prod.mk.inj hobs
  obtain ⟨hstack, hstack'⟩ := Prod.mk.inj hobs
  exact ⟨s, h, haccepted, takt_delivers h hstep hstack hstack'⟩

/-! ## What arrives -/

/-- The timers tick at a call only. -/
theorem step_ticks {s s' : TimerManager.Sys τ ξ} {b : TimerManager.Act τ ξ}
    (h : s.step b = some s') (hb : ∀ deltaMs, b ≠ .call (.tick deltaMs)) :
    s'.log.filterMap tickOf = s.log.filterMap tickOf := by
  cases timer_step_effect h with
  | ticked deltaMs => exact absurd rfl (hb deltaMs)
  | controlled => simp [tickOf]
  | advanced => simp [tickOf]
  | fired => simp [tickOf]
  | firedSilent => simp [tickOf]
  | _ => rfl

theorem kernel_arrived {s s' : Sys μ ω κ υ τ ξ} {a : Kernel.Act μ ω κ υ τ ξ} (h : Arrived s)
    (ha : apart a) (heff : KernelEffect m s a s') : Arrived s' := by
  have hinit : ∀ {sched world now}, s.sched.step m (.call .initAll world now) = some sched →
      Inward (Sys.callee s.sched sched) →
      ∃ calls, sched.log = s.sched.log ++ calls ∧ ∀ c ∈ calls, Inward (some c) :=
    fun hs hin => inward_calls (sys_step_effect hs) hin
  cases heff with
  | scheduler _ b hacts shutdown s' hturn =>
    exact sched_arrived (s := { s with shutdown }) ⟨h.ticks, h.told⟩ hturn
  | requestDone world now rest hs hctl s' hturn =>
    have h' := sched_arrived h hturn
    exact ⟨h'.ticks, h'.told⟩
  | bus _ b hacts bus hbus =>
    refine ⟨h.ticks, (step_told hbus ?_).trans h.told⟩
    intro data hb
    cases hacts with
    | call op world now hc => cases hb; simpa [apart] using ha
    | ret => exact absurd hb (by simp)
    | goesOn => exact absurd hb (by simp)
  | timers _ b hacts timers htimers =>
    refine ⟨(step_ticks htimers ?_).trans h.ticks, h.told⟩
    intro deltaMs hb
    cases hacts with
    | call op world now hc => cases hb; exact absurd ha (by simp [apart])
    | ret => exact absurd hb (by simp)
    | goesOn => exact absurd hb (by simp)
  | boot world now hc hb =>
    exact ⟨h.ticks, (published_told (s := s.push .booting) _ _ rfl).trans h.told⟩
  | runRefused => exact h
  | run => exact ⟨h.ticks, h.told⟩
  | initialized world now rest hs hctl sched hinitAll hst hin hok hb =>
    obtain ⟨calls, hl, hcalls⟩ := hinit hinitAll hin
    exact h.inward hl hcalls rfl
      (published_told (s := { s with sched, stack := .announcing :: rest }) _ _ rfl)
  | initFailed world now rest hs hctl sched hinitAll hst hin =>
    obtain ⟨calls, hl, hcalls⟩ := hinit hinitAll hin
    exact h.inward hl hcalls rfl rfl
  | announced => exact ⟨h.ticks, h.told⟩
  | nextTakt world now rest hs hctl s' hturn => exact sched_arrived h hturn

/--
**What the scheduler tells the others arrives.** In every run in which clients leave the ticks and
the scheduler's own events to it, the timers have been ticked once for every takt begun, by the
period it had, and the bus has dispatched every overrun and every shutdown, with its figures: none
lost, none twice, in the order they happened, at any depth of calls.
-/
theorem scheduler_calls_arrive {sched : Scheduler μ} {world : ω}
    {acts : List (Kernel.Act μ ω κ υ τ ξ)} {s : Sys μ ω κ υ τ ξ} (hapart : ∀ a ∈ acts, apart a)
    (h : run (Sys.step m) (freshKernel sched world) acts = some s) :
    s.timers.log.filterMap tickOf = s.sched.log.filterMap periodOf
      ∧ s.bus.log.filterMap toldOf = s.sched.log.filterMap eventOf := by
  have harrived : Arrived s :=
    run_invariant (P := fun _ a => apart a) Arrived
      (fun _ _ _ hi ha hs => kernel_arrived hi ha (kernel_step_effect hs)) ⟨rfl, rfl⟩
      (along_of_forall fun a ha _ => hapart a ha) h
  exact ⟨harrived.ticks, harrived.told⟩

/-- A takt overruns, the listener requests the shutdown, and another takt begins. -/
def overrunAndShutdown : List (Kernel.Act Nat Unit Nat Nat Nat Nat) :=
  [.call (.bus (.subscribe .TaktOverrun (some 5) none)) () 0,
      .call (.scheduler (.setTaktBudgetUs 10)) () 0,
      .call (.scheduler (.setTaktPeriodMs 5)) () 0, .call (.scheduler .runTakt) () 0]
    ++ List.replicate 36 (.advance () 0) ++ [.advance () 25, .advance () 25]
    ++ [.call (.scheduler .requestShutdown) () 26] ++ List.replicate 34 (.advance () 27)
    ++ [.ret () 28] ++ List.replicate 33 (.advance () 28)
    ++ [.call (.scheduler (.setTaktPeriodMs 7)) () 30, .call (.scheduler .runTakt) () 30]

theorem scheduler_calls_arrive_shutdown : ∃ s : Sys Nat Unit Nat Nat Nat Nat,
    run (Sys.step plainModule) (freshKernel {} ()) overrunAndShutdown = some s
      ∧ s.timers.log.filterMap tickOf = [5, 7]
      ∧ s.bus.log.filterMap toldOf
        = [{ id := .TaktOverrun, param1 := 25, param2 := 10 }, { id := .SystemShutdown }] := by
  have hrun : ((run (Sys.step plainModule) (freshKernel {} ()) overrunAndShutdown).map fun s =>
      (s.sched.log.filterMap periodOf, s.sched.log.filterMap eventOf))
      = some ([5, 7], [{ id := .TaktOverrun, param1 := 25, param2 := 10 },
        { id := .SystemShutdown }]) := by decide +kernel
  obtain ⟨s, h, hobs⟩ := Option.map_eq_some_iff.mp hrun
  obtain ⟨hperiods, hevents⟩ := Prod.mk.inj hobs
  obtain ⟨hticks, htold⟩ := scheduler_calls_arrive (by decide +kernel) h
  exact ⟨s, h, hticks.trans hperiods, htold.trans hevents⟩

end Runs

end TaktOS.Proof
