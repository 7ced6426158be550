import TaktOS.Kernel.Kernel
import TaktOS.Proof.EventSteps
import TaktOS.Proof.SchedulerSteps
import TaktOS.Proof.TimerSteps

/-!
# What a step of the kernel does

`KernelEffect` says once what a step of the whole can do: a step of one part, or one of the four
steps of the scheduler that end in a call of another part, or a step of the kernel itself. The
steps of the parts are taken as `SchedEffect`, `Effect` and `TimerEffect` have them.
-/

namespace TaktOS.Proof

open TaktOS Kernel Lib

variable {μ ω κ υ τ ξ : Type}

/-! ## The call out of the scheduler -/

theorem callee_append {before after : Scheduler.Sys μ ω} {calls : List (Scheduler.Call μ)}
    (h : after.log = before.log ++ calls) : Sys.callee before after = calls.getLast? := by
  rw [Sys.callee, h, List.drop_left]

/-- The call is of no part: it tells of modules, or there is none. -/
def Inward : Option (Scheduler.Call μ) → Prop
  | some (.timers _) | some .events | some (.overrun ..) | some .shutdownEvent => False
  | _ => True

theorem inward_of_forall {calls : List (Scheduler.Call μ)} (h : ∀ c ∈ calls, Inward (some c)) :
    Inward calls.getLast? := by
  cases hl : calls.getLast? with
  | none => trivial
  | some c => exact h c (List.mem_of_getLast? hl)

theorem inward_initCalls {m : IModule μ ω} {s : Scheduler.Sys μ ω} (world : ω)
    (modules : List μ) :
    ∀ c ∈ .initAll modules :: initCalls m { s with world }, Inward (some c) := by
  intro c hc
  rcases List.mem_cons.mp hc with rfl | hc
  · trivial
  · obtain ⟨_, _, _, _, rfl⟩ := initCalls_mem hc
    trivial

theorem inward_shutdownCalls {m : IModule μ ω} {s : Scheduler.Sys μ ω} (world : ω)
    (modules : List μ) :
    ∀ c ∈ .shutdownAll modules :: shutdownCalls m { s with world }, Inward (some c) := by
  intro c hc
  rcases List.mem_cons.mp hc with rfl | hc
  · trivial
  · obtain ⟨_, _, _, _, rfl⟩ := shutdownCalls_mem hc
    trivial

/-- A step that ends in no call of another part makes none. -/
theorem inward_calls {m : IModule μ ω} {s s' : Scheduler.Sys μ ω} {b : Scheduler.Act μ ω}
    (heff : SchedEffect m s b s') (hin : Inward (Sys.callee s s')) :
    ∃ calls, s'.log = s.log ++ calls ∧ ∀ c ∈ calls, Inward (some c) := by
  have hone : ∀ {c}, s'.log = s.log ++ [c] →
      ∃ calls, s'.log = s.log ++ calls ∧ ∀ c ∈ calls, Inward (some c) := by
    intro c hl
    rw [callee_append hl] at hin
    exact ⟨[c], hl, fun c' hc => List.mem_singleton.mp hc ▸ hin⟩
  have hnone : s'.log = s.log →
      ∃ calls, s'.log = s.log ++ calls ∧ ∀ c ∈ calls, Inward (some c) :=
    fun hl => ⟨[], by rw [hl, List.append_nil], fun c hc => absurd hc (by simp)⟩
  cases heff with
  | quiet op world now hc hq _ he hw hst hl => exact hnone hl
  | registered => exact hnone rfl
  | removed id world now hc e he =>
    refine ⟨_, rfl, fun c hc => ?_⟩
    rcases List.mem_pair.mp hc with rfl | rfl <;> trivial
  | initAll world => exact ⟨_, rfl, inward_initCalls world _⟩
  | runTakt => exact hone rfl
  | shutdownAll world => exact ⟨_, rfl, inward_shutdownCalls world _⟩
  | requestShutdown => exact hone rfl
  | timersDone => exact hone rfl
  | eventsDone => exact hnone rfl
  | tickDone => exact hnone rfl
  | overrunDone => exact hnone rfl
  | requestDone world => exact ⟨_, rfl, inward_shutdownCalls world _⟩
  | tick => exact hone rfl
  | skip => exact hnone rfl
  | overrun => exact hone rfl
  | taktDone => exact hnone rfl

/-! ## The parts in the whole -/

/-- The scheduler after a step, with the frames that leaves. -/
def withSched (s : Sys μ ω κ υ τ ξ) (sched : Scheduler.Sys μ ω) : Sys μ ω κ υ τ ξ :=
  { s with
    sched
    control := resize .scheduler s.sched.stack.length sched.stack.length s.control }

/-- The bus after a step. -/
def withBus (s : Sys μ ω κ υ τ ξ) (bus : EventBus.Exec κ υ) : Sys μ ω κ υ τ ξ :=
  { s with
    bus
    control := resize .bus s.bus.stack.length bus.stack.length s.control }

/-- The timers after a step. -/
def withTimers (s : Sys μ ω κ υ τ ξ) (timers : TimerManager.Sys τ ξ) : Sys μ ω κ υ τ ξ :=
  { s with
    timers
    control := resize .timers s.timers.stack.length timers.stack.length s.control }

/-- The bus, when an event is published by the kernel or the scheduler. -/
def withPublished (s : Sys μ ω κ υ τ ξ) (id : EventBus.Event) (param1 param2 : UInt32) :
    Sys μ ω κ υ τ ξ :=
  { s with
    bus := s.bus.dispatch { id, param1, param2 } false s.bus.stack
    control := .bus :: s.control }

/-- The timers, when the scheduler ticks them. -/
def withTick (s : Sys μ ω κ υ τ ξ) (deltaMs : UInt32) : Sys μ ω κ υ τ ξ :=
  { s with
    timers := { s.timers with
      stack := .scanning s.timers.ticks deltaMs 0 :: s.timers.stack
      ticks := s.timers.ticks + 1
      log := s.timers.log ++ [.tick deltaMs] }
    control := .timers :: s.control }

/-- The bus, when the scheduler has the queue dispatched. -/
def withDraining (s : Sys μ ω κ υ τ ξ) : Sys μ ω κ υ τ ξ :=
  { s with
    bus := { s.bus with stack := .draining :: s.bus.stack }
    control := .bus :: s.control }

theorem publish_some {s s' : Sys μ ω κ υ τ ξ} {id : EventBus.Event} {param1 param2 : UInt32}
    (h : s.publish id param1 param2 = some s') :
    s.bus.clientActs = true ∧ s' = withPublished s id param1 param2 := by
  rw [Sys.publish, Sys.stepBus, EventBus.Exec.step] at h
  split at h
  · rename_i hc
    refine ⟨hc, ?_⟩
    rw [← Option.some.inj h]
    simp [EventBus.Exec.call, EventBus.Exec.dispatch, withPublished, resize]
  · exact absurd h (by simp)

theorem stepBus_dispatchQueued {s s' : Sys μ ω κ υ τ ξ}
    (h : s.stepBus (.call .dispatchQueued) = some s') :
    s.bus.clientActs = true ∧ s' = withDraining s := by
  rw [Sys.stepBus, EventBus.Exec.step] at h
  split at h
  · rename_i hc
    refine ⟨hc, ?_⟩
    rw [← Option.some.inj h]
    simp [EventBus.Exec.call, withDraining, resize]
  · exact absurd h (by simp)

theorem stepBus_effect {s s' : Sys μ ω κ υ τ ξ} {b : EventBus.Act κ υ}
    (h : s.stepBus b = some s') :
    ∃ bus, s.bus.step b = some bus ∧ s' = withBus s bus := by
  rw [Sys.stepBus, Option.map_eq_some_iff] at h
  obtain ⟨bus, hb, rfl⟩ := h
  exact ⟨bus, hb, rfl⟩

/-- In the scheduler, a client acts from a `tick()` only. -/
theorem clientActs_scheduler {s : Sys μ ω κ υ τ ξ} (hctl : s.control.head? = some .scheduler)
    (hc : s.clientActs) :
    ∃ taktStart modStart id rest, s.sched.stack = .ticking taktStart modStart id :: rest := by
  obtain ⟨rest, hrest⟩ := List.head?_eq_some_iff.mp hctl
  simp only [Sys.clientActs, hrest] at hc
  split at hc
  · exact ⟨_, _, _, _, ‹_›⟩
  · exact absurd hc (by simp)

theorem step_publish {s : Sys μ ω κ υ τ ξ} (hc : s.bus.clientActs) (id : EventBus.Event)
    (param1 param2 : UInt32) :
    s.bus.step (.call (.publish { id, param1, param2 }))
      = some (withPublished s id param1 param2).bus := by
  rw [EventBus.Exec.step, if_pos hc]
  rfl

theorem step_dispatchQueued {s : Sys μ ω κ υ τ ξ} (hc : s.bus.clientActs) :
    s.bus.step (.call .dispatchQueued) = some (withDraining s).bus := by
  rw [EventBus.Exec.step, if_pos hc]
  rfl

section Steps

variable [DecidableEq τ] {m : IModule μ ω}

theorem step_tick {s : Sys μ ω κ υ τ ξ} (hc : s.timers.clientActs) (deltaMs : UInt32) :
    s.timers.step (.call (.tick deltaMs)) = some (withTick s deltaMs).timers := by
  rw [TimerManager.Sys.step, if_pos hc]
  rfl

theorem stepTimers_tick {s s' : Sys μ ω κ υ τ ξ} {deltaMs : UInt32}
    (h : s.stepTimers (.call (.tick deltaMs)) = some s') :
    s.timers.clientActs = true ∧ s' = withTick s deltaMs := by
  rw [Sys.stepTimers, TimerManager.Sys.step] at h
  split at h
  · rename_i hc
    refine ⟨hc, ?_⟩
    rw [← Option.some.inj h]
    simp [withTick, resize]
  · exact absurd h (by simp)

theorem follow_inward {s : Sys μ ω κ υ τ ξ} {c : Option (Scheduler.Call μ)} (h : Inward c) :
    s.follow c = some s := by
  cases c with
  | none => rfl
  | some c => cases c <;> first | rfl | exact absurd h id

/-- What a step of the scheduler makes of the whole, with the call it ends in. -/
inductive SchedTurn (m : IModule μ ω) (s : Sys μ ω κ υ τ ξ) (a : Scheduler.Act μ ω) :
    Sys μ ω κ υ τ ξ → Prop
  /-- It ends in no call of another part. -/
  | inward (sched : Scheduler.Sys μ ω) (h : s.sched.step m a = some sched)
      (hin : Inward (Sys.callee s.sched sched)) : SchedTurn m s a (withSched s sched)
  | takt (sched : Scheduler.Sys μ ω) (h : s.sched.step m a = some sched) (world : ω)
      (now : UInt64) (ha : a = .call .runTakt world now)
      (hsched : sched = { s.sched with
        world
        stack := .timers now :: s.sched.stack
        log := s.sched.log ++ [.timers s.sched.sched.taktPeriodMs] })
      (hc : s.timers.clientActs) :
      SchedTurn m s a (withTick (withSched s sched) s.sched.sched.taktPeriodMs)
  | timersDone (sched : Scheduler.Sys μ ω) (h : s.sched.step m a = some sched) (world : ω)
      (now taktStart : UInt64) (rest : List Scheduler.Frame) (ha : a = .ret world now)
      (hs : s.sched.stack = .timers taktStart :: rest)
      (hsched : sched = { s.sched with
        world
        stack := .events taktStart :: rest
        log := s.sched.log ++ [.events] })
      (hc : s.bus.clientActs) : SchedTurn m s a (withDraining (withSched s sched))
  | overrun (sched : Scheduler.Sys μ ω) (h : s.sched.step m a = some sched)
      (now taktStart : UInt64) (id : Nat) (rest : List Scheduler.Frame) (ha : a = .advance now)
      (hs : s.sched.stack = .scanning taktStart id :: rest) (elapsedUs budgetUs : UInt32)
      (hsched : sched = { s.sched with
        sched := s.sched.sched.endTakt (now - taktStart)
        stack := .overrun :: rest
        log := s.sched.log ++ [.overrun elapsedUs budgetUs] })
      (hc : s.bus.clientActs) :
      SchedTurn m s a (withPublished (withSched s sched) .TaktOverrun elapsedUs budgetUs)
  | requested (sched : Scheduler.Sys μ ω) (h : s.sched.step m a = some sched) (world : ω)
      (now : UInt64) (ha : a = .call .requestShutdown world now)
      (hsched : sched = { s.sched with
        world
        stack := .requested :: s.sched.stack
        log := s.sched.log ++ [.shutdownEvent] })
      (hc : s.bus.clientActs) :
      SchedTurn m s a (withPublished (withSched s sched) .SystemShutdown 0 0)

theorem stepSched_some {s s' : Sys μ ω κ υ τ ξ} {a : Scheduler.Act μ ω}
    (h : s.stepSched m a = some s') :
    ∃ sched, s.sched.step m a = some sched
      ∧ (withSched s sched).follow (Sys.callee s.sched sched) = some s' := by
  rw [Sys.stepSched] at h
  split at h
  · exact absurd h (by simp)
  · rename_i sched hs
    exact ⟨sched, hs, h⟩

theorem stepSched_turn {s s' : Sys μ ω κ υ τ ξ} {a : Scheduler.Act μ ω}
    (h : s.stepSched m a = some s') : SchedTurn m s a s' := by
  obtain ⟨sched, hs, hf⟩ := stepSched_some h
  have heff := sys_step_effect hs
  have hinward : Inward (Sys.callee s.sched sched) → SchedTurn m s a s' := by
    intro hc
    rw [follow_inward hc] at hf
    exact Option.some.inj hf ▸ .inward sched hs hc
  have hcallee : ∀ {calls}, sched.log = s.sched.log ++ calls →
      Sys.callee s.sched sched = calls.getLast? := callee_append
  cases heff with
  | quiet op world now hc hq _ he hw hst hl =>
    have hl : sched.log = s.sched.log ++ [] := by rw [hl, List.append_nil]
    exact hinward (by rw [hcallee hl]; trivial)
  | registered => exact hinward (by rw [hcallee (List.append_nil _).symm]; trivial)
  | removed => exact hinward (by rw [hcallee rfl]; trivial)
  | initAll world now hc =>
    exact hinward (by rw [hcallee rfl]; exact inward_of_forall (inward_initCalls world _))
  | runTakt world now hc =>
    rw [hcallee rfl] at hf
    obtain ⟨hc, rfl⟩ := stepTimers_tick hf
    exact .takt _ hs world now rfl rfl hc
  | shutdownAll world now hc =>
    exact hinward (by rw [hcallee rfl]; exact inward_of_forall (inward_shutdownCalls world _))
  | requestShutdown world now hc =>
    rw [hcallee rfl] at hf
    obtain ⟨hc, rfl⟩ := publish_some hf
    exact .requested _ hs world now rfl rfl hc
  | timersDone world now taktStart rest hst =>
    rw [hcallee rfl] at hf
    obtain ⟨hc, rfl⟩ := stepBus_dispatchQueued hf
    exact .timersDone _ hs world now taktStart rest rfl hst rfl hc
  | eventsDone => exact hinward (by rw [hcallee (List.append_nil _).symm]; trivial)
  | tickDone => exact hinward (by rw [hcallee (List.append_nil _).symm]; trivial)
  | overrunDone => exact hinward (by rw [hcallee (List.append_nil _).symm]; trivial)
  | requestDone world now rest hst =>
    exact hinward (by rw [hcallee rfl]; exact inward_of_forall (inward_shutdownCalls world _))
  | tick => exact hinward (by rw [hcallee rfl]; trivial)
  | skip => exact hinward (by rw [hcallee (List.append_nil _).symm]; trivial)
  | overrun now taktStart id rest hst he elapsedUs budgetUs =>
    rw [hcallee rfl] at hf
    obtain ⟨hc, rfl⟩ := publish_some hf
    exact .overrun _ hs now taktStart id rest rfl hst elapsedUs budgetUs rfl hc
  | taktDone => exact hinward (by rw [hcallee (List.append_nil _).symm]; trivial)

/-- An `initAll` ends in no call of another part. -/
theorem stepSched_initAll {s s' : Sys μ ω κ υ τ ξ} {world : ω} {now : UInt64}
    (h : s.stepSched m (.call .initAll world now) = some s') :
    ∃ sched, s.sched.step m (.call .initAll world now) = some sched
      ∧ s' = { s with sched } ∧ sched.stack = s.sched.stack
      ∧ Inward (Sys.callee s.sched sched) := by
  cases stepSched_turn h with
  | inward sched hs hin =>
    have hst : sched.stack = s.sched.stack := by
      cases sys_step_effect hs with
      | quiet => assumption
      | initAll => rfl
    refine ⟨sched, hs, ?_, hst, hin⟩
    simp [withSched, hst, resize]
  | takt _ _ _ _ ha => exact absurd ha (by simp)
  | timersDone _ _ _ _ _ _ ha => exact absurd ha (by simp)
  | overrun _ _ _ _ _ _ ha => exact absurd ha (by simp)
  | requested _ _ _ _ ha => exact absurd ha (by simp)

/-! ## What a step does -/

/-- The scheduler takes the step: a client calls it, or it is in control. -/
inductive SchedActs (s : Sys μ ω κ υ τ ξ) :
    Kernel.Act μ ω κ υ τ ξ → Scheduler.Act μ ω → Prop
  | call (op : Scheduler.Op μ) (world : ω) (now : UInt64) (hc : s.clientActs) :
      SchedActs s (.call (.scheduler op) world now) (.call op world now)
  | ret (world : ω) (now taktStart modStart : UInt64) (id : Nat) (rest : List Scheduler.Frame)
      (hctl : s.control.head? = some .scheduler)
      (hs : s.sched.stack = .ticking taktStart modStart id :: rest) :
      SchedActs s (.ret world now) (.ret world now)
  | goesOn (world : ω) (now : UInt64) (b : Scheduler.Act μ ω)
      (hctl : s.control.head? = some .scheduler) (hn : s.clientActs = false)
      (hb : b = .ret world now ∨ b = .advance now) : SchedActs s (.advance world now) b

/-- The bus takes the step. -/
inductive BusActs (s : Sys μ ω κ υ τ ξ) :
    Kernel.Act μ ω κ υ τ ξ → EventBus.Act κ υ → Prop
  | call (op : EventBus.Op κ υ) (world : ω) (now : UInt64) (hc : s.clientActs) :
      BusActs s (.call (.bus op) world now) (.call op)
  | ret (world : ω) (now : UInt64) (hctl : s.control.head? = some .bus) :
      BusActs s (.ret world now) .ret
  | goesOn (world : ω) (now : UInt64) (hctl : s.control.head? = some .bus) :
      BusActs s (.advance world now) .advance

/-- The timers take the step. -/
inductive TimersAct (s : Sys μ ω κ υ τ ξ) :
    Kernel.Act μ ω κ υ τ ξ → TimerManager.Act τ ξ → Prop
  | call (op : TimerManager.Op τ ξ) (world : ω) (now : UInt64) (hc : s.clientActs) :
      TimersAct s (.call (.timers op) world now) (.call op)
  | ret (world : ω) (now : UInt64) (hctl : s.control.head? = some .timers) :
      TimersAct s (.ret world now) .ret
  | goesOn (world : ω) (now : UInt64) (hctl : s.control.head? = some .timers) :
      TimersAct s (.advance world now) .advance

/-- Everything one step of the kernel can do. -/
inductive KernelEffect (m : IModule μ ω) (s : Sys μ ω κ υ τ ξ) :
    Kernel.Act μ ω κ υ τ ξ → Sys μ ω κ υ τ ξ → Prop
  /-- With `shutdown` raised where a `requestShutdown` begins. -/
  | scheduler (a : Kernel.Act μ ω κ υ τ ξ) (b : Scheduler.Act μ ω) (hacts : SchedActs s a b)
      (shutdown : Bool) (s' : Sys μ ω κ υ τ ξ) (h : SchedTurn m { s with shutdown } b s') :
      KernelEffect m s a s'
  | requestDone (world : ω) (now : UInt64) (rest : List Scheduler.Frame)
      (hs : s.sched.stack = .requested :: rest) (hctl : s.control.head? = some .scheduler)
      (s' : Sys μ ω κ υ τ ξ) (h : SchedTurn m s (.ret world now) s') :
      KernelEffect m s (.advance world now) { s' with running := false }
  | bus (a : Kernel.Act μ ω κ υ τ ξ) (b : EventBus.Act κ υ) (hacts : BusActs s a b)
      (bus : EventBus.Exec κ υ) (h : s.bus.step b = some bus) :
      KernelEffect m s a (withBus s bus)
  | timers (a : Kernel.Act μ ω κ υ τ ξ) (b : TimerManager.Act τ ξ) (hacts : TimersAct s a b)
      (timers : TimerManager.Sys τ ξ) (h : s.timers.step b = some timers) :
      KernelEffect m s a (withTimers s timers)
  | boot (world : ω) (now : UInt64) (hc : s.clientActs) (hb : s.bus.clientActs) :
      KernelEffect m s (.call .boot world now) (withPublished (s.push .booting) .SystemBoot 0 0)
  | runRefused (world : ω) (now : UInt64) (hc : s.clientActs) (hr : s.running = false) :
      KernelEffect m s (.call .run world now) s
  | run (world : ω) (now : UInt64) (hc : s.clientActs) (hr : s.running = true) :
      KernelEffect m s (.call .run world now) (s.push .looping)
  | initialized (world : ω) (now : UInt64) (rest : List Kernel.Frame)
      (hs : s.stack = .booting :: rest) (hctl : s.control.head? = some .kernel)
      (sched : Scheduler.Sys μ ω) (h : s.sched.step m (.call .initAll world now) = some sched)
      (hst : sched.stack = s.sched.stack) (hin : Inward (Sys.callee s.sched sched))
      (hok : s.initAllOk m world) (hb : s.bus.clientActs) :
      KernelEffect m s (.advance world now)
        (withPublished { s with sched, stack := .announcing :: rest } .SystemReady 0 0)
  | initFailed (world : ω) (now : UInt64) (rest : List Kernel.Frame)
      (hs : s.stack = .booting :: rest) (hctl : s.control.head? = some .kernel)
      (sched : Scheduler.Sys μ ω) (h : s.sched.step m (.call .initAll world now) = some sched)
      (hst : sched.stack = s.sched.stack) (hin : Inward (Sys.callee s.sched sched)) :
      KernelEffect m s (.advance world now)
        { s with sched, stack := rest, control := s.control.tail }
  | announced (world : ω) (now : UInt64) (rest : List Kernel.Frame)
      (hs : s.stack = .announcing :: rest) (hctl : s.control.head? = some .kernel) :
      KernelEffect m s (.advance world now)
        { s with running := true, stack := rest, control := s.control.tail }
  | nextTakt (world : ω) (now : UInt64) (rest : List Kernel.Frame)
      (hs : s.stack = .looping :: rest) (hctl : s.control.head? = some .kernel)
      (s' : Sys μ ω κ υ τ ξ) (h : SchedTurn m s (.call .runTakt world now) s') :
      KernelEffect m s (.advance world now) s'

theorem stepTimers_effect {s s' : Sys μ ω κ υ τ ξ} {b : TimerManager.Act τ ξ}
    (h : s.stepTimers b = some s') :
    ∃ timers, s.timers.step b = some timers ∧ s' = withTimers s timers := by
  rw [Sys.stepTimers, Option.map_eq_some_iff] at h
  obtain ⟨timers, ht, rfl⟩ := h
  exact ⟨timers, ht, rfl⟩

theorem kernel_call_effect {s s' : Sys μ ω κ υ τ ξ} {op : Kernel.Op μ κ υ τ ξ} {world : ω}
    {now : UInt64} (hc : s.clientActs) (h : s.call m world now op = some s') :
    KernelEffect m s (.call op world now) s' := by
  cases op with
  | boot =>
    obtain ⟨hb, rfl⟩ := publish_some h
    exact .boot world now hc hb
  | run =>
    rw [Sys.call] at h
    rw [← Option.some.inj h]
    split
    · rename_i hr; exact .run world now hc hr
    · rename_i hr; exact .runRefused world now hc (by simpa using hr)
  | scheduler op =>
    by_cases hop : op = .requestShutdown
    · subst hop
      exact .scheduler _ _ (.call _ world now hc) true s' (stepSched_turn h)
    · have h : s.stepSched m (.call op world now) = some s' := by
        cases op <;> first | exact h | exact absurd rfl hop
      exact .scheduler _ _ (.call op world now hc) s.shutdown s' (stepSched_turn h)
  | bus op =>
    obtain ⟨bus, heff, rfl⟩ := stepBus_effect h
    exact .bus _ _ (.call op world now hc) bus heff
  | timers op =>
    obtain ⟨timers, heff, rfl⟩ := stepTimers_effect h
    exact .timers _ _ (.call op world now hc) timers heff

theorem advanceKernel_effect {s s' : Sys μ ω κ υ τ ξ} {world : ω} {now : UInt64}
    (hctl : s.control.head? = some .kernel) (h : s.advanceKernel m world now = some s') :
    KernelEffect m s (.advance world now) s' := by
  rw [Sys.advanceKernel] at h
  split at h
  · exact absurd h (by simp)
  · rename_i rest hs
    split at h
    · exact absurd h (by simp)
    · rename_i s₁ hinit
      obtain ⟨sched, heff, rfl, hst, hin⟩ := stepSched_initAll hinit
      split at h
      · rename_i hok
        obtain ⟨hb, rfl⟩ := publish_some h
        exact .initialized world now rest hs hctl sched heff hst hin hok hb
      · exact Option.some.inj h ▸ .initFailed world now rest hs hctl sched heff hst hin
  · rename_i rest hs
    exact Option.some.inj h ▸ .announced world now rest hs hctl
  · rename_i rest hs
    exact .nextTakt world now rest hs hctl s' (stepSched_turn h)

theorem advanceSched_effect {s s' : Sys μ ω κ υ τ ξ} {world : ω} {now : UInt64}
    (hctl : s.control.head? = some .scheduler) (hn : s.clientActs = false)
    (h : s.advanceSched m world now = some s') :
    KernelEffect m s (.advance world now) s' := by
  rw [Sys.advanceSched] at h
  split at h
  · exact .scheduler _ _ (.goesOn world now _ hctl hn (.inr rfl)) s.shutdown s' (stepSched_turn h)
  · rename_i rest hs
    obtain ⟨s₁, h₁, rfl⟩ := Option.map_eq_some_iff.mp h
    exact .requestDone world now rest hs hctl s₁ (stepSched_turn h₁)
  · exact .scheduler _ _ (.goesOn world now _ hctl hn (.inl rfl)) s.shutdown s' (stepSched_turn h)

/-- **Every step of the kernel is one of these.** -/
theorem kernel_step_effect {s s' : Sys μ ω κ υ τ ξ} {a : Kernel.Act μ ω κ υ τ ξ}
    (h : s.step m a = some s') : KernelEffect m s a s' := by
  cases a with
  | call op world now =>
    rw [Sys.step] at h
    split at h
    · rename_i hc; exact kernel_call_effect hc h
    · exact absurd h (by simp)
  | ret world now =>
    rw [Sys.step] at h
    split at h
    · rename_i hc
      split at h
      · rename_i hctl
        have hctl : s.control.head? = some .scheduler := by rw [hctl]; rfl
        obtain ⟨taktStart, modStart, id, rest, hs⟩ := clientActs_scheduler hctl hc
        exact .scheduler _ _ (.ret world now taktStart modStart id rest hctl hs) s.shutdown s'
          (stepSched_turn h)
      · rename_i hctl
        obtain ⟨bus, heff, rfl⟩ := stepBus_effect h
        exact .bus _ _ (.ret world now (by rw [hctl]; rfl)) bus heff
      · rename_i hctl
        obtain ⟨timers, heff, rfl⟩ := stepTimers_effect h
        exact .timers _ _ (.ret world now (by rw [hctl]; rfl)) timers heff
      · exact absurd h (by simp)
    · exact absurd h (by simp)
  | advance world now =>
    rw [Sys.step] at h
    split at h
    · exact absurd h (by simp)
    · rename_i hn
      have hn : s.clientActs = false := by simpa using hn
      split at h
      · rename_i hctl; exact advanceKernel_effect (by rw [hctl]; rfl) h
      · rename_i hctl; exact advanceSched_effect (by rw [hctl]; rfl) hn h
      · rename_i hctl
        obtain ⟨bus, heff, rfl⟩ := stepBus_effect h
        exact .bus _ _ (.goesOn world now (by rw [hctl]; rfl)) bus heff
      · rename_i hctl
        obtain ⟨timers, heff, rfl⟩ := stepTimers_effect h
        exact .timers _ _ (.goesOn world now (by rw [hctl]; rfl)) timers heff
      · exact absurd h (by simp)

end Steps

end TaktOS.Proof
