import TaktOS.Lib.Run

/-!
# The scheduler

`Scheduler` of `scheduler.hpp` and `scheduler.cpp`, with `Kernel::requestShutdown` of
`kernel.cpp`. A module is an address in `μ`; what modules, timers and event listeners share
is a world in `ω`.

`tick()`, the timers, the queued events and the listeners of the two events published here
may call the scheduler again before they return, so the scheduler is a machine with the calls
in progress on a stack, as the event bus is. `init()`, `shutdown()` and the `const` methods
change or read the world and return.
-/

namespace TaktOS

/-- Module execution category. -/
inductive ModuleType where
  | static
  | dynamic
  | background
  deriving DecidableEq, Repr

/-- Module lifecycle and runtime state. -/
inductive ModuleState where
  | unregistered
  | registered
  | initializing
  | ready
  | running
  | suspended
  | error
  | shutdown
  deriving DecidableEq, Repr

structure ModuleStats where
  tickCount : UInt64 := 0
  totalUs : UInt64 := 0
  maxUs : UInt64 := 0
  lastUs : UInt64 := 0
  overrunCount : UInt32 := 0
  skipCount : UInt32 := 0
  state : ModuleState := .unregistered
  deriving DecidableEq, Repr

structure SchedulerStats where
  totalTakts : UInt64 := 0
  totalTaktUs : UInt64 := 0
  maxTaktUs : UInt64 := 0
  lastTaktUs : UInt64 := 0
  overrunCount : UInt32 := 0
  registeredModules : UInt32 := 0
  deriving DecidableEq, Repr

def kMaxModules : Nat := 48

def kInvalidModuleId : UInt16 := 0xFFFF

/-- The methods of `IModule` that do not call the scheduler, for the module at an address. -/
structure IModule (μ ω : Type) where
  init : μ → ω → Bool × ω
  shutdown : μ → ω → ω
  type : μ → ω → ModuleType
  budgetUs : μ → ω → UInt32 := fun _ _ => 0
  hasWork : μ → ω → Bool := fun _ _ => true

namespace Scheduler

/-- An entry in use: `registerModule` makes none with a null module. -/
structure ModuleEntry (μ : Type) where
  module : μ
  stats : ModuleStats := {}
  active : Bool := false
  deriving DecidableEq

/-- A call the scheduler makes or is given, in the order they happen. -/
inductive Call (μ : Type) where
  /-- `TimerManager::tick`. -/
  | timers (periodMs : UInt32)
  /-- `EventBus::dispatchQueued`. -/
  | events
  /-- The module of an entry is initialized, with what `init()` returned. -/
  | init (id : Nat) (module : μ) (ok : Bool)
  | tick (id : Nat) (module : μ)
  | shutdown (id : Nat) (module : μ)
  /-- `publish(Event::TaktOverrun, elapsed, budget)`. -/
  | overrun (elapsedUs budgetUs : UInt32)
  /-- `publish(Event::SystemShutdown)`. -/
  | shutdownEvent
  /-- `initAll` is called, with the modules of the active entries. -/
  | initAll (modules : List μ)
  /-- `unregisterModule` is called with the id of an entry. -/
  | unregisterModule (module : μ)
  /-- `shutdownAll` is called, with the modules of the active entries. -/
  | shutdownAll (modules : List μ)
  deriving DecidableEq

end Scheduler

/-- `modules_[0]` to `modules_[moduleCount_ - 1]`; the rest of the array is not read. -/
structure Scheduler (μ : Type) where
  entries : List (Scheduler.ModuleEntry μ) := []
  stats : SchedulerStats := {}
  taktBudgetUs : UInt32 := 0
  taktPeriodMs : UInt32 := 1
  deriving DecidableEq

namespace Scheduler

variable {μ ω : Type}

def ModuleEntry.setState (e : ModuleEntry μ) (state : ModuleState) : ModuleEntry μ :=
  { e with stats := { e.stats with state } }

def registerModule (s : Scheduler μ) : Option μ → UInt16 × Scheduler μ
  | none => (kInvalidModuleId, s)
  | some module =>
    if s.entries.length ≥ kMaxModules then (kInvalidModuleId, s)
    else
      (UInt16.ofNat s.entries.length, { s with
        entries := s.entries ++
          [{ module, active := true, stats := { state := .registered } }] })

/-- The modules that `initAll` and `shutdownAll` go over. -/
def activeModules (s : Scheduler μ) : List μ :=
  (s.entries.filter ModuleEntry.active).map ModuleEntry.module

/-- `unregisterModule` for the entry `e`, which has that id. -/
def removeEntry (s : Scheduler μ) (id : Nat) (e : ModuleEntry μ) : Scheduler μ :=
  { s with entries := s.entries.set id { e.setState .shutdown with active := false } }

/--
The loop of `initAll`, from entry `id` on: its result, the entries, the world and the calls.

The state is `Initializing` while `init()` runs, which nothing looks at.
-/
def initLoop (m : IModule μ ω) : Nat → List (ModuleEntry μ) → ω →
    Bool × List (ModuleEntry μ) × ω × List (Call μ)
  | _, [], world => (true, [], world, [])
  | id, e :: es, world =>
    if !e.active then
      let (ok, es, world, calls) := initLoop m (id + 1) es world
      (ok, e :: es, world, calls)
    else
      let (done, world) := m.init e.module world
      let (ok, es, world, calls) := initLoop m (id + 1) es world
      (done && ok, e.setState (if done then .ready else .error) :: es, world,
        .init id e.module done :: calls)

/-- The loop of `shutdownAll`, from entry `id` on: the entries, the world and the calls. -/
def shutdownLoop (m : IModule μ ω) : Nat → List (ModuleEntry μ) → ω →
    List (ModuleEntry μ) × ω × List (Call μ)
  | _, [], world => ([], world, [])
  | id, e :: es, world =>
    if e.active then
      let (es, world, calls) := shutdownLoop m (id + 1) es (m.shutdown e.module world)
      (e.setState .shutdown :: es, world, .shutdown id e.module :: calls)
    else
      let (es, world, calls) := shutdownLoop m (id + 1) es world
      (e :: es, world, calls)

def shouldRunModule (m : IModule μ ω) (e : ModuleEntry μ) (world : ω) : Bool :=
  if !e.active then false
  else if e.stats.state ≠ .ready ∧ e.stats.state ≠ .running then false
  else if m.type e.module world = .background then m.hasWork e.module world
  else true

/-- What a turn of the loop of `runTakt` does with an entry that is not to run. -/
def skip (m : IModule μ ω) (e : ModuleEntry μ) (world : ω) : ModuleEntry μ :=
  if m.type e.module world = .background then
    { e with stats := { e.stats with skipCount := e.stats.skipCount + 1 } }
  else e

/-- What a turn of the loop of `runTakt` does with an entry whose `tick()` took `elapsed`. -/
def ticked (m : IModule μ ω) (e : ModuleEntry μ) (elapsed : UInt64) (world : ω) :
    ModuleEntry μ :=
  let budget := m.budgetUs e.module world
  { e with stats := { e.stats with
      tickCount := e.stats.tickCount + 1
      lastUs := elapsed
      totalUs := e.stats.totalUs + elapsed
      maxUs := if elapsed > e.stats.maxUs then elapsed else e.stats.maxUs
      overrunCount :=
        if budget > 0 ∧ elapsed > budget.toUInt64 then e.stats.overrunCount + 1
        else e.stats.overrunCount
      state := .ready } }

/-- The statistics of a takt that took `elapsed`. -/
def endTakt (s : Scheduler μ) (elapsed : UInt64) : Scheduler μ :=
  { s with stats := { s.stats with
      totalTakts := s.stats.totalTakts + 1
      lastTaktUs := elapsed
      totalTaktUs := s.stats.totalTaktUs + elapsed
      maxTaktUs := if elapsed > s.stats.maxTaktUs then elapsed else s.stats.maxTaktUs
      registeredModules := UInt32.ofNat s.entries.length
      overrunCount :=
        if s.taktBudgetUs > 0 ∧ elapsed > s.taktBudgetUs.toUInt64 then s.stats.overrunCount + 1
        else s.stats.overrunCount } }

/-! ## Calls in progress -/

/-- A call that has not returned. -/
inductive Frame where
  /-- `runTakt`, in `TimerManager::tick`. -/
  | timers (taktStart : UInt64)
  /-- `runTakt`, in `EventBus::dispatchQueued`. -/
  | events (taktStart : UInt64)
  /-- `runTakt`, about to look at entry `id`. -/
  | scanning (taktStart : UInt64) (id : Nat)
  /-- `runTakt`, in the `tick()` of entry `id`. -/
  | ticking (taktStart modStart : UInt64) (id : Nat)
  /-- `runTakt`, in the publish of the overrun. -/
  | overrun
  /-- `Kernel::requestShutdown`, in the publish of the shutdown. -/
  | requested
  deriving DecidableEq

/-- The scheduler, the world and the calls in progress, innermost first, with the calls made. -/
structure Sys (μ ω : Type) where
  sched : Scheduler μ := {}
  world : ω
  stack : List Frame := []
  log : List (Call μ) := []

/-- A call that a client can make. -/
inductive Op (μ : Type) where
  | registerModule (module : Option μ)
  | unregisterModule (id : UInt16)
  | initAll
  | runTakt
  | shutdownAll
  | requestShutdown
  | setTaktBudgetUs (budgetUs : UInt32)
  | setTaktPeriodMs (periodMs : UInt32)

/-- A step, with what a client made of the world before it and the clock where it is read. -/
inductive Act (μ ω : Type) where
  /-- A client calls: from outside, or from the call out of the scheduler that is innermost. -/
  | call (op : Op μ) (world : ω) (now : UInt64)
  /-- The innermost call out of the scheduler returns. -/
  | ret (world : ω) (now : UInt64)
  /-- The loop of `runTakt` takes its next turn. -/
  | advance (now : UInt64)

namespace Sys

/-- The loop of `runTakt` is not in control. -/
def clientActs (s : Sys μ ω) : Bool :=
  match s.stack with
  | .scanning .. :: _ => false
  | _ => true

/-- `shutdownAll`, with the stack that it returns to. -/
def shutdownAll (m : IModule μ ω) (s : Sys μ ω) (stack : List Frame) : Sys μ ω :=
  let (entries, world, calls) := shutdownLoop m 0 s.sched.entries s.world
  { sched := { s.sched with entries }
    world
    stack
    log := s.log ++ .shutdownAll s.sched.activeModules :: calls }

def call (m : IModule μ ω) (s : Sys μ ω) (now : UInt64) : Op μ → Sys μ ω
  | .registerModule module => { s with sched := (s.sched.registerModule module).2 }
  | .unregisterModule id =>
    match s.sched.entries[id.toNat]? with
    | none => s
    | some e =>
      { s with
        sched := s.sched.removeEntry id.toNat e
        world := m.shutdown e.module s.world
        log := s.log ++ [.unregisterModule e.module, .shutdown id.toNat e.module] }
  | .initAll =>
    let (_, entries, world, calls) := initLoop m 0 s.sched.entries s.world
    { s with
      sched := { s.sched with entries }
      world
      log := s.log ++ .initAll s.sched.activeModules :: calls }
  | .runTakt =>
    { s with
      stack := .timers now :: s.stack
      log := s.log ++ [.timers s.sched.taktPeriodMs] }
  | .shutdownAll => s.shutdownAll m s.stack
  | .requestShutdown => { s with stack := .requested :: s.stack, log := s.log ++ [.shutdownEvent] }
  | .setTaktBudgetUs taktBudgetUs => { s with sched := { s.sched with taktBudgetUs } }
  | .setTaktPeriodMs taktPeriodMs => { s with sched := { s.sched with taktPeriodMs } }

/-- The loop of `runTakt`, at entry `id`. -/
def scan (m : IModule μ ω) (s : Sys μ ω) (taktStart : UInt64) (id : Nat) (rest : List Frame)
    (now : UInt64) : Sys μ ω :=
  match s.sched.entries[id]? with
  | some e =>
    if shouldRunModule m e s.world then
      { s with
        sched := { s.sched with entries := s.sched.entries.set id (e.setState .running) }
        stack := .ticking taktStart now id :: rest
        log := s.log ++ [.tick id e.module] }
    else
      { s with
        sched := { s.sched with entries := s.sched.entries.set id (skip m e s.world) }
        stack := .scanning taktStart (id + 1) :: rest }
  | none =>
    let elapsed := now - taktStart
    let s : Sys μ ω := { s with sched := s.sched.endTakt elapsed }
    if s.sched.taktBudgetUs > 0 ∧ elapsed > s.sched.taktBudgetUs.toUInt64 then
      { s with
        stack := .overrun :: rest
        log := s.log ++ [.overrun elapsed.toUInt32 s.sched.taktBudgetUs] }
    else { s with stack := rest }

/-- What follows the innermost call out of the scheduler; `none` when there is none. -/
def ret (m : IModule μ ω) (s : Sys μ ω) (now : UInt64) : Option (Sys μ ω) :=
  match s.stack with
  | .timers taktStart :: rest =>
    some { s with stack := .events taktStart :: rest, log := s.log ++ [.events] }
  | .events taktStart :: rest => some { s with stack := .scanning taktStart 0 :: rest }
  | .ticking taktStart modStart id :: rest =>
    some { s with
      sched := { s.sched with
        entries := s.sched.entries.modify id fun e => ticked m e (now - modStart) s.world }
      stack := .scanning taktStart (id + 1) :: rest }
  | .overrun :: rest => some { s with stack := rest }
  -- the backup in between is the store's affair, as are the two flags of the kernel
  | .requested :: rest => some (s.shutdownAll m rest)
  | _ => none

/-- One step; `none` when it is not the turn of who would take it. -/
def step (m : IModule μ ω) (s : Sys μ ω) : Act μ ω → Option (Sys μ ω)
  | .call op world now =>
    if s.clientActs then some ({ s with world }.call m now op) else none
  | .ret world now => { s with world }.ret m now
  | .advance now =>
    match s.stack with
    | .scanning taktStart id :: rest => some (s.scan m taktStart id rest now)
    | _ => none

end Sys

end Scheduler

end TaktOS
