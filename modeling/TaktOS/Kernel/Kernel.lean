import TaktOS.Kernel.EventBus
import TaktOS.Kernel.Scheduler
import TaktOS.Kernel.Timer
import TaktOS.Lib.Weave

/-!
# The kernel

`Kernel` of `kernel.hpp` and `kernel.cpp`, with the scheduler it owns and the two singletons that
both call, the event bus and the timer manager. Each of the three is the machine it is by itself.
Here the calls that one of them makes of another are made, and the client code that runs inside
any of them, in a `tick()`, an event callback or a timer callback, may call all of them.

The frames on the processor's stack are spread over the stacks of the parts, and `control` tells
which part each is of, innermost first. What the kernel does with NVS is the store's affair.
-/

namespace TaktOS

namespace EventBus

def Event.SystemBoot : Event := 0x0001
def Event.SystemReady : Event := 0x0002
def Event.SystemShutdown : Event := 0x0003
def Event.TaktOverrun : Event := 0x0004

end EventBus

namespace Kernel

open Lib

inductive Part where
  | kernel
  | scheduler
  | bus
  | timers
  deriving DecidableEq, Repr

/-- A call of the kernel that has not returned. -/
inductive Frame where
  /-- `boot`, in the publish of `SystemBoot`. -/
  | booting
  /-- `boot`, in the publish of `SystemReady`. -/
  | announcing
  /-- `run`, in the endless loop of `Scheduler::run`. -/
  | looping
  deriving DecidableEq, Repr

structure Sys (μ ω κ υ τ ξ : Type) where
  sched : Scheduler.Sys μ ω
  bus : EventBus.Exec κ υ := {}
  timers : TimerManager.Sys τ ξ := {}
  running : Bool := false
  shutdown : Bool := false
  stack : List Frame := []
  control : List Part := []

/-- A call that a client can make. `requestShutdown` is among those on the scheduler. -/
inductive Op (μ κ υ τ ξ : Type) where
  | boot
  | run
  | scheduler (op : Scheduler.Op μ)
  | bus (op : EventBus.Op κ υ)
  | timers (op : TimerManager.Op τ ξ)

/-- A step, with the world and the clock where the scheduler looks at them. -/
inductive Act (μ ω κ υ τ ξ : Type) where
  /-- A client calls: from outside, or from the client code that is innermost. -/
  | call (op : Op μ κ υ τ ξ) (world : ω) (now : UInt64)
  /-- The client code that is innermost returns. -/
  | ret (world : ω) (now : UInt64)
  /-- The part that is in control goes on. -/
  | advance (world : ω) (now : UInt64)

namespace Sys

variable {μ ω κ υ τ ξ : Type} [DecidableEq τ]

/-- The innermost frame is of client code. -/
def clientActs (s : Sys μ ω κ υ τ ξ) : Bool :=
  match s.control with
  | [] => true
  | .kernel :: _ => false
  | .scheduler :: _ =>
    match s.sched.stack with
    | .ticking .. :: _ => true
    | _ => false
  | .bus :: _ => s.bus.clientActs
  | .timers :: _ => s.timers.clientActs

def stepBus (s : Sys μ ω κ υ τ ξ) (a : EventBus.Act κ υ) : Option (Sys μ ω κ υ τ ξ) :=
  (s.bus.step a).map fun bus =>
    { s with bus, control := resize .bus s.bus.stack.length bus.stack.length s.control }

def stepTimers (s : Sys μ ω κ υ τ ξ) (a : TimerManager.Act τ ξ) : Option (Sys μ ω κ υ τ ξ) :=
  (s.timers.step a).map fun timers =>
    { s with
      timers
      control := resize .timers s.timers.stack.length timers.stack.length s.control }

def publish (s : Sys μ ω κ υ τ ξ) (id : EventBus.Event) (param1 param2 : UInt32) :
    Option (Sys μ ω κ υ τ ξ) :=
  s.stepBus (.call (.publish { id, param1, param2 }))

/-- The call out of the scheduler that its step ended in, if it did in one. -/
def callee (before after : Scheduler.Sys μ ω) : Option (Scheduler.Call μ) :=
  (after.log.drop before.log.length).getLast?

/-- That call is made. -/
def follow (s : Sys μ ω κ υ τ ξ) : Option (Scheduler.Call μ) → Option (Sys μ ω κ υ τ ξ)
  | some (.timers periodMs) => s.stepTimers (.call (.tick periodMs))
  | some .events => s.stepBus (.call .dispatchQueued)
  | some (.overrun elapsedUs budgetUs) => s.publish .TaktOverrun elapsedUs budgetUs
  | some .shutdownEvent => s.publish .SystemShutdown 0 0
  | _ => some s

def stepSched (m : IModule μ ω) (s : Sys μ ω κ υ τ ξ) (a : Scheduler.Act μ ω) :
    Option (Sys μ ω κ υ τ ξ) :=
  match s.sched.step m a with
  | none => none
  | some sched =>
    { s with
      sched
      control :=
        resize .scheduler s.sched.stack.length sched.stack.length s.control }.follow
      (callee s.sched sched)

def push (s : Sys μ ω κ υ τ ξ) (f : Frame) : Sys μ ω κ υ τ ξ :=
  { s with stack := f :: s.stack, control := .kernel :: s.control }

def call (m : IModule μ ω) (s : Sys μ ω κ υ τ ξ) (world : ω) (now : UInt64) :
    Op μ κ υ τ ξ → Option (Sys μ ω κ υ τ ξ)
  | .boot => (s.push .booting).publish .SystemBoot 0 0
  -- refused unless booted
  | .run => some (if s.running then s.push .looping else s)
  | .scheduler .requestShutdown =>
    { s with shutdown := true }.stepSched m (.call .requestShutdown world now)
  | .scheduler op => s.stepSched m (.call op world now)
  | .bus op => s.stepBus (.call op)
  | .timers op => s.stepTimers (.call op)

/-- What `initAll` returns. -/
def initAllOk (m : IModule μ ω) (s : Sys μ ω κ υ τ ξ) (world : ω) : Bool :=
  (Scheduler.initLoop m 0 s.sched.sched.entries world).1

/-- The kernel goes on after a call it made. -/
def advanceKernel (m : IModule μ ω) (s : Sys μ ω κ υ τ ξ) (world : ω) (now : UInt64) :
    Option (Sys μ ω κ υ τ ξ) :=
  match s.stack with
  | [] => none
  | .booting :: rest =>
    match s.stepSched m (.call .initAll world now) with
    | none => none
    | some s' =>
      if s.initAllOk m world then
        { s' with stack := .announcing :: rest }.publish .SystemReady 0 0
      else some { s' with stack := rest, control := s'.control.tail }
  | .announcing :: rest =>
    some { s with running := true, stack := rest, control := s.control.tail }
  | .looping :: _ => s.stepSched m (.call .runTakt world now)

/-- The scheduler goes on: its loop takes a turn, or a call it made has returned. -/
def advanceSched (m : IModule μ ω) (s : Sys μ ω κ υ τ ξ) (world : ω) (now : UInt64) :
    Option (Sys μ ω κ υ τ ξ) :=
  match s.sched.stack with
  | .scanning .. :: _ => s.stepSched m (.advance now)
  | .requested :: _ => (s.stepSched m (.ret world now)).map fun s => { s with running := false }
  | _ => s.stepSched m (.ret world now)

/-- One step; `none` when it is undefined or not the turn of who would take it. -/
def step (m : IModule μ ω) (s : Sys μ ω κ υ τ ξ) :
    Act μ ω κ υ τ ξ → Option (Sys μ ω κ υ τ ξ)
  | .call op world now => if s.clientActs then s.call m world now op else none
  | .ret world now =>
    if s.clientActs then
      match s.control with
      | .scheduler :: _ => s.stepSched m (.ret world now)
      | .bus :: _ => s.stepBus .ret
      | .timers :: _ => s.stepTimers .ret
      | _ => none
    else none
  | .advance world now =>
    if s.clientActs then none
    else
      match s.control with
      | .kernel :: _ => s.advanceKernel m world now
      | .scheduler :: _ => s.advanceSched m world now
      | .bus :: _ => s.stepBus .advance
      | .timers :: _ => s.stepTimers .advance
      | [] => none

end Sys

end Kernel

end TaktOS
