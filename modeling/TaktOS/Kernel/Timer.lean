import TaktOS.Lib.Run

/-!
# Timers

`Timer` of `timer.hpp` and `TimerManager` of `timer_manager.hpp`, both in `timer.cpp`. A timer
is at an address in `τ`, and its callback is a name in `κ`.

The manager holds addresses, so the timers that exist are a heap, and what a call does with an
address where there is no timer is undefined. A callback may call timers and the manager again
before it returns: the loop of `TimerManager::tick` is on a stack of calls in progress.
-/

namespace TaktOS

/-- `callback_` is none when the function is empty. -/
structure Timer (κ : Type) where
  handle : UInt16 := 0xFFFF
  intervalMs : UInt32 := 0
  elapsedMs : UInt32 := 0
  active : Bool := false
  repeat_ : Bool := false
  callback : Option κ := none
  deriving DecidableEq

/-- `start()`, `stop()` and `reset()`. -/
inductive Control where
  | start
  | stop
  | reset
  deriving DecidableEq, Repr

namespace Timer

variable {κ : Type}

def setHandle (t : Timer κ) (handle : UInt16) : Timer κ := { t with handle }

def start (t : Timer κ) : Timer κ := { t with elapsedMs := 0, active := true }

def stop (t : Timer κ) : Timer κ := { t with active := false }

def reset (t : Timer κ) : Timer κ := { t with elapsedMs := 0 }

def control (t : Timer κ) : Control → Timer κ
  | .start => t.start
  | .stop => t.stop
  | .reset => t.reset

/-- `tick` up to the callback, and whether the callback is due. -/
def tick (t : Timer κ) (deltaMs : UInt32) : Timer κ × Bool :=
  if !t.active then (t, false)
  else
    let t := { t with elapsedMs := t.elapsedMs + deltaMs }
    (t, t.elapsedMs ≥ t.intervalMs)

/-- `tick` from the callback on. -/
def rearm (t : Timer κ) : Timer κ :=
  if t.repeat_ then { t with elapsedMs := 0 } else { t with active := false }

/-- A call that a callback can make on its own timer. -/
inductive OwnCall where
  | control (o : Control)
  | setInterval (intervalMs : UInt32)
  | setRepeat (repeat_ : Bool)
  deriving DecidableEq, Repr

def apply (t : Timer κ) : OwnCall → Timer κ
  | .control o => t.control o
  | .setInterval intervalMs => { t with intervalMs }
  | .setRepeat repeat_ => { t with repeat_ }

/-- All of `tick`, with a callback that makes the calls. -/
def tickCalling (t : Timer κ) (deltaMs : UInt32) (calls : List OwnCall) : Timer κ :=
  let (t, due) := t.tick deltaMs
  if !due then t
  else
    match t.callback with
    | some _ => (calls.foldl apply t).rearm
    | none => t.rearm

end Timer

def kMaxTimers : Nat := 32

/-- `timers_` and `activeCount_`. -/
structure TimerManager (τ : Type) where
  timers : Fin kMaxTimers → Option τ := fun _ => none
  activeCount : Nat := 0

namespace TimerManager

variable {τ κ : Type}

/-- `timers_[i]`, for an index in the array. -/
def slot (m : TimerManager τ) (i : Nat) : Option τ :=
  if h : i < kMaxTimers then m.timers ⟨i, h⟩ else none

def setSlot (m : TimerManager τ) (i : Nat) (t : Option τ) : TimerManager τ :=
  { m with timers := fun j => if j.val = i then t else m.timers j }

/-- The slot that the loop of `registerTimer` stops at. -/
def firstNull (m : TimerManager τ) : Option (Fin kMaxTimers) :=
  (List.finRange kMaxTimers).find? fun i => (m.timers i).isNone

/-- The timers there are, by address. -/
abbrev Heap (τ κ : Type) : Type := τ → Option (Timer κ)

variable [DecidableEq τ]

def Heap.set (heap : Heap τ κ) (t : τ) (timer : Option (Timer κ)) : Heap τ κ :=
  fun u => if u = t then timer else heap u

/-- What the manager and the heap are after a registration of `timer`, at `t`. -/
def registerTimer (m : TimerManager τ) (heap : Heap τ κ) (t : τ) (timer : Timer κ) :
    TimerManager τ × Heap τ κ :=
  if m.activeCount ≥ kMaxTimers then (m, heap)
  else
    match m.firstNull with
    | none => (m, heap)
    | some i =>
      ({ m.setSlot i.val (some t) with activeCount := m.activeCount + 1 },
        heap.set t (some (timer.setHandle (UInt16.ofNat i.val))))

def unregisterTimer (m : TimerManager τ) (heap : Heap τ κ) (t : τ) (timer : Timer κ) :
    TimerManager τ × Heap τ κ :=
  let h := timer.handle.toNat
  if h < kMaxTimers ∧ m.slot h = some t then
    ({ m.setSlot h none with activeCount := m.activeCount - 1 },
      heap.set t (some (timer.setHandle 0xFFFF)))
  else (m, heap)

/-! ## Calls in progress -/

/-- A call of `TimerManager::tick` that has not returned: its number, its `deltaMs` and the slot
the loop is at. -/
inductive Frame (τ : Type) where
  /-- About to look at the slot. -/
  | scanning (c : Nat) (deltaMs : UInt32) (i : Nat)
  /-- In the callback of the timer in the slot, which has fired `n` times before. -/
  | calling (c : Nat) (deltaMs : UInt32) (i : Nat) (t : τ) (n : Nat)
  deriving DecidableEq

/-- What happens, in its order. -/
inductive Entry (τ : Type) where
  /-- `TimerManager::tick` is called. -/
  | tick (deltaMs : UInt32)
  /-- In tick call `c` the timer is ticked. -/
  | advanced (c : Nat) (t : τ)
  /-- It has reached its interval, and its callback, if there is one, is called. -/
  | fired (c : Nat) (t : τ)
  /-- A client controls a timer, from a callback with the number of its firing or from outside. -/
  | control (caller : Option (τ × Nat)) (o : Control) (t : τ)
  deriving DecidableEq

/-- The manager and the timers, with the calls in progress, innermost first. -/
structure Sys (τ κ : Type) where
  manager : TimerManager τ := {}
  heap : Heap τ κ := fun _ => none
  stack : List (Frame τ) := []
  ticks : Nat := 0
  log : List (Entry τ) := []

/-- A call that a client can make. A move leaves the source a callback that is not specified. -/
inductive Op (τ κ : Type) where
  | construct (t : τ) (intervalMs : UInt32) (repeat_ : Bool)
  | destroy (t : τ)
  | moveConstruct (dst src : τ) (left : Option κ)
  | moveAssign (dst src : τ) (left : Option κ)
  | setInterval (t : τ) (intervalMs : UInt32)
  | setRepeat (t : τ) (repeat_ : Bool)
  | onTimeout (t : τ) (callback : Option κ)
  | control (o : Control) (t : τ)
  | tick (deltaMs : UInt32)

inductive Act (τ κ : Type) where
  /-- A client calls: from outside, or from the innermost callback. -/
  | call (op : Op τ κ)
  /-- The innermost callback returns. -/
  | ret
  /-- The loop of `TimerManager::tick` takes its next turn. -/
  | advance

/-- The tick calls in which the timer fired. -/
def firings (t : τ) (log : List (Entry τ)) : List Nat :=
  log.filterMap fun
    | .fired c u => if u = t then some c else none
    | _ => none

/-- The callback in control, with the number of its firing. -/
def caller : List (Frame τ) → Option (τ × Nat)
  | .calling _ _ _ t n :: _ => some (t, n)
  | _ => none

namespace Sys

/-- The loop of `TimerManager::tick` is not in control. -/
def clientActs (s : Sys τ κ) : Bool :=
  match s.stack with
  | .scanning .. :: _ => false
  | _ => true

/-- Change a timer; undefined when it does not exist. -/
def update (s : Sys τ κ) (t : τ) (f : Timer κ → Timer κ) : Option (Sys τ κ) :=
  match s.heap t with
  | none => none
  | some timer => some { s with heap := s.heap.set t (some (f timer)) }

/-- The members of the source of a move, with the handle taken. -/
def moved (src : Timer κ) (left : Option κ) : Timer κ :=
  { src with handle := 0xFFFF, callback := left }

def call (s : Sys τ κ) : Op τ κ → Option (Sys τ κ)
  | .construct t intervalMs repeat_ =>
    match s.heap t with
    | none => some { s with heap := s.heap.set t (some { intervalMs, repeat_ }) }
    | some _ => none
  | .destroy t =>
    match s.heap t with
    | none => none
    | some timer =>
      let (manager, heap) := s.manager.unregisterTimer s.heap t timer
      some { s with manager, heap := heap.set t none }
  | .moveConstruct dst src left =>
    match s.heap dst, s.heap src with
    | none, some other =>
      some { s with heap := (s.heap.set dst (some other)).set src (some (moved other left)) }
    | _, _ => none
  | .moveAssign dst src left =>
    match s.heap dst, s.heap src with
    | some timer, some other =>
      if dst = src then some s
      else
        let (manager, heap) := s.manager.unregisterTimer s.heap dst timer
        some { s with
          manager
          heap := (heap.set dst (some other)).set src (some (moved other left)) }
    | _, _ => none
  | .setInterval t intervalMs => s.update t fun timer => { timer with intervalMs }
  | .setRepeat t repeat_ => s.update t fun timer => { timer with repeat_ }
  | .onTimeout t callback =>
    match s.heap t with
    | none => none
    | some timer =>
      let timer := { timer with callback }
      let (manager, heap) :=
        s.manager.registerTimer (s.heap.set t (some timer)) t timer
      some { s with manager, heap }
  | .control o t =>
    (s.update t fun timer => timer.control o).map fun s =>
      { s with log := s.log ++ [.control (caller s.stack) o t] }
  | .tick deltaMs =>
    some { s with
      stack := .scanning s.ticks deltaMs 0 :: s.stack
      ticks := s.ticks + 1
      log := s.log ++ [.tick deltaMs] }

/-- The loop of tick call `c`, at slot `i`. -/
def scan (s : Sys τ κ) (c : Nat) (deltaMs : UInt32) (i : Nat) (rest : List (Frame τ)) :
    Option (Sys τ κ) :=
  if i < kMaxTimers then
    match s.manager.slot i with
    | none => some { s with stack := .scanning c deltaMs (i + 1) :: rest }
    | some t =>
      match s.heap t with
      -- the slot refers to a timer that is gone
      | none => none
      | some timer =>
        let (timer, due) := timer.tick deltaMs
        if !due then
          some { s with
            heap := s.heap.set t (some timer)
            stack := .scanning c deltaMs (i + 1) :: rest
            log := s.log ++ [.advanced c t] }
        else
          match timer.callback with
          | some _ =>
            some { s with
              heap := s.heap.set t (some timer)
              stack := .calling c deltaMs i t (firings t s.log).length :: rest
              log := s.log ++ [.advanced c t, .fired c t] }
          | none =>
            some { s with
              heap := s.heap.set t (some timer.rearm)
              stack := .scanning c deltaMs (i + 1) :: rest
              log := s.log ++ [.advanced c t, .fired c t] }
  else some { s with stack := rest }

/-- What follows a callback; undefined when its timer was destroyed meanwhile. -/
def ret (s : Sys τ κ) : Option (Sys τ κ) :=
  match s.stack with
  | .calling c deltaMs i t _ :: rest =>
    match s.heap t with
    | none => none
    | some timer =>
      some { s with
        heap := s.heap.set t (some timer.rearm)
        stack := .scanning c deltaMs (i + 1) :: rest }
  | _ => none

/-- One step; `none` when it is undefined or not the turn of who would take it. -/
def step (s : Sys τ κ) : Act τ κ → Option (Sys τ κ)
  | .call op => if s.clientActs then s.call op else none
  | .ret => s.ret
  | .advance =>
    match s.stack with
    | .scanning c deltaMs i :: rest => s.scan c deltaMs i rest
    | _ => none

end Sys

end TimerManager

end TaktOS
