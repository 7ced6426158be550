import TaktOS.Lib.Ring
import TaktOS.Lib.Run

/-!
# The event bus

`EventBus` of `event_bus.hpp` and `event_bus.cpp`. A callback is an address in `κ` and the
user data a pointer in `υ`; either may be null.

The two loops of the bus call out to callbacks, which may call the bus again before they
return, so the bus is a machine with the calls in progress on a stack. Whoever may act in a
state, a client or the bus's own loop, does one thing at a step; what a callback does is not
fixed in any way.
-/

namespace TaktOS

open Lib

/-- `enum class Event : uint32_t`, which applications extend from `0x1000` on. -/
abbrev EventBus.Event := UInt32

def EventBus.Event.None : EventBus.Event := 0

/-- Lightweight event payload. -/
structure EventData where
  id : EventBus.Event := EventBus.Event.None
  param1 : UInt32 := 0
  param2 : UInt32 := 0
  blob : Vector UInt8 8 := Vector.replicate 8 0
  deriving DecidableEq

abbrev kMaxEventSubscribers : Nat := 32
abbrev kEventQueueDepth : Nat := 64

/-- An index into `subscriptions_`. -/
abbrev Slot := Fin kMaxEventSubscribers

namespace EventBus

structure Subscription (κ υ : Type) where
  event : Event := Event.None
  callback : Option κ := none
  userData : Option υ := none
  active : Bool := false
  deriving DecidableEq

end EventBus

/-- The subscription table and the circular queue; both indices stay inside the queue. -/
structure EventBus (κ υ : Type) where
  subscriptions : Vector (EventBus.Subscription κ υ) kMaxEventSubscribers :=
    Vector.replicate _ {}
  subscriberCount : Nat := 0
  queue : Vector EventData kEventQueueDepth := Vector.replicate _ {}
  queueHead : Nat := 0
  queueTail : Nat := 0
  queueCount : Nat := 0
  head_lt : queueHead < kEventQueueDepth := by decide
  tail_lt : queueTail < kEventQueueDepth := by decide

namespace EventBus

variable {κ υ : Type}

def subscription (bus : EventBus κ υ) (i : Slot) : Subscription κ υ := bus.subscriptions[i]

/-- Where the loop of `subscribe` stops: the lowest slot that is not active. -/
def freeSlot (bus : EventBus κ υ) : Option Slot :=
  (List.finRange kMaxEventSubscribers).find? fun i => !(bus.subscription i).active

def fillSlot (bus : EventBus κ υ) (i : Slot) (s : Subscription κ υ) : EventBus κ υ :=
  { bus with
    subscriptions := bus.subscriptions.set i s
    subscriberCount := bus.subscriberCount + 1 }

/-- The handle is the slot; -1 when there is none. -/
def subscribe (bus : EventBus κ υ) (event : Event) (callback : Option κ) (userData : Option υ) :
    Int × EventBus κ υ :=
  if bus.subscriberCount ≥ kMaxEventSubscribers then (-1, bus)
  else
    match bus.freeSlot with
    | some i => ((i.val : Int), bus.fillSlot i { event, callback, userData, active := true })
    | none => (-1, bus)

/-- The slot a handle stands for, if it is in range. -/
def slotOf (handle : Int) : Option Slot :=
  if h : handle < 0 ∨ handle ≥ kMaxEventSubscribers then none
  else some ⟨handle.toNat, by omega⟩

/-- An active slot has been counted, so the count does not go below zero. -/
def clearSlot (bus : EventBus κ υ) (i : Slot) : EventBus κ υ :=
  { bus with
    subscriptions := bus.subscriptions.set i { bus.subscription i with active := false }
    subscriberCount := bus.subscriberCount - 1 }

def unsubscribe (bus : EventBus κ υ) (handle : Int) : EventBus κ υ :=
  match slotOf handle with
  | none => bus
  | some i => if (bus.subscription i).active then bus.clearSlot i else bus

def enqueue (bus : EventBus κ υ) (data : EventData) : Bool × EventBus κ υ :=
  if bus.queueCount ≥ kEventQueueDepth then (false, bus)
  else
    (true, { bus with
      queue := bus.queue.set bus.queueTail data bus.tail_lt
      queueTail := (bus.queueTail + 1) % kEventQueueDepth
      tail_lt := Nat.mod_lt _ (by decide)
      queueCount := bus.queueCount + 1 })

/-- What one turn of the loop of `dispatchQueued` does before it dispatches. -/
def dequeue (bus : EventBus κ υ) : EventData × EventBus κ υ :=
  (bus.queue[Fin.mk bus.queueHead bus.head_lt], { bus with
    queueHead := (bus.queueHead + 1) % kEventQueueDepth
    head_lt := Nat.mod_lt _ (by decide)
    queueCount := bus.queueCount - 1 })

/-! ## Calls in progress -/

/-- A call of the bus that has not returned. A call of `dispatch` carries its number. -/
inductive Frame where
  /-- `dispatchQueued`, about to test `queueCount_ > 0`. -/
  | draining
  /-- `dispatch`, about to test slot `i`. -/
  | scanning (call : Nat) (data : EventData) (i : Nat)
  /-- `dispatch`, in the callback of slot `i`. -/
  | running (call : Nat) (data : EventData) (i : Nat)
  deriving DecidableEq

/--
What has happened, in order. The place of an entry in the log is the number of the
subscription it makes or of the call of `dispatch` it begins.
-/
inductive Entry (κ υ : Type) where
  | subscribed (slot : Slot) (sub : Subscription κ υ)
  | removed (slot : Slot)
  /-- `enqueue` returned true. -/
  | accepted (data : EventData)
  /-- `dispatch(data)` begins; `queued` when `dispatchQueued` calls it. -/
  | dispatched (data : EventData) (queued : Bool)
  /-- The callback in a slot is called, for the subscription numbered `sub`. -/
  | invoked (call : Nat) (slot : Slot) (sub : Nat) (callback : κ) (userData : Option υ)
  /-- The loop of `dispatch` goes past a slot without a call. -/
  | passed (call : Nat) (slot : Slot)
  /-- `dispatch` returns. -/
  | finished (call : Nat)
  deriving DecidableEq

/--
The bus at a moment of a run: the calls in progress, innermost first, and beside the code's
own state the number of the subscription last made in each slot and the log.
-/
structure Exec (κ υ : Type) where
  bus : EventBus κ υ := {}
  stack : List Frame := []
  owner : Slot → Nat := fun _ => 0
  log : List (Entry κ υ) := []

/-- A call a client can make. -/
inductive Op (κ υ : Type) where
  | subscribe (event : Event) (callback : Option κ) (userData : Option υ)
  | unsubscribe (handle : Int)
  | publish (data : EventData)
  | enqueue (data : EventData)
  | dispatchQueued

inductive Act (κ υ : Type) where
  /-- A client calls the bus: from outside, or from the callback that is running. -/
  | call (op : Op κ υ)
  /-- The running callback returns. -/
  | ret
  /-- The loop of the innermost call makes its next test. -/
  | advance

namespace Exec

/-- No loop of the bus is in control. -/
def clientActs (e : Exec κ υ) : Bool :=
  match e.stack with
  | [] | .running .. :: _ => true
  | _ => false

/-- Begin a call of `dispatch`, on top of the frames in `rest`. -/
def dispatch (e : Exec κ υ) (data : EventData) (queued : Bool) (rest : List Frame) : Exec κ υ :=
  { e with
    stack := .scanning e.log.length data 0 :: rest
    log := e.log ++ [.dispatched data queued] }

def call (e : Exec κ υ) : Op κ υ → Exec κ υ
  | .subscribe event callback userData =>
    let (handle, bus) := e.bus.subscribe event callback userData
    match slotOf handle with
    | none => { e with bus }
    | some i =>
      { e with
        bus
        owner := fun j => if j = i then e.log.length else e.owner j
        log := e.log ++ [.subscribed i (bus.subscription i)] }
  | .unsubscribe handle =>
    let bus := e.bus.unsubscribe handle
    match slotOf handle with
    | none => { e with bus }
    | some i =>
      if (e.bus.subscription i).active then { e with bus, log := e.log ++ [.removed i] }
      else { e with bus }
  | .publish data => e.dispatch data false e.stack
  | .enqueue data =>
    match e.bus.enqueue data with
    | (true, bus) => { e with bus, log := e.log ++ [.accepted data] }
    | (false, bus) => { e with bus }
  | .dispatchQueued => { e with stack := .draining :: e.stack }

/-- The loop of `dispatchQueued`, once. -/
def drain (e : Exec κ υ) (rest : List Frame) : Exec κ υ :=
  if e.bus.queueCount > 0 then
    let (data, bus) := e.bus.dequeue
    { e with bus }.dispatch data true (.draining :: rest)
  else { e with stack := rest }

/-- The loop of `dispatch`, once. -/
def scan (e : Exec κ υ) (call : Nat) (data : EventData) (i : Nat) (rest : List Frame) :
    Exec κ υ :=
  if h : i < kMaxEventSubscribers then
    let s := e.bus.subscription ⟨i, h⟩
    match s.active && s.event == data.id, s.callback with
    | true, some callback =>
      { e with
        stack := .running call data i :: rest
        log := e.log ++ [.invoked call ⟨i, h⟩ (e.owner ⟨i, h⟩) callback s.userData] }
    | _, _ =>
      { e with
        stack := .scanning call data (i + 1) :: rest
        log := e.log ++ [.passed call ⟨i, h⟩] }
  else { e with stack := rest, log := e.log ++ [.finished call] }

/-- One step; `none` when it is not the turn of who would take it. -/
def step (e : Exec κ υ) : Act κ υ → Option (Exec κ υ)
  | .call op => if e.clientActs then some (e.call op) else none
  | .ret =>
    match e.stack with
    | .running call data i :: rest => some { e with stack := .scanning call data (i + 1) :: rest }
    | _ => none
  | .advance =>
    match e.stack with
    | .draining :: rest => some (e.drain rest)
    | .scanning call data i :: rest => some (e.scan call data i rest)
    | _ => none

end Exec

end EventBus

end TaktOS
