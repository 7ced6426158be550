import TaktOS.Proof.EventSteps

/-!
# The event queue is first-in-first-out

The queue's invariant has the three counters agree (`Lib.Ring.Placed`) and everything
accepted so far be what was dispatched followed by what the queue holds.

A callback may enqueue between the removal of an event and its delivery to the next slot.
That is a step like any other, so nothing about reentrancy is left to argue.
-/

namespace TaktOS.Proof

open TaktOS EventBus Lib

variable {κ υ : Type}

/-- What waits in the queue: `queueCount_` slots from `queueHead_` on. -/
def pending (bus : EventBus κ υ) : List EventData :=
  Ring.contents bus.queue bus.queueHead bus.queueCount

/-- The three counters of the queue agree. -/
def QueuePlaced (bus : EventBus κ υ) : Prop :=
  Ring.Placed kEventQueueDepth bus.queueHead bus.queueTail bus.queueCount

/-- The event whose `enqueue` the entry records as accepted. -/
def acceptedEntry : Entry κ υ → Option EventData
  | .accepted data => some data
  | _ => none

/-- The event that the entry records as taken from the queue and dispatched. -/
def dequeuedEntry : Entry κ υ → Option EventData
  | .dispatched data true => some data
  | _ => none

/-- The events whose `enqueue` returned true, in that order. -/
def acceptedEvents (log : List (Entry κ υ)) : List EventData := log.filterMap acceptedEntry

/-- The events dispatched from the queue, in that order. -/
def dispatchedEvents (log : List (Entry κ υ)) : List EventData := log.filterMap dequeuedEntry

theorem enqueue_full {bus : EventBus κ υ} (data : EventData)
    (h : kEventQueueDepth ≤ bus.queueCount) : bus.enqueue data = (false, bus) := by
  rw [enqueue, if_pos h]

theorem enqueue_room {bus : EventBus κ υ} (data : EventData) (hp : QueuePlaced bus)
    (h : bus.queueCount < kEventQueueDepth) :
    (bus.enqueue data).1 = true ∧ QueuePlaced (bus.enqueue data).2 ∧
      pending (bus.enqueue data).2 = pending bus ++ [data] := by
  rw [enqueue, if_neg (by omega)]
  exact ⟨rfl, hp.push h, Ring.contents_push data hp h bus.tail_lt⟩

theorem enqueue_true {bus bus' : EventBus κ υ} {data : EventData}
    (h : bus.enqueue data = (true, bus')) : bus.queueCount < kEventQueueDepth := by
  rcases Nat.lt_or_ge bus.queueCount kEventQueueDepth with hn | hn
  · exact hn
  · rw [enqueue_full data hn] at h
    exact absurd (Prod.mk.inj h).1 (by decide)

theorem dequeue_spec {bus : EventBus κ υ} (hp : QueuePlaced bus) (h : 0 < bus.queueCount) :
    QueuePlaced bus.dequeue.2 ∧ pending bus = bus.dequeue.1 :: pending bus.dequeue.2 := by
  obtain ⟨n, hn⟩ : ∃ n, bus.queueCount = n + 1 := ⟨bus.queueCount - 1, by omega⟩
  have hn' : bus.queueCount - 1 = n := by omega
  have hp' : Ring.Placed kEventQueueDepth bus.queueHead bus.queueTail (n + 1) := hn ▸ hp
  constructor
  · rw [QueuePlaced, dequeue]
    exact hn' ▸ hp'.pop
  · rw [pending, pending, dequeue, hn, Ring.contents_pop bus.queue bus.head_lt]
    rfl

/-! ## Over a run -/

/-- The queue in a state of a run, against what the log says has gone through it. -/
structure QueueLaw (e : Exec κ υ) : Prop where
  placed : QueuePlaced e.bus
  fifo : acceptedEvents e.log = dispatchedEvents e.log ++ pending e.bus

theorem acceptedEvents_append (log : List (Entry κ υ)) (x : Entry κ υ) :
    acceptedEvents (log ++ [x]) = acceptedEvents log ++ (acceptedEntry x).toList := by
  cases h : acceptedEntry x <;> simp [acceptedEvents, h]

theorem dispatchedEvents_append (log : List (Entry κ υ)) (x : Entry κ υ) :
    dispatchedEvents (log ++ [x]) = dispatchedEvents log ++ (dequeuedEntry x).toList := by
  cases h : dequeuedEntry x <;> simp [dispatchedEvents, h]

/-- A step that leaves the queue alone and logs nothing about it keeps the law. -/
theorem QueueLaw.frame {e e' : Exec κ υ} (h : QueueLaw e) (x : Entry κ υ)
    (hp : QueuePlaced e.bus → QueuePlaced e'.bus) (hb : pending e'.bus = pending e.bus)
    (hl : e'.log = e.log ++ [x]) (ha : acceptedEntry x = none) (hd : dequeuedEntry x = none) :
    QueueLaw e' := by
  refine ⟨hp h.placed, ?_⟩
  rw [hl, hb, acceptedEvents_append, dispatchedEvents_append, ha, hd]
  simpa using h.fifo

theorem effect_queueLaw {e e' : Exec κ υ} {a : Act κ υ} (h : Effect e a e') (hq : QueueLaw e) :
    QueueLaw e' := by
  cases h with
  | idle => exact hq
  | subscribed op hc i s hi hs => exact hq.frame _ id rfl rfl rfl rfl
  | removed op hc i hi => exact hq.frame _ id rfl rfl rfl rfl
  | published op hc data => exact hq.frame _ id rfl rfl rfl rfl
  | accepted op hc data bus he =>
    obtain ⟨-, hp, hpend⟩ := enqueue_room data hq.placed (enqueue_true he)
    rw [he] at hp hpend
    refine ⟨hp, ?_⟩
    rw [acceptedEvents_append, dispatchedEvents_append, hpend, hq.fifo]
    simp [acceptedEntry, dequeuedEntry]
  | draining => exact ⟨hq.placed, hq.fifo⟩
  | returned => exact ⟨hq.placed, hq.fifo⟩
  | dequeued rest hs hn =>
    obtain ⟨hp, hpend⟩ := dequeue_spec hq.placed hn
    refine ⟨hp, ?_⟩
    rw [Exec.dispatch, acceptedEvents_append, dispatchedEvents_append, hq.fifo, hpend]
    simp [acceptedEntry, dequeuedEntry]
  | drained => exact ⟨hq.placed, hq.fifo⟩
  | invoked call data i rest hs callback => exact hq.frame _ id rfl rfl rfl rfl
  | passed call data i rest hs => exact hq.frame _ id rfl rfl rfl rfl
  | finished call data i rest hs => exact hq.frame _ id rfl rfl rfl rfl

theorem fresh_queueLaw : QueueLaw ({} : Exec κ υ) :=
  ⟨Ring.placed_empty (EventBus.head_lt {}), rfl⟩

/-- **The queue law holds in every state of every run.** -/
theorem run_queueLaw {e e' : Exec κ υ} {acts : List (Act κ υ)} (hq : QueueLaw e)
    (h : run Exec.step e acts = some e') : QueueLaw e' :=
  run_preserves QueueLaw (fun _ _ _ hi hs => effect_queueLaw (step_effect hs) hi) hq h

/-- **Events leave the queue in the order they were accepted, none lost and none twice.** -/
theorem queue_fifo {acts : List (Act κ υ)} {e : Exec κ υ} (h : run Exec.step {} acts = some e) :
    dispatchedEvents e.log <+: acceptedEvents e.log ∧
      acceptedEvents e.log = dispatchedEvents e.log ++ pending e.bus ∧
      ∀ data, ((e.bus.enqueue data).1 = false ↔ (pending e.bus).length = kEventQueueDepth) ∧
        ((e.bus.enqueue data).1 = false → (e.bus.enqueue data).2 = e.bus) := by
  have hq : QueueLaw e := run_queueLaw fresh_queueLaw h
  refine ⟨⟨_, hq.fifo.symm⟩, hq.fifo, fun data => ?_⟩
  have hle : e.bus.queueCount ≤ kEventQueueDepth := hq.placed.count_le
  rw [pending, Ring.contents_length]
  rcases Nat.lt_or_ge e.bus.queueCount kEventQueueDepth with hn | hn
  · have ht : (e.bus.enqueue data).1 = true := (enqueue_room data hq.placed hn).1
    rw [ht]
    exact ⟨⟨fun h => absurd h (by decide), fun h => by omega⟩, fun h => absurd h (by decide)⟩
  · rw [enqueue_full data hn]
    exact ⟨⟨fun _ => by omega, fun _ => rfl⟩, fun _ => rfl⟩

/-- A callback enqueues a second event while the first is being delivered. -/
theorem queue_fifo_reentrant : ∃ e : Exec Nat Nat,
    run Exec.step {} [.call (.subscribe 5 (some 7) none), .call (.enqueue { id := 5 }),
      .call .dispatchQueued, .advance, .advance, .call (.enqueue { id := 6 })] = some e ∧
    dispatchedEvents e.log = [{ id := 5 }] ∧ pending e.bus = [{ id := 6 }] ∧
    dispatchedEvents e.log <+: acceptedEvents e.log := by
  have h : run Exec.step ({} : Exec Nat Nat) [.call (.subscribe 5 (some 7) none),
      .call (.enqueue { id := 5 }), .call .dispatchQueued, .advance, .advance,
      .call (.enqueue { id := 6 })] = some _ := rfl
  exact ⟨_, h, by decide, by decide, (queue_fifo h).1⟩

end TaktOS.Proof
