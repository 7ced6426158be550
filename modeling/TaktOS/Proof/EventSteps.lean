import TaktOS.Kernel.EventBus

/-!
# What a step of the event bus does

`Effect` says once what a step can do, every guard included; the invariants of the modules
on the queue, on deliveries and on handles are read off it and never open the step function.
-/

namespace TaktOS.Proof

open TaktOS EventBus Lib

variable {κ υ : Type}

/-! ## The functions of the bus -/

@[simp] theorem fillSlot_get (bus : EventBus κ υ) (i j : Slot) (s : Subscription κ υ) :
    (bus.fillSlot i s).subscription j = if j = i then s else bus.subscription j := by
  simp only [subscription, fillSlot, Fin.getElem_fin, Vector.getElem_set, Fin.ext_iff, eq_comm]

@[simp] theorem clearSlot_get (bus : EventBus κ υ) (i j : Slot) :
    (bus.clearSlot i).subscription j =
      if j = i then { bus.subscription i with active := false } else bus.subscription j := by
  simp only [subscription, clearSlot, Fin.getElem_fin, Vector.getElem_set, Fin.ext_iff, eq_comm]

theorem freeSlot_inactive {bus : EventBus κ υ} {i : Slot} (h : bus.freeSlot = some i) :
    (bus.subscription i).active = false := by
  simpa using List.find?_some h

theorem slotOf_val (i : Slot) : slotOf (i.val : Int) = some i := by
  have hi : ¬((i.val : Int) < 0 ∨ (i.val : Int) ≥ kMaxEventSubscribers) := by omega
  rw [slotOf, dif_neg hi]
  simp

@[simp] theorem slotOf_refused : slotOf (-1) = none := rfl

/-- A `subscribe` that gives out a slot fills one that was not active. -/
theorem subscribe_some {bus : EventBus κ υ} {event : Event} {callback : Option κ}
    {userData : Option υ} {i : Slot}
    (h : slotOf (bus.subscribe event callback userData).1 = some i) :
    (bus.subscription i).active = false ∧
      bus.subscribe event callback userData =
        ((i.val : Int), bus.fillSlot i { event, callback, userData, active := true }) := by
  rw [subscribe] at h ⊢
  split at h
  · exact absurd h (by simp)
  · rename_i hfull
    rw [if_neg hfull]
    cases hf : bus.freeSlot with
    | none => rw [hf] at h; exact absurd h (by simp)
    | some j =>
      rw [hf] at h
      have hij : j = i := Option.some.inj ((slotOf_val j).symm.trans h)
      exact hij ▸ ⟨freeSlot_inactive hf, rfl⟩

/-- A `subscribe` that gives out none leaves the bus as it was. -/
theorem subscribe_none {bus : EventBus κ υ} {event : Event} {callback : Option κ}
    {userData : Option υ} (h : slotOf (bus.subscribe event callback userData).1 = none) :
    (bus.subscribe event callback userData).2 = bus := by
  rw [subscribe] at h ⊢
  split at h
  · rename_i hfull; rw [if_pos hfull]
  · rename_i hfull
    rw [if_neg hfull]
    cases hf : bus.freeSlot with
    | none => rfl
    | some j => rw [hf] at h; exact absurd ((slotOf_val j).symm.trans h) (by simp)

/-! ## What a step does -/

/-- Everything one step of the bus can do. -/
inductive Effect (e : Exec κ υ) : Act κ υ → Exec κ υ → Prop
  /-- A call that changes nothing: a refused one, or an `unsubscribe` of an inactive slot. -/
  | idle (op : Op κ υ) (hc : e.clientActs) : Effect e (.call op) e
  | subscribed (op : Op κ υ) (hc : e.clientActs) (i : Slot) (s : Subscription κ υ)
      (hi : (e.bus.subscription i).active = false) (hs : s.active = true) :
      Effect e (.call op) { e with
        bus := e.bus.fillSlot i s
        owner := fun j => if j = i then e.log.length else e.owner j
        log := e.log ++ [.subscribed i s] }
  | removed (op : Op κ υ) (hc : e.clientActs) (i : Slot)
      (hi : (e.bus.subscription i).active = true) :
      Effect e (.call op) { e with bus := e.bus.clearSlot i, log := e.log ++ [.removed i] }
  | published (op : Op κ υ) (hc : e.clientActs) (data : EventData) :
      Effect e (.call op) (e.dispatch data false e.stack)
  | accepted (op : Op κ υ) (hc : e.clientActs) (data : EventData) (bus : EventBus κ υ)
      (hq : e.bus.enqueue data = (true, bus)) :
      Effect e (.call op) { e with bus, log := e.log ++ [.accepted data] }
  | draining (op : Op κ υ) (hc : e.clientActs) :
      Effect e (.call op) { e with stack := .draining :: e.stack }
  | returned (call : Nat) (data : EventData) (i : Nat) (rest : List Frame)
      (hs : e.stack = .running call data i :: rest) :
      Effect e .ret { e with stack := .scanning call data (i + 1) :: rest }
  | dequeued (rest : List Frame) (hs : e.stack = .draining :: rest) (hn : 0 < e.bus.queueCount) :
      Effect e .advance
        ({ e with bus := e.bus.dequeue.2 }.dispatch e.bus.dequeue.1 true (.draining :: rest))
  | drained (rest : List Frame) (hs : e.stack = .draining :: rest) (hn : e.bus.queueCount = 0) :
      Effect e .advance { e with stack := rest }
  | invoked (call : Nat) (data : EventData) (i : Slot) (rest : List Frame)
      (hs : e.stack = .scanning call data i.val :: rest) (callback : κ)
      (ha : (e.bus.subscription i).active = true) (he : (e.bus.subscription i).event = data.id)
      (hb : (e.bus.subscription i).callback = some callback) :
      Effect e .advance { e with
        stack := .running call data i.val :: rest
        log := e.log ++
          [.invoked call i (e.owner i) callback (e.bus.subscription i).userData] }
  | passed (call : Nat) (data : EventData) (i : Slot) (rest : List Frame)
      (hs : e.stack = .scanning call data i.val :: rest)
      (hp : (e.bus.subscription i).active = true → (e.bus.subscription i).event = data.id →
        (e.bus.subscription i).callback = none) :
      Effect e .advance { e with
        stack := .scanning call data (i.val + 1) :: rest
        log := e.log ++ [.passed call i] }
  | finished (call : Nat) (data : EventData) (i : Nat) (rest : List Frame)
      (hs : e.stack = .scanning call data i :: rest) (hi : kMaxEventSubscribers ≤ i) :
      Effect e .advance { e with stack := rest, log := e.log ++ [.finished call] }

theorem call_effect {e : Exec κ υ} (hc : e.clientActs) (op : Op κ υ) :
    Effect e (.call op) (e.call op) := by
  cases op with
  | subscribe event callback userData =>
    rw [Exec.call]
    cases hs : slotOf (e.bus.subscribe event callback userData).1 with
    | none =>
      simp only [hs, subscribe_none hs]
      exact .idle _ hc
    | some i =>
      obtain ⟨hi, heq⟩ := subscribe_some hs
      simp only [heq, slotOf_val]
      have hget : (e.bus.fillSlot i { event, callback, userData, active := true }).subscription i
          = { event, callback, userData, active := true } := by
        rw [fillSlot_get, if_pos rfl]
      rw [hget]
      exact .subscribed _ hc i _ hi rfl
  | unsubscribe handle =>
    rw [Exec.call, unsubscribe]
    cases hs : slotOf handle with
    | none => exact .idle _ hc
    | some i =>
      cases ha : (e.bus.subscription i).active with
      | false => simp only [ha]; exact .idle _ hc
      | true => simp only [ha]; exact .removed _ hc i ha
  | publish data => exact .published _ hc data
  | enqueue data =>
    rw [Exec.call]
    cases hq : e.bus.enqueue data with
    | mk ok bus =>
      cases ok with
      | true => exact .accepted _ hc data bus hq
      | false =>
        have hb : bus = e.bus := by
          rw [enqueue] at hq
          split at hq
          · exact (Prod.mk.inj hq).2.symm
          · exact absurd (Prod.mk.inj hq).1 (by decide)
        rw [hb]
        exact .idle _ hc
  | dispatchQueued => exact .draining _ hc

theorem step_effect {e e' : Exec κ υ} {a : Act κ υ} (h : e.step a = some e') : Effect e a e' := by
  cases a with
  | call op =>
    rw [Exec.step] at h
    split at h
    · rename_i hc; exact Option.some.inj h ▸ call_effect hc op
    · exact absurd h (by simp)
  | ret =>
    rw [Exec.step] at h
    split at h
    · rename_i call data i rest hs; exact Option.some.inj h ▸ .returned call data i rest hs
    · exact absurd h (by simp)
  | advance =>
    rw [Exec.step] at h
    split at h
    · rename_i rest hs
      rw [← Option.some.inj h, Exec.drain]
      split
      · rename_i hn; exact .dequeued rest hs hn
      · rename_i hn; exact .drained rest hs (by omega)
    · rename_i call data i rest hs
      rw [← Option.some.inj h, Exec.scan]
      split
      · rename_i hi
        have hs' : e.stack = .scanning call data (Fin.mk i hi).val :: rest := hs
        dsimp only
        split
        · rename_i callback hm hb
          rw [Bool.and_eq_true, beq_iff_eq] at hm
          exact .invoked call data ⟨i, hi⟩ rest hs' callback hm.1 hm.2 hb
        · rename_i hm
          refine .passed call data ⟨i, hi⟩ rest hs' fun ha he => ?_
          rw [Option.eq_none_iff_forall_ne_some]
          intro callback hb
          exact hm callback (by rw [Bool.and_eq_true, beq_iff_eq]; exact ⟨ha, he⟩) hb
      · rename_i hi; exact .finished call data i rest hs (by omega)
    · exact absurd h (by simp)

end TaktOS.Proof
