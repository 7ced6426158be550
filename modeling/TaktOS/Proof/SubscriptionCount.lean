import Mathlib.Data.Fintype.Card
import TaktOS.Proof.EventDelivery

/-!
# The count of subscriptions

`subscribe` asks the count whether there is room before it looks for a slot, so the two must agree:
counted too low the search comes back with nothing, counted too high slots are out of reach. An
active slot is filled or emptied with the count moved along, by whoever calls, also from a callback.
-/

namespace TaktOS.Proof

open TaktOS EventBus Lib

variable {κ υ : Type}

/-- The slots that are active. -/
def activeSlots (bus : EventBus κ υ) : Finset Slot :=
  Finset.univ.filter fun i => (bus.subscription i).active = true

/-- **The count is that of the active slots.** -/
def CountLaw (bus : EventBus κ υ) : Prop := bus.subscriberCount = (activeSlots bus).card

/-- What a call of `subscribe` returns, and what it makes of the table. -/
structure Subscribes (bus : EventBus κ υ) (event : Event) (callback : Option κ)
    (userData : Option υ) (handle : Int) (bus' : EventBus κ υ) : Prop where
  refused : handle = -1 ↔ (activeSlots bus).card = kMaxEventSubscribers
  unchanged : handle = -1 → bus' = bus
  given : handle ≠ -1 → ∃ i : Slot, handle = (i.val : Int) ∧
    (bus.subscription i).active = false ∧
    bus'.subscription i = { event, callback, userData, active := true } ∧
    ∀ j, j ≠ i → bus'.subscription j = bus.subscription j

theorem mem_activeSlots {bus : EventBus κ υ} {i : Slot} :
    i ∈ activeSlots bus ↔ (bus.subscription i).active = true := by
  simp [activeSlots]

theorem activeSlots_fillSlot (bus : EventBus κ υ) (i : Slot) {s : Subscription κ υ}
    (hs : s.active = true) : activeSlots (bus.fillSlot i s) = insert i (activeSlots bus) := by
  ext j
  rw [mem_activeSlots, fillSlot_get, Finset.mem_insert, mem_activeSlots]
  by_cases hj : j = i
  · rw [if_pos hj]
    exact ⟨fun _ => .inl hj, fun _ => hs⟩
  · rw [if_neg hj]
    exact ⟨.inr, fun h => h.resolve_left hj⟩

theorem activeSlots_clearSlot (bus : EventBus κ υ) (i : Slot) :
    activeSlots (bus.clearSlot i) = (activeSlots bus).erase i := by
  ext j
  rw [mem_activeSlots, clearSlot_get, Finset.mem_erase, mem_activeSlots]
  by_cases hj : j = i
  · rw [if_pos hj]
    exact ⟨fun h => absurd h (by simp), fun h => absurd hj h.1⟩
  · rw [if_neg hj]
    exact ⟨fun h => ⟨hj, h⟩, fun h => h.2⟩

/-! ## The law is kept -/

theorem CountLaw.filled {bus : EventBus κ υ} (hc : CountLaw bus) {i : Slot}
    {s : Subscription κ υ} (hi : (bus.subscription i).active = false) (hs : s.active = true) :
    CountLaw (bus.fillSlot i s) := by
  have hnew : i ∉ activeSlots bus := fun hmem => by
    rw [mem_activeSlots, hi] at hmem
    exact Bool.noConfusion hmem
  show bus.subscriberCount + 1 = _
  rw [activeSlots_fillSlot bus i hs, Finset.card_insert_of_notMem hnew, ← hc]

theorem CountLaw.cleared {bus : EventBus κ υ} (hc : CountLaw bus) {i : Slot}
    (hi : (bus.subscription i).active = true) : CountLaw (bus.clearSlot i) := by
  show bus.subscriberCount - 1 = _
  rw [activeSlots_clearSlot, Finset.card_erase_of_mem (mem_activeSlots.mpr hi), ← hc]

/-- The queue has no part in it. -/
theorem CountLaw.frame {bus bus' : EventBus κ υ} (hc : CountLaw bus)
    (htable : bus'.subscription = bus.subscription)
    (hcount : bus'.subscriberCount = bus.subscriberCount) : CountLaw bus' := by
  rw [CountLaw, hcount, hc, activeSlots, activeSlots, htable]

theorem enqueue_subscriberCount {bus bus' : EventBus κ υ} {data : EventData} {ok : Bool}
    (h : bus.enqueue data = (ok, bus')) : bus'.subscriberCount = bus.subscriberCount := by
  rw [enqueue] at h
  split at h <;> exact (Prod.mk.inj h).2 ▸ rfl

/-- **Every step keeps the law**, whichever call or callback it belongs to. -/
theorem effect_countLaw {e e' : Exec κ υ} {a : Act κ υ} (h : Effect e a e')
    (hc : CountLaw e.bus) : CountLaw e'.bus := by
  cases h with
  | subscribed op hca i s hi hs => exact hc.filled hi hs
  | removed op hca i hi => exact hc.cleared hi
  | accepted op hca data bus hq =>
    exact hc.frame (enqueue_subscription hq) (enqueue_subscriberCount hq)
  | dequeued => exact hc.frame rfl rfl
  | idle | published | draining | returned | drained | invoked | passed | finished => exact hc

theorem countLaw_empty : CountLaw ({} : EventBus κ υ) := by
  have hnone : activeSlots ({} : EventBus κ υ) = ∅ := by
    rw [Finset.eq_empty_iff_forall_notMem]
    intro i hmem
    rw [mem_activeSlots, subscription, Fin.getElem_fin, Vector.getElem_replicate] at hmem
    exact Bool.noConfusion hmem
  rw [CountLaw, hnone]
  rfl

/-! ## What the count is for -/

/-- The search fails only when every slot is active. -/
theorem card_of_freeSlot_none {bus : EventBus κ υ} (h : bus.freeSlot = none) :
    (activeSlots bus).card = kMaxEventSubscribers := by
  have hall : activeSlots bus = Finset.univ := by
    rw [Finset.eq_univ_iff_forall]
    intro i
    have hi := List.find?_eq_none.mp h i (List.mem_finRange i)
    rw [mem_activeSlots]
    simpa using hi
  rw [hall, Finset.card_univ, Fintype.card_fin]

theorem card_of_inactive {bus : EventBus κ υ} {i : Slot}
    (h : (bus.subscription i).active = false) : (activeSlots bus).card < kMaxEventSubscribers := by
  have hmem : i ∉ activeSlots bus := fun hmem => by
    rw [mem_activeSlots, h] at hmem
    exact Bool.noConfusion hmem
  have hlt := Finset.card_lt_univ_of_notMem hmem
  rwa [Fintype.card_fin] at hlt

/-- **With the count right, `subscribe` refuses only a full table** and fills an inactive slot. -/
theorem CountLaw.subscribes {bus : EventBus κ υ} (hc : CountLaw bus) (event : Event)
    (callback : Option κ) (userData : Option υ) :
    Subscribes bus event callback userData (bus.subscribe event callback userData).1
      (bus.subscribe event callback userData).2 := by
  cases hs : slotOf (bus.subscribe event callback userData).1 with
  | none =>
    have hrefused : (bus.subscribe event callback userData).1 = -1 ∧
        (activeSlots bus).card = kMaxEventSubscribers := by
      rw [subscribe] at hs ⊢
      split
      · rename_i hfull
        have hle := (activeSlots bus).card_le_univ
        rw [Fintype.card_fin] at hle
        rw [hc] at hfull
        exact ⟨rfl, Nat.le_antisymm hle hfull⟩
      · rename_i hroom
        rw [if_neg hroom] at hs
        cases hf : bus.freeSlot with
        | none => exact ⟨rfl, card_of_freeSlot_none hf⟩
        | some i => rw [hf] at hs; exact absurd (hs.symm.trans (slotOf_val i)) (by simp)
    exact ⟨⟨fun _ => hrefused.2, fun _ => hrefused.1⟩, fun _ => subscribe_none hs,
      fun h => absurd hrefused.1 h⟩
  | some i =>
    obtain ⟨hi, heq⟩ := subscribe_some hs
    have hvalid : (i.val : Int) ≠ -1 := by omega
    rw [heq]
    refine ⟨⟨fun h => absurd h hvalid, fun h => ?_⟩, fun h => absurd h hvalid, fun _ => ?_⟩
    · exact absurd h (Nat.ne_of_lt (card_of_inactive hi))
    · refine ⟨i, rfl, hi, ?_, fun j hj => ?_⟩
      · rw [fillSlot_get, if_pos rfl]
      · rw [fillSlot_get, if_neg hj]

/--
**The subscription table invariant.** In every state of every run, also inside callbacks, the count
is the number of active slots. So `subscribe` returns -1 exactly when all 32 are active, and fills a
slot that was not active otherwise.
-/
theorem subscriptions_counted {acts : List (Act κ υ)} {e : Exec κ υ}
    (h : run Exec.step {} acts = some e) :
    e.bus.subscriberCount = (activeSlots e.bus).card ∧
      ∀ event callback userData, Subscribes e.bus event callback userData
        (e.bus.subscribe event callback userData).1
        (e.bus.subscribe event callback userData).2 := by
  have hc : CountLaw e.bus := run_preserves (fun e : Exec κ υ => CountLaw e.bus)
    (fun _ _ _ hc hs => effect_countLaw (step_effect hs) hc) countLaw_empty h
  exact ⟨hc, hc.subscribes⟩

/-- A callback that ends its own subscription, twice, and makes another one. -/
theorem subscriptions_counted_in_callback : ∃ e : Exec Nat Unit,
    run Exec.step {} [.call (.subscribe 5 (some 7) none), .call (.publish { id := 5 }), .advance,
        .call (.unsubscribe 0), .call (.unsubscribe 0), .call (.subscribe 6 (some 8) none)]
        = some e ∧
      e.bus.subscriberCount = (activeSlots e.bus).card ∧
      ∀ event callback userData, Subscribes e.bus event callback userData
        (e.bus.subscribe event callback userData).1
        (e.bus.subscribe event callback userData).2 := by
  have hsome : (run Exec.step ({} : Exec Nat Unit) [.call (.subscribe 5 (some 7) none),
      .call (.publish { id := 5 }), .advance, .call (.unsubscribe 0), .call (.unsubscribe 0),
      .call (.subscribe 6 (some 8) none)]).isSome = true := by decide
  obtain ⟨e, hrun⟩ := Option.isSome_iff_exists.mp hsome
  exact ⟨e, hrun, subscriptions_counted hrun⟩

end TaktOS.Proof
