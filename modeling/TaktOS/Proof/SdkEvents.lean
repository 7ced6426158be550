import Mathlib.Data.List.Basic
import TaktOS.Proof.EventDelivery
import TaktOS.Sdk.TaktSdk

/-!
# Subscriptions of the SDK

A delivery in which no callback subscribes or unsubscribes invokes the subscriptions of the
table, slot by slot. Those of the SDK all have the bridge and the one context for their callback
and their user data, so each makes the call that the first `takt_subscribe` asked for.
-/

namespace TaktOS.Proof

open TaktOS EventBus Sdk Lib

/-! ## A delivery over a table that stays as it is -/

section Delivery

variable {κ υ : Type}

/-- The client neither subscribes nor unsubscribes. -/
def KeepsTable : Act κ υ → Prop
  | .call (.subscribe ..) | .call (.unsubscribe ..) => False
  | _ => True

/-- Whom the turn of slot `j` in a delivery of `data` invokes. -/
def turn (table : Slot → Subscription κ υ) (data : EventData) (j : Nat) : Option (κ × Option υ) :=
  if h : j < kMaxEventSubscribers then
    let s := table ⟨j, h⟩
    if s.active = true ∧ s.event = data.id then s.callback.map (·, s.userData) else none
  else none

theorem turn_slot (table : Slot → Subscription κ υ) (data : EventData) (i : Slot) :
    turn table data i.val =
      if (table i).active = true ∧ (table i).event = data.id then
        (table i).callback.map (·, (table i).userData)
      else none :=
  dif_pos i.isLt

/-- Whom delivery `c` has invoked. -/
def invokedIn (c : Nat) (log : List (Entry κ υ)) : List (κ × Option υ) :=
  log.filterMap fun
    | .invoked c' _ _ callback userData => if c' = c then some (callback, userData) else none
    | _ => none

theorem invokedIn_invoked (c call : Nat) (i : Slot) (p : Nat) (callback : κ)
    (userData : Option υ) : invokedIn c [.invoked call i p callback userData] =
      if call = c then [(callback, userData)] else [] := by
  simp only [invokedIn, List.filterMap_cons, List.filterMap_nil]
  split <;> rename_i h <;> split at h <;> simp_all

theorem invokedIn_append (c : Nat) (l l' : List (Entry κ υ)) :
    invokedIn c (l ++ l') = invokedIn c l ++ invokedIn c l' :=
  List.filterMap_append ..

/-- Delivery `c` has invoked whom the slots before its place ask for. -/
structure SlotLaw (table : Slot → Subscription κ υ) (data : EventData) (c : Nat)
    (e : Exec κ υ) : Prop where
  kept : e.bus.subscription = table
  begun : c < e.log.length
  inside : ∀ d ∈ inProgress e.stack, d.call = c → d.data = data ∧
    d.next ≤ kMaxEventSubscribers ∧
      invokedIn c e.log = (List.range d.next).filterMap (turn table data)
  returned : c ∉ (inProgress e.stack).map Progress.call →
    invokedIn c e.log = (List.range kMaxEventSubscribers).filterMap (turn table data)

variable {table : Slot → Subscription κ υ} {data : EventData} {c : Nat} {e e' : Exec κ υ}

/-- The deliveries in progress are as they were, and this one has invoked nobody. -/
theorem SlotLaw.frame (h : SlotLaw table data c e) (hb : e'.bus.subscription = e.bus.subscription)
    (hs : inProgress e'.stack = inProgress e.stack) {last : List (Entry κ υ)}
    (hl : e'.log = e.log ++ last) (hlast : invokedIn c last = []) : SlotLaw table data c e' := by
  have hinv : invokedIn c e'.log = invokedIn c e.log := by
    rw [hl, invokedIn_append, hlast, List.append_nil]
  refine ⟨hb.trans h.kept, ?_, by rw [hs, hinv]; exact h.inside, by rw [hs, hinv]; exact h.returned⟩
  rw [hl, List.length_append]
  exact Nat.lt_of_lt_of_le h.begun (Nat.le_add_right ..)

/-- Another delivery begins. -/
theorem SlotLaw.dispatch (h : SlotLaw table data c e)
    (hb : e'.bus.subscription = e.bus.subscription) {d : Progress}
    (hs : inProgress e'.stack = d :: inProgress e.stack) (hd : d.call = e.log.length)
    {last : List (Entry κ υ)} (hl : e'.log = e.log ++ last) (hlast : invokedIn c last = []) :
    SlotLaw table data c e' := by
  have hinv : invokedIn c e'.log = invokedIn c e.log := by
    rw [hl, invokedIn_append, hlast, List.append_nil]
  refine ⟨hb.trans h.kept, ?_, fun x hx hc => ?_, fun hc => ?_⟩
  · rw [hl, List.length_append]
    exact Nat.lt_of_lt_of_le h.begun (Nat.le_add_right ..)
  · rw [hs] at hx
    rw [hinv]
    rcases List.mem_cons.mp hx with rfl | hx
    · exact absurd (hd.symm.trans hc) (Nat.ne_of_gt h.begun)
    · exact h.inside x hx hc
  · rw [hs, List.map_cons] at hc
    rw [hinv]
    exact h.returned fun hmem => hc (List.mem_cons_of_mem _ hmem)

/-- The turn of slot `i` in a delivery. -/
theorem SlotLaw.turned (h : SlotLaw table data c e)
    (hap : ((inProgress e.stack).map Progress.call).Nodup) {d : Progress} {rest : List Progress}
    {i : Slot} (hs : inProgress e.stack = d :: rest)
    (hi : d.next = i.val) (hs' : inProgress e'.stack = { d with next := i.val + 1 } :: rest)
    (hb : e'.bus.subscription = e.bus.subscription) {x : Entry κ υ} (hl : e'.log = e.log ++ [x])
    (hx : ∀ c', invokedIn c' [x] =
      if d.call = c' then (turn e.bus.subscription d.data i.val).toList else []) :
    SlotLaw table data c e' := by
  have hin := h.inside
  have hret := h.returned
  rw [hs] at hin hret hap
  have hfresh := (List.nodup_cons.mp hap).1
  refine ⟨hb.trans h.kept, ?_, fun y hy hc => ?_, fun hc => ?_⟩
  · rw [hl, List.length_append]
    exact Nat.lt_of_lt_of_le h.begun (Nat.le_add_right ..)
  · rw [hs'] at hy
    rw [hl, invokedIn_append, hx]
    rcases List.mem_cons.mp hy with rfl | hy
    · obtain ⟨hdata, hle, hinv⟩ := hin d List.mem_cons_self hc
      refine ⟨hdata, i.isLt, ?_⟩
      rw [if_pos hc, hinv, hi, hdata, h.kept]
      dsimp only
      rw [List.range_succ, List.filterMap_append, List.filterMap_cons]
      cases turn table data i.val <;> rfl
    · have hne : d.call ≠ c := by
        rintro rfl
        exact hfresh (hc ▸ List.mem_map_of_mem hy)
      rw [if_neg hne, List.append_nil]
      exact hin y (List.mem_cons_of_mem _ hy) hc
  · rw [hs', List.map_cons] at hc
    have hne : d.call ≠ c := by
      rintro rfl
      exact hc List.mem_cons_self
    rw [hl, invokedIn_append, hx, if_neg hne, List.append_nil]
    exact hret hc

/-- A delivery returns. -/
theorem SlotLaw.finished (h : SlotLaw table data c e) {d : Progress} {rest : List Progress}
    (hs : inProgress e.stack = d :: rest) (hn : kMaxEventSubscribers ≤ d.next)
    (hs' : inProgress e'.stack = rest) (hb : e'.bus.subscription = e.bus.subscription)
    {last : List (Entry κ υ)} (hl : e'.log = e.log ++ last) (hlast : invokedIn c last = []) :
    SlotLaw table data c e' := by
  have hin := h.inside
  have hret := h.returned
  rw [hs] at hin hret
  have hinv : invokedIn c e'.log = invokedIn c e.log := by
    rw [hl, invokedIn_append, hlast, List.append_nil]
  refine ⟨hb.trans h.kept, ?_, fun y hy hc => ?_, fun hc => ?_⟩
  · rw [hl, List.length_append]
    exact Nat.lt_of_lt_of_le h.begun (Nat.le_add_right ..)
  · rw [hs'] at hy
    rw [hinv]
    exact hin y (List.mem_cons_of_mem _ hy) hc
  · rw [hs'] at hc
    rw [hinv]
    by_cases hdc : d.call = c
    · obtain ⟨-, hle, hinv'⟩ := hin d List.mem_cons_self hdc
      rw [hinv', Nat.le_antisymm hle hn]
    · refine hret fun hmem => ?_
      rw [List.map_cons, List.mem_cons] at hmem
      exact hmem.elim (fun heq => hdc heq.symm) hc

/-- **Whom a delivery has invoked is kept by every step that leaves the table alone.** -/
theorem slotLaw_step (h : SlotLaw table data c e)
    (hap : ((inProgress e.stack).map Progress.call).Nodup) {a : Act κ υ} (ha : KeepsTable a)
    (hs : e.step a = some e') : SlotLaw table data c e' := by
  match a with
  | .call (.subscribe ..) => exact ha.elim
  | .call (.unsubscribe ..) => exact ha.elim
  | .call (.publish data') =>
    rw [Exec.step] at hs
    split at hs
    · exact Option.some.inj hs ▸ h.dispatch rfl rfl rfl rfl rfl
    · exact absurd hs (by simp)
  | .call (.enqueue data') =>
    rw [Exec.step] at hs
    split at hs
    · rw [← Option.some.inj hs, Exec.call]
      split
      · rename_i bus hq
        exact h.frame (enqueue_subscription hq) rfl rfl rfl
      · rename_i bus hq
        exact h.frame (enqueue_subscription hq) rfl (List.append_nil _).symm rfl
    · exact absurd hs (by simp)
  | .call .dispatchQueued =>
    rw [Exec.step] at hs
    split at hs
    · exact Option.some.inj hs ▸ h.frame rfl rfl (List.append_nil _).symm rfl
    · exact absurd hs (by simp)
  | .ret =>
    cases step_effect hs with
    | returned call data' i rest hstack =>
      exact h.frame rfl (by rw [hstack]; rfl) (List.append_nil _).symm rfl
  | .advance =>
    cases step_effect hs with
    | dequeued rest hstack hn => exact h.dispatch rfl (by rw [hstack]; rfl) rfl rfl rfl
    | drained rest hstack hn => exact h.frame rfl (by rw [hstack]; rfl) (List.append_nil _).symm rfl
    | invoked call data' i rest hstack callback hact hev hcb =>
      have ht : turn e.bus.subscription data' i.val =
          some (callback, (e.bus.subscription i).userData) := by
        rw [turn_slot, if_pos ⟨hact, hev⟩, hcb]
        rfl
      refine h.turned (d := ⟨call, data', i.val⟩) hap (congrArg inProgress hstack) rfl rfl rfl rfl
        fun c' => ?_
      dsimp only
      rw [ht]
      exact invokedIn_invoked ..
    | passed call data' i rest hstack hp =>
      have ht : turn e.bus.subscription data' i.val = none := by
        rw [turn_slot]
        split
        · rename_i hcond; rw [hp hcond.1 hcond.2]; rfl
        · rfl
      refine h.turned (d := ⟨call, data', i.val⟩) hap (congrArg inProgress hstack) rfl rfl rfl rfl
        fun c' => ?_
      dsimp only
      rw [ht]
      exact (ite_self _).symm
    | finished call data' i rest hstack hi =>
      exact h.finished (congrArg inProgress hstack) hi rfl rfl rfl rfl

end Delivery

/-! ## The subscriptions of the SDK -/

section Sdk

variable {κ υ φ γ : Type}

/-- The arguments of a `takt_subscribe`. -/
structure SdkSubscription (φ γ : Type) where
  event : EventBus.Event
  cb : Option φ
  user : Option γ
  deriving DecidableEq

/-- The call that a subscription asks for. -/
def SdkSubscription.call (x : SdkSubscription φ γ) (data : EventData) : Option (EventCall φ γ) :=
  x.cb.map fun cb =>
    { cb, event := data.id, p1 := data.param1, p2 := data.param2, user := x.user }

/-- `takt_subscribe` one after another, each of which returns a handle. -/
def subscribeAll (s : Subscriber κ υ φ γ) :
    List (SdkSubscription φ γ) → Option (Subscriber κ υ φ γ)
  | [] => some s
  | x :: xs =>
    let (handle, s) := s.taktSubscribe x.event x.cb x.user
    if handle < 0 then none else subscribeAll s xs

/-- The calls that the bridge makes in delivery `c`. -/
def sdkCalls (ctx : Option (EventCtx φ γ)) (data : EventData) (c : Nat)
    (log : List (Entry (BusCallback κ) (BusUser υ))) : List (EventCall φ γ) :=
  (invokedIn c log).filterMap fun
    | (.bridge, user) => sdkEventBridge ctx data user
    | (.other _, _) => none

/-- The slot has a subscription of the SDK to the event. -/
def bridged (table : Slot → Subscription (BusCallback κ) (BusUser υ)) (event : EventBus.Event)
    (j : Nat) : Bool :=
  if h : j < kMaxEventSubscribers then
    let s := table ⟨j, h⟩
    s.active && s.event == event &&
      match s.callback with
      | some .bridge => true
      | _ => false
  else false

/-- The bridge is subscribed with the context and nothing else. -/
def BridgeCtx (bus : EventBus (BusCallback κ) (BusUser υ)) : Prop :=
  ∀ i, (bus.subscription i).active = true → (bus.subscription i).callback = some .bridge →
    (bus.subscription i).userData = some .eventCtx

theorem subscribe_handle {bus : EventBus κ υ} {event : EventBus.Event} {callback : Option κ}
    {userData : Option υ} (h : ¬(bus.subscribe event callback userData).1 < 0) :
    ∃ i, (bus.subscription i).active = false ∧ (bus.subscribe event callback userData).2 =
      bus.fillSlot i { event, callback, userData, active := true } := by
  rw [subscribe] at h ⊢
  split at h
  · exact absurd (show (-1 : Int) < 0 by decide) h
  · rename_i hfull
    rw [if_neg hfull]
    cases hf : bus.freeSlot with
    | none => rw [hf] at h; exact absurd (show (-1 : Int) < 0 by decide) h
    | some i => exact ⟨i, freeSlot_inactive hf, rfl⟩

/-- A count over the slots, of which one changes that did not count. -/
theorem countP_range_set {p q : Nat → Bool} {i : Nat} (hne : ∀ j, j ≠ i → q j = p j)
    (hp : p i = false) (n : Nat) :
    (List.range n).countP q =
      (List.range n).countP p + if i < n ∧ q i = true then 1 else 0 := by
  induction n with
  | zero => rfl
  | succ n ih =>
    rw [List.range_succ, List.countP_append, List.countP_append, List.countP_singleton,
      List.countP_singleton, ih]
    by_cases hin : n = i
    · subst hin
      rw [hp]
      simp
    · rw [hne n hin]
      have hlt : i < n + 1 ↔ i < n := by omega
      simp only [hlt]
      omega

/-- One more subscription of the SDK. -/
theorem bridged_fillSlot {bus : EventBus (BusCallback κ) (BusUser υ)} {i : Slot}
    {e event : EventBus.Event} {userData : Option (BusUser υ)}
    (hi : (bus.subscription i).active = false) :
    (List.range kMaxEventSubscribers).countP (bridged (bus.fillSlot i
        { event := e, callback := some .bridge, userData, active := true }).subscription event) =
      (List.range kMaxEventSubscribers).countP (bridged bus.subscription event) +
        if e = event then 1 else 0 := by
  have hslot : ∀ (b : EventBus (BusCallback κ) (BusUser υ)) (j : Slot),
      bridged b.subscription event j.val = ((b.subscription j).active &&
        (b.subscription j).event == event && match (b.subscription j).callback with
          | some .bridge => true
          | _ => false) := fun b j => dif_pos j.isLt
  have hnew : ∀ j, j ≠ i.val → bridged (bus.fillSlot i
      { event := e, callback := some .bridge, userData, active := true }).subscription event j =
        bridged bus.subscription event j := by
    intro j hj
    by_cases hlt : j < kMaxEventSubscribers
    · have hne : (⟨j, hlt⟩ : Slot) ≠ i := fun h => hj (congrArg Fin.val h)
      have hget := fillSlot_get bus i ⟨j, hlt⟩
        { event := e, callback := some .bridge, userData, active := true }
      rw [if_neg hne] at hget
      have h₁ := hslot (bus.fillSlot i
        { event := e, callback := some .bridge, userData, active := true }) ⟨j, hlt⟩
      rw [hget] at h₁
      exact h₁.trans (hslot bus ⟨j, hlt⟩).symm
    · rw [bridged, bridged, dif_neg hlt, dif_neg hlt]
  have hold : bridged bus.subscription event i.val = false := by rw [hslot, hi]; rfl
  rw [countP_range_set hnew hold, hslot, fillSlot_get, if_pos rfl]
  simp

/-- What a table holds of the SDK after its subscriptions. -/
theorem subscribeAll_table (event : EventBus.Event) {xs : List (SdkSubscription φ γ)} :
    ∀ {s s' : Subscriber κ υ φ γ}, BridgeCtx s.bus → subscribeAll s xs = some s' →
      BridgeCtx s'.bus
        ∧ (List.range kMaxEventSubscribers).countP (bridged s'.bus.subscription event)
          = (List.range kMaxEventSubscribers).countP (bridged s.bus.subscription event) +
            xs.countP (fun x => x.event == event) := by
  induction xs with
  | nil => intro s s' hb h; rw [← Option.some.inj h]; exact ⟨hb, rfl⟩
  | cons x xs ih =>
    intro s s' hb h
    rw [subscribeAll] at h
    dsimp only at h
    split at h
    · exact absurd h (by simp)
    · rename_i hh
      obtain ⟨i, hi, hbus⟩ := subscribe_handle hh
      have hbus : (s.taktSubscribe x.event x.cb x.user).2.bus = s.bus.fillSlot i
          { event := x.event, callback := some .bridge, userData := some .eventCtx
            active := true } := hbus
      have hb' : BridgeCtx (s.taktSubscribe x.event x.cb x.user).2.bus := by
        intro j ha hcb
        rw [hbus, fillSlot_get] at ha hcb ⊢
        split
        · rfl
        · rename_i hj
          rw [if_neg hj] at ha hcb
          exact hb j ha hcb
      obtain ⟨hb', hcount⟩ := ih hb' h
      refine ⟨hb', ?_⟩
      rw [hcount, hbus, bridged_fillSlot hi, List.countP_cons]
      simp only [beq_iff_eq]
      omega

theorem subscribeAll_ctx {xs : List (SdkSubscription φ γ)} :
    ∀ {s s' : Subscriber κ υ φ γ}, subscribeAll s xs = some s' →
      s'.ctx = s.ctx.or (xs.head?.map fun x => { cb := x.cb, user := x.user }) := by
  induction xs with
  | nil => intro s s' h; rw [← Option.some.inj h]; cases s.ctx <;> rfl
  | cons x xs ih =>
    intro s s' h
    rw [subscribeAll] at h
    dsimp only at h
    split at h
    · exact absurd h (by simp)
    · rw [ih h]
      cases hs : s.ctx <;> simp [Subscriber.taktSubscribe, hs]

theorem bridged_none {bus : EventBus (BusCallback κ) (BusUser υ)} {event : EventBus.Event}
    (h : ∀ i, (bus.subscription i).active = true →
      (bus.subscription i).callback ≠ some .bridge) :
    (List.range kMaxEventSubscribers).countP (bridged bus.subscription event) = 0 := by
  refine List.countP_eq_zero.mpr fun j _ hb => ?_
  rw [bridged] at hb
  split at hb
  · rename_i hj
    have hcb := h ⟨j, hj⟩
    dsimp only at hb
    split at hb
    · rename_i hbridge
      exact hcb (by simpa using (Bool.and_eq_true_iff.mp (Bool.and_eq_true_iff.mp hb).1).1) hbridge
    · simp at hb
  · exact absurd hb (by decide)

theorem bridge_call (x : SdkSubscription φ γ) (data : EventData) :
    sdkEventBridge (υ := υ) (some { cb := x.cb, user := x.user }) data (some .eventCtx) =
      x.call data := by
  cases hcb : x.cb <;> simp [sdkEventBridge, SdkSubscription.call, hcb]

/-- The bridge's call on the turn of a slot. -/
theorem turn_bridge {bus : EventBus (BusCallback κ) (BusUser υ)} (hb : BridgeCtx bus)
    (ctx : Option (EventCtx φ γ)) (data : EventData) (j : Nat) :
    ((turn bus.subscription data j).bind fun
      | (.bridge, user) => sdkEventBridge ctx data user
      | (.other _, _) => none) =
      if bridged bus.subscription data.id j then sdkEventBridge (υ := υ) ctx data (some .eventCtx)
      else none := by
  rw [turn, bridged]
  split
  · rename_i hj
    have hctx := hb ⟨j, hj⟩
    cases hcb : (bus.subscription ⟨j, hj⟩).callback with
    | none => simp [hcb]
    | some callback =>
      cases callback with
      | other k => simp [hcb]
      | bridge =>
        rw [hcb] at hctx
        by_cases hcond : (bus.subscription ⟨j, hj⟩).active = true ∧
            (bus.subscription ⟨j, hj⟩).event = data.id
        · simp [hcond, hctx hcond.1 rfl, hcb]
        · simp [hcond]
  · rfl

theorem filterMap_guard {α β : Type} (p : α → Bool) (v : Option β) (l : List α) :
    l.filterMap (fun x => if p x then v else none) =
      (List.replicate (l.countP p) v).filterMap id := by
  induction l with
  | nil => rfl
  | cons x l ih =>
    rw [List.filterMap_cons, ih, List.countP_cons]
    cases hp : p x with
    | false => rfl
    | true => cases v <;> rfl

/-- A list that has a result for each of its candidates has one for this. -/
theorem isSome_of_length {α β : Type} {p : α → Bool} {g : α → Option β} {l : List α}
    (h : (l.filterMap fun x => if p x then g x else none).length = l.countP p) :
    ∀ x ∈ l, p x = true → g x ≠ none := by
  have hle : ∀ l : List α,
      (l.filterMap fun x => if p x then g x else none).length ≤ l.countP p := by
    intro l
    induction l with
    | nil => exact Nat.le_refl _
    | cons x l ih =>
      rw [List.filterMap_cons, List.countP_cons]
      cases hp : p x with
      | false => exact ih
      | true => cases g x <;> simp <;> omega
  induction l with
  | nil => intro x hx; exact absurd hx (by simp)
  | cons y l ih =>
    have hl := hle l
    rw [List.filterMap_cons, List.countP_cons] at h
    intro x hx hp
    cases hy : p y with
    | false =>
      rw [hy] at h
      rcases List.mem_cons.mp hx with rfl | hx
      · exact absurd (hp.symm.trans hy) (by decide)
      · exact ih h x hx hp
    | true =>
      rw [hy] at h
      cases hg : g y with
      | none => simp [hg] at h; omega
      | some b =>
        rcases List.mem_cons.mp hx with rfl | hx
        · rw [hg]; simp
        · exact ih (by simpa [hg] using h) x hx hp

/-- As many copies of `v` as there are candidates are their results when each has `v`. -/
theorem replicate_perm_iff {α β : Type} {p : α → Bool} {g : α → Option β} {v : Option β}
    {l : List α} :
    ((List.replicate (l.countP p) v).filterMap id).Perm
        (l.filterMap fun x => if p x then g x else none) ↔ ∀ x ∈ l, p x = true → g x = v := by
  constructor
  · intro h x hx hp
    cases v with
    | none =>
      have hnil : (List.replicate (l.countP p) (none : Option β)).filterMap id = [] :=
        List.filterMap_eq_nil_iff.mpr fun a ha => List.eq_of_mem_replicate ha
      rw [hnil] at h
      have hnone := List.filterMap_eq_nil_iff.mp h.nil_eq.symm x hx
      rwa [if_pos hp] at hnone
    | some b =>
      have hmap : ∀ n, (List.replicate n (some b)).filterMap id = List.replicate n b := by
        intro n
        induction n with
        | zero => rfl
        | succ n ih => rw [List.replicate_succ, List.filterMap_cons, ih]; rfl
      rw [hmap] at h
      have hlen := h.length_eq
      rw [List.length_replicate] at hlen
      obtain ⟨y, hy⟩ := Option.ne_none_iff_exists'.mp (isSome_of_length hlen.symm x hx hp)
      have hmem : y ∈ l.filterMap fun x => if p x then g x else none :=
        List.mem_filterMap.mpr ⟨x, hx, by rw [if_pos hp]; exact hy⟩
      rw [hy, List.eq_of_mem_replicate (h.mem_iff.mpr hmem)]
  · intro h
    rw [← filterMap_guard p v l]
    refine List.Perm.of_eq (List.filterMap_congr fun x hx => ?_)
    split
    · rename_i hp; exact (h x hx hp).symm
    · rfl

/-- What a publish invokes, when the callbacks leave the table alone. -/
theorem invokedIn_publish {before acts : List (Act κ υ)} {e e₁ e₂ : Exec κ υ} {data : EventData}
    (hreach : run Exec.step {} before = some e)
    (hpub : e.step (.call (.publish data)) = some e₁) (hkeeps : ∀ a ∈ acts, KeepsTable a)
    (hrun : run Exec.step e₁ acts = some e₂)
    (hret : e.log.length ∉ (inProgress e₂.stack).map Progress.call) :
    invokedIn e.log.length e₂.log =
      (List.range kMaxEventSubscribers).filterMap (turn e.bus.subscription data) := by
  obtain ⟨ht, hu⟩ := run_deliveryLaws hreach
  have hnone : invokedIn e.log.length e.log = [] := by
    refine List.filterMap_eq_nil_iff.mpr fun x hx => ?_
    cases x with
    | invoked c' i p callback userData =>
      obtain ⟨t, hlt, hget⟩ := List.getElem_of_mem hx
      have hget : e.log[t]? = some (.invoked c' i p callback userData) :=
        List.getElem?_eq_some_iff.mpr ⟨hlt, hget⟩
      obtain ⟨_, data', -, -, hd, -⟩ := hu.sound hget
      exact if_neg (Nat.ne_of_lt hd.lt)
    | _ => rfl
  have h₁ : SlotLaw e.bus.subscription data e.log.length e₁ := by
    have hlaws := effect_turnLaw (step_effect hpub) ht hu
    rw [Exec.step] at hpub
    split at hpub
    · rw [← Option.some.inj hpub]
      refine ⟨rfl, by simp [Exec.call, Exec.dispatch], fun d hd hc => ?_, fun hc => ?_⟩
      · rcases List.mem_cons.mp hd with rfl | hd
        · refine ⟨rfl, Nat.zero_le _, ?_⟩
          exact (invokedIn_append ..).trans (by rw [hnone]; rfl)
        · exact absurd hc (Nat.ne_of_lt (hu.begun d hd).delivers.lt)
      · exact absurd List.mem_cons_self hc
    · exact absurd hpub (by simp)
  have h₂ : (TableLaw e₂ ∧ TurnLaw e₂) ∧ SlotLaw e.bus.subscription data e.log.length e₂ := by
    refine run_invariant (P := fun _ a => KeepsTable a)
      (fun e => (TableLaw e ∧ TurnLaw e) ∧ SlotLaw _ data _ e) (fun x a x' hi ha hs => ?_)
      ⟨⟨effect_tableLaw (step_effect hpub) ht, effect_turnLaw (step_effect hpub) ht hu⟩, h₁⟩
      (along_of_forall fun a ha _ => hkeeps a ha) hrun
    exact ⟨⟨effect_tableLaw (step_effect hs) hi.1.1, effect_turnLaw (step_effect hs) hi.1.1 hi.1.2⟩,
      slotLaw_step hi.2 hi.1.2.apart ha hs⟩
  exact h₂.2.returned hret

/-- **A publish makes the calls that the subscriptions ask for when all to its event ask for what
the first did.** -/
theorem sdkCalls_iff {s₀ s : Subscriber κ υ φ γ} {subs : List (SdkSubscription φ γ)}
    {before acts : List (Act (BusCallback κ) (BusUser υ))}
    {e e₁ e₂ : Exec (BusCallback κ) (BusUser υ)} {event : EventBus.Event} {p1 p2 : UInt32}
    (hctx : s₀.ctx = none)
    (hnone : ∀ i, (s₀.bus.subscription i).active = true →
      (s₀.bus.subscription i).callback ≠ some .bridge)
    (hsubs : subscribeAll s₀ subs = some s) (hreach : run Exec.step {} before = some e)
    (htable : e.bus.subscription = s.bus.subscription)
    (hpub : e.step (.call (taktPublish event p1 p2)) = some e₁)
    (hkeeps : ∀ a ∈ acts, KeepsTable a) (hrun : run Exec.step e₁ acts = some e₂)
    (hret : e.log.length ∉ (inProgress e₂.stack).map Progress.call) (data : EventData)
    (hdata : data = { id := event, param1 := p1, param2 := p2 }) :
    (sdkCalls s.ctx data e.log.length e₂.log).Perm
        (subs.filterMap fun x => if x.event == event then x.call data else none) ↔
      ∀ first ∈ subs.head?, ∀ x ∈ subs, x.event = event → x.call data = first.call data := by
  subst hdata
  have hbridge : BridgeCtx s₀.bus := fun i ha hcb => absurd hcb (hnone i ha)
  obtain ⟨hbridge', hcount⟩ := subscribeAll_table event hbridge hsubs
  have hcalls : sdkCalls s.ctx { id := event, param1 := p1, param2 := p2 } e.log.length e₂.log =
      (List.replicate (subs.countP fun x => x.event == event) (sdkEventBridge (υ := υ) s.ctx
        { id := event, param1 := p1, param2 := p2 } (some .eventCtx))).filterMap id := by
    rw [sdkCalls, invokedIn_publish hreach hpub hkeeps hrun hret, htable,
      List.filterMap_filterMap]
    simp only [turn_bridge hbridge']
    rw [filterMap_guard, hcount, bridged_none hnone, Nat.zero_add]
  have hfirst : ∀ first ∈ subs.head?, sdkEventBridge (υ := υ) s.ctx
      { id := event, param1 := p1, param2 := p2 } (some .eventCtx) =
        first.call { id := event, param1 := p1, param2 := p2 } := by
    intro first hf
    rw [subscribeAll_ctx hsubs, hctx, Option.mem_def.mp hf]
    exact bridge_call first _
  rw [hcalls, replicate_perm_iff]
  constructor
  · intro h first hf x hx hev
    rw [h x hx (beq_iff_eq.mpr hev), hfirst first hf]
  · intro h x hx hev
    obtain ⟨first, hf⟩ :=
      Option.isSome_iff_exists.mp (List.isSome_head?.mpr (List.ne_nil_of_mem hx))
    rw [h first hf x hx (beq_iff_eq.mp hev), hfirst first hf]

end Sdk

/-- A client of event 5. -/
def sdkClient : SdkSubscription Nat Nat := { event := 5, cb := some 1, user := some 7 }

/-- Two subscriptions that ask for the same call. -/
theorem sdkCalls_alike :
    ∃ (s : Subscriber Nat Nat Nat Nat) (e e₂ : Exec (BusCallback Nat) (BusUser Nat)),
      subscribeAll {} [sdkClient, sdkClient] = some s ∧
      run Exec.step {} [.call (.subscribe 5 (some .bridge) (some .eventCtx)),
        .call (.subscribe 5 (some .bridge) (some .eventCtx))] = some e ∧
      (sdkCalls s.ctx { id := 5, param1 := 3 } e.log.length e₂.log).Perm
        [{ cb := 1, event := 5, p1 := 3, p2 := 0, user := some 7 },
          { cb := 1, event := 5, p1 := 3, p2 := 0, user := some 7 }] := by
  have hsubs : subscribeAll ({} : Subscriber Nat Nat Nat Nat) [sdkClient, sdkClient] =
      some _ := rfl
  have hreach : run Exec.step {} [.call (.subscribe 5 (some .bridge) (some .eventCtx)),
      .call (.subscribe 5 (some .bridge) (some .eventCtx))] =
        some (_ : Exec (BusCallback Nat) (BusUser Nat)) := rfl
  have hkeeps : ∀ a ∈ ([.advance, .ret, .advance, .ret] ++ List.replicate 31 .advance :
      List (Act (BusCallback Nat) (BusUser Nat))), KeepsTable a := by
    simp +contextual [KeepsTable]
  refine ⟨_, _, _, hsubs, hreach, (sdkCalls_iff rfl ?_ hsubs hreach rfl rfl hkeeps rfl ?_ _
    rfl).mpr ?_⟩
  · simp [subscription]
  · decide
  · decide

/-- The second client's event calls the first client. -/
theorem second_subscription_unused :
    ∃ (s : Subscriber Nat Nat Nat Nat) (e₂ : Exec (BusCallback Nat) (BusUser Nat)),
      subscribeAll {} [{ event := 5, cb := some 1, user := some 7 },
        { event := 6, cb := some 2, user := some 8 }] = some s ∧
      run Exec.step {} ([.call (.subscribe 5 (some .bridge) (some .eventCtx)),
        .call (.subscribe 6 (some .bridge) (some .eventCtx)), .call (taktPublish 6 3 4),
        .advance, .advance, .ret] ++ List.replicate 31 .advance) = some e₂ ∧
      sdkCalls s.ctx { id := 6, param1 := 3, param2 := 4 } 2 e₂.log =
        [{ cb := 1, event := 6, p1 := 3, p2 := 4, user := some 7 }] ∧
      ¬(sdkCalls s.ctx { id := 6, param1 := 3, param2 := 4 } 2 e₂.log).Perm
        [{ cb := 2, event := 6, p1 := 3, p2 := 4, user := some 8 }] :=
  ⟨_, _, rfl, rfl, rfl, by decide⟩

end TaktOS.Proof
