import TaktOS.Lib.History
import TaktOS.Proof.EventSteps

/-!
# Which subscriptions a publish reaches

`dispatch` goes over the live slot array, so a callback that subscribes or unsubscribes
changes what the rest of the delivery meets. Each slot has one **turn** in a delivery, in the
order of the slots, and whoever holds the slot at its turn is invoked: also a subscription
made during the delivery, when it landed in a slot whose turn had not come.

Subscriptions and deliveries are named by their place in the log. The first invariant ties
the table to the log, the second the loops in progress to the turns on record.
-/

namespace TaktOS.Proof

open TaktOS EventBus Lib

variable {κ υ : Type}

/-! ## The table and the log -/

/-- Subscription `p` holds `slot` just before entry `t`. -/
def Holds (log : List (Entry κ υ)) (slot : Slot) (p t : Nat) : Prop :=
  p < t ∧ NoneBetween log (.removed slot) p t

/-- The active slots are those whose last subscription has not been removed. -/
structure TableLaw (e : Exec κ υ) : Prop where
  live : ∀ i : Slot, (e.bus.subscription i).active = true →
    e.log[e.owner i]? = some (.subscribed i (e.bus.subscription i)) ∧
      NoneBetween e.log (.removed i) (e.owner i) e.log.length
  held : ∀ (i : Slot) (p : Nat) (s : Subscription κ υ), e.log[p]? = some (.subscribed i s) →
    NoneBetween e.log (.removed i) p e.log.length →
      (e.bus.subscription i).active = true ∧ e.owner i = p

/-- The entry is about the subscription table. -/
def tableEntry : Entry κ υ → Bool
  | .subscribed .. | .removed .. => true
  | _ => false

/-- An entry that is not about the table, with the table as it was. -/
theorem TableLaw.frame {e e' : Exec κ υ} {x : Entry κ υ} (h : TableLaw e)
    (hb : e'.bus.subscription = e.bus.subscription) (ho : e'.owner = e.owner)
    (hl : e'.log = e.log ++ [x]) (hx : tableEntry x = false) : TableLaw e' := by
  have hlen : e'.log.length = e.log.length + 1 := by rw [hl]; simp
  have hne : ∀ i : Slot, x ≠ .removed i := by rintro i rfl; exact absurd hx (by simp [tableEntry])
  have hend : ∀ (i : Slot) (p : Nat), NoneBetween e'.log (.removed i) p e'.log.length ↔
      NoneBetween e.log (.removed i) p e.log.length := by
    intro i p
    rw [hlen, hl, noneBetween_concat_end]
    exact ⟨fun h => h.1, fun h => ⟨h, fun _ => hne i⟩⟩
  constructor
  · intro i ha
    rw [hb] at ha ⊢
    obtain ⟨hs, hn⟩ := h.live i ha
    rw [ho, hend]
    exact ⟨hl ▸ getElem?_concat_of hs, hn⟩
  · intro i p s hp hn
    rw [hend] at hn
    rw [hl] at hp
    rcases getElem?_concat.mp hp with hp | ⟨-, rfl⟩
    · rw [hb, ho]; exact h.held i p s hp hn
    · exact absurd hx (by simp [tableEntry])

theorem enqueue_subscription {bus bus' : EventBus κ υ} {data : EventData} {ok : Bool}
    (h : bus.enqueue data = (ok, bus')) : bus'.subscription = bus.subscription := by
  rw [enqueue] at h
  split at h <;> exact (Prod.mk.inj h).2 ▸ rfl

theorem subscribed_tableLaw {e : Exec κ υ} (h : TableLaw e) {i : Slot} {s : Subscription κ υ}
    (hi : (e.bus.subscription i).active = false) (hs : s.active = true) :
    TableLaw { e with
      bus := e.bus.fillSlot i s
      owner := fun j => if j = i then e.log.length else e.owner j
      log := e.log ++ [.subscribed i s] } := by
  have hend : ∀ (j : Slot) (p : Nat),
      NoneBetween (e.log ++ [Entry.subscribed i s]) (.removed j) p
          (e.log ++ [Entry.subscribed i s]).length ↔
        NoneBetween e.log (.removed j) p e.log.length := by
    intro j p
    rw [List.length_append, List.length_singleton, noneBetween_concat_end]
    exact ⟨fun h => h.1, fun h => ⟨h, fun _ => by simp⟩⟩
  constructor
  · intro j ha
    rw [hend]
    dsimp only at ha ⊢
    rw [fillSlot_get] at ha ⊢
    split at ha
    · rename_i hj
      rw [if_pos hj, if_pos hj, hj]
      -- the new subscription is the last entry, so nothing comes after it
      exact ⟨getElem?_concat.mpr (.inr ⟨rfl, rfl⟩), fun q hp hq => absurd hq (by omega)⟩
    · rename_i hj
      rw [if_neg hj, if_neg hj]
      obtain ⟨hl, hn⟩ := h.live j ha
      exact ⟨getElem?_concat_of hl, hn⟩
  · intro j p s' hp hn
    rw [hend] at hn
    dsimp only
    rw [fillSlot_get]
    rcases getElem?_concat.mp hp with hp | ⟨rfl, hx⟩
    · obtain ⟨ha, ho⟩ := h.held j p s' hp hn
      have hj : j ≠ i := by rintro rfl; exact absurd (ha.symm.trans hi) (by decide)
      rw [if_neg hj, if_neg hj]
      exact ⟨ha, ho⟩
    · obtain ⟨rfl, rfl⟩ := Entry.subscribed.inj hx
      rw [if_pos rfl, if_pos rfl]
      exact ⟨hs, rfl⟩

theorem removed_tableLaw {e : Exec κ υ} (h : TableLaw e) (i : Slot) :
    TableLaw { e with bus := e.bus.clearSlot i, log := e.log ++ [.removed i] } := by
  have hend : ∀ (j : Slot) (p : Nat),
      NoneBetween (e.log ++ [Entry.removed i]) (.removed j) p (e.log ++ [Entry.removed i]).length ↔
        NoneBetween e.log (.removed j) p e.log.length ∧ (p < e.log.length → i ≠ j) := by
    intro j p
    rw [List.length_append, List.length_singleton, noneBetween_concat_end]
    simp
  constructor
  · intro j ha
    rw [hend]
    dsimp only at ha ⊢
    rw [clearSlot_get] at ha ⊢
    split at ha
    · exact absurd ha (by simp)
    · rename_i hj
      rw [if_neg hj]
      obtain ⟨hl, hn⟩ := h.live j ha
      exact ⟨getElem?_concat_of hl, hn, fun _ => Ne.symm hj⟩
  · intro j p s hp hn
    rw [hend] at hn
    dsimp only
    rw [clearSlot_get]
    rcases getElem?_concat.mp hp with hp | ⟨-, hx⟩
    · rw [if_neg (Ne.symm (hn.2 (lt_of_getElem? hp)))]
      exact h.held j p s hp hn.1
    · exact absurd hx (by simp)

/-- **The table law is preserved by every step.** -/
theorem effect_tableLaw {e e' : Exec κ υ} {a : Act κ υ} (h : Effect e a e') (ht : TableLaw e) :
    TableLaw e' := by
  cases h with
  | idle => exact ht
  | draining | returned | drained => exact ⟨ht.live, ht.held⟩
  | published | dequeued | invoked | passed | finished => exact ht.frame rfl rfl rfl rfl
  | accepted op hc data bus hq => exact ht.frame (enqueue_subscription hq) rfl rfl rfl
  | subscribed op hc i s hi hs => exact subscribed_tableLaw ht hi hs
  | removed op hc i hi => exact removed_tableLaw ht i

/-! ## Turns -/

/-- A delivery in progress: its number, its event and the first slot whose turn is to come. -/
structure Progress where
  call : Nat
  data : EventData
  next : Nat

def progress : Frame → Option Progress
  | .draining => none
  | .scanning call data i => some { call, data, next := i }
  | .running call data i => some { call, data, next := i + 1 }

/-- The deliveries in progress, innermost first. -/
def inProgress (stack : List Frame) : List Progress := stack.filterMap progress

/-- The delivery and the slot whose turn an entry is. -/
def turnOf : Entry κ υ → Option (Nat × Slot)
  | .invoked call slot .. => some (call, slot)
  | .passed call slot => some (call, slot)
  | _ => none

/-- Entry `t` is the turn of `slot` in delivery `call`. -/
def TurnAt (log : List (Entry κ υ)) (call : Nat) (slot : Slot) (t : Nat) : Prop :=
  ∃ x, log[t]? = some x ∧ turnOf x = some (call, slot)

/-- Delivery `call` is of `data`. -/
def Delivers (log : List (Entry κ υ)) (call : Nat) (data : EventData) : Prop :=
  ∃ queued, log[call]? = some (.dispatched data queued)

/-- A delivery in progress against the log: begun, not over, its turns those of the slots so far. -/
structure Begun (log : List (Entry κ υ)) (d : Progress) : Prop where
  delivers : Delivers log d.call d.data
  unfinished : .finished d.call ∉ log
  turns : ∀ i : Slot, (∃ t, TurnAt log d.call i t) ↔ i.val < d.next

/-- The loops in progress, and those that have returned, against the turns on record. -/
structure TurnLaw (e : Exec κ υ) : Prop where
  begun : ∀ d ∈ inProgress e.stack, Begun e.log d
  apart : ((inProgress e.stack).map Progress.call).Nodup
  after : ∀ {c i t}, TurnAt e.log c i t → c < t
  order : ∀ {c i j t u}, TurnAt e.log c i t → TurnAt e.log c j u → (i < j ↔ t < u)
  ended : ∀ {c}, .finished c ∈ e.log → c < e.log.length ∧ ∀ i : Slot, ∃ t, TurnAt e.log c i t
  /-- Who is invoked held the slot, and subscribed to the event with that callback. -/
  sound : ∀ {c i t p callback userData},
    e.log[t]? = some (.invoked c i p callback userData) →
      ∃ s data, e.log[p]? = some (.subscribed i s) ∧ Holds e.log i p t ∧ Delivers e.log c data ∧
        s.event = data.id ∧ s.callback = some callback ∧ s.userData = userData
  /-- Who holds the slot at its turn, subscribed to the event with a callback, is invoked. -/
  complete : ∀ {c i t p s data callback}, TurnAt e.log c i t →
    e.log[p]? = some (.subscribed i s) → Holds e.log i p t → Delivers e.log c data →
      s.event = data.id → s.callback = some callback →
      e.log[t]? = some (.invoked c i p callback s.userData)

theorem turnAt_concat {log : List (Entry κ υ)} {x : Entry κ υ} {c t : Nat} {i : Slot} :
    TurnAt (log ++ [x]) c i t ↔ TurnAt log c i t ∨ t = log.length ∧ turnOf x = some (c, i) := by
  constructor
  · rintro ⟨y, hy, ht⟩
    rcases getElem?_concat.mp hy with hy | ⟨rfl, rfl⟩
    · exact .inl ⟨y, hy, ht⟩
    · exact .inr ⟨rfl, ht⟩
  · rintro (⟨y, hy, ht⟩ | ⟨rfl, ht⟩)
    · exact ⟨y, getElem?_concat_of hy, ht⟩
    · exact ⟨x, getElem?_concat.mpr (.inr ⟨rfl, rfl⟩), ht⟩

theorem TurnAt.lt {log : List (Entry κ υ)} {c t : Nat} {i : Slot} (h : TurnAt log c i t) :
    t < log.length := by
  obtain ⟨_, hx, _⟩ := h
  exact lt_of_getElem? hx

theorem holds_concat {log : List (Entry κ υ)} {x : Entry κ υ} {i : Slot} {p t : Nat}
    (ht : t ≤ log.length) : Holds (log ++ [x]) i p t ↔ Holds log i p t :=
  and_congr Iff.rfl (noneBetween_concat ht)

theorem delivers_concat {log : List (Entry κ υ)} {x : Entry κ υ} {c : Nat} {data : EventData}
    (hc : c < log.length) : Delivers (log ++ [x]) c data ↔ Delivers log c data := by
  constructor
  · rintro ⟨queued, hd⟩
    rcases getElem?_concat.mp hd with hd | ⟨rfl, -⟩
    · exact ⟨queued, hd⟩
    · exact absurd hc (Nat.lt_irrefl _)
  · rintro ⟨queued, hd⟩
    exact ⟨queued, getElem?_concat_of hd⟩

theorem Delivers.lt {log : List (Entry κ υ)} {c : Nat} {data : EventData}
    (h : Delivers log c data) : c < log.length := by
  obtain ⟨_, hd⟩ := h
  exact lt_of_getElem? hd

/-- An entry that is neither a turn nor the end of the delivery. -/
theorem Begun.concat {log : List (Entry κ υ)} {d : Progress} {x : Entry κ υ} (h : Begun log d)
    (ht : ∀ i, turnOf x ≠ some (d.call, i)) (hf : x ≠ .finished d.call) : Begun (log ++ [x]) d := by
  refine ⟨(delivers_concat h.delivers.lt).mpr h.delivers, ?_, fun i => ?_⟩
  · rw [List.mem_append, List.mem_singleton]
    exact fun hm => hm.elim h.unfinished (hf ·.symm)
  · rw [← h.turns i]
    simp only [turnAt_concat, ht i, and_false, or_false]

/-- **One more entry.** What is to show is about the new entry alone. -/
theorem TurnLaw.concat {e e' : Exec κ υ} {x : Entry κ υ} (h : TurnLaw e)
    (hl : e'.log = e.log ++ [x])
    (hbegun : ∀ d ∈ inProgress e'.stack, Begun (e.log ++ [x]) d)
    (hapart : ((inProgress e'.stack).map Progress.call).Nodup)
    (hturn : ∀ c i, turnOf x = some (c, i) →
      c < e.log.length ∧ ∀ j u, TurnAt e.log c j u → j < i)
    (hover : ∀ c, x = .finished c → c < e.log.length ∧ ∀ i : Slot, ∃ t, TurnAt e.log c i t)
    (hsound : ∀ c i p callback userData, x = .invoked c i p callback userData →
      ∃ s data, e.log[p]? = some (.subscribed i s) ∧ Holds e.log i p e.log.length ∧
        Delivers e.log c data ∧ s.event = data.id ∧ s.callback = some callback ∧
        s.userData = userData)
    (hcomplete : ∀ c i p s data callback, turnOf x = some (c, i) →
      e.log[p]? = some (.subscribed i s) → Holds e.log i p e.log.length →
      Delivers e.log c data → s.event = data.id → s.callback = some callback →
      x = .invoked c i p callback s.userData) : TurnLaw e' := by
  constructor
  · rw [hl]; exact hbegun
  · exact hapart
  · intro c i t ht
    rw [hl, turnAt_concat] at ht
    rcases ht with ht | ⟨rfl, ht⟩
    · exact h.after ht
    · exact (hturn c i ht).1
  · intro c i j t u ht hu
    rw [hl, turnAt_concat] at ht hu
    rcases ht with ht | ⟨rfl, ht⟩ <;> rcases hu with hu | ⟨rfl, hu⟩
    · exact h.order ht hu
    · exact ⟨fun _ => ht.lt, fun _ => (hturn c j hu).2 i t ht⟩
    · have hji := (hturn c i ht).2 j u hu
      have hlt := hu.lt
      exact ⟨fun hij => absurd hij (Nat.lt_asymm hji),
        fun hle => absurd (Nat.lt_trans hlt hle) (Nat.lt_irrefl _)⟩
    · obtain ⟨-, rfl⟩ := Prod.mk.inj (Option.some.inj (ht.symm.trans hu))
      exact ⟨fun hij => absurd hij (Nat.lt_irrefl _), fun hle => absurd hle (Nat.lt_irrefl _)⟩
  · intro c hc
    rw [hl, List.mem_append, List.mem_singleton] at hc
    have hold : c < e.log.length ∧ ∀ i : Slot, ∃ t, TurnAt e.log c i t :=
      hc.elim (fun hc => h.ended hc) (fun hc => hover c hc.symm)
    refine ⟨by rw [hl, List.length_append]; omega, fun i => ?_⟩
    obtain ⟨t, ht⟩ := hold.2 i
    exact ⟨t, by rw [hl, turnAt_concat]; exact .inl ht⟩
  · intro c i t p callback userData hx
    rw [hl] at hx ⊢
    have hold : ∃ s data, e.log[p]? = some (.subscribed i s) ∧ Holds e.log i p t ∧
        Delivers e.log c data ∧ s.event = data.id ∧ s.callback = some callback ∧
        s.userData = userData ∧ t ≤ e.log.length := by
      rcases getElem?_concat.mp hx with hold | ⟨rfl, hnew⟩
      · obtain ⟨s, data, h1, h2, h3, h4, h5, h6⟩ := h.sound hold
        exact ⟨s, data, h1, h2, h3, h4, h5, h6, Nat.le_of_lt (lt_of_getElem? hold)⟩
      · obtain ⟨s, data, h1, h2, h3, h4, h5, h6⟩ := hsound c i p callback userData hnew
        exact ⟨s, data, h1, h2, h3, h4, h5, h6, Nat.le_refl _⟩
    obtain ⟨s, data, h1, h2, h3, h4, h5, h6, hle⟩ := hold
    exact ⟨s, data, getElem?_concat_of h1, (holds_concat hle).mpr h2,
      (delivers_concat h3.lt).mpr h3, h4, h5, h6⟩
  · intro c i t p s data callback ht hp hh hd he hb
    rw [hl] at ht hp hh hd ⊢
    rcases turnAt_concat.mp ht with hold | ⟨rfl, hnew⟩
    · have hlt := hold.lt
      have hpl : p < e.log.length := Nat.lt_trans hh.1 hlt
      have hp' : e.log[p]? = some (.subscribed i s) := by
        rcases getElem?_concat.mp hp with hp | ⟨rfl, -⟩
        · exact hp
        · exact absurd hpl (Nat.lt_irrefl _)
      have hc : c < e.log.length := Nat.lt_trans (h.after hold) hlt
      exact getElem?_concat_of (h.complete hold hp' ((holds_concat (Nat.le_of_lt hlt)).mp hh)
        ((delivers_concat hc).mp hd) he hb)
    · have hp' : e.log[p]? = some (.subscribed i s) := by
        rcases getElem?_concat.mp hp with hp | ⟨rfl, -⟩
        · exact hp
        · exact absurd hh.1 (Nat.lt_irrefl _)
      have hx := hcomplete c i p s data callback hnew hp' ((holds_concat (Nat.le_refl _)).mp hh)
        ((delivers_concat (hturn c i hnew).1).mp hd) he hb
      exact getElem?_concat.mpr (.inr ⟨rfl, hx⟩)

/-- An entry that is no part of a delivery, with the loops as they were. -/
theorem TurnLaw.frame {e e' : Exec κ υ} {x : Entry κ υ} (h : TurnLaw e)
    (hs : inProgress e'.stack = inProgress e.stack) (hl : e'.log = e.log ++ [x])
    (ht : turnOf x = none) (hf : ∀ c, x ≠ .finished c) : TurnLaw e' := by
  refine h.concat hl ?_ (hs ▸ h.apart) ?_ ?_ ?_ ?_
  · rw [hs]
    exact fun d hd => (h.begun d hd).concat (fun i => by simp [ht]) (hf _)
  · intro c i hx; exact absurd hx (by simp [ht])
  · intro c hx; exact absurd hx (hf c)
  · rintro c i p callback userData rfl; exact absurd ht (by simp [turnOf])
  · intro c i p s data callback hx; exact absurd hx (by simp [ht])

theorem dispatch_turnLaw {e : Exec κ υ} (h : TurnLaw e) {rest : List Frame} {data : EventData}
    {queued : Bool} (hs : inProgress rest = inProgress e.stack) :
    TurnLaw (e.dispatch data queued rest) := by
  have hlt : ∀ d ∈ inProgress e.stack, d.call < e.log.length := fun d hd =>
    (h.begun d hd).delivers.lt
  have hstack : inProgress (e.dispatch data queued rest).stack =
      { call := e.log.length, data, next := 0 } :: inProgress e.stack :=
    congrArg (List.cons _) hs
  refine h.concat (x := .dispatched data queued) rfl ?_ ?_ (by simp [turnOf]) (by simp) (by simp)
    (by simp [turnOf])
  · rw [hstack]
    intro d hd
    rcases List.mem_cons.mp hd with rfl | hd
    · refine ⟨⟨queued, getElem?_concat.mpr (.inr ⟨rfl, rfl⟩)⟩, ?_, fun i => ?_⟩
      · rw [List.mem_append]
        exact fun hm => hm.elim (fun hm => absurd (h.ended hm).1 (Nat.lt_irrefl _)) (by simp)
      · refine ⟨fun ⟨t, ht⟩ => ?_, fun hi => absurd hi (Nat.not_lt_zero _)⟩
        rcases turnAt_concat.mp ht with hold | ⟨-, hx⟩
        · exact absurd (Nat.lt_trans (h.after hold) hold.lt) (Nat.lt_irrefl _)
        · exact absurd hx (by simp [turnOf])
    · exact (h.begun d hd).concat (by simp [turnOf]) (by simp)
  · rw [hstack, List.map_cons, List.nodup_cons]
    refine ⟨fun hm => ?_, h.apart⟩
    obtain ⟨d, hd, hc⟩ := List.mem_map.mp hm
    exact absurd (hc ▸ hlt d hd) (Nat.lt_irrefl _)

/-- The deliveries around the innermost one are other deliveries. -/
theorem call_ne_of_apart {d : Progress} {rest : List Progress}
    (h : ((d :: rest).map Progress.call).Nodup) {d' : Progress} (hd : d' ∈ rest) :
    d'.call ≠ d.call := by
  rw [List.map_cons, List.nodup_cons] at h
  exact fun hc => h.1 (List.mem_map.mpr ⟨d', hd, hc⟩)

/-- The innermost delivery takes the turn of its next slot. -/
theorem turn_turnLaw {e e' : Exec κ υ} (h : TurnLaw e) {c : Nat} {data : EventData} {i : Slot}
    {rest : List Progress} {x : Entry κ υ}
    (hs : inProgress e.stack = { call := c, data, next := i.val } :: rest)
    (hs' : inProgress e'.stack = { call := c, data, next := i.val + 1 } :: rest)
    (hl : e'.log = e.log ++ [x]) (ht : turnOf x = some (c, i))
    (hsound : ∀ c i p callback userData, x = .invoked c i p callback userData →
      ∃ s data, e.log[p]? = some (.subscribed i s) ∧ Holds e.log i p e.log.length ∧
        Delivers e.log c data ∧ s.event = data.id ∧ s.callback = some callback ∧
        s.userData = userData)
    (hcomplete : ∀ p s callback, e.log[p]? = some (.subscribed i s) →
      Holds e.log i p e.log.length → s.event = data.id → s.callback = some callback →
      x = .invoked c i p callback s.userData) : TurnLaw e' := by
  have hhead : Begun e.log { call := c, data, next := i.val } :=
    h.begun _ (hs ▸ List.mem_cons_self)
  have hf : ∀ c, x ≠ .finished c := by rintro c rfl; exact absurd ht (by simp [turnOf])
  have hapart := hs ▸ h.apart
  have hci : ∀ {c' : Nat} {j : Slot}, turnOf x = some (c', j) → c' = c ∧ j = i := fun hx =>
    (Prod.mk.inj (Option.some.inj (hx.symm.trans ht)))
  refine h.concat hl ?_ (by rw [hs']; exact hapart) ?_ (fun c hx => absurd hx (hf c)) hsound ?_
  · rw [hs']
    intro d hd
    rcases List.mem_cons.mp hd with rfl | hd
    · refine ⟨(delivers_concat hhead.delivers.lt).mpr hhead.delivers, ?_, fun j => ?_⟩
      · rw [List.mem_append, List.mem_singleton]
        exact fun hm => hm.elim hhead.unfinished (hf c ·.symm)
      · have hold := hhead.turns j
        constructor
        · rintro ⟨t, hj⟩
          rcases turnAt_concat.mp hj with hj | ⟨-, hx⟩
          · exact Nat.lt_succ_of_lt (hold.mp ⟨t, hj⟩)
          · exact (hci hx).2 ▸ Nat.lt_succ_self _
        · intro hj
          rcases Nat.lt_or_eq_of_le (Nat.le_of_lt_succ hj) with hj | hj
          · obtain ⟨t, ht⟩ := hold.mpr hj
            exact ⟨t, turnAt_concat.mpr (.inl ht)⟩
          · exact ⟨_, turnAt_concat.mpr (.inr ⟨rfl, Fin.ext hj ▸ ht⟩)⟩
    · have hne := call_ne_of_apart hapart hd
      exact (h.begun d (hs ▸ List.mem_cons_of_mem _ hd)).concat
        (fun j hx => hne (hci hx).1) (hf _)
  · intro c' j hx
    obtain ⟨rfl, rfl⟩ := hci hx
    exact ⟨hhead.delivers.lt, fun k u hk => (hhead.turns k).mp ⟨u, hk⟩⟩
  · intro c' j p s data' callback hx hp hh hd he hb
    obtain ⟨rfl, rfl⟩ := hci hx
    obtain ⟨_, hd₁⟩ := hd
    obtain ⟨_, hd₂⟩ := hhead.delivers
    have hdata : data' = data := (Entry.dispatched.inj (Option.some.inj (hd₁.symm.trans hd₂))).1
    exact hcomplete p s callback hp hh (hdata ▸ he) hb

/-- The innermost delivery has taken every turn and returns. -/
theorem finished_turnLaw {e e' : Exec κ υ} (h : TurnLaw e) {c n : Nat} {data : EventData}
    {rest : List Progress} (hs : inProgress e.stack = { call := c, data, next := n } :: rest)
    (hs' : inProgress e'.stack = rest) (hl : e'.log = e.log ++ [.finished c])
    (hn : kMaxEventSubscribers ≤ n) : TurnLaw e' := by
  have hhead : Begun e.log { call := c, data, next := n } := h.begun _ (hs ▸ List.mem_cons_self)
  have hapart := hs ▸ h.apart
  refine h.concat hl ?_ ?_ (by simp [turnOf]) ?_ (by simp) (by simp [turnOf])
  · rw [hs']
    intro d hd
    exact (h.begun d (hs ▸ List.mem_cons_of_mem _ hd)).concat (by simp [turnOf])
      fun hx => call_ne_of_apart hapart hd (Entry.finished.inj hx).symm
  · rw [hs']
    exact (List.nodup_cons.mp hapart).2
  · intro c' hx
    obtain rfl := Entry.finished.inj hx
    exact ⟨hhead.delivers.lt, fun i => (hhead.turns i).mpr (Nat.lt_of_lt_of_le i.isLt hn)⟩

/-- **The turn law is preserved by every step.** -/
theorem effect_turnLaw {e e' : Exec κ υ} {a : Act κ υ} (h : Effect e a e') (ht : TableLaw e)
    (hu : TurnLaw e) : TurnLaw e' := by
  -- whoever holds a slot when a turn comes is the owner of an active slot
  have hheld : ∀ {i : Slot} {p : Nat} {s : Subscription κ υ},
      e.log[p]? = some (.subscribed i s) → Holds e.log i p e.log.length →
        (e.bus.subscription i).active = true ∧ p = e.owner i ∧ s = e.bus.subscription i := by
    intro i p s hp hh
    obtain ⟨ha, rfl⟩ := ht.held i p s hp hh.2
    exact ⟨ha, rfl, (Entry.subscribed.inj (Option.some.inj (hp.symm.trans (ht.live i ha).1))).2⟩
  cases h with
  | idle => exact hu
  | draining => exact ⟨hu.begun, hu.apart, hu.after, hu.order, hu.ended, hu.sound, hu.complete⟩
  | returned call data i rest hs | drained rest hs =>
    -- the deliveries in progress and the turns they have taken are the same
    have hprog := congrArg inProgress hs
    exact ⟨fun d hd => hu.begun d (hprog ▸ hd), by have := hprog ▸ hu.apart; exact this, hu.after,
      hu.order, hu.ended, hu.sound, hu.complete⟩
  | subscribed | removed | accepted => exact hu.frame rfl rfl rfl (by simp)
  | published op hc data => exact dispatch_turnLaw hu rfl
  | dequeued rest hs hn =>
    have hu' : TurnLaw { e with bus := e.bus.dequeue.2 } :=
      ⟨hu.begun, hu.apart, hu.after, hu.order, hu.ended, hu.sound, hu.complete⟩
    have hprog : inProgress (.draining :: rest) = inProgress e.stack := congrArg inProgress hs.symm
    exact dispatch_turnLaw hu' hprog
  | invoked call data i rest hs callback ha he hb =>
    have hprog : inProgress e.stack = { call, data, next := i.val } :: inProgress rest :=
      congrArg inProgress hs
    have hhead : Begun e.log { call, data, next := i.val } :=
      hu.begun _ (hprog ▸ List.mem_cons_self)
    obtain ⟨hlog, hn⟩ := ht.live i ha
    refine turn_turnLaw hu hprog rfl rfl rfl ?_ ?_
    · intro c j p cb userData hx
      obtain ⟨rfl, rfl, rfl, rfl, rfl⟩ := Entry.invoked.inj hx
      exact ⟨_, data, hlog, ⟨lt_of_getElem? hlog, hn⟩,
        hhead.delivers, he, hb, rfl⟩
    · intro p s cb hp hh _ hcb
      obtain ⟨-, rfl, rfl⟩ := hheld hp hh
      rw [Option.some.inj (hb.symm.trans hcb)]
  | passed call data i rest hs hp =>
    refine turn_turnLaw hu (congrArg inProgress hs) rfl rfl rfl (by simp) ?_
    intro p s cb hsub hh he hcb
    obtain ⟨ha, -, rfl⟩ := hheld hsub hh
    exact absurd ((hp ha he).symm.trans hcb) (by simp)
  | finished call data i rest hs hi =>
    exact finished_turnLaw hu (congrArg inProgress hs) rfl rfl hi

theorem fresh_tableLaw : TableLaw ({} : Exec κ υ) := by
  constructor
  · intro i ha
    exact absurd ha (by simp [subscription])
  · intro i p s hp
    exact absurd hp (by simp)

theorem fresh_turnLaw : TurnLaw ({} : Exec κ υ) := by
  have hnone : ∀ {c i t}, ¬TurnAt ({} : Exec κ υ).log c i t := by
    rintro c i t ⟨x, hx, -⟩
    exact absurd hx (by simp)
  refine ⟨?_, List.nodup_nil, fun h => absurd h hnone, fun h => absurd h hnone, ?_, ?_,
    fun h => absurd h hnone⟩
  · intro d hd; exact absurd hd (by simp [inProgress])
  · intro c hc; exact absurd hc (by simp)
  · intro c i t p callback userData hx; exact absurd hx (by simp)

/-- **Both laws hold in every state of every run.** -/
theorem run_deliveryLaws {acts : List (Act κ υ)} {e : Exec κ υ}
    (h : run Exec.step {} acts = some e) : TableLaw e ∧ TurnLaw e :=
  run_preserves (fun e => TableLaw e ∧ TurnLaw e)
    (fun _ _ _ hi hs => ⟨effect_tableLaw (step_effect hs) hi.1,
      effect_turnLaw (step_effect hs) hi.1 hi.2⟩) ⟨fresh_tableLaw, fresh_turnLaw⟩ h

/-! ## Who a delivery reaches -/

/-- Delivery `call` invokes subscription `p`, in `slot`. -/
def Reaches (log : List (Entry κ υ)) (call : Nat) (slot : Slot) (p : Nat) : Prop :=
  ∃ (t : Nat) (callback : κ) (userData : Option υ),
    log[t]? = some (.invoked call slot p callback userData)

/--
**A delivery invokes, in the order of the slots and each once, exactly the subscriptions to
its event, with a callback, that hold their slot at its turn**: those active when it was
called and not removed before their turn, and those made since in a slot whose turn was yet
to come and not removed before it.
-/
theorem delivery_reaches {acts : List (Act κ υ)} {e : Exec κ υ} {c : Nat} {data : EventData}
    (h : run Exec.step {} acts = some e) (hc : Delivers e.log c data)
    (hf : .finished c ∈ e.log) :
    ∃ turn : Slot → Nat, (∀ i, c < turn i) ∧ (∀ i j, i < j ↔ turn i < turn j) ∧
      (∀ i p s, e.log[p]? = some (.subscribed i s) →
        (Reaches e.log c i p ↔
          s.event = data.id ∧ s.callback.isSome ∧ (p < c ∨ c < p ∧ p < turn i) ∧
            NoneBetween e.log (.removed i) p (turn i))) ∧
      ∀ t i p callback userData, e.log[t]? = some (.invoked c i p callback userData) →
        t = turn i ∧ ∃ s, e.log[p]? = some (.subscribed i s) ∧ s.callback = some callback ∧
          s.userData = userData := by
  obtain ⟨-, hu⟩ := run_deliveryLaws h
  have hturns := (hu.ended hf).2
  obtain ⟨turn, hturn⟩ := Classical.axiomOfChoice hturns
  have hat : ∀ {t i p callback userData},
      e.log[t]? = some (.invoked c i p callback userData) → t = turn i := by
    intro t i p callback userData hx
    have ht : TurnAt e.log c i t := ⟨_, hx, rfl⟩
    have hlt := hu.order ht (hturn i)
    have hgt := hu.order (hturn i) ht
    rcases Nat.lt_trichotomy t (turn i) with hl | he | hg
    · exact absurd (hlt.mpr hl) (Nat.lt_irrefl _)
    · exact he
    · exact absurd (hgt.mpr hg) (Nat.lt_irrefl _)
  refine ⟨turn, fun i => hu.after (hturn i), fun i j => hu.order (hturn i) (hturn j), ?_, ?_⟩
  · intro i p s hp
    constructor
    · rintro ⟨t, callback, userData, hx⟩
      obtain ⟨s', data', hp', hh, hd, he, hb, -⟩ := hu.sound hx
      have hs : s = s' := (Entry.subscribed.inj (Option.some.inj (hp.symm.trans hp'))).2
      have hdata : data' = data := by
        obtain ⟨_, hd₁⟩ := hd
        obtain ⟨_, hd₂⟩ := hc
        exact (Entry.dispatched.inj (Option.some.inj (hd₁.symm.trans hd₂))).1
      have hpc : p ≠ c := by
        rintro rfl
        obtain ⟨_, hd₂⟩ := hc
        exact absurd (hp.symm.trans hd₂) (by simp)
      obtain rfl := hat hx
      refine ⟨by rw [hs, he, hdata], by rw [hs, hb]; rfl, ?_, hh.2⟩
      rcases Nat.lt_or_gt_of_ne hpc with hlt | hgt
      · exact .inl hlt
      · exact .inr ⟨hgt, hh.1⟩
    · rintro ⟨he, hb, hp', hn⟩
      obtain ⟨callback, hb⟩ := Option.isSome_iff_exists.mp hb
      have hlt : p < turn i := hp'.elim (fun hpc => Nat.lt_trans hpc (hu.after (hturn i))) And.right
      exact ⟨turn i, callback, s.userData, hu.complete (hturn i) hp ⟨hlt, hn⟩ hc he hb⟩
  · intro t i p callback userData hx
    obtain ⟨s, -, hp, -, -, -, hb, hd⟩ := hu.sound hx
    exact ⟨hat hx, s, hp, hb, hd⟩

/-- A callback subscribes a second client, into the next slot. -/
theorem delivery_reaches_one : ∃ e : Exec Nat Nat,
    run Exec.step {} ([.call (.subscribe 5 (some 7) none), .call (.publish { id := 5 }), .advance,
      .call (.subscribe 5 (some 8) none), .ret, .advance, .ret] ++ List.replicate 31 .advance) =
        some e ∧
    ∃ turn : Slot → Nat, ∀ i, 1 < turn i := by
  have h : run Exec.step ({} : Exec Nat Nat) ([.call (.subscribe 5 (some 7) none),
      .call (.publish { id := 5 }), .advance, .call (.subscribe 5 (some 8) none), .ret, .advance,
      .ret] ++ List.replicate 31 .advance) = some _ := rfl
  obtain ⟨turn, hturn, -⟩ := delivery_reaches h (c := 1) ⟨false, rfl⟩ (by decide)
  exact ⟨_, h, turn, hturn⟩

/--
The subscription that the callback makes during the publish is invoked by that publish: it
is entry 3 of the log, the publish is entry 1.
-/
theorem delivery_reaches_later : ∃ e : Exec Nat Nat,
    run Exec.step {} [.call (.subscribe 5 (some 7) none), .call (.publish { id := 5 }), .advance,
      .call (.subscribe 5 (some 8) none), .ret, .advance] = some e ∧
    e.log[1]? = some (.dispatched { id := 5 } false) ∧
    e.log[3]? = some (.subscribed 1 { event := 5, callback := some 8, active := true }) ∧
    e.log[4]? = some (.invoked 1 1 3 8 none) :=
  ⟨_, rfl, rfl, rfl, rfl⟩

end TaktOS.Proof
