import TaktOS.Proof.EventDelivery

/-!
# Handles of subscriptions

A handle is the index of a slot, and slots are reused, so two subscriptions at different
times have the same handle. `unsubscribe` looks only at whether the slot is active now: a
client that passes its handle a second time removes whoever has the slot since.

The clients are all those of a bus together. A call of `subscribe` is named by its place
among the calls, and an `unsubscribe` by the call whose handle it passes.
-/

namespace TaktOS.Proof

open TaktOS EventBus Lib

variable {κ υ : Type}

/-- The bus, what each call of `subscribe` returned, and the calls whose handle was passed on. -/
structure Clients (κ υ : Type) where
  bus : EventBus κ υ := {}
  handles : List Int := []
  used : List Nat := []

inductive HandleOp (κ υ : Type) where
  | subscribe (event : Event) (callback : Option κ) (userData : Option υ)
  /-- `unsubscribe` with what call number `call` of `subscribe` returned. -/
  | unsubscribe (call : Nat)
  /-- `unsubscribe` with a number that the client did not get from `subscribe`. -/
  | unsubscribeOther (handle : Int)

namespace Clients

/-- One call; `none` when the handle to be passed was never returned. -/
def step (s : Clients κ υ) : HandleOp κ υ → Option (Clients κ υ)
  | .subscribe event callback userData =>
    let (handle, bus) := s.bus.subscribe event callback userData
    some { s with bus, handles := s.handles ++ [handle] }
  | .unsubscribe call =>
    match s.handles[call]? with
    | none => none
    | some handle => some { s with bus := s.bus.unsubscribe handle, used := call :: s.used }
  | .unsubscribeOther handle => some { s with bus := s.bus.unsubscribe handle }

end Clients

/-- Slot `i` is active with the subscription of call `k`: the last call that was given it. -/
structure Current (s : Clients κ υ) (k : Nat) (i : Slot) : Prop where
  active : (s.bus.subscription i).active = true
  given : s.handles[k]? = some (i.val : Int)
  last : ∀ k', k < k' → s.handles[k']? ≠ some (i.val : Int)

/--
What the handles are relied on for: passing the handle of a subscription that is no longer
current changes no subscription, and a slot is only emptied by its own subscription's handle,
not passed before.
-/
structure Harmless (s : Clients κ υ) (op : HandleOp κ υ) : Prop where
  stale : ∀ k s', op = .unsubscribe k → (∀ i, ¬Current s k i) → s.step op = some s' →
    s'.bus.subscriptions = s.bus.subscriptions
  own : ∀ s' (i : Slot), s.step op = some s' → (s.bus.subscription i).active = true →
    (s'.bus.subscription i).active = false → ∃ k, op = .unsubscribe k ∧ Current s k i ∧ k ∉ s.used

/--
A handle that was passed before is passed only when every later call given the same slot has
had its handle passed too; a number from elsewhere only when every call given it has.
-/
def HandleUnshared (s : Clients κ υ) : HandleOp κ υ → Prop
  | .subscribe .. => True
  | .unsubscribe k => k ∈ s.used → ∀ i : Slot, s.handles[k]? = some (i.val : Int) →
      ∀ k', k < k' → s.handles[k']? = some (i.val : Int) → k' ∈ s.used
  | .unsubscribeOther handle => ∀ i : Slot, handle = (i.val : Int) →
      ∀ k, s.handles[k]? = some (i.val : Int) → k ∈ s.used

/-- The active slots are those of the subscriptions whose handle was not passed yet. -/
structure HandleLaw (s : Clients κ υ) : Prop where
  unused : ∀ (k : Nat) (i : Slot), s.handles[k]? = some (i.val : Int) → k ∉ s.used →
    Current s k i
  owned : ∀ i : Slot, (s.bus.subscription i).active = true → ∃ k, Current s k i ∧ k ∉ s.used
  issued : ∀ k ∈ s.used, k < s.handles.length

theorem slotOf_some {handle : Int} {i : Slot} (h : slotOf handle = some i) :
    handle = (i.val : Int) := by
  rw [slotOf] at h
  split at h
  · exact absurd h (by simp)
  · rw [← Option.some.inj h]
    simp only
    omega

theorem slot_ext {i j : Slot} (h : (i.val : Int) = (j.val : Int)) : i = j :=
  Fin.ext (Int.ofNat.inj h)

theorem unsubscribe_active {bus : EventBus κ υ} {i : Slot}
    (h : (bus.subscription i).active = true) : bus.unsubscribe (i.val : Int) = bus.clearSlot i := by
  rw [unsubscribe, slotOf_val]
  simp only [h, if_true]

/-- An `unsubscribe` that changes anything empties the active slot it names. -/
theorem unsubscribe_cases (bus : EventBus κ υ) (handle : Int) :
    bus.unsubscribe handle = bus ∨
      ∃ i : Slot, handle = (i.val : Int) ∧ (bus.subscription i).active = true ∧
        bus.unsubscribe handle = bus.clearSlot i := by
  cases hs : slotOf handle with
  | none => exact .inl (by rw [unsubscribe, hs])
  | some i =>
    cases ha : (bus.subscription i).active with
    | false => exact .inl (by rw [unsubscribe, hs]; simp only [ha, Bool.false_eq_true, if_false])
    | true =>
      have hi := slotOf_some hs
      exact .inr ⟨i, hi, ha, hi ▸ unsubscribe_active ha⟩

theorem Current.unique {s : Clients κ υ} {k k' : Nat} {i : Slot} (h : Current s k i)
    (h' : Current s k' i) : k = k' := by
  rcases Nat.lt_trichotomy k k' with hlt | he | hgt
  · exact absurd h'.given (h.last k' hlt)
  · exact he
  · exact absurd h.given (h'.last k hgt)

/-- Under the condition an `unsubscribe` empties its own subscription's slot, or does nothing. -/
theorem unsubscribe_own {s : Clients κ υ} {k : Nat} {handle : Int} (hl : HandleLaw s)
    (hc : HandleUnshared s (.unsubscribe k)) (hk : s.handles[k]? = some handle) :
    (s.bus.unsubscribe handle = s.bus ∧ ∀ i, Current s k i → k ∈ s.used) ∨
      ∃ i : Slot, Current s k i ∧ k ∉ s.used ∧ s.bus.unsubscribe handle = s.bus.clearSlot i := by
  rcases unsubscribe_cases s.bus handle with hsame | ⟨i, rfl, ha, hclear⟩
  · refine .inl ⟨hsame, fun i hcur => ?_⟩
    -- the slot of a current subscription is active, so the call would have emptied it
    have hi : handle = (i.val : Int) := Option.some.inj (hk.symm.trans hcur.given)
    have hact := congrArg (fun b => (b.subscription i).active)
      ((unsubscribe_active hcur.active).symm.trans (hi ▸ hsame))
    simp only [clearSlot_get, if_true, hcur.active] at hact
    exact absurd hact (by decide)
  · refine .inr ⟨i, ?_⟩
    obtain ⟨k₀, hcur, hu⟩ := hl.owned i ha
    by_cases hk₀ : k = k₀
    · exact hk₀ ▸ ⟨hcur, hu, hclear⟩
    · have hlt : k < k₀ := by
        rcases Nat.lt_or_gt_of_ne hk₀ with hlt | hgt
        · exact hlt
        · exact absurd hk (hcur.last k hgt)
      by_cases hused : k ∈ s.used
      · exact absurd (hc hused i hk k₀ hlt hcur.given) hu
      · exact absurd hcur.given ((hl.unused k i hk hused).last k₀ hlt)

theorem unsubscribeOther_same {s : Clients κ υ} {handle : Int} (hl : HandleLaw s)
    (hc : HandleUnshared s (.unsubscribeOther handle)) : s.bus.unsubscribe handle = s.bus := by
  rcases unsubscribe_cases s.bus handle with hsame | ⟨i, hi, ha, -⟩
  · exact hsame
  · obtain ⟨k, hcur, hu⟩ := hl.owned i ha
    exact absurd (hc i hi k hcur.given) hu

/-- Passing a handle that empties no slot only counts as passed. -/
theorem HandleLaw.pass {s : Clients κ υ} (hl : HandleLaw s) {k : Nat} (hk : k < s.handles.length)
    (hcur : ∀ i, Current s k i → k ∈ s.used) : HandleLaw { s with used := k :: s.used } := by
  refine ⟨fun k' i hg hu => ?_, fun i ha => ?_, fun k' hm => ?_⟩
  · have h := hl.unused k' i hg fun hm => hu (List.mem_cons_of_mem _ hm)
    exact ⟨h.active, h.given, h.last⟩
  · obtain ⟨k', h, hu⟩ := hl.owned i ha
    refine ⟨k', ⟨h.active, h.given, h.last⟩, fun hm => ?_⟩
    rcases List.mem_cons.mp hm with rfl | hm
    · exact hu (hcur i h)
    · exact hu hm
  · rcases List.mem_cons.mp hm with rfl | hm
    · exact hk
    · exact hl.issued k' hm

/-- Passing the handle of a current subscription ends that subscription alone. -/
theorem HandleLaw.clear {s : Clients κ υ} (hl : HandleLaw s) {k : Nat} {i : Slot}
    (hcur : Current s k i) :
    HandleLaw { s with bus := s.bus.clearSlot i, used := k :: s.used } := by
  have hother : ∀ {k' : Nat} {j : Slot}, Current s k' j → j ≠ i →
      Current { s with bus := s.bus.clearSlot i, used := k :: s.used } k' j := by
    intro k' j h hj
    exact ⟨by dsimp only; rw [clearSlot_get, if_neg hj]; exact h.active, h.given, h.last⟩
  refine ⟨fun k' j hg hu => ?_, fun j ha => ?_, fun k' hm => ?_⟩
  · have h := hl.unused k' j hg fun hm => hu (List.mem_cons_of_mem _ hm)
    refine hother h ?_
    rintro rfl
    exact hu (h.unique hcur ▸ List.mem_cons_self)
  · dsimp only at ha
    rw [clearSlot_get] at ha
    split at ha
    · exact absurd ha (by simp)
    · rename_i hj
      obtain ⟨k', h, hu⟩ := hl.owned j ha
      refine ⟨k', hother h hj, fun hm => ?_⟩
      rcases List.mem_cons.mp hm with rfl | hm
      · exact hj (slot_ext (Option.some.inj (h.given.symm.trans hcur.given)))
      · exact hu hm
  · rcases List.mem_cons.mp hm with rfl | hm
    · exact lt_of_getElem? hcur.given
    · exact hl.issued k' hm

/-- A `subscribe` that is refused. -/
theorem HandleLaw.refused {s : Clients κ υ} (hl : HandleLaw s) {handle : Int}
    (hs : slotOf handle = none) : HandleLaw { s with handles := s.handles ++ [handle] } := by
  have hgiven : ∀ {k : Nat} {i : Slot}, (s.handles ++ [handle])[k]? = some (i.val : Int) ↔
      s.handles[k]? = some (i.val : Int) := by
    intro k i
    rw [getElem?_concat]
    refine ⟨fun h => h.elim id fun ⟨_, hi⟩ => ?_, .inl⟩
    exact absurd (hs.symm.trans (hi ▸ slotOf_val i)) (by simp)
  have hcur : ∀ {k : Nat} {i : Slot}, Current s k i →
      Current { s with handles := s.handles ++ [handle] } k i := fun h =>
    ⟨h.active, hgiven.mpr h.given, fun k' hk' hg => h.last k' hk' (hgiven.mp hg)⟩
  refine ⟨fun k i hg hu => hcur (hl.unused k i (hgiven.mp hg) hu), fun i ha => ?_, fun k hm => ?_⟩
  · obtain ⟨k, h, hu⟩ := hl.owned i ha
    exact ⟨k, hcur h, hu⟩
  · have := hl.issued k hm
    rw [List.length_append]
    omega

/-- A `subscribe` that is given a slot, which no unused handle stands for. -/
theorem HandleLaw.given {s : Clients κ υ} (hl : HandleLaw s) {i : Slot} {sub : Subscription κ υ}
    (hi : (s.bus.subscription i).active = false) (hs : sub.active = true) :
    HandleLaw { s with
      bus := s.bus.fillSlot i sub
      handles := s.handles ++ [(i.val : Int)] } := by
  have hnew : Current { s with
      bus := s.bus.fillSlot i sub
      handles := s.handles ++ [(i.val : Int)] } s.handles.length i := by
    refine ⟨?_, getElem?_concat.mpr (.inr ⟨rfl, rfl⟩), fun k' hk' hg => ?_⟩
    · dsimp only
      rw [fillSlot_get, if_pos rfl]
      exact hs
    · have hlt := lt_of_getElem? hg
      rw [List.length_append, List.length_singleton] at hlt
      omega
  have hother : ∀ {k : Nat} {j : Slot}, Current s k j →
      Current { s with
        bus := s.bus.fillSlot i sub
        handles := s.handles ++ [(i.val : Int)] } k j := by
    intro k j h
    have hj : j ≠ i := by rintro rfl; exact absurd (h.active.symm.trans hi) (by decide)
    refine ⟨?_, getElem?_concat_of h.given, fun k' hk' hg => ?_⟩
    · dsimp only
      rw [fillSlot_get, if_neg hj]
      exact h.active
    · rcases getElem?_concat.mp hg with hg | ⟨-, hij⟩
      · exact h.last k' hk' hg
      · exact hj (slot_ext hij.symm)
  have hlen : s.handles.length ∉ s.used := fun hm => Nat.lt_irrefl _ (hl.issued _ hm)
  refine ⟨fun k j hg hu => ?_, fun j ha => ?_, fun k hm => ?_⟩
  · rcases getElem?_concat.mp hg with hg | ⟨rfl, hij⟩
    · exact hother (hl.unused k j hg hu)
    · exact slot_ext hij ▸ hnew
  · by_cases hj : j = i
    · exact ⟨_, hj ▸ hnew, hlen⟩
    · dsimp only at ha
      rw [fillSlot_get, if_neg hj] at ha
      obtain ⟨k, h, hu⟩ := hl.owned j ha
      exact ⟨k, hother h, hu⟩
  · have := hl.issued k hm
    rw [List.length_append]
    omega

theorem step_subscribe (s : Clients κ υ) (event : Event) (callback : Option κ)
    (userData : Option υ) : s.step (.subscribe event callback userData) = some { s with
      bus := (s.bus.subscribe event callback userData).2
      handles := s.handles ++ [(s.bus.subscribe event callback userData).1] } := rfl

/-- **The handle law is preserved by every call that meets the condition.** -/
theorem handleLaw_step {s s' : Clients κ υ} {op : HandleOp κ υ} (hl : HandleLaw s)
    (hc : HandleUnshared s op) (h : s.step op = some s') : HandleLaw s' := by
  cases op with
  | subscribe event callback userData =>
    rw [step_subscribe] at h
    rw [← Option.some.inj h]
    cases hs : slotOf (s.bus.subscribe event callback userData).1 with
    | none =>
      rw [subscribe_none hs]
      exact hl.refused hs
    | some i =>
      obtain ⟨hi, heq⟩ := subscribe_some hs
      rw [heq]
      exact hl.given hi rfl
  | unsubscribe k =>
    rw [Clients.step] at h
    cases hk : s.handles[k]? with
    | none => rw [hk] at h; exact absurd h (by simp)
    | some handle =>
      rw [hk] at h
      rw [← Option.some.inj h]
      rcases unsubscribe_own hl hc hk with ⟨hsame, hcur⟩ | ⟨i, hcur, -, hclear⟩
      · rw [hsame]; exact hl.pass (lt_of_getElem? hk) hcur
      · rw [hclear]; exact hl.clear hcur
  | unsubscribeOther handle =>
    rw [Clients.step] at h
    rw [← Option.some.inj h, unsubscribeOther_same hl hc]
    exact hl

/-- A `subscribe` empties no slot. -/
theorem subscribe_keeps {s s' : Clients κ υ} {event : Event} {callback : Option κ}
    {userData : Option υ} (h : s.step (.subscribe event callback userData) = some s') {i : Slot}
    (ha : (s.bus.subscription i).active = true) : (s'.bus.subscription i).active = true := by
  rw [step_subscribe] at h
  rw [← Option.some.inj h]
  cases hs : slotOf (s.bus.subscribe event callback userData).1 with
  | none => dsimp only; rw [subscribe_none hs]; exact ha
  | some j =>
    rw [(subscribe_some hs).2]
    dsimp only
    rw [fillSlot_get]
    split
    · rfl
    · exact ha

theorem unshared_harmless {s : Clients κ υ} {op : HandleOp κ υ} (hl : HandleLaw s)
    (hc : HandleUnshared s op) : Harmless s op := by
  cases op with
  | subscribe event callback userData =>
    refine ⟨fun k s' hop => by simp at hop, fun s' i h ha hn => ?_⟩
    exact absurd ((subscribe_keeps h ha).symm.trans hn) (by decide)
  | unsubscribe k =>
    have hown : ∀ {s'}, s.step (.unsubscribe k) = some s' →
        s'.bus = s.bus ∨ ∃ i : Slot, Current s k i ∧ k ∉ s.used ∧
          s'.bus = s.bus.clearSlot i := by
      intro s' h
      rw [Clients.step] at h
      cases hk : s.handles[k]? with
      | none => rw [hk] at h; exact absurd h (by simp)
      | some handle =>
        rw [hk] at h
        rw [← Option.some.inj h]
        rcases unsubscribe_own hl hc hk with ⟨hsame, -⟩ | hclear
        · exact .inl hsame
        · exact .inr hclear
    constructor
    · intro k' s' hop hstale h
      obtain rfl := HandleOp.unsubscribe.inj hop
      rcases hown h with hsame | ⟨i, hcur, -⟩
      · exact congrArg EventBus.subscriptions hsame
      · exact absurd hcur (hstale i)
    · intro s' i h ha hn
      rcases hown h with hsame | ⟨j, hcur, hu, hclear⟩
      · rw [hsame] at hn
        exact absurd (ha.symm.trans hn) (by decide)
      · rw [hclear, clearSlot_get] at hn
        split at hn
        · rename_i hij; exact ⟨k, rfl, hij ▸ hcur, hu⟩
        · exact absurd (ha.symm.trans hn) (by decide)
  | unsubscribeOther handle =>
    refine ⟨fun k s' hop => by simp at hop, fun s' i h ha hn => ?_⟩
    rw [Clients.step] at h
    rw [← Option.some.inj h, unsubscribeOther_same hl hc] at hn
    exact absurd (ha.symm.trans hn) (by decide)

/-- A call that empties the slot of a subscription whose handle is unused, and is not its own. -/
theorem not_harmless {s s' : Clients κ υ} {op : HandleOp κ υ} {k : Nat} {i : Slot}
    (hl : HandleLaw s) (hg : s.handles[k]? = some (i.val : Int)) (hu : k ∉ s.used)
    (h : s.step op = some s') (hb : s'.bus = s.bus.unsubscribe (i.val : Int))
    (hop : ∀ k', op = .unsubscribe k' → k' ∈ s.used) : ¬Harmless s op := by
  intro hh
  have ha := (hl.unused k i hg hu).active
  obtain ⟨k', hk', -, hu'⟩ := hh.own s' i h ha (by
    rw [hb, unsubscribe_active ha, clearSlot_get, if_pos rfl])
  exact hu' (hop k' hk')

theorem harmless_unshared {s : Clients κ υ} {op : HandleOp κ υ} (hl : HandleLaw s)
    (hh : Harmless s op) : HandleUnshared s op := by
  cases op with
  | subscribe event callback userData => trivial
  | unsubscribe k =>
    intro hused i hk k' _ hg
    refine Classical.byContradiction fun hu => ?_
    have h : s.step (.unsubscribe k) =
        some { s with bus := s.bus.unsubscribe (i.val : Int), used := k :: s.used } := by
      rw [Clients.step, hk]
    exact not_harmless hl hg hu h rfl (fun _ he => HandleOp.unsubscribe.inj he ▸ hused) hh
  | unsubscribeOther handle =>
    intro i hi k hg
    refine Classical.byContradiction fun hu => ?_
    exact not_harmless hl hg hu rfl (by rw [hi]) (fun _ he => by simp at he) hh

theorem fresh_handleLaw : HandleLaw ({} : Clients κ υ) := by
  refine ⟨fun k i hg => absurd hg (by simp), fun i ha => absurd ha (by simp [subscription]), ?_⟩
  intro k hm
  exact absurd hm (by simp)

/--
**Stale handles are harmless in exactly the runs in which no number is passed for a slot that
a subscription from a later call has**, its own handle still unused.
-/
theorem handles_harmless_iff (ops : List (HandleOp κ υ)) :
    Along Clients.step Harmless {} ops ↔ Along Clients.step HandleUnshared {} ops :=
  (along_iff_of_invariant HandleLaw (fun _ _ _ => handleLaw_step)
    (fun _ _ hl => ⟨unshared_harmless hl, harmless_unshared hl⟩) fresh_handleLaw).symm

/-- The first client passes its handle twice; the second has got the same one in between. -/
theorem handles_harm : ¬Along Clients.step Harmless ({} : Clients Nat Nat)
    [.subscribe 5 (some 7) none, .unsubscribe 0, .subscribe 6 (some 8) none, .unsubscribe 0] := by
  intro h
  have hlast := along_last [HandleOp.subscribe 5 (some 7) none, .unsubscribe 0,
    .subscribe 6 (some 8) none] h rfl
  obtain ⟨k, hk, -, hu⟩ := hlast.own _ 0 rfl (by decide) (by decide)
  obtain rfl := HandleOp.unsubscribe.inj hk
  exact hu (by decide)

end TaktOS.Proof
