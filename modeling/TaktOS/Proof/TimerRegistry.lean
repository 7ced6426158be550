import Mathlib.Data.Fintype.Card
import TaktOS.Proof.TimerSteps

/-!
# The timer registry

The registry is sound when its slots and the handles of the timers agree. `onTimeout` registers
its timer whether or not it is registered, and a second slot for one timer is what breaks the
registry: the handle names the newer slot, and the destructor clears no other.

While the registry is sound, a tick call ticks a timer that keeps its slot exactly once. The
invariant of a tick call in progress is that it has ticked the timer if it is past its slot.
-/

namespace TaktOS.Proof

open TaktOS TimerManager Lib

variable {τ κ : Type}

/-! ## Slots in use -/

/-- The slots in use. -/
def nonNull (m : TimerManager τ) : Finset (Fin kMaxTimers) :=
  Finset.univ.filter fun i => (m.timers i).isSome

theorem mem_nonNull {m : TimerManager τ} {i : Fin kMaxTimers} :
    i ∈ nonNull m ↔ (m.timers i).isSome := by
  simp [nonNull]

theorem setSlot_timers (m : TimerManager τ) (i j : Fin kMaxTimers) (t : Option τ) :
    (m.setSlot i.val t).timers j = if j = i then t else m.timers j := by
  simp only [setSlot, Fin.ext_iff]

theorem card_setSlot_some {m : TimerManager τ} {i : Fin kMaxTimers} (t : τ)
    (h : m.timers i = none) :
    (nonNull (m.setSlot i.val (some t))).card = (nonNull m).card + 1 := by
  have hi : i ∉ nonNull m := by rw [mem_nonNull, h]; simp
  rw [← Finset.card_insert_of_notMem hi]
  congr 1
  ext j
  rw [mem_nonNull, setSlot_timers, Finset.mem_insert, mem_nonNull]
  split <;> simp [*]

theorem card_setSlot_none {m : TimerManager τ} {i : Fin kMaxTimers} (h : (m.timers i).isSome) :
    (nonNull (m.setSlot i.val none)).card = (nonNull m).card - 1 := by
  have hi : i ∈ nonNull m := mem_nonNull.mpr h
  rw [← Finset.card_erase_of_mem hi]
  congr 1
  ext j
  rw [mem_nonNull, setSlot_timers, Finset.mem_erase, mem_nonNull]
  split <;> simp [*]

/-- A slot is free while not all are in use. -/
theorem firstNull_of_card {m : TimerManager τ} (h : (nonNull m).card < kMaxTimers) :
    m.firstNull ≠ none := by
  intro hn
  have hall : nonNull m = Finset.univ :=
    Finset.eq_univ_iff_forall.mpr fun i => mem_nonNull.mpr (firstNull_none hn i)
  rw [hall, Finset.card_univ, Fintype.card_fin] at h
  exact Nat.lt_irrefl _ h

/-! ## The invariant -/

/-- The slots and the timers agree. -/
structure Registry (s : Sys τ κ) : Prop where
  /-- A slot refers to a timer that exists and has the slot as its handle. -/
  live : ∀ i t, s.manager.slot i = some t →
    ∃ timer, s.heap t = some timer ∧ timer.handle.toNat = i
  /-- No timer is in two slots. -/
  once : ∀ i j t, s.manager.slot i = some t → s.manager.slot j = some t → i = j
  count : s.manager.activeCount = (nonNull s.manager).card

/-- `onTimeout` finds its timer unregistered or the registry full. -/
def NotTwice (s : Sys τ κ) : Act τ κ → Prop
  | .call (.onTimeout t _) => s.clientActs → (∃ i, s.manager.slot i = some t) →
      kMaxTimers ≤ s.manager.activeCount
  | _ => True

/-- The step moves no timer. -/
def Moveless : Act τ κ → Prop
  | .call (.moveConstruct ..) | .call (.moveAssign ..) => False
  | _ => True

theorem slot_empty (i : Nat) : ({} : TimerManager τ).slot i = none := by
  rw [slot]
  split <;> rfl

theorem registry_init : Registry ({} : Sys τ κ) where
  live i t h := absurd ((slot_empty i).symm.trans h) (by simp)
  once i j t h := absurd ((slot_empty i).symm.trans h) (by simp)
  count := by simp [nonNull]

/-- The slots agree with whatever timers have the same handles. -/
theorem Registry.of_handles {s s' : Sys τ κ} (hr : Registry s) (hm : s'.manager = s.manager)
    (hh : ∀ t timer, s.heap t = some timer →
      ∃ timer', s'.heap t = some timer' ∧ timer'.handle = timer.handle) : Registry s' where
  live i t h := by
    rw [hm] at h
    obtain ⟨timer, ht, hi⟩ := hr.live i t h
    obtain ⟨timer', ht', he⟩ := hh t timer ht
    exact ⟨timer', ht', he ▸ hi⟩
  once i j t h h' := by
    rw [hm] at h h'
    exact hr.once i j t h h'
  count := by rw [hm]; exact hr.count

section Steps

variable [DecidableEq τ] {s s' : Sys τ κ}

/-- A change of one timer that leaves it its handle. -/
theorem handles_set {heap : Heap τ κ} {t : τ} {timer timer' : Timer κ}
    (ht : heap t = some timer) (he : timer'.handle = timer.handle) (u : τ) (x : Timer κ)
    (hu : heap u = some x) :
    ∃ x', heap.set t (some timer') u = some x' ∧ x'.handle = x.handle := by
  by_cases h : u = t
  · subst h
    have hx : timer = x := Option.some.inj (ht.symm.trans hu)
    exact ⟨timer', Heap.set_self .., he.trans (congrArg Timer.handle hx)⟩
  · exact ⟨x, (Heap.set_other heap _ h).trans hu, rfl⟩

/-- The destructor clears the slot that a registered timer has. -/
theorem registry_destroyed (hr : Registry s) {t : τ} {timer : Timer κ}
    (ht : s.heap t = some timer) :
    Registry { s with
      manager := (s.manager.unregisterTimer s.heap t timer).1
      heap := (s.manager.unregisterTimer s.heap t timer).2.set t none } := by
  have hhandle : ∀ i, s.manager.slot i = some t → timer.handle.toNat = i := by
    intro i hi
    obtain ⟨x, hx, he⟩ := hr.live i t hi
    have : timer = x := Option.some.inj (ht.symm.trans hx)
    exact this ▸ he
  rw [unregisterTimer]
  dsimp only
  split
  · rename_i hreg
    obtain ⟨hlt, hslot⟩ := hreg
    have hsome : (s.manager.timers ⟨timer.handle.toNat, hlt⟩).isSome := by
      rw [← slot_val, hslot]; rfl
    have hother : ∀ i u, (s.manager.setSlot timer.handle.toNat none).slot i = some u →
        s.manager.slot i = some u ∧ u ≠ t := by
      intro i u h
      rw [slot_setSlot _ hlt] at h
      split at h
      · exact absurd h (by simp)
      · rename_i hne
        exact ⟨h, fun hu => hne (hhandle i (hu ▸ h)).symm⟩
    exact {
      live := fun i u h => by
        obtain ⟨h, hu⟩ := hother i u h
        obtain ⟨x, hx, he⟩ := hr.live i u h
        exact ⟨x, (Heap.set_other _ _ hu).trans ((Heap.set_other _ _ hu).trans hx), he⟩
      once := fun i j u h h' => hr.once i j u (hother i u h).1 (hother j u h').1
      count := by
        have hc := card_setSlot_none hsome
        exact (congrArg (· - 1) hr.count).trans hc.symm }
  · rename_i hreg
    have hu : ∀ i u, s.manager.slot i = some u → u ≠ t := by
      intro i u h heq
      subst heq
      have hi := hhandle i h
      exact hreg ⟨hi ▸ slot_lt h, hi ▸ h⟩
    exact {
      live := fun i u h => by
        obtain ⟨x, hx, he⟩ := hr.live i u h
        exact ⟨x, (Heap.set_other _ _ (hu i u h)).trans hx, he⟩
      once := hr.once
      count := hr.count }

/-- A registration of a timer that is in no slot. -/
theorem registry_registered (hr : Registry s) {t : τ} {timer : Timer κ} {i : Fin kMaxTimers}
    (hn : ∀ j, s.manager.slot j ≠ some t) (hi : s.manager.firstNull = some i)
    (hh : timer.handle = UInt16.ofNat i.val) :
    Registry { s with
      manager := { s.manager.setSlot i.val (some t) with
        activeCount := s.manager.activeCount + 1 }
      heap := s.heap.set t (some timer) } := by
  have hslot : ∀ j u, (s.manager.setSlot i.val (some t)).slot j = some u →
      j = i.val ∧ u = t ∨ u ≠ t ∧ s.manager.slot j = some u := by
    intro j u h
    rw [slot_setSlot _ i.isLt] at h
    split at h
    · rename_i hj; exact .inl ⟨hj, (Option.some.inj h).symm⟩
    · exact .inr ⟨fun hu => hn j (hu ▸ h), h⟩
  have hval : timer.handle.toNat = i.val := by
    have hlt : i.val < 2 ^ 16 := Nat.lt_trans i.isLt (by decide)
    rw [hh, UInt16.toNat_ofNat', Nat.mod_eq_of_lt hlt]
  exact {
    live := fun j u h => by
      rcases hslot j u h with ⟨rfl, rfl⟩ | ⟨hu, h⟩
      · exact ⟨timer, Heap.set_self .., hval⟩
      · obtain ⟨x, hx, he⟩ := hr.live j u h
        exact ⟨x, (Heap.set_other _ _ hu).trans hx, he⟩
    once := fun j k u h h' => by
      rcases hslot j u h with ⟨rfl, rfl⟩ | ⟨hu, h⟩
      · rcases hslot k u h' with ⟨rfl, -⟩ | ⟨hu, -⟩
        · rfl
        · exact absurd rfl hu
      · rcases hslot k u h' with ⟨-, hu'⟩ | ⟨-, h'⟩
        · exact absurd hu' hu
        · exact hr.once j k u h h'
    count := by
      have hc := card_setSlot_some t (firstNull_some hi)
      exact (congrArg (· + 1) hr.count).trans hc.symm }

theorem registry_step (hr : Registry s) {a : Act τ κ} (hm : Moveless a) (hn : NotTwice s a)
    (h : s.step a = some s') : Registry s' := by
  cases timer_step_effect h with
  | constructed t intervalMs repeat_ hc ht =>
    refine hr.of_handles rfl fun u x hu => ?_
    have hne : u ≠ t := fun he => by rw [he, ht] at hu; exact absurd hu (by simp)
    exact ⟨x, (Heap.set_other _ _ hne).trans hu, rfl⟩
  | destroyed t timer hc ht => exact registry_destroyed hr ht
  | moveConstructed => exact hm.elim
  | moveAssigned => exact hm.elim
  | selfAssigned => exact hm.elim
  | intervalSet t intervalMs timer hc ht => exact hr.of_handles rfl (handles_set ht rfl)
  | repeatSet t repeat_ timer hc ht => exact hr.of_handles rfl (handles_set ht rfl)
  | timeoutSet t callback timer hc ht hf => exact hr.of_handles rfl (handles_set ht rfl)
  | registered t callback timer i hc ht hlt hi heap hheap =>
    subst hheap
    refine registry_registered hr (fun j hj => ?_) hi rfl
    exact absurd (hn hc ⟨j, hj⟩) (Nat.not_le_of_lt hlt)
  | controlled o t timer hc ht =>
    exact hr.of_handles rfl (handles_set ht (control_handle timer o))
  | ticked deltaMs hc => exact hr.of_handles rfl fun u x hu => ⟨x, hu, rfl⟩
  | returned c deltaMs i t n rest timer hs ht =>
    exact hr.of_handles rfl (handles_set ht (rearm_handle timer))
  | passed => exact hr.of_handles rfl fun u x hu => ⟨x, hu, rfl⟩
  | advanced c deltaMs i rest t timer hs hi ht hd =>
    exact hr.of_handles rfl (handles_set ht (tick_handle timer deltaMs))
  | fired c deltaMs i rest t timer hs hi ht hd hcb =>
    exact hr.of_handles rfl (handles_set ht (tick_handle timer deltaMs))
  | firedSilent c deltaMs i rest t timer hs hi ht hd hcb =>
    exact hr.of_handles rfl
      (handles_set ht ((rearm_handle _).trans (tick_handle timer deltaMs)))
  | finished => exact hr.of_handles rfl fun u x hu => ⟨x, hu, rfl⟩

/-- A second registration of one timer breaks the registry. -/
theorem notTwice_of_registry (hr : Registry s) {a : Act τ κ}
    (h : ∀ s', s.step a = some s' → Registry s') : NotTwice s a := by
  match a with
  | .call (.onTimeout t callback) =>
    rintro hc ⟨j, hj⟩
    by_contra hlt
    have hlt : s.manager.activeCount < kMaxTimers := Nat.lt_of_not_le hlt
    obtain ⟨timer, ht, -⟩ := hr.live j t hj
    obtain ⟨i, hi⟩ := Option.ne_none_iff_exists'.mp (firstNull_of_card (hr.count ▸ hlt))
    have hij : j ≠ i.val := by
      rintro rfl
      rw [slot_val, firstNull_some hi] at hj
      exact absurd hj (by simp)
    have hstep : ∃ s', s.step (.call (.onTimeout t callback)) = some s' ∧
        ∀ k, s'.manager.slot k = if k = i.val then some t else s.manager.slot k := by
      rw [Sys.step, if_pos hc, Sys.call, ht]
      dsimp only
      rw [registerTimer_free hlt hi]
      exact ⟨_, rfl, fun k => slot_setSlot s.manager i.isLt k (some t)⟩
    obtain ⟨s', hs', hslot⟩ := hstep
    refine hij ((h s' hs').once j i.val t ?_ ?_)
    · rw [hslot, if_neg hij]; exact hj
    · rw [hslot, if_pos rfl]
  | .ret | .advance | .call (.construct ..) | .call (.destroy ..) | .call (.moveConstruct ..)
  | .call (.moveAssign ..) | .call (.setInterval ..) | .call (.setRepeat ..)
  | .call (.control ..) | .call (.tick ..) => trivial

/-! ## A tick call ticks each timer once -/

/-- The tick call that a frame is of. -/
def frameCall : Frame τ → Nat
  | .scanning c _ _ => c
  | .calling c _ _ _ _ => c

/-- The first slot that the loop has still to pass. -/
def frameNext : Frame τ → Nat
  | .scanning _ _ i => i
  | .calling _ _ i _ _ => i + 1

/-- How often tick call `c` ticked the timer. -/
def visits (c : Nat) (t : τ) (log : List (Entry τ)) : Nat :=
  log.count (.advanced c t)

/-- What a step does to the loops in progress. -/
inductive LoopEffect (s s' : Sys τ κ) : Prop
  | stayed (hs : s'.stack = s.stack) (hk : s'.ticks = s.ticks)
      (hv : ∀ c t, visits c t s'.log = visits c t s.log)
  | begun (deltaMs : UInt32) (hs : s'.stack = .scanning s.ticks deltaMs 0 :: s.stack)
      (hk : s'.ticks = s.ticks + 1) (hv : ∀ c t, visits c t s'.log = visits c t s.log)
  | turned (f f' : Frame τ) (rest : List (Frame τ)) (hs : s.stack = f :: rest)
      (hs' : s'.stack = f' :: rest) (hc : frameCall f' = frameCall f) (hk : s'.ticks = s.ticks)
      (hn : frameNext f' = frameNext f ∨
        frameNext f' = frameNext f + 1 ∧ s.manager.slot (frameNext f) = none)
      (hv : ∀ c t, visits c t s'.log = visits c t s.log)
  | visited (f f' : Frame τ) (rest : List (Frame τ)) (hs : s.stack = f :: rest)
      (hs' : s'.stack = f' :: rest) (hc : frameCall f' = frameCall f) (hk : s'.ticks = s.ticks)
      (t : τ) (ht : s.manager.slot (frameNext f) = some t) (hn : frameNext f' = frameNext f + 1)
      (hv : ∀ c u, visits c u s'.log =
        visits c u s.log + if frameCall f = c ∧ t = u then 1 else 0)
  | ended (f : Frame τ) (hs : s.stack = f :: s'.stack) (hk : s'.ticks = s.ticks)
      (hn : kMaxTimers ≤ frameNext f) (hv : ∀ c t, visits c t s'.log = visits c t s.log)

theorem visits_control (c : Nat) (t : τ) (log : List (Entry τ)) (caller : Option (τ × Nat))
    (o : Control) (u : τ) : visits c t (log ++ [.control caller o u]) = visits c t log := by
  simp [visits]

theorem visits_tick (c : Nat) (t : τ) (log : List (Entry τ)) (deltaMs : UInt32) :
    visits c t (log ++ [.tick deltaMs]) = visits c t log := by
  simp [visits]

theorem visits_advanced (c c' : Nat) (t u : τ) (log : List (Entry τ)) :
    visits c u (log ++ [.advanced c' t]) =
      visits c u log + if c' = c ∧ t = u then 1 else 0 := by
  simp [visits, List.count_cons]

theorem visits_fired (c c' : Nat) (t u : τ) (log : List (Entry τ)) :
    visits c u (log ++ [.advanced c' t, .fired c' t]) =
      visits c u log + if c' = c ∧ t = u then 1 else 0 := by
  simp [visits, List.count_cons]

theorem loop_effect {a : Act τ κ} (h : s.step a = some s') : LoopEffect s s' := by
  cases timer_step_effect h with
  | constructed | destroyed | moveConstructed | moveAssigned | selfAssigned | intervalSet
  | repeatSet | timeoutSet | registered => exact .stayed rfl rfl fun _ _ => rfl
  | controlled o t timer hc ht => exact .stayed rfl rfl fun c u => visits_control c u _ _ _ _
  | ticked deltaMs hc => exact .begun deltaMs rfl rfl fun c u => visits_tick c u _ _
  | returned c deltaMs i t n rest timer hs ht =>
    exact .turned _ (.scanning c deltaMs (i + 1)) rest hs rfl rfl rfl (.inl rfl) fun _ _ => rfl
  | passed c deltaMs i rest hs hi hn =>
    exact .turned _ (.scanning c deltaMs (i + 1)) rest hs rfl rfl rfl (.inr ⟨rfl, hn⟩)
      fun _ _ => rfl
  | advanced c deltaMs i rest t timer hs hi ht hd =>
    exact .visited _ (.scanning c deltaMs (i + 1)) rest hs rfl rfl rfl t hi rfl
      fun c' u => visits_advanced c' c t u s.log
  | fired c deltaMs i rest t timer hs hi ht hd hcb =>
    exact .visited _ (.calling c deltaMs i t _) rest hs rfl rfl rfl t hi rfl
      fun c' u => visits_fired c' c t u s.log
  | firedSilent c deltaMs i rest t timer hs hi ht hd hcb =>
    exact .visited _ (.scanning c deltaMs (i + 1)) rest hs rfl rfl rfl t hi rfl
      fun c' u => visits_fired c' c t u s.log
  | finished c deltaMs i rest hs hi => exact .ended _ hs rfl hi fun _ _ => rfl

/-- The tick calls in progress are different and begun, and none other has ticked a timer. -/
structure Numbered (s : Sys τ κ) : Prop where
  begun : ∀ f ∈ s.stack, frameCall f < s.ticks
  apart : (s.stack.map frameCall).Nodup
  logged : ∀ c t, visits c t s.log ≠ 0 → c < s.ticks

theorem numbered_step (hn : Numbered s) {a : Act τ κ} (h : s.step a = some s') :
    Numbered s' := by
  cases loop_effect h with
  | stayed hs hk hv =>
    exact ⟨by rw [hs, hk]; exact hn.begun, by rw [hs]; exact hn.apart,
      fun c t hne => hk ▸ hn.logged c t (hv c t ▸ hne)⟩
  | begun deltaMs hs hk hv =>
    refine ⟨fun f hf => ?_, ?_, fun c t hne => ?_⟩
    · rw [hs] at hf
      rw [hk]
      rcases List.mem_cons.mp hf with rfl | hf
      · exact Nat.lt_succ_self _
      · exact Nat.lt_succ_of_lt (hn.begun f hf)
    · rw [hs, List.map_cons, List.nodup_cons]
      refine ⟨fun hmem => ?_, hn.apart⟩
      obtain ⟨f, hf, hc⟩ := List.mem_map.mp hmem
      exact Nat.lt_irrefl _ (hc ▸ hn.begun f hf)
    · exact hk ▸ Nat.lt_succ_of_lt (hn.logged c t (hv c t ▸ hne))
  | turned f f' rest hs hs' hc hk hnext hv =>
    have hb := hn.begun
    have ha := hn.apart
    rw [hs] at hb ha
    refine ⟨fun g hg => ?_, by rw [hs', List.map_cons, hc]; exact ha,
      fun c t hne => hk ▸ hn.logged c t (hv c t ▸ hne)⟩
    rw [hs'] at hg
    rw [hk]
    rcases List.mem_cons.mp hg with rfl | hg
    · exact hc ▸ hb f List.mem_cons_self
    · exact hb g (List.mem_cons_of_mem _ hg)
  | visited f f' rest hs hs' hc hk t ht hnext hv =>
    have hb := hn.begun
    have ha := hn.apart
    rw [hs] at hb ha
    refine ⟨fun g hg => ?_, by rw [hs', List.map_cons, hc]; exact ha, fun c u hne => ?_⟩
    · rw [hs'] at hg
      rw [hk]
      rcases List.mem_cons.mp hg with rfl | hg
      · exact hc ▸ hb f List.mem_cons_self
      · exact hb g (List.mem_cons_of_mem _ hg)
    · rw [hv] at hne
      rw [hk]
      by_cases hcu : frameCall f = c ∧ t = u
      · exact hcu.1 ▸ hb f List.mem_cons_self
      · rw [if_neg hcu] at hne
        exact hn.logged c u hne
  | ended f hs hk hnext hv =>
    have hb := hn.begun
    have ha := hn.apart
    rw [hs] at hb ha
    exact ⟨fun g hg => hk ▸ hb g (List.mem_cons_of_mem _ hg), (List.nodup_cons.mp ha).2,
      fun c t hne => hk ▸ hn.logged c t (hv c t ▸ hne)⟩

/-- Tick call `c` has ticked the timer in slot `i` once if it is past the slot. -/
structure VisitLaw (c : Nat) (t : τ) (i : Nat) (s : Sys τ κ) : Prop where
  begun : c < s.ticks
  inside : ∀ f ∈ s.stack, frameCall f = c →
    visits c t s.log = if i < frameNext f then 1 else 0
  returned : c ∉ s.stack.map frameCall → visits c t s.log = 1

theorem visitLaw_step {c i : Nat} {t : τ} (hr : Registry s) (hn : Numbered s)
    (hi : s.manager.slot i = some t) (hl : VisitLaw c t i s) {a : Act τ κ}
    (h : s.step a = some s') : VisitLaw c t i s' := by
  cases loop_effect h with
  | stayed hs hk hv =>
    exact ⟨hk ▸ hl.begun, by rw [hs, hv]; exact hl.inside, by rw [hs, hv]; exact hl.returned⟩
  | begun deltaMs hs hk hv =>
    refine ⟨hk ▸ Nat.lt_succ_of_lt hl.begun, fun f hf hc => ?_, fun hc => ?_⟩
    · rw [hs] at hf
      rw [hv]
      rcases List.mem_cons.mp hf with rfl | hf
      · exact absurd hc (Nat.ne_of_gt hl.begun)
      · exact hl.inside f hf hc
    · rw [hs, List.map_cons] at hc
      rw [hv]
      exact hl.returned fun hmem => hc (List.mem_cons_of_mem _ hmem)
  | turned f f' rest hs hs' hc hk hnext hv =>
    have hin := hl.inside
    have hret := hl.returned
    rw [hs] at hin hret
    refine ⟨hk ▸ hl.begun, fun g hg hgc => ?_, fun hg => ?_⟩
    · rw [hs'] at hg
      rw [hv]
      rcases List.mem_cons.mp hg with rfl | hg
      · rw [hin f List.mem_cons_self (hc ▸ hgc)]
        rcases hnext with hnext | ⟨hnext, hnone⟩
        · rw [hnext]
        · -- the slot passed is not the timer's
          have hne : i ≠ frameNext f := by
            rintro rfl
            rw [hnone] at hi
            exact absurd hi (by simp)
          rw [hnext]
          congr 1
          exact propext ⟨Nat.lt_succ_of_lt, fun hlt => by omega⟩
      · exact hin g (List.mem_cons_of_mem _ hg) hgc
    · rw [hs', List.map_cons, hc] at hg
      rw [hv]
      exact hret hg
  | visited f f' rest hs hs' hc hk u hu hnext hv =>
    have hin := hl.inside
    have hret := hl.returned
    have ha := hn.apart
    rw [hs] at hin hret ha
    have hfresh := (List.nodup_cons.mp ha).1
    refine ⟨hk ▸ hl.begun, fun g hg hgc => ?_, fun hg => ?_⟩
    · rw [hs'] at hg
      rw [hv]
      rcases List.mem_cons.mp hg with rfl | hg
      · have hfc : frameCall f = c := hc ▸ hgc
        rw [hin f List.mem_cons_self hfc, hnext]
        by_cases hut : u = t
        · have hif : i = frameNext f := hr.once i _ t hi (hut ▸ hu)
          rw [if_neg (by omega), if_pos ⟨hfc, hut⟩, if_pos (by omega)]
        · have hif : i ≠ frameNext f := by
            rintro rfl
            exact hut (Option.some.inj (hu.symm.trans hi))
          have hno : ¬(frameCall f = c ∧ u = t) := fun hcu => hut hcu.2
          rw [if_neg hno, Nat.add_zero]
          congr 1
          exact propext ⟨Nat.lt_succ_of_lt, fun hlt => by omega⟩
      · have hne : frameCall f ≠ c := by
          rintro rfl
          exact hfresh (hgc ▸ List.mem_map_of_mem hg)
        have hno : ¬(frameCall f = c ∧ u = t) := fun hcu => hne hcu.1
        rw [if_neg hno]
        exact hin g (List.mem_cons_of_mem _ hg) hgc
    · rw [hs', List.map_cons, hc] at hg
      have hno : ¬(frameCall f = c ∧ u = t) := fun hcu => hg (hcu.1 ▸ List.mem_cons_self)
      rw [hv, if_neg hno]
      exact hret hg
  | ended f hs hk hnext hv =>
    have hin := hl.inside
    have hret := hl.returned
    have ha := hn.apart
    rw [hs] at hin hret ha
    refine ⟨hk ▸ hl.begun, fun g hg hgc => ?_, fun hg => ?_⟩
    · rw [hv]; exact hin g (List.mem_cons_of_mem _ hg) hgc
    · rw [hv]
      by_cases hfc : frameCall f = c
      · -- the call returns past every slot
        have hlt : i < frameNext f := Nat.lt_of_lt_of_le (slot_lt hi) hnext
        rw [hin f List.mem_cons_self hfc, if_pos hlt]
      · exact hret fun hmem => (List.mem_cons.mp hmem).elim (fun he => hfc he.symm) hg

/-- A timer that is in a slot throughout a tick call is ticked in it once. -/
def TicksOnce (acts : List (Act τ κ)) : Prop :=
  ∀ before during deltaMs s s₁ s₂ t i, acts = before ++ .call (.tick deltaMs) :: during →
    run Sys.step {} before = some s → s.step (.call (.tick deltaMs)) = some s₁ →
    run Sys.step s₁ during = some s₂ →
    Along Sys.step (fun r _ => r.manager.slot i = some t) s₁ during →
    s.ticks ∉ s₂.stack.map frameCall → visits s.ticks t s₂.log = 1

theorem ticksOnce_of_notTwice {acts : List (Act τ κ)} (hm : ∀ a ∈ acts, Moveless a)
    (h : Along Sys.step NotTwice {} acts) : TicksOnce acts := by
  intro before during deltaMs s s₁ s₂ t i hacts hs hs₁ hs₂ hslot hret
  subst hacts
  obtain ⟨hbefore, hrest⟩ := (h.and_forall hm).split hs
  have hreg : Registry s ∧ Numbered s :=
    run_invariant (fun r => Registry r ∧ Numbered r)
      (fun r a r' hr hp hr' =>
        ⟨registry_step hr.1 hp.1 hp.2 hr', numbered_step hr.2 hr'⟩)
      ⟨registry_init, by simp, by simp, by simp [visits]⟩ hbefore hs
  obtain ⟨hp₁, hrest⟩ := hrest
  have hreg₁ := registry_step hreg.1 hp₁.1 hp₁.2 hs₁
  have hnum₁ := numbered_step hreg.2 hs₁
  have hlaw₁ : VisitLaw s.ticks t i s₁ := by
    have hzero : visits s.ticks t s.log = 0 := by
      by_contra hne
      exact Nat.lt_irrefl _ (hreg.2.logged _ _ hne)
    cases timer_step_effect hs₁ with
    | ticked _ hc =>
      refine ⟨Nat.lt_succ_self _, fun f hf hfc => ?_, fun hc => ?_⟩
      · rw [visits_tick, hzero]
        rcases List.mem_cons.mp hf with rfl | hf
        · exact (if_neg (Nat.not_lt_zero i)).symm
        · exact absurd (hreg.2.begun f hf) (Nat.not_lt_of_le (Nat.le_of_eq hfc.symm))
      · exact absurd List.mem_cons_self hc
  have hend : Registry s₂ ∧ Numbered s₂ ∧ VisitLaw s.ticks t i s₂ := by
    refine run_invariant (P := fun r a => (Moveless a ∧ NotTwice r a) ∧ r.manager.slot i = some t)
      (fun r => Registry r ∧ Numbered r ∧ VisitLaw s.ticks t i r) ?_ ⟨hreg₁, hnum₁, hlaw₁⟩ ?_ hs₂
    · rintro r a r' ⟨hr, hn, hl⟩ ⟨hp, hi⟩ hr'
      exact ⟨registry_step hr hp.1 hp.2 hr', numbered_step hn hr', visitLaw_step hr hn hi hl hr'⟩
    · exact (hrest s₁ hs₁).and hslot
  exact hend.2.2.returned hret

/-- **The registry is sound in every state of the runs that register no timer twice.** -/
theorem registry_iff_notTwice {acts : List (Act τ κ)} (hm : ∀ a ∈ acts, Moveless a) :
    (Along Sys.step (fun s a => ∀ s', s.step a = some s' → Registry s') {} acts ↔
      Along Sys.step NotTwice {} acts) ∧
      (Along Sys.step NotTwice {} acts → TicksOnce acts) := by
  refine ⟨?_, ticksOnce_of_notTwice hm⟩
  have hiff : Along Sys.step
      (fun s a => Moveless a ∧ ∀ s', s.step a = some s' → Registry s') {} acts ↔
      Along Sys.step (fun s a => Moveless a ∧ NotTwice s a) {} acts := by
    refine along_iff_of_invariant Registry (fun s a s' _ hp hs => hp.2 s' hs) (fun s a hr => ?_)
      registry_init
    exact and_congr_right fun hma =>
      ⟨fun h => notTwice_of_registry hr h, fun hn s' hs => registry_step hr hma hn hs⟩
  constructor
  · intro h
    exact (hiff.mp (h.and_forall hm)).imp fun _ _ hp => hp.2
  · intro h
    exact (hiff.mpr (h.and_forall hm)).imp fun _ _ hp => hp.2

end Steps

theorem registry_one_timer :
    Along Sys.step (fun s a => ∀ s', s.step a = some s' → Registry s') {}
      [.call (.construct 0 10 false), .call (.onTimeout 0 (some ())),
        .call (.control .start 0)] := by
  refine (registry_iff_notTwice (by simp [Moveless])).1.mpr ?_
  refine .cons rfl trivial (.cons rfl ?_ (.cons rfl trivial trivial))
  exact fun _ ⟨i, hi⟩ => absurd ((slot_empty i).symm.trans hi) (by simp)

/-- The timer is in two slots, and its destructor leaves it in one of them. -/
theorem second_registration_dangles :
    ∃ s : Sys Nat Unit, run Sys.step {}
        [.call (.construct 0 10 true), .call (.onTimeout 0 (some ())),
          .call (.onTimeout 0 (some ())), .call (.destroy 0)] = some s ∧
      s.manager.slot 0 = some 0 ∧ s.heap 0 = none ∧ ¬Registry s := by
  refine ⟨_, rfl, rfl, rfl, fun hr => ?_⟩
  obtain ⟨timer, ht, -⟩ := hr.live 0 0 rfl
  exact absurd ht (by simp [Heap.set])

end TaktOS.Proof
