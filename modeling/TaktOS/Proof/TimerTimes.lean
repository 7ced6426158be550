import Mathlib.Algebra.GroupWithZero.Nat
import TaktOS.Lib.History
import TaktOS.Proof.TimerRegistry

/-!
# No timer fires early

A tick call credits its milliseconds to the timers one slot after another. A timer that is
started before the loop has come to its slot is credited with a tick that began before the
start; a timer that is started behind the loop is not.

The invariant bounds what a timer has been credited with, and will be by the tick calls in
progress, by what the tick calls that began after the start advance.
-/

namespace TaktOS.Proof

open TaktOS TimerManager Lib

variable {τ κ : Type}

/-- The milliseconds that the tick calls of a log advance. -/
def advancedMs (log : List (Entry τ)) : Nat :=
  (log.map fun
    | .tick deltaMs => deltaMs.toNat
    | _ => 0).sum

theorem advancedMs_append (l l' : List (Entry τ)) :
    advancedMs (l ++ l') = advancedMs l + advancedMs l' := by
  simp [advancedMs]

/-- A timer fires when the tick calls that began after its start have advanced its interval. -/
def NeverEarly (s₀ : Sys τ κ) (log : List (Entry τ)) : Prop :=
  ∀ before between after caller c t timer,
    log = before ++ .control caller .start t :: (between ++ .fired c t :: after) →
    s₀.heap t = some timer → timer.intervalMs.toNat ≤ advancedMs between

/-- Timers are started, stopped and reset, and the manager ticks. -/
def Driven : Act τ κ → Prop
  | .call (.control ..) | .call (.tick _) | .ret | .advance => True
  | _ => False

theorem Driven.moveless {a : Act τ κ} (h : Driven a) : Moveless a := by
  cases a with
  | call op => cases op <;> trivial
  | ret => trivial
  | advance => trivial

theorem Driven.notTwice {a : Act τ κ} (h : Driven a) (s : Sys τ κ) : NotTwice s a := by
  cases a with
  | call op => cases op <;> trivial
  | ret => trivial
  | advance => trivial

/-- No timer is started while a tick call in progress has still to come to its slot. -/
def NotAhead (s : Sys τ κ) : Act τ κ → Prop
  | .call (.control .start t) => s.clientActs →
    ∀ i, s.manager.slot i = some t → ∀ f ∈ s.stack, i < frameNext f
  | _ => True

/-! ## What a timer is credited with -/

def frameDelta : Frame τ → UInt32
  | .scanning _ deltaMs _ => deltaMs
  | .calling _ deltaMs _ _ _ => deltaMs

/-- What the tick calls in progress have still to credit to the timer in slot `i`. -/
def pendingMs (i : Nat) (stack : List (Frame τ)) : Nat :=
  (stack.map fun f => if i < frameNext f then 0 else (frameDelta f).toNat).sum

theorem pendingMs_cons (i : Nat) (f : Frame τ) (stack : List (Frame τ)) :
    pendingMs i (f :: stack) =
      (if i < frameNext f then 0 else (frameDelta f).toNat) + pendingMs i stack := by
  simp [pendingMs]

theorem pendingMs_begin (i c : Nat) (deltaMs : UInt32) (stack : List (Frame τ)) :
    pendingMs i (.scanning c deltaMs 0 :: stack) = pendingMs i stack + deltaMs.toNat := by
  rw [pendingMs_cons]
  exact Nat.add_comm ..

/-- A loop that passes slot `j` has credited the timer there, and no other. -/
theorem pendingMs_pass (i j c : Nat) (deltaMs : UInt32) (rest : List (Frame τ)) :
    pendingMs i (.scanning c deltaMs j :: rest) =
      pendingMs i (.scanning c deltaMs (j + 1) :: rest) + if i = j then deltaMs.toNat else 0 := by
  have hcons : ∀ k, pendingMs i (.scanning c deltaMs k :: rest) =
      (if i < k then 0 else deltaMs.toNat) + pendingMs i rest := fun k => pendingMs_cons i _ rest
  rw [hcons, hcons]
  rcases Nat.lt_trichotomy i j with h | rfl | h
  · rw [if_pos h, if_pos (by omega), if_neg (by omega)]
    rfl
  · rw [if_neg (Nat.lt_irrefl i), if_pos (Nat.lt_succ_self i), if_pos rfl]
    omega
  · rw [if_neg (by omega), if_neg (by omega), if_neg (by omega)]
    rfl

theorem pendingMs_none {i : Nat} {stack : List (Frame τ)} (h : ∀ f ∈ stack, i < frameNext f) :
    pendingMs i stack = 0 := by
  induction stack with
  | nil => rfl
  | cons f stack ih =>
    rw [pendingMs_cons, if_pos (h f List.mem_cons_self),
      ih fun g hg => h g (List.mem_cons_of_mem _ hg)]

theorem tick_elapsed (timer : Timer κ) (deltaMs : UInt32) :
    (timer.tick deltaMs).1.elapsedMs.toNat ≤ timer.elapsedMs.toNat + deltaMs.toNat := by
  rw [Timer.tick]
  split
  · exact Nat.le_add_right ..
  · dsimp only
    rw [UInt32.toNat_add]
    exact Nat.mod_le ..

theorem tick_due {timer : Timer κ} {deltaMs : UInt32} (h : (timer.tick deltaMs).2 = true) :
    timer.intervalMs.toNat ≤ (timer.tick deltaMs).1.elapsedMs.toNat := by
  rw [Timer.tick] at h ⊢
  split at h
  · exact absurd h (by simp)
  · rename_i ha
    rw [if_neg ha]
    exact UInt32.le_iff_toNat_le.mp (of_decide_eq_true h)

@[simp] theorem tick_interval (timer : Timer κ) (deltaMs : UInt32) :
    (timer.tick deltaMs).1.intervalMs = timer.intervalMs := by
  rw [Timer.tick]
  split <;> rfl

theorem rearm_elapsed (timer : Timer κ) : timer.rearm.elapsedMs.toNat ≤ timer.elapsedMs.toNat := by
  rw [Timer.rearm]
  split
  · exact Nat.zero_le _
  · exact Nat.le_refl _

@[simp] theorem rearm_interval (timer : Timer κ) : timer.rearm.intervalMs = timer.intervalMs := by
  rw [Timer.rearm]
  split <;> rfl

theorem control_elapsed (timer : Timer κ) (o : Control) :
    (timer.control o).elapsedMs.toNat ≤ timer.elapsedMs.toNat := by
  cases o with
  | start => exact Nat.zero_le _
  | stop => exact Nat.le_refl _
  | reset => exact Nat.zero_le _

@[simp] theorem control_interval (timer : Timer κ) (o : Control) :
    (timer.control o).intervalMs = timer.intervalMs := by
  cases o <;> rfl

/-! ## The invariant -/

/-- The timers have the intervals that they had, and none is early. -/
structure Timely (s₀ s : Sys τ κ) : Prop where
  registry : Registry s
  intervals : ∀ t timer, s.heap t = some timer →
    ∃ timer₀, s₀.heap t = some timer₀ ∧ timer₀.intervalMs = timer.intervalMs
  credited : ∀ before after caller t i timer,
    s.log = before ++ .control caller .start t :: after → s.manager.slot i = some t →
    s.heap t = some timer →
    timer.elapsedMs.toNat + pendingMs i s.stack ≤ advancedMs after
  never : NeverEarly s₀ s.log

variable {s₀ s s' : Sys τ κ}

/-- A step that starts and fires no timer, and credits no more than it advances. -/
theorem Timely.of_charge (hl : Timely s₀ s) (hr : Registry s') (hm : s'.manager = s.manager)
    {last : List (Entry τ)} (hlog : s'.log = s.log ++ last)
    (hstart : ∀ caller t, .control caller .start t ∉ last) (hfired : ∀ c t, .fired c t ∉ last)
    (hheap : ∀ t timer', s'.heap t = some timer' →
      ∃ timer, s.heap t = some timer ∧ timer.intervalMs = timer'.intervalMs ∧
        ∀ i, s.manager.slot i = some t →
          timer'.elapsedMs.toNat + pendingMs i s'.stack ≤
            timer.elapsedMs.toNat + (pendingMs i s.stack + advancedMs last)) :
    Timely s₀ s' where
  registry := hr
  intervals t timer' ht := by
    obtain ⟨timer, hs, hi, -⟩ := hheap t timer' ht
    obtain ⟨timer₀, h₀, hi₀⟩ := hl.intervals t timer hs
    exact ⟨timer₀, h₀, hi₀.trans hi⟩
  credited before after caller t i timer' hsplit hslot ht := by
    rw [hlog] at hsplit
    rw [hm] at hslot
    obtain ⟨rest, rfl, hold⟩ := append_eq_split (hstart caller t) hsplit
    obtain ⟨timer, hs, -, hle⟩ := hheap t timer' ht
    have hbound := hl.credited before rest caller t i timer hold hslot hs
    rw [advancedMs_append]
    have := hle i hslot
    omega
  never before between after caller c t timer hsplit h₀ := by
    rw [hlog, ← List.cons_append, ← List.append_assoc] at hsplit
    obtain ⟨rest, -, hold⟩ := append_eq_split (hfired c t) hsplit
    exact hl.never before between rest caller c t timer (by rw [hold, List.append_assoc]; rfl) h₀

/-- A firing that is not early. -/
theorem Timely.of_fired {c : Nat} {t : τ} {timer : Timer κ} (hl : Timely s₀ s)
    (h₀ : s₀.heap t = some timer)
    (hbound : ∀ before after caller, s.log = before ++ .control caller .start t :: after →
      timer.intervalMs.toNat ≤ advancedMs after) :
    Timely s₀ { s with log := s.log ++ [.fired c t] } where
  registry := ⟨hl.registry.live, hl.registry.once, hl.registry.count⟩
  intervals := hl.intervals
  credited before after caller u i timer' hsplit hslot ht := by
    obtain ⟨rest, rfl, hold⟩ := append_eq_split (by simp) hsplit
    rw [advancedMs_append]
    exact Nat.le_trans (hl.credited before rest caller u i timer' hold hslot ht)
      (Nat.le_add_right ..)
  never before between after caller c' u timer' hsplit hu := by
    rw [← List.cons_append, ← List.append_assoc] at hsplit
    rcases concat_eq_split hsplit with ⟨rest, -, hold⟩ | ⟨-, hold, hsame⟩
    · exact hl.never before between rest caller c' u timer'
        (by rw [hold, List.append_assoc]; rfl) hu
    · cases hsame
      cases h₀.symm.trans hu
      exact hbound before between caller hold

/-- A timer that is due has been credited with its interval since its start. -/
theorem Timely.due (hl : Timely s₀ s) {c j : Nat} {deltaMs : UInt32} {rest : List (Frame τ)}
    {t : τ} {timer timer₀ : Timer κ} (hs : s.stack = .scanning c deltaMs j :: rest)
    (hj : s.manager.slot j = some t) (ht : s.heap t = some timer)
    (hdue : (timer.tick deltaMs).2 = true) (h₀ : timer₀.intervalMs = timer.intervalMs)
    {before after : List (Entry τ)} {caller : Option (τ × Nat)}
    (hlog : s.log ++ [.advanced c t] = before ++ .control caller .start t :: after) :
    timer₀.intervalMs.toNat ≤ advancedMs after := by
  obtain ⟨rest', rfl, hold⟩ := append_eq_split (by simp) hlog
  have hbound := hl.credited before rest' caller t j timer hold hj ht
  have helapsed := tick_elapsed timer deltaMs
  have hint := tick_due hdue
  rw [← h₀] at hint
  rw [hs, pendingMs_pass j j, if_pos rfl] at hbound
  rw [advancedMs_append]
  omega

section Steps

variable [DecidableEq τ]

/-- One timer changes, and its interval does not. -/
theorem charge_set (old new : Nat → Nat) {heap : Heap τ κ} {t : τ} {timer timer' : Timer κ}
    {m : TimerManager τ} (ht : heap t = some timer) (hi : timer'.intervalMs = timer.intervalMs)
    (hself : ∀ i, m.slot i = some t →
      timer'.elapsedMs.toNat + new i ≤ timer.elapsedMs.toNat + old i)
    (hother : ∀ u i, u ≠ t → m.slot i = some u → new i ≤ old i) (u : τ) (x' : Timer κ)
    (hx : heap.set t (some timer') u = some x') :
    ∃ x, heap u = some x ∧ x.intervalMs = x'.intervalMs ∧ ∀ i, m.slot i = some u →
      x'.elapsedMs.toNat + new i ≤ x.elapsedMs.toNat + old i := by
  by_cases h : u = t
  · subst h
    rw [Heap.set_self] at hx
    cases hx
    exact ⟨timer, ht, hi.symm, hself⟩
  · rw [Heap.set_other _ _ h] at hx
    exact ⟨x', hx, rfl, fun i hslot => Nat.add_le_add_left (hother u i h hslot) _⟩

/-- A control call credits nothing, and a start only what no tick call in progress has still to. -/
theorem Timely.controlled (hl : Timely s₀ s) {o : Control} {t : τ} {timer : Timer κ}
    {caller : Option (τ × Nat)} (hc : s.clientActs)
    (ht : s.heap t = some timer) (hn : NotAhead s (.call (.control o t))) (hr : Registry { s with
      heap := s.heap.set t (some (timer.control o)), log := s.log ++ [.control caller o t] }) :
    Timely s₀ { s with
      heap := s.heap.set t (some (timer.control o)), log := s.log ++ [.control caller o t] } where
  registry := hr
  intervals u x hx := by
    obtain ⟨x₀, h₀, hi, -⟩ := charge_set (m := s.manager) (fun _ => 0) (fun _ => 0)
      ht (control_interval timer o) (fun i _ => control_elapsed timer o)
      (fun _ _ _ _ => Nat.le_refl _) u x hx
    obtain ⟨timer₀, hs₀, hi₀⟩ := hl.intervals u x₀ h₀
    exact ⟨timer₀, hs₀, hi₀.trans hi⟩
  credited before after caller' u i x hsplit hslot hx := by
    rcases concat_eq_split hsplit with ⟨rest, rfl, hold⟩ | ⟨rfl, -, hsame⟩
    · obtain ⟨x₀, h₀, -, hle⟩ := charge_set (m := s.manager)
        (fun j => pendingMs j s.stack) (fun j => pendingMs j s.stack)
        ht (control_interval timer o)
        (fun i _ => Nat.add_le_add_right (control_elapsed timer o) _)
        (fun _ _ _ _ => Nat.le_refl _) u x hx
      have hbound := hl.credited before rest caller' u i x₀ hold hslot h₀
      rw [advancedMs_append]
      exact Nat.le_trans (hle i hslot) (Nat.le_trans hbound (Nat.le_add_right ..))
    · -- the start is the last call
      cases hsame
      have hx : some (timer.control .start) = some x := (Heap.set_self ..).symm.trans hx
      cases hx
      exact Nat.le_of_eq (congrArg (0 + ·) (pendingMs_none (hn hc i hslot)))
  never before between after caller' c u x hsplit h₀ := by
    rw [← List.cons_append, ← List.append_assoc] at hsplit
    obtain ⟨rest, -, hold⟩ := append_eq_split (by simp) hsplit
    exact hl.never before between rest caller' c u x (by rw [hold, List.append_assoc]; rfl) h₀

/-- A tick of the timer in the slot that the loop is at. -/
theorem Timely.visited (hl : Timely s₀ s) {c j : Nat} {deltaMs : UInt32} {rest : List (Frame τ)}
    {t : τ} {timer timer' : Timer κ} (hs : s.stack = .scanning c deltaMs j :: rest)
    (hj : s.manager.slot j = some t) (ht : s.heap t = some timer)
    (hi : timer'.intervalMs = timer.intervalMs)
    (he : timer'.elapsedMs.toNat ≤ timer.elapsedMs.toNat + deltaMs.toNat) (hr : Registry s')
    (hm : s'.manager = s.manager) (hheap : s'.heap = s.heap.set t (some timer'))
    (hstack : ∀ i, pendingMs i s'.stack = pendingMs i (.scanning c deltaMs (j + 1) :: rest))
    (hlog : s'.log = s.log ++ [.advanced c t]) : Timely s₀ s' := by
  refine hl.of_charge hr hm hlog (by simp) (by simp) ?_
  rw [hheap]
  refine charge_set _ _ ht hi (fun i hslot => ?_) fun u i hne hslot => ?_
  · obtain rfl : i = j := hl.registry.once i j t hslot hj
    rw [hstack, hs, pendingMs_pass i i, if_pos rfl]
    omega
  · have hij : i ≠ j := by
      rintro rfl
      exact hne (Option.some.inj (hslot.symm.trans hj))
    rw [hstack, hs, pendingMs_pass i j, if_neg hij]
    exact Nat.le_add_right ..

theorem timely_step (hl : Timely s₀ s) {a : Act τ κ} (hd : Driven a) (hn : NotAhead s a)
    (h : s.step a = some s') : Timely s₀ s' := by
  have hr : Registry s' := registry_step hl.registry hd.moveless (hd.notTwice s) h
  cases timer_step_effect h with
  | constructed | destroyed | moveConstructed | moveAssigned | selfAssigned | intervalSet
  | repeatSet | timeoutSet | registered => exact hd.elim
  | controlled o t timer hc ht => exact hl.controlled hc ht hn hr
  | ticked deltaMs hc =>
    refine hl.of_charge hr rfl rfl (by simp) (by simp) fun t timer ht =>
      ⟨timer, ht, rfl, fun i hslot => ?_⟩
    rw [pendingMs_begin]
    exact Nat.le_refl _
  | returned c deltaMs j t n rest timer hs ht =>
    refine hl.of_charge hr rfl (List.append_nil _).symm (by simp) (by simp)
      (charge_set _ _ ht (rearm_interval timer) (fun i hslot => ?_) fun u i hne hslot => ?_)
    · rw [hs]
      exact Nat.add_le_add_right (rearm_elapsed timer) _
    · rw [hs]
      exact Nat.le_refl _
  | passed c deltaMs j rest hs hj hnone =>
    refine hl.of_charge hr rfl (List.append_nil _).symm (by simp) (by simp) fun t timer ht =>
      ⟨timer, ht, rfl, fun i hslot => ?_⟩
    rw [hs, pendingMs_pass i j]
    exact Nat.add_le_add_left (Nat.le_trans (Nat.le_add_right ..) (Nat.le_add_right ..)) _
  | advanced c deltaMs j rest t timer hs hj ht hdue =>
    exact hl.visited hs hj ht (tick_interval timer deltaMs) (tick_elapsed timer deltaMs) hr rfl rfl
      (fun _ => rfl) rfl
  | fired c deltaMs j rest t timer hs hj ht hdue hcb =>
    obtain ⟨timer₀, h₀, hi₀⟩ := hl.intervals t timer ht
    have hmid : Timely s₀ { s with
        heap := s.heap.set t (some (timer.tick deltaMs).1)
        stack := .calling c deltaMs j t (firings t s.log).length :: rest
        log := s.log ++ [.advanced c t] } :=
      hl.visited hs hj ht (tick_interval timer deltaMs) (tick_elapsed timer deltaMs)
        ⟨hr.live, hr.once, hr.count⟩ rfl rfl (fun _ => rfl) rfl
    have hlast := hmid.of_fired (c := c) h₀ fun before after caller hlog =>
      hl.due hs hj ht hdue hi₀ hlog
    rw [List.append_assoc] at hlast
    exact hlast
  | firedSilent c deltaMs j rest t timer hs hj ht hdue hcb =>
    obtain ⟨timer₀, h₀, hi₀⟩ := hl.intervals t timer ht
    have hmid : Timely s₀ { s with
        heap := s.heap.set t (some (timer.tick deltaMs).1.rearm)
        stack := .scanning c deltaMs (j + 1) :: rest
        log := s.log ++ [.advanced c t] } :=
      hl.visited hs hj ht ((rearm_interval _).trans (tick_interval timer deltaMs))
        (Nat.le_trans (rearm_elapsed _) (tick_elapsed timer deltaMs))
        ⟨hr.live, hr.once, hr.count⟩ rfl rfl (fun _ => rfl) rfl
    have hlast := hmid.of_fired (c := c) h₀ fun before after caller hlog =>
      hl.due hs hj ht hdue hi₀ hlog
    rw [List.append_assoc] at hlast
    exact hlast
  | finished c deltaMs j rest hs hj =>
    refine hl.of_charge hr rfl (List.append_nil _).symm (by simp) (by simp) fun t timer ht =>
      ⟨timer, ht, rfl, fun i hslot => ?_⟩
    rw [hs, pendingMs_cons]
    exact Nat.add_le_add_left (Nat.le_add_left ..) _

/-- **No timer that is started behind the loops in progress fires early.** -/
theorem neverEarly_of_notAhead {acts : List (Act τ κ)} (hr : Registry s₀) (hlog : s₀.log = [])
    (hd : ∀ a ∈ acts, Driven a) (hn : Along Sys.step NotAhead s₀ acts)
    (h : run Sys.step s₀ acts = some s) : NeverEarly s₀ s.log := by
  have hinit : Timely s₀ s₀ :=
    ⟨hr, fun t timer ht => ⟨timer, ht, rfl⟩, by simp [hlog], by simp [NeverEarly, hlog]⟩
  exact (run_invariant (Timely s₀) (fun r a r' hl hp hr' => timely_step hl hp.1 hp.2 hr') hinit
    (hn.and_forall hd) h).never

end Steps

end TaktOS.Proof
