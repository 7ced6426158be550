import TaktOS.Kernel.Timer

/-!
# What a step of the timers does

`TimerEffect` says once what a step can do. Beside it are the laws of the slots and of the
heap.
-/

namespace TaktOS.Proof

open TaktOS TimerManager Lib

variable {τ κ : Type}

/-! ## Slots -/

theorem slot_lt {m : TimerManager τ} {i : Nat} {t : τ} (h : m.slot i = some t) :
    i < kMaxTimers := by
  rw [slot] at h
  split at h
  · assumption
  · exact absurd h (by simp)

@[simp] theorem slot_val (m : TimerManager τ) (i : Fin kMaxTimers) : m.slot i.val = m.timers i :=
  dif_pos i.isLt

theorem slot_setSlot (m : TimerManager τ) {i : Nat} (hi : i < kMaxTimers) (j : Nat)
    (t : Option τ) : (m.setSlot i t).slot j = if j = i then t else m.slot j := by
  simp only [slot, setSlot]
  split
  · rfl
  · rename_i hj
    have : j ≠ i := by omega
    rw [if_neg this]

theorem firstNull_some {m : TimerManager τ} {i : Fin kMaxTimers} (h : m.firstNull = some i) :
    m.timers i = none := by
  have hi := List.find?_some h
  exact Option.isNone_iff_eq_none.mp hi

theorem firstNull_none {m : TimerManager τ} (h : m.firstNull = none) (i : Fin kMaxTimers) :
    (m.timers i).isSome := by
  have hi := List.find?_eq_none.mp h i (List.mem_finRange i)
  simpa [Option.isSome_iff_ne_none] using hi

section Steps

variable [DecidableEq τ]

@[simp] theorem Heap.set_self (heap : Heap τ κ) (t : τ) (timer : Option (Timer κ)) :
    heap.set t timer t = timer := if_pos rfl

theorem Heap.set_other (heap : Heap τ κ) {t u : τ} (timer : Option (Timer κ)) (h : u ≠ t) :
    heap.set t timer u = heap u := if_neg h

/-- Everything one step can do. -/
inductive TimerEffect (s : Sys τ κ) : Act τ κ → Sys τ κ → Prop
  | constructed (t : τ) (intervalMs : UInt32) (repeat_ : Bool) (hc : s.clientActs)
      (ht : s.heap t = none) :
      TimerEffect s (.call (.construct t intervalMs repeat_)) { s with
        heap := s.heap.set t (some { intervalMs, repeat_ }) }
  | destroyed (t : τ) (timer : Timer κ) (hc : s.clientActs) (ht : s.heap t = some timer) :
      TimerEffect s (.call (.destroy t)) { s with
        manager := (s.manager.unregisterTimer s.heap t timer).1
        heap := (s.manager.unregisterTimer s.heap t timer).2.set t none }
  | moveConstructed (dst src : τ) (left : Option κ) (other : Timer κ) (hc : s.clientActs)
      (hd : s.heap dst = none) (hs : s.heap src = some other) :
      TimerEffect s (.call (.moveConstruct dst src left)) { s with
        heap := (s.heap.set dst (some other)).set src (some (Sys.moved other left)) }
  | moveAssigned (dst src : τ) (left : Option κ) (timer other : Timer κ) (hc : s.clientActs)
      (hd : s.heap dst = some timer) (hs : s.heap src = some other) (hne : dst ≠ src) :
      TimerEffect s (.call (.moveAssign dst src left)) { s with
        manager := (s.manager.unregisterTimer s.heap dst timer).1
        heap := ((s.manager.unregisterTimer s.heap dst timer).2.set dst (some other)).set src
          (some (Sys.moved other left)) }
  | selfAssigned (t : τ) (left : Option κ) (hc : s.clientActs) :
      TimerEffect s (.call (.moveAssign t t left)) s
  | intervalSet (t : τ) (intervalMs : UInt32) (timer : Timer κ) (hc : s.clientActs)
      (ht : s.heap t = some timer) :
      TimerEffect s (.call (.setInterval t intervalMs)) { s with
        heap := s.heap.set t (some { timer with intervalMs }) }
  | repeatSet (t : τ) (repeat_ : Bool) (timer : Timer κ) (hc : s.clientActs)
      (ht : s.heap t = some timer) :
      TimerEffect s (.call (.setRepeat t repeat_)) { s with
        heap := s.heap.set t (some { timer with repeat_ }) }
  | timeoutSet (t : τ) (callback : Option κ) (timer : Timer κ) (hc : s.clientActs)
      (ht : s.heap t = some timer)
      (hn : kMaxTimers ≤ s.manager.activeCount ∨ s.manager.firstNull = none) :
      TimerEffect s (.call (.onTimeout t callback)) { s with
        heap := s.heap.set t (some { timer with callback }) }
  | registered (t : τ) (callback : Option κ) (timer : Timer κ) (i : Fin kMaxTimers)
      (hc : s.clientActs) (ht : s.heap t = some timer) (hn : s.manager.activeCount < kMaxTimers)
      (hi : s.manager.firstNull = some i) (heap : Heap τ κ)
      (hheap : heap = s.heap.set t
        (some { timer with callback, handle := UInt16.ofNat i.val })) :
      TimerEffect s (.call (.onTimeout t callback)) { s with
        manager := { s.manager.setSlot i.val (some t) with
          activeCount := s.manager.activeCount + 1 }
        heap }
  | controlled (o : Control) (t : τ) (timer : Timer κ) (hc : s.clientActs)
      (ht : s.heap t = some timer) :
      TimerEffect s (.call (.control o t)) { s with
        heap := s.heap.set t (some (timer.control o))
        log := s.log ++ [.control (caller s.stack) o t] }
  | ticked (deltaMs : UInt32) (hc : s.clientActs) :
      TimerEffect s (.call (.tick deltaMs)) { s with
        stack := .scanning s.ticks deltaMs 0 :: s.stack
        ticks := s.ticks + 1
        log := s.log ++ [.tick deltaMs] }
  | returned (c : Nat) (deltaMs : UInt32) (i : Nat) (t : τ) (n : Nat) (rest : List (Frame τ))
      (timer : Timer κ) (hs : s.stack = .calling c deltaMs i t n :: rest)
      (ht : s.heap t = some timer) :
      TimerEffect s .ret { s with
        heap := s.heap.set t (some timer.rearm)
        stack := .scanning c deltaMs (i + 1) :: rest }
  | passed (c : Nat) (deltaMs : UInt32) (i : Nat) (rest : List (Frame τ))
      (hs : s.stack = .scanning c deltaMs i :: rest) (hi : i < kMaxTimers)
      (hn : s.manager.slot i = none) :
      TimerEffect s .advance { s with stack := .scanning c deltaMs (i + 1) :: rest }
  | advanced (c : Nat) (deltaMs : UInt32) (i : Nat) (rest : List (Frame τ)) (t : τ)
      (timer : Timer κ) (hs : s.stack = .scanning c deltaMs i :: rest)
      (hi : s.manager.slot i = some t) (ht : s.heap t = some timer)
      (hd : (timer.tick deltaMs).2 = false) :
      TimerEffect s .advance { s with
        heap := s.heap.set t (some (timer.tick deltaMs).1)
        stack := .scanning c deltaMs (i + 1) :: rest
        log := s.log ++ [.advanced c t] }
  | fired (c : Nat) (deltaMs : UInt32) (i : Nat) (rest : List (Frame τ)) (t : τ)
      (timer : Timer κ) (hs : s.stack = .scanning c deltaMs i :: rest)
      (hi : s.manager.slot i = some t) (ht : s.heap t = some timer)
      (hd : (timer.tick deltaMs).2 = true) (hcb : timer.callback ≠ none) :
      TimerEffect s .advance { s with
        heap := s.heap.set t (some (timer.tick deltaMs).1)
        stack := .calling c deltaMs i t (firings t s.log).length :: rest
        log := s.log ++ [.advanced c t, .fired c t] }
  | firedSilent (c : Nat) (deltaMs : UInt32) (i : Nat) (rest : List (Frame τ)) (t : τ)
      (timer : Timer κ) (hs : s.stack = .scanning c deltaMs i :: rest)
      (hi : s.manager.slot i = some t) (ht : s.heap t = some timer)
      (hd : (timer.tick deltaMs).2 = true) (hcb : timer.callback = none) :
      TimerEffect s .advance { s with
        heap := s.heap.set t (some (timer.tick deltaMs).1.rearm)
        stack := .scanning c deltaMs (i + 1) :: rest
        log := s.log ++ [.advanced c t, .fired c t] }
  | finished (c : Nat) (deltaMs : UInt32) (i : Nat) (rest : List (Frame τ))
      (hs : s.stack = .scanning c deltaMs i :: rest) (hi : kMaxTimers ≤ i) :
      TimerEffect s .advance { s with stack := rest }

@[simp] theorem tick_callback (timer : Timer κ) (deltaMs : UInt32) :
    (timer.tick deltaMs).1.callback = timer.callback := by
  rw [Timer.tick]
  split <;> rfl

@[simp] theorem tick_handle (timer : Timer κ) (deltaMs : UInt32) :
    (timer.tick deltaMs).1.handle = timer.handle := by
  rw [Timer.tick]
  split <;> rfl

@[simp] theorem rearm_handle (timer : Timer κ) : timer.rearm.handle = timer.handle := by
  rw [Timer.rearm]
  split <;> rfl

@[simp] theorem control_handle (timer : Timer κ) (o : Control) :
    (timer.control o).handle = timer.handle := by
  cases o <;> rfl

theorem Heap.set_set (heap : Heap τ κ) (t : τ) (a b : Option (Timer κ)) :
    (heap.set t a).set t b = heap.set t b := by
  funext u
  simp only [Heap.set]
  split <;> rfl

theorem registerTimer_refused {m : TimerManager τ} {heap : Heap τ κ} {t : τ} {timer : Timer κ}
    (h : kMaxTimers ≤ m.activeCount ∨ m.firstNull = none) :
    m.registerTimer heap t timer = (m, heap) := by
  rw [registerTimer]
  split
  · rfl
  · rename_i hn
    rw [h.resolve_left hn]

theorem registerTimer_free {m : TimerManager τ} {heap : Heap τ κ} {t : τ} {timer : Timer κ}
    {i : Fin kMaxTimers} (hn : m.activeCount < kMaxTimers) (hi : m.firstNull = some i) :
    m.registerTimer heap t timer =
      ({ m.setSlot i.val (some t) with activeCount := m.activeCount + 1 },
        heap.set t (some (timer.setHandle (UInt16.ofNat i.val)))) := by
  rw [registerTimer, if_neg (Nat.not_le_of_lt hn), hi]

theorem timer_call_effect {s s' : Sys τ κ} {op : Op τ κ} (hc : s.clientActs)
    (h : s.call op = some s') : TimerEffect s (.call op) s' := by
  cases op with
  | construct t intervalMs repeat_ =>
    rw [Sys.call] at h
    split at h
    · rename_i ht; exact Option.some.inj h ▸ .constructed t intervalMs repeat_ hc ht
    · exact absurd h (by simp)
  | destroy t =>
    rw [Sys.call] at h
    split at h
    · exact absurd h (by simp)
    · rename_i timer ht; exact Option.some.inj h ▸ .destroyed t timer hc ht
  | moveConstruct dst src left =>
    rw [Sys.call] at h
    split at h
    · rename_i other hd hs; exact Option.some.inj h ▸ .moveConstructed dst src left other hc hd hs
    · exact absurd h (by simp)
  | moveAssign dst src left =>
    rw [Sys.call] at h
    split at h
    · rename_i timer other hd hs
      split at h
      · rename_i he; exact he ▸ Option.some.inj h ▸ .selfAssigned dst left hc
      · rename_i hne
        exact Option.some.inj h ▸ .moveAssigned dst src left timer other hc hd hs hne
    · exact absurd h (by simp)
  | setInterval t intervalMs =>
    rw [Sys.call, Sys.update] at h
    split at h
    · exact absurd h (by simp)
    · rename_i timer ht; exact Option.some.inj h ▸ .intervalSet t intervalMs timer hc ht
  | setRepeat t repeat_ =>
    rw [Sys.call, Sys.update] at h
    split at h
    · exact absurd h (by simp)
    · rename_i timer ht; exact Option.some.inj h ▸ .repeatSet t repeat_ timer hc ht
  | onTimeout t callback =>
    rw [Sys.call] at h
    split at h
    · exact absurd h (by simp)
    · rename_i timer ht
      dsimp only at h
      by_cases hn : kMaxTimers ≤ s.manager.activeCount ∨ s.manager.firstNull = none
      · rw [registerTimer_refused hn] at h
        exact Option.some.inj h ▸ .timeoutSet t callback timer hc ht hn
      · obtain ⟨hn, hf⟩ := not_or.mp hn
        obtain ⟨i, hi⟩ := Option.ne_none_iff_exists'.mp hf
        rw [registerTimer_free (Nat.lt_of_not_le hn) hi] at h
        exact Option.some.inj h ▸ .registered t callback timer i hc ht (Nat.lt_of_not_le hn) hi _
          (Heap.set_set ..)
  | control o t =>
    rw [Sys.call, Sys.update] at h
    split at h
    · exact absurd h (by simp)
    · rename_i timer ht; exact Option.some.inj h ▸ .controlled o t timer hc ht
  | tick deltaMs => exact Option.some.inj h ▸ .ticked deltaMs hc

theorem timer_scan_effect {s s' : Sys τ κ} {c i : Nat} {deltaMs : UInt32} {rest : List (Frame τ)}
    (hs : s.stack = .scanning c deltaMs i :: rest) (h : s.scan c deltaMs i rest = some s') :
    TimerEffect s .advance s' := by
  rw [Sys.scan] at h
  split at h
  · rename_i hi
    split at h
    · rename_i hn; exact Option.some.inj h ▸ .passed c deltaMs i rest hs hi hn
    · rename_i t hslot
      split at h
      · exact absurd h (by simp)
      · rename_i timer ht
        dsimp only at h
        split at h
        · rename_i hd
          have hd : (timer.tick deltaMs).2 = false := by simpa using hd
          exact Option.some.inj h ▸ .advanced c deltaMs i rest t timer hs hslot ht hd
        · rename_i hd
          have hd : (timer.tick deltaMs).2 = true := by simpa using hd
          split at h
          · rename_i k hcb
            rw [tick_callback] at hcb
            exact Option.some.inj h ▸
              .fired c deltaMs i rest t timer hs hslot ht hd (by rw [hcb]; simp)
          · rename_i hcb
            rw [tick_callback] at hcb
            exact Option.some.inj h ▸ .firedSilent c deltaMs i rest t timer hs hslot ht hd hcb
  · rename_i hi
    exact Option.some.inj h ▸ .finished c deltaMs i rest hs (Nat.le_of_not_lt hi)

theorem timer_step_effect {s s' : Sys τ κ} {a : Act τ κ} (h : s.step a = some s') :
    TimerEffect s a s' := by
  cases a with
  | call op =>
    rw [Sys.step] at h
    split at h
    · rename_i hc; exact timer_call_effect hc h
    · exact absurd h (by simp)
  | ret =>
    rw [Sys.step, Sys.ret] at h
    split at h
    · rename_i c deltaMs i t n rest hs
      split at h
      · exact absurd h (by simp)
      · rename_i timer ht
        exact Option.some.inj h ▸ .returned c deltaMs i t n rest timer hs ht
    · exact absurd h (by simp)
  | advance =>
    rw [Sys.step] at h
    split at h
    · rename_i c deltaMs i rest hs; exact timer_scan_effect hs h
    · exact absurd h (by simp)

end Steps

end TaktOS.Proof
