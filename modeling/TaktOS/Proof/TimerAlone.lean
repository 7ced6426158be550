import TaktOS.Lib.Alarm
import TaktOS.Proof.KernelRuns
import TaktOS.Proof.TimerSchedule

/-!
# A timer that is left alone

While no tick call is made inside another, a timer that nobody calls is ticked once by each, by
what that call advances, whatever happens to the other timers: they may be made and destroyed,
moved, registered and controlled, from within any callback. So it fires as it would alone, and
alone it is an alarm.
-/

namespace TaktOS.Proof

open TaktOS TimerManager Lib

variable {τ κ : Type}

/-! ## A timer as an alarm -/

/-- The timer as an alarm, in milliseconds. -/
def alarmOf (timer : Timer κ) : Alarm Nat where
  due := timer.intervalMs.toNat
  repeats := timer.repeat_
  elapsed := timer.elapsedMs.toNat
  on := timer.active

/-- A timer that is ticked by each of the periods, and whose callback leaves it alone. -/
def alone (x : Solo κ) (periods : List UInt32) : Solo κ :=
  periods.foldl (Solo.tick fun _ => []) x

theorem alone_concat (x : Solo κ) (periods : List UInt32) (p : UInt32) :
    alone x (periods ++ [p]) = (alone x periods).tick (fun _ => []) p :=
  List.foldl_concat ..

/-- A tick whose sum does not wrap is a period of the alarm. -/
theorem tick_alarm {timer : Timer κ} {p : UInt32}
    (hw : timer.elapsedMs.toNat + p.toNat < UInt32.size) :
    (alarmOf timer).pass p.toNat =
      (alarmOf (if (timer.tick p).2 then (timer.tick p).1.rearm else (timer.tick p).1),
        (timer.tick p).2) := by
  have hsum : (timer.elapsedMs + p).toNat = timer.elapsedMs.toNat + p.toNat := by
    rw [UInt32.toNat_add, Nat.mod_eq_of_lt hw]
  cases ha : timer.active with
  | false => simp [Timer.tick, Alarm.pass, alarmOf, ha]
  | true =>
    by_cases hdue : timer.intervalMs.toNat ≤ timer.elapsedMs.toNat + p.toNat
    · have hge : timer.intervalMs ≤ timer.elapsedMs + p := by
        rw [UInt32.le_iff_toNat_le, hsum]
        exact hdue
      cases hr : timer.repeat_ with
      | true => simp [Timer.tick, Timer.rearm, Alarm.pass, alarmOf, ha, hdue, hge, hr]
      | false => simp [Timer.tick, Timer.rearm, Alarm.pass, alarmOf, ha, hdue, hge, hr, hsum]
    · have hlt : ¬ timer.intervalMs ≤ timer.elapsedMs + p := by
        rw [UInt32.le_iff_toNat_le, hsum]
        exact hdue
      simp [Timer.tick, Alarm.pass, alarmOf, ha, hdue, hlt, hsum]

/-- A timer that is on has not counted more than its interval. -/
def CountsWithin (timer : Timer κ) : Prop :=
  timer.active = true → timer.elapsedMs.toNat ≤ timer.intervalMs.toNat

theorem tick_countsWithin {timer : Timer κ} {p : UInt32} (h : CountsWithin timer) :
    CountsWithin (if (timer.tick p).2 then (timer.tick p).1.rearm else (timer.tick p).1) := by
  cases ha : timer.active with
  | false => simpa [Timer.tick, ha] using h
  | true =>
    by_cases hdue : timer.intervalMs ≤ timer.elapsedMs + p
    · cases hr : timer.repeat_ with
      | true => intro _; simp [Timer.tick, Timer.rearm, ha, hdue, hr]
      | false => intro hno; simp [Timer.tick, Timer.rearm, ha, hdue, hr] at hno
    · have hlt : (timer.elapsedMs + p).toNat < timer.intervalMs.toNat := by
        rw [UInt32.le_iff_toNat_le] at hdue
        exact Nat.not_le.mp hdue
      intro _
      simpa [Timer.tick, ha, hdue] using Nat.le_of_lt hlt

/-- **A timer alone is an alarm**, where the interval and a period together do not wrap. -/
theorem alone_rings (periods : List UInt32) : ∀ {x : Solo κ}, CountsWithin x.timer →
    (∀ p ∈ periods, x.timer.intervalMs.toNat + p.toNat < UInt32.size) →
    (alone x periods).firings
      = x.firings ++ (alarmOf x.timer).rings x.ticks (periods.map UInt32.toNat) := by
  induction periods with
  | nil => exact fun _ _ => (List.append_nil _).symm
  | cons p periods ih =>
    intro x hin hw
    have hwp := hw p List.mem_cons_self
    have hrest : ∀ q ∈ periods,
        (x.tick (fun _ => []) p).timer.intervalMs.toNat + q.toNat < UInt32.size := by
      intro q hq
      have hi : (x.tick (fun _ => []) p).timer.intervalMs = x.timer.intervalMs := by
        rw [tick_quiet]
        split <;> simp
      rw [hi]
      exact hw q (List.mem_cons_of_mem _ hq)
    have htimer : (x.tick (fun _ => []) p).timer
        = if (x.timer.tick p).2 then (x.timer.tick p).1.rearm else (x.timer.tick p).1 := by
      rw [tick_quiet]
      split <;> rfl
    have hpass : (alarmOf x.timer).pass p.toNat
        = (alarmOf (x.tick (fun _ => []) p).timer, (x.timer.tick p).2) := by
      rw [htimer]
      cases ha : x.timer.active with
      | true => exact tick_alarm (by have := hin ha; omega)
      -- a timer that is off is not ticked
      | false => simp [Timer.tick, Alarm.pass, alarmOf, ha]
    have hstep : alone x (p :: periods) = alone (x.tick (fun _ => []) p) periods := rfl
    have hfirings : (x.tick (fun _ => []) p).firings
        = x.firings ++ if (x.timer.tick p).2 then [x.ticks] else [] := by
      rw [tick_quiet]
      split
      · rfl
      · exact (List.append_nil _).symm
    rw [hstep, ih (htimer ▸ tick_countsWithin hin) hrest, List.map_cons, Alarm.rings, hpass,
      tick_ticks, hfirings, List.append_assoc]

/-! ## In the manager -/

section Steps

variable [DecidableEq τ]

/-- The call is one on the timer. -/
def touches (t : τ) : Op τ κ → Bool
  | .construct u _ _ | .destroy u | .setInterval u _ | .setRepeat u _ | .onTimeout u _
  | .control _ u => u = t
  | .moveConstruct dst src _ | .moveAssign dst src _ => dst = t ∨ src = t
  | .tick _ => false

/-- The step is no call on the timer, and no tick call inside another. -/
def LeavesAlone (t : τ) (s : Sys τ κ) : Act τ κ → Prop
  | .call (.tick _) => s.stack = []
  | .call op => touches t op = false
  | _ => True

end Steps

/--
The timer of slot `i` in a run that began where it was `x₀` and the tick calls had advanced the
periods `old`.
-/
inductive AlonePhase (t : τ) (i : Nat) (x₀ : Solo κ) (old : List UInt32) [DecidableEq τ]
    (s : Sys τ κ) : Prop
  /-- No tick call is in progress. -/
  | idle (ps : List UInt32) (hlog : s.log.filterMap tickOf = old ++ ps) (hs : s.stack = [])
      (hshow : Shows t (alone x₀ ps) s) (hk : s.ticks = (alone x₀ ps).ticks)
  /-- The tick call in progress has still to come to the slot. -/
  | before (ps : List UInt32) (f : Frame τ)
      (hlog : s.log.filterMap tickOf = old ++ ps ++ [frameDelta f]) (hs : s.stack = [f])
      (hn : frameNext f ≤ i) (hown : ∀ n, caller [f] ≠ some (t, n))
      (hc : frameCall f = (alone x₀ ps).ticks) (hshow : Shows t (alone x₀ ps) s)
      (hk : s.ticks = (alone x₀ ps).ticks + 1)
  /-- The callback of the timer is in control. -/
  | inside (ps : List UInt32) (c n : Nat) (deltaMs : UInt32)
      (hlog : s.log.filterMap tickOf = old ++ ps ++ [deltaMs])
      (hs : s.stack = [.calling c deltaMs i t n])
      (hdue : ((alone x₀ ps).timer.tick deltaMs).2 = true)
      (hf : firings t s.log = (alone x₀ ps).firings ++ [(alone x₀ ps).ticks])
      (ht : s.heap t = some ((alone x₀ ps).timer.tick deltaMs).1)
      (hk : s.ticks = (alone x₀ ps).ticks + 1)
  /-- The tick call in progress is past the slot. -/
  | after (ps : List UInt32) (f : Frame τ) (hlog : s.log.filterMap tickOf = old ++ ps)
      (hs : s.stack = [f]) (hn : i < frameNext f) (hown : ∀ n, caller [f] ≠ some (t, n))
      (hshow : Shows t (alone x₀ ps) s) (hk : s.ticks = (alone x₀ ps).ticks)

/-- The timer is in that slot, and in no other. -/
structure AloneLaw (t : τ) (i : Nat) (x₀ : Solo κ) (old : List UInt32) [DecidableEq τ]
    (s : Sys τ κ) : Prop where
  slot : ∀ j, s.manager.slot j = some t ↔ j = i
  phase : AlonePhase t i x₀ old s

variable [DecidableEq τ] {t : τ} {i : Nat} {x₀ : Solo κ} {old : List UInt32} {s s' : Sys τ κ}

/-- The timer is there. -/
theorem AlonePhase.exists_timer (h : AlonePhase t i x₀ old s) : ∃ timer, s.heap t = some timer := by
  cases h with
  | idle ps _ _ hshow _ => exact ⟨_, hshow.timer⟩
  | before ps f _ _ _ _ _ hshow _ => exact ⟨_, hshow.timer⟩
  | inside ps c n deltaMs _ _ _ _ ht _ => exact ⟨_, ht⟩
  | after ps f _ _ _ _ hshow _ => exact ⟨_, hshow.timer⟩

/-- A call that is not about the timer, and begins nothing. -/
theorem AlonePhase.same (h : AlonePhase t i x₀ old s) (hs : s'.stack = s.stack)
    (hheap : s'.heap t = s.heap t) (hk : s'.ticks = s.ticks)
    (hf : firings t s'.log = firings t s.log)
    (hlog : s'.log.filterMap tickOf = s.log.filterMap tickOf) : AlonePhase t i x₀ old s' := by
  have hshow : ∀ {x : Solo κ}, Shows t x s → Shows t x s' := fun hx =>
    ⟨hheap.trans hx.timer, hf.trans hx.firings⟩
  cases h with
  | idle ps h₁ h₂ hx h₃ => exact .idle ps (hlog.trans h₁) (hs.trans h₂) (hshow hx) (hk.trans h₃)
  | before ps f h₁ h₂ hn hown hc hx h₃ =>
    exact .before ps f (hlog.trans h₁) (hs.trans h₂) hn hown hc (hshow hx) (hk.trans h₃)
  | inside ps c n deltaMs h₁ h₂ hdue hf' ht h₃ =>
    exact .inside ps c n deltaMs (hlog.trans h₁) (hs.trans h₂) hdue (hf.trans hf')
      (hheap.trans ht) (hk.trans h₃)
  | after ps f h₁ h₂ hn hown hx h₃ =>
    exact .after ps f (hlog.trans h₁) (hs.trans h₂) hn hown (hshow hx) (hk.trans h₃)

/-- A turn of the loop that is not about the timer and does not pass its slot. -/
theorem AlonePhase.turned (h : AlonePhase t i x₀ old s) {f f' : Frame τ} {rest : List (Frame τ)}
    (hs : s.stack = f :: rest) (hs' : s'.stack = f' :: rest) (hcall : frameCall f' = frameCall f)
    (hdelta : frameDelta f' = frameDelta f)
    (hnext : frameNext f' = frameNext f ∨ frameNext f' = frameNext f + 1 ∧ frameNext f ≠ i)
    (hown : ∀ n, caller (f :: rest) ≠ some (t, n)) (hown' : ∀ n, caller [f'] ≠ some (t, n))
    (hheap : s'.heap t = s.heap t) (hk : s'.ticks = s.ticks)
    (hf : firings t s'.log = firings t s.log)
    (hlog : s'.log.filterMap tickOf = s.log.filterMap tickOf) : AlonePhase t i x₀ old s' := by
  cases h with
  | idle ps _ hs₀ => exact absurd (hs₀.symm.trans hs) (by simp)
  | before ps g h₁ hs₀ hn _ hc hshow h₃ =>
    obtain ⟨rfl, rfl⟩ := List.cons.inj (hs₀.symm.trans hs)
    refine .before ps f' (hlog.trans (hdelta ▸ h₁)) hs' ?_ hown' (hcall.trans hc)
      ⟨hheap.trans hshow.timer, hf.trans hshow.firings⟩ (hk.trans h₃)
    omega
  | inside ps c n deltaMs _ hs₀ =>
    obtain ⟨rfl, rfl⟩ := List.cons.inj (hs₀.symm.trans hs)
    exact absurd rfl (hown n)
  | after ps g h₁ hs₀ hn _ hshow h₃ =>
    obtain ⟨rfl, rfl⟩ := List.cons.inj (hs₀.symm.trans hs)
    refine .after ps f' (hlog.trans h₁) hs' ?_ hown'
      ⟨hheap.trans hshow.timer, hf.trans hshow.firings⟩ (hk.trans h₃)
    omega

/-- The loop comes to the slot of the timer. -/
theorem AlonePhase.coming (h : AlonePhase t i x₀ old s) {c : Nat} {deltaMs : UInt32}
    {rest : List (Frame τ)} (hs : s.stack = .scanning c deltaMs i :: rest) :
    ∃ ps, s.log.filterMap tickOf = old ++ ps ++ [deltaMs] ∧ rest = []
      ∧ c = (alone x₀ ps).ticks ∧ Shows t (alone x₀ ps) s
      ∧ s.ticks = (alone x₀ ps).ticks + 1 := by
  cases h with
  | idle ps _ hs₀ => exact absurd (hs₀.symm.trans hs) (by simp)
  | before ps g h₁ hs₀ _ _ hc hshow h₃ =>
    obtain ⟨rfl, rfl⟩ := List.cons.inj (hs₀.symm.trans hs)
    exact ⟨ps, h₁, rfl, hc, hshow, h₃⟩
  | inside ps c n deltaMs _ hs₀ => exact absurd (List.cons.inj (hs₀.symm.trans hs)).1 (by simp)
  | after ps g _ hs₀ hn =>
    obtain ⟨rfl, rfl⟩ := List.cons.inj (hs₀.symm.trans hs)
    exact absurd hn (Nat.lt_irrefl i)

/-- The loop is past the timer, which has been ticked. -/
theorem AlonePhase.ticked {ps : List UInt32} {deltaMs : UInt32} {f : Frame τ}
    (hlog : s'.log.filterMap tickOf = old ++ ps ++ [deltaMs]) (hs : s'.stack = [f])
    (hn : i < frameNext f) (hown : ∀ n, caller [f] ≠ some (t, n))
    (hshow : Shows t ((alone x₀ ps).tick (fun _ => []) deltaMs) s')
    (hk : s'.ticks = (alone x₀ ps).ticks + 1) : AlonePhase t i x₀ old s' := by
  rw [← alone_concat] at hshow
  refine .after (ps ++ [deltaMs]) f (by rw [hlog, List.append_assoc]) hs hn hown hshow ?_
  rw [alone_concat, tick_ticks, hk]

/-! ## One step -/

/-- The slots of a manager in which another timer gave up its own. -/
theorem slot_unregister {m : TimerManager τ} {heap : Heap τ κ} {u : τ} {timer : Timer κ}
    (hut : u ≠ t) (j : Nat) :
    (m.unregisterTimer heap u timer).1.slot j = some t ↔ m.slot j = some t := by
  unfold unregisterTimer
  dsimp only
  split
  · rename_i hh
    show (m.setSlot timer.handle.toNat none).slot j = some t ↔ _
    rw [slot_setSlot m hh.1]
    split
    · rename_i hj
      subst hj
      rw [hh.2]
      simp [hut]
    · rfl
  · rfl

/-- The heap, where the timer is not the one that gave up its slot. -/
theorem heap_unregister {m : TimerManager τ} {heap : Heap τ κ} {u : τ} {timer : Timer κ}
    (hut : t ≠ u) : (m.unregisterTimer heap u timer).2 t = heap t := by
  unfold unregisterTimer
  dsimp only
  split
  · exact Heap.set_other _ _ hut
  · rfl

theorem firings_advanced (t : τ) (c : Nat) (u : τ) : firings t [.advanced c u] = [] := rfl

omit [DecidableEq τ] in
theorem ticks_visited (l : List (Entry τ)) (c : Nat) (u : τ) :
    (l ++ [Entry.advanced c u]).filterMap tickOf = l.filterMap tickOf
      ∧ (l ++ [Entry.advanced c u, Entry.fired c u]).filterMap tickOf
        = l.filterMap tickOf := by
  simp [tickOf]

/-- **A step that leaves the timer alone** keeps the law. -/
theorem aloneLaw_step (h : AloneLaw t i x₀ old s) {a : Act τ κ} (ha : LeavesAlone t s a)
    (hstep : s.step a = some s') : AloneLaw t i x₀ old s' := by
  obtain ⟨timer₀, ht₀⟩ := h.phase.exists_timer
  have hi : i < kMaxTimers := slot_lt ((h.slot i).mpr rfl)
  have hother : ∀ {u : τ}, decide (u = t) = false → t ≠ u := fun hu heq => by simp [heq] at hu
  have hslot : ∀ {j u}, s.manager.slot j = some u → (u = t ↔ j = i) := by
    intro j u hj
    rw [← h.slot j, hj, Option.some.injEq]
  cases timer_step_effect hstep with
  | constructed u intervalMs repeat_ hc hu =>
    have hne : t ≠ u := hother ha
    exact ⟨h.slot, h.phase.same rfl (Heap.set_other _ _ hne) rfl rfl rfl⟩
  | destroyed u timer hc hu =>
    have hne : t ≠ u := hother ha
    refine ⟨fun j => (slot_unregister (Ne.symm hne) j).trans (h.slot j), h.phase.same rfl ?_ rfl
      rfl rfl⟩
    exact (Heap.set_other _ _ hne).trans (heap_unregister hne)
  | moveConstructed dst src left other hc hd hsrc =>
    have hne : ¬ (dst = t ∨ src = t) := by simpa [LeavesAlone, touches] using ha
    refine ⟨h.slot, h.phase.same rfl ?_ rfl rfl rfl⟩
    exact (Heap.set_other _ _ fun heq => hne (.inr heq.symm)).trans
      (Heap.set_other _ _ fun heq => hne (.inl heq.symm))
  | moveAssigned dst src left timer other hc hd hsrc hdiff =>
    have hne : ¬ (dst = t ∨ src = t) := by simpa [LeavesAlone, touches] using ha
    refine ⟨fun j => (slot_unregister (fun heq => hne (.inl heq)) j).trans (h.slot j),
      h.phase.same rfl ?_ rfl rfl rfl⟩
    exact ((Heap.set_other _ _ fun heq => hne (.inr heq.symm)).trans
      (Heap.set_other _ _ fun heq => hne (.inl heq.symm))).trans
      (heap_unregister fun heq => hne (.inl heq.symm))
  | selfAssigned u left hc => exact h
  | intervalSet u intervalMs timer hc hu =>
    exact ⟨h.slot, h.phase.same rfl (Heap.set_other _ _ (hother ha)) rfl rfl rfl⟩
  | repeatSet u repeat_ timer hc hu =>
    exact ⟨h.slot, h.phase.same rfl (Heap.set_other _ _ (hother ha)) rfl rfl rfl⟩
  | timeoutSet u callback timer hc hu hfull =>
    exact ⟨h.slot, h.phase.same rfl (Heap.set_other _ _ (hother ha)) rfl rfl rfl⟩
  | registered u callback timer k hc hu hroom hk heap hheap =>
    have hne : t ≠ u := hother ha
    subst hheap
    refine ⟨fun j => ?_, h.phase.same rfl (Heap.set_other _ _ hne) rfl rfl rfl⟩
    rw [← h.slot j]
    show (s.manager.setSlot k.val (some u)).slot j = some t ↔ _
    rw [slot_setSlot _ k.isLt]
    split
    · rename_i hj
      -- the slot that is taken was free
      subst hj
      rw [slot_val, firstNull_some hk]
      simp [Ne.symm hne]
    · rfl
  | controlled o u timer hc hu =>
    have hne : t ≠ u := hother ha
    refine ⟨h.slot, h.phase.same rfl (Heap.set_other _ _ hne) rfl ?_ ?_⟩
    · simp [firings_control]
    · simp [tickOf]
  | ticked deltaMs hc =>
    have hidle : s.stack = [] := ha
    refine ⟨h.slot, ?_⟩
    cases h.phase with
    | before ps f _ hs => exact absurd (hs.symm.trans hidle) (by simp)
    | inside ps c n d _ hs => exact absurd (hs.symm.trans hidle) (by simp)
    | after ps f _ hs => exact absurd (hs.symm.trans hidle) (by simp)
    | idle ps hlog _ hshow hk =>
      refine .before ps (.scanning s.ticks deltaMs 0) ?_ (by rw [hidle]) (Nat.zero_le i)
        caller_scanning hk ⟨hshow.timer, ?_⟩ (congrArg (· + 1) hk)
      · simp [tickOf, hlog, frameDelta]
      · exact (firings_append ..).trans ((List.append_nil _).trans hshow.firings)
  | returned c deltaMs j u n rest timer hs hu =>
    refine ⟨h.slot, ?_⟩
    by_cases hut : u = t
    · subst hut
      cases h.phase with
      | idle ps _ hs' => exact absurd (hs'.symm.trans hs) (by simp)
      | before ps f _ hs' _ hown =>
        cases hs'.symm.trans hs
        exact absurd rfl (hown n)
      | after ps f _ hs' _ hown =>
        cases hs'.symm.trans hs
        exact absurd rfl (hown n)
      | inside ps c' n' d hlog hs' hdue hf ht hk =>
        cases hs'.symm.trans hs
        cases hu.symm.trans ht
        refine .ticked hlog rfl (Nat.lt_succ_self i) caller_scanning ⟨?_, ?_⟩ hk
        · rw [tick_quiet, if_pos hdue]
          exact Heap.set_self ..
        · rw [tick_quiet, if_pos hdue]
          exact hf
    · exact h.phase.turned hs rfl rfl rfl (.inl rfl) (caller_other hut) caller_scanning
        (Heap.set_other _ _ (Ne.symm hut)) rfl rfl rfl
  | passed c deltaMs j rest hs hj hnone =>
    have hji : j ≠ i := fun hji => by
      rw [(h.slot j).mpr hji] at hnone
      exact absurd hnone (by simp)
    exact ⟨h.slot, h.phase.turned hs rfl rfl rfl (.inr ⟨rfl, hji⟩) caller_scanning caller_scanning
      rfl rfl rfl rfl⟩
  | advanced c deltaMs j rest u timer hs hj hu hdue =>
    refine ⟨h.slot, ?_⟩
    by_cases hut : u = t
    · subst hut
      obtain rfl : j = i := (hslot hj).mp rfl
      obtain ⟨ps, hlog, rfl, rfl, hshow, hk⟩ := h.phase.coming hs
      cases hu.symm.trans hshow.timer
      refine .ticked ((ticks_visited ..).1.trans hlog) rfl (Nat.lt_succ_self j) caller_scanning
        ⟨?_, ?_⟩ hk
      · rw [tick_quiet, if_neg (by simp [hdue])]
        exact Heap.set_self ..
      · rw [tick_quiet, if_neg (by simp [hdue]), firings_append, firings_advanced,
          List.append_nil]
        exact hshow.firings
    · exact h.phase.turned hs rfl rfl rfl (.inr ⟨rfl, fun hji => hut ((hslot hj).mpr hji)⟩)
        caller_scanning caller_scanning (Heap.set_other _ _ (Ne.symm hut)) rfl
        (by simp [firings_advanced]) (ticks_visited ..).1
  | fired c deltaMs j rest u timer hs hj hu hdue hcb =>
    refine ⟨h.slot, ?_⟩
    by_cases hut : u = t
    · subst hut
      obtain rfl : j = i := (hslot hj).mp rfl
      obtain ⟨ps, hlog, rfl, rfl, hshow, hk⟩ := h.phase.coming hs
      cases hu.symm.trans hshow.timer
      refine .inside ps _ _ deltaMs ((ticks_visited ..).2.trans hlog) rfl hdue ?_
        (Heap.set_self ..) hk
      rw [firings_append, firings_fired, if_pos rfl, hshow.firings]
    · exact h.phase.turned hs rfl rfl rfl (.inr ⟨rfl, fun hji => hut ((hslot hj).mpr hji)⟩)
        caller_scanning (caller_other hut) (Heap.set_other _ _ (Ne.symm hut)) rfl
        (by simp [firings_fired, hut]) (ticks_visited ..).2
  | firedSilent c deltaMs j rest u timer hs hj hu hdue hcb =>
    refine ⟨h.slot, ?_⟩
    by_cases hut : u = t
    · subst hut
      obtain rfl : j = i := (hslot hj).mp rfl
      obtain ⟨ps, hlog, rfl, rfl, hshow, hk⟩ := h.phase.coming hs
      cases hu.symm.trans hshow.timer
      refine .ticked ((ticks_visited ..).2.trans hlog) rfl (Nat.lt_succ_self j) caller_scanning
        ⟨?_, ?_⟩ hk
      · rw [tick_quiet, if_pos hdue]
        exact Heap.set_self ..
      · rw [tick_quiet, if_pos hdue, firings_append, firings_fired, if_pos rfl, hshow.firings]
    · exact h.phase.turned hs rfl rfl rfl (.inr ⟨rfl, fun hji => hut ((hslot hj).mpr hji)⟩)
        caller_scanning caller_scanning (Heap.set_other _ _ (Ne.symm hut)) rfl
        (by simp [firings_fired, hut]) (ticks_visited ..).2
  | finished c deltaMs j rest hs hj =>
    refine ⟨h.slot, ?_⟩
    cases h.phase with
    | idle ps _ hs' => exact absurd (hs'.symm.trans hs) (by simp)
    | before ps f _ hs' hn =>
      cases hs'.symm.trans hs
      have hn : j ≤ i := hn
      omega
    | inside ps c' n d _ hs' => exact absurd (List.cons.inj (hs'.symm.trans hs)).1 (by simp)
    | after ps f hlog hs' _ _ hshow hk =>
      cases hs'.symm.trans hs
      exact .idle ps hlog rfl ⟨hshow.timer, hshow.firings⟩ hk

end TaktOS.Proof
