import TaktOS.Proof.TimerSlots

/-!
# The ticks on which a timer fires

Ticked with one period, a started timer is due on the first tick by which its interval has passed,
and a repeating timer on every multiple of that tick. The elapsed time is 32 bits wide and is
compared after the addition, so the sum must not wrap on the very tick on which it is due: it is
then below the period again, which is below the interval, and the tick passes.

The induction is on the ticks, and `scheduleTimer` is the timer after each of them. It holds up to
the tick that is due whatever the numbers are, and beyond it when that tick does not wrap.
-/

namespace TaktOS.Proof

open TaktOS TimerManager Lib

variable {τ κ : Type}

/-- The tick, counted from 1, on which a started timer is first due. -/
def dueTick (timer : Timer κ) (d : UInt32) : Nat :=
  max 1 ((timer.intervalMs.toNat + d.toNat - 1) / d.toNat)

/-- The timer fires on the tick after `k` ticks. -/
def scheduled (timer : Timer κ) (d : UInt32) (k : Nat) : Bool :=
  if timer.repeat_ then (k + 1) % dueTick timer d == 0 else k + 1 == dueTick timer d

/-- A started timer that `k` ticks have been added to. -/
def risen (timer : Timer κ) (d : UInt32) (k : Nat) : Timer κ :=
  { timer with elapsedMs := UInt32.ofNat (k * d.toNat), active := true }

/-- The timer after `n` ticks. -/
def scheduleTimer (timer : Timer κ) (d : UInt32) (n : Nat) : Timer κ :=
  if timer.repeat_ then risen timer d (n % dueTick timer d)
  else if n < dueTick timer d then risen timer d n
  else (risen timer d (dueTick timer d)).stop

/-! ## One tick -/

theorem dueTick_pos (timer : Timer κ) (d : UInt32) : 0 < dueTick timer d := Nat.le_max_left ..

theorem dueTick_le {timer : Timer κ} {d : UInt32} (hd : 0 < d.toNat) {m : Nat} (hm : 0 < m) :
    dueTick timer d ≤ m ↔ timer.intervalMs.toNat ≤ m * d.toNat := by
  rw [dueTick, Nat.max_le, Nat.div_le_iff_le_mul_add_pred hd, Nat.mul_comm]
  omega

/-- A tick on which the sum does not wrap. -/
theorem risen_tick {timer : Timer κ} {d : UInt32} (hd : 0 < d.toNat) {k : Nat}
    (hk : (k + 1) * d.toNat < UInt32.size) :
    (risen timer d k).tick d = (risen timer d (k + 1), decide (dueTick timer d ≤ k + 1)) := by
  have hsum : UInt32.ofNat (k * d.toNat) + d = UInt32.ofNat ((k + 1) * d.toNat) := by
    rw [Nat.succ_mul, UInt32.ofNat_add, UInt32.ofNat_toNat]
  have hdue : UInt32.ofNat ((k + 1) * d.toNat) ≥ timer.intervalMs ↔ dueTick timer d ≤ k + 1 := by
    rw [dueTick_le hd (Nat.succ_pos k), ge_iff_le, UInt32.le_iff_toNat_le,
      UInt32.toNat_ofNat_of_lt' hk]
  rw [Timer.tick, if_neg (by simp [risen])]
  simp only [risen, hsum, hdue]

theorem risen_zero_rearm {timer : Timer κ} {d : UInt32} (hr : timer.repeat_ = true) (k : Nat) :
    (risen timer d k).rearm = risen timer d 0 := by
  simp [Timer.rearm, risen, hr]

theorem risen_rearm {timer : Timer κ} {d : UInt32} (hr : timer.repeat_ = false) (k : Nat) :
    (risen timer d k).rearm = (risen timer d k).stop := by
  simp [Timer.rearm, Timer.stop, risen, hr]

/-- A tick whose callback does nothing with the timer. -/
theorem tick_quiet (x : Solo κ) (d : UInt32) :
    x.tick (fun _ => []) d = if (x.timer.tick d).2
      then { timer := (x.timer.tick d).1.rearm, ticks := x.ticks + 1,
             firings := x.firings ++ [x.ticks] }
      else { x with timer := (x.timer.tick d).1, ticks := x.ticks + 1 } := by
  rw [Solo.tick]
  cases h : (x.timer.tick d).2 <;> simp [h]

/-! ## A started timer -/

section Ticks

variable [DecidableEq τ]

/-- A timer that is started and ticked `n` times; its callback does nothing with it. -/
def ticked (t : τ) (timer : Timer κ) (d : UInt32) (n : Nat) : Solo κ :=
  solo (fun _ => []) t timer (.control .start t :: List.replicate n (.tick d))

/-- In `n` ticks the timer has fired on those of its schedule, and a one-shot that was due is
inactive. -/
def OnSchedule (t : τ) (timer : Timer κ) (d : UInt32) (n : Nat) : Prop :=
  (ticked t timer d n).firings = (List.range n).filter (scheduled timer d)
    ∧ (timer.repeat_ = false → dueTick timer d ≤ n → (ticked t timer d n).timer.active = false)

variable (t : τ) {timer : Timer κ} {d : UInt32}

theorem ticked_succ (n : Nat) :
    ticked t timer d (n + 1) = (ticked t timer d n).tick (fun _ => []) d := by
  rw [ticked, ticked, List.replicate_succ', ← List.cons_append, solo_concat]
  rfl

/-- A tick of a timer that has risen `k` ticks. -/
theorem risen_step (hd : 0 < d.toNat) {k n : Nat} {firings : List Nat}
    (hk : (k + 1) * d.toNat < UInt32.size) :
    ({ timer := risen timer d k, ticks := n, firings } : Solo κ).tick (fun _ => []) d =
      if dueTick timer d ≤ k + 1
      then { timer := (risen timer d (k + 1)).rearm, ticks := n + 1, firings := firings ++ [n] }
      else { timer := risen timer d (k + 1), ticks := n + 1, firings } := by
  rw [tick_quiet, risen_tick hd hk]
  simp

/-- The tick after `k` ticks does not wrap, when it is before the one that is due. -/
theorem lt_of_not_due (hd : 0 < d.toNat) {k : Nat} (hk : k < dueTick timer d)
    (h : k + 1 < dueTick timer d ∨ dueTick timer d * d.toNat < UInt32.size) :
    (k + 1) * d.toNat < UInt32.size := by
  rcases Nat.lt_or_ge (k + 1) (dueTick timer d) with hlt | hge
  · have hnot : ¬ timer.intervalMs.toNat ≤ (k + 1) * d.toNat :=
      (dueTick_le hd (Nat.succ_pos k)).not.mp (Nat.not_le_of_lt hlt)
    exact Nat.lt_trans (Nat.lt_of_not_le hnot) timer.intervalMs.toNat_lt_size
  · obtain h | h := h
    · omega
    · rwa [show k + 1 = dueTick timer d from Nat.le_antisymm hk hge]

/-- One more tick of a repeating timer. -/
theorem ticked_repeat (hd : 0 < d.toNat) (hr : timer.repeat_ = true) {n : Nat}
    (h : n + 1 < dueTick timer d ∨ dueTick timer d * d.toNat < UInt32.size)
    (firings : List Nat) :
    ({ timer := scheduleTimer timer d n, ticks := n, firings } : Solo κ).tick (fun _ => []) d =
      { timer := scheduleTimer timer d (n + 1), ticks := n + 1,
        firings := firings ++ [n].filter (scheduled timer d) } := by
  have hj : n % dueTick timer d < dueTick timer d := Nat.mod_lt n (dueTick_pos timer d)
  have hnext : (n + 1) % dueTick timer d = (n % dueTick timer d + 1) % dueTick timer d := by
    rw [Nat.mod_add_mod]
  have hlt := lt_of_not_due hd hj (h.imp_left fun hn => by rwa [Nat.mod_eq_of_lt (by omega)])
  simp only [scheduleTimer, scheduled, hr, if_true, hnext, List.filter_cons, List.filter_nil]
  rw [risen_step hd hlt]
  by_cases hdue : dueTick timer d ≤ n % dueTick timer d + 1
  · have heq : n % dueTick timer d + 1 = dueTick timer d := Nat.le_antisymm hj hdue
    rw [if_pos hdue, heq, Nat.mod_self, risen_zero_rearm hr]
    rfl
  · rw [if_neg hdue, Nat.mod_eq_of_lt (Nat.lt_of_not_le hdue)]
    simp

/-- One more tick of a one-shot timer: it is due once, and is not ticked again. -/
theorem ticked_oneShot (hd : 0 < d.toNat) (hr : timer.repeat_ = false) {n : Nat}
    (h : n + 1 < dueTick timer d ∨ dueTick timer d * d.toNat < UInt32.size)
    (firings : List Nat) :
    ({ timer := scheduleTimer timer d n, ticks := n, firings } : Solo κ).tick (fun _ => []) d =
      { timer := scheduleTimer timer d (n + 1), ticks := n + 1,
        firings := firings ++ [n].filter (scheduled timer d) } := by
  simp only [scheduleTimer, scheduled, hr, Bool.false_eq_true, if_false, List.filter_cons,
    List.filter_nil]
  by_cases hn : n < dueTick timer d
  · rw [if_pos hn, risen_step hd (lt_of_not_due hd hn h)]
    by_cases hdue : dueTick timer d ≤ n + 1
    · have heq : n + 1 = dueTick timer d := Nat.le_antisymm hn hdue
      rw [if_pos hdue, if_neg (by omega), if_pos (by simp [heq]), risen_rearm hr, heq]
    · rw [if_neg hdue, if_pos (by omega), if_neg (by simp; omega), List.append_nil]
  · rw [if_neg hn, if_neg (by omega), if_neg (by simp; omega), List.append_nil, tick_quiet]
    simp [Timer.tick, Timer.stop]

/-- **The timer after `n` ticks**, up to the one that is due or without a wrap. -/
theorem ticked_eq (hd : 0 < d.toNat) {n : Nat}
    (h : n < dueTick timer d ∨ dueTick timer d * d.toNat < UInt32.size) :
    ticked t timer d n = { timer := scheduleTimer timer d n, ticks := n,
                           firings := (List.range n).filter (scheduled timer d) } := by
  have hpos := dueTick_pos timer d
  induction n with
  | zero =>
    simp [ticked, solo, Solo.step, scheduleTimer, hpos, Timer.control, Timer.start, risen]
  | succ n ih =>
    rw [ticked_succ, ih (h.imp_left Nat.lt_of_succ_lt), List.range_succ, List.filter_append]
    cases hr : timer.repeat_ with
    | true => exact ticked_repeat hd hr h _
    | false => exact ticked_oneShot hd hr h _

/-! ## The wrap -/

/-- Before the tick that is due nothing is scheduled. -/
theorem scheduled_before {timer : Timer κ} {d : UInt32} {n : Nat} (hn : n < dueTick timer d) :
    (List.range n).filter (scheduled timer d) = [] := by
  rw [List.filter_eq_nil_iff]
  intro k hk
  have hk : k + 1 < dueTick timer d := Nat.lt_of_le_of_lt (List.mem_range.mp hk) hn
  rw [scheduled, Nat.mod_eq_of_lt hk]
  split
  · simp
  · simp
    omega

/-- A sum that wraps is below the period, so it is not compared equal to an interval above it. -/
theorem not_due_of_wrap {timer : Timer κ} {d : UInt32} {k : Nat} (hd : 0 < d.toNat)
    (hk : k * d.toNat < UInt32.size) (hover : UInt32.size ≤ (k + 1) * d.toNat)
    (hlong : d.toNat < timer.intervalMs.toNat) : ((risen timer d k).tick d).2 = false := by
  have hsum : (UInt32.ofNat (k * d.toNat) + d).toNat = (k + 1) * d.toNat - UInt32.size := by
    rw [UInt32.toNat_add, UInt32.toNat_ofNat_of_lt' hk, ← Nat.succ_mul]
    have hlt := d.toNat_lt_size
    rw [Nat.succ_mul] at hover ⊢
    exact (Nat.mod_eq_sub_mod hover).trans (Nat.mod_eq_of_lt (by omega))
  rw [Timer.tick, if_neg (by simp [risen])]
  refine decide_eq_false fun hge => ?_
  have hge : timer.intervalMs.toNat ≤ (UInt32.ofNat (k * d.toNat) + d).toNat := hge
  rw [hsum, Nat.succ_mul] at hge
  omega

/-- The sum wraps on the tick that is due, and the timer does not fire. -/
theorem ticked_wrapped (hd : 0 < d.toNat) (h : UInt32.size ≤ dueTick timer d * d.toNat) :
    (ticked t timer d (dueTick timer d)).firings = [] := by
  obtain ⟨k, hk⟩ : ∃ k, dueTick timer d = k + 1 :=
    ⟨_, (Nat.succ_pred_eq_of_pos (dueTick_pos timer d)).symm⟩
  have hlt : k < dueTick timer d := hk ▸ Nat.lt_succ_self k
  have hk0 : 0 < k := by
    refine Nat.pos_of_ne_zero fun h0 => ?_
    rw [hk, h0, Nat.zero_add, Nat.one_mul] at h
    exact absurd d.toNat_lt_size (Nat.not_lt_of_le h)
  have hlong : d.toNat < timer.intervalMs.toNat := by
    have hnot : ¬timer.intervalMs.toNat ≤ 1 * d.toNat :=
      (dueTick_le hd Nat.one_pos).not.mp (by omega)
    omega
  have hbelow : k * d.toNat < UInt32.size := by
    have hnot : ¬timer.intervalMs.toNat ≤ k * d.toNat :=
      (dueTick_le hd hk0).not.mp (Nat.not_le_of_lt hlt)
    exact Nat.lt_trans (Nat.lt_of_not_le hnot) timer.intervalMs.toNat_lt_size
  have hstate : scheduleTimer timer d k = risen timer d k := by
    rw [scheduleTimer, Nat.mod_eq_of_lt hlt, if_pos hlt, ite_self]
  rw [hk] at h ⊢
  rw [ticked_succ, ticked_eq t hd (.inl hlt), scheduled_before hlt, hstate, tick_quiet,
    not_due_of_wrap hd hbelow h hlong]
  rfl

/-! ## The theorem -/

/--
**A timer fires on the ticks of its schedule** exactly when the tick on which it is due is reached
within 32 bits.
-/
theorem on_schedule_iff (timer : Timer κ) (d : UInt32) (hd : 1 ≤ d) :
    (∀ n, OnSchedule t timer d n) ↔ dueTick timer d * d.toNat < UInt32.size := by
  have hd : 0 < d.toNat := UInt32.le_iff_toNat_le.mp hd
  constructor
  · intro hall
    refine Nat.lt_of_not_le fun hover => ?_
    have hfired := (hall (dueTick timer d)).1
    rw [ticked_wrapped t hd hover] at hfired
    -- the tick that is due is on the schedule, as its last
    have hmem : dueTick timer d - 1 ∈
        (List.range (dueTick timer d)).filter (scheduled timer d) := by
      have hpos := dueTick_pos timer d
      rw [List.mem_filter, List.mem_range, scheduled, Nat.sub_add_cancel hpos]
      exact ⟨Nat.sub_lt hpos Nat.one_pos, by simp⟩
    rw [← hfired] at hmem
    exact absurd hmem (by simp)
  · intro h n
    rw [OnSchedule, ticked_eq t hd (.inr h)]
    refine ⟨rfl, fun hr hn => ?_⟩
    simp [scheduleTimer, hr, Nat.not_lt_of_le hn, Timer.stop]

/-- An interval of 100 ms in ticks of 30 ms, over the tick on which it is due again. -/
theorem on_schedule_100_by_30 :
    OnSchedule 0 ({ intervalMs := 100, repeat_ := true } : Timer Unit) 30 8 :=
  (on_schedule_iff 0 _ 30 (by decide)).mpr (by decide) 8

/-- **The longest interval in ticks of half of it wraps** on the second tick, and passes it. -/
theorem wrapped_timer_is_late :
    dueTick ({ intervalMs := 0xFFFFFFFF } : Timer Unit) 0x80000000 = 2
      ∧ (ticked 0 ({ intervalMs := 0xFFFFFFFF } : Timer Unit) 0x80000000 2).firings = []
      ∧ (ticked 0 ({ intervalMs := 0xFFFFFFFF } : Timer Unit) 0x80000000 2).timer.active = true
      ∧ ¬ OnSchedule 0 ({ intervalMs := 0xFFFFFFFF } : Timer Unit) 0x80000000 2 := by
  refine ⟨by decide, by decide, by decide, fun h => ?_⟩
  exact absurd h.1 (by decide)

/-! ## In the manager -/

/-- The calls from outside that a timer sees. -/
def callsOn (t : τ) (calls : List (Outer τ)) : List (Outer τ) :=
  calls.filter fun
    | .control _ u => u = t
    | .tick _ => true

theorem solo_callsOn (script : List Nat → List Control) (timer : Timer κ)
    (calls : List (Outer τ)) :
    solo script t timer (callsOn t calls) = solo script t timer calls := by
  rw [solo, callsOn, List.foldl_filter, solo]
  congr 1
  funext x call
  cases call with
  | control o u => by_cases hu : u = t <;> simp [Solo.step, hu]
  | tick deltaMs => rfl

/-- **In a run of the manager** a registered timer whose callback does nothing with it fires in the
tick calls of its schedule, whatever happens to the other timers. -/
theorem firings_on_schedule {s₀ s : Sys τ κ} {acts : List (Act τ κ)}
    {script : τ → List Nat → List Control} (hrun : TimerRun s₀ acts s)
    (hk : KeepsTo script s₀ acts) (hquiet : script t = fun _ => []) (hidle : s.stack = [])
    {i n : Nat} (hslot : s₀.manager.slot i = some t) (ht : s₀.heap t = some timer)
    (hcalls : callsOn t (outerCalls s.log) = .control .start t :: List.replicate n (.tick d))
    (hd : 0 < d.toNat) (h : dueTick timer d * d.toNat < UInt32.size) :
    firings t s.log = (List.range n).filter (scheduled timer d) := by
  have hticked : solo (fun _ => []) t timer (outerCalls s.log) = ticked t timer d n := by
    rw [← solo_callsOn, hcalls, ticked]
  rw [firings_solo hrun hk hidle hslot ht, hquiet, hticked, ticked_eq t hd (.inr h)]

end Ticks

end TaktOS.Proof
