import Mathlib.Data.List.Induction
import TaktOS.Proof.TimerSteps

/-!
# A callback that controls its own timer

`Timer::tick` calls the callback before it completes the expiry: the mode that the callback leaves
decides how, and the completion goes over what the callback did. A one-shot timer that is started in
its callback is inactive when the tick returns.

`foldl_apply` is what the calls of a callback come to, by the last of them that set a member; the
two orders are compared on it.
-/

namespace TaktOS.Proof

open TaktOS TimerManager Lib Timer

variable {τ κ : Type}

/-- `tick`, had it completed the expiry before it called the callback. -/
def expireFirst (t : Timer κ) (deltaMs : UInt32) (calls : List OwnCall) : Timer κ :=
  let (t, due) := t.tick deltaMs
  if !due then t
  else
    match t.callback with
    | some _ => calls.foldl apply t.rearm
    | none => t.rearm

/-! ## What the calls come to -/

/-- The flag that a call sets, if it sets it. -/
def activeSet : OwnCall → Option Bool
  | .control .start => some true
  | .control .stop => some false
  | _ => none

/-- The call takes the elapsed time back to 0. -/
def rewinds : OwnCall → Bool
  | .control .start | .control .reset => true
  | _ => false

def repeatSet : OwnCall → Option Bool
  | .setRepeat repeat_ => some repeat_
  | _ => none

def intervalSet : OwnCall → Option UInt32
  | .setInterval intervalMs => some intervalMs
  | _ => none

/-- What the last of the calls that set it sets. -/
def lastSet {α : Type} (f : OwnCall → Option α) (calls : List OwnCall) : Option α :=
  (calls.filterMap f).getLast?

theorem lastSet_concat {α : Type} (f : OwnCall → Option α) (calls : List OwnCall) (c : OwnCall) :
    lastSet f (calls ++ [c]) = (f c).or (lastSet f calls) := by
  rw [lastSet, lastSet, List.filterMap_append]
  cases hc : f c <;> simp [hc]

/-- **What the calls come to**: each member as the last call that set it left it. -/
theorem foldl_apply (t : Timer κ) (calls : List OwnCall) :
    calls.foldl apply t =
      { t with
        active := (lastSet activeSet calls).getD t.active
        elapsedMs := if calls.any rewinds then 0 else t.elapsedMs
        repeat_ := (lastSet repeatSet calls).getD t.repeat_
        intervalMs := (lastSet intervalSet calls).getD t.intervalMs } := by
  induction calls using List.reverseRecOn with
  | nil => rfl
  | append_singleton calls c ih =>
    rw [List.foldl_append, ih]
    simp only [List.foldl_cons, List.foldl_nil, lastSet_concat, List.any_append, List.any_cons,
      List.any_nil]
    cases c with
    | control o =>
      cases o <;>
        simp [apply, Timer.control, Timer.start, Timer.stop, Timer.reset, activeSet, rewinds,
          repeatSet, intervalSet]
    | setInterval intervalMs => simp [apply, activeSet, rewinds, repeatSet, intervalSet]
    | setRepeat repeat_ => simp [apply, activeSet, rewinds, repeatSet, intervalSet]

/-! ## The two orders -/

/-- The tick is one on which the timer calls its callback. -/
def Expires (t : Timer κ) (deltaMs : UInt32) : Prop :=
  t.active = true ∧ t.intervalMs ≤ t.elapsedMs + deltaMs ∧ t.callback ≠ none

/-- The mode that the calls leave. -/
def modeAfter (t : Timer κ) (calls : List OwnCall) : Bool :=
  (lastSet repeatSet calls).getD t.repeat_

/-- The expiry is completed after the calls, by the mode that they left. -/
structure CompletedAfter (t : Timer κ) (deltaMs : UInt32) (calls : List OwnCall) (t' : Timer κ) :
    Prop where
  intervalMs : t'.intervalMs = (lastSet intervalSet calls).getD t.intervalMs
  repeat_ : t'.repeat_ = modeAfter t calls
  /-- A timer that is a one-shot then is inactive, whatever the calls were. -/
  active : t'.active = (modeAfter t calls && (lastSet activeSet calls).getD true)
  elapsedMs : t'.elapsedMs =
    if modeAfter t calls || calls.any rewinds then 0 else t.elapsedMs + deltaMs

/-- The calls leave the same timer in either order. -/
def OrderFree (t : Timer κ) (deltaMs : UInt32) (calls : List OwnCall) : Prop :=
  match t.repeat_, modeAfter t calls with
  | true, true => True
  | false, false => lastSet activeSet calls ≠ some true
  | true, false => lastSet activeSet calls = some false
      ∧ (calls.any rewinds = true ∨ t.elapsedMs + deltaMs = 0)
  | false, true => lastSet activeSet calls ≠ none
      ∧ (calls.any rewinds = true ∨ t.elapsedMs + deltaMs = 0)

variable {t : Timer κ} {deltaMs : UInt32}

theorem tick_expires (h : Expires t deltaMs) :
    t.tick deltaMs = ({ t with elapsedMs := t.elapsedMs + deltaMs }, true) := by
  rw [Timer.tick, if_neg (by simp [h.1])]
  exact Prod.ext rfl (decide_eq_true h.2.1)

/-- A timer that calls nothing is the same in either order. -/
theorem tickCalling_of_not_expires (h : ¬ Expires t deltaMs) (calls : List OwnCall) :
    t.tickCalling deltaMs calls = expireFirst t deltaMs calls := by
  rw [tickCalling, expireFirst]
  cases hdue : (t.tick deltaMs).2 with
  | false => simp [hdue]
  | true =>
    have hcb : t.callback = none := by
      refine Classical.byContradiction fun hcb => h ?_
      rw [Timer.tick] at hdue
      split at hdue
      · exact absurd hdue (by simp)
      · rename_i ha
        exact ⟨by simpa using ha, of_decide_eq_true hdue, hcb⟩
    simp [hdue, tick_callback, hcb]

theorem tickCalling_of_expires (h : Expires t deltaMs) (calls : List OwnCall) :
    t.tickCalling deltaMs calls =
      (calls.foldl apply { t with elapsedMs := t.elapsedMs + deltaMs }).rearm := by
  obtain ⟨k, hk⟩ := Option.ne_none_iff_exists'.mp h.2.2
  rw [tickCalling, tick_expires h]
  simp [hk]

theorem expireFirst_of_expires (h : Expires t deltaMs) (calls : List OwnCall) :
    expireFirst t deltaMs calls =
      calls.foldl apply ({ t with elapsedMs := t.elapsedMs + deltaMs } : Timer κ).rearm := by
  obtain ⟨k, hk⟩ := Option.ne_none_iff_exists'.mp h.2.2
  rw [expireFirst, tick_expires h]
  simp [hk]

/-- **The expiry goes over the calls**: a timer that they leave a one-shot is inactive. -/
theorem completedAfter_of_expires (h : Expires t deltaMs) (calls : List OwnCall) :
    CompletedAfter t deltaMs calls (t.tickCalling deltaMs calls) := by
  rw [tickCalling_of_expires h, foldl_apply]
  cases hmode : (lastSet repeatSet calls).getD t.repeat_ <;>
    constructor <;> simp [Timer.rearm, modeAfter, hmode, h.1]

theorem orderFree_iff (h : Expires t deltaMs) (calls : List OwnCall) :
    t.tickCalling deltaMs calls = expireFirst t deltaMs calls ↔ OrderFree t deltaMs calls := by
  rw [tickCalling_of_expires h, expireFirst_of_expires h, foldl_apply, foldl_apply]
  have hactive := h.1
  simp only [OrderFree, modeAfter]
  generalize calls.any rewinds = w
  cases hr : t.repeat_ with
  | true =>
    cases hm : (lastSet repeatSet calls).getD true with
    | true => simp [Timer.rearm, hm]
    | false =>
      -- the calls end a repeating timer
      rcases lastSet activeSet calls with _ | _ | _ <;> cases w <;>
        simp [Timer.rearm, hm, hactive]
  | false =>
    cases hm : (lastSet repeatSet calls).getD false with
    | true =>
      -- the calls make a one-shot repeat
      rcases lastSet activeSet calls with _ | _ | _ <;> cases w <;>
        simp [Timer.rearm, hm, hactive, eq_comm (a := (0 : UInt32))]
    | false =>
      rcases lastSet activeSet calls with _ | _ | _ <;> simp [Timer.rearm, hm]

/-! ## The theorem -/

/--
**A callback that controls its own timer** leaves what completing the expiry before its calls would
leave, exactly when the calls are free of the order.
-/
theorem callback_controls_iff (t : Timer κ) (deltaMs : UInt32) (calls : List OwnCall) :
    t.tickCalling deltaMs calls = expireFirst t deltaMs calls
      ↔ (Expires t deltaMs → OrderFree t deltaMs calls) := by
  by_cases h : Expires t deltaMs
  · rw [orderFree_iff h]
    exact ⟨fun ho _ => ho, fun ho => ho h⟩
  · exact iff_of_true (tickCalling_of_not_expires h calls) (absurd · h)

/-- **A one-shot timer started in its own callback** is inactive after the tick, and the next tick
does not count for it. -/
theorem restarted_one_shot_inactive :
    (({ intervalMs := 100, active := true, callback := some () } : Timer Unit).tickCalling 100
        [.control .start]).active = false
      ∧ (expireFirst ({ intervalMs := 100, active := true, callback := some () } : Timer Unit) 100
        [.control .start]).active = true
      ∧ ((({ intervalMs := 100, active := true, callback := some () } : Timer Unit).tickCalling 100
        [.control .start]).tick 100).2 = false := by
  decide

/-! ## In the manager -/

/-- The call, as the client makes it. -/
def ownOp (t : τ) : OwnCall → Op τ κ
  | .control o => .control o t
  | .setInterval intervalMs => .setInterval t intervalMs
  | .setRepeat repeat_ => .setRepeat t repeat_

section Steps

variable [DecidableEq τ]

/-- A call of the callback in control on its own timer. -/
theorem step_ownOp {s : Sys τ κ} {u : τ} {timer : Timer κ} (hc : s.clientActs = true)
    (ht : s.heap u = some timer) (call : OwnCall) :
    ∃ s', s.step (.call (ownOp u call)) = some s' ∧ s'.stack = s.stack
      ∧ s'.heap u = some (timer.apply call) := by
  cases call <;> simp [ownOp, Sys.step, hc, Sys.call, Sys.update, ht, apply]

/-- The calls of a callback, one after another. -/
theorem run_ownOps {f : Frame τ} {rest : List (Frame τ)} {u : τ} (calls : List OwnCall) :
    ∀ {s : Sys τ κ} {timer : Timer κ}, s.stack = f :: rest → s.clientActs = true →
      s.heap u = some timer →
      ∃ s', run Sys.step s (calls.map fun call => .call (ownOp u call)) = some s'
        ∧ s'.stack = f :: rest ∧ s'.heap u = some (calls.foldl apply timer) := by
  induction calls with
  | nil => exact fun hs _ ht => ⟨_, rfl, hs, ht⟩
  | cons call calls ih =>
    intro s timer hs hc ht
    obtain ⟨s₁, hstep, hstack, hheap⟩ := step_ownOp hc ht call
    have hc₁ : s₁.clientActs = true := by rwa [Sys.clientActs, hstack]
    obtain ⟨s', hrun, hs', ht'⟩ := ih (hstack.trans hs) hc₁ hheap
    exact ⟨s', by rw [List.map_cons, run, hstep]; exact hrun, hs', ht'⟩

/-- **In the manager** the tick of a timer whose callback makes the calls is `tickCalling`. -/
theorem run_tickCalling {s : Sys τ κ} {c i : Nat} {deltaMs : UInt32} {rest : List (Frame τ)} {u : τ}
    {timer : Timer κ} (hs : s.stack = .scanning c deltaMs i :: rest)
    (hi : s.manager.slot i = some u) (ht : s.heap u = some timer) (h : Expires timer deltaMs)
    (calls : List OwnCall) :
    ∃ s', run Sys.step s
        (.advance :: calls.map (fun call => .call (ownOp u call)) ++ [.ret]) = some s'
      ∧ s'.stack = .scanning c deltaMs (i + 1) :: rest
      ∧ s'.heap u = some (timer.tickCalling deltaMs calls) := by
  obtain ⟨k, hk⟩ := Option.ne_none_iff_exists'.mp h.2.2
  -- into the callback
  obtain ⟨s₁, hadvance, hstack, hheap⟩ : ∃ s₁, s.step .advance = some s₁
      ∧ s₁.stack = .calling c deltaMs i u (firings u s.log).length :: rest
      ∧ s₁.heap u = some { timer with elapsedMs := timer.elapsedMs + deltaMs } := by
    simp [Sys.step, hs, Sys.scan, slot_lt hi, hi, ht, tick_expires h, hk]
  have hc₁ : s₁.clientActs = true := by rw [Sys.clientActs, hstack]
  obtain ⟨s₂, hrun, hstack₂, hheap₂⟩ := run_ownOps calls hstack hc₁ hheap
  -- and out of it
  obtain ⟨s', hret, hstack', hheap'⟩ : ∃ s', s₂.step .ret = some s'
      ∧ s'.stack = .scanning c deltaMs (i + 1) :: rest
      ∧ s'.heap u = some (timer.tickCalling deltaMs calls) := by
    simp [Sys.step, Sys.ret, hstack₂, hheap₂, tickCalling_of_expires h]
  refine ⟨s', ?_, hstack', hheap'⟩
  rw [List.cons_append, run, hadvance]
  exact (run_append hrun _).trans (by rw [run, hret]; rfl)

end Steps

end TaktOS.Proof
