import TaktOS.Proof.TimerTimes

/-!
# The slots of the timers do not matter

While callbacks control no timer but their own, a timer sees of the manager only the calls
that are made from outside. `solo` is what becomes of a timer that is alone: it has no slot,
and a tick call ticks it at once. In a run a tick call comes to a timer later than it begins, so
`SoloPhase` says where a timer is in the tick call in progress.
-/

namespace TaktOS.Proof

open TaktOS TimerManager Lib

variable {τ κ : Type}

/-- A call from outside. -/
inductive Outer (τ : Type) where
  | control (o : Control) (t : τ)
  | tick (deltaMs : UInt32)
  deriving DecidableEq

def outerCalls (log : List (Entry τ)) : List (Outer τ) :=
  log.filterMap fun
    | .tick deltaMs => some (.tick deltaMs)
    | .control none o t => some (.control o t)
    | _ => none

@[simp] theorem outerCalls_append (l l' : List (Entry τ)) :
    outerCalls (l ++ l') = outerCalls l ++ outerCalls l' :=
  List.filterMap_append ..

/-! ## A timer alone -/

/-- A timer, the tick calls there were and those in which it fired. -/
structure Solo (κ : Type) where
  timer : Timer κ
  ticks : Nat := 0
  firings : List Nat := []

/-- A tick, with what the callback does with its timer by the firings there were. -/
def Solo.tick (script : List Nat → List Control) (x : Solo κ) (deltaMs : UInt32) : Solo κ :=
  let (timer, due) := x.timer.tick deltaMs
  if !due then { x with timer, ticks := x.ticks + 1 }
  else
    let firings := x.firings ++ [x.ticks]
    let timer := if timer.callback = none then timer else (script firings).foldl Timer.control timer
    { timer := timer.rearm, ticks := x.ticks + 1, firings }

/-- The frame of a callback of another timer. -/
theorem caller_other {t u : τ} {c j n : Nat} {deltaMs : UInt32} {rest : List (Frame τ)}
    (h : u ≠ t) (m : Nat) : caller (.calling c deltaMs j u n :: rest) ≠ some (t, m) := by
  intro hc
  cases hc
  exact h rfl

theorem caller_scanning {t : τ} {c j : Nat} {deltaMs : UInt32} {rest : List (Frame τ)} (m : Nat) :
    caller (.scanning c deltaMs j :: rest) ≠ some (t, m) := by
  simp [caller]

section Steps

variable [DecidableEq τ]

def Solo.step (script : List Nat → List Control) (t : τ) (x : Solo κ) : Outer τ → Solo κ
  | .control o u => if u = t then { x with timer := x.timer.control o } else x
  | .tick deltaMs => x.tick script deltaMs

def solo (script : List Nat → List Control) (t : τ) (timer : Timer κ)
    (calls : List (Outer τ)) : Solo κ :=
  calls.foldl (Solo.step script t) { timer }

theorem solo_concat (script : List Nat → List Control) (t : τ) (timer : Timer κ)
    (calls : List (Outer τ)) (call : Outer τ) :
    solo script t timer (calls ++ [call]) = (solo script t timer calls).step script t call := by
  rw [solo, List.foldl_append]
  rfl

/-! ## What the log says of a timer -/

/-- What the callback of the timer did with it when it was called the `n`-th time. -/
def ownCalls (t : τ) (n : Nat) (log : List (Entry τ)) : List Control :=
  log.filterMap fun
    | .control (some (u, m)) o v => if u = t ∧ m = n ∧ v = t then some o else none
    | _ => none

@[simp] theorem ownCalls_append (t : τ) (n : Nat) (l l' : List (Entry τ)) :
    ownCalls t n (l ++ l') = ownCalls t n l ++ ownCalls t n l' :=
  List.filterMap_append ..

@[simp] theorem firings_append (t : τ) (l l' : List (Entry τ)) :
    firings t (l ++ l') = firings t l ++ firings t l' :=
  List.filterMap_append ..

theorem firings_control (t : τ) (caller : Option (τ × Nat)) (o : Control) (u : τ) :
    firings t [.control caller o u] = [] := rfl

theorem firings_fired (c : Nat) (t u : τ) :
    firings t [.advanced c u, .fired c u] = if u = t then [c] else [] := by
  simp only [firings, List.filterMap_cons, List.filterMap_nil]
  split <;> rename_i h <;> split at h <;> simp_all

theorem ownCalls_fired (t : τ) (n c : Nat) (u : τ) :
    ownCalls t n [.advanced c u, .fired c u] = [] := rfl

theorem ownCalls_own (t : τ) (n m : Nat) (o : Control) :
    ownCalls t n [.control (some (t, m)) o t] = if m = n then [o] else [] := by
  simp only [ownCalls, List.filterMap_cons, List.filterMap_nil]
  split <;> rename_i h <;> split at h <;> simp_all

theorem ownCalls_other {t u : τ} (h : u ≠ t) (n m : Nat) (o : Control) (v : τ) :
    ownCalls t n [.control (some (u, m)) o v] = [] := by
  simp [ownCalls, h]

/-- Callbacks control no timer but their own, and none of them ticks. -/
def OwnTimerOnly (s : Sys τ κ) : Act τ κ → Prop
  | .call (.control _ t) => ∀ u n, caller s.stack = some (u, n) → t = u
  | .call (.tick _) => s.stack = []
  | _ => True

/-- A callback does what the script says for the tick calls in which its timer fired. -/
def Follows (script : τ → List Nat → List Control) (s : Sys τ κ) : Act τ κ → Prop
  | .ret => ∀ t n, caller s.stack = some (t, n) →
      ownCalls t n s.log = script t (firings t s.log)
  | _ => True

/-! ## A timer in a run -/

/-- The timer and its firings are those of `x`. -/
structure Shows (t : τ) (x : Solo κ) (s : Sys τ κ) : Prop where
  timer : s.heap t = some x.timer
  firings : firings t s.log = x.firings

/-- The timer of slot `i` in a run that a timer alone, `timer₀` at first, is compared with. -/
inductive SoloPhase (script : List Nat → List Control) (t : τ) (timer₀ : Timer κ) (i : Nat)
    (s : Sys τ κ) : Prop
  /-- No tick call is in progress. -/
  | idle (x : Solo κ) (hx : x = solo script t timer₀ (outerCalls s.log)) (hs : s.stack = [])
      (hshow : Shows t x s) (hk : s.ticks = x.ticks)
  /-- The tick call in progress has still to come to the slot. -/
  | before (x : Solo κ) (calls : List (Outer τ)) (f : Frame τ) (hx : x = solo script t timer₀ calls)
      (hcalls : outerCalls s.log = calls ++ [.tick (frameDelta f)]) (hs : s.stack = [f])
      (hn : frameNext f ≤ i) (hc : frameCall f = x.ticks) (hshow : Shows t x s)
      (hk : s.ticks = x.ticks + 1)
  /-- The callback of the timer is in control. -/
  | inside (x : Solo κ) (calls : List (Outer τ)) (c n : Nat) (deltaMs : UInt32)
      (hx : x = solo script t timer₀ calls) (hcalls : outerCalls s.log = calls ++ [.tick deltaMs])
      (hs : s.stack = [.calling c deltaMs i t n]) (hdue : (x.timer.tick deltaMs).2 = true)
      (hcb : x.timer.callback ≠ none) (hn : n = x.firings.length)
      (hf : firings t s.log = x.firings ++ [x.ticks])
      (ht : s.heap t =
        some ((ownCalls t n s.log).foldl Timer.control (x.timer.tick deltaMs).1))
      (hk : s.ticks = x.ticks + 1)
  /-- The tick call in progress is past the slot. -/
  | after (x : Solo κ) (f : Frame τ) (hx : x = solo script t timer₀ (outerCalls s.log))
      (hs : s.stack = [f]) (hn : i < frameNext f) (hc : ∀ n, caller [f] ≠ some (t, n))
      (hshow : Shows t x s) (hk : s.ticks = x.ticks)

structure SoloLaw (script : List Nat → List Control) (t : τ) (timer₀ : Timer κ) (i : Nat)
    (s : Sys τ κ) : Prop where
  registry : Registry s
  slot : s.manager.slot i = some t
  calls : ∀ c deltaMs j u n, .calling c deltaMs j u n ∈ s.stack → s.manager.slot j = some u
  fresh : ∀ n, (firings t s.log).length ≤ n → ownCalls t n s.log = []
  phase : SoloPhase script t timer₀ i s

variable {script : List Nat → List Control} {t : τ} {timer₀ : Timer κ} {i : Nat} {s s' : Sys τ κ}

/-- A step that is not about the timer and does not pass its slot. -/
theorem SoloPhase.turned (hp : SoloPhase script t timer₀ i s) {f f' : Frame τ}
    {rest : List (Frame τ)} (hs : s.stack = f :: rest) (hs' : s'.stack = f' :: rest)
    (hcall : frameCall f' = frameCall f) (hdelta : frameDelta f' = frameDelta f)
    (hnext : frameNext f' = frameNext f ∨ frameNext f' = frameNext f + 1 ∧ frameNext f ≠ i)
    (hown : ∀ n, caller (f :: rest) ≠ some (t, n)) (hown' : ∀ n, caller [f'] ≠ some (t, n))
    (hheap : s'.heap t = s.heap t) (hcalls : outerCalls s'.log = outerCalls s.log)
    (hf : firings t s'.log = firings t s.log) (hk : s'.ticks = s.ticks) :
    SoloPhase script t timer₀ i s' := by
  cases hp with
  | idle x hx hs₀ => exact absurd (hs₀.symm.trans hs) (by simp)
  | before x calls g hx hc hs₀ hn hcx hshow hkx =>
    obtain ⟨rfl, rfl⟩ := List.cons.inj (hs₀.symm.trans hs)
    refine .before x calls f' hx (hcalls.trans (hdelta ▸ hc)) hs' ?_ (hcall.trans hcx)
      ⟨hheap.trans hshow.timer, hf.trans hshow.firings⟩ (hk.trans hkx)
    omega
  | inside x calls c n deltaMs hx hc hs₀ =>
    obtain ⟨rfl, rfl⟩ := List.cons.inj (hs₀.symm.trans hs)
    exact absurd rfl (hown n)
  | after x g hx hs₀ hn hcx hshow hkx =>
    obtain ⟨rfl, rfl⟩ := List.cons.inj (hs₀.symm.trans hs)
    refine .after x f' (hcalls ▸ hx) hs' ?_ hown'
      ⟨hheap.trans hshow.timer, hf.trans hshow.firings⟩ (hk.trans hkx)
    omega

/-- The loop comes to the slot of the timer. -/
theorem SoloPhase.coming (hp : SoloPhase script t timer₀ i s) {c : Nat} {deltaMs : UInt32}
    {rest : List (Frame τ)} (hs : s.stack = .scanning c deltaMs i :: rest) :
    ∃ x calls, x = solo script t timer₀ calls ∧ outerCalls s.log = calls ++ [.tick deltaMs] ∧
      rest = [] ∧ c = x.ticks ∧ Shows t x s ∧ s.ticks = x.ticks + 1 := by
  cases hp with
  | idle x hx hs₀ => exact absurd (hs₀.symm.trans hs) (by simp)
  | before x calls g hx hc hs₀ hn hcx hshow hkx =>
    obtain ⟨rfl, rfl⟩ := List.cons.inj (hs₀.symm.trans hs)
    exact ⟨x, calls, hx, hc, rfl, hcx, hshow, hkx⟩
  | inside x calls c n deltaMs hx hc hs₀ =>
    exact absurd (List.cons.inj (hs₀.symm.trans hs)).1 (by simp)
  | after x g hx hs₀ hn =>
    obtain ⟨rfl, rfl⟩ := List.cons.inj (hs₀.symm.trans hs)
    exact absurd hn (Nat.lt_irrefl i)

theorem tick_not_due {x : Solo κ} {deltaMs : UInt32} (h : (x.timer.tick deltaMs).2 = false) :
    x.tick script deltaMs =
      { x with timer := (x.timer.tick deltaMs).1, ticks := x.ticks + 1 } := by
  simp [Solo.tick, h]

theorem tick_silent {x : Solo κ} {deltaMs : UInt32} (h : (x.timer.tick deltaMs).2 = true)
    (hcb : x.timer.callback = none) :
    x.tick script deltaMs =
      { timer := (x.timer.tick deltaMs).1.rearm
        ticks := x.ticks + 1
        firings := x.firings ++ [x.ticks] } := by
  simp [Solo.tick, h, hcb]

theorem tick_ticks (x : Solo κ) (deltaMs : UInt32) :
    (x.tick script deltaMs).ticks = x.ticks + 1 := by
  rw [Solo.tick]
  dsimp only
  split <;> rfl

theorem tick_called {x : Solo κ} {deltaMs : UInt32} (h : (x.timer.tick deltaMs).2 = true)
    (hcb : x.timer.callback ≠ none) :
    x.tick script deltaMs =
      { timer := ((script (x.firings ++ [x.ticks])).foldl Timer.control
          (x.timer.tick deltaMs).1).rearm
        ticks := x.ticks + 1
        firings := x.firings ++ [x.ticks] } := by
  simp [Solo.tick, h, hcb]

theorem SoloLaw.controlled (hl : SoloLaw script t timer₀ i s) (hc : s.clientActs)
    {o : Control} {u : τ} {timer : Timer κ} (hu : s.heap u = some timer)
    (how : OwnTimerOnly s (.call (.control o u))) :
    SoloPhase script t timer₀ i { s with
      heap := s.heap.set u (some (timer.control o))
      log := s.log ++ [.control (caller s.stack) o u] } := by
  have hp := hl.phase
  cases hstack : s.stack with
  | nil =>
    -- from outside
    cases hp with
    | before x calls f hx hcalls hs => exact absurd (hs.symm.trans hstack) (by simp)
    | inside x calls c n deltaMs hx hcalls hs => exact absurd (hs.symm.trans hstack) (by simp)
    | after x f hx hs => exact absurd (hs.symm.trans hstack) (by simp)
    | idle x hx hs hshow hk =>
      have hcalls : outerCalls (s.log ++ [.control (caller []) o u]) =
          outerCalls s.log ++ [.control o u] := outerCalls_append ..
      refine .idle (x.step script t (.control o u)) ?_ rfl ?_ ?_
      · rw [hcalls, solo_concat, ← hx]
      · rw [Solo.step]
        split
        · rename_i hut
          subst hut
          cases hu.symm.trans hshow.timer
          exact ⟨Heap.set_self .., by simp [firings_control, hshow.firings]⟩
        · rename_i hut
          exact ⟨(Heap.set_other _ _ (Ne.symm hut)).trans hshow.timer,
            by simp [firings_control, hshow.firings]⟩
      · rw [Solo.step]
        split <;> exact hk
  | cons f rest =>
    cases f with
    | scanning c deltaMs j => rw [Sys.clientActs, hstack] at hc; exact absurd hc (by simp)
    | calling c deltaMs j v n =>
      obtain rfl : u = v := how v n (by rw [hstack]; rfl)
      have hcalls : outerCalls (s.log ++ [.control (caller (.calling c deltaMs j u n :: rest)) o u])
          = outerCalls s.log := by rw [outerCalls_append]; exact List.append_nil _
      by_cases hut : u = t
      · -- from its own callback
        subst hut
        cases hp with
        | idle x hx hs => exact absurd (hs.symm.trans hstack) (by simp)
        | before x calls f hx hcalls₀ hs hn =>
          cases hs.symm.trans hstack
          have hj := hl.calls c deltaMs j u n (by rw [hs]; exact List.mem_cons_self)
          obtain rfl : i = j := hl.registry.once i j u hl.slot hj
          exact absurd hn (Nat.not_succ_le_self i)
        | after x f hx hs hn hcx =>
          obtain ⟨rfl, -⟩ := List.cons.inj (hs.symm.trans hstack)
          exact absurd rfl (hcx n)
        | inside x calls c' n' deltaMs' hx hcalls₀ hs hdue hcb hn hf ht hk =>
          cases hs.symm.trans hstack
          cases hu.symm.trans ht
          refine .inside x calls c n deltaMs hx (hcalls.trans hcalls₀) rfl hdue hcb hn ?_ ?_ hk
          · simp [firings_control, hf]
          · rw [ownCalls_append, show caller _ = some (u, n) from rfl, ownCalls_own, if_pos rfl,
              List.foldl_append]
            exact Heap.set_self ..
      · refine hp.turned hstack rfl rfl rfl (.inl rfl) (caller_other hut) (caller_other hut)
          (Heap.set_other _ _ (Ne.symm hut)) hcalls (by simp [firings_control]) rfl

theorem SoloLaw.ticked (hl : SoloLaw script t timer₀ i s) {deltaMs : UInt32}
    (hs : s.stack = []) :
    SoloPhase script t timer₀ i { s with
      stack := .scanning s.ticks deltaMs 0 :: s.stack
      ticks := s.ticks + 1
      log := s.log ++ [.tick deltaMs] } := by
  cases hl.phase with
  | before x calls f hx hcalls hs' => exact absurd (hs'.symm.trans hs) (by simp)
  | inside x calls c n deltaMs hx hcalls hs' => exact absurd (hs'.symm.trans hs) (by simp)
  | after x f hx hs' => exact absurd (hs'.symm.trans hs) (by simp)
  | idle x hx _ hshow hk =>
    refine .before x (outerCalls s.log) (.scanning s.ticks deltaMs 0) hx ?_ (by rw [hs])
      (Nat.zero_le i) hk ⟨hshow.timer, ?_⟩ (congrArg (· + 1) hk)
    · exact outerCalls_append ..
    · exact (firings_append ..).trans ((List.append_nil _).trans hshow.firings)

theorem SoloLaw.returned (hl : SoloLaw script t timer₀ i s) {c j n : Nat} {deltaMs : UInt32}
    {u : τ} {rest : List (Frame τ)} {timer : Timer κ}
    (hs : s.stack = .calling c deltaMs j u n :: rest) (hu : s.heap u = some timer)
    (hf : u = t → ownCalls t n s.log = script (firings t s.log)) :
    SoloPhase script t timer₀ i { s with
      heap := s.heap.set u (some timer.rearm)
      stack := .scanning c deltaMs (j + 1) :: rest } := by
  have hj := hl.calls c deltaMs j u n (by rw [hs]; exact List.mem_cons_self)
  by_cases hut : u = t
  · subst hut
    obtain rfl : i = j := hl.registry.once i j u hl.slot hj
    cases hl.phase with
    | idle x hx hs' => exact absurd (hs'.symm.trans hs) (by simp)
    | before x calls f hx hcalls hs' hn =>
      cases hs'.symm.trans hs
      exact absurd hn (Nat.not_succ_le_self i)
    | after x f hx hs' hn hcx =>
      cases hs'.symm.trans hs
      exact absurd rfl (hcx n)
    | inside x calls c' n' deltaMs' hx hcalls hs' hdue hcb hn hfx ht hk =>
      cases hs'.symm.trans hs
      cases hu.symm.trans ht
      refine .after (x.tick script deltaMs) (.scanning c deltaMs (i + 1)) ?_ rfl
        (Nat.lt_succ_self i) caller_scanning ⟨?_, ?_⟩ ?_
      · rw [hcalls, solo_concat, ← hx]
        rfl
      · rw [tick_called hdue hcb, ← hfx, ← hf rfl]
        exact Heap.set_self ..
      · rw [tick_called hdue hcb]
        exact hfx
      · rw [tick_called hdue hcb]
        exact hk
  · exact hl.phase.turned hs rfl rfl rfl (.inl rfl) (caller_other hut) caller_scanning
      (Heap.set_other _ _ (Ne.symm hut)) rfl rfl rfl

/-- The loop passes a timer with no callback in between. -/
theorem SoloLaw.visited (hl : SoloLaw script t timer₀ i s) {c j : Nat} {deltaMs : UInt32}
    {u : τ} {rest : List (Frame τ)} {timer timer' : Timer κ} {last : List (Entry τ)}
    (hs : s.stack = .scanning c deltaMs j :: rest) (hj : s.manager.slot j = some u)
    (hu : s.heap u = some timer) (hlast : outerCalls last = [])
    (hother : u ≠ t → firings t last = [])
    (hsolo : ∀ x : Solo κ, x.timer = timer → x.ticks = c →
      (x.tick script deltaMs).timer = timer' ∧
        (x.tick script deltaMs).firings = x.firings ++ firings u last) :
    SoloPhase script t timer₀ i { s with
      heap := s.heap.set u (some timer')
      stack := .scanning c deltaMs (j + 1) :: rest
      log := s.log ++ last } := by
  have hcalls' : outerCalls (s.log ++ last) = outerCalls s.log := by
    rw [outerCalls_append, hlast, List.append_nil]
  by_cases hut : u = t
  · subst hut
    obtain rfl : i = j := hl.registry.once i j u hl.slot hj
    obtain ⟨x, calls, hx, hcalls, rfl, rfl, hshow, hk⟩ := hl.phase.coming hs
    cases hu.symm.trans hshow.timer
    obtain ⟨htimer, hfirings⟩ := hsolo x rfl rfl
    refine .after (x.tick script deltaMs) (.scanning x.ticks deltaMs (i + 1)) ?_ rfl
      (Nat.lt_succ_self i) caller_scanning ⟨?_, ?_⟩ (hk.trans (tick_ticks x deltaMs).symm)
    · rw [hcalls', hcalls, solo_concat, ← hx]
      rfl
    · rw [htimer]
      exact Heap.set_self ..
    · rw [hfirings, firings_append, hshow.firings]
  · have hji : j ≠ i := by
      rintro rfl
      exact hut (Option.some.inj (hj.symm.trans hl.slot))
    exact hl.phase.turned hs rfl rfl rfl (.inr ⟨rfl, hji⟩) caller_scanning caller_scanning
      (Heap.set_other _ _ (Ne.symm hut)) hcalls' (by simp [hother hut]) rfl

theorem SoloLaw.fired (hl : SoloLaw script t timer₀ i s) {c j : Nat} {deltaMs : UInt32}
    {u : τ} {rest : List (Frame τ)} {timer : Timer κ}
    (hs : s.stack = .scanning c deltaMs j :: rest) (hj : s.manager.slot j = some u)
    (hu : s.heap u = some timer) (hd : (timer.tick deltaMs).2 = true)
    (hcb : timer.callback ≠ none) :
    SoloPhase script t timer₀ i { s with
      heap := s.heap.set u (some (timer.tick deltaMs).1)
      stack := .calling c deltaMs j u (firings u s.log).length :: rest
      log := s.log ++ [.advanced c u, .fired c u] } := by
  have hcalls' : outerCalls (s.log ++ [.advanced c u, .fired c u]) = outerCalls s.log := by
    simp [outerCalls]
  by_cases hut : u = t
  · subst hut
    obtain rfl : i = j := hl.registry.once i j u hl.slot hj
    obtain ⟨x, calls, hx, hcalls, rfl, rfl, hshow, hk⟩ := hl.phase.coming hs
    cases hu.symm.trans hshow.timer
    refine .inside x calls x.ticks _ deltaMs hx (hcalls'.trans hcalls) rfl hd hcb
      (congrArg List.length hshow.firings) ?_ ?_ hk
    · rw [firings_append, firings_fired, if_pos rfl, hshow.firings]
    · rw [ownCalls_append, hl.fresh _ (Nat.le_refl _), ownCalls_fired]
      exact Heap.set_self ..
  · have hji : j ≠ i := by
      rintro rfl
      exact hut (Option.some.inj (hj.symm.trans hl.slot))
    exact hl.phase.turned hs rfl rfl rfl (.inr ⟨rfl, hji⟩) caller_scanning (caller_other hut)
      (Heap.set_other _ _ (Ne.symm hut)) hcalls' (by simp [firings_fired, hut]) rfl

theorem ownCalls_fresh (hl : SoloLaw script t timer₀ i s) {last : List (Entry τ)}
    (h : ∀ n, (firings t s.log).length ≤ n → ownCalls t n last = []) (n : Nat)
    (hn : (firings t (s.log ++ last)).length ≤ n) : ownCalls t n (s.log ++ last) = [] := by
  rw [firings_append, List.length_append] at hn
  have hn : (firings t s.log).length ≤ n := by omega
  rw [ownCalls_append, hl.fresh n hn, h n hn]
  rfl

/-- The firing whose callback is in control is one of those there were. -/
theorem SoloLaw.caller_lt (hl : SoloLaw script t timer₀ i s) {n : Nat}
    (h : caller s.stack = some (t, n)) : n < (firings t s.log).length := by
  cases hl.phase with
  | idle x hx hs => rw [hs] at h; exact absurd h (by simp [caller])
  | before x calls f hx hcalls hs hn =>
    rw [hs] at h
    cases f with
    | scanning c deltaMs j => exact absurd h (caller_scanning n)
    | calling c deltaMs j u m =>
      cases h
      have hj := hl.calls c deltaMs j t n (by rw [hs]; exact List.mem_cons_self)
      obtain rfl : i = j := hl.registry.once i j t hl.slot hj
      exact absurd hn (Nat.not_succ_le_self i)
  | inside x calls c m deltaMs hx hcalls hs hdue hcb hm hf =>
    rw [hs] at h
    cases h
    rw [hf, hm]
    simp
  | after x f hx hs hn hc => rw [hs] at h; exact absurd h (hc n)

theorem soloLaw_step {script : τ → List Nat → List Control} (hl : SoloLaw (script t) t timer₀ i s)
    {a : Act τ κ} (hd : Driven a) (how : OwnTimerOnly s a) (hf : Follows script s a)
    (h : s.step a = some s') : SoloLaw (script t) t timer₀ i s' := by
  have hr : Registry s' := registry_step hl.registry hd.moveless (hd.notTwice s) h
  have htail : ∀ {f rest c deltaMs j u n}, s.stack = f :: rest →
      Frame.calling c deltaMs j u n ∈ rest → s.manager.slot j = some u := fun hs hmem =>
    hl.calls _ _ _ _ _ (by rw [hs]; exact List.mem_cons_of_mem _ hmem)
  have hscan : ∀ {f rest c' d' j'}, s.stack = f :: rest → ∀ c deltaMs j u n,
      Frame.calling c deltaMs j u n ∈ .scanning c' d' j' :: rest → s.manager.slot j = some u := by
    intro f rest c' d' j' hs c deltaMs j u n hmem
    rcases List.mem_cons.mp hmem with h | hmem
    · exact absurd h (by simp)
    · exact htail hs hmem
  cases timer_step_effect h with
  | constructed | destroyed | moveConstructed | moveAssigned | selfAssigned | intervalSet
  | repeatSet | timeoutSet | registered => exact hd.elim
  | controlled o u timer hc hu =>
    refine ⟨hr, hl.slot, hl.calls, fun n hn => ownCalls_fresh hl (fun m hm => ?_) n hn,
      hl.controlled hc hu how⟩
    match hcaller : caller s.stack with
    | none => rfl
    | some (v, k) =>
      by_cases hvt : v = t
      · subst hvt
        have hk := hl.caller_lt hcaller
        obtain rfl : u = v := how v k hcaller
        rw [ownCalls_own, if_neg (by omega)]
      · exact ownCalls_other hvt ..
  | ticked deltaMs hc =>
    refine ⟨hr, hl.slot, fun c d j u n hmem => ?_, ownCalls_fresh hl fun _ _ => rfl,
      hl.ticked how⟩
    rcases List.mem_cons.mp hmem with h | hmem
    · exact absurd h (by simp)
    · exact hl.calls c d j u n hmem
  | returned c deltaMs j u n rest timer hs hu =>
    refine ⟨hr, hl.slot, hscan hs, hl.fresh, hl.returned hs hu ?_⟩
    rintro rfl
    exact hf u n (by rw [hs]; rfl)
  | passed c deltaMs j rest hs hj hnone =>
    have hji : j ≠ i := by
      rintro rfl
      exact absurd (hnone.symm.trans hl.slot) (by simp)
    exact ⟨hr, hl.slot, hscan hs, hl.fresh,
      hl.phase.turned hs rfl rfl rfl (.inr ⟨rfl, hji⟩) caller_scanning caller_scanning rfl rfl rfl
        rfl⟩
  | advanced c deltaMs j rest u timer hs hj hu hdue =>
    refine ⟨hr, hl.slot, hscan hs, ownCalls_fresh hl fun _ _ => rfl,
      hl.visited hs hj hu rfl (fun _ => rfl) fun x hx hc => ?_⟩
    subst hx
    rw [tick_not_due hdue]
    exact ⟨rfl, (List.append_nil _).symm⟩
  | fired c deltaMs j rest u timer hs hj hu hdue hcb =>
    refine ⟨hr, hl.slot, fun c' d k v m hmem => ?_, ownCalls_fresh hl fun _ _ => rfl,
      hl.fired hs hj hu hdue hcb⟩
    rcases List.mem_cons.mp hmem with h | hmem
    · cases h
      exact hj
    · exact htail hs hmem
  | firedSilent c deltaMs j rest u timer hs hj hu hdue hcb =>
    refine ⟨hr, hl.slot, hscan hs, ownCalls_fresh hl fun _ _ => rfl,
      hl.visited hs hj hu rfl (fun hut => by rw [firings_fired, if_neg hut]) fun x hx hc => ?_⟩
    subst hx
    subst hc
    rw [tick_silent hdue hcb, firings_fired, if_pos rfl]
    exact ⟨rfl, rfl⟩
  | finished c deltaMs j rest hs hj =>
    refine ⟨hr, hl.slot, fun c' d k v m hmem => htail hs hmem, hl.fresh, ?_⟩
    have hlt : i < kMaxTimers := slot_lt hl.slot
    cases hl.phase with
    | idle x hx hs' => exact absurd (hs'.symm.trans hs) (by simp)
    | before x calls f hx hcalls hs' hn =>
      cases hs'.symm.trans hs
      have hn : j ≤ i := hn
      omega
    | inside x calls c' n d hx hcalls hs' =>
      exact absurd (List.cons.inj (hs'.symm.trans hs)).1 (by simp)
    | after x f hx hs' hn hc hshow hk =>
      cases hs'.symm.trans hs
      exact .idle x hx rfl ⟨hshow.timer, hshow.firings⟩ hk

/-- A run of registered timers, from one tick call to another. -/
structure TimerRun (s₀ : Sys τ κ) (acts : List (Act τ κ)) (s : Sys τ κ) : Prop where
  registry : Registry s₀
  idle : s₀.stack = []
  ticks : s₀.ticks = 0
  log : s₀.log = []
  driven : ∀ a ∈ acts, Driven a
  run : run Sys.step s₀ acts = some s

/-- A run in which callbacks keep to their own timers and to the script. -/
def KeepsTo (script : τ → List Nat → List Control) (s₀ : Sys τ κ) (acts : List (Act τ κ)) : Prop :=
  Along Sys.step (fun s a => OwnTimerOnly s a ∧ Follows script s a) s₀ acts

/-- A timer fires in a run as it does alone. -/
theorem firings_solo {s₀ : Sys τ κ} {acts : List (Act τ κ)}
    {script : τ → List Nat → List Control} (hrun : TimerRun s₀ acts s)
    (hk : KeepsTo script s₀ acts) (hidle : s.stack = []) {timer : Timer κ}
    (hslot : s₀.manager.slot i = some t) (ht : s₀.heap t = some timer) :
    firings t s.log = (solo (script t) t timer (outerCalls s.log)).firings := by
  have hinit : SoloLaw (script t) t timer i s₀ := by
    refine ⟨hrun.registry, hslot, by simp [hrun.idle], by simp [hrun.log, ownCalls], ?_⟩
    refine .idle { timer } ?_ hrun.idle ⟨ht, ?_⟩ hrun.ticks
    · rw [hrun.log]; rfl
    · rw [hrun.log]; rfl
  have hend : SoloLaw (script t) t timer i s :=
    run_invariant (SoloLaw (script t) t timer i)
      (fun r a r' hl hp hr' => soloLaw_step hl hp.1 hp.2.1 hp.2.2 hr') hinit
      (Along.and_forall hk hrun.driven) hrun.run
  cases hend.phase with
  | idle x hx hs hshow hkx => exact hx ▸ hshow.firings
  | before x calls f hx hcalls hs => exact absurd (hs.symm.trans hidle) (by simp)
  | inside x calls c n deltaMs hx hcalls hs => exact absurd (hs.symm.trans hidle) (by simp)
  | after x f hx hs => exact absurd (hs.symm.trans hidle) (by simp)

/-! ## Two arrangements of the timers -/

/-- The timers are the same but for the slots they are in. -/
def SameTimers (s s' : Sys τ κ) : Prop :=
  ∀ t, (s'.heap t).map (Timer.setHandle · 0) = (s.heap t).map (Timer.setHandle · 0)

theorem setHandle_tick (timer : Timer κ) (h : UInt16) (deltaMs : UInt32) :
    (timer.setHandle h).tick deltaMs =
      ((timer.tick deltaMs).1.setHandle h, (timer.tick deltaMs).2) := by
  cases ha : timer.active <;> simp [Timer.tick, Timer.setHandle, ha]

theorem setHandle_control (timer : Timer κ) (h : UInt16) (o : Control) :
    (timer.setHandle h).control o = (timer.control o).setHandle h := by
  cases o <;> rfl

theorem setHandle_rearm (timer : Timer κ) (h : UInt16) :
    (timer.setHandle h).rearm = timer.rearm.setHandle h := by
  cases hr : timer.repeat_ <;> simp [Timer.rearm, Timer.setHandle, hr]

theorem setHandle_foldl (h : UInt16) (os : List Control) :
    ∀ timer : Timer κ, os.foldl Timer.control (timer.setHandle h) =
      (os.foldl Timer.control timer).setHandle h := by
  induction os with
  | nil => intro timer; rfl
  | cons o os ih => intro timer; rw [List.foldl_cons, setHandle_control, ih]; rfl

def Solo.setHandle (x : Solo κ) (h : UInt16) : Solo κ := { x with timer := x.timer.setHandle h }

theorem setHandle_soloTick (x : Solo κ) (h : UInt16) (deltaMs : UInt32) :
    (x.setHandle h).tick script deltaMs = (x.tick script deltaMs).setHandle h := by
  have htick : (x.setHandle h).timer.tick deltaMs =
      ((x.timer.tick deltaMs).1.setHandle h, (x.timer.tick deltaMs).2) := setHandle_tick ..
  cases hdue : (x.timer.tick deltaMs).2 with
  | false =>
    rw [tick_not_due hdue, tick_not_due (by rw [htick]; exact hdue), htick]
    rfl
  | true =>
    by_cases hcb : x.timer.callback = none
    · rw [tick_silent hdue hcb, tick_silent (x := x.setHandle h) (by rw [htick]; exact hdue) hcb,
        htick, setHandle_rearm]
      rfl
    · rw [tick_called hdue hcb, tick_called (x := x.setHandle h) (by rw [htick]; exact hdue) hcb,
        htick, setHandle_foldl, setHandle_rearm]
      rfl

theorem solo_setHandle (timer : Timer κ) (h : UInt16) (calls : List (Outer τ)) :
    solo script t (timer.setHandle h) calls = (solo script t timer calls).setHandle h := by
  induction calls using List.reverseRecOn with
  | nil => rfl
  | append_singleton calls call ih =>
    rw [solo_concat, solo_concat, ih]
    cases call with
    | tick deltaMs => exact setHandle_soloTick ..
    | control o u =>
      simp only [Solo.step]
      split
      · rw [Solo.setHandle, Solo.setHandle, setHandle_control]
      · rfl

/-! ## The condition and the loops in progress -/

/-- At most one tick call is in progress, and a callback is of the timer in its slot. -/
inductive OneLoop (s : Sys τ κ) : Prop
  | idle (hs : s.stack = [])
  | scanning (c : Nat) (deltaMs : UInt32) (j : Nat) (hs : s.stack = [.scanning c deltaMs j])
  | calling (c : Nat) (deltaMs : UInt32) (j : Nat) (u : τ) (n : Nat)
      (hs : s.stack = [.calling c deltaMs j u n]) (hj : s.manager.slot j = some u)

omit [DecidableEq τ] in
theorem OneLoop.rest {f : Frame τ} {rest : List (Frame τ)} (h : OneLoop s)
    (hs : s.stack = f :: rest) : rest = [] := by
  cases h with
  | idle h => exact absurd (h.symm.trans hs) (by simp)
  | scanning c deltaMs j h => exact (List.cons.inj (h.symm.trans hs)).2.symm
  | calling c deltaMs j u n h => exact (List.cons.inj (h.symm.trans hs)).2.symm

theorem oneLoop_step (hl : OneLoop s) {a : Act τ κ} (hd : Driven a) (how : OwnTimerOnly s a)
    (h : s.step a = some s') : OneLoop s' := by
  cases timer_step_effect h with
  | constructed | destroyed | moveConstructed | moveAssigned | selfAssigned | intervalSet
  | repeatSet | timeoutSet | registered => exact hd.elim
  | controlled =>
    cases hl with
    | idle hs => exact .idle hs
    | scanning c deltaMs j hs => exact .scanning c deltaMs j hs
    | calling c deltaMs j u n hs hj => exact .calling c deltaMs j u n hs hj
  | ticked deltaMs hc => exact .scanning _ deltaMs 0 (congrArg _ how)
  | returned c deltaMs j u n rest timer hs hu =>
    exact .scanning c deltaMs (j + 1) (congrArg _ (hl.rest hs))
  | passed c deltaMs j rest hs hj hn =>
    exact .scanning c deltaMs (j + 1) (congrArg _ (hl.rest hs))
  | advanced c deltaMs j rest u timer hs hj hu hdue =>
    exact .scanning c deltaMs (j + 1) (congrArg _ (hl.rest hs))
  | fired c deltaMs j rest u timer hs hj hu hdue hcb =>
    exact .calling c deltaMs j u _ (congrArg _ (hl.rest hs)) hj
  | firedSilent c deltaMs j rest u timer hs hj hu hdue hcb =>
    exact .scanning c deltaMs (j + 1) (congrArg _ (hl.rest hs))
  | finished c deltaMs j rest hs hj => exact .idle (hl.rest hs)

omit [DecidableEq τ] in
/-- A callback that starts its own timer starts it behind the loop. -/
theorem notAhead_of_own (hr : Registry s) (hl : OneLoop s) {a : Act τ κ}
    (how : OwnTimerOnly s a) : NotAhead s a := by
  match a with
  | .call (.control .start u) =>
    intro hc i hi f hf
    cases hl with
    | idle hs => rw [hs] at hf; exact absurd hf (by simp)
    | scanning c deltaMs j hs => rw [Sys.clientActs, hs] at hc; exact absurd hc (by simp)
    | calling c deltaMs j v n hs hj =>
      obtain rfl : u = v := how v n (by rw [hs]; rfl)
      obtain rfl : i = j := hr.once i j u hi hj
      rw [hs] at hf
      rw [List.mem_singleton.mp hf]
      exact Nat.lt_succ_self i
  | .call (.control .stop _) | .call (.control .reset _) | .ret | .advance
  | .call (.construct ..) | .call (.destroy ..) | .call (.moveConstruct ..)
  | .call (.moveAssign ..) | .call (.setInterval ..) | .call (.setRepeat ..)
  | .call (.onTimeout ..) | .call (.tick ..) => trivial

theorem KeepsTo.notAhead {s₀ : Sys τ κ} {acts : List (Act τ κ)}
    {script : τ → List Nat → List Control} (hrun : TimerRun s₀ acts s)
    (hk : KeepsTo script s₀ acts) : Along Sys.step NotAhead s₀ acts :=
  along_of_invariant (fun r => Registry r ∧ OneLoop r)
    (fun r _ _ hi hp hr' => ⟨registry_step hi.1 hp.1.moveless (hp.1.notTwice r) hr',
      oneLoop_step hi.2 hp.1 hp.2.1 hr'⟩)
    (fun _ _ hi hp => notAhead_of_own hi.1 hi.2 hp.2.1)
    ⟨hrun.registry, .idle hrun.idle⟩ (Along.and_forall hk hrun.driven)

/-- **When timers fire**: not early while none is started ahead of the loop, and whatever their
slots while callbacks keep to their own timers. -/
theorem timer_times {s₀ s₀' : Sys τ κ} {acts acts' : List (Act τ κ)} (hrun : TimerRun s₀ acts s)
    (hrun' : TimerRun s₀' acts' s') :
    (Along Sys.step NotAhead s₀ acts → NeverEarly s₀ s.log) ∧
      ∀ script, KeepsTo script s₀ acts → KeepsTo script s₀' acts' →
        Along Sys.step NotAhead s₀ acts ∧
          (s.stack = [] → s'.stack = [] → SameTimers s₀ s₀' →
            outerCalls s'.log = outerCalls s.log →
            ∀ t i j, s₀.manager.slot i = some t → s₀'.manager.slot j = some t →
              firings t s'.log = firings t s.log) := by
  refine ⟨fun hn => neverEarly_of_notAhead hrun.registry hrun.log hrun.driven hn hrun.run,
    fun script hk hk' => ⟨hk.notAhead hrun, ?_⟩⟩
  intro hidle hidle' hsame hcalls t i j hi hj
  obtain ⟨timer, ht, -⟩ := hrun.registry.live i t hi
  obtain ⟨timer', ht', -⟩ := hrun'.registry.live j t hj
  have hst := hsame t
  rw [ht, ht'] at hst
  have hst : timer'.setHandle 0 = timer.setHandle 0 := Option.some.inj hst
  have hunslotted : ∀ x : Timer κ, (solo (script t) t x (outerCalls s.log)).firings =
      (solo (script t) t (x.setHandle 0) (outerCalls s.log)).firings := by
    intro x
    rw [solo_setHandle]
    rfl
  rw [firings_solo hrun hk hidle hi ht, firings_solo hrun' hk' hidle' hj ht', hcalls, hunslotted,
    hst, ← hunslotted]

end Steps

/-- Two one-shot timers of ten milliseconds, in the slots 0 and 1. -/
def twoTimers (first second : Nat) : Sys Nat Unit where
  manager := {
    timers := fun i => if i.val = 0 then some first else if i.val = 1 then some second else none
    activeCount := 2 }
  heap := fun t =>
    if t = first then some { handle := 0, intervalMs := 10, callback := some () }
    else if t = second then some { handle := 1, intervalMs := 10, callback := some () }
    else none

theorem registry_twoTimers {first second : Nat} (h : first ≠ second) :
    Registry (twoTimers first second) := by
  have hslot : ∀ i t, (twoTimers first second).manager.slot i = some t →
      i = 0 ∧ t = first ∨ i = 1 ∧ t = second := by
    intro i t hi
    have hlt := slot_lt hi
    rw [slot, dif_pos hlt] at hi
    dsimp only [twoTimers] at hi
    split at hi
    · rename_i h0; exact .inl ⟨h0, (Option.some.inj hi).symm⟩
    · split at hi
      · rename_i h1; exact .inr ⟨h1, (Option.some.inj hi).symm⟩
      · exact absurd hi (by simp)
  refine ⟨fun i t hi => ?_, fun i j t hi hj => ?_, rfl⟩
  · rcases hslot i t hi with ⟨rfl, rfl⟩ | ⟨rfl, rfl⟩
    · exact ⟨{ handle := 0, intervalMs := 10, callback := some () }, if_pos rfl, rfl⟩
    · exact ⟨{ handle := 1, intervalMs := 10, callback := some () },
        (if_neg (Ne.symm h)).trans (if_pos rfl), rfl⟩
  · rcases hslot i t hi with ⟨rfl, rfl⟩ | ⟨rfl, rfl⟩
    · rcases hslot j _ hj with ⟨rfl, -⟩ | ⟨-, ht⟩
      · rfl
      · exact absurd ht h
    · rcases hslot j _ hj with ⟨-, ht⟩ | ⟨rfl, -⟩
      · exact absurd ht.symm h
      · rfl

/-- Timer 0 is started and fires in a tick call of ten milliseconds, in either slot. -/
theorem timer_times_swapped :
    ∃ s s', run Sys.step (twoTimers 0 1)
          ([.call (.control .start 0), .call (.tick 10), .advance, .ret] ++
            List.replicate 32 .advance) = some s ∧
        run Sys.step (twoTimers 1 0)
          ([.call (.control .start 0), .call (.tick 10), .advance, .advance, .ret] ++
            List.replicate 31 .advance) = some s' ∧
      NeverEarly (twoTimers 0 1) s.log ∧ firings 0 s'.log = firings 0 s.log ∧
      firings 0 s.log = [0] := by
  have hadvance : ∀ n, ∀ a ∈ List.replicate n (Act.advance (τ := Nat) (κ := Unit)), ∀ s,
      OwnTimerOnly s a ∧ Follows (fun _ _ => []) s a := by
    intro n a ha s
    rw [List.eq_of_mem_replicate ha]
    exact ⟨trivial, trivial⟩
  have hout : ∀ (s : Sys Nat Unit) o t, s.stack = [] → OwnTimerOnly s (.call (.control o t)) := by
    intro s o t hs u n h
    rw [hs] at h
    exact absurd h (by simp [caller])
  have hret : ∀ (s : Sys Nat Unit) c n rest deltaMs j,
      s.stack = .calling c deltaMs j 0 n :: rest → ownCalls 0 n s.log = [] →
      Follows (fun _ _ => []) s .ret := by
    intro s c n rest deltaMs j hs hlog t m h
    rw [hs] at h
    cases h
    exact hlog
  have hrun : TimerRun (twoTimers 0 1) ([.call (.control .start 0), .call (.tick 10), .advance,
      .ret] ++ List.replicate 32 .advance) _ :=
    ⟨registry_twoTimers (by decide), rfl, rfl, rfl, by simp +contextual [Driven], rfl⟩
  have hrun' : TimerRun (twoTimers 1 0) ([.call (.control .start 0), .call (.tick 10), .advance,
      .advance, .ret] ++ List.replicate 31 .advance) _ :=
    ⟨registry_twoTimers (by decide), rfl, rfl, rfl, by simp +contextual [Driven], rfl⟩
  have hkeeps : KeepsTo (fun _ _ => []) (twoTimers 0 1) ([.call (.control .start 0),
      .call (.tick 10), .advance, .ret] ++ List.replicate 32 .advance) :=
    .cons rfl ⟨hout _ _ _ rfl, trivial⟩ (.cons rfl ⟨rfl, trivial⟩ (.cons rfl ⟨trivial, trivial⟩
      (.cons rfl ⟨trivial, hret _ _ _ _ _ _ rfl rfl⟩ (along_of_forall (hadvance 32)))))
  have hkeeps' : KeepsTo (fun _ _ => []) (twoTimers 1 0) ([.call (.control .start 0),
      .call (.tick 10), .advance, .advance, .ret] ++ List.replicate 31 .advance) :=
    .cons rfl ⟨hout _ _ _ rfl, trivial⟩ (.cons rfl ⟨rfl, trivial⟩ (.cons rfl ⟨trivial, trivial⟩
      (.cons rfl ⟨trivial, trivial⟩ (.cons rfl ⟨trivial, hret _ _ _ _ _ _ rfl rfl⟩
        (along_of_forall (hadvance 31))))))
  obtain ⟨hearly, hsame⟩ := timer_times hrun hrun'
  obtain ⟨hn, hsame⟩ := hsame _ hkeeps hkeeps'
  refine ⟨_, _, rfl, rfl, hearly hn, hsame rfl rfl (fun t => ?_) rfl 0 0 1 rfl rfl, rfl⟩
  match t with
  | 0 | 1 | _ + 2 => rfl

/-- Timer 1, started in the tick call in which it fires, is early, and in the other slot it does
not fire. -/
theorem started_ahead_fires_early :
    ∃ s s', run Sys.step (twoTimers 0 1)
          ([.call (.control .start 0), .call (.tick 10), .advance, .call (.control .start 1), .ret,
            .advance, .ret] ++ List.replicate 31 .advance) = some s ∧
        run Sys.step (twoTimers 1 0)
          ([.call (.control .start 0), .call (.tick 10), .advance, .advance,
            .call (.control .start 1), .ret] ++ List.replicate 31 .advance) = some s' ∧
      ¬NeverEarly (twoTimers 0 1) s.log ∧ outerCalls s'.log = outerCalls s.log ∧
      firings 1 s.log = [0] ∧ firings 1 s'.log = [] := by
  refine ⟨_, _, rfl, rfl, fun h => ?_, rfl, rfl, rfl⟩
  have hearly := h [.control none .start 0, .tick 10, .advanced 0 0, .fired 0 0] [.advanced 0 1] []
    (some (0, 0)) 0 1 _ rfl rfl
  exact absurd hearly (by decide)

end TaktOS.Proof
