import TaktOS.Proof.TimerAlone

/-!
# Timers keep the time of the takts

A takt ticks the timers once, by its period. So a timer that is started and left alone fires in
the takts in which the periods have added up to its interval, whatever the modules, the listeners
and the other timers do meanwhile.
-/

namespace TaktOS.Proof

open TaktOS Kernel Lib

variable {μ ω κ υ τ ξ : Type} [DecidableEq τ] {m : IModule μ ω}

/-- The periods of the takts that have begun. -/
def taktsBegun (s : Sys μ ω κ υ τ ξ) : List UInt32 := s.sched.log.filterMap periodOf

/-- The step is a client's call on the timer. -/
def callsTimer (t : τ) : Kernel.Act μ ω κ υ τ ξ → Bool
  | .call (.timers op) _ _ => touches t op
  | _ => false

/-- The step begins a takt. -/
def beginsTakt (s : Sys μ ω κ υ τ ξ) : Kernel.Act μ ω κ υ τ ξ → Bool
  | .call (.scheduler .runTakt) _ _ => true
  | .advance _ _ => s.control.head? = some .kernel ∧ s.stack.head? = some .looping
  | _ => false

/-- Nobody calls the timer, and no takt begins inside a tick of the timers. -/
def TimerLeftAlone (t : τ) (s : Sys μ ω κ υ τ ξ) (a : Kernel.Act μ ω κ υ τ ξ) : Prop :=
  callsTimer t a = false ∧ (beginsTakt s a = true → s.timers.stack = [])

instance (t : τ) (s : Sys μ ω κ υ τ ξ) (a : Kernel.Act μ ω κ υ τ ξ) :
    Decidable (TimerLeftAlone t s a) := inferInstanceAs (Decidable (_ ∧ (_ → _)))

/-- The timer is registered once, it has just been started, and no tick is in progress. -/
structure JustStarted (t : τ) (i : Nat) (timer : Timer ξ) (s : TimerManager.Sys τ ξ) : Prop where
  slot : ∀ j, s.manager.slot j = some t ↔ j = i
  there : s.heap t = some timer
  active : timer.active = true
  elapsed : timer.elapsedMs = 0
  idle : s.stack = []

/-! ## What a step of the whole is to the timers -/

/-- A step of the scheduler ticks the timers where a takt begins. -/
theorem sched_timers {s s' : Sys μ ω κ υ τ ξ} {b : Scheduler.Act μ ω} (h : SchedTurn m s b s') :
    s'.timers = s.timers
      ∨ (∃ world now, b = .call .runTakt world now)
        ∧ ∃ deltaMs, s.timers.step (.call (.tick deltaMs)) = some s'.timers := by
  cases h with
  | inward sched hs hin => exact .inl rfl
  | takt sched hs world now ha hsched hc =>
    exact .inr ⟨⟨world, now, ha⟩, _, step_tick (s := withSched s sched) hc _⟩
  | timersDone => exact .inl rfl
  | overrun => exact .inl rfl
  | requested => exact .inl rfl

/-- A step that leaves the timer alone is none of the timers, or one that leaves it alone. -/
theorem kernel_timers {t : τ} {s s' : Sys μ ω κ υ τ ξ} {a : Kernel.Act μ ω κ υ τ ξ}
    (h : KernelEffect m s a s') (hapart : apart a) (halone : TimerLeftAlone t s a) :
    s'.timers = s.timers
      ∨ ∃ b, s.timers.step b = some s'.timers ∧ LeavesAlone t s.timers b := by
  -- where a takt begins, no tick is in progress
  have htakt : ∀ {s₁ : Sys μ ω κ υ τ ξ} {b : Scheduler.Act μ ω}, SchedTurn m s₁ b s' →
      s₁.timers = s.timers → (∀ world now, b = .call .runTakt world now → s.timers.stack = []) →
      s'.timers = s.timers
        ∨ ∃ b, s.timers.step b = some s'.timers ∧ LeavesAlone t s.timers b := by
    intro s₁ b hturn hs₁ hidle
    rcases sched_timers hturn with hsame | ⟨⟨world, now, hb⟩, deltaMs, hstep⟩
    · exact .inl (hsame.trans hs₁)
    · exact .inr ⟨.call (.tick deltaMs), hs₁ ▸ hstep, hidle world now hb⟩
  cases h with
  | scheduler _ b hacts shutdown s' hturn =>
    refine htakt hturn rfl fun world now hb => ?_
    cases hacts with
    | call op world' now' hc =>
      cases hb
      exact halone.2 rfl
    | ret => exact absurd hb (by simp)
    | goesOn world' now' b hctl hn hb' =>
      subst hb
      simp at hb'
  | requestDone world now rest hs hctl s₁ hturn =>
    rcases sched_timers hturn with hsame | ⟨⟨world', now', hb⟩, -⟩
    · exact .inl hsame
    · exact absurd hb (by simp)
  | bus _ b hacts bus hbus => exact .inl rfl
  | timers _ b hacts timers htimers =>
    refine .inr ⟨b, htimers, ?_⟩
    cases hacts with
    | call op world now hc =>
      cases op with
      | tick deltaMs => exact absurd hapart (by simp [apart])
      | _ => exact halone.1
    | ret => trivial
    | goesOn => trivial
  | boot => exact .inl rfl
  | runRefused => exact .inl rfl
  | run => exact .inl rfl
  | initialized => exact .inl rfl
  | initFailed => exact .inl rfl
  | announced => exact .inl rfl
  | nextTakt world now rest hs hctl s' hturn =>
    exact htakt hturn rfl fun _ _ _ => halone.2 (by simp [beginsTakt, hctl, hs])

/-! ## The theorem -/

/-- Tick calls are counted. -/
theorem ticks_counted {s s' : TimerManager.Sys τ ξ} {b : TimerManager.Act τ ξ}
    (hs : s.ticks = (s.log.filterMap tickOf).length) (h : s.step b = some s') :
    s'.ticks = (s'.log.filterMap tickOf).length := by
  cases timer_step_effect h with
  | ticked deltaMs hc =>
    rw [List.filterMap_append, List.length_append, ← hs]
    rfl
  | advanced c deltaMs j rest u => rw [(ticks_visited s.log c u).1, hs]
  | fired c deltaMs j rest u => rw [(ticks_visited s.log c u).2, hs]
  | firedSilent c deltaMs j rest u => rw [(ticks_visited s.log c u).2, hs]
  | controlled o u timer hc hu =>
    rw [List.filterMap_append, List.length_append, ← hs]
    rfl
  | _ => exact hs

/--
**A timer keeps the time of the takts.** In a run of the kernel in which clients leave the ticks
to the scheduler, let a timer be registered once and just started, and from then on left alone,
and let no takt begin inside a tick of the timers. Where the interval and a period together do not
wrap, the timer has fired exactly in the takts that end a block, when the periods since are cut
into blocks of which each has just reached the interval; a one-shot only in the first.
-/
theorem timer_keeps_takts {sched : Scheduler μ} {world : ω}
    {before after : List (Kernel.Act μ ω κ υ τ ξ)} {s₀ s : Sys μ ω κ υ τ ξ} {t : τ} {i : Nat}
    {timer : Timer ξ} (hapart : ∀ a ∈ before ++ after, apart a)
    (h₀ : run (Sys.step m) (freshKernel sched world) before = some s₀)
    (hstart : JustStarted t i timer s₀.timers)
    (halone : Along (Sys.step m) (TimerLeftAlone t) s₀ after)
    (h : run (Sys.step m) s₀ after = some s) (hidle : s.timers.stack = [])
    (hwrap : ∀ p ∈ taktsBegun s, timer.intervalMs.toNat + p.toNat < UInt32.size) :
    ∃ periods blocks rest, taktsBegun s = taktsBegun s₀ ++ periods
      ∧ Chimes timer.intervalMs.toNat timer.repeat_ (periods.map UInt32.toNat) blocks rest
      ∧ TimerManager.firings t s.timers.log
        = TimerManager.firings t s₀.timers.log ++ blockEnds (taktsBegun s₀).length blocks := by
  have hbefore : Along (Sys.step m) (fun _ a => apart a) (freshKernel sched world) before :=
    along_of_forall fun a ha _ => hapart a (List.mem_append_left _ ha)
  have harrived₀ : Arrived s₀ :=
    run_invariant (P := fun _ a => apart a) Arrived
      (fun _ _ _ hi ha hs => kernel_arrived hi ha (kernel_step_effect hs)) ⟨rfl, rfl⟩ hbefore h₀
  have hcount : s₀.timers.ticks = (s₀.timers.log.filterMap tickOf).length := by
    obtain ⟨-, -, bs, hbs⟩ := kernel_runs_parts h₀
    exact run_preserves (fun s : TimerManager.Sys τ ξ => s.ticks = (s.log.filterMap tickOf).length)
      (fun _ _ _ hi hs => ticks_counted hi hs) rfl hbs
  let x₀ : Solo ξ :=
    { timer, ticks := s₀.timers.ticks, firings := TimerManager.firings t s₀.timers.log }
  have hlaw₀ : AloneLaw t i x₀ (taktsBegun s₀) s₀.timers := by
    refine ⟨hstart.slot, .idle [] ?_ hstart.idle ⟨hstart.there, rfl⟩ rfl⟩
    rw [List.append_nil]
    exact harrived₀.ticks
  obtain ⟨harrived, hlaw⟩ := run_invariant
    (fun s : Sys μ ω κ υ τ ξ => Arrived s ∧ AloneLaw t i x₀ (taktsBegun s₀) s.timers)
    (fun s a s' hi hp hs => by
      have heff := kernel_step_effect hs
      refine ⟨kernel_arrived hi.1 hp.1 heff, ?_⟩
      rcases kernel_timers heff hp.1 hp.2 with hsame | ⟨b, hb, hleaves⟩
      · rw [hsame]
        exact hi.2
      · exact aloneLaw_step hi.2 hleaves hb)
    ⟨harrived₀, hlaw₀⟩
    (halone.and_forall fun a ha => hapart a (List.mem_append_right _ ha)) h
  cases hlaw.phase with
  | before _ f _ hs => exact absurd (hs.symm.trans hidle) (by simp)
  | inside _ c n deltaMs _ hs => exact absurd (hs.symm.trans hidle) (by simp)
  | after _ f _ hs => exact absurd (hs.symm.trans hidle) (by simp)
  | idle periods hlog _ hshow _ =>
    have htakts : taktsBegun s = taktsBegun s₀ ++ periods := harrived.ticks.symm.trans hlog
    have hwithin : CountsWithin x₀.timer := fun _ => by
      show timer.elapsedMs.toNat ≤ _
      rw [hstart.elapsed]
      exact Nat.zero_le _
    have hrings := alone_rings periods hwithin fun p hp =>
      hwrap p (htakts ▸ List.mem_append_right _ hp)
    obtain ⟨blocks, rest, hchimes, hends⟩ := rings_chimes (periods.map UInt32.toNat) []
      (alarmOf timer) (taktsBegun s₀).length hstart.active
      (by rw [alarmOf, hstart.elapsed]; rfl) notYet_nil
    refine ⟨periods, blocks, rest, htakts, hchimes, ?_⟩
    have hticks : x₀.ticks = (taktsBegun s₀).length := by
      rw [taktsBegun, ← harrived₀.ticks]
      exact hcount
    rw [hshow.firings, hrings, hticks]
    exact congrArg (TimerManager.firings t s₀.timers.log ++ ·) hends

/-- A timer of 5 ms is started, and a one-shot of 3 ms, and the takts are of 3 ms. -/
def twoTimersStarted : List (Kernel.Act Nat Unit Nat Nat Nat Nat) :=
  [.call (.scheduler (.setTaktPeriodMs 3)) () 0,
    .call (.timers (.construct 1 5 true)) () 0, .call (.timers (.onTimeout 1 (some 7))) () 0,
    .call (.timers (.construct 2 3 false)) () 0, .call (.timers (.onTimeout 2 (some 8))) () 0,
    .call (.timers (.control .start 2)) () 0, .call (.timers (.control .start 1)) () 0]

/-- Four takts: the one-shot's callback makes a third timer, the other's destroys the one-shot. -/
def fourTakts : List (Kernel.Act Nat Unit Nat Nat Nat Nat) :=
  [.call (.scheduler .runTakt) () 0] ++ List.replicate 2 (.advance () 0)
    ++ [.call (.timers (.construct 3 9 true)) () 0, .ret () 0]
    ++ List.replicate 35 (.advance () 0)
    ++ [.call (.scheduler .runTakt) () 0, .advance () 0, .call (.timers (.destroy 2)) () 0,
      .ret () 0] ++ List.replicate 36 (.advance () 0)
    ++ [.call (.scheduler .runTakt) () 0] ++ List.replicate 37 (.advance () 0)
    ++ [.call (.scheduler .runTakt) () 0, .advance () 0, .ret () 0]
    ++ List.replicate 36 (.advance () 0)

/-- The kernel with the two timers started. -/
def timersStarted : Sys Nat Unit Nat Nat Nat Nat :=
  (run (Sys.step plainModule) (freshKernel {} ()) twoTimersStarted).getD (freshKernel {} ())

theorem timer_keeps_takts_of_three : ∃ s : Sys Nat Unit Nat Nat Nat Nat,
    run (Sys.step plainModule) timersStarted fourTakts = some s
      ∧ taktsBegun s = [3, 3, 3, 3]
      ∧ ∃ periods blocks rest, taktsBegun s = taktsBegun timersStarted ++ periods
        ∧ Chimes 5 true (periods.map UInt32.toNat) blocks rest
        ∧ TimerManager.firings 1 s.timers.log = TimerManager.firings 1 timersStarted.timers.log
          ++ blockEnds (taktsBegun timersStarted).length blocks := by
  have h₀ : run (Sys.step plainModule) (freshKernel {} ()) twoTimersStarted
      = some timersStarted := by
    have hsome : (run (Sys.step plainModule) (freshKernel (κ := Nat) (υ := Nat) (τ := Nat)
      (ξ := Nat) {} ()) twoTimersStarted).isSome := by decide +kernel
    obtain ⟨s, hs⟩ := Option.isSome_iff_exists.mp hsome
    rw [timersStarted, hs]
    rfl
  have hend : ((run (Sys.step plainModule) timersStarted fourTakts).map fun s =>
      (s.timers.stack, taktsBegun s)) = some ([], [3, 3, 3, 3]) := by decide +kernel
  obtain ⟨s, h, hobs⟩ := Option.map_eq_some_iff.mp hend
  obtain ⟨hidle, htakts⟩ := Prod.mk.inj hobs
  have hslots : ∀ j < kMaxTimers, timersStarted.timers.manager.slot j = some 1 ↔ j = 0 := by
    decide +kernel
  have hstart : JustStarted 1 0
      { handle := 0, intervalMs := 5, active := true, repeat_ := true, callback := some 7 }
      timersStarted.timers :=
    { slot := fun j => ⟨fun hj => (hslots j (slot_lt hj)).mp hj,
        fun hj => (hslots j (by rw [hj]; decide)).mpr hj⟩
      there := by decide +kernel
      active := rfl
      elapsed := rfl
      idle := by decide +kernel }
  refine ⟨s, h, htakts, timer_keeps_takts (by decide +kernel) h₀ hstart (by decide +kernel) h hidle
    fun p hp => ?_⟩
  rw [htakts] at hp
  obtain rfl : p = 3 := by simpa using hp
  decide +kernel

end TaktOS.Proof
