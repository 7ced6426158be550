import TaktOS.Lib.Tally
import TaktOS.Proof.SchedulerSteps

/-!
# The statistics

A run of the scheduler is watched: when a takt or a `tick()` begins the clock is read, and when it
ends its duration goes on record, with the budget it had. The statistics of a module are a tally
of its ticks, those of the scheduler one of the takts.

A tick lies in its takt, which the frame of the takt has the two readings for, and one call of
`runTakt` inside another is no exception: each tick is charged to the takt it is a tick of.
-/

namespace TaktOS.Proof

open TaktOS Scheduler Lib

variable {μ ω : Type} {m : IModule μ ω}

/-- The scheduler, the clock, and the ticks and takts that ended. -/
structure Clocked (μ ω : Type) where
  sys : Sys μ ω
  now : UInt64 := 0
  /-- When the takts and ticks in progress began, innermost first. -/
  began : List UInt64 := []
  /-- Each with the entry it was of. -/
  ticks : List (Nat × Sample) := []
  takts : List Sample := []

/-- The clock at the step. -/
def clock : Act μ ω → UInt64
  | .call _ _ now => now
  | .ret _ now => now
  | .advance now => now

namespace Clocked

/-- How long the innermost of what is in progress has taken. -/
def elapsed (w : Clocked μ ω) (now : UInt64) : Nat := now.toNat - (w.began.headD 0).toNat

/-- The budget of the module of an entry. -/
def budget (m : IModule μ ω) (s : Sys μ ω) (id : Nat) (world : ω) : UInt32 :=
  match s.sched.entries[id]? with
  | some e => m.budgetUs e.module world
  | none => 0

/-- What the watcher makes of a step that leaves the clock at `now`. -/
def record (m : IModule μ ω) (w : Clocked μ ω) : Act μ ω → Clocked μ ω
  | .call .runTakt _ now => { w with began := now :: w.began }
  | .call .. => w
  | .ret world now =>
    match w.sys.stack with
    | .ticking _ _ id :: _ =>
      { w with
        began := w.began.tail
        ticks := w.ticks ++ [(id, ⟨w.elapsed now, budget m w.sys id world⟩)] }
    | _ => w
  | .advance now =>
    match w.sys.stack with
    | .scanning _ id :: _ =>
      match w.sys.sched.entries[id]? with
      | some e => if shouldRunModule m e w.sys.world then { w with began := now :: w.began } else w
      | none =>
        { w with
          began := w.began.tail
          takts := w.takts ++ [⟨w.elapsed now, w.sys.sched.taktBudgetUs⟩] }
    | _ => w

/-- A step of the scheduler with the clock. -/
def step (m : IModule μ ω) (w : Clocked μ ω) (a : Act μ ω) : Option (Clocked μ ω) :=
  (w.sys.step m a).map fun sys => { w.record m a with sys, now := clock a }

end Clocked

/-- The counters of a module. -/
def moduleTally (s : ModuleStats) : Tally where
  count := s.tickCount
  total := s.totalUs
  max := s.maxUs
  last := s.lastUs
  overruns := s.overrunCount

/-- The counters of the takts. -/
def taktTally (s : SchedulerStats) : Tally where
  count := s.totalTakts
  total := s.totalTaktUs
  max := s.maxTaktUs
  last := s.lastTaktUs
  overruns := s.overrunCount

/-- The call is of the `tick()` of entry `id`. -/
def isTick (id : Nat) : Call μ → Bool
  | .tick id' _ => id' = id
  | _ => false

/-- The call is the first that a takt makes. -/
def isTakt : Call μ → Bool
  | .timers _ => true
  | _ => false

/-- The frame is of a takt that has not come to its end. -/
def inTakt : Frame → Bool
  | .timers _ | .events _ | .scanning .. | .ticking .. => true
  | .overrun | .requested => false

/-! ## Ticks lie in takts -/

/-- The clock readings that a frame keeps, the last one first. -/
def readings : Frame → List UInt64
  | .timers taktStart | .events taktStart | .scanning taktStart _ => [taktStart]
  | .ticking taktStart modStart _ => [modStart, taktStart]
  | .overrun | .requested => []

/-- How much of a takt in progress its ticks that ended can have taken. -/
def spent (now : UInt64) : Frame → Nat
  | .scanning taktStart _ => now.toNat - taktStart.toNat
  | .ticking taktStart modStart _ => modStart.toNat - taktStart.toNat
  | _ => 0

/-- The most that is spent in one takt in progress. -/
def mostSpent (now : UInt64) (stack : List Frame) : Nat := (stack.map (spent now)).foldr max 0

/-- The ticks that ended, against the takts. -/
structure Nested (w : Clocked μ ω) : Prop where
  began : w.began = w.sys.stack.flatMap readings
  past : ∀ t ∈ w.began, t.toNat ≤ w.now.toNat
  inner : ∀ taktStart modStart id, .ticking taktStart modStart id ∈ w.sys.stack →
    taktStart.toNat ≤ modStart.toNat
  sum : totalOf (w.ticks.map Prod.snd) ≤
    totalOf w.takts + (w.sys.stack.map (spent w.now)).sum
  longest : ∀ x ∈ w.ticks, x.2.us ≤ max (largest w.takts) (mostSpent w.now w.sys.stack)

theorem spent_mono {now now' : UInt64} (h : now.toNat ≤ now'.toNat) (f : Frame) :
    spent now f ≤ spent now' f := by
  cases f with
  | scanning taktStart id => exact Nat.sub_le_sub_right h _
  | _ => exact Nat.le_refl _

theorem sum_spent_mono {now now' : UInt64} (h : now.toNat ≤ now'.toNat) (stack : List Frame) :
    (stack.map (spent now)).sum ≤ (stack.map (spent now')).sum := by
  induction stack with
  | nil => exact Nat.le_refl _
  | cons f rest ih =>
    rw [List.map_cons, List.map_cons, List.sum_cons, List.sum_cons]
    exact Nat.add_le_add (spent_mono h f) ih

@[simp] theorem mostSpent_cons (now : UInt64) (f : Frame) (rest : List Frame) :
    mostSpent now (f :: rest) = max (spent now f) (mostSpent now rest) := rfl

theorem mostSpent_mono {now now' : UInt64} (h : now.toNat ≤ now'.toNat) (stack : List Frame) :
    mostSpent now stack ≤ mostSpent now' stack := by
  induction stack with
  | nil => exact Nat.le_refl _
  | cons f rest ih =>
    have hf := spent_mono h f
    rw [mostSpent_cons, mostSpent_cons]
    omega

/-- Time passes. -/
theorem Nested.wait {w : Clocked μ ω} (h : Nested w) {now : UInt64}
    (hn : w.now.toNat ≤ now.toNat) : Nested { w with now } where
  began := h.began
  past t ht := Nat.le_trans (h.past t ht) hn
  inner := h.inner
  sum := by
    have hmono := sum_spent_mono hn w.sys.stack
    exact Nat.le_trans h.sum (Nat.add_le_add_left hmono _)
  longest x hx := by
    have hmono := mostSpent_mono hn w.sys.stack
    have hold := h.longest x hx
    dsimp only
    omega

/-- Nothing ended, and no less is spent. -/
theorem Nested.restack {w : Clocked μ ω} (h : Nested w) {sys : Sys μ ω} {began : List UInt64}
    (hb : began = sys.stack.flatMap readings) (hp : ∀ t ∈ began, t ∈ w.began ∨ t = w.now)
    (hi : ∀ taktStart modStart id, .ticking taktStart modStart id ∈ sys.stack →
      taktStart.toNat ≤ modStart.toNat)
    (hsum : (w.sys.stack.map (spent w.now)).sum ≤ (sys.stack.map (spent w.now)).sum)
    (hmost : mostSpent w.now w.sys.stack ≤ mostSpent w.now sys.stack) :
    Nested { w with sys, began } where
  began := hb
  past t ht := (hp t ht).elim (h.past t) fun heq => heq ▸ Nat.le_refl _
  inner := hi
  sum := Nat.le_trans h.sum (Nat.add_le_add_left hsum _)
  longest x hx := by
    have hold := h.longest x hx
    dsimp only
    omega

/-- The stack is as it was. -/
theorem Nested.same {w : Clocked μ ω} (h : Nested w) {sys : Sys μ ω}
    (hs : sys.stack = w.sys.stack) : Nested { w with sys } :=
  h.restack (hs ▸ h.began) (fun _ => .inl) (hs ▸ h.inner) (hs ▸ Nat.le_refl _)
    (hs ▸ Nat.le_refl _)

/-- A call of the scheduler is made. -/
theorem Nested.push {w : Clocked μ ω} (h : Nested w) {sys : Sys μ ω} {f : Frame}
    (hs : sys.stack = f :: w.sys.stack) (hf : ∀ t ∈ readings f, t = w.now)
    (hn : ∀ taktStart modStart id, f ≠ .ticking taktStart modStart id) :
    Nested { w with sys, began := readings f ++ w.began } := by
  refine h.restack ?_ ?_ ?_ ?_ ?_
  · rw [hs, List.flatMap_cons, h.began]
  · intro t ht
    exact (List.mem_append.mp ht).symm.imp_right (hf t)
  · intro taktStart modStart id hm
    rw [hs] at hm
    rcases List.mem_cons.mp hm with heq | hm
    · exact absurd heq.symm (hn taktStart modStart id)
    · exact h.inner taktStart modStart id hm
  · rw [hs, List.map_cons, List.sum_cons]
    exact Nat.le_add_left _ _
  · rw [hs, mostSpent_cons]
    exact Nat.le_max_right _ _

/-- A takt goes from one of its calls to the next. -/
theorem Nested.replace {w : Clocked μ ω} (h : Nested w) {sys : Sys μ ω} {f g : Frame}
    {rest : List Frame} (hs : w.sys.stack = f :: rest) (hs' : sys.stack = g :: rest)
    (hstarts : readings g = readings f) (hspent : spent w.now f ≤ spent w.now g)
    (hn : ∀ taktStart modStart id, g ≠ .ticking taktStart modStart id) :
    Nested { w with sys } := by
  refine h.restack ?_ (fun _ => .inl) ?_ ?_ ?_
  · rw [hs', List.flatMap_cons, hstarts, ← List.flatMap_cons, ← hs, h.began]
  · intro taktStart modStart id hm
    rw [hs'] at hm
    rcases List.mem_cons.mp hm with heq | hm
    · exact absurd heq.symm (hn taktStart modStart id)
    · exact h.inner taktStart modStart id (hs ▸ List.mem_cons_of_mem _ hm)
  · rw [hs, hs', List.map_cons, List.map_cons, List.sum_cons, List.sum_cons]
    exact Nat.add_le_add_right hspent _
  · rw [hs, hs', mostSpent_cons, mostSpent_cons]
    omega

/-- A call that is not part of a takt returns. -/
theorem Nested.pop {w : Clocked μ ω} (h : Nested w) {sys : Sys μ ω} {f : Frame}
    (hs : w.sys.stack = f :: sys.stack) (hf : inTakt f = false) : Nested { w with sys } := by
  have hstarts : readings f = [] := by cases f <;> first | rfl | exact absurd hf (by simp [inTakt])
  have hspent : spent w.now f = 0 := by
    cases f <;> first | rfl | exact absurd hf (by simp [inTakt])
  refine h.restack ?_ (fun _ => .inl) ?_ ?_ ?_
  · rw [h.began, hs, List.flatMap_cons, hstarts, List.nil_append]
  · intro taktStart modStart id hm
    exact h.inner taktStart modStart id (hs ▸ List.mem_cons_of_mem _ hm)
  · refine Nat.le_of_eq ?_
    rw [hs, List.map_cons, List.sum_cons, hspent, Nat.zero_add]
  · refine Nat.le_of_eq ?_
    rw [hs, mostSpent_cons, hspent, Nat.zero_max]

/-- A tick begins: what the takt has taken until then is what its earlier ticks can have taken. -/
theorem Nested.tick {w : Clocked μ ω} (h : Nested w) {sys : Sys μ ω} {taktStart : UInt64}
    {id : Nat} {rest : List Frame} (hs : w.sys.stack = .scanning taktStart id :: rest)
    (hs' : sys.stack = .ticking taktStart w.now id :: rest) :
    Nested { w with sys, began := w.now :: w.began } := by
  have hstart : taktStart ∈ w.began := by rw [h.began, hs]; exact List.mem_cons_self
  refine h.restack ?_ ?_ ?_ ?_ ?_
  · rw [h.began, hs, hs']
    rfl
  · intro t ht
    exact (List.mem_cons.mp ht).symm
  · intro taktStart' modStart id' hm
    rw [hs'] at hm
    rcases List.mem_cons.mp hm with heq | hm
    · obtain ⟨rfl, rfl, -⟩ := Frame.ticking.inj heq
      exact h.past _ hstart
    · exact h.inner taktStart' modStart id' (hs ▸ List.mem_cons_of_mem _ hm)
  · rw [hs, hs']
    exact Nat.le_refl _
  · rw [hs, hs']
    exact Nat.le_refl _

/-- The readings of the innermost tick. -/
theorem Nested.ofTicking {w : Clocked μ ω} (h : Nested w) {taktStart modStart : UInt64} {id : Nat}
    {rest : List Frame} (hs : w.sys.stack = .ticking taktStart modStart id :: rest) :
    w.began = modStart :: taktStart :: rest.flatMap readings ∧
      taktStart.toNat ≤ modStart.toNat ∧ modStart.toNat ≤ w.now.toNat := by
  have hb : w.began = modStart :: taktStart :: rest.flatMap readings := by
    rw [h.began, hs]
    rfl
  exact ⟨hb, h.inner taktStart modStart id (hs ▸ List.mem_cons_self),
    h.past modStart (hb ▸ List.mem_cons_self)⟩

/-- How long the takt whose loop is in control has taken. -/
theorem Nested.scanned {w : Clocked μ ω} (h : Nested w) {now taktStart : UInt64} {id : Nat}
    {rest : List Frame} (hs : w.sys.stack = .scanning taktStart id :: rest)
    (hc : w.now.toNat ≤ now.toNat) : (now - taktStart).toNat = w.elapsed now := by
  have hb : w.began = taktStart :: rest.flatMap readings := by
    rw [h.began, hs]
    rfl
  have hstart : taktStart.toNat ≤ w.now.toNat := h.past taktStart (hb ▸ List.mem_cons_self)
  rw [Clocked.elapsed, hb, List.headD_cons]
  exact UInt64.toNat_sub_of_le _ _ (UInt64.le_iff_toNat_le.mpr (Nat.le_trans hstart hc))

/-- **A tick ends: it lies after the earlier ones, in what its takt has taken since.** -/
theorem Nested.ticked {w : Clocked μ ω} (h : Nested w) {sys : Sys μ ω}
    {taktStart modStart : UInt64} {id : Nat} {rest : List Frame}
    (hs : w.sys.stack = .ticking taktStart modStart id :: rest)
    (hs' : sys.stack = .scanning taktStart (id + 1) :: rest) (limit : UInt32) :
    Nested { w with
      sys
      began := w.began.tail
      ticks := w.ticks ++ [(id, ⟨w.elapsed w.now, limit⟩)] } := by
  obtain ⟨hb, hstart, hnow⟩ := h.ofTicking hs
  have hel : w.elapsed w.now = w.now.toNat - modStart.toNat := by
    rw [Clocked.elapsed, hb, List.headD_cons]
  refine ⟨?_, ?_, ?_, ?_, ?_⟩
  · dsimp only
    rw [hb, hs']
    rfl
  · intro t ht
    exact h.past t (List.mem_of_mem_tail ht)
  · intro taktStart' modStart' id' hm
    dsimp only at hm
    rw [hs'] at hm
    rcases List.mem_cons.mp hm with heq | hm
    · exact absurd heq (by simp)
    · exact h.inner taktStart' modStart' id' (hs ▸ List.mem_cons_of_mem _ hm)
  · have hsum := h.sum
    rw [hs, List.map_cons, List.sum_cons, spent] at hsum
    dsimp only
    rw [hs', List.map_append, totalOf_append, List.map_singleton, totalOf_singleton, List.map_cons,
      List.sum_cons, spent, hel]
    dsimp only
    omega
  · intro x hx
    have hmost : mostSpent w.now w.sys.stack ≤ mostSpent w.now sys.stack := by
      rw [hs, hs', mostSpent_cons, mostSpent_cons, spent, spent]
      omega
    rcases List.mem_append.mp hx with hx | hx
    · have hold := h.longest x hx
      dsimp only
      omega
    · rw [List.mem_singleton.mp hx, hel]
      dsimp only
      rw [hs', mostSpent_cons, spent]
      omega

/-- **A takt ends: what its ticks can have taken is at most what it took.** -/
theorem Nested.taktDone {w : Clocked μ ω} (h : Nested w) {sys : Sys μ ω} {taktStart : UInt64}
    {id : Nat} (hs : w.sys.stack = .scanning taktStart id :: sys.stack) (limit : UInt32) :
    Nested { w with
      sys
      began := w.began.tail
      takts := w.takts ++ [⟨w.elapsed w.now, limit⟩] } := by
  have hb : w.began = taktStart :: sys.stack.flatMap readings := by
    rw [h.began, hs]
    rfl
  have hel : w.elapsed w.now = w.now.toNat - taktStart.toNat := by
    rw [Clocked.elapsed, hb, List.headD_cons]
  refine ⟨?_, ?_, ?_, ?_, ?_⟩
  · dsimp only
    rw [hb, List.tail_cons]
  · intro t ht
    exact h.past t (List.mem_of_mem_tail ht)
  · intro taktStart' modStart' id' hm
    exact h.inner taktStart' modStart' id' (hs ▸ List.mem_cons_of_mem _ hm)
  · have hsum := h.sum
    rw [hs, List.map_cons, List.sum_cons, spent] at hsum
    dsimp only
    rw [totalOf_append, totalOf_singleton, hel]
    dsimp only
    omega
  · intro x hx
    have hold := h.longest x hx
    rw [hs, mostSpent_cons, spent] at hold
    dsimp only
    rw [largest_concat, hel]
    dsimp only
    omega

/-! ## What the watcher makes of a step -/

theorem record_call (w : Clocked μ ω) {op : Op μ} (h : op ≠ .runTakt) (world : ω) (now : UInt64) :
    w.record m (.call op world now) = w := by
  cases op <;> first | rfl | exact absurd rfl h

theorem record_ret (w : Clocked μ ω) {f : Frame} {rest : List Frame} (hs : w.sys.stack = f :: rest)
    (hf : ∀ taktStart modStart id, f ≠ .ticking taktStart modStart id) (world : ω) (now : UInt64) :
    w.record m (.ret world now) = w := by
  rw [Clocked.record, hs]
  cases f <;> first | rfl | exact absurd rfl (hf _ _ _)

theorem record_ticked (w : Clocked μ ω) {taktStart modStart : UInt64} {id : Nat}
    {rest : List Frame} (hs : w.sys.stack = .ticking taktStart modStart id :: rest) (world : ω)
    (now : UInt64) : w.record m (.ret world now) = { w with
      began := w.began.tail
      ticks := w.ticks ++ [(id, ⟨w.elapsed now, Clocked.budget m w.sys id world⟩)] } := by
  rw [Clocked.record, hs]

theorem record_turn (w : Clocked μ ω) {taktStart : UInt64} {id : Nat} {rest : List Frame}
    (hs : w.sys.stack = .scanning taktStart id :: rest) {e : ModuleEntry μ}
    (he : w.sys.sched.entries[id]? = some e) (now : UInt64) : w.record m (.advance now) =
      if shouldRunModule m e w.sys.world then { w with began := now :: w.began } else w := by
  rw [Clocked.record, hs]
  dsimp only
  rw [he]

theorem record_taktDone (w : Clocked μ ω) {taktStart : UInt64} {id : Nat} {rest : List Frame}
    (hs : w.sys.stack = .scanning taktStart id :: rest) (he : w.sys.sched.entries[id]? = none)
    (now : UInt64) : w.record m (.advance now) = { w with
      began := w.began.tail
      takts := w.takts ++ [⟨w.elapsed now, w.sys.sched.taktBudgetUs⟩] } := by
  rw [Clocked.record, hs]
  dsimp only
  rw [he]

theorem Quiet.not_runTakt {s : Sys μ ω} {op : Op μ} (h : Quiet s op) : op ≠ .runTakt := by
  rintro rfl
  exact h

/-- **A step of a clock that does not go back keeps the ticks in their takts.** -/
theorem nested_step {w : Clocked μ ω} {a : Act μ ω} {sys : Sys μ ω} (h : Nested w)
    (hn : w.now.toNat ≤ (clock a).toNat) (heff : SchedEffect m w.sys a sys) :
    Nested { w.record m a with sys, now := clock a } := by
  have hw : Nested { w with now := clock a } := h.wait hn
  cases heff with
  | quiet op world now hc hq s' he hw' hs hl =>
    rw [record_call w hq.not_runTakt]
    exact hw.same hs
  | registered | removed | initAll | shutdownAll =>
    rw [record_call w (by simp)]
    exact hw.same rfl
  | runTakt world now => exact hw.push (f := .timers now) rfl (by simp [readings, clock]) (by simp)
  | requestShutdown =>
    rw [record_call w (by simp)]
    exact hw.push (f := .requested) rfl (by simp [readings]) (by simp)
  | timersDone world now taktStart rest hs =>
    rw [record_ret w hs (by simp)]
    exact hw.replace hs rfl rfl (Nat.le_refl _) (by simp)
  | eventsDone world now taktStart rest hs =>
    rw [record_ret w hs (by simp)]
    exact hw.replace hs rfl rfl (Nat.zero_le _) (by simp)
  | overrunDone world now rest hs =>
    rw [record_ret w hs (by simp)]
    exact hw.pop hs rfl
  | requestDone world now rest hs =>
    rw [record_ret w hs (by simp)]
    exact hw.pop hs rfl
  | tickDone world now taktStart modStart id rest hs =>
    rw [record_ticked w hs]
    exact hw.ticked hs rfl _
  | tick now taktStart id rest hs e he hr =>
    rw [record_turn w hs he, if_pos hr]
    exact hw.tick hs rfl
  | skip now taktStart id rest hs e he hr =>
    rw [record_turn w hs he, if_neg (by simp [hr])]
    exact hw.replace hs rfl rfl (Nat.le_refl _) (by simp)
  | overrun now taktStart id rest hs he =>
    rw [record_taktDone w hs he]
    let ended : Sys μ ω := { w.sys with stack := rest }
    have hdone := hw.taktDone (show _ = _ :: ended.stack from hs) w.sys.sched.taktBudgetUs
    exact hdone.push (f := .overrun) rfl (by simp [readings]) (by simp)
  | taktDone now taktStart id rest hs he =>
    rw [record_taktDone w hs he]
    exact hw.taktDone hs _

/-! ## The counters -/

/-- The frame is of a `tick()` of entry `id`. -/
def isTicking (id : Nat) : Frame → Bool
  | .ticking _ _ id' => id' = id
  | _ => false

/-- The counters, against the ticks and takts that ended and the calls on record. -/
structure Counted (w : Clocked μ ω) : Prop where
  module : ∀ i e, w.sys.sched.entries[i]? = some e →
    (moduleTally e.stats).Of (tagged i w.ticks)
  takt : (taktTally w.sys.sched.stats).Of w.takts
  ids : ∀ x ∈ w.ticks, x.1 < w.sys.sched.entries.length
  inTick : ∀ taktStart modStart id, .ticking taktStart modStart id ∈ w.sys.stack →
    id < w.sys.sched.entries.length
  ticks : ∀ i, w.sys.log.countP (isTick i) =
    (tagged i w.ticks).length + w.sys.stack.countP (isTicking i)
  takts : w.sys.log.countP isTakt = w.takts.length + w.sys.stack.countP inTakt

theorem stateless_tally : Stateless moduleTally := fun _ _ => rfl

theorem skip_tally (e : ModuleEntry μ) (world : ω) :
    moduleTally (Scheduler.skip m e world).stats = moduleTally e.stats := by
  rw [Scheduler.skip]
  split <;> rfl

theorem tagged_nil_of_ids {i : Nat} {xs : List (Nat × Sample)} (h : ∀ x ∈ xs, x.1 < i) :
    tagged i xs = [] := by
  rw [tagged, List.filterMap_eq_nil_iff]
  intro x hx
  exact if_neg (Nat.ne_of_lt (h x hx))

/-- A step that ends nothing. -/
theorem Counted.still {w : Clocked μ ω} (h : Counted w) {sys : Sys μ ω} {now : UInt64}
    {began : List UInt64} {cs : List (Call μ)}
    (he : Keeps moduleTally w.sys.sched.entries sys.sched.entries)
    (hst : sys.sched.stats = w.sys.sched.stats) (hl : sys.log = w.sys.log ++ cs)
    (hin : ∀ taktStart modStart id, .ticking taktStart modStart id ∈ sys.stack →
      .ticking taktStart modStart id ∈ w.sys.stack ∨ id < w.sys.sched.entries.length)
    (hticks : ∀ i, cs.countP (isTick i) + w.sys.stack.countP (isTicking i) =
      sys.stack.countP (isTicking i))
    (htakts : cs.countP isTakt + w.sys.stack.countP inTakt = sys.stack.countP inTakt) :
    Counted { w with sys, now, began } where
  module i e' hi := by
    rcases he.entry i e' hi with ⟨e, hi, ht⟩ | ⟨hi, ht⟩
    · rw [ht]
      exact h.module i e hi
    · rw [ht, tagged_nil_of_ids fun x hx => Nat.lt_of_lt_of_le (h.ids x hx) hi]
      exact Tally.of_nil
  takt := hst ▸ h.takt
  ids x hx := Nat.lt_of_lt_of_le (h.ids x hx) he.length
  inTick taktStart modStart id hm :=
    Nat.lt_of_lt_of_le ((hin taktStart modStart id hm).elim (h.inTick _ _ _) fun hlt => hlt)
      he.length
  ticks i := by
    rw [hl, List.countP_append, h.ticks i, Nat.add_assoc,
      Nat.add_comm (w.sys.stack.countP (isTicking i)), hticks i]
  takts := by
    rw [hl, List.countP_append, h.takts, Nat.add_assoc,
      Nat.add_comm (w.sys.stack.countP inTakt), htakts]

/-- The call is neither of a `tick()` nor the first of a takt. -/
def Untimed (c : Call μ) : Prop := isTakt c = false ∧ ∀ i, isTick i c = false

/-- The takts and ticks in progress are the same. -/
structure SameFrames (stack stack' : List Frame) : Prop where
  mem : ∀ taktStart modStart id, .ticking taktStart modStart id ∈ stack' →
    .ticking taktStart modStart id ∈ stack
  ticks : ∀ i, stack.countP (isTicking i) = stack'.countP (isTicking i)
  takts : stack.countP inTakt = stack'.countP inTakt

theorem SameFrames.refl (stack : List Frame) : SameFrames stack stack :=
  ⟨fun _ _ _ hm => hm, fun _ => rfl, rfl⟩

theorem not_isTicking {f : Frame}
    (hf : ∀ taktStart modStart id, f ≠ .ticking taktStart modStart id) (i : Nat) :
    isTicking i f = false := by
  cases f <;> first | rfl | exact absurd rfl (hf _ _ _)

theorem SameFrames.replace {f g : Frame} {rest : List Frame}
    (hf : ∀ taktStart modStart id, f ≠ .ticking taktStart modStart id)
    (hg : ∀ taktStart modStart id, g ≠ .ticking taktStart modStart id)
    (h : inTakt f = inTakt g) : SameFrames (f :: rest) (g :: rest) where
  mem taktStart modStart id hm :=
    List.mem_cons_of_mem _ (List.mem_of_ne_of_mem (hg taktStart modStart id).symm hm)
  ticks i := by
    rw [List.countP_cons, List.countP_cons, not_isTicking hf, not_isTicking hg]
  takts := by
    rw [List.countP_cons, List.countP_cons, h]

theorem not_ticking {f : Frame} (hf : inTakt f = false) (taktStart modStart : UInt64) (id : Nat) :
    f ≠ .ticking taktStart modStart id := by
  rintro rfl
  exact absurd hf (by simp [inTakt])

theorem SameFrames.push {f : Frame} {rest : List Frame} (hf : inTakt f = false) :
    SameFrames rest (f :: rest) where
  mem taktStart modStart id hm := List.mem_of_ne_of_mem (not_ticking hf _ _ _).symm hm
  ticks i := by
    rw [List.countP_cons, not_isTicking (not_ticking hf)]
    rfl
  takts := by
    rw [List.countP_cons, hf]
    rfl

theorem SameFrames.pop {f : Frame} {rest : List Frame} (hf : inTakt f = false) :
    SameFrames (f :: rest) rest where
  mem _ _ _ hm := List.mem_cons_of_mem _ hm
  ticks i := ((push hf).ticks i).symm
  takts := (push hf).takts.symm

theorem ticked_tally (e : ModuleEntry μ) (us : UInt64) (world : ω) :
    moduleTally (ticked m e us world).stats =
      (moduleTally e.stats).add us (m.budgetUs e.module world) := rfl

theorem endTakt_tally (s : Scheduler μ) (us : UInt64) :
    taktTally (s.endTakt us).stats = (taktTally s.stats).add us s.taktBudgetUs := rfl

theorem call_stats (s : Sys μ ω) (now : UInt64) (op : Op μ) :
    (s.call m now op).sched.stats = s.sched.stats := by
  cases op with
  | registerModule module =>
    cases module with
    | none => rfl
    | some module =>
      rw [Sys.call, Scheduler.registerModule]
      dsimp only
      split <;> rfl
  | unregisterModule id =>
    rw [Sys.call]
    split <;> rfl
  | _ => rfl

/-- **The end of a tick adds it to the counters of its module.** -/
theorem Counted.ticked {w : Clocked μ ω} (h : Counted w) {now taktStart modStart : UInt64}
    {id : Nat} {rest : List Frame} (hs : w.sys.stack = .ticking taktStart modStart id :: rest)
    (hel : (now - modStart).toNat = w.elapsed now) (world : ω) :
    Counted { w with
      sys := { w.sys with
        sched := { w.sys.sched with
          entries := w.sys.sched.entries.modify id fun e => ticked m e (now - modStart) world }
        world
        stack := .scanning taktStart (id + 1) :: rest }
      now
      began := w.began.tail
      ticks := w.ticks ++ [(id, ⟨w.elapsed now, Clocked.budget m w.sys id world⟩)] } := by
  have hid : id < w.sys.sched.entries.length :=
    h.inTick taktStart modStart id (hs ▸ List.mem_cons_self)
  constructor
  · intro i e' hi
    dsimp only at hi ⊢
    rw [List.getElem?_modify, Option.map_eq_map, Option.map_eq_some_iff] at hi
    obtain ⟨e, he, rfl⟩ := hi
    have hold := h.module i e he
    rw [tagged_concat]
    by_cases heq : id = i
    · subst heq
      rw [if_pos rfl, if_pos rfl, ticked_tally]
      have hb : Clocked.budget m w.sys id world = m.budgetUs e.module world := by
        rw [Clocked.budget, he]
      rw [hb]
      exact hold.add (x := ⟨w.elapsed now, m.budgetUs e.module world⟩) hel
    · rw [if_neg heq, if_neg heq, List.append_nil]
      exact hold
  · exact h.takt
  · intro x hx
    dsimp only
    rw [List.length_modify]
    rcases List.mem_append.mp hx with hx | hx
    · exact h.ids x hx
    · rw [List.mem_singleton.mp hx]
      exact hid
  · intro taktStart' modStart' id' hm
    dsimp only
    rw [List.length_modify]
    rcases List.mem_cons.mp hm with heq | hm
    · exact absurd heq (by simp)
    · exact h.inTick taktStart' modStart' id' (hs ▸ List.mem_cons_of_mem _ hm)
  · intro i
    have hold := h.ticks i
    rw [hs, List.countP_cons] at hold
    dsimp only
    rw [tagged_concat, List.length_append, List.countP_cons]
    by_cases heq : id = i
    · simp only [isTicking, heq, if_true, decide_true, List.length_singleton] at hold ⊢
      simp only [Bool.false_eq_true, if_false]
      omega
    · simp only [isTicking, heq, if_false, decide_false, List.length_nil] at hold ⊢
      exact hold
  · have hold := h.takts
    rw [hs, List.countP_cons] at hold
    dsimp only
    rw [List.countP_cons]
    exact hold

/-- **The end of a takt adds it to the counters of the scheduler.** -/
theorem Counted.taktDone {w : Clocked μ ω} (h : Counted w) {now taktStart : UInt64} {id : Nat}
    {rest : List Frame} (hs : w.sys.stack = .scanning taktStart id :: rest)
    (hel : (now - taktStart).toNat = w.elapsed now) :
    Counted { w with
      sys := { w.sys with sched := w.sys.sched.endTakt (now - taktStart), stack := rest }
      now
      began := w.began.tail
      takts := w.takts ++ [⟨w.elapsed now, w.sys.sched.taktBudgetUs⟩] } where
  module := h.module
  takt := by
    dsimp only
    rw [endTakt_tally]
    exact h.takt.add (x := ⟨w.elapsed now, w.sys.sched.taktBudgetUs⟩) hel
  ids := h.ids
  inTick taktStart' modStart' id' hm :=
    h.inTick taktStart' modStart' id' (hs ▸ List.mem_cons_of_mem _ hm)
  ticks i := by
    have hold := h.ticks i
    rw [hs, List.countP_cons] at hold
    exact hold
  takts := by
    have hold := h.takts
    rw [hs, List.countP_cons] at hold
    dsimp only
    rw [List.length_append, List.length_singleton, hold]
    simp only [inTakt, if_true]
    omega

theorem step_call_stats {s sys : Sys μ ω} {op : Op μ} {world : ω} {now : UInt64}
    (h : s.step m (.call op world now) = some sys) : sys.sched.stats = s.sched.stats := by
  obtain ⟨-, rfl⟩ := step_call h
  rw [call_stats]

/-- A step that makes none of the timed calls, and leaves the takts in progress as they are. -/
theorem Counted.untimed {w : Clocked μ ω} (h : Counted w) {sys : Sys μ ω} {now : UInt64}
    {cs : List (Call μ)} (he : Keeps moduleTally w.sys.sched.entries sys.sched.entries)
    (hst : sys.sched.stats = w.sys.sched.stats) (hl : sys.log = w.sys.log ++ cs)
    (hcs : ∀ c ∈ cs, Untimed c) (hf : SameFrames w.sys.stack sys.stack) :
    Counted { w with sys, now } := by
  refine h.still he hst hl (fun _ _ _ hm => .inl (hf.mem _ _ _ hm)) (fun i => ?_) ?_
  · rw [List.countP_eq_zero.mpr fun c hc => by simp [(hcs c hc).2 i], Nat.zero_add, hf.ticks i]
  · rw [List.countP_eq_zero.mpr fun c hc => by simp [(hcs c hc).1], Nat.zero_add, hf.takts]

theorem untimed_initCalls {s : Sys μ ω} {world : ω} (modules : List μ) :
    ∀ c ∈ .initAll modules :: initCalls m { s with world }, Untimed c := by
  intro c hc
  rcases List.mem_cons.mp hc with rfl | hc
  · exact ⟨rfl, fun _ => rfl⟩
  · obtain ⟨_, _, _, _, rfl⟩ := initCalls_mem hc
    exact ⟨rfl, fun _ => rfl⟩

theorem untimed_shutdownCalls {s : Sys μ ω} {world : ω} (modules : List μ) :
    ∀ c ∈ .shutdownAll modules :: shutdownCalls m { s with world }, Untimed c := by
  intro c hc
  rcases List.mem_cons.mp hc with rfl | hc
  · exact ⟨rfl, fun _ => rfl⟩
  · obtain ⟨_, _, _, _, rfl⟩ := shutdownCalls_mem hc
    exact ⟨rfl, fun _ => rfl⟩

/-- **A step keeps the counters those of what ended.** -/
theorem counted_step {w : Clocked μ ω} {a : Act μ ω} {sys : Sys μ ω} (hn : Nested w)
    (h : Counted w) (hc : w.now.toNat ≤ (clock a).toNat) (hstep : w.sys.step m a = some sys) :
    Counted { w.record m a with sys, now := clock a } := by
  have hnone : ∀ c ∈ ([] : List (Call μ)), Untimed c := fun c hc => absurd hc (by simp)
  cases sys_step_effect hstep with
  | quiet op world now _ hq s' he hw' hs hl =>
    rw [record_call w hq.not_runTakt]
    exact h.untimed (he ▸ .refl _ _) (step_call_stats hstep) (hl.trans (List.append_nil _).symm)
      hnone (hs ▸ .refl _)
  | registered module =>
    rw [record_call w (by simp)]
    exact h.untimed (keeps_registered module) rfl (List.append_nil _).symm hnone (.refl _)
  | removed id world now _ e he =>
    rw [record_call w (by simp)]
    exact h.untimed (keeps_set he rfl) rfl rfl (by simp [Untimed, isTakt, isTick]) (.refl _)
  | initAll world now =>
    rw [record_call w (by simp)]
    exact h.untimed (keeps_initLoop stateless_tally world) rfl rfl (untimed_initCalls _) (.refl _)
  | shutdownAll world now =>
    rw [record_call w (by simp)]
    exact h.untimed (keeps_shutdownAll stateless_tally { w.sys with world } _) rfl rfl
      (untimed_shutdownCalls _) (.refl _)
  | runTakt world now =>
    refine h.still (.refl _ _) rfl rfl (fun _ _ _ hm => ?_) (fun i => ?_) ?_
    · exact .inl (List.mem_of_ne_of_mem (by simp) hm)
    · exact Nat.zero_add _
    · dsimp only
      rw [List.countP_cons, List.countP_cons, Nat.add_comm]
      rfl
  | requestShutdown world now =>
    rw [record_call w (by simp)]
    exact h.untimed (.refl _ _) rfl rfl (by simp [Untimed, isTakt, isTick]) (.push rfl)
  | timersDone world now taktStart rest hs =>
    rw [record_ret w hs (by simp)]
    exact h.untimed (.refl _ _) rfl rfl (by simp [Untimed, isTakt, isTick])
      (hs ▸ .replace (by simp) (by simp) rfl)
  | eventsDone world now taktStart rest hs =>
    rw [record_ret w hs (by simp)]
    exact h.untimed (.refl _ _) rfl (List.append_nil _).symm hnone
      (hs ▸ .replace (by simp) (by simp) rfl)
  | overrunDone world now rest hs =>
    rw [record_ret w hs (by simp)]
    exact h.untimed (.refl _ _) rfl (List.append_nil _).symm hnone (hs ▸ .pop rfl)
  | requestDone world now rest hs =>
    rw [record_ret w hs (by simp)]
    exact h.untimed (keeps_shutdownAll stateless_tally { w.sys with world } _) rfl rfl
      (untimed_shutdownCalls _) (hs ▸ .pop rfl)
  | tickDone world now taktStart modStart id rest hs =>
    obtain ⟨hb, -, hnow⟩ := hn.ofTicking hs
    rw [record_ticked w hs]
    refine h.ticked hs ?_ world
    rw [Clocked.elapsed, hb, List.headD_cons]
    exact UInt64.toNat_sub_of_le _ _ (UInt64.le_iff_toNat_le.mpr (Nat.le_trans hnow hc))
  | tick now taktStart id rest hs e he hr =>
    rw [record_turn w hs he, if_pos hr]
    refine h.still (keeps_set he rfl) rfl rfl (fun _ _ _ hm => ?_) (fun i => ?_) ?_
    · rcases List.mem_cons.mp hm with heq | hm
      · exact .inr (by rw [(Frame.ticking.inj heq).2.2]; exact lt_of_getElem? he)
      · exact .inl (hs ▸ List.mem_cons_of_mem _ hm)
    · rw [hs]
      by_cases heq : id = i <;> simp [isTick, isTicking, heq, Nat.add_comm]
    · rw [hs]
      exact Nat.zero_add _
  | skip now taktStart id rest hs e he hr =>
    rw [record_turn w hs he, if_neg (by simp [hr])]
    exact h.untimed (keeps_set he (skip_tally e _)) rfl (List.append_nil _).symm hnone
      (hs ▸ .replace (by simp) (by simp) rfl)
  | overrun now taktStart id rest hs he =>
    rw [record_taktDone w hs he]
    have hdone := h.taktDone hs (hn.scanned hs hc)
    exact hdone.untimed (.refl _ _) rfl rfl (by simp [Untimed, isTakt, isTick]) (.push rfl)
  | taktDone now taktStart id rest hs he =>
    rw [record_taktDone w hs he]
    exact h.taktDone hs (hn.scanned hs hc)

/-! ## Whole runs -/

/-- The clock does not go back. -/
def NotBack (w : Clocked μ ω) (a : Act μ ω) : Prop := w.now.toNat ≤ (clock a).toNat

instance (w : Clocked μ ω) (a : Act μ ω) : Decidable (NotBack w a) :=
  inferInstanceAs (Decidable (_ ≤ _))

theorem clocked_step {w w' : Clocked μ ω} {a : Act μ ω} (hn : Nested w) (hc : Counted w)
    (h : NotBack w a) (hstep : w.step m a = some w') : Nested w' ∧ Counted w' := by
  rw [Clocked.step, Option.map_eq_some_iff] at hstep
  obtain ⟨sys, hs, rfl⟩ := hstep
  exact ⟨nested_step hn h (sys_step_effect hs), counted_step hn hc h hs⟩

theorem nested_init (world : ω) : Nested ({ sys := { world } } : Clocked μ ω) where
  began := rfl
  past t ht := absurd ht (by simp)
  inner _ _ _ hm := absurd hm (by simp)
  sum := Nat.le_refl _
  longest x hx := absurd hx (by simp)

theorem counted_init (world : ω) : Counted ({ sys := { world } } : Clocked μ ω) where
  module i e hi := absurd hi (by simp)
  takt := Tally.of_nil
  ids x hx := absurd hx (by simp)
  inTick _ _ _ hm := absurd hm (by simp)
  ticks _ := rfl
  takts := rfl

/-- **The statistics are those of the ticks and takts that ended.** -/
theorem clocked_run {world : ω} {acts : List (Act μ ω)} {w : Clocked μ ω}
    (hr : run (Clocked.step m) { sys := { world } } acts = some w)
    (hc : Along (Clocked.step m) NotBack { sys := { world } } acts) : Nested w ∧ Counted w :=
  run_invariant (fun w => Nested w ∧ Counted w) (fun _ _ _ hi h hs => clocked_step hi.1 hi.2 h hs)
    ⟨nested_init world, counted_init world⟩ hc hr

theorem spent_idle {stack : List Frame} (h : ∀ f ∈ stack, inTakt f = false) (now : UInt64) :
    (stack.map (spent now)).sum = 0 ∧ mostSpent now stack = 0 := by
  induction stack with
  | nil => exact ⟨rfl, rfl⟩
  | cons f rest ih =>
    obtain ⟨hsum, hmost⟩ := ih fun g hg => h g (List.mem_cons_of_mem _ hg)
    have hf : spent now f = 0 := by
      have hin := h f List.mem_cons_self
      cases f <;> first | rfl | exact absurd hin (by simp [inTakt])
    rw [List.map_cons, List.sum_cons, mostSpent_cons, hf, hsum, hmost]
    exact ⟨rfl, rfl⟩

theorem mem_of_tagged {i : Nat} {xs : List (Nat × Sample)} {x : Sample} (h : x ∈ tagged i xs) :
    (i, x) ∈ xs := by
  rw [tagged, List.mem_filterMap] at h
  obtain ⟨⟨j, y⟩, hm, hx⟩ := h
  dsimp only at hx
  split at hx
  · rename_i hj
    rw [← Option.some.inj hx, ← hj]
    exact hm
  · exact absurd hx (by simp)

/-- No module's longest tick is longer than the longest takt. -/
theorem max_le_maxTakt {w : Clocked μ ω} (hn : Nested w) (hc : Counted w)
    (hidle : ∀ f ∈ w.sys.stack, inTakt f = false) {e : ModuleEntry μ}
    (he : e ∈ w.sys.sched.entries) :
    e.stats.maxUs.toNat ≤ w.sys.sched.stats.maxTaktUs.toNat := by
  obtain ⟨i, hi⟩ := List.getElem?_of_mem he
  have hmodule : e.stats.maxUs.toNat = largest (tagged i w.ticks) := (hc.module i e hi).max
  have htakt : w.sys.sched.stats.maxTaktUs.toNat = largest w.takts := hc.takt.max
  rw [hmodule, htakt]
  refine largest_le fun x hx => ?_
  have hlongest := hn.longest _ (mem_of_tagged hx)
  rw [(spent_idle hidle w.now).2] at hlongest
  exact Nat.le_trans hlongest (Nat.le_of_eq (Nat.max_zero _))

/-- All ticks together do not take longer than all takts. -/
theorem sum_le_totalTakt {w : Clocked μ ω} (hn : Nested w) (hc : Counted w)
    (hidle : ∀ f ∈ w.sys.stack, inTakt f = false) (hwrap : totalOf w.takts < UInt64.size) :
    (w.sys.sched.entries.map fun e => e.stats.totalUs.toNat).sum ≤
      w.sys.sched.stats.totalTaktUs.toNat := by
  have htakt : w.sys.sched.stats.totalTaktUs = UInt64.ofNat (totalOf w.takts) := hc.takt.total
  have hall := hn.sum
  rw [(spent_idle hidle w.now).1, Nat.add_zero] at hall
  rw [htakt, UInt64.toNat_ofNat_of_lt' hwrap]
  refine Nat.le_trans (sum_tagged_le fun i v hi => ?_) hall
  rw [List.getElem?_map, Option.map_eq_some_iff] at hi
  obtain ⟨e, he, rfl⟩ := hi
  have hmodule : e.stats.totalUs = UInt64.ofNat (totalOf (tagged i w.ticks)) :=
    (hc.module i e he).total
  rw [hmodule, UInt64.toNat_ofNat']
  exact Nat.mod_le _ _

/--
**The statistics are faithful.**

After any run under a clock that does not go back, whatever calls the scheduler from wherever, the
counters of every entry are those of its ticks that ended, and every `tick()` that was called ended
or is in progress; the same for the takts. With no takt in progress the modules together took
no longer than the takts, and none took longer than the longest of them.
-/
theorem stats_faithful (m : IModule μ ω) (world : ω) (acts : List (Act μ ω)) (w : Clocked μ ω)
    (hr : run (Clocked.step m) { sys := { world } } acts = some w)
    (hc : Along (Clocked.step m) NotBack { sys := { world } } acts) :
    (∀ i e, w.sys.sched.entries[i]? = some e →
      (moduleTally e.stats).Of (tagged i w.ticks) ∧
      w.sys.log.countP (isTick i) =
        (tagged i w.ticks).length + w.sys.stack.countP (isTicking i)) ∧
    (taktTally w.sys.sched.stats).Of w.takts ∧
    w.sys.log.countP isTakt = w.takts.length + w.sys.stack.countP inTakt ∧
    ((∀ f ∈ w.sys.stack, inTakt f = false) →
      (totalOf w.takts < UInt64.size →
        (w.sys.sched.entries.map fun e => e.stats.totalUs.toNat).sum ≤
          w.sys.sched.stats.totalTaktUs.toNat) ∧
      ∀ e ∈ w.sys.sched.entries,
        e.stats.maxUs.toNat ≤ w.sys.sched.stats.maxTaktUs.toNat) := by
  obtain ⟨hn, hcount⟩ := clocked_run hr hc
  refine ⟨fun i e hi => ⟨hcount.module i e hi, hcount.ticks i⟩, hcount.takt, hcount.takts,
    fun hidle => ⟨sum_le_totalTakt hn hcount hidle, fun e he => max_le_maxTakt hn hcount hidle he⟩⟩

/-- A takt of 50 µs with a tick of 30 µs in it. -/
def plainTakt : List (Act Nat Unit) :=
  [.call (.registerModule (some 7)) () 0, .call .initAll () 0, .call .runTakt () 10,
    .ret () 12, .ret () 15, .advance 20, .ret () 50, .advance 60]

theorem stats_faithful_takt :
    ∃ w, run (Clocked.step plainModule) { sys := { world := () } } plainTakt = some w ∧
      (∀ e, w.sys.sched.entries[0]? = some e → (moduleTally e.stats).Of [⟨30, 0⟩]) ∧
      (taktTally w.sys.sched.stats).Of [⟨50, 0⟩] ∧
      ∀ e ∈ w.sys.sched.entries, e.stats.maxUs.toNat ≤ w.sys.sched.stats.maxTaktUs.toNat := by
  obtain ⟨hmodule, htakt, -, hidle⟩ := stats_faithful plainModule () plainTakt _ rfl (by decide)
  exact ⟨_, rfl, fun e he => (hmodule 0 e he).1, htakt, (hidle (by decide)).2⟩

end TaktOS.Proof
