import TaktOS.Lib.History
import TaktOS.Proof.SchedulerSteps

/-!
# The order of a takt

Modules that do not call the scheduler are transformers of the world: `tick module` is what the
`tick()` of one makes of it. The loop of `runTakt` then threads the world through the entries,
so whether a background module has work depends on what the timers, the events and the entries
before it did in the same takt (`worldAt`).

`shouldRunModule` accepts a `Running` entry too; the invariant is that an entry is `Running`
only while its own `tick()` is in progress, so the loop never finds one.
-/

namespace TaktOS.Proof

open TaktOS Scheduler Lib

variable {μ ω : Type} {m : IModule μ ω} {tick : μ → ω → ω}

/-- The innermost call in progress is the `tick()` of a module. -/
def inTick (s : Sys μ ω) : Prop :=
  ∃ start modStart id rest, s.stack = .ticking start modStart id :: rest

/-- In its `tick()` a module calls nothing of the scheduler, and has its effect on the world. -/
def Behaves (tick : μ → ω → ω) (s : Sys μ ω) : Act μ ω → Prop
  | .call .. => ¬inTick s
  | .ret world _ => ∀ start modStart id rest e, s.stack = .ticking start modStart id :: rest →
      s.sched.entries[id]? = some e → world = tick e.module s.world
  | .advance _ => True

/-- Some run in which the modules behave takes the one state to the other. -/
def BehavedRun (m : IModule μ ω) (tick : μ → ω → ω) (s s' : Sys μ ω) : Prop :=
  ∃ acts, run (Sys.step m) s acts = some s' ∧ Along (Sys.step m) (Behaves tick) s acts

/-- The loop of a `runTakt` that returns to `rest` is in progress. -/
def inLoop (rest : List Frame) (s : Sys μ ω) : Prop :=
  ∃ start id, s.stack = .scanning start id :: rest ∨
    ∃ modStart, s.stack = .ticking start modStart id :: rest

/-- The acts take the loop of a takt from `s` to its end in `s'`. -/
structure LoopRun (m : IModule μ ω) (tick : μ → ω → ω) (rest : List Frame) (s : Sys μ ω)
    (acts : List (Act μ ω)) (s' : Sys μ ω) : Prop where
  ran : run (Sys.step m) s acts = some s'
  inside : Along (Sys.step m) (fun s a => inLoop rest s ∧ Behaves tick s a) s acts
  ended : ¬inLoop rest s'

/-! ## What a takt is to do -/

/-- The entry is active and `Ready` and, if it is of a background module, that one has work. -/
def Runs (m : IModule μ ω) (e : ModuleEntry μ) (world : ω) : Prop :=
  e.active = true ∧ e.stats.state = .ready ∧
    (m.type e.module world = .background → m.hasWork e.module world = true)

instance (e : ModuleEntry μ) (world : ω) : Decidable (Runs m e world) :=
  inferInstanceAs (Decidable (_ ∧ _ ∧ _))

/-- The world as the entries before `i` leave it in a takt. -/
def worldAt (m : IModule μ ω) (tick : μ → ω → ω) (es : List (ModuleEntry μ)) (world : ω) :
    Nat → ω
  | 0 => world
  | i + 1 =>
    match es[i]? with
    | some e =>
      if Runs m e (worldAt m tick es world i) then tick e.module (worldAt m tick es world i)
      else worldAt m tick es world i
    | none => worldAt m tick es world i

/-- The `tick()` of entry `i` in a takt, if there is one. -/
def tickAt (m : IModule μ ω) (tick : μ → ω → ω) (es : List (ModuleEntry μ)) (world : ω)
    (i : Nat) : Option (Call μ) :=
  match es[i]? with
  | some e => if Runs m e (worldAt m tick es world i) then some (.tick i e.module) else none
  | none => none

/-- The ticks of the entries before `n` in a takt, in their order. -/
def ticksTo (m : IModule μ ω) (tick : μ → ω → ω) (es : List (ModuleEntry μ)) (world : ω)
    (n : Nat) : List (Call μ) :=
  (List.range n).filterMap (tickAt m tick es world)

variable {es : List (ModuleEntry μ)} {world : ω}

theorem ticksTo_succ (n : Nat) : ticksTo m tick es world (n + 1) =
    ticksTo m tick es world n ++ (tickAt m tick es world n).toList := by
  rw [ticksTo, List.range_succ, List.filterMap_append, ← ticksTo]
  cases h : tickAt m tick es world n <;> simp [h]

/-- An entry that runs adds its tick, and its effect on the world. -/
theorem takt_runs {i : Nat} {e : ModuleEntry μ} (he : es[i]? = some e)
    (hr : Runs m e (worldAt m tick es world i)) :
    ticksTo m tick es world (i + 1) = ticksTo m tick es world i ++ [.tick i e.module] ∧
      worldAt m tick es world (i + 1) = tick e.module (worldAt m tick es world i) := by
  constructor
  · rw [ticksTo_succ, tickAt, he]
    dsimp only
    rw [if_pos hr, Option.toList_some]
  · rw [worldAt, he]
    dsimp only
    rw [if_pos hr]

/-- An entry that does not run adds nothing. -/
theorem takt_skips {i : Nat} {e : ModuleEntry μ} (he : es[i]? = some e)
    (hr : ¬Runs m e (worldAt m tick es world i)) :
    ticksTo m tick es world (i + 1) = ticksTo m tick es world i ∧
      worldAt m tick es world (i + 1) = worldAt m tick es world i := by
  constructor
  · rw [ticksTo_succ, tickAt, he]
    dsimp only
    rw [if_neg hr, Option.toList_none, List.append_nil]
  · rw [worldAt, he]
    dsimp only
    rw [if_neg hr]

theorem shouldRunModule_iff {e : ModuleEntry μ} (hne : e.stats.state ≠ .running) (world : ω) :
    shouldRunModule m e world = true ↔ Runs m e world := by
  rw [shouldRunModule, Runs]
  cases hact : e.active with
  | false => simp
  | true =>
    by_cases hst : e.stats.state = .ready
    · simp [hst, Decidable.imp_iff_not_or]
    · simp [hst, hne]

/-! ## No entry is running between ticks -/

/-- An entry is `Running` only while its `tick()` is the innermost call in progress. -/
def RunningInTick (s : Sys μ ω) : Prop :=
  ∀ (i : Nat) (e : ModuleEntry μ), s.sched.entries[i]? = some e → e.stats.state = .running →
    ∃ start modStart rest, s.stack = .ticking start modStart i :: rest

/-- No entry is `Running`. -/
def Calm (s : Sys μ ω) : Prop :=
  ∀ (i : Nat) (e : ModuleEntry μ), s.sched.entries[i]? = some e → e.stats.state ≠ .running

theorem RunningInTick.calm {s : Sys μ ω} (h : RunningInTick s) (hn : ¬inTick s) : Calm s := by
  intro i e hi hr
  obtain ⟨start, modStart, rest, hs⟩ := h i e hi hr
  exact hn ⟨start, modStart, i, rest, hs⟩

theorem Calm.runningInTick {s : Sys μ ω} (h : Calm s) : RunningInTick s :=
  fun i e hi hr => absurd hr (h i e hi)

/-- A step that leaves the entries as they are. -/
theorem Calm.still {s s' : Sys μ ω} (h : Calm s) (he : s'.sched.entries = s.sched.entries) :
    RunningInTick s' := Calm.runningInTick fun i e hi => h i e (he ▸ hi)

/-- A step that makes no entry `Running`. -/
theorem Calm.frame {s s' : Sys μ ω} (h : Calm s)
    (he : ∀ (i : Nat) (e' : ModuleEntry μ), s'.sched.entries[i]? = some e' →
      e'.stats.state ≠ .running ∨ ∃ (j : Nat) (e : ModuleEntry μ),
        s.sched.entries[j]? = some e ∧ e'.stats.state = e.stats.state) : Calm s' := by
  intro i e' hi
  rcases he i e' hi with hne | ⟨j, e, hj, hst⟩
  · exact hne
  · exact hst ▸ h j e hj

theorem not_inTick {s : Sys μ ω} {top : Frame} {rest : List Frame} (hs : s.stack = top :: rest)
    (ht : ∀ start modStart id, top ≠ .ticking start modStart id) : ¬inTick s := by
  rintro ⟨start, modStart, id, rest', hs'⟩
  exact ht start modStart id (List.cons.inj (hs.symm.trans hs')).1

theorem Calm.set {s : Sys μ ω} {es : List (ModuleEntry μ)} (h : Calm s) {id : Nat}
    {e₁ : ModuleEntry μ} (hes : es = s.sched.entries.set id e₁) (he₁ : e₁.stats.state ≠ .running)
    {i : Nat} {e' : ModuleEntry μ} (hi : es[i]? = some e') : e'.stats.state ≠ .running := by
  rw [hes, List.getElem?_set] at hi
  split at hi
  · split at hi
    · exact Option.some.inj hi ▸ he₁
    · exact absurd hi (by simp)
  · exact h i e' hi

theorem calm_shutdownAll {s : Sys μ ω} (h : Calm s) (world : ω) (stack : List Frame) :
    Calm ({ s with world }.shutdownAll m stack) := by
  refine h.frame fun i e' hi => ?_
  rw [shutdownAll_entries, List.getElem?_map, Option.map_eq_some_iff] at hi
  obtain ⟨e, he, rfl⟩ := hi
  split
  · exact .inl (by simp [ModuleEntry.setState])
  · exact .inr ⟨i, e, he, rfl⟩

/-- **In runs in which the modules behave, only an entry in its tick is `Running`.** -/
theorem effect_runningInTick {s s' : Sys μ ω} {a : Act μ ω} (h : SchedEffect m s a s')
    (hb : Behaves tick s a) (hr : RunningInTick s) : RunningInTick s' := by
  cases h with
  | quiet op world now hca hq s' he hw hs hl =>
    exact (hr.calm hb).still he
  | registered module world now hca hn =>
    refine ((hr.calm hb).frame fun i e' hi => ?_).runningInTick
    rcases getElem?_concat.mp hi with hi | ⟨-, rfl⟩
    · exact .inr ⟨i, e', hi, rfl⟩
    · exact .inl (by simp)
  | removed id world now hca e he =>
    exact Calm.runningInTick fun i e' hi => (hr.calm hb).set rfl (by simp [ModuleEntry.setState]) hi
  | initAll world now hca =>
    refine ((hr.calm hb).frame fun i e' hi => ?_).runningInTick
    obtain ⟨e, he, ⟨-, rfl⟩ | ⟨-, ok, -, rfl⟩⟩ := initAll_entry hi
    · exact .inr ⟨i, e', he, rfl⟩
    · exact .inl (by cases ok <;> simp [ModuleEntry.setState])
  | runTakt | requestShutdown => exact (hr.calm hb).still rfl
  | shutdownAll world now hca => exact (calm_shutdownAll (hr.calm hb) world _).runningInTick
  | timersDone world now start rest hs | eventsDone world now start rest hs =>
    exact (hr.calm (not_inTick hs (by simp))).still rfl
  | tickDone world now start modStart id rest hs =>
    refine Calm.runningInTick fun i e' hi hst => ?_
    rw [List.getElem?_modify, Option.map_eq_map, Option.map_eq_some_iff] at hi
    obtain ⟨e, he, rfl⟩ := hi
    split at hst
    · exact absurd hst (by simp [ticked])
    · rename_i hne
      obtain ⟨_, _, _, hs'⟩ := hr i e he hst
      exact hne (Frame.ticking.inj (List.cons.inj (hs.symm.trans hs')).1).2.2
  | overrunDone world now rest hs => exact (hr.calm (not_inTick hs (by simp))).still rfl
  | requestDone world now rest hs =>
    exact (calm_shutdownAll (hr.calm (not_inTick hs (by simp))) world rest).runningInTick
  | tick now start id rest hs e he hrun =>
    intro i e' hi hst
    have hcalm := hr.calm (not_inTick hs (by simp))
    by_cases heq : i = id
    · exact ⟨start, now, rest, heq ▸ rfl⟩
    · rw [List.getElem?_set_ne (Ne.symm heq)] at hi
      exact absurd hst (hcalm i e' hi)
  | skip now start id rest hs e he hrun =>
    have hcalm := hr.calm (not_inTick hs (by simp))
    refine Calm.runningInTick fun i e' hi => hcalm.set rfl ?_ hi
    rw [Scheduler.skip]
    split <;> exact hcalm id e he
  | overrun now start id rest hs | taktDone now start id rest hs =>
    exact (hr.calm (not_inTick hs (by simp))).still rfl

/-! ## The loop -/

/-- The loop of a takt that began in `s₀` is in progress in `s`, after `n` turns and ticks. -/
inductive Scan (m : IModule μ ω) (tick : μ → ω → ω) (rest : List Frame) (s₀ s : Sys μ ω) :
    Nat → Prop
  /-- It is about to look at entry `id`. -/
  | turn (start : UInt64) (id : Nat) (hs : s.stack = .scanning start id :: rest)
      (hid : id ≤ s₀.sched.entries.length)
      (hes : ∀ j, id ≤ j → s.sched.entries[j]? = s₀.sched.entries[j]?)
      (hw : s.world = worldAt m tick s₀.sched.entries s₀.world id)
      (hl : s.log = s₀.log ++ ticksTo m tick s₀.sched.entries s₀.world id) :
      Scan m tick rest s₀ s (2 * id)
  /-- The module of entry `id` is in its tick. -/
  | ticking (start modStart : UInt64) (id : Nat) (e : ModuleEntry μ)
      (hs : s.stack = .ticking start modStart id :: rest)
      (he : s.sched.entries[id]? = some (e.setState .running))
      (hid : id + 1 ≤ s₀.sched.entries.length)
      (hes : ∀ j, id + 1 ≤ j → s.sched.entries[j]? = s₀.sched.entries[j]?)
      (hw : tick e.module s.world = worldAt m tick s₀.sched.entries s₀.world (id + 1))
      (hl : s.log = s₀.log ++ ticksTo m tick s₀.sched.entries s₀.world (id + 1)) :
      Scan m tick rest s₀ s (2 * id + 1)

/-- The loop of a takt that began in `s₀` ended in `s`, which may publish an overrun. -/
structure Scanned (m : IModule μ ω) (tick : μ → ω → ω) (rest : List Frame) (s₀ s : Sys μ ω) :
    Prop where
  world : s.world = worldAt m tick s₀.sched.entries s₀.world s₀.sched.entries.length
  log : s.stack = rest ∧ s.log = s₀.log ++
      ticksTo m tick s₀.sched.entries s₀.world s₀.sched.entries.length ∨
    s.stack = .overrun :: rest ∧ ∃ elapsedUs budgetUs, s.log = s₀.log ++
      ticksTo m tick s₀.sched.entries s₀.world s₀.sched.entries.length ++
      [.overrun elapsedUs budgetUs]

variable {rest : List Frame} {s₀ s s' : Sys μ ω} {a : Act μ ω} {n : Nat}

theorem Scanned.ended (h : Scanned m tick rest s₀ s) : ¬inLoop rest s := by
  rintro ⟨start, id, hin⟩
  have hne : ∀ top : Frame, rest ≠ top :: rest := fun top h => by
    have hlen := congrArg List.length h
    rw [List.length_cons] at hlen
    omega
  rcases h.log with ⟨hs, -⟩ | ⟨hs, -⟩
  · rcases hin with hin | ⟨modStart, hin⟩ <;> exact hne _ (hs.symm.trans hin)
  · rcases hin with hin | ⟨modStart, hin⟩ <;> exact absurd (hs.symm.trans hin) (by simp)

theorem not_clientActs {start : UInt64} {id : Nat} (hs : s.stack = .scanning start id :: rest) :
    s.clientActs ≠ true := by
  rw [Sys.clientActs, hs]
  simp

/-- A turn of the loop goes to the next one, into a tick, or to the end of the loop. -/
theorem scan_step_turn {start : UInt64} {id : Nat} (hs : s.stack = .scanning start id :: rest)
    (hcalm : Calm s₀) (hid : id ≤ s₀.sched.entries.length)
    (hes : ∀ j, id ≤ j → s.sched.entries[j]? = s₀.sched.entries[j]?)
    (hw : s.world = worldAt m tick s₀.sched.entries s₀.world id)
    (hl : s.log = s₀.log ++ ticksTo m tick s₀.sched.entries s₀.world id)
    (heff : SchedEffect m s a s') :
    (∃ n', 2 * id < n' ∧ Scan m tick rest s₀ s' n') ∨ Scanned m tick rest s₀ s' := by
  have hafter : ∀ e₁, ∀ j, id + 1 ≤ j →
      (s.sched.entries.set id e₁)[j]? = s₀.sched.entries[j]? := fun e₁ j hj => by
    rw [List.getElem?_set_ne (by omega), hes j (by omega)]
  have hlast : s.sched.entries[id]? = none → id = s₀.sched.entries.length := fun hn => by
    rw [hes id (Nat.le_refl _), List.getElem?_eq_none_iff] at hn
    omega
  cases heff with
  | quiet op world now hca | registered module world now hca | removed id' world now hca
  | initAll world now hca | runTakt world now hca | shutdownAll world now hca
  | requestShutdown world now hca => exact absurd hca (not_clientActs hs)
  | timersDone world now start' rest' hs' | eventsDone world now start' rest' hs'
  | tickDone world now start' modStart id' rest' hs' | overrunDone world now rest' hs'
  | requestDone world now rest' hs' => exact absurd (hs.symm.trans hs') (by simp)
  | tick now start' id' rest' hs' e he hr =>
    obtain ⟨⟨rfl, rfl⟩, rfl⟩ := by simpa using hs.symm.trans hs'
    have he₀ : s₀.sched.entries[id]? = some e := (hes id (Nat.le_refl _)).symm.trans he
    rw [shouldRunModule_iff (hcalm id e he₀), hw] at hr
    obtain ⟨hticks, hworld⟩ := takt_runs he₀ hr
    refine .inl ⟨_, Nat.lt_succ_self _,
      .ticking start now id e rfl ?_ (lt_of_getElem? he₀) (hafter _) ?_ ?_⟩
    · rw [List.getElem?_set_self (lt_of_getElem? he)]
    · rw [hworld, ← hw]
    · rw [hticks, ← List.append_assoc, ← hl]
  | skip now start' id' rest' hs' e he hr =>
    obtain ⟨⟨rfl, rfl⟩, rfl⟩ := by simpa using hs.symm.trans hs'
    have he₀ : s₀.sched.entries[id]? = some e := (hes id (Nat.le_refl _)).symm.trans he
    have hnr : ¬Runs m e (worldAt m tick s₀.sched.entries s₀.world id) := by
      rw [← shouldRunModule_iff (hcalm id e he₀), ← hw, hr]
      decide
    obtain ⟨hticks, hworld⟩ := takt_skips he₀ hnr
    exact .inl ⟨2 * (id + 1), by omega, .turn start (id + 1) rfl (lt_of_getElem? he₀)
      (hafter _) (hw.trans hworld.symm) (hticks ▸ hl)⟩
  | overrun now start' id' rest' hs' he elapsedUs budgetUs =>
    obtain ⟨⟨rfl, rfl⟩, rfl⟩ := by simpa using hs.symm.trans hs'
    have hend := hlast he
    exact .inr ⟨hend ▸ hw, .inr ⟨rfl, elapsedUs, budgetUs, by rw [hl, hend]⟩⟩
  | taktDone now start' id' rest' hs' he =>
    obtain ⟨⟨rfl, rfl⟩, rfl⟩ := by simpa using hs.symm.trans hs'
    have hend := hlast he
    exact .inr ⟨hend ▸ hw, .inl ⟨rfl, hend ▸ hl⟩⟩

/-- **A step of the loop goes on in it, or ends it.** -/
theorem Scan.step (h : Scan m tick rest s₀ s n) (hcalm : Calm s₀) (hb : Behaves tick s a)
    (heff : SchedEffect m s a s') :
    (∃ n', n < n' ∧ Scan m tick rest s₀ s' n') ∨ Scanned m tick rest s₀ s' := by
  cases h with
  | turn start id hs hid hes hw hl => exact scan_step_turn hs hcalm hid hes hw hl heff
  | ticking start modStart id e hs he hid hes hw hl =>
    have htick : inTick s := ⟨start, modStart, id, rest, hs⟩
    cases heff with
    | quiet | registered | removed | initAll | runTakt | shutdownAll | requestShutdown =>
      exact absurd htick hb
    | timersDone world now start' rest' hs' | eventsDone world now start' rest' hs'
    | overrunDone world now rest' hs' | requestDone world now rest' hs'
    | tick now start' id' rest' hs' | skip now start' id' rest' hs'
    | overrun now start' id' rest' hs' | taktDone now start' id' rest' hs' =>
      exact absurd (hs.symm.trans hs') (by simp)
    | tickDone world now start' modStart' id' rest' hs' =>
      obtain ⟨⟨rfl, rfl, rfl⟩, rfl⟩ := by simpa using hs.symm.trans hs'
      have hworld : world = tick e.module s.world :=
        hb start modStart id rest (e.setState .running) hs he
      refine .inl ⟨2 * (id + 1), by omega,
        .turn start (id + 1) rfl hid (fun j hj => ?_) (hworld.trans hw) hl⟩
      exact (List.getElem?_modify_ne _ _ (by omega)).trans (hes j hj)

theorem Scan.inLoop (h : Scan m tick rest s₀ s n) : inLoop rest s := by
  cases h with
  | turn start id hs => exact ⟨start, id, .inl hs⟩
  | ticking start modStart id e hs => exact ⟨start, id, .inr ⟨modStart, hs⟩⟩

theorem Scan.le (h : Scan m tick rest s₀ s n) : n ≤ 2 * s₀.sched.entries.length := by
  cases h with
  | turn start id hs hid => omega
  | ticking start modStart id e hs he hid => omega

/-- A loop in progress goes on. -/
theorem Scan.progress (h : Scan m tick rest s₀ s n) (now : UInt64) :
    ∃ a s', s.step m a = some s' ∧ Behaves tick s a := by
  cases h with
  | turn start id hs =>
    refine ⟨.advance now, s.scan m start id rest now, ?_, trivial⟩
    rw [Sys.step, hs]
  | ticking start modStart id e hs he =>
    obtain ⟨s', hstep⟩ : ∃ s', s.step m (.ret (tick e.module s.world) now) = some s' :=
      Option.isSome_iff_exists.mp (by rw [Sys.step, Sys.ret, hs]; rfl)
    refine ⟨_, s', hstep, fun start' modStart' id' rest' e' hs' he' => ?_⟩
    obtain ⟨⟨rfl, rfl, rfl⟩, rfl⟩ := by simpa using hs.symm.trans hs'
    exact Option.some.inj (he.symm.trans he') ▸ rfl

/-- A loop in progress comes to its end. -/
theorem Scan.ends (hcalm : Calm s₀) (k : Nat) :
    ∀ {s : Sys μ ω} {n : Nat}, Scan m tick rest s₀ s n → 2 * s₀.sched.entries.length < n + k →
      ∃ loop s', LoopRun m tick rest s loop s' := by
  induction k with
  | zero => intro s n h hn; exact absurd h.le (by omega)
  | succ k ih =>
    intro s n h hn
    obtain ⟨a, s', hstep, hb⟩ := h.progress 0
    have hcons : ∀ {loop s''}, LoopRun m tick rest s' loop s'' →
        LoopRun m tick rest s (a :: loop) s'' := fun hloop =>
      ⟨by rw [run, hstep]; exact hloop.ran, .cons hstep ⟨h.inLoop, hb⟩ hloop.inside, hloop.ended⟩
    rcases h.step hcalm hb (sys_step_effect hstep) with ⟨n', hn', h'⟩ | h'
    · obtain ⟨loop, s'', hloop⟩ := ih h' (by omega)
      exact ⟨a :: loop, s'', hcons hloop⟩
    · exact ⟨[a], s', hcons ⟨rfl, trivial, h'.ended⟩⟩

/-- **The loop ticks the entries that are to run, and leaves the world they leave.** -/
theorem LoopRun.scanned {loop : List (Act μ ω)} (h : LoopRun m tick rest s₀ loop s')
    (hcalm : Calm s₀) {start : UInt64} (hs : s₀.stack = .scanning start 0 :: rest) :
    Scanned m tick rest s₀ s' := by
  have hinit : Scan m tick rest s₀ s₀ 0 :=
    .turn start 0 hs (Nat.zero_le _) (fun _ _ => rfl) rfl (List.append_nil _).symm
  have hinv : (∃ n, Scan m tick rest s₀ s' n) ∨ Scanned m tick rest s₀ s' :=
    run_invariant (fun s => (∃ n, Scan m tick rest s₀ s n) ∨ Scanned m tick rest s₀ s)
      (fun s a s' hi hp hstep => by
        rcases hi with ⟨n, hn⟩ | hend
        · exact (hn.step hcalm hp.2 (sys_step_effect hstep)).imp_left fun ⟨n', _, h'⟩ => ⟨n', h'⟩
        · exact absurd hp.1 hend.ended)
      (.inl ⟨0, hinit⟩) h.inside h.ran
  exact hinv.elim (fun ⟨_, hn⟩ => absurd hn.inLoop h.ended) fun hend => hend

/-! ## A takt in a run -/

theorem effect_log_grows (h : SchedEffect m s a s') : s.log <+: s'.log := by
  cases h with
  | quiet op world now hca hq s' he hw hs hl => exact hl ▸ List.prefix_refl _
  | registered | eventsDone | tickDone | overrunDone | skip | taktDone => exact List.prefix_refl _
  | _ => exact List.prefix_append _ _

theorem BehavedRun.log (h : BehavedRun m tick s s') : s.log <+: s'.log := by
  obtain ⟨acts, hr, -⟩ := h
  exact run_preserves (fun t : Sys μ ω => s.log <+: t.log)
    (fun _ _ _ hi hs => hi.trans (effect_log_grows (sys_step_effect hs))) (List.prefix_refl _) hr

theorem BehavedRun.runningInTick (h : BehavedRun m tick s s') (hr : RunningInTick s) :
    RunningInTick s' := by
  obtain ⟨acts, hrun, hb⟩ := h
  exact run_invariant RunningInTick
    (fun _ _ _ hi hb hs => effect_runningInTick (sys_step_effect hs) hb hi) hr hb hrun

theorem step_runTakt {world : ω} {now : UInt64}
    (h : s.step m (.call .runTakt world now) = some s') : s' = { s with
      world
      stack := .timers now :: s.stack
      log := s.log ++ [.timers s.sched.taktPeriodMs] } :=
  (step_call h).2

theorem step_ret_timers {start : UInt64} (hs : s.stack = .timers start :: rest) (world : ω)
    (now : UInt64) : s.step m (.ret world now) =
      some { s with world, stack := .events start :: rest, log := s.log ++ [.events] } := by
  rw [Sys.step, Sys.ret, hs]

theorem step_ret_events {start : UInt64} (hs : s.stack = .events start :: rest) (world : ω)
    (now : UInt64) : s.step m (.ret world now) =
      some { s with world, stack := .scanning start 0 :: rest } := by
  rw [Sys.step, Sys.ret, hs]

/--
**A takt advances the timers, then dispatches the queued events, then ticks the entries that are
to run in the order of their registration.**

What the timers and the events call back may call the scheduler itself, from `called` to
`advanced` and from `dispatching` to `dispatched`; the loop goes over the entries it finds then.
-/
theorem takt_order {world₀ world world₁ world₂ : ω} {now now₁ now₂ : UInt64}
    {s called advanced dispatching dispatched scan : Sys μ ω}
    (hs : BehavedRun m tick { world := world₀ } s) (hn : ¬inTick s)
    (hcall : s.step m (.call .runTakt world now) = some called)
    (htimers : BehavedRun m tick called advanced) (hadvanced : advanced.stack = called.stack)
    (hret : advanced.step m (.ret world₁ now₁) = some dispatching)
    (hevents : BehavedRun m tick dispatching dispatched)
    (hdispatched : dispatched.stack = dispatching.stack)
    (hret' : dispatched.step m (.ret world₂ now₂) = some scan) :
    called.log = s.log ++ [.timers s.sched.taktPeriodMs] ∧ called.log <+: advanced.log ∧
    dispatching.log = advanced.log ++ [.events] ∧ dispatching.log <+: dispatched.log ∧
    scan.log = dispatched.log ∧ scan.sched = dispatched.sched ∧ scan.world = world₂ ∧
    (∃ loop s', LoopRun m tick s.stack scan loop s') ∧
    ∀ loop s', LoopRun m tick s.stack scan loop s' →
      s'.world = worldAt m tick scan.sched.entries world₂ scan.sched.entries.length ∧
      (s'.stack = s.stack ∧ s'.log = scan.log ++
          ticksTo m tick scan.sched.entries world₂ scan.sched.entries.length ∨
        s'.stack = .overrun :: s.stack ∧ ∃ elapsedUs budgetUs, s'.log = scan.log ++
          ticksTo m tick scan.sched.entries world₂ scan.sched.entries.length ++
          [.overrun elapsedUs budgetUs]) := by
  have hr : RunningInTick s := hs.runningInTick fun _ _ hi => absurd hi (by simp)
  obtain rfl := step_runTakt hcall
  have hadv : RunningInTick advanced := htimers.runningInTick ((hr.calm hn).still rfl)
  obtain rfl := Option.some.inj ((step_ret_timers hadvanced _ _).symm.trans hret)
  have hdis : RunningInTick dispatched :=
    hevents.runningInTick ((hadv.calm (not_inTick hadvanced (by simp))).still rfl)
  obtain rfl := Option.some.inj ((step_ret_events hdispatched _ _).symm.trans hret')
  have hcalm : Calm { dispatched with world := world₂, stack := .scanning now 0 :: s.stack } :=
    hdis.calm (not_inTick hdispatched (by simp))
  refine ⟨rfl, htimers.log, rfl, hevents.log, rfl, rfl, rfl, ?_, fun loop s' hloop => ?_⟩
  · have hinit : Scan m tick s.stack { dispatched with
        world := world₂, stack := .scanning now 0 :: s.stack } _ 0 :=
      .turn now 0 rfl (Nat.zero_le _) (fun _ _ => rfl) rfl (List.append_nil _).symm
    exact hinit.ends hcalm (2 * dispatched.sched.entries.length + 1) (by dsimp only; omega)
  · have hend := hloop.scanned hcalm rfl
    exact ⟨hend.world, hend.log⟩

/-- The module at 7 makes work; every other one is a background module that does it. -/
def workModule : IModule Nat Bool where
  init _ world := (true, world)
  shutdown _ world := world
  type module _ := if module = 7 then .static else .background
  hasWork _ world := world

def workTick (module : Nat) (_ : Bool) : Bool := module = 7

/-- Of two background modules the one after the module that makes work is ticked. -/
theorem takt_order_background : ∃ scan : Sys Nat Bool,
    run (Sys.step workModule) { world := false } [.call (.registerModule (some 8)) false 0,
      .call (.registerModule (some 7)) false 0, .call (.registerModule (some 9)) false 0,
      .call .initAll false 0, .call .runTakt false 0, .ret false 0, .ret false 0] = some scan ∧
    ∀ loop s', LoopRun workModule workTick [] scan loop s' → s'.world = false ∧
      (s'.stack = [] ∧ s'.log = scan.log ++ [.tick 1 7, .tick 2 9] ∨
        s'.stack = [.overrun] ∧ ∃ elapsedUs budgetUs,
          s'.log = scan.log ++ [.tick 1 7, .tick 2 9] ++ [.overrun elapsedUs budgetUs]) := by
  have hinTick : ∀ sched world log, ¬inTick ({ sched, world, stack := [], log } : Sys Nat Bool) :=
    fun _ _ _ ⟨_, _, _, _, h⟩ => absurd h (by simp)
  have hs : BehavedRun workModule workTick { world := false } _ :=
    ⟨[.call (.registerModule (some 8)) false 0, .call (.registerModule (some 7)) false 0,
      .call (.registerModule (some 9)) false 0, .call .initAll false 0], rfl,
      .cons rfl (hinTick _ _ _) <| .cons rfl (hinTick _ _ _) <| .cons rfl (hinTick _ _ _) <|
        .cons rfl (hinTick _ _ _) trivial⟩
  obtain ⟨-, -, -, -, -, -, -, -, hloop⟩ := takt_order hs (hinTick _ _ _)
    (show Sys.step workModule _ (.call .runTakt false 0) = some _ from rfl)
    ⟨[], rfl, trivial⟩ rfl (show Sys.step workModule _ (.ret false 0) = some _ from rfl)
    ⟨[], rfl, trivial⟩ rfl (show Sys.step workModule _ (.ret false 0) = some _ from rfl)
  exact ⟨_, rfl, hloop⟩

end TaktOS.Proof
