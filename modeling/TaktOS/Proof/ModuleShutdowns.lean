import TaktOS.Lib.History
import TaktOS.Proof.SchedulerSteps

/-!
# Shutdown is delivered at most once

`unregisterModule` calls `shutdown()` for any entry in use, `shutdownAll` for any active one,
and neither looks at where the entry is in its lifecycle. So `shutdown()` is delivered once for
each `init()` exactly when the callers keep to the lifecycle: they shut a module down only
when an `initAll` has been over it and no shutdown since.

Whether that is so can be read off the calls of the scheduler alone (`initialized`); the
invariant is that the calls of the modules' methods agree (`started`), in every run.
-/

namespace TaktOS.Proof

open TaktOS Scheduler Lib

variable {μ ω : Type} [DecidableEq μ] {m : IModule μ ω}

/-- What a call makes of whether the module's `init()` was called since its `shutdown()`. -/
def startedStep (module : μ) (b : Bool) : Call μ → Bool
  | .init _ module' _ => if module' = module then true else b
  | .shutdown _ module' => if module' = module then false else b
  | _ => b

/-- The module's `init()` was called, and its `shutdown()` not since. -/
def started (log : List (Call μ)) (module : μ) : Bool := log.foldl (startedStep module) false

/-- What a call of the scheduler makes of whether the module is initialized. -/
def initializedStep (module : μ) (b : Bool) : Call μ → Bool
  | .initAll modules => if module ∈ modules then true else b
  | .unregisterModule module' => if module' = module then false else b
  | .shutdownAll modules => if module ∈ modules then false else b
  | _ => b

/-- An `initAll` was over an active entry of the module, and no call shut the module down since. -/
def initialized (log : List (Call μ)) (module : μ) : Bool :=
  log.foldl (initializedStep module) false

/-- Every `shutdown()` on record was of a module whose `init()` was called since the last. -/
def ShutdownsDue (log : List (Call μ)) : Prop :=
  ∀ t id module, log[t]? = some (.shutdown id module) → started (log.take t) module = true

/-- The active entries have different modules, each initialized. -/
def AllInitialized (s : Sys μ ω) : Prop :=
  s.sched.activeModules.Nodup ∧ ∀ module ∈ s.sched.activeModules, initialized s.log module = true

/-- A step shuts down only initialized modules, and none twice. -/
def KeepsLifecycle (s : Sys μ ω) : Act μ ω → Prop
  | .call (.unregisterModule id) _ _ => ∀ e, s.sched.entries[id.toNat]? = some e →
      initialized s.log e.module = true
  | .call .shutdownAll _ _ => AllInitialized s
  | .ret _ _ => ∀ rest, s.stack = .requested :: rest → AllInitialized s
  | _ => True

/-! ## The two records agree -/

theorem started_append (log cs : List (Call μ)) (module : μ) :
    started (log ++ cs) module = cs.foldl (startedStep module) (started log module) := by
  rw [started, List.foldl_append, ← started]

theorem initialized_append (log cs : List (Call μ)) (module : μ) :
    initialized (log ++ cs) module =
      cs.foldl (initializedStep module) (initialized log module) := by
  rw [initialized, List.foldl_append, ← initialized]

/-- Calls that each set the value for one module set it for those they are made for. -/
theorem foldl_assign {step : Bool → Call μ → Bool} {pick : Call μ → Option μ} {module : μ}
    {v : Bool} (hstep : ∀ b c module', pick c = some module' →
      step b c = if module' = module then v else b) {cs : List (Call μ)} {modules : List μ}
    (h : cs.map pick = modules.map some) :
    ∀ b, cs.foldl step b = if module ∈ modules then v else b := by
  induction cs generalizing modules with
  | nil =>
    obtain rfl : modules = [] := List.map_eq_nil_iff.mp h.symm
    intro b
    simp
  | cons c cs ih =>
    intro b
    cases modules with
    | nil => exact absurd h (by simp)
    | cons module' modules =>
      obtain ⟨hc, hcs⟩ := List.cons.inj h
      rw [List.foldl_cons, ih hcs, hstep b c module' hc]
      by_cases hm : module' = module
      · simp [hm]
      · simp [hm, Ne.symm hm]

/-- The calls of a loop of `initAll` start the modules it goes over. -/
theorem foldl_started_init (module : μ) {cs : List (Call μ)} {modules : List μ}
    (h : cs.map initModule = modules.map some) (b : Bool) :
    cs.foldl (startedStep module) b = if module ∈ modules then true else b := by
  refine foldl_assign (fun b c module' hc => ?_) h b
  obtain ⟨id, ok, rfl⟩ := initModule_some hc
  rfl

/-- The calls of a loop of `shutdownAll` end the modules it goes over. -/
theorem foldl_started_shutdown (module : μ) {cs : List (Call μ)} {modules : List μ}
    (h : cs.map shutdownModule = modules.map some) (b : Bool) :
    cs.foldl (startedStep module) b = if module ∈ modules then false else b := by
  refine foldl_assign (fun b c module' hc => ?_) h b
  obtain ⟨id, rfl⟩ := shutdownModule_some hc
  rfl

/-- Calls of the modules' methods alone. -/
theorem foldl_initialized_methods (module : μ) {cs : List (Call μ)}
    (h : ∀ c ∈ cs, initModule c ≠ none ∨ shutdownModule c ≠ none) (b : Bool) :
    cs.foldl (initializedStep module) b = b := by
  refine foldl_unchanged fun c hc => ?_
  have hm := h c hc
  cases c <;> first | rfl | exact absurd hm (by simp [initModule, shutdownModule])

/-- A call that neither starts nor ends a module, in either record. -/
theorem agree_append_one {log : List (Call μ)} {c : Call μ} (module : μ)
    (ho : ∀ b, startedStep module b c = b) (hi : ∀ b, initializedStep module b c = b)
    (h : started log module = initialized log module) :
    started (log ++ [c]) module = initialized (log ++ [c]) module := by
  rw [started_append, initialized_append, List.foldl_cons, List.foldl_cons, List.foldl_nil,
    List.foldl_nil, ho, hi, h]

theorem agree_shutdownAll {s : Sys μ ω} (module : μ) (world : ω) (stack : List Frame)
    (h : started s.log module = initialized s.log module) :
    started ({ s with world }.shutdownAll m stack).log module =
      initialized ({ s with world }.shutdownAll m stack).log module := by
  have hcs := shutdownCalls_modules (m := m) s world
  rw [shutdownAll_log, started_append, initialized_append, List.foldl_cons, List.foldl_cons,
    foldl_initialized_methods _ fun c hc => .inr (pick_ne_none hcs c hc),
    foldl_started_shutdown _ hcs, h]
  rfl

/-- **In every run the calls of the methods agree with the calls of the scheduler.** -/
theorem effect_agree {s s' : Sys μ ω} {a : Act μ ω} (h : SchedEffect m s a s')
    (hi : ∀ module, started s.log module = initialized s.log module) (module : μ) :
    started s'.log module = initialized s'.log module := by
  cases h with
  | quiet op world now hca hq s' he hw hs hl => rw [hl]; exact hi module
  | registered | eventsDone | tickDone | overrunDone | skip | taktDone => exact hi module
  | runTakt | requestShutdown | timersDone | tick | overrun =>
    exact agree_append_one module (fun _ => rfl) (fun _ => rfl) (hi module)
  | removed id world now hca e he =>
    rw [started_append, initialized_append, hi]
    rfl
  | initAll world now hca =>
    have hcs := initCalls_modules (m := m) s world
    rw [started_append, initialized_append, List.foldl_cons, List.foldl_cons,
      foldl_initialized_methods _ fun c hc => .inl (pick_ne_none hcs c hc),
      foldl_started_init _ hcs, hi]
    rfl
  | shutdownAll world now hca => exact agree_shutdownAll module world _ (hi module)
  | requestDone world now rest hs => exact agree_shutdownAll module world _ (hi module)

/-! ## When a step's shutdowns are due -/

theorem shutdownsDue_append {log cs : List (Call μ)} :
    ShutdownsDue (log ++ cs) ↔ ShutdownsDue log ∧ ∀ t id module,
      cs[t]? = some (.shutdown id module) → started (log ++ cs.take t) module = true := by
  constructor
  · intro h
    refine ⟨fun t id module ht => ?_, fun t id module ht => ?_⟩
    · have hlt := lt_of_getElem? ht
      have hd := h t id module (by rw [List.getElem?_append_left hlt]; exact ht)
      rwa [List.take_append_of_le_length (Nat.le_of_lt hlt)] at hd
    · have hd := h (log.length + t) id module (by
        rw [List.getElem?_append_right (Nat.le_add_right _ _), Nat.add_sub_cancel_left]; exact ht)
      rwa [List.take_length_add_append] at hd
  · rintro ⟨hlog, hcs⟩ t id module ht
    rcases Nat.lt_or_ge t log.length with hlt | hge
    · rw [List.getElem?_append_left hlt] at ht
      rw [List.take_append_of_le_length (Nat.le_of_lt hlt)]
      exact hlog t id module ht
    · rw [List.getElem?_append_right hge] at ht
      have hd := hcs _ id module ht
      obtain ⟨k, rfl⟩ : ∃ k, t = log.length + k := ⟨t - log.length, by omega⟩
      rw [Nat.add_sub_cancel_left] at hd
      rw [List.take_length_add_append]
      exact hd

/-- The shutdowns of a loop are due exactly when its modules are started and different. -/
theorem loop_due_iff {cs : List (Call μ)} {modules : List μ}
    (h : cs.map shutdownModule = modules.map some) :
    ∀ f : μ → Bool, (∀ t id module, cs[t]? = some (.shutdown id module) →
        (cs.take t).foldl (startedStep module) (f module) = true) ↔
      modules.Nodup ∧ ∀ module ∈ modules, f module = true := by
  induction cs generalizing modules with
  | nil =>
    obtain rfl : modules = [] := List.map_eq_nil_iff.mp h.symm
    intro f
    simp
  | cons c cs ih =>
    intro f
    cases modules with
    | nil => exact absurd h (by simp)
    | cons first modules =>
      obtain ⟨hc, hcs⟩ := List.cons.inj h
      obtain ⟨id₀, rfl⟩ := shutdownModule_some hc
      have hrest := ih hcs fun module => if first = module then false else f module
      have hmem : (∀ module ∈ modules, (if first = module then false else f module) = true) ↔
          first ∉ modules ∧ ∀ module ∈ modules, f module = true := by
        constructor
        · intro hall
          refine ⟨fun hm => by simpa using hall first hm, fun module hm => ?_⟩
          have hmod := hall module hm
          split at hmod
          · exact absurd hmod (by decide)
          · exact hmod
        · rintro ⟨hf, hall⟩ module hm
          rw [if_neg (by rintro rfl; exact hf hm)]
          exact hall module hm
      rw [hmem] at hrest
      rw [List.nodup_cons, List.forall_mem_cons]
      constructor
      · intro hall
        obtain ⟨hnd, hf, hmods⟩ := hrest.mp fun t id module ht => hall (t + 1) id module ht
        exact ⟨⟨hf, hnd⟩, hall 0 id₀ first rfl, hmods⟩
      · rintro ⟨⟨hf, hnd⟩, hfirst, hmods⟩ t id module ht
        cases t with
        | zero =>
          obtain ⟨-, rfl⟩ := Call.shutdown.inj (Option.some.inj ht)
          exact hfirst
        | succ t => exact hrest.mpr ⟨hnd, hf, hmods⟩ t id module ht

/-- Calls none of which shuts a module down. -/
theorem shutdownsDue_append_quiet {log cs : List (Call μ)}
    (h : ∀ c ∈ cs, shutdownModule c = none) : ShutdownsDue (log ++ cs) ↔ ShutdownsDue log := by
  rw [shutdownsDue_append]
  refine ⟨fun hd => hd.1, fun hd => ⟨hd, fun t id module ht => ?_⟩⟩
  exact absurd (h _ (List.mem_of_getElem? ht)) (by simp [shutdownModule])

/-- The shutdowns of `shutdownAll` are due when every active module is initialized. -/
theorem shutdownAll_due_iff {s : Sys μ ω} (world : ω) (stack : List Frame)
    (hi : ∀ module, started s.log module = initialized s.log module) (hd : ShutdownsDue s.log) :
    ShutdownsDue ({ s with world }.shutdownAll m stack).log ↔ AllInitialized s := by
  have hloop := loop_due_iff (shutdownCalls_modules (m := m) s world) (started s.log)
  have hstarted : ∀ module, started (s.log ++ [.shutdownAll s.sched.activeModules]) module =
      started s.log module := fun module => by rw [started_append]; rfl
  have hquiet : ShutdownsDue (s.log ++ [.shutdownAll s.sched.activeModules]) :=
    (shutdownsDue_append_quiet (by simp [shutdownModule])).mpr hd
  simp only [hi] at hloop
  rw [shutdownAll_log, List.append_cons, shutdownsDue_append, AllInitialized, ← hloop]
  simp only [started_append _ (List.take _ _), hstarted, hi]
  exact ⟨fun h => h.2, fun h => ⟨hquiet, h⟩⟩

/-- **The shutdowns a step makes are due exactly when it keeps to the lifecycle.** -/
theorem effect_due_iff {s s' : Sys μ ω} {a : Act μ ω} (h : SchedEffect m s a s')
    (hi : ∀ module, started s.log module = initialized s.log module) (hd : ShutdownsDue s.log) :
    KeepsLifecycle s a ↔ ShutdownsDue s'.log := by
  have hquiet : ∀ {cs : List (Call μ)}, (∀ c ∈ cs, shutdownModule c = none) →
      (True ↔ ShutdownsDue (s.log ++ cs)) := fun hcs =>
    (iff_true_intro ((shutdownsDue_append_quiet hcs).mpr hd)).symm
  have hframe : ∀ {top : Frame} {rest : List Frame}, s.stack = top :: rest → top ≠ .requested →
      ((∀ rest, s.stack = .requested :: rest → AllInitialized s) ↔ True) :=
    fun hs hne => iff_true_intro fun _ hs' => absurd (List.cons.inj (hs.symm.trans hs')).1 hne
  cases h with
  | quiet op world now hca hq s' he hw hs hl =>
    rw [hl, iff_true_intro hd, iff_true]
    cases op with
    | unregisterModule id => exact fun e he => absurd (hq.symm.trans he) (by simp)
    | shutdownAll => exact hq.elim
    | _ => trivial
  | registered => exact (iff_true_intro hd).symm
  | removed id world now hca e he =>
    have hstarted : started (s.log ++ [.unregisterModule e.module]) e.module =
        initialized s.log e.module := by rw [started_append, ← hi]; rfl
    have hlog : ShutdownsDue (s.log ++ [.unregisterModule e.module]) :=
      (shutdownsDue_append_quiet (by simp [shutdownModule])).mpr hd
    have hloop := loop_due_iff
      (show [Call.shutdown id.toNat e.module].map shutdownModule = [e.module].map some from rfl)
      (started (s.log ++ [.unregisterModule e.module]))
    simp only [List.nodup_cons, List.not_mem_nil, not_false_eq_true, List.nodup_nil, true_and,
      List.forall_mem_singleton, hstarted, ← started_append] at hloop
    rw [List.append_cons, shutdownsDue_append, hloop]
    constructor
    · exact fun h => ⟨hlog, h e he⟩
    · rintro ⟨-, h⟩ e' he'
      exact Option.some.inj (he.symm.trans he') ▸ h
  | initAll world now hca => exact hquiet (initCalls_quiet s world _)
  | runTakt | requestShutdown => exact hquiet (by simp [shutdownModule])
  | shutdownAll world now hca => exact (shutdownAll_due_iff world _ hi hd).symm
  | timersDone world now taktStart rest hs =>
    exact (hframe hs (by simp)).trans (hquiet (by simp [shutdownModule]))
  | eventsDone world now taktStart rest hs =>
    exact (hframe hs (by simp)).trans (iff_true_intro hd).symm
  | tickDone world now taktStart modStart id rest hs =>
    exact (hframe hs (by simp)).trans (iff_true_intro hd).symm
  | overrunDone world now rest hs =>
    exact (hframe hs (by simp)).trans (iff_true_intro hd).symm
  | requestDone world now rest hs =>
    rw [shutdownAll_due_iff world rest hi hd]
    exact ⟨fun h => h rest hs, fun h _ _ => h⟩
  | tick | overrun => exact hquiet (by simp [shutdownModule])
  | skip | taktDone => exact (iff_true_intro hd).symm

/-! ## Runs -/

theorem effect_due_back {s s' : Sys μ ω} {a : Act μ ω} (h : SchedEffect m s a s')
    (hd : ShutdownsDue s'.log) : ShutdownsDue s.log := by
  cases h with
  | quiet op world now hca hq s' he hw hs hl => exact hl ▸ hd
  | registered | eventsDone | tickDone | overrunDone | skip | taktDone => exact hd
  | _ => exact (shutdownsDue_append.mp hd).1

/--
**In a run every `shutdown()` is of a module whose `init()` was called since the last
`shutdown()` of it exactly when every step keeps to the lifecycle.**
-/
theorem shutdowns_due_iff {world : ω} {acts : List (Act μ ω)} {s : Sys μ ω}
    (h : run (Sys.step m) { world } acts = some s) :
    (∀ t id module, s.log[t]? = some (.shutdown id module) →
        started (s.log.take t) module = true) ↔
      Along (Sys.step m) KeepsLifecycle { world } acts :=
  run_iff_along
    (fun s : Sys μ ω => ∀ module, started s.log module = initialized s.log module)
    (fun s : Sys μ ω => ShutdownsDue s.log)
    (fun _ _ _ hi hs => effect_agree (sys_step_effect hs) hi)
    (fun _ _ _ _ hs => effect_due_back (sys_step_effect hs))
    (fun _ _ _ hi hd hs => effect_due_iff (sys_step_effect hs) hi hd)
    (fun _ => rfl) (fun _ _ _ ht => absurd ht (by simp)) h

/-- Two modules, one unregistered and the other shut down with the rest. -/
theorem shutdowns_due_two : ∃ s : Sys Nat Unit,
    run (Sys.step plainModule) { world := () } [.call (.registerModule (some 7)) () 0,
      .call (.registerModule (some 8)) () 0, .call .initAll () 0,
      .call (.unregisterModule 0) () 0, .call .shutdownAll () 0] = some s ∧
    ∀ t id module, s.log[t]? = some (.shutdown id module) →
      started (s.log.take t) module = true := by
  have h : run (Sys.step plainModule) { world := () } [.call (.registerModule (some 7)) () 0,
      .call (.registerModule (some 8)) () 0, .call .initAll () 0,
      .call (.unregisterModule 0) () 0, .call .shutdownAll () 0] = some _ := rfl
  refine ⟨_, h, (shutdowns_due_iff h).mpr ?_⟩
  refine .cons rfl trivial <| .cons rfl trivial <| .cons rfl trivial <|
    .cons rfl (fun e he => ?_) <| .cons rfl ⟨?_, ?_⟩ trivial
  · exact Option.some.inj he ▸ rfl
  · decide
  · decide

/-- `unregisterModule` with the same id a second time shuts the module down a second time. -/
theorem unregister_twice : ∃ s : Sys Nat Unit,
    run (Sys.step plainModule) { world := () } [.call (.registerModule (some 7)) () 0,
      .call .initAll () 0, .call (.unregisterModule 0) () 0,
      .call (.unregisterModule 0) () 0] = some s ∧
    s.log = [.initAll [7], .init 0 7 true, .unregisterModule 7, .shutdown 0 7,
      .unregisterModule 7, .shutdown 0 7] ∧
    started (s.log.take 5) 7 = false :=
  ⟨_, rfl, rfl, rfl⟩

end TaktOS.Proof
