import TaktOS.Kernel.Scheduler
import TaktOS.Lib.History

/-!
# What a step of the scheduler does

`SchedEffect` says once what a step can do; the modules on ticks, shutdowns and the order of
a takt are read off it. The two loops over the entries have their spec lemmas here too.
-/

namespace TaktOS.Proof

open TaktOS Scheduler Lib

/-- Modules that initialize, and have no effect on the world. -/
def plainModule : IModule Nat Unit where
  init _ _ := (true, ())
  shutdown _ _ := ()
  type _ _ := .static

variable {μ ω : Type} {m : IModule μ ω}

/-- The calls that `initAll` makes. -/
def initCalls (m : IModule μ ω) (s : Sys μ ω) : List (Call μ) :=
  (initLoop m 0 s.sched.entries s.world).2.2.2

/-- The calls that `shutdownAll` makes. -/
def shutdownCalls (m : IModule μ ω) (s : Sys μ ω) : List (Call μ) :=
  (shutdownLoop m 0 s.sched.entries s.world).2.2

/-- The call sets something, or is refused. -/
def Quiet (s : Sys μ ω) : Op μ → Prop
  | .registerModule module => module = none ∨ kMaxModules ≤ s.sched.entries.length
  | .unregisterModule id => s.sched.entries[id.toNat]? = none
  | .setTaktBudgetUs _ | .setTaktPeriodMs _ => True
  | _ => False

/-- Everything one step of the scheduler can do. The `world` is the one the client leaves. -/
inductive SchedEffect (m : IModule μ ω) (s : Sys μ ω) : Act μ ω → Sys μ ω → Prop
  | quiet (op : Op μ) (world : ω) (now : UInt64) (hc : s.clientActs) (hq : Quiet s op)
      (s' : Sys μ ω) (he : s'.sched.entries = s.sched.entries) (hw : s'.world = world)
      (hs : s'.stack = s.stack) (hl : s'.log = s.log) : SchedEffect m s (.call op world now) s'
  | registered (module : μ) (world : ω) (now : UInt64) (hc : s.clientActs)
      (hn : s.sched.entries.length < kMaxModules) :
      SchedEffect m s (.call (.registerModule (some module)) world now) { s with
        sched := { s.sched with entries := s.sched.entries ++
          [{ module, active := true, stats := { state := .registered } }] }
        world }
  | removed (id : UInt16) (world : ω) (now : UInt64) (hc : s.clientActs) (e : ModuleEntry μ)
      (he : s.sched.entries[id.toNat]? = some e) :
      SchedEffect m s (.call (.unregisterModule id) world now) { s with
        sched := s.sched.removeEntry id.toNat e
        world := m.shutdown e.module world
        log := s.log ++ [.unregisterModule e.module, .shutdown id.toNat e.module] }
  | initAll (world : ω) (now : UInt64) (hc : s.clientActs) :
      SchedEffect m s (.call .initAll world now) { s with
        sched := { s.sched with entries := (initLoop m 0 s.sched.entries world).2.1 }
        world := (initLoop m 0 s.sched.entries world).2.2.1
        log := s.log ++ .initAll s.sched.activeModules :: initCalls m { s with world } }
  | runTakt (world : ω) (now : UInt64) (hc : s.clientActs) :
      SchedEffect m s (.call .runTakt world now) { s with
        world
        stack := .timers now :: s.stack
        log := s.log ++ [.timers s.sched.taktPeriodMs] }
  | shutdownAll (world : ω) (now : UInt64) (hc : s.clientActs) :
      SchedEffect m s (.call .shutdownAll world now) ({ s with world }.shutdownAll m s.stack)
  | requestShutdown (world : ω) (now : UInt64) (hc : s.clientActs) :
      SchedEffect m s (.call .requestShutdown world now) { s with
        world
        stack := .requested :: s.stack
        log := s.log ++ [.shutdownEvent] }
  | timersDone (world : ω) (now taktStart : UInt64) (rest : List Frame)
      (hs : s.stack = .timers taktStart :: rest) :
      SchedEffect m s (.ret world now) { s with
        world
        stack := .events taktStart :: rest
        log := s.log ++ [.events] }
  | eventsDone (world : ω) (now taktStart : UInt64) (rest : List Frame)
      (hs : s.stack = .events taktStart :: rest) :
      SchedEffect m s (.ret world now) { s with world, stack := .scanning taktStart 0 :: rest }
  | tickDone (world : ω) (now taktStart modStart : UInt64) (id : Nat) (rest : List Frame)
      (hs : s.stack = .ticking taktStart modStart id :: rest) :
      SchedEffect m s (.ret world now) { s with
        sched := { s.sched with
          entries := s.sched.entries.modify id fun e => ticked m e (now - modStart) world }
        world
        stack := .scanning taktStart (id + 1) :: rest }
  | overrunDone (world : ω) (now : UInt64) (rest : List Frame) (hs : s.stack = .overrun :: rest) :
      SchedEffect m s (.ret world now) { s with world, stack := rest }
  | requestDone (world : ω) (now : UInt64) (rest : List Frame)
      (hs : s.stack = .requested :: rest) :
      SchedEffect m s (.ret world now) ({ s with world }.shutdownAll m rest)
  | tick (now taktStart : UInt64) (id : Nat) (rest : List Frame)
      (hs : s.stack = .scanning taktStart id :: rest) (e : ModuleEntry μ)
      (he : s.sched.entries[id]? = some e) (hr : shouldRunModule m e s.world = true) :
      SchedEffect m s (.advance now) { s with
        sched := { s.sched with entries := s.sched.entries.set id (e.setState .running) }
        stack := .ticking taktStart now id :: rest
        log := s.log ++ [.tick id e.module] }
  | skip (now taktStart : UInt64) (id : Nat) (rest : List Frame)
      (hs : s.stack = .scanning taktStart id :: rest) (e : ModuleEntry μ)
      (he : s.sched.entries[id]? = some e) (hr : shouldRunModule m e s.world = false) :
      SchedEffect m s (.advance now) { s with
        sched := { s.sched with
          entries := s.sched.entries.set id (Scheduler.skip m e s.world) }
        stack := .scanning taktStart (id + 1) :: rest }
  | overrun (now taktStart : UInt64) (id : Nat) (rest : List Frame)
      (hs : s.stack = .scanning taktStart id :: rest) (he : s.sched.entries[id]? = none)
      (elapsedUs budgetUs : UInt32) :
      SchedEffect m s (.advance now) { s with
        sched := s.sched.endTakt (now - taktStart)
        stack := .overrun :: rest
        log := s.log ++ [.overrun elapsedUs budgetUs] }
  | taktDone (now taktStart : UInt64) (id : Nat) (rest : List Frame)
      (hs : s.stack = .scanning taktStart id :: rest) (he : s.sched.entries[id]? = none) :
      SchedEffect m s (.advance now) { s with
        sched := s.sched.endTakt (now - taktStart)
        stack := rest }

theorem sys_call_effect {s : Sys μ ω} (hc : s.clientActs) (op : Op μ) (world : ω) (now : UInt64) :
    SchedEffect m s (.call op world now) ({ s with world }.call m now op) := by
  cases op with
  | registerModule module =>
    cases module with
    | none => exact .quiet (.registerModule none) _ _ hc (.inl rfl) _ rfl rfl rfl rfl
    | some module =>
      rw [Sys.call, Scheduler.registerModule]
      dsimp only
      split
      · rename_i hn; exact .quiet (.registerModule (some module)) _ _ hc (.inr hn) _ rfl rfl rfl rfl
      · rename_i hn; exact .registered module world now hc (Nat.lt_of_not_le hn)
  | unregisterModule id =>
    rw [Sys.call]
    cases he : s.sched.entries[id.toNat]? with
    | none => exact .quiet (.unregisterModule id) _ _ hc he _ rfl rfl rfl rfl
    | some e => exact .removed id world now hc e he
  | initAll => exact .initAll world now hc
  | runTakt => exact .runTakt world now hc
  | shutdownAll => exact .shutdownAll world now hc
  | requestShutdown => exact .requestShutdown world now hc
  | setTaktBudgetUs budgetUs =>
    exact .quiet (.setTaktBudgetUs budgetUs) _ _ hc trivial _ rfl rfl rfl rfl
  | setTaktPeriodMs periodMs =>
    exact .quiet (.setTaktPeriodMs periodMs) _ _ hc trivial _ rfl rfl rfl rfl

/-- A call is made where the client acts. -/
theorem step_call {s s' : Sys μ ω} {op : Op μ} {world : ω} {now : UInt64}
    (h : s.step m (.call op world now) = some s') :
    s.clientActs = true ∧ s' = { s with world }.call m now op := by
  rw [Sys.step] at h
  split at h
  · rename_i hc
    exact ⟨hc, (Option.some.inj h).symm⟩
  · exact absurd h (by simp)

theorem sys_step_effect {s s' : Sys μ ω} {a : Act μ ω} (h : s.step m a = some s') :
    SchedEffect m s a s' := by
  cases a with
  | call op world now =>
    obtain ⟨hc, rfl⟩ := step_call h
    exact sys_call_effect hc op world now
  | ret world now =>
    rw [Sys.step, Sys.ret] at h
    dsimp only at h
    split at h
    · rename_i taktStart rest hs; exact Option.some.inj h ▸ .timersDone world now taktStart rest hs
    · rename_i taktStart rest hs; exact Option.some.inj h ▸ .eventsDone world now taktStart rest hs
    · rename_i taktStart modStart id rest hs
      exact Option.some.inj h ▸ .tickDone world now taktStart modStart id rest hs
    · rename_i rest hs; exact Option.some.inj h ▸ .overrunDone world now rest hs
    · rename_i rest hs; exact Option.some.inj h ▸ .requestDone world now rest hs
    · exact absurd h (by simp)
  | advance now =>
    rw [Sys.step] at h
    split at h
    · rename_i taktStart id rest hs
      rw [← Option.some.inj h, Sys.scan]
      split
      · rename_i e he
        cases hr : shouldRunModule m e s.world with
        | true => exact .tick now taktStart id rest hs e he hr
        | false => exact .skip now taktStart id rest hs e he hr
      · rename_i he
        dsimp only
        split
        · exact .overrun now taktStart id rest hs he _ _
        · exact .taktDone now taktStart id rest hs he
    · exact absurd h (by simp)

/-! ## The loops over the entries -/

/-- The module a call of `init()` is made for. -/
def initModule : Call μ → Option μ
  | .init _ module _ => some module
  | _ => none

/-- The module a call of `shutdown()` is made for. -/
def shutdownModule : Call μ → Option μ
  | .shutdown _ module => some module
  | _ => none

/-- The modules of the active entries among `es`. -/
def modulesOf (es : List (ModuleEntry μ)) : List μ :=
  (es.filter ModuleEntry.active).map ModuleEntry.module

theorem initModule_some {c : Call μ} {module : μ} (h : initModule c = some module) :
    ∃ id ok, c = .init id module ok := by
  cases c with
  | init id module' ok => exact ⟨id, ok, by rw [Option.some.inj h]⟩
  | _ => exact absurd h (by simp [initModule])

theorem shutdownModule_some {c : Call μ} {module : μ} (h : shutdownModule c = some module) :
    ∃ id, c = .shutdown id module := by
  cases c with
  | shutdown id module' => exact ⟨id, by rw [Option.some.inj h]⟩
  | _ => exact absurd h (by simp [shutdownModule])

/-- Calls that go over modules are all for one. -/
theorem pick_ne_none {pick : Call μ → Option μ} {cs : List (Call μ)} {modules : List μ}
    (h : cs.map pick = modules.map some) : ∀ c ∈ cs, pick c ≠ none := by
  intro c hc hn
  have hm : pick c ∈ cs.map pick := List.mem_map_of_mem hc
  rw [h, hn] at hm
  obtain ⟨_, _, hx⟩ := List.mem_map.mp hm
  exact absurd hx (by simp)

theorem modulesOf_cons (e : ModuleEntry μ) (es : List (ModuleEntry μ)) :
    modulesOf (e :: es) = if e.active then e.module :: modulesOf es else modulesOf es := by
  rw [modulesOf, List.filter_cons]
  split <;> rfl

theorem shutdownLoop_cons_active {e : ModuleEntry μ} (he : e.active = true) (id : Nat)
    (es : List (ModuleEntry μ)) (world : ω) :
    shutdownLoop m id (e :: es) world =
      (e.setState .shutdown :: (shutdownLoop m (id + 1) es (m.shutdown e.module world)).1,
        (shutdownLoop m (id + 1) es (m.shutdown e.module world)).2.1,
        .shutdown id e.module ::
          (shutdownLoop m (id + 1) es (m.shutdown e.module world)).2.2) := by
  rw [shutdownLoop, if_pos he]

theorem shutdownLoop_cons_inactive {e : ModuleEntry μ} (he : e.active = false) (id : Nat)
    (es : List (ModuleEntry μ)) (world : ω) :
    shutdownLoop m id (e :: es) world =
      (e :: (shutdownLoop m (id + 1) es world).1, (shutdownLoop m (id + 1) es world).2) := by
  rw [shutdownLoop, if_neg (by simp [he])]

theorem shutdownLoop_entries (es : List (ModuleEntry μ)) :
    ∀ (id : Nat) (world : ω), (shutdownLoop m id es world).1 =
      es.map fun e => if e.active then e.setState .shutdown else e := by
  induction es with
  | nil => intro id world; rfl
  | cons e es ih =>
    intro id world
    cases he : e.active with
    | true => rw [shutdownLoop_cons_active he, List.map_cons, if_pos he, ih]
    | false => rw [shutdownLoop_cons_inactive he, List.map_cons, if_neg (by simp [he]), ih]

theorem shutdownAll_entries (s : Sys μ ω) (stack : List Frame) :
    (s.shutdownAll m stack).sched.entries =
      s.sched.entries.map fun e => if e.active then e.setState .shutdown else e :=
  shutdownLoop_entries s.sched.entries 0 s.world

/-- `shutdownAll` calls `shutdown()` for the active entries, in their order. -/
theorem shutdownLoop_modules (es : List (ModuleEntry μ)) :
    ∀ (id : Nat) (world : ω),
      (shutdownLoop m id es world).2.2.map shutdownModule = (modulesOf es).map some := by
  induction es with
  | nil => intro id world; rfl
  | cons e es ih =>
    intro id world
    cases he : e.active with
    | true =>
      rw [shutdownLoop_cons_active he, modulesOf_cons, if_pos he, List.map_cons, List.map_cons, ih]
      rfl
    | false => rw [shutdownLoop_cons_inactive he, modulesOf_cons, if_neg (by simp [he]), ih]

theorem initLoop_cons_active {e : ModuleEntry μ} (he : e.active = true) (id : Nat)
    (es : List (ModuleEntry μ)) (world : ω) :
    (initLoop m id (e :: es) world).2 =
      (e.setState (if (m.init e.module world).1 then .ready else .error) ::
          (initLoop m (id + 1) es (m.init e.module world).2).2.1,
        (initLoop m (id + 1) es (m.init e.module world).2).2.2.1,
        .init id e.module (m.init e.module world).1 ::
          (initLoop m (id + 1) es (m.init e.module world).2).2.2.2) := by
  rw [initLoop, if_neg (by simp [he])]

theorem initLoop_cons_inactive {e : ModuleEntry μ} (he : e.active = false) (id : Nat)
    (es : List (ModuleEntry μ)) (world : ω) :
    (initLoop m id (e :: es) world).2 =
      (e :: (initLoop m (id + 1) es world).2.1, (initLoop m (id + 1) es world).2.2) := by
  rw [initLoop, if_pos (by simp [he])]

/-- `initAll` calls `init()` for the active entries, in their order. -/
theorem initLoop_modules (es : List (ModuleEntry μ)) :
    ∀ (id : Nat) (world : ω),
      (initLoop m id es world).2.2.2.map initModule = (modulesOf es).map some := by
  induction es with
  | nil => intro id world; rfl
  | cons e es ih =>
    intro id world
    cases he : e.active with
    | true =>
      rw [initLoop_cons_active he, modulesOf_cons, if_pos he, List.map_cons, List.map_cons, ih]
      rfl
    | false => rw [initLoop_cons_inactive he, modulesOf_cons, if_neg (by simp [he]), ih]

/-- What `initAll` makes of an entry, and the call it makes for it. -/
theorem initLoop_entry (es : List (ModuleEntry μ)) :
    ∀ (id : Nat) (world : ω) (j : Nat) (e' : ModuleEntry μ),
      (initLoop m id es world).2.1[j]? = some e' → ∃ e, es[j]? = some e ∧
        (e.active = false ∧ e' = e ∨ e.active = true ∧ ∃ ok,
          .init (id + j) e.module ok ∈ (initLoop m id es world).2.2.2 ∧
          e' = e.setState (if ok then .ready else .error)) := by
  induction es with
  | nil => intro id world j e' h; exact absurd h (by simp [initLoop])
  | cons e es ih =>
    intro id world j e' h
    cases he : e.active with
    | true =>
      rw [initLoop_cons_active he] at h ⊢
      cases j with
      | zero =>
        obtain rfl := Option.some.inj h
        exact ⟨e, rfl, .inr ⟨he, _, List.mem_cons_self, rfl⟩⟩
      | succ j =>
        obtain ⟨e₀, h₀, hcase⟩ := ih _ _ j e' h
        refine ⟨e₀, h₀, hcase.imp_right fun ⟨ha, ok, hm, hs⟩ => ⟨ha, ok, ?_, hs⟩⟩
        rw [Nat.add_right_comm] at hm
        exact List.mem_cons_of_mem _ hm
    | false =>
      rw [initLoop_cons_inactive he] at h ⊢
      cases j with
      | zero =>
        obtain rfl := Option.some.inj h
        exact ⟨e, rfl, .inl ⟨he, rfl⟩⟩
      | succ j =>
        obtain ⟨e₀, h₀, hcase⟩ := ih _ _ j e' h
        refine ⟨e₀, h₀, hcase.imp_right fun ⟨ha, ok, hm, hs⟩ => ⟨ha, ok, ?_, hs⟩⟩
        rw [Nat.add_right_comm] at hm
        exact hm

/-- The calls of `initAll` are of `init()`, for entries from `id` on. -/
theorem initLoop_calls (es : List (ModuleEntry μ)) :
    ∀ (id : Nat) (world : ω), ∀ c ∈ (initLoop m id es world).2.2.2, ∃ j e ok,
      es[j]? = some e ∧ c = .init (id + j) e.module ok := by
  induction es with
  | nil => intro id world c hc; exact absurd hc (by simp [initLoop])
  | cons e es ih =>
    intro id world c hc
    have hrest : ∀ {world : ω}, c ∈ (initLoop m (id + 1) es world).2.2.2 → ∃ j e₀ ok,
        (e :: es)[j]? = some e₀ ∧ c = .init (id + j) e₀.module ok := by
      intro world hc
      obtain ⟨j, e₀, ok, h₀, rfl⟩ := ih _ _ c hc
      exact ⟨j + 1, e₀, ok, h₀, by rw [Nat.add_right_comm, Nat.add_assoc]⟩
    cases he : e.active with
    | true =>
      rw [initLoop_cons_active he] at hc
      rcases List.mem_cons.mp hc with rfl | hc
      · exact ⟨0, e, _, rfl, rfl⟩
      · exact hrest hc
    | false =>
      rw [initLoop_cons_inactive he] at hc
      exact hrest hc

/-- The calls of an `initAll` are of `init()`, for entries. -/
theorem initCalls_mem {s : Sys μ ω} {world : ω} {c : Call μ}
    (hc : c ∈ initCalls m { s with world }) :
    ∃ j e ok, s.sched.entries[j]? = some e ∧ c = .init j e.module ok := by
  obtain ⟨j, e, ok, hj, rfl⟩ := initLoop_calls s.sched.entries 0 world c hc
  exact ⟨j, e, ok, hj, by rw [Nat.zero_add]⟩

/-- What an `initAll` makes of an entry, and the call it makes for it. -/
theorem initAll_entry {s : Sys μ ω} {world : ω} {i : Nat} {e' : ModuleEntry μ}
    (hi : (initLoop m 0 s.sched.entries world).2.1[i]? = some e') :
    ∃ e, s.sched.entries[i]? = some e ∧ (e.active = false ∧ e' = e ∨ e.active = true ∧ ∃ ok,
      .init i e.module ok ∈ initCalls m { s with world } ∧
      e' = e.setState (if ok then .ready else .error)) := by
  obtain ⟨e, hj, hcase⟩ := initLoop_entry s.sched.entries 0 world i e' hi
  rw [Nat.zero_add] at hcase
  exact ⟨e, hj, hcase⟩

theorem initLoop_length (es : List (ModuleEntry μ)) :
    ∀ (id : Nat) (world : ω), (initLoop m id es world).2.1.length = es.length := by
  induction es with
  | nil => intro id world; rfl
  | cons e es ih =>
    intro id world
    cases he : e.active with
    | true => rw [initLoop_cons_active he, List.length_cons, List.length_cons, ih]
    | false => rw [initLoop_cons_inactive he, List.length_cons, List.length_cons, ih]

/-- The calls of `shutdownAll` are of `shutdown()`, for entries from `id` on. -/
theorem shutdownLoop_calls (es : List (ModuleEntry μ)) :
    ∀ (id : Nat) (world : ω), ∀ c ∈ (shutdownLoop m id es world).2.2, ∃ j e,
      es[j]? = some e ∧ e.active = true ∧ c = .shutdown (id + j) e.module := by
  induction es with
  | nil => intro id world c hc; exact absurd hc (by simp [shutdownLoop])
  | cons e es ih =>
    intro id world c hc
    have hrest : ∀ {world : ω}, c ∈ (shutdownLoop m (id + 1) es world).2.2 → ∃ j e₀,
        (e :: es)[j]? = some e₀ ∧ e₀.active = true ∧ c = .shutdown (id + j) e₀.module := by
      intro world hc
      obtain ⟨j, e₀, h₀, ha, rfl⟩ := ih _ _ c hc
      exact ⟨j + 1, e₀, h₀, ha, by rw [Nat.add_right_comm, Nat.add_assoc]⟩
    cases he : e.active with
    | true =>
      rw [shutdownLoop_cons_active he] at hc
      rcases List.mem_cons.mp hc with rfl | hc
      · exact ⟨0, e, rfl, he, rfl⟩
      · exact hrest hc
    | false =>
      rw [shutdownLoop_cons_inactive he] at hc
      exact hrest hc

/-- The calls of a `shutdownAll` are of `shutdown()`, for active entries. -/
theorem shutdownCalls_mem {s : Sys μ ω} {world : ω} {c : Call μ}
    (hc : c ∈ shutdownCalls m { s with world }) :
    ∃ j e, s.sched.entries[j]? = some e ∧ e.active = true ∧ c = .shutdown j e.module := by
  obtain ⟨j, e, hj, ha, rfl⟩ := shutdownLoop_calls s.sched.entries 0 world c hc
  exact ⟨j, e, hj, ha, by rw [Nat.zero_add]⟩

theorem initCalls_modules (s : Sys μ ω) (world : ω) :
    (initCalls m { s with world }).map initModule = s.sched.activeModules.map some :=
  initLoop_modules s.sched.entries 0 world

theorem shutdownCalls_modules (s : Sys μ ω) (world : ω) :
    (shutdownCalls m { s with world }).map shutdownModule = s.sched.activeModules.map some :=
  shutdownLoop_modules s.sched.entries 0 world

theorem shutdownAll_log (s : Sys μ ω) (world : ω) (stack : List Frame) :
    ({ s with world }.shutdownAll m stack).log =
      s.log ++ .shutdownAll s.sched.activeModules :: shutdownCalls m { s with world } := rfl

theorem initCalls_quiet (s : Sys μ ω) (world : ω) (modules : List μ) :
    ∀ c ∈ .initAll modules :: initCalls m { s with world }, shutdownModule c = none := by
  intro c hc
  rcases List.mem_cons.mp hc with rfl | hc
  · rfl
  · obtain ⟨_, _, _, _, rfl⟩ := initCalls_mem hc
    rfl

/-! ## What the entries keep -/

section Keeps

variable {β : Type} {f : ModuleStats → β} {es : List (ModuleEntry μ)}

/-- The entries keep what `f` says of their statistics, and new ones have nothing counted. -/
structure Keeps (f : ModuleStats → β) (es es' : List (ModuleEntry μ)) : Prop where
  length : es.length ≤ es'.length
  entry : ∀ i e', es'[i]? = some e' →
    (∃ e, es[i]? = some e ∧ f e'.stats = f e.stats) ∨
      es.length ≤ i ∧ e'.stats = { state := .registered }

/-- What `f` says does not depend on the state. -/
def Stateless (f : ModuleStats → β) : Prop := ∀ (s : ModuleStats) state, f { s with state } = f s

theorem Keeps.refl (f : ModuleStats → β) (es : List (ModuleEntry μ)) : Keeps f es es :=
  ⟨Nat.le_refl _, fun _ e h => .inl ⟨e, h, rfl⟩⟩

/-- An entry that was there keeps it. -/
theorem Keeps.of_get {es' : List (ModuleEntry μ)} (h : Keeps f es es') {i : Nat}
    {e e' : ModuleEntry μ} (he : es[i]? = some e) (he' : es'[i]? = some e') :
    f e'.stats = f e.stats := by
  rcases h.entry i e' he' with ⟨e₀, h₀, hf⟩ | ⟨hlen, -⟩
  · rw [hf, Option.some.inj (he.symm.trans h₀)]
  · exact absurd (lt_of_getElem? he) (by omega)

theorem keeps_modify {id : Nat} {g : ModuleEntry μ → ModuleEntry μ}
    (hg : ∀ e, f (g e).stats = f e.stats) : Keeps f es (es.modify id g) where
  length := Nat.le_of_eq (List.length_modify ..).symm
  entry _ _ hi := .inl <|
    exists_of_modify (R := fun e e' => f e'.stats = f e.stats) (fun _ => rfl) hi fun e _ => hg e

theorem keeps_set {id : Nat} {e e₁ : ModuleEntry μ} (he : es[id]? = some e)
    (hf : f e₁.stats = f e.stats) : Keeps f es (es.set id e₁) where
  length := Nat.le_of_eq List.length_set.symm
  entry _ _ hi := .inl <|
    exists_of_set (R := fun e e' => f e'.stats = f e.stats) (fun _ => rfl) he hi hf

theorem keeps_registered (module : μ) :
    Keeps f es (es ++ [{ module, active := true, stats := { state := .registered } }]) := by
  refine ⟨by simp, fun i e' hi => ?_⟩
  rcases getElem?_concat.mp hi with hi | ⟨rfl, rfl⟩
  · exact .inl ⟨e', hi, rfl⟩
  · exact .inr ⟨Nat.le_refl _, rfl⟩

theorem keeps_initLoop (hf : Stateless f) (world : ω) :
    Keeps f es (initLoop m 0 es world).2.1 := by
  refine ⟨Nat.le_of_eq (initLoop_length es 0 world).symm, fun i e' hi => .inl ?_⟩
  obtain ⟨e, he, ⟨-, rfl⟩ | ⟨-, ok, -, rfl⟩⟩ := initLoop_entry es 0 world i e' hi
  · exact ⟨e', he, rfl⟩
  · exact ⟨e, he, hf e.stats _⟩

theorem keeps_shutdownAll (hf : Stateless f) (s : Sys μ ω) (stack : List Frame) :
    Keeps f s.sched.entries (s.shutdownAll m stack).sched.entries := by
  rw [shutdownAll_entries]
  refine ⟨Nat.le_of_eq (List.length_map _).symm, fun i e' hi => .inl ?_⟩
  rw [List.getElem?_map, Option.map_eq_some_iff] at hi
  obtain ⟨e, he, rfl⟩ := hi
  refine ⟨e, he, ?_⟩
  split
  · exact hf e.stats _
  · rfl

end Keeps

end TaktOS.Proof
