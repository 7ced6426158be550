import TaktOS.Lib.History
import TaktOS.Proof.SchedulerSteps

/-!
# No tick after shutdown

A module is **live** when its latest `init()` returned true and its `shutdown()` has not been
called since. `runTakt` ticks an entry by its state alone, and writes `Ready` after `tick()`
returns, whatever happened in the meantime: a shutdown from inside the tick is forgotten.

The invariant has every entry that may be ticked be of a live module. A step keeps it unless it
shuts a module down, or fails to initialize it again, while its `tick()` is in progress or
while another entry has the module and stays as it is.
-/

namespace TaktOS.Proof

open TaktOS Scheduler Lib

variable {μ ω : Type} {m : IModule μ ω}

/-- The entries whose `tick()` is in progress. -/
def ticking (stack : List Frame) : List Nat :=
  stack.filterMap fun
    | .ticking _ _ id => some id
    | _ => none

/-- The entry is in a state that `runTakt` ticks. -/
def Schedulable (e : ModuleEntry μ) : Prop :=
  e.stats.state = .ready ∨ e.stats.state = .running

/-- The second of two calls of `init()` for one module does not fail when the first did not. -/
def NoLaterFailure (c c' : Call μ) : Prop :=
  ∀ id id' module ok, c = .init id module true → c' = .init id' module ok → ok = true

/-- A step shuts no module down in its own tick, and none that another entry goes on with. -/
def NotInTick (m : IModule μ ω) (s : Sys μ ω) : Act μ ω → Prop
  | .call (.unregisterModule id) _ _ => ∀ e, s.sched.entries[id.toNat]? = some e →
      id.toNat ∉ ticking s.stack ∧ ∀ j e', j ≠ id.toNat → s.sched.entries[j]? = some e' →
        e'.module = e.module → ¬Schedulable e'
  | .call .shutdownAll _ _ => ticking s.stack = []
  | .call .initAll world _ => (initCalls m { s with world }).Pairwise NoLaterFailure ∧
      ∀ id ∈ ticking s.stack, ∀ module, .init id module false ∉ initCalls m { s with world }
  | .ret _ _ => ∀ rest, s.stack = .requested :: rest → ticking rest = []
  | _ => True

/-- The call is of `init()` or `shutdown()` for entry `id`. -/
def concerns (id : Nat) : Call μ → Prop
  | .init id' _ _ => id' = id
  | .shutdown id' _ => id' = id
  | _ => False

/-- The call is neither of `init()` nor of `shutdown()`. -/
def neutral : Call μ → Bool
  | .init .. | .shutdown .. => false
  | _ => true

theorem not_concerns_neutral {c : Call μ} (h : neutral c = true) (id : Nat) :
    ¬concerns id c := by
  cases c <;> first | exact fun h' => h' | exact absurd h (by simp [neutral])

/-- The entry has its module and its place in the lifecycle as before. -/
structure Alike (e e' : ModuleEntry μ) : Prop where
  module : e'.module = e.module
  active : e'.active = e.active
  state : e'.stats.state = e.stats.state ∨ Schedulable e ∧ Schedulable e'

theorem Alike.refl (e : ModuleEntry μ) : Alike e e := ⟨rfl, rfl, .inl rfl⟩

theorem Alike.schedulable {e e' : ModuleEntry μ} (h : Alike e e') :
    Schedulable e' ↔ Schedulable e := by
  rcases h.state with hs | ⟨h1, h2⟩
  · rw [Schedulable, Schedulable, hs]
  · exact ⟨fun _ => h1, fun _ => h2⟩

theorem shouldRunModule_spec {e : ModuleEntry μ} {world : ω}
    (h : shouldRunModule m e world = true) : e.active = true ∧ Schedulable e := by
  rw [shouldRunModule] at h
  split at h
  · exact absurd h (by decide)
  · rename_i hact
    split at h
    · exact absurd h (by decide)
    · rename_i hst
      refine ⟨by simpa using hact, ?_⟩
      rw [Schedulable]
      exact Classical.or_iff_not_imp_left.mpr fun hr =>
        Classical.byContradiction fun hn => hst ⟨hr, hn⟩

theorem alike_skip (e : ModuleEntry μ) (world : ω) : Alike e (skip m e world) := by
  rw [skip]
  split <;> exact ⟨rfl, rfl, .inl rfl⟩

theorem not_schedulable {e : ModuleEntry μ} (h : e.stats.state = .shutdown ∨
    e.stats.state = .error ∨ e.stats.state = .registered) : ¬Schedulable e := by
  intro hs
  rw [Schedulable] at hs
  rcases h with h | h | h <;> rw [h] at hs <;> exact absurd hs (by decide)

variable [DecidableEq μ]

/-- What a call makes of whether a module is live. -/
def liveStep (module : μ) (b : Bool) : Call μ → Bool
  | .init _ module' ok => if module' = module then ok else b
  | .shutdown _ module' => if module' = module then false else b
  | _ => b

/-- The latest `init()` of the module returned true, and `shutdown()` was not called since. -/
def live (log : List (Call μ)) (module : μ) : Bool := log.foldl (liveStep module) false

/-- Every `tick()` on record was of a live module. -/
def TicksLive (log : List (Call μ)) : Prop :=
  ∀ t id module, log[t]? = some (.tick id module) → live (log.take t) module = true

/-- The entries against the calls on record. -/
structure TickLaw (s : Sys μ ω) : Prop where
  alive : ∀ {i : Nat} {e : ModuleEntry μ}, s.sched.entries[i]? = some e → Schedulable e →
    live s.log e.module = true
  inactive : ∀ {i : Nat} {e : ModuleEntry μ}, s.sched.entries[i]? = some e → e.active = false →
    e.stats.state = .shutdown
  inTick : ∀ id ∈ ticking s.stack, ∃ e, s.sched.entries[id]? = some e ∧ e.active = true ∧
    Schedulable e
  states : ∀ {i : Nat} {e : ModuleEntry μ}, s.sched.entries[i]? = some e →
    Schedulable e ∨ e.stats.state = .shutdown ∨ e.stats.state = .error ∨
      e.stats.state = .registered ∧ ∀ c ∈ s.log, ¬concerns i c
  unused : ∀ {i : Nat}, s.sched.entries.length ≤ i → ∀ c ∈ s.log, ¬concerns i c
  ticks : TicksLive s.log

theorem liveStep_neutral {c : Call μ} (h : neutral c = true) (module : μ) (b : Bool) :
    liveStep module b c = b := by
  cases c <;> first | rfl | exact absurd h (by simp [neutral])

theorem foldl_neutral {cs : List (Call μ)} (h : ∀ c ∈ cs, neutral c = true) (module : μ)
    (b : Bool) : cs.foldl (liveStep module) b = b :=
  foldl_unchanged fun c hc => liveStep_neutral (h c hc) module b

theorem live_append (log cs : List (Call μ)) (module : μ) :
    live (log ++ cs) module = cs.foldl (liveStep module) (live log module) := by
  rw [live, List.foldl_append, ← live]

/-- Ticks on record stay right, and new ones are of modules live when the calls began. -/
theorem TicksLive.append {log cs : List (Call μ)} (h : TicksLive log)
    (hcs : ∀ id module, .tick id module ∈ cs →
      live log module = true ∧ ∀ c ∈ cs, neutral c = true) : TicksLive (log ++ cs) := by
  intro t id module ht
  rw [List.getElem?_append] at ht
  split at ht
  · rename_i hlt
    rw [List.take_append_of_le_length (Nat.le_of_lt hlt)]
    exact h t id module ht
  · rename_i hge
    obtain ⟨hl, hn⟩ := hcs id module (List.mem_of_getElem? ht)
    rw [List.take_append, List.take_of_length_le (Nat.le_of_not_lt hge), live_append,
      foldl_neutral fun c hc => hn c (List.mem_of_mem_take hc)]
    exact hl

/-- A step that leaves every entry in its place and calls neither `init()` nor `shutdown()`. -/
theorem TickLaw.frame {s s' : Sys μ ω} {cs : List (Call μ)} (h : TickLaw s)
    (he : ∀ (i : Nat) (e' : ModuleEntry μ), s'.sched.entries[i]? = some e' →
      ∃ e, s.sched.entries[i]? = some e ∧ Alike e e')
    (hlen : s'.sched.entries.length = s.sched.entries.length) (hl : s'.log = s.log ++ cs)
    (hcs : ∀ c ∈ cs, neutral c = true)
    (ht : ∀ id module, .tick id module ∈ cs → live s.log module = true)
    (hs : ∀ id ∈ ticking s'.stack, id ∈ ticking s.stack ∨
      ∃ e, s.sched.entries[id]? = some e ∧ e.active = true ∧ Schedulable e) : TickLaw s' := by
  have hlive : ∀ module, live s'.log module = live s.log module := by
    intro module
    rw [hl, live_append, foldl_neutral hcs]
  have hold : ∀ i, (∀ c ∈ s.log, ¬concerns i c) → ∀ c ∈ s'.log, ¬concerns i c := by
    intro i hno c hc
    rw [hl, List.mem_append] at hc
    exact hc.elim (hno c) fun hc => not_concerns_neutral (hcs c hc) i
  constructor
  · intro i e' hi hsch
    obtain ⟨e, hi', ha⟩ := he i e' hi
    rw [hlive, ha.module]
    exact h.alive hi' (ha.schedulable.mp hsch)
  · intro i e' hi hina
    obtain ⟨e, hi', ha⟩ := he i e' hi
    have hstate := h.inactive hi' (ha.active ▸ hina)
    rcases ha.state with hst | ⟨hsch, -⟩
    · rw [hst, hstate]
    · rw [Schedulable, hstate] at hsch
      exact absurd hsch (by decide)
  · intro id hid
    obtain ⟨e, hi, hact, hsch⟩ := (hs id hid).elim (h.inTick id) fun h => h
    have hlt : id < s'.sched.entries.length := hlen ▸ lt_of_getElem? hi
    obtain ⟨e₀, hi₀, ha⟩ := he id _ (List.getElem?_eq_getElem hlt)
    obtain rfl := Option.some.inj (hi.symm.trans hi₀)
    exact ⟨_, List.getElem?_eq_getElem hlt, ha.active.trans hact, ha.schedulable.mpr hsch⟩
  · intro i e' hi
    obtain ⟨e, hi', ha⟩ := he i e' hi
    rcases ha.state with hst | ⟨-, hsch⟩
    · rw [Schedulable, hst, ← Schedulable]
      exact (h.states hi').imp_right (Or.imp_right (Or.imp_right (And.imp_right (hold i))))
    · exact .inl hsch
  · intro i hi
    exact hold i (h.unused (hlen ▸ hi))
  · rw [hl]
    exact h.ticks.append fun id module hm => ⟨ht id module hm, hcs⟩

/-! ## Steps that register, initialize or shut down -/

theorem registered_tickLaw {s : Sys μ ω} (h : TickLaw s) (module : μ) (world : ω) :
    TickLaw { s with
      sched := { s.sched with entries := s.sched.entries ++
        [{ module, active := true, stats := { state := .registered } }] }
      world } := by
  constructor
  · intro i e hi hsch
    rcases getElem?_concat.mp hi with hi | ⟨-, rfl⟩
    · exact h.alive hi hsch
    · exact absurd hsch (not_schedulable (.inr (.inr rfl)))
  · intro i e hi hina
    rcases getElem?_concat.mp hi with hi | ⟨-, rfl⟩
    · exact h.inactive hi hina
    · exact absurd hina (by simp)
  · intro id hid
    obtain ⟨e, hi, hact, hsch⟩ := h.inTick id hid
    exact ⟨e, getElem?_concat_of hi, hact, hsch⟩
  · intro i e hi
    rcases getElem?_concat.mp hi with hi | ⟨rfl, rfl⟩
    · exact h.states hi
    · exact .inr (.inr (.inr ⟨rfl, h.unused (Nat.le_refl _)⟩))
  · intro i hi
    rw [List.length_append] at hi
    exact h.unused (by omega)
  · exact h.ticks

/-- An `unregisterModule` of an entry that is not in its tick and alone goes on with its module. -/
theorem removed_tickLaw {s : Sys μ ω} (h : TickLaw s) {id : Nat} {e : ModuleEntry μ} {world : ω}
    (he : s.sched.entries[id]? = some e) (hid : id ∉ ticking s.stack)
    (hothers : ∀ j e', j ≠ id → s.sched.entries[j]? = some e' → e'.module = e.module →
      ¬Schedulable e') :
    TickLaw { s with
      sched := s.sched.removeEntry id e
      world
      log := s.log ++ [.unregisterModule e.module, .shutdown id e.module] } := by
  have hlt : id < s.sched.entries.length := lt_of_getElem? he
  have hget : ∀ {i : Nat} {e' : ModuleEntry μ}, (s.sched.removeEntry id e).entries[i]? = some e' →
      i ≠ id ∧ s.sched.entries[i]? = some e' ∨
        i = id ∧ e' = { e.setState .shutdown with active := false } := by
    intro i e' hi
    rw [removeEntry] at hi
    by_cases heq : i = id
    · rw [heq, List.getElem?_set_self hlt] at hi
      exact .inr ⟨heq, (Option.some.inj hi).symm⟩
    · rw [List.getElem?_set_ne (Ne.symm heq)] at hi
      exact .inl ⟨heq, hi⟩
  have hconc : ∀ i, i ≠ id → (∀ c ∈ s.log, ¬concerns i c) →
      ∀ c ∈ s.log ++ [.unregisterModule e.module, .shutdown id e.module], ¬concerns i c := by
    intro i hne hno c hc
    rcases List.mem_append.mp hc with hc | hc
    · exact hno c hc
    · rcases List.mem_cons.mp hc with rfl | hc
      · exact fun hf => hf
      · rw [List.mem_singleton.mp hc]
        exact fun hf => hne (Eq.symm hf)
  constructor
  · intro i e' hi hsch
    rcases hget hi with ⟨hne, hi⟩ | ⟨-, rfl⟩
    · have hmod : e.module ≠ e'.module := fun hm => hothers i e' hne hi hm.symm hsch
      rw [live_append]
      simp only [List.foldl_cons, List.foldl_nil, liveStep, if_neg hmod]
      exact h.alive hi hsch
    · exact absurd hsch (not_schedulable (.inl rfl))
  · intro i e' hi hina
    rcases hget hi with ⟨-, hi⟩ | ⟨-, rfl⟩
    · exact h.inactive hi hina
    · rfl
  · intro j hj
    obtain ⟨e', hi, hact, hsch⟩ := h.inTick j hj
    refine ⟨e', ?_, hact, hsch⟩
    rw [removeEntry, List.getElem?_set_ne (by rintro rfl; exact hid hj)]
    exact hi
  · intro i e' hi
    rcases hget hi with ⟨hne, hi⟩ | ⟨-, rfl⟩
    · exact (h.states hi).imp_right
        (Or.imp_right (Or.imp_right (And.imp_right (hconc i hne))))
    · exact .inr (.inl rfl)
  · intro i hi
    rw [removeEntry, List.length_set] at hi
    exact hconc i (by omega) (h.unused hi)
  · exact h.ticks.append (by simp)

/-- After calls of `init()` that all succeed for a module, a live one is live. -/
theorem foldl_init_true {cs : List (Call μ)} {module : μ}
    (hcs : ∀ c ∈ cs, ∃ id mod ok, c = .init id mod ok)
    (hok : ∀ id ok, .init id module ok ∈ cs → ok = true) :
    cs.foldl (liveStep module) true = true := by
  refine foldl_unchanged fun c hc => ?_
  obtain ⟨id, mod, ok, rfl⟩ := hcs c hc
  rw [liveStep]
  split
  · rename_i hm; exact hok id ok (hm ▸ hc)
  · rfl

/-- After calls of `init()` one of which succeeded for a module, and no later one failed. -/
theorem foldl_init_mem {cs : List (Call μ)} {module : μ} {id : Nat}
    (hcs : ∀ c ∈ cs, ∃ id mod ok, c = .init id mod ok) (hp : cs.Pairwise NoLaterFailure)
    (hm : .init id module true ∈ cs) : ∀ b, cs.foldl (liveStep module) b = true := by
  induction cs with
  | nil => exact absurd hm (by simp)
  | cons c cs ih =>
    intro b
    have hrest : ∀ c ∈ cs, ∃ id mod ok, c = .init id mod ok :=
      fun c hc => hcs c (List.mem_cons_of_mem _ hc)
    obtain ⟨hhead, htail⟩ := List.pairwise_cons.mp hp
    rw [List.foldl_cons]
    rcases List.mem_cons.mp hm with rfl | hm
    · rw [show liveStep module b (.init id module true) = true from if_pos rfl]
      exact foldl_init_true hrest fun id' ok hmem => hhead _ hmem id id' module ok rfl rfl
    · exact ih hrest htail hm _

theorem initAll_tickLaw {s : Sys μ ω} (h : TickLaw s) {world : ω}
    (hp : (initCalls m { s with world }).Pairwise NoLaterFailure)
    (hok : ∀ id ∈ ticking s.stack, ∀ module,
      .init id module false ∉ initCalls m { s with world }) :
    TickLaw { s with
      sched := { s.sched with entries := (initLoop m 0 s.sched.entries world).2.1 }
      world := (initLoop m 0 s.sched.entries world).2.2.1
      log := s.log ++ .initAll s.sched.activeModules :: initCalls m { s with world } } := by
  have hinit : ∀ c ∈ initCalls m { s with world }, ∃ id mod ok, c = .init id mod ok := by
    intro c hc
    obtain ⟨j, e, ok, -, rfl⟩ := initCalls_mem hc
    exact ⟨j, e.module, ok, rfl⟩
  constructor
  · intro i e' hi hsch
    obtain ⟨e, hj, ⟨hina, rfl⟩ | ⟨hact, ok, hm, rfl⟩⟩ := initAll_entry hi
    · exact absurd hsch (not_schedulable (.inl (h.inactive hj hina)))
    · cases ok with
      | false => exact absurd hsch (not_schedulable (.inr (.inl rfl)))
      | true => rw [live_append, List.foldl_cons]; exact foldl_init_mem hinit hp hm _
  · intro i e' hi hina
    obtain ⟨e, hj, ⟨-, rfl⟩ | ⟨hact, ok, -, rfl⟩⟩ := initAll_entry hi
    · exact h.inactive hj hina
    · exact absurd (hact.symm.trans hina) (by decide)
  · intro id hid
    obtain ⟨e, hi, hact, -⟩ := h.inTick id hid
    have hlt : id < (initLoop m 0 s.sched.entries world).2.1.length := by
      rw [initLoop_length]; exact lt_of_getElem? hi
    refine ⟨_, List.getElem?_eq_getElem hlt, ?_⟩
    obtain ⟨e₀, hj, hcase⟩ := initAll_entry (List.getElem?_eq_getElem hlt)
    obtain rfl := Option.some.inj (hi.symm.trans hj)
    rcases hcase with ⟨hina, -⟩ | ⟨-, ok, hm, heq⟩
    · exact absurd (hact.symm.trans hina) (by decide)
    · rw [heq]
      cases ok with
      | false => exact absurd hm (hok id hid e.module)
      | true => exact ⟨hact, .inl rfl⟩
  · intro i e' hi
    obtain ⟨e, hj, ⟨hina, rfl⟩ | ⟨-, ok, -, rfl⟩⟩ := initAll_entry hi
    · exact .inr (.inl (h.inactive hj hina))
    · cases ok with
      | false => exact .inr (.inr (.inl rfl))
      | true => exact .inl (.inl rfl)
  · intro i hi c hc
    rw [initLoop_length] at hi
    rcases List.mem_append.mp hc with hc | hc
    · exact h.unused hi c hc
    · rcases List.mem_cons.mp hc with rfl | hc
      · exact fun hf => hf
      · obtain ⟨j, e, ok, hj, rfl⟩ := initCalls_mem hc
        have hlt := lt_of_getElem? hj
        exact fun hf => absurd (show j = i from hf) (by omega)
  · refine h.ticks.append fun id module hm => ?_
    rcases List.mem_cons.mp hm with hm | hm
    · exact absurd hm (by simp)
    · obtain ⟨_, _, _, hc⟩ := hinit _ hm
      exact absurd hc (by simp)

/-- A `shutdownAll` while no tick is in progress. -/
theorem shutdownAll_tickLaw {s : Sys μ ω} (h : TickLaw s) {world : ω} {stack : List Frame}
    (hstack : ticking stack = []) :
    TickLaw ({ s with world }.shutdownAll m stack) := by
  have hstate : ∀ {i : Nat} {e' : ModuleEntry μ},
      ({ s with world }.shutdownAll m stack).sched.entries[i]? = some e' →
        e'.stats.state = .shutdown := by
    intro i e' hi
    rw [shutdownAll_entries, List.getElem?_map, Option.map_eq_some_iff] at hi
    obtain ⟨e, hj, rfl⟩ := hi
    cases he : e.active with
    | true => rfl
    | false => exact h.inactive hj he
  have hlen : ({ s with world }.shutdownAll m stack).sched.entries.length =
      s.sched.entries.length := by
    rw [shutdownAll_entries, List.length_map]
  constructor
  · intro i e' hi hsch
    exact absurd hsch (not_schedulable (.inl (hstate hi)))
  · intro i e' hi _
    exact hstate hi
  · intro id hid
    exact absurd (hstack ▸ (show id ∈ ticking stack from hid)) (by simp)
  · intro i e' hi
    exact .inr (.inl (hstate hi))
  · intro i hi c hc
    rw [hlen] at hi
    rcases List.mem_append.mp hc with hc | hc
    · exact h.unused hi c hc
    · rcases List.mem_cons.mp hc with rfl | hc
      · exact fun hf => hf
      · obtain ⟨j, e, hj, -, rfl⟩ := shutdownCalls_mem hc
        have hlt := lt_of_getElem? hj
        exact fun hf => absurd (show j = i from hf) (by omega)
  · refine h.ticks.append fun id module hm => ?_
    rcases List.mem_cons.mp hm with hm | hm
    · exact absurd hm (by simp)
    · obtain ⟨_, _, _, -, hc⟩ := shutdownCalls_mem hm
      exact absurd hc (by simp)

/-! ## Runs -/

/-- **The tick law is preserved by every step that meets the condition.** -/
theorem effect_tickLaw {s s' : Sys μ ω} {a : Act μ ω} (h : SchedEffect m s a s')
    (hc : NotInTick m s a) (ht : TickLaw s) : TickLaw s' := by
  have hsame : ∀ (i : Nat) (e' : ModuleEntry μ), s.sched.entries[i]? = some e' →
      ∃ e, s.sched.entries[i]? = some e ∧ Alike e e' := fun _ e' hi => ⟨e', hi, .refl e'⟩
  have hnil : s.log = s.log ++ [] := (List.append_nil _).symm
  cases h with
  | quiet op world now hca hq s' he hw hs hl =>
    exact ht.frame (he ▸ hsame) (congrArg _ he) (hl.trans hnil) (by simp) (by simp)
      fun id hid => .inl (hs ▸ hid)
  | registered module world now hca hn => exact registered_tickLaw ht module world
  | removed id world now hca e he =>
    obtain ⟨hid, hothers⟩ := hc e he
    exact removed_tickLaw ht he hid hothers
  | initAll world now hca => exact initAll_tickLaw ht hc.1 hc.2
  | runTakt world now hca =>
    exact ht.frame hsame rfl rfl (by simp [neutral]) (by simp) fun id hid => .inl hid
  | shutdownAll world now hca => exact shutdownAll_tickLaw ht hc
  | requestShutdown world now hca =>
    exact ht.frame hsame rfl rfl (by simp [neutral]) (by simp) fun id hid => .inl hid
  | timersDone world now taktStart rest hs =>
    exact ht.frame hsame rfl rfl (by simp [neutral]) (by simp) fun id hid => .inl (hs ▸ hid)
  | eventsDone world now taktStart rest hs =>
    exact ht.frame hsame rfl hnil (by simp) (by simp) fun id hid => .inl (hs ▸ hid)
  | tickDone world now taktStart modStart id rest hs =>
    refine ht.frame
      (fun _ _ hi => exists_of_modify Alike.refl hi fun e he => ⟨rfl, rfl, .inr ⟨?_, .inl rfl⟩⟩)
      (List.length_modify _ _ _) hnil (by simp) (by simp) fun j hj => .inl ?_
    · obtain ⟨e', he', -, hsch⟩ := ht.inTick id (hs ▸ List.mem_cons_self)
      exact Option.some.inj (he'.symm.trans he) ▸ hsch
    · rw [hs]
      exact List.mem_cons_of_mem _ hj
  | overrunDone world now rest hs =>
    exact ht.frame hsame rfl hnil (by simp) (by simp) fun id hid => .inl (hs ▸ hid)
  | requestDone world now rest hs => exact shutdownAll_tickLaw ht (hc rest hs)
  | tick now taktStart id rest hs e he hr =>
    obtain ⟨hact, hsch⟩ := shouldRunModule_spec hr
    refine ht.frame
      (fun _ _ hi => exists_of_set Alike.refl he hi ⟨rfl, rfl, .inr ⟨hsch, .inr rfl⟩⟩)
      List.length_set rfl (by simp [neutral]) ?_ ?_
    · intro id' module hm
      obtain ⟨-, rfl⟩ := Call.tick.inj (List.mem_singleton.mp hm)
      exact ht.alive he hsch
    · intro j hj
      rcases List.mem_cons.mp hj with rfl | hj
      · exact .inr ⟨e, he, hact, hsch⟩
      · exact .inl (hs ▸ hj)
  | skip now taktStart id rest hs e he hr =>
    exact ht.frame (fun _ _ hi => exists_of_set Alike.refl he hi (alike_skip e _))
      List.length_set hnil (by simp) (by simp)
      fun j hj => .inl (hs ▸ hj)
  | overrun now taktStart id rest hs he elapsedUs budgetUs =>
    exact ht.frame hsame rfl rfl (by simp [neutral]) (by simp) fun j hj => .inl (hs ▸ hj)
  | taktDone now taktStart id rest hs he =>
    exact ht.frame hsame rfl hnil (by simp) (by simp) fun j hj => .inl (hs ▸ hj)

theorem fresh_tickLaw (world : ω) : TickLaw ({ world } : Sys μ ω) := by
  refine ⟨fun hi => ?_, fun hi => ?_, fun id hid => ?_, fun hi => ?_, fun _ c hc => ?_, ?_⟩
  · exact absurd hi (by simp)
  · exact absurd hi (by simp)
  · exact absurd hid (by simp [ticking])
  · exact absurd hi (by simp)
  · exact absurd hc (by simp)
  · intro t id module ht
    exact absurd ht (by simp)

/--
**In a run whose steps meet the condition, every tick is of a live module**, and an entry of a
module that is not live reads as shut down or failed, or as registered when neither `init()`
nor `shutdown()` was called for it yet.
-/
theorem ticks_live {world : ω} {acts : List (Act μ ω)} {s : Sys μ ω}
    (h : run (Sys.step m) { world } acts = some s)
    (hc : Along (Sys.step m) (NotInTick m) { world } acts) :
    (∀ t id module, s.log[t]? = some (.tick id module) → live (s.log.take t) module = true) ∧
      ∀ i e, s.sched.entries[i]? = some e → live s.log e.module = false →
        e.stats.state = .shutdown ∨ e.stats.state = .error ∨
          e.stats.state = .registered ∧ ∀ c ∈ s.log, ¬concerns i c := by
  have ht : TickLaw s := run_invariant TickLaw
    (fun _ _ _ hi hp hs => effect_tickLaw (sys_step_effect hs) hp hi) (fresh_tickLaw world) hc h
  refine ⟨ht.ticks, fun i e hi hl => (ht.states hi).elim (fun hsch => ?_) fun h => h⟩
  exact absurd ((ht.alive hi hsch).symm.trans hl) (by decide)

/-- One takt, and a shutdown after it. -/
theorem ticks_live_one : ∃ s : Sys Nat Unit,
    run (Sys.step plainModule) { world := () } [.call (.registerModule (some 7)) () 0,
      .call .initAll () 0, .call .runTakt () 0, .ret () 0, .ret () 0, .advance 0, .ret () 0,
      .advance 0, .call .shutdownAll () 0] = some s ∧
    ∀ i e, s.sched.entries[i]? = some e → live s.log e.module = false →
      e.stats.state = .shutdown ∨ e.stats.state = .error ∨
        e.stats.state = .registered ∧ ∀ c ∈ s.log, ¬concerns i c := by
  have h : run (Sys.step plainModule) { world := () } [.call (.registerModule (some 7)) () 0,
      .call .initAll () 0, .call .runTakt () 0, .ret () 0, .ret () 0, .advance 0, .ret () 0,
      .advance 0, .call .shutdownAll () 0] = some _ := rfl
  refine ⟨_, h, (ticks_live h ?_).2⟩
  refine .cons rfl trivial <| .cons rfl ⟨List.pairwise_singleton _ _, fun _ hid => ?_⟩ <|
    .cons rfl trivial <| .cons rfl ?_ <| .cons rfl ?_ <| .cons rfl trivial <| .cons rfl ?_ <|
    .cons rfl trivial <| .cons rfl rfl trivial
  · exact absurd hid List.not_mem_nil
  all_goals exact fun rest hs => absurd (List.cons.inj hs).1 (by simp)

/-- A module that calls `shutdownAll` in its tick is ticked again in the next takt. -/
theorem ticks_after_shutdown : ∃ s : Sys Nat Unit,
    run (Sys.step plainModule) { world := () } [.call (.registerModule (some 7)) () 0,
      .call .initAll () 0, .call .runTakt () 0, .ret () 0, .ret () 0, .advance 0,
      .call .shutdownAll () 0, .ret () 0, .advance 0,
      .call .runTakt () 0, .ret () 0, .ret () 0, .advance 0] = some s ∧
    s.log = [.initAll [7], .init 0 7 true, .timers 1, .events, .tick 0 7, .shutdownAll [7],
      .shutdown 0 7, .timers 1, .events, .tick 0 7] ∧
    live (s.log.take 9) 7 = false :=
  ⟨_, rfl, rfl, rfl⟩

end TaktOS.Proof
