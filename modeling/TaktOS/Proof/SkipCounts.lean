import TaktOS.Proof.ModuleTicks

/-!
# Skips

The skips of a background module are to be its idle turns: it is in service and has no work.
`shouldRunModule` says no for three more reasons, a module that was unregistered, one that is not
initialized and one that was shut down, and `runTakt` asks again only whether the module is a
background one.

A background module in service is ready or running, so that the only reason left is that it has no
work. The skips are right in the runs whose turns skip no background module out of service. What a
takt counts for a module it counts at the module's turn, the one step of the takt that looks at it.
-/

namespace TaktOS.Proof

open TaktOS Scheduler Lib

variable {μ ω : Type} {m : IModule μ ω}

/-- What a call makes of whether the module of an entry is initialized and not shut down. -/
def upStep (id : Nat) (b : Bool) : Call μ → Bool
  | .init id' _ ok => if id' = id then ok else b
  | .shutdown id' _ => if id' = id then false else b
  | _ => b

/-- The latest `init()` for the entry returned true, with no `shutdown()` for it since. -/
def up (log : List (Call μ)) (id : Nat) : Bool := log.foldl (upStep id) false

/-- The turn of an entry that is registered, initialized, not shut down and without work. -/
def IdleTurn (m : IModule μ ω) (s : Sys μ ω) (id : Nat) : Act μ ω → Prop
  | .advance _ => (∃ taktStart rest, s.stack = .scanning taktStart id :: rest) ∧
      ∃ e, s.sched.entries[id]? = some e ∧ m.type e.module s.world = .background ∧
        e.active = true ∧ up s.log id = true ∧ m.hasWork e.module s.world = false
  | _ => False

/-- A step counts one skip for the entry whose idle turn it is, and none for the others. -/
def CountsIdle (m : IModule μ ω) (s : Sys μ ω) (a : Act μ ω) : Prop :=
  ∀ s', s.step m a = some s' → ∀ id e e', s.sched.entries[id]? = some e →
    s'.sched.entries[id]? = some e' →
    (IdleTurn m s id a → e'.stats.skipCount = e.stats.skipCount + 1) ∧
    (¬IdleTurn m s id a → e'.stats.skipCount = e.stats.skipCount)

/-- A turn does not skip a background module that is not initialized or was shut down. -/
def SkipsInService (m : IModule μ ω) (s : Sys μ ω) : Act μ ω → Prop
  | .advance _ => ∀ taktStart id rest e, s.stack = .scanning taktStart id :: rest →
      s.sched.entries[id]? = some e → m.type e.module s.world = .background →
      shouldRunModule m e s.world = false → up s.log id = true
  | _ => True

/-- The entry is one that `runTakt` looks at further. -/
def Runnable (e : ModuleEntry μ) : Prop := e.active = true ∧ Schedulable e

/-- The entries against the calls of `init()` and `shutdown()` for them. -/
structure UpLaw (s : Sys μ ω) : Prop where
  entry : ∀ i e, s.sched.entries[i]? = some e → up s.log i = true → Runnable e
  unused : ∀ i, s.sched.entries.length ≤ i → up s.log i = false

/-! ## The calls for an entry -/

theorem upStep_other {id : Nat} {c : Call μ} (h : ¬concerns id c) (b : Bool) :
    upStep id b c = b := by
  cases c with
  | init id' module ok => exact if_neg h
  | shutdown id' module => exact if_neg h
  | _ => rfl

theorem foldl_other {id : Nat} {cs : List (Call μ)} (h : ∀ c ∈ cs, ¬concerns id c) (b : Bool) :
    cs.foldl (upStep id) b = b :=
  foldl_unchanged fun c hc => upStep_other (h c hc) b

theorem up_append (log cs : List (Call μ)) (id : Nat) :
    up (log ++ cs) id = cs.foldl (upStep id) (up log id) := by
  rw [up, List.foldl_append, ← up]

/-- After an `initAll` an active entry is up where its state says so. -/
theorem initLoop_up (es : List (ModuleEntry μ)) :
    ∀ (id : Nat) (world : ω) (i : Nat) (e' : ModuleEntry μ) (b : Bool),
      (initLoop m id es world).2.1[i]? = some e' →
      (initLoop m id es world).2.2.2.foldl (upStep (id + i)) b =
        if e'.active then decide (e'.stats.state = .ready) else b := by
  induction es with
  | nil => intro id world i e' b h; exact absurd h (by simp [initLoop])
  | cons e es ih =>
    intro id world i e' b h
    have hrest : ∀ world : ω, ∀ c ∈ (initLoop m (id + 1) es world).2.2.2, ¬concerns id c := by
      intro world c hc hcon
      obtain ⟨j, _, _, -, rfl⟩ := initLoop_calls es (id + 1) world c hc
      have heq : id + 1 + j = id := hcon
      omega
    cases he : e.active with
    | true =>
      rw [initLoop_cons_active he] at h ⊢
      rw [List.foldl_cons]
      cases i with
      | zero =>
        obtain rfl := Option.some.inj h
        have hhead : ∀ ok, upStep (id + 0) b (.init id e.module ok) = ok := fun ok => if_pos rfl
        have hact : ∀ state, (e.setState state).active = true := fun _ => he
        rw [hhead, Nat.add_zero, foldl_other (hrest _), if_pos (hact _)]
        cases (m.init e.module world).1 <;> rfl
      | succ i =>
        rw [upStep_other (show ¬concerns (id + (i + 1)) _ from fun hcon => by
          have heq : id = id + (i + 1) := hcon
          omega), Nat.add_comm i 1, ← Nat.add_assoc]
        exact ih _ _ i e' b h
    | false =>
      rw [initLoop_cons_inactive he] at h ⊢
      cases i with
      | zero =>
        obtain rfl := Option.some.inj h
        rw [Nat.add_zero, foldl_other (hrest _), if_neg (by simp [he])]
      | succ i =>
        rw [Nat.add_comm i 1, ← Nat.add_assoc]
        exact ih _ _ i e' b h

/-- After a `shutdownAll` no entry that was active is up. -/
theorem shutdownLoop_up (es : List (ModuleEntry μ)) :
    ∀ (id : Nat) (world : ω) (i : Nat) (e : ModuleEntry μ) (b : Bool), es[i]? = some e →
      (shutdownLoop m id es world).2.2.foldl (upStep (id + i)) b =
        if e.active then false else b := by
  induction es with
  | nil => intro id world i e b h; exact absurd h (by simp)
  | cons e₀ es ih =>
    intro id world i e b h
    have hrest : ∀ world : ω, ∀ c ∈ (shutdownLoop m (id + 1) es world).2.2, ¬concerns id c := by
      intro world c hc hcon
      obtain ⟨j, _, -, -, rfl⟩ := shutdownLoop_calls es (id + 1) world c hc
      have heq : id + 1 + j = id := hcon
      omega
    cases he : e₀.active with
    | true =>
      rw [shutdownLoop_cons_active he, List.foldl_cons]
      cases i with
      | zero =>
        obtain rfl := Option.some.inj h
        have hhead : upStep (id + 0) b (.shutdown id e₀.module) = false := if_pos rfl
        rw [hhead, Nat.add_zero, foldl_other (hrest _), if_pos he]
      | succ i =>
        rw [upStep_other (show ¬concerns (id + (i + 1)) _ from fun hcon => by
          have heq : id = id + (i + 1) := hcon
          omega), Nat.add_comm i 1, ← Nat.add_assoc]
        exact ih _ _ i e b h
    | false =>
      rw [shutdownLoop_cons_inactive he]
      cases i with
      | zero =>
        obtain rfl := Option.some.inj h
        rw [Nat.add_zero, foldl_other (hrest _), if_neg (by simp [he])]
      | succ i =>
        rw [Nat.add_comm i 1, ← Nat.add_assoc]
        exact ih _ _ i e b h

/-! ## A module in service is runnable -/

/-- An entry becomes no less than runnable. -/
def StaysRunnable (e e' : ModuleEntry μ) : Prop := Runnable e → Runnable e'

theorem StaysRunnable.refl (e : ModuleEntry μ) : StaysRunnable e e := fun h => h

/-- A step that calls neither `init()` nor `shutdown()`, and makes no entry less than runnable. -/
theorem UpLaw.frame {s s' : Sys μ ω} {cs : List (Call μ)} (h : UpLaw s)
    (he : ∀ (i : Nat) (e' : ModuleEntry μ), s'.sched.entries[i]? = some e' →
      ∃ e, s.sched.entries[i]? = some e ∧ StaysRunnable e e')
    (hlen : s.sched.entries.length ≤ s'.sched.entries.length) (hl : s'.log = s.log ++ cs)
    (hcs : ∀ c ∈ cs, neutral c = true) : UpLaw s' := by
  have hup : ∀ i, up s'.log i = up s.log i := fun i => by
    rw [hl, up_append, foldl_other fun c hc => not_concerns_neutral (hcs c hc) i]
  constructor
  · intro i e' hi hu
    obtain ⟨e, hi', hrun⟩ := he i e' hi
    exact hrun (h.entry i e hi' (hup i ▸ hu))
  · intro i hi
    rw [hup]
    exact h.unused i (Nat.le_trans hlen hi)

theorem runnable_skip (e : ModuleEntry μ) (world : ω) :
    StaysRunnable e (Scheduler.skip m e world) := by
  intro h
  have ha := alike_skip (m := m) e world
  exact ⟨ha.active.trans h.1, ha.schedulable.mpr h.2⟩

theorem registered_upLaw {s : Sys μ ω} (h : UpLaw s) (module : μ) (world : ω) :
    UpLaw { s with
      sched := { s.sched with entries := s.sched.entries ++
        [{ module, active := true, stats := { state := .registered } }] }
      world } := by
  constructor
  · intro i e hi hu
    rcases getElem?_concat.mp hi with hi | ⟨rfl, -⟩
    · exact h.entry i e hi hu
    · exact absurd (h.unused _ (Nat.le_refl _)) (by simp [show up s.log _ = true from hu])
  · intro i hi
    rw [List.length_append] at hi
    exact h.unused i (by omega)

theorem removed_upLaw {s : Sys μ ω} (h : UpLaw s) {id : Nat} {e : ModuleEntry μ} {world : ω}
    (he : s.sched.entries[id]? = some e) :
    UpLaw { s with
      sched := s.sched.removeEntry id e
      world
      log := s.log ++ [.unregisterModule e.module, .shutdown id e.module] } := by
  have hother : ∀ i, i ≠ id →
      up (s.log ++ [.unregisterModule e.module, .shutdown id e.module]) i = up s.log i := by
    intro i hne
    rw [up_append, List.foldl_cons, List.foldl_cons, List.foldl_nil]
    exact if_neg (Ne.symm hne)
  have hself : up (s.log ++ [.unregisterModule e.module, .shutdown id e.module]) id = false := by
    rw [up_append, List.foldl_cons, List.foldl_cons, List.foldl_nil]
    exact if_pos rfl
  constructor
  · intro i e' hi hu
    by_cases heq : i = id
    · subst heq
      exact absurd hu (by simp [hself])
    · dsimp only at hi hu
      rw [removeEntry, List.getElem?_set_ne (Ne.symm heq)] at hi
      rw [hother i heq] at hu
      exact h.entry i e' hi hu
  · intro i hi
    dsimp only at hi ⊢
    rw [removeEntry, List.length_set] at hi
    have hlt := lt_of_getElem? he
    rw [hother i (by omega)]
    exact h.unused i hi

theorem initAll_upLaw {s : Sys μ ω} (h : UpLaw s) (world : ω) :
    UpLaw { s with
      sched := { s.sched with entries := (initLoop m 0 s.sched.entries world).2.1 }
      world := (initLoop m 0 s.sched.entries world).2.2.1
      log := s.log ++ .initAll s.sched.activeModules :: initCalls m { s with world } } := by
  have hup : ∀ i, up (s.log ++ .initAll s.sched.activeModules :: initCalls m { s with world }) i =
      (initCalls m { s with world }).foldl (upStep i) (up s.log i) := fun i => by
    rw [up_append, List.foldl_cons]
    rfl
  constructor
  · intro i e' hi hu
    dsimp only at hi hu
    have hloop := initLoop_up s.sched.entries 0 world i e' (up s.log i) hi
    rw [Nat.zero_add] at hloop
    rw [hup, initCalls, hloop] at hu
    obtain ⟨e, he, hcase⟩ := initAll_entry hi
    rcases hcase with ⟨hina, rfl⟩ | ⟨hact, ok, -, rfl⟩
    · rw [if_neg (by simp [hina])] at hu
      exact h.entry i e' he hu
    · have hact' : (e.setState (if ok = true then .ready else .error)).active = true := hact
      rw [if_pos hact', decide_eq_true_iff] at hu
      exact ⟨hact', .inl hu⟩
  · intro i hi
    dsimp only at hi ⊢
    rw [initLoop_length] at hi
    rw [hup, foldl_other, h.unused i hi]
    intro c hc hcon
    obtain ⟨j, _, _, hj, rfl⟩ := initCalls_mem hc
    have heq : j = i := hcon
    have hlt := lt_of_getElem? hj
    omega

theorem shutdownAll_upLaw {s : Sys μ ω} (h : UpLaw s) (world : ω) (stack : List Frame) :
    UpLaw ({ s with world }.shutdownAll m stack) := by
  have hup : ∀ i, up ({ s with world }.shutdownAll m stack).log i =
      (shutdownCalls m { s with world }).foldl (upStep i) (up s.log i) := fun i => by
    rw [shutdownAll_log, up_append, List.foldl_cons]
    rfl
  constructor
  · intro i e' hi hu
    rw [shutdownAll_entries, List.getElem?_map, Option.map_eq_some_iff] at hi
    obtain ⟨e, he, rfl⟩ := hi
    have hloop := shutdownLoop_up (m := m) s.sched.entries 0 world i e (up s.log i) he
    rw [Nat.zero_add] at hloop
    rw [hup, shutdownCalls, hloop] at hu
    cases hact : e.active with
    | true =>
      rw [if_pos hact] at hu
      exact absurd hu (by decide)
    | false =>
      rw [if_neg (by simp [hact])] at hu ⊢
      exact h.entry i e he hu
  · intro i hi
    rw [shutdownAll_entries, List.length_map] at hi
    rw [hup, foldl_other, h.unused i hi]
    intro c hc hcon
    obtain ⟨j, _, hj, -, rfl⟩ := shutdownCalls_mem hc
    have heq : j = i := hcon
    have hlt := lt_of_getElem? hj
    exact absurd hi (by simp only; omega)

/-- **Every step keeps the modules in service runnable.** -/
theorem effect_upLaw {s s' : Sys μ ω} {a : Act μ ω} (h : SchedEffect m s a s') (hu : UpLaw s) :
    UpLaw s' := by
  have hsame : ∀ (i : Nat) (e' : ModuleEntry μ), s.sched.entries[i]? = some e' →
      ∃ e, s.sched.entries[i]? = some e ∧ StaysRunnable e e' :=
    fun _ e' hi => ⟨e', hi, .refl e'⟩
  have hlen := Nat.le_refl s.sched.entries.length
  have hnil : s.log = s.log ++ [] := (List.append_nil _).symm
  cases h with
  | quiet op world now hca hq s' he hw hs hl =>
    exact hu.frame (he ▸ hsame) (he ▸ hlen) (hl.trans hnil) (by simp)
  | registered module world => exact registered_upLaw hu module world
  | removed id world now hca e he => exact removed_upLaw hu he
  | initAll world => exact initAll_upLaw hu world
  | shutdownAll world => exact shutdownAll_upLaw hu world s.stack
  | requestDone world now rest => exact shutdownAll_upLaw hu world rest
  | runTakt | requestShutdown | timersDone => exact hu.frame hsame hlen rfl (by simp [neutral])
  | eventsDone | overrunDone | taktDone => exact hu.frame hsame hlen hnil (by simp)
  | overrun => exact hu.frame hsame hlen rfl (by simp [neutral])
  | tickDone world now taktStart modStart id rest hs =>
    exact hu.frame
      (fun _ _ hi => exists_of_modify StaysRunnable.refl hi fun _ _ h => ⟨h.1, .inl rfl⟩)
      (Nat.le_of_eq (List.length_modify ..).symm) hnil (by simp)
  | tick now taktStart id rest hs e he hr =>
    exact hu.frame (fun _ _ hi => exists_of_set StaysRunnable.refl he hi fun h => ⟨h.1, .inr rfl⟩)
      (Nat.le_of_eq List.length_set.symm) rfl (by simp [neutral])
  | skip now taktStart id rest hs e he hr =>
    exact hu.frame (fun _ _ hi => exists_of_set StaysRunnable.refl he hi (runnable_skip e _))
      (Nat.le_of_eq List.length_set.symm) hnil (by simp)

/-! ## What is counted -/

theorem shouldRunModule_runnable {e : ModuleEntry μ} {world : ω} (h : Runnable e)
    (ht : m.type e.module world = .background) :
    shouldRunModule m e world = m.hasWork e.module world := by
  have hstate : ¬(e.stats.state ≠ .ready ∧ e.stats.state ≠ .running) := fun hn =>
    h.2.elim hn.1 hn.2
  rw [shouldRunModule, if_neg (by simp [h.1]), if_neg hstate, if_pos ht]

theorem skip_skipCount {e : ModuleEntry μ} {world : ω} (ht : m.type e.module world = .background) :
    (Scheduler.skip m e world).stats.skipCount = e.stats.skipCount + 1 := by
  rw [Scheduler.skip, if_pos ht]

theorem skip_other {e : ModuleEntry μ} {world : ω} (ht : m.type e.module world ≠ .background) :
    Scheduler.skip m e world = e := by
  rw [Scheduler.skip, if_neg ht]

/-- Only a turn that skips changes what is counted. -/
theorem effect_skipCounts {s s' : Sys μ ω} {a : Act μ ω} (h : SchedEffect m s a s') :
    Keeps ModuleStats.skipCount s.sched.entries s'.sched.entries ∨
      ∃ now taktStart id rest e, a = .advance now ∧ s.stack = .scanning taktStart id :: rest ∧
        s.sched.entries[id]? = some e ∧ shouldRunModule m e s.world = false ∧
        s'.sched.entries = s.sched.entries.set id (Scheduler.skip m e s.world) := by
  have hf : Stateless ModuleStats.skipCount := fun _ _ => rfl
  cases h with
  | quiet op world now hca hq s' he => exact .inl (he ▸ .refl _ _)
  | registered module => exact .inl (keeps_registered module)
  | removed id world now hca e he => exact .inl (keeps_set he rfl)
  | initAll world => exact .inl (keeps_initLoop hf world)
  | shutdownAll world => exact .inl (keeps_shutdownAll hf { s with world } _)
  | requestDone world => exact .inl (keeps_shutdownAll hf { s with world } _)
  | tickDone world now taktStart modStart id rest hs => exact .inl (keeps_modify fun _ => rfl)
  | tick now taktStart id rest hs e he => exact .inl (keeps_set he rfl)
  | skip now taktStart id rest hs e he hr =>
    exact .inr ⟨now, taktStart, id, rest, e, rfl, hs, he, hr, rfl⟩
  | runTakt | requestShutdown | timersDone | eventsDone | overrunDone | overrun | taktDone =>
    exact .inl (.refl _ _)

/-- The module whose idle turn it is gets skipped. -/
theorem IdleTurn.skipped {s s' : Sys μ ω} {a : Act μ ω} {id : Nat} (h : IdleTurn m s id a)
    (heff : SchedEffect m s a s') : ∃ e, s.sched.entries[id]? = some e ∧
      m.type e.module s.world = .background ∧
      s'.sched.entries = s.sched.entries.set id (Scheduler.skip m e s.world) := by
  cases heff with
  | tick now taktStart id' rest hs e he hr =>
    obtain ⟨⟨taktStart', rest', hs'⟩, e', he', ht, hact, -, hwork⟩ := h
    obtain ⟨⟨-, rfl⟩, -⟩ := by simpa using hs.symm.trans hs'
    obtain rfl := Option.some.inj (he.symm.trans he')
    rw [shouldRunModule_runnable ⟨hact, (shouldRunModule_spec hr).2⟩ ht, hwork] at hr
    exact absurd hr (by decide)
  | skip now taktStart id' rest hs e he hr =>
    obtain ⟨⟨taktStart', rest', hs'⟩, e', he', ht, -⟩ := h
    obtain ⟨⟨-, rfl⟩, -⟩ := by simpa using hs.symm.trans hs'
    obtain rfl := Option.some.inj (he.symm.trans he')
    exact ⟨e, he, ht, rfl⟩
  | overrun now taktStart id' rest hs he | taktDone now taktStart id' rest hs he =>
    obtain ⟨⟨taktStart', rest', hs'⟩, e', he', -⟩ := h
    obtain ⟨⟨-, rfl⟩, -⟩ := by simpa using hs.symm.trans hs'
    exact absurd (he.symm.trans he') (by simp)
  | _ => exact h.elim

theorem add_one_ne (n : UInt32) : n + 1 ≠ n := by
  intro h
  have hone : 1 + n - n = n - n := by rw [UInt32.add_comm, h]
  rw [UInt32.add_sub_cancel, UInt32.sub_self] at hone
  exact absurd hone (by decide)

/-- **A step counts idle turns only where it skips no background module out of service.** -/
theorem countsIdle_iff {s : Sys μ ω} (hu : UpLaw s) (a : Act μ ω) :
    CountsIdle m s a ↔ SkipsInService m s a := by
  constructor
  · intro h
    cases a with
    | call | ret => trivial
    | advance now =>
      intro taktStart id rest e hs he ht hr
      refine Classical.byContradiction fun hdown => ?_
      have hstep : s.step m (.advance now) = some { s with
          sched := { s.sched with
            entries := s.sched.entries.set id (Scheduler.skip m e s.world) }
          stack := .scanning taktStart (id + 1) :: rest } := by
        rw [Sys.step, hs]
        dsimp only
        rw [Sys.scan, he]
        dsimp only
        rw [if_neg (by simp [hr])]
      have hget : (s.sched.entries.set id (Scheduler.skip m e s.world))[id]? =
          some (Scheduler.skip m e s.world) := List.getElem?_set_self (lt_of_getElem? he)
      have hsame := (h _ hstep id e _ he hget).2 fun hidle => by
        obtain ⟨-, e', -, -, -, hup, -⟩ := hidle
        exact hdown hup
      rw [skip_skipCount ht] at hsame
      exact add_one_ne _ hsame
  · intro h s' hstep id e e' he he'
    have heff := sys_step_effect hstep
    constructor
    · intro hidle
      obtain ⟨e₀, he₀, ht, hentries⟩ := hidle.skipped heff
      obtain rfl := Option.some.inj (he.symm.trans he₀)
      rw [hentries, List.getElem?_set_self (lt_of_getElem? he)] at he'
      rw [← Option.some.inj he', skip_skipCount ht]
    · intro hidle
      rcases effect_skipCounts heff with hkeeps | ⟨now, taktStart, id', rest, e₀, rfl, hs, he₀,
          hr, hentries⟩
      · exact hkeeps.of_get he he'
      · rw [hentries] at he'
        by_cases heq : id' = id
        · subst heq
          obtain rfl := Option.some.inj (he.symm.trans he₀)
          rw [List.getElem?_set_self (lt_of_getElem? he)] at he'
          rw [← Option.some.inj he']
          by_cases ht : m.type e.module s.world = .background
          · have hup : up s.log id' = true := h taktStart id' rest e hs he ht hr
            have hrun : Runnable e := hu.entry id' e he hup
            have hwork : m.hasWork e.module s.world = false :=
              (shouldRunModule_runnable hrun ht).symm.trans hr
            exact absurd ⟨⟨taktStart, rest, hs⟩, e, he, ht, hrun.1, hup, hwork⟩ hidle
          · rw [skip_other ht]
        · rw [List.getElem?_set_ne heq] at he'
          rw [Option.some.inj (he.symm.trans he')]

/--
**The skips of a run are the idle turns of background modules exactly when every turn that skips a
background module skips one whose latest `init()` returned true, with no `shutdown()` since.**
-/
theorem skips_idle_iff (m : IModule μ ω) (world : ω) (acts : List (Act μ ω)) :
    Along (Sys.step m) (CountsIdle m) { world } acts ↔
      Along (Sys.step m) (SkipsInService m) { world } acts := by
  have hinit : UpLaw ({ world } : Sys μ ω) :=
    ⟨fun i e hi => absurd hi (by simp), fun _ _ => rfl⟩
  exact along_iff_of_invariant UpLaw
    (fun _ _ _ hu _ hs => effect_upLaw (sys_step_effect hs) hu)
    (fun _ a hu => countsIdle_iff hu a) hinit

/-- A background module that always has work. -/
def busyModule : IModule Nat Unit where
  init _ _ := (true, ())
  shutdown _ _ := ()
  type _ _ := .background

/-- The takt after `unregisterModule` counts a skip for the module, which has work. -/
theorem unregistered_module_skipped :
    ¬Along (Sys.step busyModule) (CountsIdle busyModule) { world := () }
      [.call (.registerModule (some 7)) () 0, .call .initAll () 0,
        .call (.unregisterModule 0) () 0, .call .runTakt () 0, .ret () 0, .ret () 0,
        .advance 0] := by
  intro h
  have hlast := along_last (P := CountsIdle busyModule) [.call (.registerModule (some 7)) () 0,
    .call .initAll () 0, .call (.unregisterModule 0) () 0, .call .runTakt () 0, .ret () 0,
    .ret () 0] h rfl
  have hsame := (hlast _ rfl 0 _ _ rfl rfl).2 fun hidle => by
    obtain ⟨-, e, he, -, hact, -⟩ := hidle
    obtain rfl := Option.some.inj he
    exact absurd hact (by decide)
  exact absurd hsame (by decide)

end TaktOS.Proof
