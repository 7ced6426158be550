import TaktOS.Proof.SchedulerSteps

/-!
# Room for modules

`registerModule` takes the next entry of the table and `unregisterModule` gives none back: it leaves
the entry where it is, inactive, and the count of entries only grows. So there is always room for
the first 48 modules, and after them there is none, whatever was removed. The modules themselves are
kept apart at all times, since an entry is never used for another module.
-/

namespace TaktOS.Proof

open TaktOS Scheduler Lib

variable {μ ω : Type} {m : IModule μ ω}

/-! ## Runs next to what was registered -/

/-- A module is registered, or refused. -/
def registersModule : Act μ ω → Bool
  | .call (.registerModule (some _)) _ _ => true
  | _ => false

/-- One of the modules that were taken is removed, when there were `n` to register. -/
def removesModule (n : Nat) : Act μ ω → Bool
  | .call (.unregisterModule id) _ _ => id.toNat < min n kMaxModules
  | _ => false

/-- The scheduler, with how many modules there were to register and whether one was removed. -/
structure RegistryHistory (μ ω : Type) where
  sys : Sys μ ω
  registered : Nat := 0
  removed : Bool := false

def registryStep (m : IModule μ ω) (s : RegistryHistory μ ω) (a : Act μ ω) :
    Option (RegistryHistory μ ω) :=
  (s.sys.step m a).map fun sys =>
    { sys
      registered := if registersModule a then s.registered + 1 else s.registered
      removed := s.removed || removesModule s.registered a }

/-- `unregisterModule` of the id shuts the module down, takes it out of service and leaves the other
entries as they are. -/
def RemovesOnly (m : IModule μ ω) (s : Sys μ ω) (id : UInt16) (module : μ) : Prop :=
  ∀ world now s', s.step m (.call (.unregisterModule id) world now) = some s' →
    (∃ e, s'.sched.entries[id.toNat]? = some e ∧ e.module = module ∧ e.active = false) ∧
    (∀ j, j ≠ id.toNat → s'.sched.entries[j]? = s.sched.entries[j]?) ∧
    s'.log = s.log ++ [.unregisterModule module, .shutdown id.toNat module]

/-- The module is in service under the id, which no other module in service has, and from then on
can be removed by it. -/
structure Registered (m : IModule μ ω) (s s' : Sys μ ω) (module : μ) (id : UInt16) : Prop where
  valid : id ≠ kInvalidModuleId
  unused : ∀ e, s.sched.entries[id.toNat]? = some e → e.active = false
  entered : ∃ e, s'.sched.entries[id.toNat]? = some e ∧ e.module = module ∧ e.active = true
  removable : ∀ acts t, run (Sys.step m) s' acts = some t → RemovesOnly m t id module

/-- **A module is registered whenever fewer than 48 are in service.** -/
def KeepsCapacity (m : IModule μ ω) (s : RegistryHistory μ ω) (a : Act μ ω) : Prop :=
  ∀ module world now s', a = .call (.registerModule (some module)) world now →
    s.sys.step m a = some s' → s.sys.sched.activeModules.length < kMaxModules →
    Registered m s.sys s' module (s.sys.sched.registerModule (some module)).1

/-- A module is registered only as one of the first 48, or if none of those was removed. -/
def RegistersEarly (s : RegistryHistory μ ω) (a : Act μ ω) : Prop :=
  s.sys.clientActs = true → registersModule a = true →
    s.registered < kMaxModules ∨ s.removed = false

theorem call_of_registers {a : Act μ ω} (h : registersModule a = true) :
    ∃ module world now, a = .call (.registerModule (some module)) world now := by
  cases a with
  | call op world now =>
    cases op with
    | registerModule module =>
      cases module with
      | none => exact Bool.noConfusion h
      | some module => exact ⟨module, world, now, rfl⟩
    | _ => exact Bool.noConfusion h
  | _ => exact Bool.noConfusion h

theorem call_of_removes {n : Nat} {a : Act μ ω} (h : removesModule n a = true) :
    ∃ id world now, a = .call (.unregisterModule id) world now ∧ id.toNat < min n kMaxModules := by
  cases a with
  | call op world now =>
    cases op with
    | unregisterModule id => exact ⟨id, world, now, rfl, of_decide_eq_true h⟩
    | _ => exact Bool.noConfusion h
  | _ => exact Bool.noConfusion h

/-! ## What a step does to the table -/

/-- The module of an entry, and whether it is in service. -/
def occupant (e : ModuleEntry μ) : μ × Bool := (e.module, e.active)

theorem initLoop_occupants (es : List (ModuleEntry μ)) :
    ∀ (id : Nat) (world : ω), (initLoop m id es world).2.1.map occupant = es.map occupant := by
  induction es with
  | nil => intro id world; rfl
  | cons e es ih =>
    intro id world
    cases he : e.active with
    | true => rw [initLoop_cons_active he, List.map_cons, List.map_cons, ih]; rfl
    | false => rw [initLoop_cons_inactive he, List.map_cons, List.map_cons, ih]

theorem shutdownAll_occupants (s : Sys μ ω) (stack : List Frame) :
    (s.shutdownAll m stack).sched.entries.map occupant = s.sched.entries.map occupant := by
  rw [shutdownAll_entries, List.map_map]
  refine List.map_congr_left fun e _ => ?_
  rw [Function.comp_apply]
  split <;> rfl

/-- **A step enters a module behind the others, takes one out of service, or does neither.** -/
theorem effect_occupants {s s' : Sys μ ω} {a : Act μ ω} (h : SchedEffect m s a s') :
    (∃ module, registersModule a = true ∧ s.sched.entries.length < kMaxModules ∧
        s'.sched.entries.map occupant = s.sched.entries.map occupant ++ [(module, true)]) ∨
      (∃ id world now e, a = .call (.unregisterModule id) world now ∧
        s.sched.entries[id.toNat]? = some e ∧
        s'.sched.entries.map occupant =
          (s.sched.entries.map occupant).set id.toNat (e.module, false)) ∨
      (s'.sched.entries.map occupant = s.sched.entries.map occupant ∧
        (registersModule a = true → kMaxModules ≤ s.sched.entries.length) ∧
        ∀ id world now, a = .call (.unregisterModule id) world now →
          s.sched.entries.length ≤ id.toNat) := by
  have hnone : ∀ {b : Bool}, b = false → b = true → kMaxModules ≤ s.sched.entries.length :=
    fun hf ht => absurd (hf.symm.trans ht) (by decide)
  cases h with
  | registered module world now hc hn =>
    exact .inl ⟨module, rfl, hn, by rw [List.map_append]; rfl⟩
  | removed id world now hc e he =>
    exact .inr (.inl ⟨id, world, now, e, rfl, he, by rw [removeEntry, List.map_set]; rfl⟩)
  | quiet op world now hc hq s' he =>
    refine .inr (.inr ⟨by rw [he], fun hreg => ?_, fun id world' now' ha => ?_⟩)
    · obtain ⟨module, _, _, ha⟩ := call_of_registers hreg
      obtain ⟨rfl, -, -⟩ := Act.call.inj ha
      exact hq.resolve_left (by simp)
    · obtain ⟨rfl, -, -⟩ := Act.call.inj ha
      exact List.getElem?_eq_none_iff.mp hq
  | initAll world =>
    exact .inr (.inr ⟨initLoop_occupants _ _ _, hnone rfl, fun _ _ _ ha => nomatch ha⟩)
  | shutdownAll world =>
    exact .inr (.inr ⟨shutdownAll_occupants _ _, hnone rfl, fun _ _ _ ha => nomatch ha⟩)
  | requestDone world =>
    exact .inr (.inr ⟨shutdownAll_occupants _ _, hnone rfl, fun _ _ _ ha => nomatch ha⟩)
  | tickDone world =>
    refine .inr (.inr ⟨map_modify_same ?_ _ _, hnone rfl, fun _ _ _ ha => nomatch ha⟩)
    exact fun _ => rfl
  | tick now taktStart id rest hs e he =>
    exact .inr (.inr ⟨map_set_same he rfl, hnone rfl, fun _ _ _ ha => nomatch ha⟩)
  | skip now taktStart id rest hs e he =>
    refine .inr (.inr ⟨map_set_same he ?_, hnone rfl, fun _ _ _ ha => nomatch ha⟩)
    rw [Scheduler.skip]
    split <;> rfl
  | runTakt | requestShutdown | timersDone | eventsDone | overrunDone | overrun | taktDone =>
    exact .inr (.inr ⟨rfl, hnone rfl, fun _ _ _ ha => nomatch ha⟩)

/-- **An entry is for one module**, whatever happens later. -/
theorem effect_module {s s' : Sys μ ω} {a : Act μ ω} (h : SchedEffect m s a s') {i : Nat}
    {module : μ} (hi : s.sched.entries[i]?.map ModuleEntry.module = some module) :
    s'.sched.entries[i]?.map ModuleEntry.module = some module := by
  have hmodule : ∀ es : List (ModuleEntry μ),
      es[i]?.map ModuleEntry.module = (es.map occupant)[i]?.map Prod.fst := by
    intro es
    rw [List.getElem?_map, Option.map_map]
    rfl
  rw [hmodule] at hi ⊢
  rcases effect_occupants h with ⟨new, -, -, heq⟩ | ⟨id, world, now, e, -, he, heq⟩ | ⟨heq, -, -⟩
  · obtain ⟨p, hp, hfst⟩ := Option.map_eq_some_iff.mp hi
    rw [heq, getElem?_concat_of hp]
    exact congrArg some hfst
  · rw [heq, List.getElem?_set]
    split
    · rename_i hid
      rw [← hid, List.getElem?_map, he] at hi
      rw [if_pos (by rw [List.length_map]; exact lt_of_getElem? he)]
      exact hi
    · exact hi
  · rw [heq]
    exact hi

theorem run_module {s t : Sys μ ω} {acts : List (Act μ ω)} {i : Nat} {module : μ}
    (hi : s.sched.entries[i]?.map ModuleEntry.module = some module)
    (h : run (Sys.step m) s acts = some t) :
    t.sched.entries[i]?.map ModuleEntry.module = some module :=
  run_preserves (fun s => s.sched.entries[i]?.map ModuleEntry.module = some module)
    (fun _ _ _ hi hs => effect_module (sys_step_effect hs) hi) hi h

/-- **The module of an entry is removed by its id**, and no other. -/
theorem removesOnly_of_module {s : Sys μ ω} {id : UInt16} {module : μ}
    (hi : s.sched.entries[id.toNat]?.map ModuleEntry.module = some module) :
    RemovesOnly m s id module := by
  intro world now s' hs
  obtain ⟨e, he, rfl⟩ := Option.map_eq_some_iff.mp hi
  obtain ⟨-, rfl⟩ := step_call hs
  rw [Sys.call]
  dsimp only
  rw [he]
  dsimp only
  refine ⟨⟨_, List.getElem?_set_self (lt_of_getElem? he), rfl, rfl⟩, fun j hj => ?_, rfl⟩
  rw [removeEntry, List.getElem?_set_ne (Ne.symm hj)]

/-! ## The law -/

/-- The entries are those of the first 48 modules, and the inactive ones are those removed. -/
structure CapacityLaw (s : RegistryHistory μ ω) : Prop where
  length : s.sys.sched.entries.length = min s.registered kMaxModules
  removed : s.removed = true ↔ ∃ e ∈ s.sys.sched.entries, e.active = false

theorem exists_inactive_iff (es : List (ModuleEntry μ)) :
    (∃ e ∈ es, e.active = false) ↔ ∃ p ∈ es.map occupant, p.2 = false := by
  constructor
  · rintro ⟨e, he, ha⟩
    exact ⟨_, List.mem_map_of_mem he, ha⟩
  · rintro ⟨p, hp, ha⟩
    obtain ⟨e, he, rfl⟩ := List.mem_map.mp hp
    exact ⟨e, he, ha⟩

theorem capacityLaw_step {s s' : RegistryHistory μ ω} {a : Act μ ω} (hl : CapacityLaw s)
    (h : registryStep m s a = some s') : CapacityLaw s' := by
  obtain ⟨sys, hstep, rfl⟩ := Option.map_eq_some_iff.mp h
  have hlen : ∀ es : List (ModuleEntry μ), es.length = (es.map occupant).length := fun es =>
    (List.length_map _).symm
  rcases effect_occupants (sys_step_effect hstep) with ⟨module, hreg, hroom, heq⟩
    | ⟨id, world, now, e, rfl, he, heq⟩ | ⟨heq, hfull, hnone⟩
  · have hkept : removesModule s.registered a = false := by
      obtain ⟨module, world, now, rfl⟩ := call_of_registers hreg
      rfl
    have hl₁ := hl.length
    constructor
    · show _ = min (if registersModule a then s.registered + 1 else s.registered) kMaxModules
      rw [hlen, heq, List.length_append, List.length_singleton, ← hlen, if_pos hreg]
      omega
    · show (s.removed || removesModule s.registered a) = true ↔ _
      rw [hkept, Bool.or_false, hl.removed, exists_inactive_iff, exists_inactive_iff, heq]
      simp
  · have hlt := lt_of_getElem? he
    constructor
    · show sys.sched.entries.length = _
      rw [hlen, heq, List.length_set, ← hlen]
      exact hl.length
    · have hremoves : removesModule s.registered (.call (.unregisterModule id) world now
          : Act μ ω) = true := decide_eq_true (hl.length ▸ hlt)
      show (s.removed || removesModule s.registered _) = true ↔ _
      rw [hremoves, Bool.or_true, exists_inactive_iff, heq]
      exact ⟨fun _ => ⟨_, List.mem_set (by rw [← hlen]; exact hlt) _, rfl⟩, fun _ => rfl⟩
  · constructor
    · show _ = min (if registersModule a then s.registered + 1 else s.registered) kMaxModules
      rw [hlen, heq, ← hlen, hl.length]
      split
      · rename_i hreg
        have hmax := hfull hreg
        rw [hl.length] at hmax
        omega
      · rfl
    · have hkept : removesModule s.registered a = false := by
        refine Bool.eq_false_iff.mpr fun hrem => ?_
        obtain ⟨id, world, now, rfl, hlt⟩ := call_of_removes hrem
        have hle := hnone id world now rfl
        rw [hl.length] at hle
        exact absurd hlt (Nat.not_lt.mpr hle)
      show (s.removed || removesModule s.registered a) = true ↔ _
      rw [hkept, Bool.or_false, hl.removed, exists_inactive_iff, exists_inactive_iff, heq]

/-! ## When there is room -/

theorem activeModules_length (s : Scheduler μ) :
    s.activeModules.length = s.entries.countP ModuleEntry.active := by
  rw [activeModules, List.length_map, List.countP_eq_length_filter]

/-- A table in which a module was removed counts fewer than its entries. -/
theorem activeModules_lt_iff (s : Scheduler μ) :
    s.activeModules.length < s.entries.length ↔ ∃ e ∈ s.entries, e.active = false := by
  have hle := s.entries.countP_le_length (p := ModuleEntry.active)
  have heq := s.entries.countP_eq_length (p := ModuleEntry.active)
  rw [activeModules_length]
  constructor
  · intro hlt
    refine Classical.byContradiction fun hno => Nat.ne_of_lt hlt (heq.mpr fun e he => ?_)
    exact Bool.not_eq_false _ |>.mp fun ha => hno ⟨e, he, ha⟩
  · rintro ⟨e, he, ha⟩
    refine Nat.lt_of_le_of_ne hle fun hall => ?_
    exact absurd ((heq.mp hall e he).symm.trans ha) (by decide)

/-- **With room for one more entry the module is registered.** -/
theorem registered_of_room {s s' : Sys μ ω} {module : μ} {world : ω} {now : UInt64}
    (hroom : s.sched.entries.length < kMaxModules)
    (h : s.step m (.call (.registerModule (some module)) world now) = some s') :
    Registered m s s' module (s.sched.registerModule (some module)).1 := by
  have hid : (s.sched.registerModule (some module)).1 = UInt16.ofNat s.sched.entries.length := by
    rw [registerModule, if_neg (Nat.not_le.mpr hroom)]
  have hnat : (UInt16.ofNat s.sched.entries.length).toNat = s.sched.entries.length := by
    rw [UInt16.toNat_ofNat']
    exact Nat.mod_eq_of_lt (Nat.lt_trans hroom (by decide))
  have hget : s'.sched.entries[s.sched.entries.length]? =
      some { module, active := true, stats := { state := .registered } } := by
    obtain ⟨-, rfl⟩ := step_call h
    rw [Sys.call, registerModule]
    dsimp only
    rw [if_neg (Nat.not_le.mpr hroom)]
    exact getElem?_concat.mpr (.inr ⟨rfl, rfl⟩)
  rw [hid]
  refine ⟨fun hbad => ?_, fun e he => ?_, ?_, fun acts t ht => ?_⟩
  · have hnum := congrArg UInt16.toNat hbad
    rw [hnat] at hnum
    exact absurd (hnum ▸ hroom) (by decide)
  · rw [hnat] at he
    exact absurd (lt_of_getElem? he) (Nat.lt_irrefl _)
  · exact ⟨_, hnat ▸ hget, rfl, rfl⟩
  · refine removesOnly_of_module (run_module ?_ ht)
    rw [hnat, hget]
    rfl

/-- **A registration is refused with room left** exactly as the 49th or later, after a removal. -/
theorem keepsCapacity_iff {s : RegistryHistory μ ω} (hl : CapacityLaw s) (a : Act μ ω) :
    KeepsCapacity m s a ↔ RegistersEarly s a := by
  constructor
  · intro h hca hreg
    obtain ⟨module, world, now, rfl⟩ := call_of_registers hreg
    refine Classical.byContradiction fun hlate => ?_
    obtain ⟨hmany, hremoved⟩ := not_or.mp hlate
    have hfull : s.sys.sched.entries.length = kMaxModules := by
      rw [hl.length]
      exact Nat.min_eq_right (Nat.le_of_not_lt hmany)
    have hactive : s.sys.sched.activeModules.length < kMaxModules := by
      rw [← hfull, activeModules_lt_iff]
      exact hl.removed.mp (Bool.not_eq_false _ |>.mp hremoved)
    have hstep : s.sys.step m (.call (.registerModule (some module)) world now) =
        some ({ s.sys with world }.call m now (.registerModule (some module))) := by
      rw [Sys.step, if_pos hca]
    refine (h module world now _ rfl hstep hactive).valid ?_
    rw [registerModule, if_pos (Nat.le_of_eq hfull.symm)]
  · rintro h module world now s' rfl hstep hactive
    obtain ⟨hca, -⟩ := step_call hstep
    refine registered_of_room (Nat.lt_of_not_le fun hfull => ?_) hstep
    rcases h hca rfl with hfew | hkept
    · rw [hl.length] at hfull
      omega
    · have hsome := (activeModules_lt_iff s.sys.sched).mp (Nat.lt_of_lt_of_le hactive hfull)
      exact absurd ((hl.removed.mpr hsome).symm.trans hkept) (by decide)

/--
**When capacity is not leaked.** In a run every module that is registered with fewer than 48 in
service gets an id of its own, by which it alone is removed later, exactly if every registration is
one of the first 48 or comes before any of those modules was removed.
-/
theorem capacity_kept_iff (m : IModule μ ω) (world : ω) (acts : List (Act μ ω)) :
    Along (registryStep m) (KeepsCapacity m) { sys := { world } } acts ↔
      Along (registryStep m) RegistersEarly { sys := { world } } acts :=
  along_iff_of_invariant CapacityLaw (fun _ _ _ hl _ hs => capacityLaw_step hl hs)
    (fun _ a hl => keepsCapacity_iff hl a) ⟨rfl, by simp⟩

/-- 48 modules are registered, and one of them is removed. -/
def removalFromFull : List (Act Nat Unit) :=
  (List.range 48).map (fun i => .call (.registerModule (some i)) () 0) ++
    [.call (.unregisterModule 0) () 0]

/-- **With 47 modules in service the next one is refused.** -/
theorem capacity_leaked :
    ¬Along (registryStep plainModule) (KeepsCapacity plainModule) { sys := { world := () } }
      (removalFromFull ++ [.call (.registerModule (some 48)) () 0]) := by
  intro h
  have hrun : (run (registryStep plainModule) { sys := { world := () } } removalFromFull).map
      (fun t => (t.registered, t.removed, t.sys.clientActs)) = some (48, true, true) := by
    decide +kernel
  obtain ⟨t, ht, hfacts⟩ := Option.map_eq_some_iff.mp hrun
  obtain ⟨hmany, hremoved, hca⟩ := by simpa using hfacts
  have hl : CapacityLaw t := run_preserves CapacityLaw
    (fun _ _ _ hl hs => capacityLaw_step hl hs) ⟨rfl, by simp⟩ ht
  rcases (keepsCapacity_iff hl _).mp (along_last _ h ht) hca rfl with hfew | hkept
  · exact absurd (hmany ▸ hfew) (by decide)
  · exact absurd (hremoved.symm.trans hkept) (by decide)

end TaktOS.Proof
