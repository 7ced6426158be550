import TaktOS.Sdk.TaktSdk

/-!
# Modules of the SDK

Every entry that `takt_register_module` creates has the one adapter for its module, and the
adapter has the descriptor of the first call. A refusal of the scheduler reaches the client as
the 16-bit sentinel, which is not -1.
-/

namespace TaktOS.Proof

open TaktOS Sdk Scheduler Lib

variable {μ φ γ : Type}

/-- `takt_register_module` for one descriptor after another. -/
def registerAll (s : Registrar μ φ γ) (descs : List (TaktModule φ γ)) : Registrar μ φ γ :=
  descs.foldl (fun s d => (s.taktRegisterModule (some d)).2) s

/-- A call for `desc`, from `before` to `after`, and what its entry does at the end. -/
structure FaithfulCall (others : μ → Methods φ γ) (desc : TaktModule φ γ) (result : Int)
    (before after last : Registrar μ φ γ) : Prop where
  refused : result = -1 ↔ after.sched.entries.length = before.sched.entries.length
  created : after.sched.entries.length ≠ before.sched.entries.length →
    result = before.sched.entries.length ∧
      ∃ e, last.sched.entries[before.sched.entries.length]? = some e ∧
        last.methods others e.module = some (SdkModuleAdapter.methods desc)

/-- Every call creates an entry of its descriptor, or returns -1. -/
def FaithfulRegistration (others : μ → Methods φ γ) (s : Registrar μ φ γ)
    (descs : List (TaktModule φ γ)) : Prop :=
  ∀ before desc after, descs = before ++ desc :: after →
    let t := registerAll s before
    FaithfulCall others desc (t.taktRegisterModule (some desc)).1 t
      (t.taktRegisterModule (some desc)).2 (registerAll s descs)

/-- The calls fit into the scheduler, and their descriptors do what the first does. -/
def FitsAsFirst (entries : Nat) (descs : List (TaktModule φ γ)) : Prop :=
  (descs ≠ [] → entries + descs.length ≤ kMaxModules) ∧
    ∀ first ∈ descs.head?, ∀ d ∈ descs,
      SdkModuleAdapter.methods d = SdkModuleAdapter.methods first

/-! ## One call -/

/-- The entry of the adapter. -/
def adapterEntry : ModuleEntry (Module μ) :=
  { module := .adapter, active := true, stats := { state := .registered } }

theorem taktRegisterModule_room {s : Registrar μ φ γ} (h : s.sched.entries.length < kMaxModules)
    (d : TaktModule φ γ) :
    (s.taktRegisterModule (some d)).1 = s.sched.entries.length ∧
      (s.taktRegisterModule (some d)).2.sched.entries = s.sched.entries ++ [adapterEntry] := by
  rw [Registrar.taktRegisterModule, registerModule, if_neg (Nat.not_le_of_lt h)]
  have hlt : s.sched.entries.length < 2 ^ 16 := Nat.lt_trans h (by decide)
  refine ⟨?_, rfl⟩
  dsimp only
  rw [UInt16.toNat_ofNat', Nat.mod_eq_of_lt hlt]

theorem taktRegisterModule_full {s : Registrar μ φ γ} (h : kMaxModules ≤ s.sched.entries.length)
    (d : TaktModule φ γ) :
    (s.taktRegisterModule (some d)).1 = 65535 ∧
      (s.taktRegisterModule (some d)).2.sched.entries = s.sched.entries := by
  rw [Registrar.taktRegisterModule, registerModule, if_pos h]
  exact ⟨rfl, rfl⟩

/-! ## All calls -/

theorem registerAll_cons (s : Registrar μ φ γ) (d : TaktModule φ γ)
    (descs : List (TaktModule φ γ)) :
    registerAll s (d :: descs) = registerAll (s.taktRegisterModule (some d)).2 descs := rfl

theorem registerAll_adapter (descs : List (TaktModule φ γ)) :
    ∀ s : Registrar μ φ γ, (registerAll s descs).adapter = s.adapter.or descs.head? := by
  induction descs with
  | nil => intro s; cases hs : s.adapter <;> exact hs
  | cons d descs ih =>
    intro s
    rw [registerAll_cons, ih]
    cases hs : s.adapter <;> simp [Registrar.taktRegisterModule, hs]

/-- Entries stay where they are. -/
theorem registerAll_kept {i : Nat} {e : ModuleEntry (Module μ)} (descs : List (TaktModule φ γ)) :
    ∀ {s : Registrar μ φ γ}, s.sched.entries[i]? = some e →
      (registerAll s descs).sched.entries[i]? = some e := by
  induction descs with
  | nil => intro s h; exact h
  | cons d descs ih =>
    intro s h
    rw [registerAll_cons]
    refine ih ?_
    by_cases hn : s.sched.entries.length < kMaxModules
    · rw [(taktRegisterModule_room hn d).2]
      exact List.getElem?_append_left (List.getElem?_eq_some_iff.mp h).1 ▸ h
    · rw [(taktRegisterModule_full (Nat.le_of_not_lt hn) d).2]
      exact h

/-- The entries there are after the calls. -/
theorem registerAll_length (descs : List (TaktModule φ γ)) :
    ∀ s : Registrar μ φ γ, s.sched.entries.length ≤ kMaxModules →
      (registerAll s descs).sched.entries.length =
        min kMaxModules (s.sched.entries.length + descs.length) := by
  induction descs with
  | nil => intro s h; exact (Nat.min_eq_right h).symm
  | cons d descs ih =>
    intro s h
    rw [registerAll_cons, List.length_cons]
    by_cases hn : s.sched.entries.length < kMaxModules
    · have hlen : (s.taktRegisterModule (some d)).2.sched.entries.length =
          s.sched.entries.length + 1 := by
        rw [(taktRegisterModule_room hn d).2, List.length_append, List.length_singleton]
      rw [ih _ (by omega), hlen]
      omega
    · have hlen : (s.taktRegisterModule (some d)).2.sched.entries.length =
          s.sched.entries.length := by
        rw [(taktRegisterModule_full (Nat.le_of_not_lt hn) d).2]
      rw [ih _ (by omega), hlen]
      omega

theorem registerAll_append (s : Registrar μ φ γ) (before after : List (TaktModule φ γ)) :
    registerAll s (before ++ after) = registerAll (registerAll s before) after :=
  List.foldl_append ..

section Registration

variable {others : μ → Methods φ γ} {s : Registrar μ φ γ} {descs : List (TaktModule φ γ)}

/-- The adapter's methods after the calls are those of the first descriptor. -/
theorem registerAll_methods (hs : s.adapter = none) :
    (registerAll s descs).methods others .adapter =
      descs.head?.map SdkModuleAdapter.methods := by
  rw [Registrar.methods, registerAll_adapter, hs]
  rfl

/-- A call before which the scheduler has room. -/
theorem room_of_split {before after : List (TaktModule φ γ)} {desc : TaktModule φ γ}
    (hsplit : descs = before ++ desc :: after)
    (hfits : s.sched.entries.length + descs.length ≤ kMaxModules) :
    (registerAll s before).sched.entries.length < kMaxModules := by
  rw [hsplit, List.length_append, List.length_cons] at hfits
  rw [registerAll_length before s (by omega)]
  omega

/-- The entry that a call with room creates is the adapter's, to the end. -/
theorem entry_of_split {before after : List (TaktModule φ γ)} {desc : TaktModule φ γ}
    (hsplit : descs = before ++ desc :: after)
    (hroom : (registerAll s before).sched.entries.length < kMaxModules) :
    (registerAll s descs).sched.entries[(registerAll s before).sched.entries.length]? =
      some adapterEntry := by
  rw [hsplit, registerAll_append, registerAll_cons]
  refine registerAll_kept after ?_
  rw [(taktRegisterModule_room hroom desc).2, List.getElem?_append_right (Nat.le_refl _),
    Nat.sub_self]
  rfl

/-- A refused call returns the sentinel, so faithful calls are not refused. -/
theorem fits_of_faithful (hn : s.sched.entries.length ≤ kMaxModules)
    (h : FaithfulRegistration others s descs) (hne : descs ≠ []) :
    s.sched.entries.length + descs.length ≤ kMaxModules := by
  refine Nat.le_of_not_lt fun hlong => ?_
  have hsplit := (List.dropLast_concat_getLast hne).symm
  have hfull : kMaxModules ≤ (registerAll s descs.dropLast).sched.entries.length := by
    rw [registerAll_length _ s hn, List.length_dropLast]
    omega
  have hcall := (h _ _ [] hsplit).refused
  rw [(taktRegisterModule_full hfull _).1, (taktRegisterModule_full hfull _).2] at hcall
  exact absurd (hcall.mpr rfl) (by decide)

/-- **The SDK registers modules faithfully when they fit and all do what the first does.** -/
theorem faithfulRegistration_iff (hs : s.adapter = none)
    (hn : s.sched.entries.length ≤ kMaxModules) :
    FaithfulRegistration others s descs ↔ FitsAsFirst s.sched.entries.length descs := by
  constructor
  · intro h
    refine ⟨fits_of_faithful hn h, fun first hfirst d hd => ?_⟩
    obtain ⟨before, after, hsplit⟩ := List.append_of_mem hd
    have hroom := room_of_split hsplit (fits_of_faithful hn h (List.ne_nil_of_mem hd))
    have hcall := (h before d after hsplit).created
    rw [(taktRegisterModule_room hroom d).2] at hcall
    obtain ⟨-, e, he, hm⟩ := hcall (by simp)
    cases (entry_of_split hsplit hroom).symm.trans he
    rw [show (adapterEntry : ModuleEntry (Module μ)).module = .adapter from rfl,
      registerAll_methods hs, hfirst] at hm
    exact (Option.some.inj hm).symm
  · rintro ⟨hfits, hsame⟩ before desc after hsplit
    have hmem : desc ∈ descs := hsplit ▸ List.mem_append_right _ List.mem_cons_self
    have hroom := room_of_split hsplit (hfits (List.ne_nil_of_mem hmem))
    obtain ⟨hresult, hentries⟩ := taktRegisterModule_room hroom desc
    refine ⟨?_, fun _ => ⟨hresult, adapterEntry, entry_of_split hsplit hroom, ?_⟩⟩
    · rw [hresult, hentries]
      exact iff_of_false (by omega) (by simp)
    · refine (registerAll_methods hs).trans ?_
      cases hfirst : descs.head? with
      | none => exact absurd (List.head?_eq_none_iff.mp hfirst) (List.ne_nil_of_mem hmem)
      | some first => exact congrArg some (hsame first hfirst desc hmem).symm

end Registration

/-- Two descriptors with the same functions and context, on a fresh scheduler. -/
theorem faithfulRegistration_twice :
    FaithfulRegistration (μ := Nat) (fun _ => SdkModuleAdapter.methods { ctx := 0 }) {}
      [{ name := some "led", tick := some 1, ctx := 7 },
        { name := some "copy", tick := some 1, ctx := 7 }] :=
  (faithfulRegistration_iff rfl (by decide)).mpr ⟨fun _ => by decide, by decide⟩

/-- The second module's entry ticks the first module. -/
theorem second_module_unused :
    let descs : List (TaktModule Nat Nat) :=
      [{ tick := some 1, ctx := 7 }, { tick := some 2, ctx := 8 }]
    let s := registerAll (μ := Nat) {} descs
    s.sched.entries.length = 2 ∧
      (s.sched.entries[1]?.bind fun e => s.methods (fun _ => SdkModuleAdapter.methods { ctx := 0 })
        e.module).map Methods.tick = some (.calls 1 7) ∧
      ¬FaithfulRegistration (μ := Nat) (fun _ => SdkModuleAdapter.methods { ctx := 0 }) {}
        descs := by
  refine ⟨rfl, rfl, fun h => ?_⟩
  have hcall := h [{ tick := some 1, ctx := 7 }] { tick := some 2, ctx := 8 } [] rfl
  obtain ⟨-, e, he, hm⟩ := hcall.created (by decide)
  cases he
  exact absurd hm (by decide)

end TaktOS.Proof
