/-!
# Runs of a partial step function

A component is a state type with a step function that may fail to return. A run
feeds it a list of operations; a condition holds **along** a run when it holds at
every operation, in the state that operation is issued in.

The rules at the end are the only inductions over runs in the development:
`run_invariant` carries an invariant to the last state, `along_of_invariant`
turns a condition on the steps into a property of the steps, and
`along_iff_of_invariant` says when the condition is exact.
-/

namespace TaktOS.Lib

variable {σ α : Type}

/-- Feed the operations to `step`, stopping where it does not return. -/
def run (step : σ → α → Option σ) : σ → List α → Option σ
  | s, [] => some s
  | s, a :: as =>
    match step s a with
    | none => none
    | some s' => run step s' as

/-- `P` holds at every operation of the run, in the state it is issued in. -/
def Along (step : σ → α → Option σ) (P : σ → α → Prop) : σ → List α → Prop
  | _, [] => True
  | s, a :: as => P s a ∧ ∀ s', step s a = some s' → Along step P s' as

variable {step : σ → α → Option σ} {P Q : σ → α → Prop}

/-- A condition that can be checked at a step can be checked along a run. -/
instance decidableAlong [∀ s a, Decidable (P s a)] :
    ∀ (s : σ) (as : List α), Decidable (Along step P s as)
  | _, [] => isTrue trivial
  | s, a :: as =>
    match h : step s a with
    -- the run ends at `a`, so there is nothing after it to check
    | none => decidable_of_iff (P s a)
        ⟨fun hp => ⟨hp, fun s' hs => absurd (h ▸ hs) (by simp)⟩, fun hp => hp.1⟩
    | some s' =>
      have := decidableAlong s' as
      decidable_of_iff (P s a ∧ Along step P s' as)
        ⟨fun hp => ⟨hp.1, fun _ hs => Option.some.inj (h ▸ hs) ▸ hp.2⟩,
          fun hp => ⟨hp.1, hp.2 s' h⟩⟩

theorem run_cons_some {s t : σ} {a : α} {as : List α} (h : run step s (a :: as) = some t) :
    ∃ s', step s a = some s' ∧ run step s' as = some t := by
  rw [run] at h
  cases hs : step s a with
  | none => rw [hs] at h; exact absurd h (by simp)
  | some s' => rw [hs] at h; exact ⟨s', rfl, h⟩

theorem run_append {s t : σ} {as : List α} (h : run step s as = some t) (bs : List α) :
    run step s (as ++ bs) = run step t bs := by
  induction as generalizing s with
  | nil => rw [run] at h; rw [Option.some.inj h, List.nil_append]
  | cons a as ih =>
    obtain ⟨s', hs, hr⟩ := run_cons_some h
    rw [List.cons_append, run, hs]
    exact ih hr

theorem Along.cons {s s' : σ} {a : α} {as : List α} (hs : step s a = some s') (hp : P s a)
    (h : Along step P s' as) : Along step P s (a :: as) :=
  ⟨hp, fun _ hs' => Option.some.inj (hs.symm.trans hs') ▸ h⟩

theorem Along.append {P : σ → α → Prop} {as bs : List α} {t : σ} :
    ∀ {s : σ}, Along step P s as → run step s as = some t → Along step P t bs →
      Along step P s (as ++ bs) := by
  induction as with
  | nil => intro s _ hr hb; rw [run] at hr; exact Option.some.inj hr ▸ hb
  | cons a as ih =>
    intro s ha hr hb
    obtain ⟨s', hs, hr'⟩ := run_cons_some hr
    refine ⟨ha.1, fun s'' hs'' => ?_⟩
    exact Option.some.inj (hs.symm.trans hs'') ▸ ih (ha.2 s' hs) hr' hb

theorem along_of_forall {as : List α} (h : ∀ a ∈ as, ∀ s, P s a) :
    ∀ {s : σ}, Along step P s as := by
  induction as with
  | nil => intro s; trivial
  | cons a as ih =>
    intro s
    exact ⟨h a List.mem_cons_self s, fun _ _ => ih fun b hb => h b (List.mem_cons_of_mem _ hb)⟩

theorem Along.imp {as : List α} (h : ∀ s a, P s a → Q s a) :
    ∀ {s : σ}, Along step P s as → Along step Q s as := by
  induction as with
  | nil => intro s _; trivial
  | cons a as ih => intro s hp; exact ⟨h s a hp.1, fun s' hs => ih (hp.2 s' hs)⟩

theorem Along.and {as : List α} :
    ∀ {s : σ}, Along step P s as → Along step Q s as →
      Along step (fun s a => P s a ∧ Q s a) s as := by
  induction as with
  | nil => intro s _ _; trivial
  | cons a as ih =>
    intro s hp hq
    exact ⟨⟨hp.1, hq.1⟩, fun s' hs => ih (hp.2 s' hs) (hq.2 s' hs)⟩

/-- What holds along a run holds along its two parts. -/
theorem Along.split {P : σ → α → Prop} {as bs : List α} {t : σ} :
    ∀ {s : σ}, Along step P s (as ++ bs) → run step s as = some t →
      Along step P s as ∧ Along step P t bs := by
  induction as with
  | nil => intro s h hr; rw [run] at hr; exact ⟨trivial, Option.some.inj hr ▸ h⟩
  | cons a as ih =>
    intro s h hr
    obtain ⟨s', hs, hr'⟩ := run_cons_some hr
    obtain ⟨ha, hb⟩ := ih (h.2 s' hs) hr'
    exact ⟨.cons hs h.1 ha, hb⟩

/-- What holds of every operation may be added to what holds along the run. -/
theorem Along.and_forall {q : α → Prop} {as : List α} :
    ∀ {s : σ}, Along step P s as → (∀ a ∈ as, q a) → Along step (fun s a => q a ∧ P s a) s as := by
  induction as with
  | nil => intro s _ _; trivial
  | cons a as ih =>
    intro s h hq
    exact ⟨⟨hq a List.mem_cons_self, h.1⟩, fun s' hs =>
      ih (h.2 s' hs) fun a ha => hq a (List.mem_cons_of_mem _ ha)⟩

/-- What holds along a run holds at its last step. -/
theorem along_last (as : List α) {a : α} {t : σ} :
    ∀ {s : σ}, Along step P s (as ++ [a]) → run step s as = some t → P t a := by
  induction as with
  | nil => intro s h hr; rw [run] at hr; exact Option.some.inj hr ▸ h.1
  | cons x as ih =>
    intro s h hr
    obtain ⟨s', hs, hr'⟩ := run_cons_some hr
    exact ih (h.2 s' hs) hr'

/-- **An invariant of the permitted steps holds in the state a run ends in.** -/
theorem run_invariant (Inv : σ → Prop)
    (hstep : ∀ s a s', Inv s → P s a → step s a = some s' → Inv s') :
    ∀ {as : List α} {s s' : σ}, Inv s → Along step P s as → run step s as = some s' → Inv s' := by
  intro as
  induction as with
  | nil => intro s s' hi _ hr; rw [run] at hr; exact Option.some.inj hr ▸ hi
  | cons a as ih =>
    intro s t hi hp hr
    obtain ⟨s', hs, hr'⟩ := run_cons_some hr
    exact ih (hstep s a s' hi hp.1 hs) (hp.2 s' hs) hr'

/-- An invariant of every step holds in the state a run ends in. -/
theorem run_preserves (Inv : σ → Prop)
    (hstep : ∀ s a s', Inv s → step s a = some s' → Inv s') :
    ∀ {as : List α} {s s' : σ}, Inv s → run step s as = some s' → Inv s' := by
  intro as
  induction as with
  | nil => intro s s' hi hr; rw [run] at hr; exact Option.some.inj hr ▸ hi
  | cons a as ih =>
    intro s t hi hr
    obtain ⟨s', hs, hr'⟩ := run_cons_some hr
    exact ih (hstep s a s' hi hs) hr'

/-- A run all of whose steps return returns. -/
theorem run_returns (Inv : σ → Prop) (hstep : ∀ s a, Inv s → ∃ s', step s a = some s' ∧ Inv s') :
    ∀ (as : List α) {s : σ}, Inv s → ∃ t, run step s as = some t ∧ Inv t := by
  intro as
  induction as with
  | nil => exact fun hi => ⟨_, rfl, hi⟩
  | cons a as ih =>
    intro s hi
    obtain ⟨s', hs, hi'⟩ := hstep s a hi
    obtain ⟨t, ht, hit⟩ := ih hi'
    exact ⟨t, by rw [run, hs]; exact ht, hit⟩

/-- A run returns if every permitted step returns and keeps what the next one needs. -/
theorem run_returns_along (Inv : σ → Prop)
    (hstep : ∀ s a, Inv s → P s a → ∃ s', step s a = some s' ∧ Inv s') :
    ∀ {as : List α} {s : σ}, Inv s → Along step P s as → ∃ t, run step s as = some t ∧ Inv t := by
  intro as
  induction as with
  | nil => exact fun hi _ => ⟨_, rfl, hi⟩
  | cons a as ih =>
    intro s hi hp
    obtain ⟨s', hs, hi'⟩ := hstep s a hi hp.1
    obtain ⟨t, ht, hit⟩ := ih hi' (hp.2 s' hs)
    exact ⟨t, by rw [run, hs]; exact ht, hit⟩

/-- A run of a whole, each step of which a part sits out or takes part in, is one of the part. -/
theorem run_view {ρ β : Type} (view : σ → ρ) (part : ρ → β → Option ρ)
    (hstep : ∀ s a s', step s a = some s' →
      view s' = view s ∨ ∃ b, part (view s) b = some (view s')) :
    ∀ {as : List α} {s t : σ}, run step s as = some t →
      ∃ bs, run part (view s) bs = some (view t) := by
  intro as
  induction as with
  | nil => intro s t hr; rw [run] at hr; exact ⟨[], by rw [Option.some.inj hr]; rfl⟩
  | cons a as ih =>
    intro s t hr
    obtain ⟨s', hs, hr'⟩ := run_cons_some hr
    obtain ⟨bs, hbs⟩ := ih hr'
    rcases hstep s a s' hs with hv | ⟨b, hb⟩
    · exact ⟨bs, hv ▸ hbs⟩
    · exact ⟨b :: bs, by rw [run, hb]; exact hbs⟩

/-- **What an invariant and a permitted step give together holds along the run.** -/
theorem along_of_invariant (Inv : σ → Prop)
    (hstep : ∀ s a s', Inv s → P s a → step s a = some s' → Inv s')
    (himp : ∀ s a, Inv s → P s a → Q s a) :
    ∀ {as : List α} {s : σ}, Inv s → Along step P s as → Along step Q s as := by
  intro as
  induction as with
  | nil => intro s _ _; trivial
  | cons a as ih =>
    intro s hi hp
    exact ⟨himp s a hi hp.1, fun s' hs => ih (hstep s a s' hi hp.1 hs) (hp.2 s' hs)⟩

/-- **Two conditions that agree under an invariant of either's steps hold along the same runs.** -/
theorem along_iff_of_invariant (Inv : σ → Prop)
    (hstep : ∀ s a s', Inv s → P s a → step s a = some s' → Inv s')
    (hiff : ∀ s a, Inv s → (P s a ↔ Q s a)) :
    ∀ {as : List α} {s : σ}, Inv s → (Along step P s as ↔ Along step Q s as) := by
  intro as
  induction as with
  | nil => intro s _; exact Iff.rfl
  | cons a as ih =>
    intro s hi
    constructor
    · intro h
      exact ⟨(hiff s a hi).mp h.1, fun s' hs => (ih (hstep s a s' hi h.1 hs)).mp (h.2 s' hs)⟩
    · intro h
      have hp : P s a := (hiff s a hi).mpr h.1
      exact ⟨hp, fun s' hs => (ih (hstep s a s' hi hp hs)).mpr (h.2 s' hs)⟩

/-- **A property that no step can restore holds at the end of the runs that meet a condition.** -/
theorem run_iff_along (Inv R : σ → Prop) (hstep : ∀ s a s', Inv s → step s a = some s' → Inv s')
    (hback : ∀ s a s', Inv s → step s a = some s' → R s' → R s)
    (hiff : ∀ s a s', Inv s → R s → step s a = some s' → (P s a ↔ R s')) :
    ∀ {as : List α} {s t : σ}, Inv s → R s → run step s as = some t →
      (R t ↔ Along step P s as) := by
  have hfrom : ∀ {as : List α} {s t : σ}, Inv s → run step s as = some t → R t → R s := by
    intro as
    induction as with
    | nil => intro s t _ h hr; rw [run] at h; exact Option.some.inj h ▸ hr
    | cons a as ih =>
      intro s t hi h hr
      obtain ⟨s', hs, h'⟩ := run_cons_some h
      exact hback s a s' hi hs (ih (hstep s a s' hi hs) h' hr)
  intro as
  induction as with
  | nil =>
    intro s t _ hr h
    rw [run] at h
    exact ⟨fun _ => trivial, fun _ => Option.some.inj h ▸ hr⟩
  | cons a as ih =>
    intro s t hi hr h
    obtain ⟨s', hs, h'⟩ := run_cons_some h
    have hi' := hstep s a s' hi hs
    constructor
    · intro ht
      have hr' : R s' := hfrom hi' h' ht
      exact .cons hs ((hiff s a s' hi hr hs).mpr hr') ((ih hi' hr' h').mp ht)
    · intro hal
      have hr' : R s' := (hiff s a s' hi hr hs).mp hal.1
      exact (ih hi' hr' h').mpr (hal.2 s' hs)

end TaktOS.Lib
