import TaktOS.Lib.Run

/-!
# Refinement

A machine answers every operation; a specification says which answers it may give. The
specification is a relation, so it can leave an answer open, and what the state is afterwards.
A machine refines it when whatever it answers over a whole run is allowed, and
`history_allowed` gets that from one step at a time.
-/

namespace TaktOS.Lib

variable {σ τ α α' β : Type}

/-- From a state, an operation with an answer leads to a state. -/
abbrev Spec (τ α β : Type) : Type := τ → α → β → τ → Prop

/-- The specification allows a history, from one state to another. -/
inductive Spec.Allows (spec : Spec τ α β) : τ → List (α × β) → τ → Prop where
  | nil (t : τ) : Allows spec t [] t
  | cons {t t' t'' : τ} {a : α} {b : β} {h : List (α × β)} :
      spec t a b t' → Allows spec t' h t'' → Allows spec t ((a, b) :: h) t''

/-- The operations with the answers the machine gives, and the state it ends in. -/
def history (step : σ → α → Option (β × σ)) : σ → List α → Option (List (α × β) × σ)
  | s, [] => some ([], s)
  | s, a :: as =>
    match step s a with
    | none => none
    | some (b, s') => (history step s' as).map fun h => ((a, b) :: h.1, h.2)

/-- The machine without its answers. -/
def silent (step : σ → α → Option (β × σ)) (s : σ) (a : α) : Option σ := (step s a).map Prod.snd

variable {step : σ → α → Option (β × σ)} {spec : Spec τ α' β}

theorem history_cons_some {s t : σ} {a : α} {as : List α} {h : List (α × β)}
    (hh : history step s (a :: as) = some (h, t)) :
    ∃ b s' h', step s a = some (b, s') ∧ history step s' as = some (h', t)
      ∧ h = (a, b) :: h' := by
  rw [history] at hh
  cases hs : step s a with
  | none => rw [hs] at hh; exact absurd hh (by simp)
  | some r =>
    rw [hs] at hh
    obtain ⟨⟨h', t'⟩, hrest, heq⟩ := Option.map_eq_some_iff.mp hh
    obtain ⟨hh', rfl⟩ := Prod.mk.inj heq
    exact ⟨r.1, r.2, h', rfl, hrest, hh'.symm⟩

/-- A history leads where the run does. -/
theorem history_run {s t : σ} {as : List α} {h : List (α × β)}
    (hh : history step s as = some (h, t)) : run (silent step) s as = some t := by
  induction as generalizing s h with
  | nil =>
    rw [history, Option.some.injEq, Prod.mk.injEq] at hh
    rw [run, hh.2]
  | cons a as ih =>
    obtain ⟨b, s', h', hs, hrest, -⟩ := history_cons_some hh
    rw [run, silent, hs]
    exact ih hrest

/-- A history in two parts passes through a state. -/
theorem Spec.Allows.split {h' : List (α' × β)} : ∀ {h : List (α' × β)} {t t'' : τ},
    spec.Allows t (h ++ h') t'' → ∃ t', spec.Allows t h t' ∧ spec.Allows t' h' t'' := by
  intro h
  induction h with
  | nil => exact fun {t _} hh => ⟨t, .nil t, hh⟩
  | cons x h ih =>
    intro t t'' hh
    cases hh with
    | cons hs hrest =>
      obtain ⟨t', h1, h2⟩ := ih hrest
      exact ⟨t', .cons hs h1, h2⟩

/--
**A simulated run returns and is allowed.** Let a relation of the states be such that, where it
holds and the condition is met, the machine returns, and the specification has a step with the
same answer that leads to related states again. Then a run whose steps meet the condition returns,
and its history is one of the specification.
-/
theorem history_allowed (step : σ → α → Option (β × σ)) (spec : Spec τ α' β) (R : σ → τ → Prop)
    (P : σ → α → Prop) (abs : α → α')
    (hsim : ∀ s t a, R s t → P s a →
      ∃ b s' t', step s a = some (b, s') ∧ spec t (abs a) b t' ∧ R s' t') :
    ∀ {as : List α} {s : σ} {t : τ}, R s t → Along (silent step) P s as →
      ∃ h s' t', history step s as = some (h, s') ∧ h.map Prod.fst = as
        ∧ spec.Allows t (h.map fun x => (abs x.1, x.2)) t' ∧ R s' t' := by
  intro as
  induction as with
  | nil => exact fun {s t} hR _ => ⟨[], s, t, rfl, rfl, .nil t, hR⟩
  | cons a as ih =>
    intro s t hR hP
    obtain ⟨b, s₁, t₁, hs, hspec, hR₁⟩ := hsim s t a hR hP.1
    have hsilent : silent step s a = some s₁ := by rw [silent, hs]; rfl
    obtain ⟨h, s', t', hrest, hops, hallows, hR'⟩ := ih hR₁ (hP.2 s₁ hsilent)
    refine ⟨(a, b) :: h, s', t', ?_, by rw [List.map_cons, hops], .cons hspec hallows, hR'⟩
    rw [history, hs]
    dsimp only
    rw [hrest]
    rfl

/-- What the allowed steps of the permitted operations preserve holds at the end of a history. -/
theorem Spec.Allows.preserves (Inv : τ → Prop) (P : α' → Prop)
    (hstep : ∀ t a b t', Inv t → P a → spec t a b t' → Inv t') {t t' : τ} {h : List (α' × β)}
    (hh : spec.Allows t h t') (hP : ∀ x ∈ h, P x.1) (hi : Inv t) : Inv t' := by
  induction hh with
  | nil t => exact hi
  | cons hs _ ih =>
    exact ih (fun x hx => hP x (List.mem_cons_of_mem _ hx))
      (hstep _ _ _ _ hi (hP _ List.mem_cons_self) hs)

end TaktOS.Lib
