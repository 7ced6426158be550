import Mathlib.Data.List.Chain

/-!
# Stacks woven into one

Machines that call one another, each with a stack of its own, share one stack of frames. Which
machine each frame of it is of tells how the stacks of the machines are woven into it. A step of
one machine that pushes, replaces or pops a frame of its stack does so to the shared one, if the
innermost frame is its own or it is called.
-/

namespace TaktOS.Lib

variable {F P : Type} [DecidableEq P]

/-- The parts of the frames, after a part's stack went from one height to another. -/
def resize (p : P) (before after : Nat) (control : List P) : List P :=
  if before < after then p :: control
  else if after < before then control.tail
  else control

/-- The frames `fs`, innermost first, are those of the stacks, each of the part in its place. -/
structure Woven (part : F → P) (stackOf : P → List F) (control : List P) (fs : List F) :
    Prop where
  control_eq : control = fs.map part
  stack_eq : ∀ p, stackOf p = fs.filter fun f => part f = p

variable {part : F → P} {stackOf stackOf' : P → List F} {control : List P} {fs : List F}

theorem woven_nil (h : ∀ p, stackOf p = []) : Woven part stackOf [] [] := ⟨rfl, h⟩

/-- The innermost frame is on top of the stack of its part. -/
theorem Woven.head {p : P} (h : Woven part stackOf control fs) (hp : control.head? = some p) :
    ∃ f below, fs = f :: below ∧ part f = p
      ∧ stackOf p = f :: below.filter fun f => part f = p := by
  cases fs with
  | nil => rw [h.control_eq] at hp; exact absurd hp (by simp)
  | cons f below =>
    rw [h.control_eq] at hp
    have hf : part f = p := by simpa using hp
    exact ⟨f, below, rfl, hf, by rw [h.stack_eq, List.filter_cons_of_pos (by simpa using hf)]⟩

/-- The innermost frame, where the stack of its part is known. -/
theorem Woven.top {p : P} {f : F} {rest : List F} (h : Woven part stackOf control fs)
    (hp : control.head? = some p) (hs : stackOf p = f :: rest) :
    ∃ below, fs = f :: below := by
  obtain ⟨f', below, rfl, -, hs'⟩ := h.head hp
  rw [hs'] at hs
  exact ⟨below, by rw [(List.cons.inj hs).1]⟩

section Step

variable {p : P} (hother : ∀ q, q ≠ p → stackOf' q = stackOf q)

include hother

/-- A step that leaves the stack as it was. -/
theorem Woven.stay (h : Woven part stackOf control fs) (hs : stackOf' p = stackOf p) :
    Woven part stackOf' (resize p (stackOf p).length (stackOf' p).length control) fs where
  control_eq := by simp [resize, hs, h.control_eq]
  stack_eq q := by
    by_cases hq : q = p
    · rw [hq, hs, h.stack_eq]
    · rw [hother q hq, h.stack_eq]

/-- A step that pushes a frame. -/
theorem Woven.push {f : F} (h : Woven part stackOf control fs) (hf : part f = p)
    (hs : stackOf' p = f :: stackOf p) :
    Woven part stackOf' (resize p (stackOf p).length (stackOf' p).length control) (f :: fs) where
  control_eq := by simp [resize, hs, hf, h.control_eq]
  stack_eq q := by
    by_cases hq : q = p
    · rw [hq, hs, h.stack_eq, List.filter_cons_of_pos (by simpa using hf)]
    · rw [hother q hq, h.stack_eq, List.filter_cons_of_neg (by simpa [hf] using Ne.symm hq)]

/-- A step that puts another frame in the place of the innermost. -/
theorem Woven.turn {f f' : F} {rest : List F} (h : Woven part stackOf control (f :: fs))
    (hf : part f = p) (hf' : part f' = p) (hs : stackOf p = f :: rest)
    (hs' : stackOf' p = f' :: rest) :
    Woven part stackOf' (resize p (stackOf p).length (stackOf' p).length control) (f' :: fs) where
  control_eq := by simp [resize, hs, hs', hf, hf', h.control_eq]
  stack_eq q := by
    by_cases hq : q = p
    · have hrest := h.stack_eq p
      rw [hs, List.filter_cons_of_pos (by simpa using hf)] at hrest
      rw [hq, hs', List.filter_cons_of_pos (by simpa using hf'), (List.cons.inj hrest).2]
    · rw [hother q hq, h.stack_eq, List.filter_cons_of_neg (by simpa [hf] using Ne.symm hq),
        List.filter_cons_of_neg (by simpa [hf'] using Ne.symm hq)]

/-- A step that pops the innermost frame. -/
theorem Woven.pop {f : F} (h : Woven part stackOf control (f :: fs)) (hf : part f = p)
    (hs : stackOf p = f :: stackOf' p) :
    Woven part stackOf' (resize p (stackOf p).length (stackOf' p).length control) fs where
  control_eq := by simp [resize, hs, h.control_eq]
  stack_eq q := by
    by_cases hq : q = p
    · have hrest := h.stack_eq p
      rw [hs, List.filter_cons_of_pos (by simpa using hf)] at hrest
      rw [hq, (List.cons.inj hrest).2]
    · rw [hother q hq, h.stack_eq, List.filter_cons_of_neg (by simpa [hf] using Ne.symm hq)]

end Step

/-- A chain goes on under another first frame that may be where the first was. -/
theorem isChain_turn {R : F → F → Prop} {f f' : F} (h : (f :: fs).IsChain R)
    (hR : ∀ g, R f g → R f' g) : (f' :: fs).IsChain R := by
  rw [List.isChain_cons] at h ⊢
  exact ⟨fun g hg => hR g (h.1 g hg), h.2⟩

end TaktOS.Lib
