import Mathlib.Algebra.BigOperators.Group.List.Basic

/-!
# Alarms

Time goes by in periods. An alarm counts it, and rings in a period by whose end it has counted
what it is set to. One that repeats begins again, another is off from then on.

What it comes to needs no counting: the periods are cut into blocks, each just long enough, and
there is a ring at the end of each block.
-/

namespace TaktOS.Lib

section

variable {α : Type} [AddMonoid α] [LE α] {due : α}

/-- No beginning of the periods is as long as that. -/
def NotYet (due : α) (ps : List α) : Prop := ∀ q, q ≠ [] → q <+: ps → ¬ due ≤ q.sum

/-- The periods are as long as that, with the last of them only. -/
def Reaches (due : α) (ps : List α) : Prop :=
  ∃ q p, ps = q ++ [p] ∧ NotYet due q ∧ due ≤ ps.sum

/-- The last period of each block, counted from `k`. -/
def blockEnds (k : Nat) : List (List α) → List Nat
  | [] => []
  | q :: qs => (k + q.length - 1) :: blockEnds (k + q.length) qs

/-- The periods in blocks, with what is left over; a single block where nothing repeats. -/
structure Chimes (due : α) (repeats : Bool) (ps : List α) (blocks : List (List α))
    (rest : List α) : Prop where
  split : ps = blocks.flatten ++ rest
  reaches : ∀ q ∈ blocks, Reaches due q
  rest : repeats = true ∨ blocks = [] → NotYet due rest
  single : repeats = false → blocks.length ≤ 1

theorem notYet_nil : NotYet due ([] : List α) := fun _ hq h => absurd (List.prefix_nil.mp h) hq

theorem notYet_concat {q : List α} {p : α} (h : NotYet due q) (hp : ¬ due ≤ q.sum + p) :
    NotYet due (q ++ [p]) := by
  intro q' hne hq'
  rcases List.prefix_concat_iff.mp hq' with rfl | hq'
  · rwa [List.sum_append, List.sum_singleton]
  · exact h q' hne hq'

/-! ## Counting -/

structure Alarm (α : Type) where
  due : α
  repeats : Bool
  elapsed : α
  on : Bool

variable [DecidableLE α]

/-- A period goes by; whether the alarm rings in it. -/
def Alarm.pass (x : Alarm α) (p : α) : Alarm α × Bool :=
  if !x.on then (x, false)
  else
    let x := { x with elapsed := x.elapsed + p }
    if x.due ≤ x.elapsed then
      (if x.repeats then { x with elapsed := 0 } else { x with on := false }, true)
    else (x, false)

/-- The periods in which it rings, counted from `k`. -/
def Alarm.rings (x : Alarm α) (k : Nat) : List α → List Nat
  | [] => []
  | p :: ps => (if (x.pass p).2 then [k] else []) ++ (x.pass p).1.rings (k + 1) ps

variable {x : Alarm α}

/-- An alarm that is off does not ring. -/
theorem rings_off (h : x.on = false) (k : Nat) (ps : List α) : x.rings k ps = [] := by
  induction ps generalizing k with
  | nil => rfl
  | cons p ps ih =>
    have hp : x.pass p = (x, false) := by simp [Alarm.pass, h]
    rw [Alarm.rings, hp]
    exact ih (k + 1)

/--
**An alarm rings at the end of each block.** It has counted the periods `q`, which are not yet
long enough.
-/
theorem rings_chimes (ps : List α) : ∀ (q : List α) (x : Alarm α) (k : Nat), x.on = true →
    x.elapsed = q.sum → NotYet x.due q →
    ∃ blocks rest, Chimes x.due x.repeats (q ++ ps) blocks rest
      ∧ x.rings (k + q.length) ps = blockEnds k blocks := by
  induction ps with
  | nil =>
    intro q x k _ _ hq
    exact ⟨[], q, ⟨List.append_nil q, by simp, fun _ => hq, fun _ => Nat.zero_le 1⟩, rfl⟩
  | cons p ps ih =>
    intro q x k hon he hq
    by_cases hdue : x.due ≤ q.sum + p
    · have hblock : Reaches x.due (q ++ [p]) :=
        ⟨q, p, rfl, hq, by rwa [List.sum_append, List.sum_singleton]⟩
      have hend : k + (q ++ [p]).length - 1 = k + q.length := by simp
      cases hr : x.repeats with
      | true =>
        -- a new block begins
        have hp : x.pass p = ({ x with elapsed := 0 }, true) := by
          simp [Alarm.pass, hon, he, hdue, hr]
        obtain ⟨blocks, rest, hc, hrings⟩ := ih [] { x with elapsed := 0 }
          (k + (q ++ [p]).length) hon rfl notYet_nil
        refine ⟨(q ++ [p]) :: blocks, rest, ⟨?_, ?_, ?_, ?_⟩, ?_⟩
        · have hsplit : ps = blocks.flatten ++ rest := hc.split
          rw [List.flatten_cons, List.append_assoc, ← hsplit, List.append_assoc]
          rfl
        · intro b hb
          rcases List.mem_cons.mp hb with rfl | hb
          · exact hblock
          · exact hc.reaches b hb
        · exact fun _ => hc.rest (.inl hr)
        · exact fun hno => absurd hno (by simp)
        · rw [Alarm.rings, hp, blockEnds, hend, ← hrings]
          simp [Nat.add_assoc]
      | false =>
        have hp : x.pass p = ({ x with elapsed := q.sum + p, on := false }, true) := by
          simp [Alarm.pass, hon, he, hdue, hr]
        refine ⟨[q ++ [p]], ps, ⟨by simp, by simpa using hblock, ?_, fun _ => Nat.le_refl 1⟩, ?_⟩
        · exact fun hno => absurd hno (by simp)
        · rw [Alarm.rings, hp, blockEnds, hend, rings_off rfl]
          rfl
    · have hp : x.pass p = ({ x with elapsed := q.sum + p }, false) := by
        simp [Alarm.pass, hon, he, hdue]
      obtain ⟨blocks, rest, hc, hrings⟩ := ih (q ++ [p]) { x with elapsed := q.sum + p } k hon
        (by simp) (notYet_concat hq hdue)
      refine ⟨blocks, rest, ?_, ?_⟩
      · rw [List.append_assoc] at hc
        exact hc
      · rw [Alarm.rings, hp, ← hrings, List.length_append]
        rfl

end

end TaktOS.Lib
