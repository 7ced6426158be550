import Mathlib.Order.Lattice

/-!
# The first place of the least entry

A scan that keeps the place of the least entry so far, and moves on only for a smaller one, ends
with the leftmost of the least entries. `LeftmostMin` is what it keeps, the two `concat` rules are
its step.
-/

namespace TaktOS.Lib

variable {α : Type} [LinearOrder α]

/-- `x` is the least entry, and `i` is the first place it is at. -/
structure LeftmostMin (xs : List α) (i : Nat) (x : α) : Prop where
  entry : xs[i]? = some x
  least : ∀ y ∈ xs, x ≤ y
  first : ∀ {j : Nat} {y : α}, j < i → xs[j]? = some y → x < y

variable {xs : List α} {i j : Nat} {x y : α}

theorem LeftmostMin.singleton (x : α) : LeftmostMin [x] 0 x where
  entry := rfl
  least := fun y hy => by rw [List.mem_singleton.mp hy]
  first := fun h => absurd h (Nat.not_lt_zero _)

theorem LeftmostMin.lt_length (h : LeftmostMin xs i x) : i < xs.length :=
  (List.getElem?_eq_some_iff.mp h.entry).1

/-- A smaller entry behind the others takes over. -/
theorem LeftmostMin.concat_lt (h : LeftmostMin xs i x) (hy : y < x) :
    LeftmostMin (xs ++ [y]) xs.length y where
  entry := by rw [List.getElem?_append_right (Nat.le_refl _), Nat.sub_self]; rfl
  least := by
    intro z hz
    rcases List.mem_append.mp hz with hmem | hnew
    · exact le_trans (le_of_lt hy) (h.least z hmem)
    · rw [List.mem_singleton.mp hnew]
  first := by
    intro k z hk hz
    rw [List.getElem?_append_left hk] at hz
    exact lt_of_lt_of_le hy (h.least z (List.mem_of_getElem? hz))

/-- One that is not smaller does not. -/
theorem LeftmostMin.concat_ge (h : LeftmostMin xs i x) (hy : x ≤ y) :
    LeftmostMin (xs ++ [y]) i x where
  entry := by rw [List.getElem?_append_left h.lt_length]; exact h.entry
  least := by
    intro z hz
    rcases List.mem_append.mp hz with hmem | hnew
    · exact h.least z hmem
    · rw [List.mem_singleton.mp hnew]
      exact hy
  first := by
    intro k z hk hz
    rw [List.getElem?_append_left (Nat.lt_trans hk h.lt_length)] at hz
    exact h.first hk hz

theorem LeftmostMin.unique (h : LeftmostMin xs i x) (h' : LeftmostMin xs j y) : i = j := by
  rcases Nat.lt_trichotomy i j with hlt | heq | hgt
  · exact absurd (h'.first hlt h.entry) (not_lt_of_ge (h.least y (List.mem_of_getElem? h'.entry)))
  · exact heq
  · exact absurd (h.first hgt h'.entry) (not_lt_of_ge (h'.least x (List.mem_of_getElem? h.entry)))

end TaktOS.Lib
