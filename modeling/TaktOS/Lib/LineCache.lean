import Mathlib.Data.List.Nodup
import TaktOS.Lib.ByteMap

/-!
# A pool of lines in front of a flat store

A pool caches lines of `L` cells of a store: the line with key `k` holds the cells from
`k * L` on, and slot `i` of the pool is at `i * L`. Lines enter the pool without being loaded,
so only some of the cells of a cached line are **known** to be what the store holds. The two
rules say what entering a line and storing into one keep.
-/

namespace TaktOS.Lib

variable {α : Type}

/-- What is known of a cached line is in its place in the pool. -/
structure Coherent (L : Nat) (keys : List Nat) (pool flat : Nat → α) (known : Nat → Bool) :
    Prop where
  nodup : keys.Nodup
  cells : ∀ {i k : Nat}, keys[i]? = some k → ∀ {j : Nat}, j < L → known (k * L + j) = true →
    pool (i * L + j) = flat (k * L + j)

variable {L : Nat} {keys : List Nat} {pool flat : Nat → α} {known : Nat → Bool}

theorem Coherent.empty (L : Nat) (pool flat : Nat → α) (known : Nat → Bool) :
    Coherent L [] pool flat known := ⟨List.nodup_nil, fun h => absurd h (by simp)⟩

/-- Different lines share no cell. -/
theorem line_disjoint {k k' : Nat} (L : Nat) (h : k ≠ k') :
    k * L + L ≤ k' * L ∨ k' * L + L ≤ k * L := by
  rw [← Nat.succ_mul, ← Nat.succ_mul]
  rcases Nat.lt_or_gt_of_ne h with hlt | hlt
  · exact Or.inl (Nat.mul_le_mul_right L (Nat.succ_le_of_lt hlt))
  · exact Or.inr (Nat.mul_le_mul_right L (Nat.succ_le_of_lt hlt))

/-- Nothing is known of a line of which everything was forgotten. -/
theorem known_forgotten {k k' j : Nat} (hj : j < L)
    (h : fill known (k * L) (k * L + L) false (k' * L + j) = true) :
    k' ≠ k ∧ known (k' * L + j) = true := by
  have hk : k' ≠ k := by
    rintro rfl
    rw [fill_of_mem (by omega) (by omega)] at h
    exact absurd h (by simp)
  refine ⟨hk, ?_⟩
  have hdis := line_disjoint L hk
  rwa [fill_of_not_mem (by omega)] at h

/-- A new line, of which nothing is known, takes a new slot. -/
theorem Coherent.enter_new (h : Coherent L keys pool flat known) {k : Nat} (hk : k ∉ keys) :
    Coherent L (keys ++ [k]) pool flat (fill known (k * L) (k * L + L) false) := by
  refine ⟨?_, fun {i k'} hi {j} hj hknown => ?_⟩
  · rw [List.nodup_append]
    refine ⟨h.nodup, by simp, fun a ha b hb => ?_⟩
    rw [List.mem_singleton.mp hb]
    exact fun he => hk (he ▸ ha)
  · obtain ⟨hne, hknown⟩ := known_forgotten hj hknown
    rw [List.getElem?_append] at hi
    split at hi
    · exact h.cells hi hj hknown
    · exact absurd (List.mem_singleton.mp (List.mem_of_getElem? hi)) hne

/-- A new line, of which nothing is known, takes the slot of another. -/
theorem Coherent.enter_evict (h : Coherent L keys pool flat known) {k : Nat} (hk : k ∉ keys)
    (n : Nat) :
    Coherent L (keys.set n k) pool flat (fill known (k * L) (k * L + L) false) := by
  refine ⟨h.nodup.set hk, fun {i k'} hi {j} hj hknown => ?_⟩
  obtain ⟨hne, hknown⟩ := known_forgotten hj hknown
  rw [List.getElem?_set] at hi
  split at hi
  · split at hi
    · exact absurd (Option.some.inj hi).symm hne
    · exact absurd hi (by simp)
  · exact h.cells hi hj hknown

/-- **Storing into a cached line stores into the flat array**, and makes the cells known. -/
theorem Coherent.store (h : Coherent L keys pool flat known) {i k o : Nat}
    (hi : keys[i]? = some k) {xs : List α} (hin : o + xs.length ≤ L) :
    Coherent L keys (overlay pool (i * L + o) xs) (overlay flat (k * L + o) xs)
      (fill known (k * L + o) (k * L + o + xs.length) true) := by
  refine ⟨h.nodup, fun {i' k'} hi' {j} hj hknown => ?_⟩
  by_cases hs : i' = i
  · -- the slot stored into: cell by cell
    subst hs
    have hkk : k' = k := Option.some.inj (hi'.symm.trans hi)
    subst hkk
    by_cases hmem : o ≤ j ∧ j < o + xs.length
    · have hj' : j - o < xs.length := by omega
      rw [show i' * L + j = i' * L + o + (j - o) by omega,
        show k' * L + j = k' * L + o + (j - o) by omega, overlay_of_mem hj', overlay_of_mem hj']
    · rw [fill_of_not_mem (by omega)] at hknown
      rw [overlay_of_not_mem (by omega), overlay_of_not_mem (by omega)]
      exact h.cells hi' hj hknown
  · -- another slot holds another line
    have hk : k' ≠ k := by
      intro he
      subst he
      have hlt := List.getElem?_eq_some_iff.mp hi'
      exact hs ((List.getElem?_inj hlt.1 h.nodup).mp (hi'.trans hi.symm))
    have hslot := line_disjoint L hs
    have hline := line_disjoint L hk
    rw [fill_of_not_mem (by omega)] at hknown
    rw [overlay_of_not_mem (by omega), overlay_of_not_mem (by omega)]
    exact h.cells hi' hj hknown

end TaktOS.Lib
