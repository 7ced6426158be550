/-!
# Byte-addressable stores

A store is a total function from addresses to values. Three operations are
enough for everything a raw flash does: **fill** a range with one value, lay a
list **over** a range, and **slice** a range out as a list. The lemmas say how a
slice sees each of the others; nothing here knows what the values are.
-/

namespace TaktOS.Lib

variable {α : Type}

/-- `m` with every address in `[lo, hi)` holding `v`. -/
def fill (m : Nat → α) (lo hi : Nat) (v : α) : Nat → α :=
  fun a => if lo ≤ a ∧ a < hi then v else m a

/-- `m` with `xs` laid over the addresses from `off` on. -/
def overlay (m : Nat → α) (off : Nat) (xs : List α) : Nat → α :=
  fun a => if off ≤ a then xs.getD (a - off) (m a) else m a

/-- The `n` values from `off` on. -/
def slice (m : Nat → α) (off : Nat) : Nat → List α
  | 0 => []
  | n + 1 => m off :: slice m (off + 1) n

/-- Two stores agree on `[lo, hi)`. -/
def AgreeOn (lo hi : Nat) (m m' : Nat → α) : Prop :=
  ∀ a, lo ≤ a → a < hi → m a = m' a

/-! ## Pointwise readings -/

theorem fill_of_mem {m : Nat → α} {lo hi a : Nat} {v : α} (h : lo ≤ a) (h' : a < hi) :
    fill m lo hi v a = v := if_pos ⟨h, h'⟩

theorem fill_of_not_mem {m : Nat → α} {lo hi a : Nat} {v : α} (h : a < lo ∨ hi ≤ a) :
    fill m lo hi v a = m a := if_neg (by omega)

theorem fill_empty {m : Nat → α} {lo hi : Nat} {v : α} (h : hi ≤ lo) : fill m lo hi v = m := by
  funext a
  exact fill_of_not_mem (by omega)

/-- Filling a range and then the range right after it fills both. -/
theorem fill_fill {m : Nat → α} {lo mid hi : Nat} {v : α} (h : lo ≤ mid) (h' : mid ≤ hi) :
    fill (fill m lo mid v) mid hi v = fill m lo hi v := by
  funext a
  unfold fill
  by_cases h1 : mid ≤ a ∧ a < hi
  · rw [if_pos h1, if_pos (by omega)]
  · rw [if_neg h1]
    by_cases h2 : lo ≤ a ∧ a < mid
    · rw [if_pos h2, if_pos (by omega)]
    · rw [if_neg h2, if_neg (by omega)]

theorem overlay_of_mem {m : Nat → α} {off i : Nat} {xs : List α} (h : i < xs.length) :
    overlay m off xs (off + i) = xs[i] := by
  unfold overlay
  rw [if_pos (Nat.le_add_right _ _), Nat.add_sub_cancel_left]
  simp [h]

theorem overlay_of_lt {m : Nat → α} {off a : Nat} {xs : List α} (h : a < off) :
    overlay m off xs a = m a := if_neg (by omega)

theorem overlay_of_ge {m : Nat → α} {off a : Nat} {xs : List α} (h : off + xs.length ≤ a) :
    overlay m off xs a = m a := by
  unfold overlay
  rw [if_pos (by omega)]
  have : xs.length ≤ a - off := by omega
  simp [this]

theorem overlay_of_not_mem {m : Nat → α} {off a : Nat} {xs : List α}
    (h : a < off ∨ off + xs.length ≤ a) : overlay m off xs a = m a := by
  rcases h with h | h
  · exact overlay_of_lt h
  · exact overlay_of_ge h

/-! ## Agreement -/

theorem AgreeOn.refl (lo hi : Nat) (m : Nat → α) : AgreeOn lo hi m m := fun _ _ _ => rfl

theorem AgreeOn.symm {lo hi : Nat} {m m' : Nat → α} (h : AgreeOn lo hi m m') :
    AgreeOn lo hi m' m := fun a h1 h2 => (h a h1 h2).symm

theorem AgreeOn.trans {lo hi : Nat} {m₁ m₂ m₃ : Nat → α} (h : AgreeOn lo hi m₁ m₂)
    (h' : AgreeOn lo hi m₂ m₃) : AgreeOn lo hi m₁ m₃ :=
  fun a h1 h2 => (h a h1 h2).trans (h' a h1 h2)

theorem AgreeOn.mono {lo hi lo' hi' : Nat} {m m' : Nat → α} (h : AgreeOn lo hi m m')
    (hl : lo ≤ lo') (hh : hi' ≤ hi) : AgreeOn lo' hi' m m' :=
  fun a h1 h2 => h a (Nat.le_trans hl h1) (Nat.lt_of_lt_of_le h2 hh)

/-! ## Slices -/

@[simp] theorem length_slice (m : Nat → α) (off n : Nat) : (slice m off n).length = n := by
  induction n generalizing off with
  | zero => rfl
  | succ n ih => rw [slice, List.length_cons, ih]

theorem getElem?_slice (m : Nat → α) (off n i : Nat) :
    (slice m off n)[i]? = if i < n then some (m (off + i)) else none := by
  induction n generalizing off i with
  | zero => simp [slice]
  | succ n ih =>
    cases i with
    | zero => simp [slice]
    | succ i =>
      rw [slice, List.getElem?_cons_succ, ih, Nat.add_assoc, Nat.add_comm 1 i]
      simp

/-- Two slices are the same if their cells are, wherever they are. -/
theorem slice_shift {m m' : Nat → α} {off off' n : Nat}
    (h : ∀ i, i < n → m (off + i) = m' (off' + i)) : slice m off n = slice m' off' n := by
  apply List.ext_getElem?
  intro i
  rw [getElem?_slice, getElem?_slice]
  by_cases hi : i < n
  · rw [if_pos hi, if_pos hi, h i hi]
  · rw [if_neg hi, if_neg hi]

theorem slice_congr {m m' : Nat → α} {off n : Nat} (h : AgreeOn off (off + n) m m') :
    slice m off n = slice m' off n := by
  induction n generalizing off with
  | zero => rfl
  | succ n ih =>
    rw [slice, slice, h off (Nat.le_refl _) (by omega), ih (h.mono (by omega) (by omega))]

theorem slice_add (m : Nat → α) (off n k : Nat) :
    slice m off (n + k) = slice m off n ++ slice m (off + n) k := by
  induction n generalizing off with
  | zero => simp [slice]
  | succ n ih =>
    rw [Nat.add_right_comm, slice, slice, ih, List.cons_append, Nat.add_assoc, Nat.add_comm 1 n]

/-- A slice is the list that its cells spell. -/
theorem slice_eq_iff {m : Nat → α} {off : Nat} {xs : List α} :
    slice m off xs.length = xs ↔ ∀ i (h : i < xs.length), m (off + i) = xs[i] := by
  constructor
  · intro h i hi
    have hget : (slice m off xs.length)[i]? = xs[i]? := by rw [h]
    rw [getElem?_slice, if_pos hi, List.getElem?_eq_getElem hi] at hget
    exact Option.some.inj hget
  · intro h
    apply List.ext_getElem?
    intro i
    rw [getElem?_slice]
    by_cases hi : i < xs.length
    · rw [if_pos hi, h i hi, List.getElem?_eq_getElem hi]
    · rw [if_neg hi, List.getElem?_eq_none (by omega)]

/-- What was just laid down reads back. -/
theorem slice_overlay (m : Nat → α) (off : Nat) (xs : List α) :
    slice (overlay m off xs) off xs.length = xs :=
  slice_eq_iff.mpr fun _ hi => overlay_of_mem hi

end TaktOS.Lib
