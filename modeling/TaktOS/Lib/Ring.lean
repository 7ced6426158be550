import Mathlib.Algebra.GroupWithZero.Nat

/-!
# Circular buffers

An array of `n` slots used as a queue: a head index, a tail index and a count. The
**contents** are the values met walking round from the head for `count` slots; what
the other slots hold is left over from earlier and means nothing.

`Placed` ties the redundant tail to the other two. Its lemmas and the two contents
lemmas are all a client needs to see the three counters as one list.
-/

namespace TaktOS.Lib.Ring

variable {α : Type} {n : Nat}

/-- The counters of a queue agree: no more than fits, and the tail just after the last. -/
structure Placed (n head tail count : Nat) : Prop where
  count_le : count ≤ n
  tail_eq : tail = (head + count) % n

theorem placed_empty {head : Nat} (h : head < n) : Placed n head head 0 :=
  ⟨Nat.zero_le n, (Nat.mod_eq_of_lt h).symm⟩

theorem Placed.push {head tail count : Nat} (h : Placed n head tail count) (hc : count < n) :
    Placed n head ((tail + 1) % n) (count + 1) :=
  ⟨hc, by rw [h.tail_eq, Nat.mod_add_mod, Nat.add_assoc]⟩

theorem Placed.pop {head tail count : Nat} (h : Placed n head tail (count + 1)) :
    Placed n ((head + 1) % n) tail count :=
  ⟨Nat.le_of_succ_le h.count_le, by
    rw [h.tail_eq, Nat.mod_add_mod, Nat.add_assoc, Nat.add_comm 1 count]⟩

/-- Slots less than a full turn apart are different slots. -/
theorem slot_ne {head i j : Nat} (hij : i < j) (hj : j < n) : (head + i) % n ≠ (head + j) % n := by
  intro h
  have hm : (head + j - (head + i)) % n = 0 := Nat.sub_mod_eq_zero_of_mod_eq h.symm
  rw [Nat.add_sub_add_left, Nat.mod_eq_of_lt (by omega)] at hm
  omega

variable [NeZero n]

/-- The `count` values from slot `head` on, going round at the end of the array. -/
def contents (slots : Vector α n) (head count : Nat) : List α :=
  (List.range count).map fun k => slots[Fin.ofNat n (head + k)]

@[simp] theorem contents_length (slots : Vector α n) (head count : Nat) :
    (contents slots head count).length = count := by
  simp [contents]

@[simp] theorem contents_zero (slots : Vector α n) (head : Nat) : contents slots head 0 = [] := rfl

/-- **Writing at the tail puts the value last.** -/
theorem contents_push {slots : Vector α n} {head tail count : Nat} (x : α)
    (h : Placed n head tail count) (hc : count < n) (ht : tail < n) :
    contents (slots.set tail x) head (count + 1) = contents slots head count ++ [x] := by
  rw [contents, contents, List.range_succ, List.map_append]
  refine congr (congrArg _ (List.map_congr_left fun k hk => ?_)) ?_
  · -- an earlier slot is not the one written to
    have hne : (head + k) % n ≠ (head + count) % n := slot_ne (List.mem_range.mp hk) hc
    have ht' : tail ≠ (head + k) % n := h.tail_eq ▸ hne.symm
    exact Vector.getElem_set_ne ht (Nat.mod_lt _ (Nat.pos_of_neZero n)) ht'
  · simp [h.tail_eq]

/-- **Reading at the head takes the value that was first.** -/
theorem contents_pop (slots : Vector α n) {head : Nat} (hh : head < n) (count : Nat) :
    contents slots head (count + 1) = slots[head] :: contents slots ((head + 1) % n) count := by
  rw [contents, List.range_succ_eq_map, List.map_cons, List.map_map]
  refine congr (congrArg _ ?_) (List.map_congr_left fun k _ => ?_)
  · simp [Nat.mod_eq_of_lt hh]
  have hk : Fin.ofNat n (head + (k + 1)) = Fin.ofNat n ((head + 1) % n + k) := by
    apply Fin.ext
    simp only [Fin.val_ofNat]
    rw [Nat.mod_add_mod]
    congr 1
    omega
  simp only [Function.comp, Nat.succ_eq_add_one, hk]

end TaktOS.Lib.Ring
