import Mathlib.Algebra.GroupWithZero.Nat

/-!
# Tallies

Counters that are updated sample by sample: how many there were, their sum, their maximum, the last
of them, and how many were over a limit of their own. A tally is of a list of samples when the
counters are what the list says, the counts and the sum as far as their width goes.

Samples may be tagged. What the tags sum to is then bounded by what all of them do.
-/

namespace TaktOS.Lib

structure Sample where
  us : Nat
  limit : UInt32
  deriving DecidableEq, Repr

/-- A limit of 0 is none. -/
def Sample.overran (x : Sample) : Bool := 0 < x.limit.toNat ∧ x.limit.toNat < x.us

structure Tally where
  count : UInt64 := 0
  total : UInt64 := 0
  max : UInt64 := 0
  last : UInt64 := 0
  overruns : UInt32 := 0
  deriving DecidableEq, Repr

def Tally.add (t : Tally) (us : UInt64) (limit : UInt32) : Tally where
  count := t.count + 1
  total := t.total + us
  max := if us > t.max then us else t.max
  last := us
  overruns := if limit > 0 ∧ us > limit.toUInt64 then t.overruns + 1 else t.overruns

def totalOf (xs : List Sample) : Nat := (xs.map Sample.us).sum

/-- The largest sample, 0 where there is none. -/
def largest (xs : List Sample) : Nat := (xs.map Sample.us).foldl max 0

/-- The counters are those of the samples. -/
structure Tally.Of (t : Tally) (xs : List Sample) : Prop where
  count : t.count = UInt64.ofNat xs.length
  total : t.total = UInt64.ofNat (totalOf xs)
  max : t.max.toNat = largest xs
  last : t.last.toNat = (xs.getLast?.map Sample.us).getD 0
  overruns : t.overruns = UInt32.ofNat (xs.countP Sample.overran)

/-! ## One more sample -/

theorem totalOf_append (xs ys : List Sample) :
    totalOf (xs ++ ys) = totalOf xs + totalOf ys := by
  simp [totalOf]

theorem totalOf_singleton (x : Sample) : totalOf [x] = x.us := by
  simp [totalOf]

theorem largest_concat (xs : List Sample) (x : Sample) :
    largest (xs ++ [x]) = max (largest xs) x.us := by
  simp [largest]

theorem largest_le {xs : List Sample} {n : Nat} (h : ∀ x ∈ xs, x.us ≤ n) : largest xs ≤ n := by
  have hfold : ∀ (ys : List Sample) (a : Nat), a ≤ n → (∀ x ∈ ys, x.us ≤ n) →
      (ys.map Sample.us).foldl max a ≤ n := by
    intro ys
    induction ys with
    | nil => exact fun a ha _ => ha
    | cons y ys ih =>
      intro a ha hys
      exact ih _ (Nat.max_le.mpr ⟨ha, hys y List.mem_cons_self⟩)
        fun x hx => hys x (List.mem_cons_of_mem _ hx)
  exact hfold xs 0 (Nat.zero_le n) h

theorem Tally.of_nil : ({} : Tally).Of [] := ⟨rfl, rfl, rfl, rfl, rfl⟩

/-- **Adding a sample to the counters adds it to the list.** -/
theorem Tally.Of.add {t : Tally} {xs : List Sample} (h : t.Of xs) {us : UInt64} {x : Sample}
    (hx : us.toNat = x.us) : (t.add us x.limit).Of (xs ++ [x]) := by
  have hus : us = UInt64.ofNat x.us := by rw [← hx, UInt64.ofNat_toNat]
  constructor
  · rw [List.length_append, UInt64.ofNat_add, ← h.count]
    rfl
  · rw [totalOf_append, UInt64.ofNat_add, ← h.total]
    simp [Tally.add, totalOf, hus]
  · rw [largest_concat, ← h.max, ← hx, Tally.add]
    dsimp only
    split
    · rename_i hgt
      exact (Nat.max_eq_right (Nat.le_of_lt (UInt64.lt_iff_toNat_lt.mp hgt))).symm
    · rename_i hle
      exact (Nat.max_eq_left (UInt64.le_iff_toNat_le.mp (UInt64.not_lt.mp hle))).symm
  · simp [Tally.add, hx]
  · have hoverran : (x.limit > 0 ∧ us > x.limit.toUInt64) ↔ x.overran = true := by
      rw [Sample.overran, decide_eq_true_iff, ← hx]
      refine and_congr UInt32.lt_iff_toNat_lt (UInt64.lt_iff_toNat_lt.trans ?_)
      rw [UInt32.toNat_toUInt64]
    rw [List.countP_append, UInt32.ofNat_add, ← h.overruns, Tally.add]
    dsimp only
    by_cases hx' : x.overran = true
    · rw [if_pos (hoverran.mpr hx'), List.countP_singleton, if_pos hx']
      rfl
    · rw [if_neg (mt hoverran.mp hx'), List.countP_singleton, if_neg hx']
      exact (UInt32.add_zero _).symm

/-! ## Tagged samples -/

/-- The samples with the tag. -/
def tagged (i : Nat) (xs : List (Nat × Sample)) : List Sample :=
  xs.filterMap fun x => if x.1 = i then some x.2 else none

theorem tagged_concat (i : Nat) (xs : List (Nat × Sample)) (x : Nat × Sample) :
    tagged i (xs ++ [x]) = tagged i xs ++ if x.1 = i then [x.2] else [] := by
  rw [tagged, List.filterMap_append, ← tagged]
  by_cases h : x.1 = i <;> simp [h]

/-- The samples with a tag from `k` on. -/
def taggedFrom (k : Nat) (xs : List (Nat × Sample)) : List Sample :=
  xs.filterMap fun x => if k ≤ x.1 then some x.2 else none

theorem totalOf_taggedFrom (k : Nat) (xs : List (Nat × Sample)) :
    totalOf (taggedFrom k xs) = totalOf (tagged k xs) + totalOf (taggedFrom (k + 1) xs) := by
  induction xs with
  | nil => rfl
  | cons x xs ih =>
    simp only [totalOf, taggedFrom, tagged, List.filterMap_cons] at ih ⊢
    rcases Nat.lt_trichotomy x.1 k with hlt | heq | hgt
    · rw [if_neg (by omega), if_neg (by omega), if_neg (by omega)]
      exact ih
    · rw [if_pos (by omega), if_pos heq, if_neg (by omega)]
      simp only [List.map_cons, List.sum_cons]
      omega
    · rw [if_pos (by omega), if_neg (by omega), if_pos (by omega)]
      simp only [List.map_cons, List.sum_cons]
      omega

/-- **Sums by tag do not exceed the sum.** -/
theorem sum_tagged_le {es : List Nat} {xs : List (Nat × Sample)}
    (h : ∀ i v, es[i]? = some v → v ≤ totalOf (tagged i xs)) :
    es.sum ≤ totalOf (xs.map Prod.snd) := by
  have hfrom : ∀ (es : List Nat) (k : Nat),
      (∀ i v, es[i]? = some v → v ≤ totalOf (tagged (k + i) xs)) →
      es.sum ≤ totalOf (taggedFrom k xs) := by
    intro es
    induction es with
    | nil => exact fun k _ => Nat.zero_le _
    | cons v es ih =>
      intro k hk
      have hv : v ≤ totalOf (tagged k xs) := hk 0 v rfl
      have hrest : es.sum ≤ totalOf (taggedFrom (k + 1) xs) := ih (k + 1) fun i w hi => by
        rw [Nat.add_assoc, Nat.add_comm 1 i]
        exact hk (i + 1) w hi
      rw [List.sum_cons, totalOf_taggedFrom]
      exact Nat.add_le_add hv hrest
  have hall : taggedFrom 0 xs = xs.map Prod.snd := by
    simp [taggedFrom]
  rw [← hall]
  exact hfrom es 0 fun i v hi => by
    rw [Nat.zero_add]
    exact h i v hi

end TaktOS.Lib
