import TaktOS.Lib.ByteMap

/-!
# Erase-before-write memory

A raw flash erases whole blocks and writes single bytes. A driver that hides this
erases every block a write touches and then lays the data down: `program`. What it
puts into the range it was asked to write is exactly the data; what it does to the
rest of the first and the last block is to blank it.

Writing one long image as a sequence of consecutive pieces is where that shows. A
piece that starts inside a block blanks whatever earlier pieces left in that block.
`programAll_data` says which cells survive, and `slice_eq_iff_blanked` when the image does.
-/

namespace TaktOS.Lib

variable {α : Type}

/-! ## Block arithmetic -/

/-- The first address of the block holding `a`. -/
def blockFloor (S a : Nat) : Nat := a / S * S

/-- The first block boundary at or above `a`. -/
def blockCeil (S a : Nat) : Nat := (a + (S - 1)) / S * S

theorem blockFloor_le (S a : Nat) : blockFloor S a ≤ a := Nat.div_mul_le_self a S

theorem lt_blockFloor_add {S : Nat} (hS : 0 < S) (a : Nat) : a < blockFloor S a + S := by
  have h := Nat.lt_succ_self (a / S)
  rw [Nat.div_lt_iff_lt_mul hS, Nat.succ_mul] at h
  exact h

theorem le_blockCeil {S : Nat} (hS : 0 < S) (a : Nat) : a ≤ blockCeil S a := by
  have h := lt_blockFloor_add hS (a + (S - 1))
  unfold blockFloor at h
  unfold blockCeil
  omega

theorem le_blockFloor {S a b : Nat} (hb : S ∣ b) (h : b ≤ a) : b ≤ blockFloor S a := by
  obtain ⟨k, rfl⟩ := hb
  rcases Nat.eq_zero_or_pos S with h0 | hS
  · simp [h0]
  · unfold blockFloor
    rw [Nat.mul_comm S k]
    exact Nat.mul_le_mul_right S ((Nat.le_div_iff_mul_le hS).mpr (by rwa [Nat.mul_comm]))

theorem blockCeil_le {S a b : Nat} (hS : 0 < S) (hb : S ∣ b) (h : a ≤ b) : blockCeil S a ≤ b := by
  obtain ⟨k, rfl⟩ := hb
  unfold blockCeil
  rw [Nat.mul_comm S k]
  refine Nat.mul_le_mul_right S (Nat.le_of_lt_succ ((Nat.div_lt_iff_lt_mul hS).mpr ?_))
  rw [Nat.succ_mul, Nat.mul_comm k S]
  omega

theorem blockCeil_mono {S a b : Nat} (h : a ≤ b) : blockCeil S a ≤ blockCeil S b :=
  Nat.mul_le_mul_right S (Nat.div_le_div_right (Nat.add_le_add_right h _))

theorem blockFloor_add {S a : Nat} (hS : 0 < S) (ha : S ∣ a) (x : Nat) :
    blockFloor S (a + x) = a + blockFloor S x := by
  obtain ⟨k, rfl⟩ := ha
  unfold blockFloor
  rw [Nat.mul_add_div hS, Nat.add_mul, Nat.mul_comm k S]

theorem blockCeil_add {S a : Nat} (hS : 0 < S) (ha : S ∣ a) (x : Nat) :
    blockCeil S (a + x) = a + blockCeil S x := by
  obtain ⟨k, rfl⟩ := ha
  unfold blockCeil
  rw [Nat.add_assoc, Nat.mul_add_div hS, Nat.add_mul, Nat.mul_comm k S]

/-- An address below `p` lies in `p`'s block exactly when it is past the block's start. -/
theorem same_block_iff {S a p : Nat} (hS : 0 < S) (h : a < p) :
    a / S = p / S ↔ blockFloor S p ≤ a := by
  constructor
  · intro he
    rw [blockFloor, ← he]
    exact blockFloor_le S a
  · intro hle
    refine Nat.le_antisymm (Nat.div_le_div_right (Nat.le_of_lt h)) ?_
    exact (Nat.le_div_iff_mul_le hS).mpr hle

/-! ## One erase-before-write -/

/-- Blank every block the range touches, then lay the data down. -/
def program (S : Nat) (v : α) (m : Nat → α) (off : Nat) (xs : List α) : Nat → α :=
  overlay (fill m (blockFloor S off) (blockCeil S (off + xs.length)) v) off xs

variable {S : Nat} {v : α} {m : Nat → α} {off a : Nat} {xs : List α}

theorem program_outside (h : a < blockFloor S off ∨ blockCeil S (off + xs.length) ≤ a)
    (hS : 0 < S) : program S v m off xs a = m a := by
  have h1 := blockFloor_le S off
  have h2 := le_blockCeil hS (off + xs.length)
  rw [program, overlay_of_not_mem (by omega), fill_of_not_mem (by omega)]

theorem program_data {i : Nat} (h : i < xs.length) : program S v m off xs (off + i) = xs[i] :=
  overlay_of_mem h

theorem program_below (h : a < off) (h' : blockFloor S off ≤ a) (hS : 0 < S) :
    program S v m off xs a = v := by
  have := le_blockCeil hS (off + xs.length)
  rw [program, overlay_of_lt h, fill_of_mem h' (by omega)]

theorem program_above (h : off + xs.length ≤ a) (h' : a < blockCeil S (off + xs.length)) :
    program S v m off xs a = v := by
  have := blockFloor_le S off
  rw [program, overlay_of_ge h, fill_of_mem (by omega) h']

/-- Below the range, a write blanks the cells of its first block and no others. -/
theorem program_lt (h : a < off) (hS : 0 < S) :
    program S v m off xs a = if a / S = off / S then v else m a := by
  by_cases hb : a / S = off / S
  · rw [if_pos hb]
    exact program_below h ((same_block_iff hS h).mp hb) hS
  · rw [if_neg hb]
    have hlt : a < blockFloor S off := by
      rcases Nat.lt_or_ge a (blockFloor S off) with hlt | hge
      · exact hlt
      · exact absurd ((same_block_iff hS h).mpr hge) hb
    exact program_outside (Or.inl hlt) hS

theorem agreeOn_program {lo hi : Nat} (hS : 0 < S)
    (h : hi ≤ blockFloor S off ∨ blockCeil S (off + xs.length) ≤ lo) :
    AgreeOn lo hi (program S v m off xs) m :=
  fun _ _ _ => program_outside (by omega) hS

/-- What a write leaves does not depend on what its blocks held. -/
theorem program_congr {m' : Nat → α} (hS : 0 < S)
    (h : ∀ a, a < blockFloor S off ∨ blockCeil S (off + xs.length) ≤ a → m a = m' a) :
    program S v m off xs = program S v m' off xs := by
  funext a
  by_cases hin : blockFloor S off ≤ a ∧ a < blockCeil S (off + xs.length)
  · by_cases hdata : off ≤ a ∧ a < off + xs.length
    · have ha : a = off + (a - off) := by omega
      rw [ha, program_data (by omega), program_data (by omega)]
    · unfold program
      rw [overlay_of_not_mem (by omega), overlay_of_not_mem (by omega), fill_of_mem hin.1 hin.2,
        fill_of_mem hin.1 hin.2]
  · rw [program_outside (by omega) hS, program_outside (by omega) hS]
    exact h a (by omega)

/-- What was just programmed reads back. -/
theorem slice_program : slice (program S v m off xs) off xs.length = xs := slice_overlay _ _ _

/-! ## An image in consecutive pieces -/

/-- Program the pieces one after the other, the first at `base`. -/
def programAll (S : Nat) (v : α) : (Nat → α) → Nat → List (List α) → Nat → α
  | m, _, [] => m
  | m, base, xs :: xss => programAll S v (program S v m base xs) (base + xs.length) xss

/-- Where each piece starts. -/
def pieceStarts : Nat → List (List α) → List Nat
  | _, [] => []
  | base, xs :: xss => base :: pieceStarts (base + xs.length) xss

theorem le_of_mem_pieceStarts {p : Nat} :
    ∀ {xss : List (List α)} {base : Nat}, p ∈ pieceStarts base xss → base ≤ p := by
  intro xss
  induction xss with
  | nil => intro base h; simp [pieceStarts] at h
  | cons xs xss ih =>
    intro base h
    rcases List.mem_cons.mp h with h | h
    · omega
    · have := ih h; omega

/-- Below the image, a cell is blanked exactly when some piece starts in its block. -/
theorem programAll_lt (hS : 0 < S) :
    ∀ {xss : List (List α)} {m : Nat → α} {base a : Nat}, a < base →
      programAll S v m base xss a
        = if ∃ p ∈ pieceStarts base xss, a / S = p / S then v else m a := by
  intro xss
  induction xss with
  | nil => intro m base a _; simp [programAll, pieceStarts]
  | cons xs xss ih =>
    intro m base a h
    rw [programAll, ih (show a < base + xs.length by omega), program_lt h hS]
    by_cases h1 : a / S = base / S
    · -- blank already: what later pieces do to the cell can only blank it again
      have hmem : base ∈ pieceStarts base (xs :: xss) := List.mem_cons_self
      rw [if_pos h1, ite_self, if_pos ⟨base, hmem, h1⟩]
    · -- this piece leaves the cell alone, so the later ones decide
      rw [if_neg h1]
      have hiff : (∃ p ∈ pieceStarts base (xs :: xss), a / S = p / S)
          ↔ ∃ p ∈ pieceStarts (base + xs.length) xss, a / S = p / S := by
        simp [pieceStarts, h1]
      simp only [hiff]

/--
**Which cells of an image survive.** A cell holds its byte of the image unless a later
piece starts in the same block; then it is blank.
-/
theorem programAll_data (hS : 0 < S) :
    ∀ {xss : List (List α)} {m : Nat → α} {base i : Nat} (h : i < xss.flatten.length),
      programAll S v m base xss (base + i)
        = if ∃ p ∈ pieceStarts base xss, base + i < p ∧ (base + i) / S = p / S then v
          else xss.flatten[i] := by
  intro xss
  induction xss with
  | nil => intro m base i h; simp at h
  | cons xs xss ih =>
    intro m base i h
    rw [programAll]
    have hself : ¬ (base + i < base ∧ (base + i) / S = base / S) := fun hc => by omega
    have hiff : (∃ p ∈ pieceStarts base (xs :: xss), base + i < p ∧ (base + i) / S = p / S)
        ↔ ∃ p ∈ pieceStarts (base + xs.length) xss, base + i < p ∧ (base + i) / S = p / S := by
      simp only [pieceStarts, List.mem_cons, exists_eq_or_imp, hself, false_or]
    simp only [hiff]
    by_cases hi : i < xs.length
    · -- a cell of the first piece: every later piece starts above it
      have hlater : (∃ p ∈ pieceStarts (base + xs.length) xss,
            base + i < p ∧ (base + i) / S = p / S)
          ↔ ∃ p ∈ pieceStarts (base + xs.length) xss, (base + i) / S = p / S := by
        constructor
        · rintro ⟨p, hp, _, he⟩; exact ⟨p, hp, he⟩
        · rintro ⟨p, hp, he⟩
          have := le_of_mem_pieceStarts hp
          exact ⟨p, hp, by omega, he⟩
      simp only [hlater]
      rw [programAll_lt hS (by omega), program_data hi]
      simp [List.getElem_append_left hi]
    · -- a cell of a later piece, counted from where the second piece starts
      have hlen : i - xs.length < xss.flatten.length := by
        simp only [List.flatten_cons, List.length_append] at h
        omega
      have hih := @ih (program S v m base xs) (base + xs.length) _ hlen
      rw [show base + xs.length + (i - xs.length) = base + i by omega] at hih
      rw [hih]
      simp [List.getElem_append_right (Nat.le_of_not_lt hi)]

/--
Reading an image out of cells of which some were blanked gives the image exactly when
the blanked bytes were blank to begin with.
-/
theorem slice_eq_iff_blanked {xs : List α} {base : Nat} {D : Nat → Prop}
    (hin : ∀ i, i < xs.length → D (base + i) → m (base + i) = v)
    (hout : ∀ i (h : i < xs.length), ¬ D (base + i) → m (base + i) = xs[i]) :
    slice m base xs.length = xs ↔ ∀ i (h : i < xs.length), D (base + i) → xs[i] = v := by
  rw [slice_eq_iff]
  constructor
  · intro h i hi hd
    rw [← h i hi]
    exact hin i hi hd
  · intro h i hi
    rcases Classical.em (D (base + i)) with hd | hd
    · rw [hin i hi hd, h i hi hd]
    · exact hout i hi hd

end TaktOS.Lib
