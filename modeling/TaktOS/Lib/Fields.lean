/-!
# Separated fields

A text cut at a separator gives its **fields**, empty ones included; its **tokens** are the fields
that are not empty. A field cut at the first mark gives a pair. What one more piece of text adds to
the fields of a text goes to the last of them first, which is what decides whether a text that was
cut short still has all its pairs.
-/

namespace TaktOS.Lib

variable {α : Type} [BEq α] [LawfulBEq α]

/-- The parts before and after the first `mark`. -/
def cutAt (mark : α) (s : List α) : Option (List α × List α) :=
  if mark ∈ s then some (s.takeWhile (· != mark), (s.dropWhile (· != mark)).tail) else none

/-- The fields that are not empty. -/
def tokens (sep : α) (s : List α) : List (List α) := (s.splitOn sep).filter (!·.isEmpty)

/-- The field a text ends in. -/
def lastField (sep : α) (s : List α) : List α :=
  (s.splitOn sep).getLast (List.splitOn_ne_nil sep s)

/-- The pairs of the fields that have a mark, in order. -/
def fieldPairs (sep mark : α) (s : List α) : List (List α × List α) :=
  (s.splitOn sep).filterMap (cutAt mark)

theorem takeWhile_append_cons {mark : α} {k v : List α} (h : mark ∉ k) :
    (k ++ mark :: v).takeWhile (· != mark) = k
      ∧ (k ++ mark :: v).dropWhile (· != mark) = mark :: v := by
  have hk : ∀ x ∈ k, (x != mark) = true := fun x hx => by
    rw [bne_iff_ne]
    exact fun he => h (he ▸ hx)
  rw [List.takeWhile_append_of_pos hk, List.dropWhile_append_of_pos hk]
  simp

theorem cutAt_append_cons {mark : α} {k v : List α} (h : mark ∉ k) :
    cutAt mark (k ++ mark :: v) = some (k, v) := by
  obtain ⟨htake, hdrop⟩ := takeWhile_append_cons (v := v) h
  rw [cutAt, if_pos (by simp), htake, hdrop, List.tail_cons]

theorem cutAt_none {mark : α} {s : List α} : cutAt mark s = none ↔ mark ∉ s := by
  unfold cutAt
  split <;> simp_all

omit [LawfulBEq α] in
/-- A field is no longer than the text and has no other characters. -/
theorem field_within {sep : α} {f s : List α} (h : f ∈ s.splitOn sep) :
    f.length ≤ s.length ∧ ∀ c ∈ f, c ∈ s := by
  induction s generalizing f with
  | nil =>
    obtain rfl : f = [] := by simpa using h
    exact ⟨Nat.le_refl _, fun _ hc => hc⟩
  | cons x s ih =>
    obtain ⟨g, gs, hs⟩ := List.exists_cons_of_ne_nil (List.splitOn_ne_nil sep s)
    have hold : ∀ g' ∈ s.splitOn sep, g'.length ≤ (x :: s).length ∧ ∀ c ∈ g', c ∈ x :: s :=
      fun g' hg => ⟨Nat.le_succ_of_le (ih hg).1,
        fun c hc => List.mem_cons_of_mem _ ((ih hg).2 c hc)⟩
    rw [List.splitOn_cons_eq_if_modifyHead] at h
    split at h
    · rcases List.mem_cons.mp h with rfl | h
      · exact ⟨Nat.zero_le _, by simp⟩
      · exact hold f h
    · rw [hs, List.modifyHead_cons] at h
      rcases List.mem_cons.mp h with rfl | h
      · obtain ⟨hlen, hmem⟩ := ih (f := g) (by rw [hs]; exact List.mem_cons_self)
        refine ⟨Nat.succ_le_succ hlen, fun c hc => ?_⟩
        rcases List.mem_cons.mp hc with rfl | hc
        · exact List.mem_cons_self
        · exact List.mem_cons_of_mem _ (hmem c hc)
      · exact hold f (by rw [hs]; exact List.mem_cons_of_mem _ h)

/-- So is the value of a pair. -/
theorem fieldPairs_within {sep mark : α} {s : List α} {kv : List α × List α}
    (h : kv ∈ fieldPairs sep mark s) : kv.2.length ≤ s.length ∧ ∀ c ∈ kv.2, c ∈ s := by
  obtain ⟨f, hf, hcut⟩ := List.mem_filterMap.mp h
  obtain ⟨hlen, hmem⟩ := field_within hf
  unfold cutAt at hcut
  split at hcut
  · obtain rfl := Option.some.inj hcut
    have hsub : ((f.dropWhile (· != mark)).tail).Sublist f :=
      (List.tail_sublist _).trans (List.dropWhile_sublist _)
    exact ⟨Nat.le_trans hsub.length_le hlen, fun c hc => hmem c (hsub.subset hc)⟩
  · exact absurd hcut (by simp)

/-! ## Tokens -/

theorem tokens_of_not_mem {sep : α} {s : List α} (h : sep ∉ s) (hs : s ≠ []) :
    tokens sep s = [s] := by
  simp [tokens, List.splitOn_eq_singleton h, hs]

omit [LawfulBEq α] in
@[simp] theorem tokens_nil {sep : α} : tokens sep [] = [] := by
  simp [tokens]

/-- A text from its first separator on. -/
theorem tokens_append_cons {sep : α} {s rest : List α} (h : sep ∉ s) (hs : s ≠ []) :
    tokens sep (s ++ sep :: rest) = s :: tokens sep rest := by
  simp [tokens, List.splitOn_append_cons_self_of_not_mem h, hs]

/-- Separators in front of a text make no token. -/
theorem tokens_cons_self {sep : α} {s : List α} : tokens sep (sep :: s) = tokens sep s := by
  rw [tokens, ← List.nil_append (sep :: s), List.splitOn_append_cons_self]
  simp [tokens]

theorem tokens_dropWhile {sep : α} {s : List α} :
    tokens sep (s.dropWhile (· == sep)) = tokens sep s := by
  induction s with
  | nil => rfl
  | cons x s ih =>
    rw [List.dropWhile_cons]
    split
    · rename_i hx
      rw [ih, beq_iff_eq.mp hx, tokens_cons_self]
    · rfl

/-- No empty field has a pair. -/
theorem filterMap_tokens {sep mark : α} {s : List α} :
    (tokens sep s).filterMap (cutAt mark) = fieldPairs sep mark s := by
  rw [tokens, fieldPairs, List.filterMap_filter]
  refine congrArg (fun f => List.filterMap f (s.splitOn sep)) (funext fun f => ?_)
  cases f with
  | nil => simp [cutAt]
  | cons x f => rfl

/-! ## One more piece of text -/

omit [LawfulBEq α] in
/-- What follows a text goes on with its last field. -/
theorem splitOn_append {sep : α} {p q : List α} :
    (p ++ q).splitOn sep
      = (p.splitOn sep).dropLast ++ (q.splitOn sep).modifyHead (lastField sep p ++ ·) := by
  induction p with
  | nil =>
    obtain ⟨g, gs, hq⟩ := List.exists_cons_of_ne_nil (List.splitOn_ne_nil sep q)
    simp [lastField, hq]
  | cons x p ih =>
    obtain ⟨f, fs, hp⟩ := List.exists_cons_of_ne_nil (List.splitOn_ne_nil sep p)
    have hcons : (x :: p).splitOn sep
        = if (x == sep) = true then [] :: f :: fs else (x :: f) :: fs := by
      rw [List.splitOn_cons_eq_if_modifyHead, hp, List.modifyHead_cons]
    have hlast : lastField sep p = (f :: fs).getLast (List.cons_ne_nil f fs) := by
      simp only [lastField, hp]
    rw [List.cons_append, List.splitOn_cons_eq_if_modifyHead, ih, hlast, hp]
    split
    · rename_i hx
      have hlast' : lastField sep (x :: p) = (f :: fs).getLast (List.cons_ne_nil f fs) := by
        simp only [lastField, hcons, hx, if_true]
        exact List.getLast_cons _
      rw [hcons, if_pos hx, hlast']
      rfl
    · rename_i hx
      rw [hcons, if_neg hx]
      cases fs with
      | nil =>
        have hlast' : lastField sep (x :: p) = x :: f := by
          simp only [lastField, hcons, hx]
          rfl
        obtain ⟨g, gs, hq⟩ := List.exists_cons_of_ne_nil (List.splitOn_ne_nil sep q)
        rw [hlast', hq]
        simp
      | cons f' fs =>
        have hlast' : lastField sep (x :: p)
            = (f' :: fs).getLast (List.cons_ne_nil f' fs) := by
          simp only [lastField, hcons, hx]
          exact List.getLast_cons _
        rw [hlast', List.getLast_cons (List.cons_ne_nil f' fs)]
        rfl

omit [LawfulBEq α] in
theorem splitOn_eq_dropLast {sep : α} {p : List α} :
    p.splitOn sep = (p.splitOn sep).dropLast ++ [lastField sep p] :=
  (List.dropLast_concat_getLast (List.splitOn_ne_nil sep p)).symm

/-- Nothing is added to the last field exactly where the text ends or a separator follows. -/
theorem splitOn_head_nil_iff {sep : α} {q g : List α} {gs : List (List α)}
    (hq : q.splitOn sep = g :: gs) : g = [] ↔ q = [] ∨ q.head? = some sep := by
  cases q with
  | nil => simp_all
  | cons x q =>
    rw [List.splitOn_cons_eq_if_modifyHead] at hq
    obtain ⟨f, fs, hq'⟩ := List.exists_cons_of_ne_nil (List.splitOn_ne_nil sep q)
    split at hq
    · rename_i hx
      simp [(List.cons.inj hq).1.symm, beq_iff_eq.mp hx]
    · rename_i hx
      rw [hq', List.modifyHead_cons] at hq
      rw [beq_iff_eq] at hx
      simp [(List.cons.inj hq).1.symm, hx]

/-- A text has a mark where one of its fields has. -/
theorem mem_splitOn_iff {sep mark : α} (hne : mark ≠ sep) {q : List α} :
    mark ∈ q ↔ ∃ f ∈ q.splitOn sep, mark ∈ f := by
  induction q with
  | nil => simp
  | cons x q ih =>
    obtain ⟨f, fs, hq⟩ := List.exists_cons_of_ne_nil (List.splitOn_ne_nil sep q)
    rw [List.mem_cons, ih, List.splitOn_cons_eq_if_modifyHead, hq]
    split
    · rename_i hx
      have hmx : mark ≠ x := beq_iff_eq.mp hx ▸ hne
      simp [hmx]
    · simp [or_assoc]

/-- The pairs of a text as its last field and what follows it decide them. -/
theorem fieldPairs_append {sep mark : α} {p q g : List α} {gs : List (List α)}
    (hq : q.splitOn sep = g :: gs) :
    fieldPairs sep mark (p ++ q)
      = (p.splitOn sep).dropLast.filterMap (cutAt mark)
        ++ (((lastField sep p ++ g) :: gs).filterMap (cutAt mark)) := by
  rw [fieldPairs, splitOn_append, hq, List.modifyHead_cons, List.filterMap_append]

theorem fieldPairs_eq {sep mark : α} {p : List α} :
    fieldPairs sep mark p
      = (p.splitOn sep).dropLast.filterMap (cutAt mark)
        ++ [lastField sep p].filterMap (cutAt mark) := by
  rw [← List.filterMap_append, ← splitOn_eq_dropLast, fieldPairs]

theorem filterMap_cutAt_eq_nil {mark : α} {fs : List (List α)} :
    fs.filterMap (cutAt mark) = [] ↔ ∀ f ∈ fs, mark ∉ f := by
  simp only [List.filterMap_eq_nil_iff, cutAt_none]

theorem fieldPairs_eq_nil {sep mark : α} (hne : mark ≠ sep) {s : List α} :
    fieldPairs sep mark s = [] ↔ mark ∉ s := by
  rw [fieldPairs, filterMap_cutAt_eq_nil, mem_splitOn_iff hne]
  simp

/-- A field with a mark keeps its pair, with a longer value. -/
theorem cutAt_append {mark : α} {f g : List α} (h : mark ∈ f) :
    ∃ k v, cutAt mark f = some (k, v) ∧ cutAt mark (f ++ g) = some (k, v ++ g) := by
  obtain ⟨k, v, rfl, hk⟩ := List.eq_append_cons_of_mem h
  refine ⟨k, v, cutAt_append_cons hk, ?_⟩
  rw [List.append_assoc, List.cons_append]
  exact cutAt_append_cons hk

/--
**When a text that was cut short still has all its pairs.** What was cut off has no mark, and it
starts a field of its own or the field it goes on with has no pair either.
-/
theorem fieldPairs_append_eq_iff {sep mark : α} (hne : mark ≠ sep) {p q : List α} :
    fieldPairs sep mark (p ++ q) = fieldPairs sep mark p
      ↔ mark ∉ q ∧ (q = [] ∨ q.head? = some sep ∨ mark ∉ lastField sep p) := by
  obtain ⟨g, gs, hq⟩ := List.exists_cons_of_ne_nil (List.splitOn_ne_nil sep q)
  have hmark : mark ∉ q ↔ mark ∉ g ∧ gs.filterMap (cutAt mark) = [] := by
    rw [mem_splitOn_iff hne, hq, filterMap_cutAt_eq_nil]
    simp
  rw [fieldPairs_append hq, fieldPairs_eq, List.append_cancel_left_eq, hmark, ← or_assoc,
    ← splitOn_head_nil_iff hq]
  by_cases hlast : mark ∈ lastField sep p
  · obtain ⟨k, v, hkv, hkv'⟩ := cutAt_append (g := g) hlast
    rw [List.filterMap_cons_some hkv', List.filterMap_cons_some hkv]
    simp only [List.filterMap_nil, List.cons.injEq, Prod.mk.injEq, true_and, hlast,
      not_true_eq_false, or_false]
    constructor
    · rintro ⟨hv, hgs⟩
      have hg : g = [] := by simpa using hv
      exact ⟨⟨hg ▸ List.not_mem_nil, hgs⟩, hg⟩
    · rintro ⟨⟨_, hgs⟩, rfl⟩
      exact ⟨List.append_nil v, hgs⟩
  · have hnone : [lastField sep p].filterMap (cutAt mark) = [] :=
      filterMap_cutAt_eq_nil.mpr (by simpa using hlast)
    rw [hnone, filterMap_cutAt_eq_nil, filterMap_cutAt_eq_nil]
    simp [hlast]

/-- A text has no fewer pairs than what comes first in it. -/
theorem length_fieldPairs_append {sep mark : α} {p q : List α} :
    (fieldPairs sep mark p).length ≤ (fieldPairs sep mark (p ++ q)).length := by
  obtain ⟨g, gs, hq⟩ := List.exists_cons_of_ne_nil (List.splitOn_ne_nil sep q)
  rw [fieldPairs_append hq, fieldPairs_eq, List.length_append, List.length_append]
  refine Nat.add_le_add_left ?_ _
  by_cases hlast : mark ∈ lastField sep p
  · obtain ⟨k, v, hkv, hkv'⟩ := cutAt_append (g := g) hlast
    rw [List.filterMap_cons_some hkv', List.filterMap_cons_some hkv]
    simp
  · rw [filterMap_cutAt_eq_nil.mpr (by simpa using hlast)]
    exact Nat.zero_le _

end TaktOS.Lib
