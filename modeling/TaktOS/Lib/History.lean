/-!
# Histories

A history is a list that grows at its end, and the place of an entry in it is a name for
the entry that no later step changes. What is said of the entries between two places keeps
its truth as the history grows past them.

A list whose entries are replaced in their places has one for each of them still, related to it
as the replaced ones are.
-/

namespace TaktOS.Lib

variable {α : Type}

/-- An entry of a history that grew by one was there before or is the new one. -/
theorem getElem?_concat {l : List α} {x y : α} {t : Nat} :
    (l ++ [x])[t]? = some y ↔ l[t]? = some y ∨ t = l.length ∧ x = y := by
  rw [List.getElem?_append]
  split
  · rename_i h
    exact ⟨.inl, fun h' => h'.elim id fun ⟨ht, _⟩ => absurd ht (Nat.ne_of_lt h)⟩
  · rename_i h
    rw [List.getElem?_singleton, List.getElem?_eq_none (Nat.le_of_not_lt h)]
    split
    · rename_i h0
      have ht : t = l.length := by omega
      simp [ht]
    · rename_i h0
      have ht : t ≠ l.length := by omega
      simp [ht]

theorem lt_of_getElem? {l : List α} {x : α} {t : Nat} (h : l[t]? = some x) : t < l.length :=
  (List.getElem?_eq_some_iff.mp h).1

/-- An entry stays where it is. -/
theorem getElem?_concat_of {l : List α} {x y : α} {t : Nat} (h : l[t]? = some y) :
    (l ++ [x])[t]? = some y :=
  getElem?_concat.mpr (.inl h)

/-! ## One entry replaced -/

/-- What relates an entry to the one it is set to relates each to the one in its place. -/
theorem exists_of_set {R : α → α → Prop} (hrefl : ∀ x, R x x) {l : List α} {n : Nat} {x x' : α}
    (hx : l[n]? = some x) {t : Nat} {y : α} (hy : (l.set n x')[t]? = some y) (hR : R x x') :
    ∃ z, l[t]? = some z ∧ R z y := by
  by_cases heq : t = n
  · rw [heq, List.getElem?_set_self (lt_of_getElem? hx)] at hy
    exact ⟨x, heq ▸ hx, Option.some.inj hy ▸ hR⟩
  · rw [List.getElem?_set_ne (Ne.symm heq)] at hy
    exact ⟨y, hy, hrefl y⟩

theorem exists_of_modify {R : α → α → Prop} (hrefl : ∀ x, R x x) {l : List α} {n : Nat}
    {f : α → α} {t : Nat} {y : α} (hy : (l.modify n f)[t]? = some y)
    (hR : ∀ x, l[n]? = some x → R x (f x)) : ∃ z, l[t]? = some z ∧ R z y := by
  rw [List.getElem?_modify, Option.map_eq_map, Option.map_eq_some_iff] at hy
  obtain ⟨z, hz, rfl⟩ := hy
  refine ⟨z, hz, ?_⟩
  split
  · rename_i heq
    exact hR z (heq ▸ hz)
  · exact hrefl z

/-- What `f` shows of the entries is the same when it shows the same of the one that is changed. -/
theorem map_modify_same {β : Type} {f : α → β} {g : α → α} (h : ∀ x, f (g x) = f x) (l : List α)
    (n : Nat) : (l.modify n g).map f = l.map f := by
  apply List.ext_getElem?
  intro t
  rw [List.getElem?_map, List.getElem?_map, List.getElem?_modify]
  cases l[t]? with
  | none => rfl
  | some x =>
    by_cases hn : n = t
    · simp [hn, h]
    · simp [hn]

theorem map_set_same {β : Type} {f : α → β} {l : List α} {n : Nat} {x x' : α}
    (hx : l[n]? = some x) (h : f x' = f x) : (l.set n x').map f = l.map f := by
  obtain ⟨hn, hget⟩ := List.getElem?_eq_some_iff.mp hx
  have hlt : n < (l.map f).length := by rwa [List.length_map]
  have hself : f x' = (l.map f)[n] := by rw [List.getElem_map, hget, h]
  rw [List.map_set, hself, List.set_getElem_self]

/-- What `f` shows of the entry that is changed is `c`. -/
theorem map_modify_const {β : Type} {f : α → β} {g : α → α} {c : β} (h : ∀ x, f (g x) = c)
    (l : List α) (n : Nat) : (l.modify n g).map f = (l.map f).set n c := by
  apply List.ext_getElem?
  intro t
  rw [List.getElem?_map, List.getElem?_modify, List.getElem?_set, List.length_map,
    List.getElem?_map]
  by_cases hn : n = t
  · rw [if_pos hn, hn]
    rcases Nat.lt_or_ge t l.length with hlt | hge
    · simp [hlt, h]
    · simp [Nat.not_lt.mpr hge]
  · simp [hn]

/-! ## Folds -/

/-- What no entry of a history changes is what it was before it. -/
theorem foldl_unchanged {β : Type} {step : β → α → β} {b : β} {l : List α}
    (h : ∀ x ∈ l, step b x = b) : l.foldl step b = b := by
  induction l with
  | nil => rfl
  | cons x l ih =>
    rw [List.foldl_cons, h x List.mem_cons_self]
    exact ih fun y hy => h y (List.mem_cons_of_mem _ hy)

/-! ## Between two places -/

/-- No entry `x` strictly between two places. -/
def NoneBetween (l : List α) (x : α) (p t : Nat) : Prop :=
  ∀ q, p < q → q < t → l[q]? ≠ some x

theorem noneBetween_concat {l : List α} {x y : α} {p t : Nat} (ht : t ≤ l.length) :
    NoneBetween (l ++ [y]) x p t ↔ NoneBetween l x p t := by
  constructor
  · intro h q hp hq hx
    exact h q hp hq (getElem?_concat_of hx)
  · intro h q hp hq hx
    rcases getElem?_concat.mp hx with hx | ⟨rfl, -⟩
    · exact h q hp hq hx
    · omega

/-- Up to the end, after one more entry. -/
theorem noneBetween_concat_end {l : List α} {x y : α} {p : Nat} :
    NoneBetween (l ++ [y]) x p (l.length + 1) ↔
      NoneBetween l x p l.length ∧ (p < l.length → y ≠ x) := by
  constructor
  · intro h
    refine ⟨fun q hp hq hx => h q hp (by omega) (getElem?_concat_of hx), fun hp hy => ?_⟩
    exact h l.length hp (by omega) (getElem?_concat.mpr (.inr ⟨rfl, hy⟩))
  · rintro ⟨h, hy⟩ q hp hq hx
    rcases getElem?_concat.mp hx with hold | ⟨rfl, hnew⟩
    · exact h q hp (lt_of_getElem? hold) hold
    · exact hy hp hnew

/-! ## Where an entry is -/

/-- Where an entry can be in a history that grew by one. -/
theorem concat_eq_split {l before after : List α} {x y : α}
    (h : l ++ [y] = before ++ x :: after) :
    (∃ rest, after = rest ++ [y] ∧ l = before ++ x :: rest) ∨
      after = [] ∧ l = before ∧ y = x := by
  rcases List.eq_nil_or_concat after with rfl | ⟨rest, z, rfl⟩
  · obtain ⟨hl, hy⟩ := List.append_inj' h rfl
    exact .inr ⟨rfl, hl, (List.cons.inj hy).1⟩
  · rw [List.concat_eq_append, ← List.cons_append, ← List.append_assoc] at h
    obtain ⟨hl, hy⟩ := List.append_inj' h rfl
    exact .inl ⟨rest, by rw [(List.cons.inj hy).1, List.concat_eq_append], hl⟩

/-- An entry that is none of the last ones is before them. -/
theorem append_eq_split {l last before after : List α} {x : α} (hx : x ∉ last)
    (h : l ++ last = before ++ x :: after) :
    ∃ rest, after = rest ++ last ∧ l = before ++ x :: rest := by
  rcases List.append_eq_append_iff.mp h with ⟨front, -, hlast⟩ | ⟨tail, hl, htail⟩
  · exact absurd (hlast ▸ List.mem_append_right front List.mem_cons_self) hx
  · cases tail with
    | nil => exact absurd ((List.nil_append last ▸ htail) ▸ List.mem_cons_self) hx
    | cons y rest =>
      obtain ⟨hy, hafter⟩ := List.cons.inj htail
      exact ⟨rest, hafter, hy ▸ hl⟩

end TaktOS.Lib
