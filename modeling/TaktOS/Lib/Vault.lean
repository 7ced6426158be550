import TaktOS.Lib.Refinement

/-!
# A vault

Entries are kept in spaces, one of which is entered. The vault has one store of saved entries for
all spaces: saving lays the entries of the space over it, restoring lays it over the entries of the
space, and nothing is ever taken from it. Entering a space nothing was ever written to restores.
-/

namespace TaktOS.Lib

variable {ν κ υ : Type}

/-- The entries of one store where it has some, and those of the other elsewhere. -/
def laidOver (top bottom : κ → Option υ) : κ → Option υ := fun k => (top k).or (bottom k)

theorem laidOver_of_some {top bottom : κ → Option υ} {k : κ} {v : υ} (h : top k = some v) :
    laidOver top bottom k = some v := by
  unfold laidOver
  rw [h]
  rfl

theorem laidOver_of_none {top bottom : κ → Option υ} {k : κ} (h : top k = none) :
    laidOver top bottom k = bottom k := by
  unfold laidOver
  rw [h]
  rfl

structure Vault (ν κ υ : Type) where
  space : ν
  entries : ν → κ → Option υ := fun _ _ => none
  /-- The spaces that were written to. -/
  known : ν → Bool := fun _ => false
  saved : κ → Option υ := fun _ => none
  /-- Something was saved. -/
  complete : Bool := false

namespace Vault

inductive Op (ν κ υ : Type) where
  | enter (n : ν)
  | put (k : κ) (v : υ)
  | drop (k : κ)
  | look (k : κ)
  | save
  | restore
  /-- Everything is erased, and a space entered. -/
  | wipe (n : ν)

inductive Reply (υ : Type) where
  | done (ok : Bool)
  | found (v : Option υ)

/-- The space that is entered holds other entries; it was written to. -/
def write [DecidableEq ν] (t : Vault ν κ υ) (e : κ → Option υ) : Vault ν κ υ :=
  { t with
    entries := fun n => if n = t.space then e else t.entries n
    known := fun n => t.known n || decide (n = t.space) }

section

variable [DecidableEq ν]

@[simp] theorem write_space (t : Vault ν κ υ) (e : κ → Option υ) : (t.write e).space = t.space :=
  rfl

theorem write_known (t : Vault ν κ υ) (e : κ → Option υ) (n : ν) :
    (t.write e).known n = (t.known n || decide (n = t.space)) := rfl

@[simp] theorem write_entries_self (t : Vault ν κ υ) (e : κ → Option υ) :
    (t.write e).entries t.space = e := if_pos rfl

theorem write_entries_other (t : Vault ν κ υ) (e : κ → Option υ) {n : ν} (h : n ≠ t.space) :
    (t.write e).entries n = t.entries n := if_neg h

end

def set [DecidableEq κ] (e : κ → Option υ) (k : κ) (v : Option υ) : κ → Option υ :=
  fun k' => if k' = k then v else e k'

variable [DecidableEq ν] [DecidableEq κ]

inductive Step (t : Vault ν κ υ) : Op ν κ υ → Reply υ → Vault ν κ υ → Prop where
  | enter {n : ν} (h : t.known n = true ∨ t.complete = false) :
      Step t (.enter n) (.done true) { t with space := n }
  | enterNew {n : ν} (hn : t.known n = false) (hc : t.complete = true) :
      Step t (.enter n) (.done true)
        ({ t with space := n }.write (laidOver t.saved (t.entries n)))
  | put {k : κ} {v : υ} :
      Step t (.put k v) (.done true) (t.write (set (t.entries t.space) k (some v)))
  | drop {k : κ} : Step t (.drop k) (.done true) (t.write (set (t.entries t.space) k none))
  | look {k : κ} : Step t (.look k) (.found (t.entries t.space k)) t
  | save (h : ∃ k, t.entries t.space k ≠ none) :
      Step t .save (.done true)
        { t with saved := laidOver (t.entries t.space) t.saved, complete := true }
  | saveNone (h : ∀ k, t.entries t.space k = none) : Step t .save (.done false) t
  | restore (h : t.complete = true) :
      Step t .restore (.done true) (t.write (laidOver t.saved (t.entries t.space)))
  | restoreNone (h : t.complete = false) : Step t .restore (.done false) t
  | wipe {n : ν} : Step t (.wipe n) (.done true) { space := n }

variable {t t' : Vault ν κ υ} {op : Op ν κ υ} {r : Reply υ}

@[simp] theorem set_self (e : κ → Option υ) (k : κ) (v : Option υ) : set e k v k = v := if_pos rfl

theorem set_other (e : κ → Option υ) {k k' : κ} (v : Option υ) (h : k' ≠ k) :
    set e k v k' = e k' := if_neg h

/-! ## What was saved -/

/-- The value is the saved one, and there is something to restore. -/
structure Saves (t : Vault ν κ υ) (k : κ) (v : υ) : Prop where
  saved : t.saved k = some v
  complete : t.complete = true

/-- The operations that can change what is saved. -/
def Op.resaves : Op ν κ υ → Bool
  | .save | .wipe _ => true
  | _ => false

/-- The others leave it as it is. -/
theorem Step.saves {k : κ} {v : υ} (h : Step t op r t') (hop : op.resaves = false)
    (hs : t.Saves k v) : t'.Saves k v := by
  cases h with
  | save _ => exact absurd hop (by simp [Op.resaves])
  | saveNone _ => exact absurd hop (by simp [Op.resaves])
  | wipe => exact absurd hop (by simp [Op.resaves])
  | _ => exact ⟨hs.saved, hs.complete⟩

/-- Saving where the entry is saves it. -/
theorem Step.save_saves {k : κ} {v : υ} (h : Step t .save r t')
    (hv : t.entries t.space k = some v) : t'.Saves k v := by
  cases h with
  | save _ => exact ⟨laidOver_of_some hv, rfl⟩
  | saveNone hnone => exact absurd ((hnone k).symm.trans hv) (by simp)

/-- Restoring puts a saved value back, whatever stands there. -/
theorem Step.restores {k : κ} {v : υ} (h : Step t .restore r t') (hs : t.Saves k v) :
    t'.entries t'.space k = some v := by
  cases h with
  | restore _ => rw [write_space, write_entries_self, laidOver_of_some hs.saved]
  | restoreNone hc => exact absurd (hs.complete.symm.trans hc) (by simp)

/-! ## What stands in a space -/

/-- The operations that may take the value away from the space that is entered. -/
def Op.touches (k : κ) : Op ν κ υ → Bool
  | .put k' _ | .drop k' => decide (k' = k)
  | .enter _ | .wipe _ => true
  | _ => false

/-- The value stands in the space and is what was saved, so that a restore leaves it. -/
structure Stands (t : Vault ν κ υ) (k : κ) (v : υ) : Prop where
  entry : t.entries t.space k = some v
  saved : t.Saves k v

/-- **A value that stands and is saved goes on doing so**, unless it is touched: a save saves it
again and a restore puts it where it is. -/
theorem Step.stands {k : κ} {v : υ} (h : Step t op r t') (hop : op.touches k = false)
    (hs : t.Stands k v) : t'.Stands k v := by
  have hsaved := hs.saved
  cases h with
  | enter _ => exact absurd hop (by simp [Op.touches])
  | enterNew _ _ => exact absurd hop (by simp [Op.touches])
  | wipe => exact absurd hop (by simp [Op.touches])
  | @put k' v' =>
    have hne : k ≠ k' := fun he => of_decide_eq_false hop he.symm
    exact ⟨by rw [write_space, write_entries_self, set_other _ _ hne]; exact hs.entry,
      hsaved.saved, hsaved.complete⟩
  | @drop k' =>
    have hne : k ≠ k' := fun he => of_decide_eq_false hop he.symm
    exact ⟨by rw [write_space, write_entries_self, set_other _ _ hne]; exact hs.entry,
      hsaved.saved, hsaved.complete⟩
  | look => exact hs
  | save hsome => exact ⟨hs.entry, Step.save_saves (.save hsome) hs.entry⟩
  | saveNone _ => exact hs
  | restore hc =>
    exact ⟨Step.restores (.restore hc) hsaved, hsaved.saved, hsaved.complete⟩
  | restoreNone _ => exact hs

/-- The space is the one that is entered, was written to, and has the entry. -/
structure HasEntry (t : Vault ν κ υ) (n : ν) (k : κ) (v : υ) : Prop where
  space : t.space = n
  known : t.known n = true
  entry : t.entries n k = some v

/-- What may change the entry, or leave its space. -/
def Op.disturbs (n : ν) (k : κ) : Op ν κ υ → Bool
  | .put k' _ | .drop k' => decide (k' = k)
  | .enter n' => decide (n' ≠ n)
  | .restore | .wipe _ => true
  | .look _ | .save => false

omit [DecidableEq κ] in
theorem HasEntry.write {n : ν} {k : κ} {v : υ} {e : κ → Option υ} (h : t.HasEntry n k v)
    (he : e k = some v) : (t.write e).HasEntry n k v := by
  obtain ⟨rfl, hknown, -⟩ := h
  refine ⟨rfl, ?_, by rw [write_entries_self]; exact he⟩
  rw [write_known, hknown, Bool.true_or]

theorem put_hasEntry (t : Vault ν κ υ) (k : κ) (v : υ) :
    (t.write (set (t.entries t.space) k (some v))).HasEntry t.space k v :=
  ⟨rfl, by rw [write_known, decide_eq_true rfl, Bool.or_true],
    by rw [write_entries_self, set_self]⟩

/-- **An entry stays**, over entering its own space again too. -/
theorem Step.hasEntry {n : ν} {k : κ} {v : υ} (h : Step t op r t')
    (hop : op.disturbs n k = false) (hs : t.HasEntry n k v) : t'.HasEntry n k v := by
  cases h with
  | @enter n' _ =>
    obtain rfl : n' = n := Decidable.not_not.mp (of_decide_eq_false hop)
    exact ⟨rfl, hs.known, hs.entry⟩
  | @enterNew n' hn _ =>
    obtain rfl : n' = n := Decidable.not_not.mp (of_decide_eq_false hop)
    exact absurd (hs.known.symm.trans hn) (by simp)
  | @put k' v' =>
    have hne : k ≠ k' := fun he => of_decide_eq_false hop he.symm
    refine hs.write ?_
    rw [set_other _ _ hne, hs.space]
    exact hs.entry
  | @drop k' =>
    have hne : k ≠ k' := fun he => of_decide_eq_false hop he.symm
    refine hs.write ?_
    rw [set_other _ _ hne, hs.space]
    exact hs.entry
  | look => exact hs
  | save _ => exact ⟨hs.space, hs.known, hs.entry⟩
  | saveNone _ => exact hs
  | restore _ => exact absurd hop (by simp [Op.disturbs])
  | restoreNone _ => exact hs
  | wipe => exact absurd hop (by simp [Op.disturbs])

end Vault

end TaktOS.Lib
