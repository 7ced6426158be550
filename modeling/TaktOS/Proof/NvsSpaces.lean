import TaktOS.Proof.NvsRecovery

/-!
# Which namespaces exist

A namespace exists once it was opened for writing, and until the partition is erased. A manager
that starts in one that does not exist restores the backup into it.
-/

namespace TaktOS.Proof

open NvsManager.Esp32

variable {σ : Type}

/-- Which namespaces exist, call by call. -/
structure TracksSpaces (nvs : NvsFlash σ) : Prop where
  flashInit : ∀ s ns, nvs.openReadOnly (nvs.flashInit s).2 ns = nvs.openReadOnly s ns
  flashErase : ∀ s ns, nvs.openReadOnly (nvs.flashErase s).2 ns = false
  openReadWrite : ∀ s ns ns', ns.length ≤ 15 →
    nvs.openReadOnly (nvs.openReadWrite s ns).2 ns' = (nvs.openReadOnly s ns' || decide (ns' = ns))
  /-- A handle is one of a namespace that exists. -/
  setBlob : ∀ s ns key data ns', nvs.openReadOnly s ns = true →
    nvs.openReadOnly (nvs.setBlob s ns key data).2 ns' = nvs.openReadOnly s ns'
  setU32 : ∀ s ns key value ns', nvs.openReadOnly s ns = true →
    nvs.openReadOnly (nvs.setU32 s ns key value).2 ns' = nvs.openReadOnly s ns'
  eraseKey : ∀ s ns key ns', nvs.openReadOnly s ns = true →
    nvs.openReadOnly (nvs.eraseKey s ns key).2 ns' = nvs.openReadOnly s ns'
  commit : ∀ s ns ns', nvs.openReadOnly (nvs.commit s ns).2 ns' = nvs.openReadOnly s ns'

/-- A loop whose body leaves the namespaces as they are leaves them so. -/
theorem foldl_spaces {nvs : NvsFlash σ} (body : σ → Name → σ) {opened : Name}
    (hbody : ∀ s key, nvs.openReadOnly s opened = true → ∀ ns',
      nvs.openReadOnly (body s key) ns' = nvs.openReadOnly s ns')
    (keys : List Name) {s : σ} (h : nvs.openReadOnly s opened = true) (ns' : Name) :
    nvs.openReadOnly (keys.foldl body s) ns' = nvs.openReadOnly s ns' := by
  induction keys generalizing s with
  | nil => rfl
  | cons key keys ih =>
    rw [List.foldl_cons, ih (by rw [hbody s key h]; exact h), hbody s key h]

section

variable {nvs : NvsFlash σ} (hspaces : TracksSpaces nvs)

include hspaces

theorem openReadWrite_self (s : σ) {ns : Name} (hns : ns.length ≤ 15) :
    nvs.openReadOnly (nvs.openReadWrite s ns).2 ns = true := by
  rw [hspaces.openReadWrite s ns ns hns, decide_eq_true rfl, Bool.or_true]

theorem backupKey_spaces (ns : Name) (s : σ) (key : Name)
    (h : nvs.openReadOnly s kBackupNs = true) (ns' : Name) :
    nvs.openReadOnly (backupKey nvs ns s key) ns' = nvs.openReadOnly s ns' := by
  unfold backupKey
  split
  · rfl
  · split
    · rfl
    · split
      · rfl
      · split
        · rfl
        · dsimp only
          split
          · exact hspaces.setBlob _ _ _ _ _ h
          · rw [hspaces.setBlob _ _ _ _ _ (by rw [hspaces.setBlob _ _ _ _ _ h]; exact h),
              hspaces.setBlob _ _ _ _ _ h]

theorem restoreKey_spaces (ns : Name) (s : σ) (key : Name)
    (h : nvs.openReadOnly s ns = true) (ns' : Name) :
    nvs.openReadOnly (restoreKey nvs ns s key) ns' = nvs.openReadOnly s ns' := by
  unfold restoreKey
  split
  · rfl
  · split
    · rfl
    · split
      · rfl
      · split
        · rfl
        · exact hspaces.setBlob _ _ _ _ _ h

variable {view : σ → NvsMap} (hmap : nvs.IsMap view)

include hmap

/-- A write makes its namespace. -/
theorem writeEntry_spaces {ns : Name} (hns : ns.length ≤ 15) (s : σ) (key : Name)
    (data : List UInt8) (version : UInt16) (ns' : Name) :
    nvs.openReadOnly (writeEntry nvs ns s key data version).2 ns'
      = (nvs.openReadOnly s ns' || decide (ns' = ns)) := by
  have hopen := openReadWrite_self hspaces s hns
  unfold writeEntry
  dsimp only
  rw [(hmap.openReadWrite s ns hns).1, Bool.not_true, if_neg Bool.false_ne_true, hspaces.commit,
    hspaces.setBlob _ _ _ _ _ (by rw [hspaces.setBlob _ _ _ _ _ hopen]; exact hopen),
    hspaces.setBlob _ _ _ _ _ hopen, hspaces.openReadWrite s ns ns' hns]

/-- So does a removal. -/
theorem remove_spaces {ns : Name} (hns : ns.length ≤ 15) (s : σ) (key : Name) (ns' : Name) :
    nvs.openReadOnly (remove nvs ns s key).2 ns'
      = (nvs.openReadOnly s ns' || decide (ns' = ns)) := by
  have hopen := openReadWrite_self hspaces s hns
  unfold remove
  dsimp only
  rw [(hmap.openReadWrite s ns hns).1, Bool.not_true, if_neg Bool.false_ne_true, hspaces.commit,
    hspaces.eraseKey _ _ _ _ (by rw [hspaces.eraseKey _ _ _ _ hopen]; exact hopen),
    hspaces.eraseKey _ _ _ _ hopen, hspaces.openReadWrite s ns ns' hns]

/-- A backup makes none but its own. -/
theorem backup_spaces (ns : Name) (s : σ) {ns' : Name} (hns' : ns' ≠ kBackupNs) :
    nvs.openReadOnly (backup nvs ns s).2 ns' = nvs.openReadOnly s ns' := by
  have hlen : kBackupNs.length ≤ 15 := by decide
  have hopen := openReadWrite_self hspaces s hlen
  have hmade : nvs.openReadOnly (nvs.openReadWrite s kBackupNs).2 ns' = nvs.openReadOnly s ns' := by
    rw [hspaces.openReadWrite s _ ns' hlen, decide_eq_false hns', Bool.or_false]
  unfold backup
  split
  · rfl
  · dsimp only
    rw [(hmap.openReadWrite s kBackupNs hlen).1, Bool.not_true, if_neg Bool.false_ne_true]
    cases nvs.entries (nvs.openReadWrite s kBackupNs).2 ns with
    | nil => exact hmade
    | cons key keys =>
      have hloop := foldl_spaces (backupKey nvs ns) (backupKey_spaces hspaces ns)
        (key :: keys) hopen
      dsimp only
      rw [hspaces.commit, hspaces.setU32 _ _ _ _ _ (by rw [hloop]; exact hopen), hloop, hmade]

/-- A restore makes the namespace it restores to. -/
theorem restore_spaces {ns : Name} (hns : ns.length ≤ 15) {s : σ} (h : (view s).BackupComplete)
    (ns' : Name) :
    nvs.openReadOnly (restoreFromBackup nvs ns s).2 ns'
      = (nvs.openReadOnly s ns' || decide (ns' = ns)) := by
  have hrestore := (restore_view hmap hns h).1
  have hopen := openReadWrite_self hspaces s hns
  have hmade := hspaces.openReadWrite s ns ns' hns
  unfold restoreFromBackup at hrestore ⊢
  split at hrestore
  · exact Bool.noConfusion hrestore
  · rename_i hread
    rw [if_neg hread]
    split at hrestore
    · exact Bool.noConfusion hrestore
    · rename_i hmagic
      rw [if_neg hmagic]
      dsimp only
      rw [(hmap.openReadWrite s ns hns).1, Bool.not_true, if_neg Bool.false_ne_true]
      cases nvs.entries (nvs.openReadWrite s ns).2 kBackupNs with
      | nil => exact hmade
      | cons key keys =>
        have hloop := foldl_spaces (restoreKey nvs ns) (restoreKey_spaces hspaces ns)
          (key :: keys) hopen
        dsimp only
        rw [hspaces.commit, hloop, hmade]

end

/-! ## A partition kept as a list -/

/-- The list again, where an erased entry leaves its namespace behind. -/
def spaceNvs : NvsFlash ListNvs :=
  { mapNvs with
    eraseKey := fun s ns key =>
      ((mapNvs.eraseKey s ns key).1, (mapNvs.openReadWrite (mapNvs.eraseKey s ns key).2 ns).2) }

theorem spaceNvs_isMap : spaceNvs.IsMap ListNvs.view :=
  { mapNvs_isMap with eraseKey := mapNvs_isMap.eraseKey }

/-- The entries of the other namespaces are there. -/
theorem any_erased (s : ListNvs) {ns ns' : Name} (key : Name) (h : ns' ≠ ns) :
    ((s.erase ns key).items.any fun item => item.1.1 == ns')
      = s.items.any fun item => item.1.1 == ns' := by
  rw [ListNvs.erase]
  dsimp only
  rw [List.any_filter]
  congr 1
  funext item
  by_cases hitem : item.1.1 = ns'
  · have hne : item.1 ≠ (ns, key) := fun he => h (by rw [← hitem, he])
    rw [decide_eq_true hne, Bool.true_and]
  · rw [beq_eq_false_iff_ne.mpr hitem, Bool.and_false]

theorem hasSpace_put {s : ListNvs} {ns : Name} (key : Name) (v : NvsValue) (ns' : Name)
    (h : s.hasSpace ns = true) : (s.put ns key v).2.hasSpace ns' = s.hasSpace ns' := by
  unfold ListNvs.put
  split
  · by_cases hns : ns' = ns
    · rw [hns, h, ListNvs.hasSpace]
      simp
    · have hne : (ns == ns') = false := beq_eq_false_iff_ne.mpr (Ne.symm hns)
      rw [ListNvs.hasSpace, ListNvs.hasSpace]
      dsimp only
      rw [List.any_cons, any_erased s key hns, hne, Bool.false_or]
  · rfl

theorem hasSpace_opened (s : ListNvs) (ns ns' : Name) :
    ({ s with spaces := ns :: s.spaces } : ListNvs).hasSpace ns'
      = (s.hasSpace ns' || decide (ns' = ns)) := by
  rw [ListNvs.hasSpace, ListNvs.hasSpace]
  dsimp only
  rw [List.contains_cons]
  by_cases hns : ns' = ns
  · simp [hns]
  · rw [beq_eq_false_iff_ne.mpr hns, decide_eq_false hns, Bool.false_or, Bool.or_false]

theorem spaceNvs_tracksSpaces : TracksSpaces spaceNvs where
  flashInit := fun _ _ => rfl
  flashErase := fun _ _ => rfl
  openReadWrite := fun s ns ns' _ => hasSpace_opened s ns ns'
  setBlob := fun _ _ key data ns' h => hasSpace_put key (.blob data) ns' h
  setU32 := fun _ _ key value ns' h => hasSpace_put key (.u32 value) ns' h
  eraseKey := by
    intro s ns key ns' h
    change s.hasSpace ns = true at h
    show ListNvs.hasSpace { s.erase ns key with spaces := ns :: s.spaces } ns' = s.hasSpace ns'
    by_cases hns : ns' = ns
    · rw [hns, h, ListNvs.hasSpace]
      simp
    · rw [ListNvs.hasSpace, ListNvs.hasSpace]
      dsimp only
      rw [any_erased s key hns, List.contains_cons, beq_eq_false_iff_ne.mpr hns,
        Bool.false_or]
  commit := fun _ _ _ => rfl

end TaktOS.Proof
