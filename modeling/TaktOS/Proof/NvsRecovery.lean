import TaktOS.Proof.NvsRestore

/-!
# A start that finds an unsound entry

`init` restores the backup when the integrity check fails, and drops the result. The restore puts
back what the backup holds and leaves the rest, so an unsound entry that is in no backup is there
after the start, and at every later one.
-/

namespace TaktOS.Proof

open NvsManager (namespaceOf defaultNamespace)
open NvsManager.Esp32

variable {σ : Type}

/-- A namespace that was opened for writing exists from then on. -/
structure KeepsSpaces (nvs : NvsFlash σ) : Prop where
  flashInit : ∀ s ns, nvs.openReadOnly s ns = true → nvs.openReadOnly (nvs.flashInit s).2 ns = true
  openReadWrite : ∀ s ns, ns.length ≤ 15 → nvs.openReadOnly (nvs.openReadWrite s ns).2 ns = true
  setBlob : ∀ s ns key data ns', nvs.openReadOnly s ns' = true →
    nvs.openReadOnly (nvs.setBlob s ns key data).2 ns' = true
  commit : ∀ s ns ns', nvs.openReadOnly s ns' = true →
    nvs.openReadOnly (nvs.commit s ns).2 ns' = true

theorem mapNvs_keepsSpaces : KeepsSpaces mapNvs where
  flashInit := fun _ _ h => h
  openReadWrite := by
    intro s ns _
    show ListNvs.hasSpace { s with spaces := ns :: s.spaces } ns = true
    simp [ListNvs.hasSpace]
  setBlob := by
    intro s ns key data ns' h
    show ListNvs.hasSpace (s.put ns key (.blob data)).2 ns' = true
    change s.hasSpace ns' = true at h
    rw [ListNvs.put]
    split
    · rw [ListNvs.hasSpace, Bool.or_eq_true] at h ⊢
      rcases h with h | h
      · exact Or.inl h
      · obtain ⟨item, hmem, hns⟩ := List.any_eq_true.mp h
        refine Or.inr (List.any_eq_true.mpr ?_)
        -- the entry that is replaced is one of the same namespace
        by_cases hitem : item.1 = (ns, key)
        · exact ⟨((ns, key), .blob data), List.mem_cons_self, by rw [← hitem]; exact hns⟩
        · refine ⟨item, List.mem_cons_of_mem _ ?_, hns⟩
          exact List.mem_filter.mpr ⟨hmem, decide_eq_true hitem⟩
    · exact h
  commit := fun _ _ _ h => h

/-- The backup of the entry, made in `s₀`, has data in it. -/
def HeldBackup (m₀ : NvsMap) (ns key : Name) : Prop :=
  key ≠ kBackupMagicKey ∧ m₀.filled ns key ≠ none

/-- Every entry of the namespace passes the check. -/
def AllSound (m : NvsMap) (ns : Name) : Prop :=
  ∀ key, m ns key ≠ none → m.sound ns key = true

/-- The first entry that does not pass has metadata that counts no bytes, and data. -/
def CheckCrashes (nvs : NvsFlash σ) (view : σ → NvsMap) (ns : Name) (s : σ) : Prop :=
  ∃ before key after, nvs.entries s ns = before ++ key :: after
    ∧ (∀ x ∈ before, (view s).sound ns x = true) ∧ (view s).faults ns key = true

/-- The entries that the backup does not hold pass the check once it is laid over the namespace. -/
def RestSound (m₀ m : NvsMap) (ns : Name) : Prop :=
  ∀ key, strstr metaSuffix key = false → ¬ HeldBackup m₀ ns key →
    m.restore ns ns key ≠ none → (m.restore ns).sound ns key = true

/-! ## What is restored of an intact store -/

/-- An entry that the check passes is copied whole, and passes it after the restore. -/
theorem sound_of_held {m₀ m : NvsMap} {ns key : Name} (hlen : key.length ≤ 34)
    (hplain : strstr metaSuffix key = false) (hheld : HeldBackup m₀ ns key)
    (hsound : m₀.sound ns key = true)
    (hbackup : ∀ x, m kBackupNs x = m₀.backup ns kBackupNs x) :
    (m.restore ns).sound ns key = true := by
  obtain ⟨data, hdata⟩ := Option.ne_none_iff_exists'.mp hheld.2
  have hmeta_ne := metaKey_ne_magic hlen
  -- what stands under the two keys of a passed entry
  rw [NvsMap.sound, hplain, Bool.false_or,
    NvsMap.blob_eq_some.mpr (NvsMap.filled_eq_some.mp hdata).1] at hsound
  cases hbytes : (m₀.blob ns (metaKey key)).filter (·.length ≤ nvsEntrySize) with
  | none =>
    rw [hbytes] at hsound
    exact Bool.noConfusion hsound
  | some bytes =>
    rw [hbytes] at hsound
    have hkey := NvsEntry.length_ofBytes_key bytes
    have hcopyMeta : m₀.copied ns (metaKey key) = some (NvsEntry.ofBytes bytes).toBytes := by
      rw [NvsMap.copied_metaKey hlen hplain hheld.2, hbytes, Option.map_some]
    have hat : ∀ x copy, x ≠ kBackupMagicKey → m₀.copied ns x = some copy →
        (m.restore ns).blob ns x = some copy := by
      intro x copy hx hcopy
      have hfilled : m.filled kBackupNs x = some copy := by
        rw [NvsMap.filled_congr (hbackup x), NvsMap.filled_backup hx, hcopy, Option.some_or]
      rw [NvsMap.blob_eq_some, NvsMap.restore, if_pos ⟨rfl, hx⟩, hfilled]
      rfl
    rw [NvsMap.sound, hplain, Bool.false_or, hat _ _ hmeta_ne hcopyMeta,
      hat _ _ hheld.1 (by rw [NvsMap.copied_of_plain hplain, hdata]),
      filter_fits (by rw [NvsEntry.length_toBytes hkey])]
    dsimp only
    rw [NvsEntry.ofBytes_toBytes hkey]
    exact hsound

section

variable {nvs : NvsFlash σ} {view : σ → NvsMap} (hmap : nvs.IsMap view)

include hmap

/-- The check goes through all entries of a namespace that exists. -/
theorem verifyIntegrity_iff {s : σ} {ns : Name} (hopen : nvs.openReadOnly s ns = true) :
    verifyIntegrity nvs ns s = some true ↔ AllSound (view s) ns := by
  rw [verifyIntegrity, hopen, Bool.not_true, if_neg Bool.false_ne_true, verifyKeys_true_iff]
  simp only [verifyKey_eq hmap, NvsMap.verdict_true_iff, hmap.mem_entries, AllSound]

omit hmap in
/-- A store that passes the check exists. -/
theorem open_of_verified {s : σ} {ns : Name} (h : verifyIntegrity nvs ns s = some true) :
    nvs.openReadOnly s ns = true := by
  cases hopen : nvs.openReadOnly s ns with
  | true => rfl
  | false =>
    rw [verifyIntegrity, hopen, Bool.not_false, if_pos rfl] at h
    exact Bool.noConfusion (Option.some.inj h)

theorem verifyIntegrity_none_iff {s : σ} {ns : Name} :
    verifyIntegrity nvs ns s = none ↔ CheckCrashes nvs view ns s := by
  unfold CheckCrashes
  simp only [← NvsMap.verdict_true_iff, ← NvsMap.verdict_none_iff, ← verifyKey_eq hmap]
  rw [← verifyKeys_none_iff, verifyIntegrity]
  cases hopen : nvs.openReadOnly s ns with
  | true => rfl
  | false =>
    have hempty : nvs.entries s ns = [] := by
      refine List.eq_nil_iff_forall_not_mem.mpr fun key hmem => ?_
      rw [hmap.readable s ns key ((hmap.mem_entries s ns key).mp hmem)] at hopen
      exact Bool.noConfusion hopen
    rw [hempty]
    simp [verifyKeys]

omit hmap in
/-- The namespace exists through the loop of a restore. -/
theorem restoreKeys_open (hspaces : KeepsSpaces nvs) (ns : Name) (keys : List Name) {s : σ}
    (h : nvs.openReadOnly s ns = true) :
    nvs.openReadOnly (keys.foldl (restoreKey nvs ns) s) ns = true := by
  induction keys generalizing s with
  | nil => exact h
  | cons key keys ih =>
    refine ih ?_
    unfold restoreKey
    split
    · exact h
    · split
      · exact h
      · split
        · exact h
        · split
          · exact h
          · exact hspaces.setBlob _ _ _ _ _ h

theorem restore_open (hspaces : KeepsSpaces nvs) {s : σ} {ns : Name} (hns : ns.length ≤ 15)
    (h : (view s).BackupComplete) :
    nvs.openReadOnly (restoreFromBackup nvs ns s).2 ns = true := by
  have hrestore := (restore_view hmap hns h).1
  have hopen := hspaces.openReadWrite s ns hns
  unfold restoreFromBackup at hrestore ⊢
  split at hrestore
  · exact Bool.noConfusion hrestore
  · rename_i hread
    rw [if_neg hread]
    split at hrestore
    · exact Bool.noConfusion hrestore
    · rename_i hmagic
      rw [if_neg hmagic]
      dsimp only at hrestore ⊢
      rw [(hmap.openReadWrite s ns hns).1, Bool.not_true, if_neg Bool.false_ne_true]
      cases nvs.entries (nvs.openReadWrite s ns).2 kBackupNs with
      | nil => exact hopen
      | cons key keys => exact hspaces.commit _ _ _ (restoreKeys_open hspaces ns _ hopen)

/-! ## Starts -/

/-- A start that the check passes changes nothing. -/
theorem init_verified {s : σ} {name : Name}
    (h : verifyIntegrity nvs (namespaceOf name) (nvs.flashInit s).2 = some true) :
    init nvs s name = some (true, namespaceOf name, (nvs.flashInit s).2) := by
  rw [init_eq hmap, h]
  rfl

/-- One whose check fails restores the backup. -/
theorem init_restored (hspaces : KeepsSpaces nvs) {s : σ} {name : Name}
    (hcomplete : (view s).BackupComplete)
    (h : verifyIntegrity nvs (namespaceOf name) (nvs.flashInit s).2 = some false) :
    ∃ s', init nvs s name = some (true, namespaceOf name, s')
      ∧ view s' = (view s).restore (namespaceOf name)
      ∧ nvs.openReadOnly s' (namespaceOf name) = true := by
  have hview := (hmap.flashInit s).2
  have hlen := length_namespaceOf name
  rw [← hview] at hcomplete ⊢
  refine ⟨_, ?_, (restore_view hmap hlen hcomplete).2, restore_open hmap hspaces hlen hcomplete⟩
  rw [init_eq hmap, h]
  rfl

/-- One whose check crashes does not return. -/
theorem init_none_iff (s : σ) (name : Name) : init nvs s name = none
    ↔ verifyIntegrity nvs (namespaceOf name) (nvs.flashInit s).2 = none := by
  rw [init_eq hmap, Option.map_eq_none_iff]

end

/-- The partition after a start that does not crash. -/
def restarted (nvs : NvsFlash σ) (name : Name) (s : σ) : Option σ :=
  (init nvs s name).map fun (_, _, s') => s'

/-- The partition after some starts, none of which crashed. -/
def starts (nvs : NvsFlash σ) (name : Name) : Nat → σ → Option σ
  | 0, s => some s
  | n + 1, s => (restarted nvs name s).bind (starts nvs name n)

/-- After so many starts, each of which returned, the check passes. -/
def Recovered (nvs : NvsFlash σ) (name : Name) (n : Nat) (s : σ) : Prop :=
  ∃ s', starts nvs name n s = some s' ∧ verifyIntegrity nvs (namespaceOf name) s' = some true

/-- What a restore puts back it does not change the next time. -/
theorem restore_restore (m : NvsMap) (ns : Name) :
    (m.restore ns).restore ns = m.restore ns := by
  have hbackup : ∀ x, m.restore ns kBackupNs x = m kBackupNs x := by
    intro x
    rw [NvsMap.restore]
    split
    · rename_i hat
      rw [← hat.1, NvsMap.copyOver_filled]
    · rfl
  funext ns' x
  rw [NvsMap.restore]
  split
  · rename_i hat
    rw [NvsMap.filled_congr (hbackup x), hat.1, NvsMap.restore, if_pos ⟨rfl, hat.2⟩]
    cases m.filled kBackupNs x with
    | none => rfl
    | some data => rfl
  · rfl

section

variable {nvs : NvsFlash σ} {view : σ → NvsMap} (hmap : nvs.IsMap view)

include hmap

omit hmap in
theorem recovered_succ_iff {name : Name} {n : Nat} {s : σ} : Recovered nvs name (n + 1) s
    ↔ ∃ s', restarted nvs name s = some s' ∧ Recovered nvs name n s' := by
  simp only [Recovered, starts, Option.bind_eq_some_iff]
  constructor
  · rintro ⟨t, ⟨s', hs', ht⟩, hpasses⟩
    exact ⟨s', hs', t, ht, hpasses⟩
  · rintro ⟨s', hs', t, ht, hpasses⟩
    exact ⟨t, ⟨s', hs', ht⟩, hpasses⟩

omit hmap in
theorem recovered_zero_iff {name : Name} {s : σ} :
    Recovered nvs name 0 s ↔ verifyIntegrity nvs (namespaceOf name) s = some true := by
  simp only [Recovered, starts, Option.some_inj, exists_eq_left']

omit hmap in
/-- After a start that returned it is up to the others. -/
theorem recovered_succ_of_init {name ns : Name} {n : Nat} {ok : Bool} {s s' : σ}
    (hinit : init nvs s name = some (ok, ns, s')) :
    Recovered nvs name (n + 1) s ↔ Recovered nvs name n s' := by
  rw [recovered_succ_iff, restarted, hinit, Option.map_some]
  simp only [Option.some_inj, exists_eq_left']

omit hmap in
/-- After one that crashed there is none. -/
theorem not_recovered_of_crash {name : Name} {s : σ} (hinit : init nvs s name = none) (n : Nat) :
    ¬ Recovered nvs name (n + 1) s := by
  rw [recovered_succ_iff, restarted, hinit]
  rintro ⟨s', hs', _⟩
  cases hs'

/-- Starts of a store that passes the check change nothing. -/
theorem recovered_of_verified (hspaces : KeepsSpaces nvs) (name : Name) (n : Nat) {s : σ}
    (h : verifyIntegrity nvs (namespaceOf name) s = some true) : Recovered nvs name n s := by
  induction n generalizing s with
  | zero => exact recovered_zero_iff.mpr h
  | succ n ih =>
    have hopen := open_of_verified h
    have hstill : verifyIntegrity nvs (namespaceOf name) (nvs.flashInit s).2 = some true := by
      rw [verifyIntegrity_iff hmap (hspaces.flashInit _ _ hopen), (hmap.flashInit s).2]
      exact (verifyIntegrity_iff hmap hopen).mp h
    exact (recovered_succ_of_init (init_verified hmap hstill)).mpr (ih hstill)

/-- Starts of a store that the backup was laid over, and that does not pass, do not help. -/
theorem not_recovered_of_settled (hspaces : KeepsSpaces nvs) (name : Name) (n : Nat) {s : σ}
    (hcomplete : (view s).BackupComplete)
    (hopen : nvs.openReadOnly s (namespaceOf name) = true)
    (hsettled : (view s).restore (namespaceOf name) = view s)
    (hunsound : ¬ AllSound (view s) (namespaceOf name)) : ¬ Recovered nvs name n s := by
  induction n generalizing s with
  | zero =>
    rw [recovered_zero_iff, verifyIntegrity_iff hmap hopen]
    exact hunsound
  | succ n ih =>
    have hview := (hmap.flashInit s).2
    cases hcheck : verifyIntegrity nvs (namespaceOf name) (nvs.flashInit s).2 with
    | none => exact not_recovered_of_crash ((init_none_iff hmap s name).mpr hcheck) n
    | some ok =>
      cases ok with
      | true =>
        rw [verifyIntegrity_iff hmap (hspaces.flashInit _ _ hopen), hview] at hcheck
        exact absurd hcheck hunsound
      | false =>
        obtain ⟨t, hinit, hrestored, hopen'⟩ := init_restored hmap hspaces hcomplete hcheck
        rw [hsettled] at hrestored
        rw [recovered_succ_of_init hinit]
        refine ih ?_ hopen' ?_ ?_
        · rw [hrestored]
          exact hcomplete
        · rw [hrestored]
          exact hsettled
        · rw [hrestored]
          exact hunsound

/-- So all starts after a restore find what it left. -/
theorem recovered_restored_iff (hspaces : KeepsSpaces nvs) (name : Name) (n : Nat) {m : NvsMap}
    {s : σ} (hcomplete : m.BackupComplete) (hrestored : view s = m.restore (namespaceOf name))
    (hopen : nvs.openReadOnly s (namespaceOf name) = true) :
    Recovered nvs name n s ↔ verifyIntegrity nvs (namespaceOf name) s = some true := by
  constructor
  · intro hrecovered
    by_contra hunsound
    rw [verifyIntegrity_iff hmap hopen] at hunsound
    refine not_recovered_of_settled hmap hspaces name n ?_ hopen ?_ hunsound hrecovered
    · rw [NvsMap.BackupComplete, hrestored, NvsMap.restore, if_neg fun hc => hc.2 rfl]
      exact hcomplete
    · rw [hrestored, restore_restore]
  · exact recovered_of_verified hmap hspaces name n

/-- Over an intact store's backup, all entries pass the check if the rest does. -/
theorem allSound_restored_iff {s₀ : σ} {m : NvsMap} {ns : Name}
    (hintact : AllSound (view s₀) ns)
    (hbackup : ∀ x, m kBackupNs x = (view s₀).backup ns kBackupNs x) :
    AllSound (m.restore ns) ns ↔ RestSound (view s₀) m ns := by
  constructor
  · exact fun h key _ _ hsome => h key hsome
  · intro h key hsome
    cases hplain : strstr metaSuffix key with
    | true => rw [NvsMap.sound, hplain, Bool.true_or]
    | false =>
      by_cases hheld : HeldBackup (view s₀) ns key
      · have hentry : view s₀ ns key ≠ none := by
          obtain ⟨data, hdata⟩ := Option.ne_none_iff_exists'.mp hheld.2
          rw [(NvsMap.filled_eq_some.mp hdata).1]
          exact Option.some_ne_none _
        have hlen := hmap.short s₀ ns key hentry
        exact sound_of_held (by omega) hplain hheld (hintact key hentry) hbackup
      · exact h key hplain hheld hsome

end

/-! ## The theorem -/

/--
**A start over the backup of an intact store recovers exactly when the entries that are not in
that backup are sound.** A start that returns reports success, and the check passes after it
exactly when it passed at once or when every entry the backup does not hold, in the primary
namespace or left in the other by an older backup, passes it once the backup is laid over the
namespace. The start returns unless the check crashes, and all later starts find what the first
one left.
-/
theorem init_recovers_iff {nvs : NvsFlash σ} {view : σ → NvsMap} (hmap : nvs.IsMap view)
    (hspaces : KeepsSpaces nvs) (name : Name) {s₀ s : σ}
    (hintact : verifyIntegrity nvs (namespaceOf name) s₀ = some true)
    (hbackup : (backup nvs (namespaceOf name) s₀).1 = true)
    (hsame : ∀ x, view s kBackupNs x = view (backup nvs (namespaceOf name) s₀).2 kBackupNs x) :
    (∀ r, init nvs s name = some r → r.1 = true ∧
      (verifyIntegrity nvs (namespaceOf name) r.2.2 = some true
        ↔ verifyIntegrity nvs (namespaceOf name) (nvs.flashInit s).2 = some true
          ∨ RestSound (view s₀) (view s) (namespaceOf name))) ∧
    (Recovered nvs name 1 s
      ↔ ¬ CheckCrashes nvs view (namespaceOf name) (nvs.flashInit s).2
        ∧ (verifyIntegrity nvs (namespaceOf name) (nvs.flashInit s).2 = some true
          ∨ RestSound (view s₀) (view s) (namespaceOf name))) ∧
    ∀ n, Recovered nvs name (n + 1) s ↔ Recovered nvs name 1 s := by
  obtain ⟨_, hview, hcomplete⟩ := backup_succeeds hmap hbackup
  have hcomplete : (view s).BackupComplete := by
    rw [NvsMap.BackupComplete, hsame]
    exact hcomplete
  rw [← verifyIntegrity_none_iff hmap]
  cases hcheck : verifyIntegrity nvs (namespaceOf name) (nvs.flashInit s).2 with
  | none =>
    have hinit := (init_none_iff hmap s name).mpr hcheck
    have hnever := not_recovered_of_crash hinit
    refine ⟨fun r hr => ?_, ?_, fun n => iff_of_false (hnever n) (hnever 0)⟩
    · rw [hinit] at hr
      cases hr
    · exact iff_of_false (hnever 0) fun h => h.1 rfl
  | some ok =>
    cases ok with
    | true =>
      have hinit := init_verified hmap hcheck
      have halways : ∀ n, Recovered nvs name (n + 1) s := fun n =>
        (recovered_succ_of_init hinit).mpr (recovered_of_verified hmap hspaces name n hcheck)
      refine ⟨fun r hr => ?_, ?_, fun n => iff_of_true (halways n) (halways 0)⟩
      · rw [hinit] at hr
        cases hr
        exact ⟨rfl, iff_of_true hcheck (Or.inl rfl)⟩
      · exact iff_of_true (halways 0) ⟨Option.some_ne_none _, Or.inl rfl⟩
    | false =>
      obtain ⟨s', hinit, hrestored, hopen⟩ := init_restored hmap hspaces hcomplete hcheck
      have hafter : verifyIntegrity nvs (namespaceOf name) s' = some true
          ↔ RestSound (view s₀) (view s) (namespaceOf name) := by
        rw [verifyIntegrity_iff hmap hopen, hrestored]
        exact allSound_restored_iff hmap
          ((verifyIntegrity_iff hmap (open_of_verified hintact)).mp hintact)
          fun x => by rw [hsame, hview]
      have hlater : ∀ n, Recovered nvs name (n + 1) s
          ↔ RestSound (view s₀) (view s) (namespaceOf name) := by
        intro n
        rw [recovered_succ_of_init hinit, ← hafter]
        exact recovered_restored_iff hmap hspaces name n hcomplete hrestored hopen
      refine ⟨fun r hr => ?_, ?_, fun n => by rw [hlater n, hlater 0]⟩
      · rw [hinit] at hr
        cases hr
        rw [hafter]
        exact ⟨rfl, by simp⟩
      · rw [hlater 0]
        simp

/-- The state in which the byte is backed up. -/
def beforeBackup : ListNvs :=
  storeAfter mapNvs (namespaceOf defaultNamespace) {} [.set (ascii ['a']) (.setU8 1) 1]

/-- After the backup the byte becomes another one. -/
def turnedByte : ListNvs :=
  (mapNvs.setBlob (backup mapNvs (namespaceOf defaultNamespace) beforeBackup).2
    (namespaceOf defaultNamespace) (ascii ['a']) [2]).2

/-- A start finds it and recovers. -/
theorem init_recovers_byte :
    verifyIntegrity mapNvs (namespaceOf defaultNamespace) turnedByte = some false
    ∧ Recovered mapNvs defaultNamespace 1 turnedByte := by
  have hintact : verifyIntegrity mapNvs (namespaceOf defaultNamespace) beforeBackup
      = some true := by
    decide
  have hsame : ∀ x, turnedByte.view kBackupNs x
      = (backup mapNvs (namespaceOf defaultNamespace) beforeBackup).2.view kBackupNs x := by
    intro x
    rw [turnedByte, (mapNvs_isMap.setBlob _ _ _ _).2, NvsMap.put_other_ns _ (by decide)]
  have hrestore := (restore_view mapNvs_isMap (length_namespaceOf defaultNamespace)
    (show turnedByte.view kBackupNs kBackupMagicKey = _ by decide)).2
  refine ⟨by decide, (init_recovers_iff mapNvs_isMap mapNvs_keepsSpaces defaultNamespace
    hintact (by decide) hsame).2.1.mpr
      ⟨(verifyIntegrity_none_iff mapNvs_isMap).not.mp (by decide),
        Or.inr fun key hplain hheld hsome => ?_⟩⟩
  rw [← hrestore, ← mapNvs_isMap.mem_entries,
    show mapNvs.entries (restoreFromBackup mapNvs (namespaceOf defaultNamespace) turnedByte).2
      (namespaceOf defaultNamespace) = [metaKey (ascii ['a']), ascii ['a']] by decide]
    at hsome
  rcases List.mem_cons.mp hsome with rfl | hsome
  · exact absurd hplain (by decide)
  · rw [List.mem_singleton.mp hsome] at hheld
    exact absurd ⟨by decide, by decide⟩ hheld

/-- After the backup the broker's address is set, whose key has eleven characters. -/
def brokerSince : ListNvs :=
  ((NvsSetter.setString (ascii ['u', 'r', 'i'])).call mapNvs (namespaceOf defaultNamespace)
    (backup mapNvs (namespaceOf defaultNamespace) beforeBackup).2
    (ascii ['m', 'q', 't', 't', '_', 'b', 'r', 'o', 'k', 'e', 'r']) 1).2

/--
**No start recovers**: the backup is complete and of an intact store, the start reports success,
and the check fails after it as before.
-/
theorem init_leaves_unsound :
    verifyIntegrity mapNvs (namespaceOf defaultNamespace) beforeBackup = some true
    ∧ (backup mapNvs (namespaceOf defaultNamespace) beforeBackup).1 = true
    ∧ (∀ x, brokerSince.view kBackupNs x
      = (backup mapNvs (namespaceOf defaultNamespace) beforeBackup).2.view kBackupNs x)
    ∧ (init mapNvs brokerSince defaultNamespace).map (·.1) = some true
    ∧ (restarted mapNvs defaultNamespace brokerSince).bind
        (verifyIntegrity mapNvs (namespaceOf defaultNamespace)) = some false := by
  refine ⟨by decide, by decide, fun x => ?_, by decide, by decide⟩
  rw [brokerSince, NvsSetter.call_eq, (view_writeEntry mapNvs_isMap
    (length_namespaceOf defaultNamespace) _ _ _ _).2, NvsMap.write,
    NvsMap.put_other_ns _ (by decide), NvsMap.put_other_ns _ (by decide)]

end TaktOS.Proof
