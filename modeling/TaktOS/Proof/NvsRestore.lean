import TaktOS.Proof.NvsReadBack

/-!
# A backup and the restore from it

`backup` passes over keys with `_meta` in them and over empty blobs, and never clears the backup
namespace, where entries that were removed since stay. `restoreFromBackup` copies all of it. So
the store comes back as it was when its readable entries are such that the backup takes them, and
when nothing of a removed entry is left that a restore could bring back.
-/

namespace TaktOS.Proof

open NvsManager (namespaceOf defaultNamespace)
open NvsManager.Esp32

variable {σ : Type}

/-- The calls of a history, all by one manager. -/
inductive StoreCall where
  | set (key : Name) (value : NvsSetter) (version : UInt16)
  | remove (key : Name)
  | backup
  deriving DecidableEq, Repr

def storeStep (nvs : NvsFlash σ) (ns : Name) (s : σ) : StoreCall → σ
  | .set key value version => (value.call nvs ns s key version).2
  | .remove key => (remove nvs ns s key).2
  | .backup => (backup nvs ns s).2

/-- The state after a history. -/
def storeAfter (nvs : NvsFlash σ) (ns : Name) (s : σ) (history : List StoreCall) : σ :=
  history.foldl (storeStep nvs ns) s

/-- The key was removed, and not set since. -/
def RemovedIn (history : List StoreCall) (key : Name) : Prop :=
  ∃ before after, history = before ++ .remove key :: after
    ∧ ∀ value version, StoreCall.set key value version ∉ after

/-- Entries of the namespace hold other values, or are lost. -/
structure CorruptedIn (ns : Name) (m m' : NvsMap) : Prop where
  others : ∀ ns' x, ns' ≠ ns → m' ns' x = m ns' x
  entries : ∀ x, m ns x = none → m' ns x = none

/-- A backup that succeeds, a corruption and a restore that succeeds bring back every entry that
could be read, and none that was removed. -/
def Reproduces (nvs : NvsFlash σ) (view : σ → NvsMap) (ns : Name) (s : σ)
    (removed : Name → Prop) : Prop :=
  (backup nvs ns s).1 = true →
  ∀ c, CorruptedIn ns (view (backup nvs ns s).2) (view c) →
    (restoreFromBackup nvs ns c).1 = true →
    (∀ key data version, ReadsBack nvs ns s key data version →
      ReadsBack nvs ns (restoreFromBackup nvs ns c).2 key data version) ∧
    ∀ key, removed key → ∀ data version,
      ¬ ReadsBack nvs ns (restoreFromBackup nvs ns c).2 key data version

/-- What a restore will put under a key, once a backup was made: what this backup copies, or an
earlier one left. Nothing is put under the magic's key, nor anything else when the namespace is
the backup's own. -/
def putBack (m : NvsMap) (ns x : Name) : Option (List UInt8) :=
  if ns = kBackupNs ∨ x = kBackupMagicKey then none
  else (m.copied ns x).or (m.filled kBackupNs x)

/-- The blob may stand under the key after the restore: it is put there, or a corruption put it
where nothing is. -/
def Comes (m : NvsMap) (ns x : Name) (data : List UInt8) : Prop :=
  putBack m ns x = some data ∨ (putBack m ns x = none ∧ m ns x ≠ none)

/-- A matching pair may stand under the key after the restore. -/
def Returns (m : NvsMap) (ns key : Name) : Prop :=
  ¬ (ns = kBackupNs ∧ key = kBackupMagicKey) ∧
  ∃ data bytes, Comes m ns key data ∧ Comes m ns (metaKey key) bytes
    ∧ bytes.length ≤ nvsEntrySize ∧ Crc32.compute data = (NvsEntry.ofBytes bytes).crc32

/-- An entry that a backup takes whole. -/
structure TakenBy (ns key : Name) (data : List UInt8) : Prop where
  namespace_other : ns ≠ kBackupNs
  not_magic : key ≠ kBackupMagicKey
  plain : strstr metaSuffix key = false
  filled : data ≠ []

/-- The backup takes every readable entry, and no removed one may return. -/
structure Restorable (m : NvsMap) (ns : Name) (removed : Name → Prop) : Prop where
  taken : ∀ key data version, m.Holds ns key data version → TakenBy ns key data
  gone : ∀ key, removed key → ¬ Returns m ns key

/-! ## What a history leaves in the backup namespace -/

/-- Blobs in the backup namespace stand under plain keys and the keys of their metadata. -/
def BackupOrdered (m : NvsMap) : Prop :=
  ∀ x data, m.blob kBackupNs x = some data →
    ∃ entry, strstr metaSuffix entry = false ∧ (x = entry ∨ x = metaKey entry)

theorem BackupOrdered.congr {m m' : NvsMap} (h : BackupOrdered m)
    (hsame : ∀ x, m' kBackupNs x = m kBackupNs x) : BackupOrdered m' := by
  intro x data hblob
  rw [NvsMap.blob_congr (hsame x)] at hblob
  exact h x data hblob

theorem BackupOrdered.backup {m : NvsMap} (h : BackupOrdered m) (ns : Name) :
    BackupOrdered (m.backup ns) := by
  intro x data hblob
  by_cases hx : x = kBackupMagicKey
  · rw [hx, NvsMap.blob_eq_some, NvsMap.backup, if_pos rfl, if_pos rfl] at hblob
    exact absurd hblob (by simp)
  · rw [NvsMap.blob_backup hx] at hblob
    cases hcopied : m.copied ns x with
    | none =>
      rw [hcopied, Option.none_or] at hblob
      exact h x data hblob
    | some copy =>
      obtain ⟨entry, hplain, _, hx⟩ := NvsMap.of_copied hcopied
      exact ⟨entry, hplain, hx⟩

/-- The metadata of a key with the suffix's letters in it is in no backup. -/
theorem BackupOrdered.no_meta {m : NvsMap} (h : BackupOrdered m) {key : Name}
    (hlen : key.length ≤ 10) (hsuffix : strstr metaSuffix key = true) :
    m.blob kBackupNs (metaKey key) = none := by
  cases hblob : m.blob kBackupNs (metaKey key) with
  | none => rfl
  | some data =>
    obtain ⟨entry, hplain, hx | hx⟩ := h _ _ hblob
    · rw [← hx, strstr_metaKey (by omega)] at hplain
      exact Bool.noConfusion hplain
    · have hentry : entry.length ≤ 34 := by
        have hlens := congrArg List.length hx
        rw [length_metaKey, length_metaKey] at hlens
        omega
      rw [← metaKey_inj (by omega) hentry hx, hsuffix] at hplain
      exact Bool.noConfusion hplain

section

variable {nvs : NvsFlash σ} {view : σ → NvsMap} (hmap : nvs.IsMap view)

include hmap

theorem storeStep_ordered {ns : Name} (hlen : ns.length ≤ 15) (hns : ns ≠ kBackupNs) {s : σ}
    (h : BackupOrdered (view s)) (call : StoreCall) :
    BackupOrdered (view (storeStep nvs ns s call)) := by
  cases call with
  | set key value version =>
    refine h.congr fun x => ?_
    rw [storeStep, NvsSetter.call_eq, (view_writeEntry hmap hlen _ _ _ _).2, NvsMap.write,
      NvsMap.put_other_ns _ hns.symm, NvsMap.put_other_ns _ hns.symm]
  | remove key =>
    refine h.congr fun x => ?_
    rw [storeStep, (remove_view hmap hlen _ _).2, NvsMap.set_other_ns _ hns.symm,
      NvsMap.set_other_ns _ hns.symm]
  | backup =>
    by_cases hempty : (view s).Empty ns
    · rw [storeStep, (backup_empty hmap hempty).2]
      exact h
    · rw [storeStep, (backup_view hmap hempty).2]
      exact h.backup ns

/-- **Whatever was set, removed and backed up**, the backup namespace is in order. -/
theorem storeAfter_ordered {ns : Name} (hlen : ns.length ≤ 15) (hns : ns ≠ kBackupNs)
    (history : List StoreCall) {s : σ} (h : BackupOrdered (view s)) :
    BackupOrdered (view (storeAfter nvs ns s history)) := by
  induction history generalizing s with
  | nil => exact h
  | cons call history ih => exact ih (storeStep_ordered hmap hlen hns h call)

end

/-! ## What a restore brings -/

section

variable {m m' : NvsMap} {ns : Name}

/-- **After the restore** stands what it puts there, and elsewhere what the corruption left. -/
theorem restored_at (h : CorruptedIn ns (m.backup ns) m') (x : Name) :
    m'.restore ns ns x = copyOver (putBack m ns x) (m' ns x) := by
  rw [NvsMap.restore, putBack]
  by_cases hx : x = kBackupMagicKey
  · rw [if_neg fun hc => hc.2 hx, if_pos (Or.inr hx)]
    rfl
  · rw [if_pos ⟨rfl, hx⟩]
    by_cases hns : ns = kBackupNs
    · rw [if_pos (Or.inl hns), ← hns, NvsMap.copyOver_filled]
      rfl
    · rw [if_neg (by simp [hns, hx]), NvsMap.filled_congr (h.others kBackupNs x (Ne.symm hns)),
        NvsMap.filled_backup hx]

/-- A blob that stands there may. -/
theorem comes_of_restored (h : CorruptedIn ns (m.backup ns) m') {x : Name} {data : List UInt8}
    (hx : ¬ (ns = kBackupNs ∧ x = kBackupMagicKey))
    (hblob : (m'.restore ns).blob ns x = some data) : Comes m ns x data := by
  rw [NvsMap.blob_eq_some, restored_at h] at hblob
  cases hput : putBack m ns x with
  | some copy =>
    rw [hput] at hblob
    injection hblob with hblob
    injection hblob with hblob
    exact Or.inl (by rw [hput, hblob])
  | none =>
    rw [hput] at hblob
    refine Or.inr ⟨hput, fun hnone => ?_⟩
    -- a corruption puts nothing where nothing was
    have hbackup : m.backup ns ns x = none := by
      rw [NvsMap.backup]
      split
      · rename_i hns
        rw [if_neg fun hc => hx ⟨hns, hc⟩, ← hns, NvsMap.copied_of_none hnone, hnone]
        rfl
      · exact hnone
    rw [show copyOver none (m' ns x) = m' ns x from rfl, h.entries x hbackup] at hblob
    exact absurd hblob (by simp)

theorem restored_putBack (h : CorruptedIn ns (m.backup ns) m') {x : Name} {data : List UInt8}
    (hput : putBack m ns x = some data) : (m'.restore ns).blob ns x = some data := by
  rw [NvsMap.blob_eq_some, restored_at h, hput]
  rfl

/-- An entry that the backup takes is put back. -/
theorem TakenBy.returns {key : Name} {data : List UInt8} {version : UInt16}
    (htaken : TakenBy ns key data) (hlen : key.length ≤ 10)
    (hholds : m.Holds ns key data version) (h : CorruptedIn ns (m.backup ns) m') :
    (m'.restore ns).Holds ns key data version := by
  obtain ⟨bytes, hmeta, hle, hdata, hcrc, hversion⟩ := hholds
  have hfilled : m.filled ns key = some data :=
    NvsMap.filled_eq_some.mpr ⟨NvsMap.blob_eq_some.mp hdata, htaken.filled⟩
  have hput : putBack m ns key = some data := by
    rw [putBack, if_neg (by simp [htaken.namespace_other, htaken.not_magic]),
      NvsMap.copied_of_plain htaken.plain, hfilled, Option.some_or]
  have hputMeta : putBack m ns (metaKey key) = some (NvsEntry.ofBytes bytes).toBytes := by
    rw [putBack, if_neg (by simp [htaken.namespace_other, metaKey_ne_magic (show key.length ≤ 34 by
        omega)]),
      NvsMap.copied_metaKey (by omega) htaken.plain (by rw [hfilled]; exact Option.some_ne_none _),
      hmeta, filter_fits hle, Option.map_some, Option.some_or]
  have hkey := NvsEntry.length_ofBytes_key bytes
  refine ⟨_, restored_putBack h hputMeta, ?_, restored_putBack h hput, ?_, ?_⟩
  · rw [NvsEntry.length_toBytes hkey]
  · rw [NvsEntry.ofBytes_toBytes hkey]
    exact hcrc
  · rw [NvsEntry.ofBytes_toBytes hkey]
    exact hversion

theorem putBack_ne_nil {x : Name} : putBack m ns x ≠ some [] := by
  rw [putBack]
  split
  · simp
  · intro h
    rcases Option.or_eq_some_iff.mp h with hcopied | ⟨_, hfilled⟩
    · exact NvsMap.copied_ne_nil hcopied rfl
    · exact (NvsMap.filled_eq_some.mp hfilled).2 rfl

/-- A backup takes nothing away. -/
theorem none_of_backup {x : Name} (h : m.backup ns ns x = none) : m ns x = none := by
  rw [NvsMap.backup] at h
  split at h
  · rename_i hns
    split at h
    · exact absurd h (by simp)
    · rw [hns]
      cases hcopied : m.copied ns x with
      | none =>
        rw [hcopied] at h
        exact h
      | some copy =>
        rw [hcopied] at h
        exact absurd h (by simp [copyOver])
  · exact h

/-- Where nothing was put since, only what an earlier backup left may return. -/
theorem returns_vacant {key : Name} (hlen : key.length ≤ 34)
    (hdata : m ns key = none) (hmeta : m ns (metaKey key) = none) :
    Returns m ns key ↔ ns ≠ kBackupNs ∧ key ≠ kBackupMagicKey ∧
      ∃ data bytes, m.filled kBackupNs key = some data
        ∧ m.filled kBackupNs (metaKey key) = some bytes ∧ bytes.length ≤ nvsEntrySize
        ∧ Crc32.compute data = (NvsEntry.ofBytes bytes).crc32 := by
  have hcomes : ∀ x data, m ns x = none →
      (Comes m ns x data ↔ ¬ (ns = kBackupNs ∨ x = kBackupMagicKey)
        ∧ m.filled kBackupNs x = some data) := by
    intro x data hnone
    rw [Comes, putBack, NvsMap.copied_of_none hnone, Option.none_or]
    by_cases hc : ns = kBackupNs ∨ x = kBackupMagicKey
    · simp [hc, hnone]
    · simp [hc, hnone]
  have hmagic := metaKey_ne_magic hlen
  rw [Returns]
  constructor
  · rintro ⟨_, data, bytes, hd, hb, hmatch⟩
    rw [hcomes _ _ hdata, not_or] at hd
    rw [hcomes _ _ hmeta] at hb
    exact ⟨hd.1.1, hd.1.2, data, bytes, hd.2, hb.2, hmatch⟩
  · rintro ⟨hns, hkey, data, bytes, hd, hb, hmatch⟩
    refine ⟨fun hc => hns hc.1, data, bytes, ?_, ?_, hmatch⟩
    · rw [hcomes _ _ hdata, not_or]
      exact ⟨⟨hns, hkey⟩, hd⟩
    · rw [hcomes _ _ hmeta, not_or]
      exact ⟨⟨hns, hmagic⟩, hb⟩

end

section

variable {nvs : NvsFlash σ} {view : σ → NvsMap} (hmap : nvs.IsMap view)

include hmap

/-- Only keys that NVS takes come back. -/
theorem short_of_comes {s : σ} {ns x : Name} {data : List UInt8}
    (h : Comes (view s) ns x data) : x.length ≤ 15 := by
  rcases h with hput | ⟨_, hoccupied⟩
  · rw [putBack] at hput
    split at hput
    · exact absurd hput (by simp)
    · rcases Option.or_eq_some_iff.mp hput with hcopied | ⟨_, hfilled⟩
      · refine hmap.short s ns x fun hnone => ?_
        rw [NvsMap.copied_of_none hnone] at hcopied
        exact absurd hcopied (by simp)
      · refine hmap.short s kBackupNs x ?_
        rw [(NvsMap.filled_eq_some.mp hfilled).1]
        exact Option.some_ne_none _
  · exact hmap.short s ns x hoccupied

/-- A backup that succeeds is one of a namespace with entries, and complete. -/
theorem backup_succeeds {s : σ} {ns : Name} (h : (backup nvs ns s).1 = true) :
    ¬ (view s).Empty ns ∧ view (backup nvs ns s).2 = (view s).backup ns
      ∧ (view (backup nvs ns s).2).BackupComplete := by
  have hfull : ¬ (view s).Empty ns := by
    intro hempty
    rw [(backup_empty hmap hempty).1] at h
    exact Bool.noConfusion h
  have hview := (backup_view hmap hfull).2
  refine ⟨hfull, hview, ?_⟩
  rw [hview, NvsMap.BackupComplete, NvsMap.backup, if_pos rfl, if_pos rfl]

theorem complete_of_restore {s : σ} {ns : Name} (h : (restoreFromBackup nvs ns s).1 = true) :
    (view s).BackupComplete := by
  by_contra hc
  rw [restore_incomplete hmap ns hc] at h
  exact Bool.noConfusion h

/-! ## The condition is enough -/

theorem reproduces_of_restorable {ns : Name} (hlen : ns.length ≤ 15) {s : σ}
    {removed : Name → Prop} (h : Restorable (view s) ns removed) :
    Reproduces nvs view ns s removed := by
  intro hbackup c hcorrupted hrestore
  obtain ⟨_, hview, _⟩ := backup_succeeds hmap hbackup
  have hcomplete := complete_of_restore hmap hrestore
  rw [hview] at hcorrupted
  have hrestored := (restore_view hmap hlen hcomplete).2
  constructor
  · intro key data version hread
    have hholds := (readsBack_iff hmap).mp hread
    rw [readsBack_iff hmap, hrestored]
    exact (h.taken key data version hholds).returns (short_of_holds hmap hholds) hholds hcorrupted
  · intro key hremoved data version hread
    have hholds := (readsBack_iff hmap).mp hread
    have hkey := short_of_holds hmap hholds
    rw [hrestored] at hholds
    obtain ⟨bytes, hmeta, hle, hdata, hcrc, _⟩ := hholds
    refine h.gone key hremoved ⟨?_, data, bytes, ?_, ?_, hle, hcrc⟩
    · -- the magic is still there
      rintro ⟨rfl, rfl⟩
      rw [NvsMap.blob_eq_some, NvsMap.restore, if_neg fun hc => hc.2 rfl, hcomplete] at hdata
      exact absurd hdata (by simp)
    · refine comes_of_restored hcorrupted ?_ hdata
      rintro ⟨rfl, rfl⟩
      rw [NvsMap.blob_eq_some, NvsMap.restore, if_neg fun hc => hc.2 rfl, hcomplete] at hdata
      exact absurd hdata (by simp)
    · exact comes_of_restored hcorrupted (fun hc => metaKey_ne_magic (by omega) hc.2) hmeta

/-! ## And needed -/

/-- The backup with one of the keys erased, restored. -/
theorem reproduces_erased {ns : Name} (hlen : ns.length ≤ 15) {s : σ} {removed : Name → Prop}
    (h : Reproduces nvs view ns s removed) (hfull : ¬ (view s).Empty ns) {x : Name}
    (hx : ¬ (ns = kBackupNs ∧ x = kBackupMagicKey)) {key : Name} {data : List UInt8}
    {version : UInt16} (hholds : (view s).Holds ns key data version) :
    ∃ r : NvsMap, r.Holds ns key data version
      ∧ r ns x = copyOver (putBack (view s) ns x) none := by
  obtain ⟨hbackup, _⟩ := backup_view hmap hfull
  obtain ⟨_, hview, hcomplete⟩ := backup_succeeds hmap hbackup
  have herased := hmap.eraseKey (backup nvs ns s).2 ns x
  generalize (nvs.eraseKey (backup nvs ns s).2 ns x).2 = c at herased
  have hcorrupted : CorruptedIn ns (view (backup nvs ns s).2) (view c) := by
    refine ⟨fun ns' x' hns => ?_, fun x' hnone => ?_⟩
    · rw [herased, NvsMap.set_other_ns _ hns]
    · rw [herased]
      by_cases hxx : x' = x
      · rw [hxx, NvsMap.set_self]
      · rw [NvsMap.set_other_key _ hxx, hnone]
  have hstill : (view c).BackupComplete := by
    rw [NvsMap.BackupComplete, herased]
    by_cases hns : kBackupNs = ns
    · rw [NvsMap.set_other_key _ fun hxx => hx ⟨hns.symm, hxx.symm⟩]
      exact hcomplete
    · rw [NvsMap.set_other_ns _ hns]
      exact hcomplete
  obtain ⟨hrestore, hrestored⟩ := restore_view hmap hlen hstill
  have hread := (h hbackup c hcorrupted hrestore).1 key data version
    ((readsBack_iff hmap).mpr hholds)
  refine ⟨_, (readsBack_iff hmap).mp hread, ?_⟩
  rw [hview] at hcorrupted
  rw [hrestored, restored_at hcorrupted, herased, NvsMap.set_self]

theorem taken_of_reproduces {ns : Name} (hlen : ns.length ≤ 15) {s : σ} {removed : Name → Prop}
    (h : Reproduces nvs view ns s removed) (hfull : ¬ (view s).Empty ns)
    (hordered : ns ≠ kBackupNs → BackupOrdered (view s)) {key : Name} {data : List UInt8}
    {version : UInt16} (hholds : (view s).Holds ns key data version) : TakenBy ns key data := by
  have hkey := short_of_holds hmap hholds
  -- a key that nothing is put under does not come back once it is erased
  have hput : ∀ x ∈ entryKeys key, ¬ (ns = kBackupNs ∧ x = kBackupMagicKey) →
      putBack (view s) ns x ≠ none := by
    intro x hmem hx hnone
    obtain ⟨r, ⟨bytes, hmeta, _, hdata, _⟩, hr⟩ := reproduces_erased hmap hlen h hfull hx hholds
    rw [hnone] at hr
    rcases List.mem_cons.mp hmem with rfl | hmem
    · rw [NvsMap.blob, hr] at hdata
      exact absurd hdata (by simp [copyOver])
    · rw [List.mem_singleton.mp hmem] at hr
      rw [NvsMap.blob, hr] at hmeta
      exact absurd hmeta (by simp [copyOver])
  have hmeta := hput (metaKey key) (metaKey_mem_entryKeys key)
    fun hc => metaKey_ne_magic (by omega) hc.2
  have hother : ns ≠ kBackupNs := by
    intro hns
    exact hmeta (by rw [putBack, if_pos (Or.inl hns)])
  have hdata := hput key List.mem_cons_self fun hc => hother hc.1
  refine ⟨hother, ?_, ?_, ?_⟩
  · intro hmagic
    exact hdata (by rw [putBack, if_pos (Or.inr hmagic)])
  · by_contra hsuffix
    rw [Bool.not_eq_false] at hsuffix
    refine hmeta ?_
    rw [putBack, if_neg (by simp [hother, metaKey_ne_magic (show key.length ≤ 34 by omega)]),
      NvsMap.copied_metaKey_of_suffixed hkey hsuffix, NvsMap.filled,
      (hordered hother).no_meta hkey hsuffix]
    rfl
  · rintro rfl
    obtain ⟨r, ⟨_, _, _, hblob, _⟩, hr⟩ :=
      reproduces_erased hmap hlen h hfull (x := key) (fun hc => hother hc.1) hholds
    cases hcopy : putBack (view s) ns key with
    | none => exact hdata hcopy
    | some copy =>
      rw [hcopy] at hr
      rw [NvsMap.blob_eq_some, hr] at hblob
      injection hblob with hblob
      injection hblob with hblob
      exact putBack_ne_nil (hblob ▸ hcopy)

/-- A corruption may put any blob where one entry is. -/
theorem exists_corrupted (s : σ) (ns : Name) {x : Name} (hx : x.length ≤ 15)
    (data : List UInt8) :
    ∃ c, view c = (view s).set ns x (if view s ns x = none then none else some (.blob data)) := by
  by_cases hnone : view s ns x = none
  · refine ⟨s, ?_⟩
    rw [if_pos hnone]
    funext ns' x'
    by_cases hat : ns' = ns ∧ x' = x
    · rw [hat.1, hat.2, NvsMap.set_self, hnone]
    · exact (if_neg hat).symm
  · refine ⟨_, (hmap.setBlob s ns x data).2.trans ?_⟩
    rw [if_neg hnone, NvsMap.put, if_pos hx]

theorem gone_of_reproduces {ns : Name} (hlen : ns.length ≤ 15) {s : σ} {removed : Name → Prop}
    (h : Reproduces nvs view ns s removed) (hfull : ¬ (view s).Empty ns) {key : Name}
    (hremoved : removed key) : ¬ Returns (view s) ns key := by
  rintro ⟨hmagic, data, bytes, hdata, hbytes, hle, hcrc⟩
  have hshort := short_of_comes hmap hbytes
  have hkey := (length_metaKey_le key).mp hshort
  have hne := metaKey_ne_self (show key.length ≤ 34 by omega)
  have hmetaMagic := metaKey_ne_magic (show key.length ≤ 34 by omega)
  obtain ⟨hbackup, _⟩ := backup_view hmap hfull
  obtain ⟨_, hview, hcomplete⟩ := backup_succeeds hmap hbackup
  -- the corruption puts the pair where something is, and the restore leaves it
  obtain ⟨c₁, hc₁⟩ := exists_corrupted hmap (backup nvs ns s).2 ns
    (short_of_comes hmap hdata) data
  obtain ⟨c, hc⟩ := exists_corrupted hmap c₁ ns hshort bytes
  have hat : ∀ x blob, (x = key ∧ blob = data ∨ x = metaKey key ∧ blob = bytes) →
      view c ns x = if view (backup nvs ns s).2 ns x = none then none
        else some (.blob blob) := by
    rintro x blob (⟨rfl, rfl⟩ | ⟨rfl, rfl⟩)
    · rw [hc, NvsMap.set_other_key _ hne.symm, hc₁, NvsMap.set_self]
    · rw [hc, NvsMap.set_self, hc₁, NvsMap.set_other_key _ hne]
  have hframe : ∀ ns' x, ¬ (ns' = ns ∧ (x = key ∨ x = metaKey key)) →
      view c ns' x = view (backup nvs ns s).2 ns' x := by
    intro ns' x hx
    rw [hc, NvsMap.set, if_neg fun hat => hx ⟨hat.1, Or.inr hat.2⟩, hc₁, NvsMap.set,
      if_neg fun hat => hx ⟨hat.1, Or.inl hat.2⟩]
  have hcorrupted : CorruptedIn ns (view (backup nvs ns s).2) (view c) := by
    refine ⟨fun ns' x hns => hframe ns' x fun hat => hns hat.1, fun x hnone => ?_⟩
    by_cases hkeys : x = key ∨ x = metaKey key
    · rcases hkeys with rfl | rfl
      · rw [hat _ data (Or.inl ⟨rfl, rfl⟩), if_pos hnone]
      · rw [hat _ bytes (Or.inr ⟨rfl, rfl⟩), if_pos hnone]
    · rw [hframe ns x fun hat => hkeys hat.2, hnone]
  have hstill : (view c).BackupComplete := by
    rw [NvsMap.BackupComplete, hframe]
    · exact hcomplete
    · rintro ⟨hns, hx | hx⟩
      · exact hmagic ⟨hns.symm, hx.symm⟩
      · exact hmetaMagic hx.symm
  obtain ⟨hrestore, hrestored⟩ := restore_view hmap hlen hstill
  refine (h hbackup c hcorrupted hrestore).2 key hremoved data (NvsEntry.ofBytes bytes).version ?_
  rw [hview] at hcorrupted
  have hblob : ∀ x blob, (x = key ∧ blob = data ∨ x = metaKey key ∧ blob = bytes) →
      Comes (view s) ns x blob → ((view c).restore ns).blob ns x = some blob := by
    intro x blob hx hcomes
    rcases hcomes with hput | ⟨hput, hoccupied⟩
    · exact restored_putBack hcorrupted hput
    · rw [NvsMap.blob_eq_some, restored_at hcorrupted, hput, hat x blob hx, if_neg]
      · rfl
      · rw [hview]
        exact fun hnone => hoccupied (none_of_backup hnone)
  rw [readsBack_iff hmap, hrestored]
  exact ⟨bytes, hblob _ _ (Or.inr ⟨rfl, rfl⟩) hbytes, hle, hblob _ _ (Or.inl ⟨rfl, rfl⟩) hdata,
    hcrc, rfl⟩

end

/-! ## The theorem -/

/--
**A backup and a restore reproduce the store exactly when the backup takes every readable entry
and no removed one may return.** For every history of one manager that starts with nothing in the
backup namespace, and any corruption of its entries. Where the store is empty the backup fails.
-/
theorem backup_restores_iff {nvs : NvsFlash σ} {view : σ → NvsMap} (hmap : nvs.IsMap view)
    (name : Name) {s₀ : σ} (hfresh : (view s₀).Empty kBackupNs) (history : List StoreCall) :
    Reproduces nvs view (namespaceOf name) (storeAfter nvs (namespaceOf name) s₀ history)
        (RemovedIn history)
      ↔ (view (storeAfter nvs (namespaceOf name) s₀ history)).Empty (namespaceOf name)
        ∨ Restorable (view (storeAfter nvs (namespaceOf name) s₀ history)) (namespaceOf name)
          (RemovedIn history) := by
  have hlen := length_namespaceOf name
  have hordered : namespaceOf name ≠ kBackupNs →
      BackupOrdered (view (storeAfter nvs (namespaceOf name) s₀ history)) := by
    intro hns
    refine storeAfter_ordered hmap hlen hns history fun x data hblob => ?_
    rw [NvsMap.blob_eq_some, hfresh x] at hblob
    exact absurd hblob (by simp)
  constructor
  · intro h
    by_cases hempty : (view (storeAfter nvs (namespaceOf name) s₀ history)).Empty (namespaceOf name)
    · exact Or.inl hempty
    · refine Or.inr ⟨?_, ?_⟩
      · exact fun key data version hholds => taken_of_reproduces hmap hlen h hempty hordered hholds
      · exact fun key hremoved => gone_of_reproduces hmap hlen h hempty hremoved
  · rintro (hempty | h)
    · intro hbackup
      exact absurd hempty (backup_succeeds hmap hbackup).1
    · exact reproduces_of_restorable hmap hlen h

/-- `setU8("a", 1)` and a backup, on an empty partition. -/
def oneBackedUp : List StoreCall := [.set (ascii ['a']) (.setU8 1) 1, .backup]

/-- A byte that was backed up comes back, whatever becomes of the store. -/
theorem backup_restores_byte :
    Reproduces mapNvs ListNvs.view (namespaceOf defaultNamespace)
      (storeAfter mapNvs (namespaceOf defaultNamespace) {} oneBackedUp)
      (RemovedIn oneBackedUp) := by
  refine (backup_restores_iff mapNvs_isMap defaultNamespace (fun key => ?_) oneBackedUp).mpr
    (Or.inr ⟨fun key data version hholds => ?_, fun key hremoved => ?_⟩)
  · show ListNvs.view {} kBackupNs key = none
    simp [ListNvs.view]
  · obtain ⟨bytes, hmeta, _, hdata, _⟩ := hholds
    have hentry : key ∈ mapNvs.entries
        (storeAfter mapNvs (namespaceOf defaultNamespace) {} oneBackedUp)
        (namespaceOf defaultNamespace) := by
      rw [mapNvs_isMap.mem_entries, NvsMap.blob_eq_some.mp hdata]
      exact Option.some_ne_none _
    rw [show mapNvs.entries (storeAfter mapNvs (namespaceOf defaultNamespace) {} oneBackedUp)
      (namespaceOf defaultNamespace) = [ascii ['a'], metaKey (ascii ['a'])] by decide]
      at hentry
    rcases List.mem_cons.mp hentry with rfl | hentry
    · rw [show (ListNvs.view (storeAfter mapNvs (namespaceOf defaultNamespace) {} oneBackedUp)).blob
        (namespaceOf defaultNamespace) (ascii ['a']) = some [1] by decide] at hdata
      injection hdata with hdata
      exact ⟨by decide, by decide, by decide, by rw [← hdata]; simp⟩
    · rw [List.mem_singleton.mp hentry, show (ListNvs.view (storeAfter mapNvs
        (namespaceOf defaultNamespace) {} oneBackedUp)).blob (namespaceOf defaultNamespace)
        (metaKey (metaKey (ascii ['a']))) = none by decide] at hmeta
      exact absurd hmeta (by simp)
  · obtain ⟨before, after, hhistory, _⟩ := hremoved
    have hmem : StoreCall.remove key ∈ oneBackedUp := by
      rw [hhistory]
      exact List.mem_append_right _ List.mem_cons_self
    simp [oneBackedUp] at hmem

/-- Two bytes backed up, and one of them removed. -/
def removedSince : List StoreCall :=
  [.set (ascii ['a']) (.setU8 1) 1, .set (ascii ['b']) (.setU8 2) 1, .backup, .remove (ascii ['a'])]

/-- **A removed entry returns**: the next backup leaves it in the backup namespace, and a restore
brings it back, also when nothing was corrupted. -/
theorem removed_byte_returns :
    RemovedIn removedSince (ascii ['a'])
    ∧ ReadsBack mapNvs (namespaceOf defaultNamespace)
      (restoreFromBackup mapNvs (namespaceOf defaultNamespace)
        (backup mapNvs (namespaceOf defaultNamespace)
          (storeAfter mapNvs (namespaceOf defaultNamespace) {} removedSince)).2).2
      (ascii ['a']) [1] 1
    ∧ ¬ Reproduces mapNvs ListNvs.view (namespaceOf defaultNamespace)
      (storeAfter mapNvs (namespaceOf defaultNamespace) {} removedSince)
      (RemovedIn removedSince) := by
  have hremoved : RemovedIn removedSince (ascii ['a']) :=
    ⟨[.set (ascii ['a']) (.setU8 1) 1, .set (ascii ['b']) (.setU8 2) 1, .backup], [], rfl,
      fun _ _ => List.not_mem_nil⟩
  have hread : ReadsBack mapNvs (namespaceOf defaultNamespace)
      (restoreFromBackup mapNvs (namespaceOf defaultNamespace)
        (backup mapNvs (namespaceOf defaultNamespace)
          (storeAfter mapNvs (namespaceOf defaultNamespace) {} removedSince)).2).2
      (ascii ['a']) [1] 1 := by
    rw [readsBack_iff mapNvs_isMap]
    refine ⟨(NvsEntry.make (ascii ['a']) [1] 1).toBytes, ?_, ?_, ?_, ?_, ?_⟩ <;> decide
  refine ⟨hremoved, hread, fun h => ?_⟩
  exact (h (by decide) _ ⟨fun _ _ _ => rfl, fun _ hnone => hnone⟩ (by decide)).2
    (ascii ['a']) hremoved [1] 1 hread

end TaktOS.Proof
