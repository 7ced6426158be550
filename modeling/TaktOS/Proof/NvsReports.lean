import TaktOS.Proof.NvsReadBack

/-!
# What is reported of an entry

The getters, the integrity check and a backup followed by a restore, as functions of the map.
Each looks at an entry through the two keys that NVS knows it by, and through what the backup
namespace has under them.
-/

namespace TaktOS.Proof

open Lib
open NvsManager (namespaceOf)
open NvsManager.Esp32

variable {σ : Type}

/-- The getters give the same in both states, whatever they are given. -/
structure SameReads (nvs : NvsFlash σ) (ns key : Name) (s s' : σ) : Prop where
  readEntry : ∀ buf version,
    readEntry nvs ns s' key buf version = readEntry nvs ns s key buf version
  getBlob : ∀ buf version, getBlob nvs ns s' key buf version = getBlob nvs ns s key buf version
  getU8 : ∀ value, getU8 nvs ns s' key value = getU8 nvs ns s key value
  getU16 : ∀ value, getU16 nvs ns s' key value = getU16 nvs ns s key value
  getU32 : ∀ value, getU32 nvs ns s' key value = getU32 nvs ns s key value
  getString : ∀ buf, getString nvs ns s' key buf = getString nvs ns s key buf

/-- `verifyIntegrity` ends because of the entry: it fails, or it crashes. -/
def EndsAt (nvs : NvsFlash σ) (ns : Name) (s : σ) (key : Name) (verdict : Option Bool) : Prop :=
  key ∈ nvs.entries s ns ∧ verifyKey nvs ns s key = verdict ∧ verdict ≠ some true

/-- A backup followed by a restore. -/
def roundTrip (nvs : NvsFlash σ) (ns : Name) (s : σ) : σ :=
  (restoreFromBackup nvs ns (backup nvs ns s).2).2

/-- Nothing that is reported of the entry differs between the states. -/
structure Unaffected (nvs : NvsFlash σ) (ns key : Name) (s s' : σ) : Prop where
  getters : SameReads nvs ns key s s'
  verifyIntegrity : ∀ verdict, EndsAt nvs ns s' key verdict ↔ EndsAt nvs ns s key verdict
  backupRestore : SameReads nvs ns key (roundTrip nvs ns s) (roundTrip nvs ns s')

/-- One of the two blobs is missing, so that every read fails before the buffer is filled. -/
def Unreadable (m : NvsMap) (ns key : Name) : Prop :=
  m.blob ns (metaKey key) = none ∨ m.blob ns key = none

theorem Unreadable.read {m : NvsMap} {ns key : Name} (h : Unreadable m ns key)
    (buf : List UInt8) (version : UInt16) : m.read ns key buf version = (false, buf, version) := by
  unfold NvsMap.read
  rcases h with h | h
  · rw [h]
    rfl
  · rw [h]
    cases (m.blob ns (metaKey key)).filter (·.length ≤ nvsEntrySize) with
    | none => rfl
    | some bytes => rfl

theorem Unreadable.not_holds {m : NvsMap} {ns key : Name} (h : Unreadable m ns key)
    (data : List UInt8) (version : UInt16) : ¬ m.Holds ns key data version := by
  rintro ⟨bytes, hmeta, _, hdata, _⟩
  rcases h with h | h
  · rw [h] at hmeta
    exact absurd hmeta (by simp)
  · rw [h] at hdata
    exact absurd hdata (by simp)

section

variable {nvs : NvsFlash σ} {view : σ → NvsMap} (hmap : nvs.IsMap view)

include hmap

/-! ## The getters -/

/-- A key that leaves no room for the suffix has no metadata. -/
theorem no_meta_of_long (s : σ) (ns : Name) {key : Name} (h : 10 < key.length) :
    view s ns (metaKey key) = none := by
  by_contra hsome
  have hlen := (length_metaKey_le key).mp (hmap.short s ns (metaKey key) hsome)
  omega

theorem unreadable_of_long (s : σ) (ns : Name) {key : Name} (h : 10 < key.length) :
    Unreadable (view s) ns key :=
  Or.inl (by rw [NvsMap.blob, no_meta_of_long hmap s ns h])

theorem getBlob_eq (ns : Name) (s : σ) (key : Name) (buf : List UInt8) (version : UInt16) :
    getBlob nvs ns s key buf version = match (view s).blob ns key with
      | none => (-1, buf, version)
      | some data =>
        if data.length > buf.length then (-1, buf, version)
        else
          let (ok, buf, version) := (view s).read ns key buf version
          if !ok then (-1, buf, version) else (castInt data.length, buf, version) := by
  unfold getBlob
  cases hopen : nvs.openReadOnly s ns with
  | false => rw [IsMap.blob_of_closed hmap hopen, if_pos (by decide)]
  | true =>
    rw [if_neg (by decide), hmap.blobLength]
    cases hblob : (view s).blob ns key with
    | none => rfl
    | some data =>
      dsimp only [Option.map_some]
      rw [readEntry_eq hmap]

theorem Unreadable.getBlob {ns : Name} {s : σ} {key : Name} (h : Unreadable (view s) ns key)
    (buf : List UInt8) (version : UInt16) :
    getBlob nvs ns s key buf version = (-1, buf, version) := by
  rw [getBlob_eq hmap]
  cases (view s).blob ns key with
  | none => rfl
  | some data =>
    dsimp only
    rw [h.read]
    exact ite_self _

omit hmap in
/-- The getters for integers and strings read an entry and nothing else. -/
theorem sameReads_of_read {ns key : Name} {s s' : σ}
    (hread : ∀ buf version,
      readEntry nvs ns s' key buf version = readEntry nvs ns s key buf version)
    (hblob : ∀ buf version, getBlob nvs ns s' key buf version = getBlob nvs ns s key buf version) :
    SameReads nvs ns key s s' where
  readEntry := hread
  getBlob := hblob
  getU8 := fun value => by rw [getU8, getU8, hread]
  getU16 := fun value => by rw [getU16, getU16, hread]
  getU32 := fun value => by rw [getU32, getU32, hread]
  getString := fun buf => by rw [getString, getString, hread]

/-- **The getters see the two blobs of the entry.** -/
theorem sameReads_of_same {ns key : Name} {s s' : σ}
    (h : ∀ x ∈ entryKeys key, view s' ns x = view s ns x) : SameReads nvs ns key s s' := by
  have hdata := NvsMap.blob_congr (h key List.mem_cons_self)
  have hmeta := NvsMap.blob_congr (h _ (metaKey_mem_entryKeys key))
  refine sameReads_of_read ?_ ?_
  · intro buf version
    rw [readEntry_eq hmap, readEntry_eq hmap, NvsMap.read_congr hmeta hdata]
  · intro buf version
    rw [getBlob_eq hmap, getBlob_eq hmap, hdata]
    simp only [NvsMap.read_congr hmeta hdata]

theorem sameReads_of_unreadable {ns key : Name} {s s' : σ} (h : Unreadable (view s) ns key)
    (h' : Unreadable (view s') ns key) : SameReads nvs ns key s s' := by
  refine sameReads_of_read ?_ ?_
  · intro buf version
    rw [readEntry_eq hmap, readEntry_eq hmap, h.read, h'.read]
  · intro buf version
    rw [h.getBlob hmap, h'.getBlob hmap]

/-- States that read the same hold the same. -/
theorem SameReads.holds {ns key : Name} {s s' : σ} (h : SameReads nvs ns key s s')
    {data : List UInt8} {version : UInt16} :
    (view s').Holds ns key data version ↔ (view s).Holds ns key data version := by
  rw [← readsBack_iff hmap, ← readsBack_iff hmap, ReadsBack, ReadsBack]
  simp only [h.readEntry]

/-! ## The integrity check -/

theorem endsAt_iff {ns : Name} {s : σ} {key : Name} {verdict : Option Bool} :
    EndsAt nvs ns s key verdict
      ↔ view s ns key ≠ none ∧ (view s).verdict ns key = verdict ∧ verdict ≠ some true := by
  rw [EndsAt, hmap.mem_entries, verifyKey_eq hmap]

/-- The check fails at every entry of a plain key that leaves no room for the suffix. -/
theorem endsAt_of_long {ns : Name} {s : σ} {key : Name} (hlong : 10 < key.length)
    (hplain : strstr metaSuffix key = false) {verdict : Option Bool} :
    EndsAt nvs ns s key verdict ↔ view s ns key ≠ none ∧ verdict = some false := by
  have hverdict : (view s).verdict ns key = some false := by
    rw [NvsMap.verdict, NvsMap.faults, NvsMap.sound, hplain, NvsMap.blob,
      no_meta_of_long hmap s ns hlong]
    rfl
  rw [endsAt_iff hmap, hverdict]
  refine and_congr_right fun _ => ⟨fun h => h.1.symm, ?_⟩
  rintro rfl
  exact ⟨rfl, by decide⟩

/-! ## A backup followed by a restore -/

theorem roundTrip_entries {ns : Name} (hns : ns.length ≤ 15) {s : σ} (h : ¬ (view s).Empty ns) :
    view (roundTrip nvs ns s) = ((view s).backup ns).restore ns := by
  have hbackup := (backup_view hmap h).2
  have hcomplete : ((view s).backup ns).BackupComplete := by
    rw [NvsMap.BackupComplete, NvsMap.backup, if_pos rfl, if_pos rfl]
  rw [roundTrip, (restore_view hmap hns (by rw [hbackup]; exact hcomplete)).2, hbackup]

/-- Without entries only an earlier backup is restored. -/
theorem roundTrip_empty {ns : Name} (hns : ns.length ≤ 15) {s : σ} (h : (view s).Empty ns)
    (hcomplete : (view s).BackupComplete) :
    view (roundTrip nvs ns s) = (view s).restore ns := by
  have hbackup := (backup_empty hmap h).2
  rw [roundTrip, (restore_view hmap hns (by rw [hbackup]; exact hcomplete)).2, hbackup]

theorem roundTrip_nothing {ns : Name} {s : σ} (h : (view s).Empty ns)
    (hincomplete : ¬ (view s).BackupComplete) : view (roundTrip nvs ns s) = view s := by
  have hbackup := (backup_empty hmap h).2
  rw [roundTrip, restore_incomplete hmap ns (by rw [hbackup]; exact hincomplete), hbackup]

end

end TaktOS.Proof
