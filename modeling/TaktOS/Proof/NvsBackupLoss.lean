import TaktOS.Proof.NvsBackup

/-!
# A backup of a corrupt entry

`backup` copies what is in the primary namespace without looking at the CRC, so a corrupt entry
takes the place of the good one that was backed up. Only what the loop passes over survives: an
empty blob, and a key with `_meta` in it that is not another entry's metadata.
-/

namespace TaktOS.Proof

open NvsManager (namespaceOf defaultNamespace)
open NvsManager.Esp32

variable {σ : Type}

/-- Data and metadata stand under the key. -/
def PairAt (m : NvsMap) (ns key : Name) (data bytes : List UInt8) : Prop :=
  m.blob ns key = some data ∧ m.blob ns (metaKey key) = some bytes
    ∧ bytes.length ≤ nvsEntrySize

instance (m : NvsMap) (ns key : Name) (data bytes : List UInt8) :
    Decidable (PairAt m ns key data bytes) := inferInstanceAs (Decidable (_ ∧ _ ∧ _))

/-- The data has the CRC that the metadata gives. -/
def Matches (data bytes : List UInt8) : Prop :=
  Crc32.compute data = (NvsEntry.ofBytes bytes).crc32

instance (data bytes : List UInt8) : Decidable (Matches data bytes) :=
  inferInstanceAs (Decidable (_ = _))

/-- The backup passes over the pair, or copies to it what is there. -/
def PassedOver (m : NvsMap) (ns key : Name) (data backedUp : List UInt8) : Prop :=
  key ≠ kBackupMagicKey
  ∧ (strstr metaSuffix key = false → data = [])
  ∧ ∀ entry, key = metaKey entry → strstr metaSuffix entry = false → m.filled ns entry ≠ none →
    data.length ≤ nvsEntrySize → (NvsEntry.ofBytes data).toBytes = backedUp

/-! ## What is copied to the two keys -/

/-- A key with the suffix's letters in it is overwritten only as another entry's metadata. -/
theorem copied_suffixed {m : NvsMap} {ns key : Name} {data : List UInt8}
    (hlen : key.length ≤ 10) (hsuffix : strstr metaSuffix key = true)
    (hdata : m.blob ns key = some data) {copy : List UInt8} :
    m.copied ns key = some copy ↔ ∃ entry, key = metaKey entry ∧ strstr metaSuffix entry = false
      ∧ m.filled ns entry ≠ none ∧ data.length ≤ nvsEntrySize
      ∧ (NvsEntry.ofBytes data).toBytes = copy := by
  rw [NvsMap.copied, if_pos hsuffix, hdata]
  constructor
  · intro h
    split at h
    · rename_i hc
      obtain ⟨bytes, hbytes, hcopy⟩ := Option.map_eq_some_iff.mp h
      obtain ⟨hbytes, hle⟩ := Option.filter_eq_some_iff.mp hbytes
      injection hbytes with hbytes
      subst hbytes
      exact ⟨stem key, hc.1, hc.2.1, hc.2.2, of_decide_eq_true hle, hcopy⟩
    · exact absurd h (by simp)
  · rintro ⟨entry, rfl, hplain, hfilled, hle, hcopy⟩
    have hentry : entry.length ≤ 34 := by
      rw [length_metaKey] at hlen
      omega
    rw [stem_metaKey hentry, if_pos ⟨rfl, hplain, hfilled⟩, filter_fits hle, Option.map_some,
      hcopy]

/-! ## The two cases -/

section

variable {m : NvsMap} {ns key : Name} {data bytes data' bytes' : List UInt8}

/-- The entry of a plain key is copied with its metadata, or not at all. -/
theorem survives_plain (hlen : key.length ≤ 10) (hmagic : key ≠ kBackupMagicKey)
    (hplain : strstr metaSuffix key = false) (hpair : PairAt m ns key data bytes)
    (hcorrupt : ¬ Matches data bytes) (hbackup : PairAt m kBackupNs key data' bytes')
    (hgood : Matches data' bytes') :
    PairAt (m.backup ns) kBackupNs key data' bytes' ↔ data = [] := by
  have hmeta_ne : metaKey key ≠ kBackupMagicKey := metaKey_ne_magic (by omega)
  rw [PairAt, NvsMap.blob_backup hmagic, NvsMap.blob_backup hmeta_ne, NvsMap.copied_of_plain hplain]
  constructor
  · rintro ⟨hdata, hbytes, _⟩
    by_contra hne
    have hfilled := NvsMap.filled_eq_some.mpr ⟨NvsMap.blob_eq_some.mp hpair.1, hne⟩
    have hsome : m.filled ns key ≠ none := by
      rw [hfilled]
      exact Option.some_ne_none _
    have hcopied := NvsMap.copied_metaKey (by omega) hplain hsome
    rw [hpair.2.1, filter_fits hpair.2.2] at hcopied
    rw [hfilled, Option.some_or] at hdata
    rw [hcopied, Option.map_some, Option.some_or] at hbytes
    -- the corrupt pair took the place of the good one, and cannot be it
    refine hcorrupt ?_
    rw [Matches, ← Option.some.inj hbytes, ← Option.some.inj hdata,
      NvsEntry.ofBytes_toBytes (NvsEntry.length_ofBytes_key bytes)] at hgood
    exact hgood
  · rintro rfl
    have hfilled : m.filled ns key = none := by
      rw [NvsMap.filled, hpair.1]
      rfl
    rw [NvsMap.copied_metaKey_of_unfilled (by omega) hfilled, hfilled]
    exact hbackup

/-- The other keys are overwritten one at a time. -/
theorem survives_suffixed (hlen : key.length ≤ 10) (hmagic : key ≠ kBackupMagicKey)
    (hsuffix : strstr metaSuffix key = true) (hbackup : PairAt m kBackupNs key data' bytes') :
    PairAt (m.backup ns) kBackupNs key data' bytes'
      ↔ ∀ copy, m.copied ns key = some copy → copy = data' := by
  have hmeta_ne : metaKey key ≠ kBackupMagicKey := metaKey_ne_magic (by omega)
  rw [PairAt, NvsMap.blob_backup hmagic, NvsMap.blob_backup hmeta_ne,
    NvsMap.copied_metaKey_of_suffixed hlen hsuffix, Option.none_or, hbackup.1]
  constructor
  · rintro ⟨hdata, _⟩ copy hcopy
    rw [hcopy, Option.some_or] at hdata
    exact Option.some.inj hdata
  · intro h
    refine ⟨?_, hbackup.2⟩
    cases hcopied : m.copied ns key with
    | none => rfl
    | some copy => rw [Option.some_or, h copy hcopied]

end

/-- Under the magic's key nothing else survives. -/
theorem not_survives_magic {m : NvsMap} {ns : Name} {data bytes : List UInt8} :
    ¬ PairAt (m.backup ns) kBackupNs kBackupMagicKey data bytes := by
  rintro ⟨hdata, _⟩
  rw [NvsMap.blob_eq_some, NvsMap.backup, if_pos rfl, if_pos rfl] at hdata
  exact absurd hdata (by simp)

/-! ## The theorem -/

/--
**A good backup of a corrupt entry survives only where the backup passes it over.** For every
state of the two namespaces in which the primary pair under a key does not match and the pair in
the backup does, in whatever order the entries are gone through.
-/
theorem backup_survives_iff {nvs : NvsFlash σ} {view : σ → NvsMap} (hmap : nvs.IsMap view)
    (name : Name) {s : σ} {key : Name} {data bytes data' bytes' : List UInt8}
    (hpair : PairAt (view s) (namespaceOf name) key data bytes)
    (hcorrupt : ¬ Matches data bytes) (hbackup : PairAt (view s) kBackupNs key data' bytes')
    (hgood : Matches data' bytes') :
    PairAt (view (backup nvs (namespaceOf name) s).2) kBackupNs key data' bytes'
      ↔ PassedOver (view s) (namespaceOf name) key data data' := by
  have hsome : view s (namespaceOf name) (metaKey key) ≠ none := by
    rw [NvsMap.blob_eq_some.mp hpair.2.1]
    exact Option.some_ne_none _
  have hlen := (length_metaKey_le key).mp (hmap.short s _ _ hsome)
  rw [(backup_view hmap fun hempty => hsome (hempty _)).2, PassedOver]
  by_cases hmagic : key = kBackupMagicKey
  · subst hmagic
    exact ⟨fun h => absurd h not_survives_magic, fun h => absurd rfl h.1⟩
  · cases hsuffix : strstr metaSuffix key with
    | false =>
      rw [survives_plain hlen hmagic hsuffix hpair hcorrupt hbackup hgood]
      constructor
      · intro hempty
        refine ⟨hmagic, fun _ => hempty, ?_⟩
        rintro entry rfl _ _ _
        rw [length_metaKey] at hlen
        rw [strstr_metaKey (by omega)] at hsuffix
        exact Bool.noConfusion hsuffix
      · exact fun h => h.2.1 rfl
    | true =>
      rw [survives_suffixed hlen hmagic hsuffix hbackup]
      simp only [copied_suffixed hlen hsuffix hpair.1]
      constructor
      · intro h
        refine ⟨hmagic, fun hc => absurd hc (by decide), ?_⟩
        intro entry hentry hplain hfilled hle
        exact h _ ⟨entry, hentry, hplain, hfilled, hle, rfl⟩
      · rintro ⟨_, _, h⟩ copy ⟨entry, hentry, hplain, hfilled, hle, hcopy⟩
        rw [← hcopy]
        exact h entry hentry hplain hfilled hle

/-! ## One byte -/

/-- `setU8("a", 1)` and a backup. -/
def backedUp : ListNvs :=
  (backup mapNvs (namespaceOf defaultNamespace)
    (writeEntry mapNvs (namespaceOf defaultNamespace) {} (ascii ['a']) [1] 1).2).2

/-- The backup's metadata of the entry. -/
def backedUpMeta : List UInt8 := (NvsEntry.make (ascii ['a']) [1] 1).toBytes

/-- The partition when the data in the primary namespace has become something else. -/
def corrupted (data : List UInt8) : ListNvs :=
  (mapNvs.setBlob backedUp (namespaceOf defaultNamespace) (ascii ['a']) data).2

/-- Data that has vanished is passed over. -/
theorem backup_survives_empty :
    PairAt (ListNvs.view (backup mapNvs (namespaceOf defaultNamespace) (corrupted [])).2)
      kBackupNs (ascii ['a']) [1] backedUpMeta := by
  have hpair : PairAt (corrupted []).view (namespaceOf defaultNamespace) (ascii ['a']) []
      backedUpMeta := by decide
  have hbackup : PairAt (corrupted []).view kBackupNs (ascii ['a']) [1] backedUpMeta := by
    decide
  refine (backup_survives_iff mapNvs_isMap defaultNamespace hpair ?_ hbackup ?_).mpr
    ⟨by decide, fun _ => rfl, ?_⟩
  · decide
  · decide
  · intro entry hentry
    have hlen := congrArg List.length hentry
    rw [length_metaKey, show (ascii ['a']).length = 1 from rfl] at hlen
    omega

/--
**A changed byte destroys its backup**: the pair in the backup namespace matches before and not
after, and a restore brings back an entry that cannot be read.
-/
theorem backup_destroyed :
    PairAt (corrupted [2]).view (namespaceOf defaultNamespace) (ascii ['a']) [2] backedUpMeta
    ∧ ¬ Matches [2] backedUpMeta
    ∧ PairAt (corrupted [2]).view kBackupNs (ascii ['a']) [1] backedUpMeta
    ∧ Matches [1] backedUpMeta
    ∧ ¬ PairAt (backup mapNvs (namespaceOf defaultNamespace) (corrupted [2])).2.view kBackupNs
      (ascii ['a']) [1] backedUpMeta
    ∧ (readEntry mapNvs (namespaceOf defaultNamespace)
      (restoreFromBackup mapNvs (namespaceOf defaultNamespace)
        (backup mapNvs (namespaceOf defaultNamespace) (corrupted [2])).2).2
      (ascii ['a']) [0] 0).1 = false := by
  refine ⟨?_, ?_, ?_, ?_, ?_, ?_⟩ <;> decide

end TaktOS.Proof
