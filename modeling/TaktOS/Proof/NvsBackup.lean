import TaktOS.Proof.NvsEntries

/-!
# What a backup and a restore do

Both go through the keys of a namespace and copy blobs between it and the backup namespace. The
order of the keys makes no difference: a backup puts a function of the primary namespace under
each key it reaches, and a restore one of the backup namespace.
-/

namespace TaktOS

open NvsManager.Esp32

/-- A blob that is copied: an empty one is passed over. -/
def NvsMap.filled (m : NvsMap) (ns key : Name) : Option (List UInt8) :=
  (m.blob ns key).filter (· ≠ [])

/-- A key without the suffix. -/
def stem (key : Name) : Name := key.take (key.length - metaSuffix.length)

/-- What the backup of a namespace puts under a key, the magic apart. -/
def NvsMap.copied (m : NvsMap) (ns key : Name) : Option (List UInt8) :=
  if strstr metaSuffix key then
    -- only the metadata of a copied entry is copied, as a struct it was read into
    if key = metaKey (stem key) ∧ strstr metaSuffix (stem key) = false
        ∧ m.filled ns (stem key) ≠ none then
      ((m.blob ns key).filter (·.length ≤ nvsEntrySize)).map fun bytes =>
        (NvsEntry.ofBytes bytes).toBytes
    else none
  else m.filled ns key

/-- The value a copy leaves where another one was. -/
def copyOver (copy : Option (List UInt8)) (old : Option NvsValue) : Option NvsValue :=
  match copy with
  | some data => some (.blob data)
  | none => old

/-- The map after a backup of a namespace that has entries. -/
def NvsMap.backup (m : NvsMap) (ns : Name) : NvsMap := fun ns' key =>
  if ns' = kBackupNs then
    if key = kBackupMagicKey then some (.u32 kBackupMagic)
    else copyOver (m.copied ns key) (m kBackupNs key)
  else m ns' key

/-- The map after a restore from a completed backup. -/
def NvsMap.restore (m : NvsMap) (ns : Name) : NvsMap := fun ns' key =>
  if ns' = ns ∧ key ≠ kBackupMagicKey then copyOver (m.filled kBackupNs key) (m ns key)
  else m ns' key

/-- The namespace has no entry. -/
def NvsMap.Empty (m : NvsMap) (ns : Name) : Prop := ∀ key, m ns key = none

/-- The backup namespace carries the magic. -/
def NvsMap.BackupComplete (m : NvsMap) : Prop :=
  m kBackupNs kBackupMagicKey = some (.u32 kBackupMagic)

/-! ## Keys and their metadata -/

theorem stem_metaKey {key : Name} (h : key.length ≤ 34) : stem (metaKey key) = key := by
  rw [stem, metaKey_of_short h, List.length_append, Nat.add_sub_cancel, List.take_left]

theorem metaKey_ne_magic {key : Name} (h : key.length ≤ 34) : metaKey key ≠ kBackupMagicKey := by
  intro he
  have hsuffix := strstr_metaKey h
  rw [he] at hsuffix
  exact Bool.noConfusion hsuffix

theorem NvsMap.filled_eq_some {m : NvsMap} {ns key : Name} {data : List UInt8} :
    m.filled ns key = some data ↔ m ns key = some (.blob data) ∧ data ≠ [] := by
  rw [filled, Option.filter_eq_some_iff, blob_eq_some, decide_eq_true_iff]

theorem NvsMap.filled_congr {m m' : NvsMap} {ns ns' key : Name} (h : m' ns' key = m ns key) :
    m'.filled ns' key = m.filled ns key := by
  rw [filled, filled, blob, blob, h]

/-- Copying a blob onto itself changes nothing. -/
theorem NvsMap.copyOver_filled (m : NvsMap) (ns key : Name) :
    copyOver (m.filled ns key) (m ns key) = m ns key := by
  cases h : m.filled ns key with
  | none => rfl
  | some data =>
    obtain ⟨hdata, _⟩ := filled_eq_some.mp h
    rw [hdata]
    rfl

theorem NvsMap.copied_of_plain {m : NvsMap} {ns key : Name}
    (h : strstr metaSuffix key = false) : m.copied ns key = m.filled ns key := by
  rw [copied, h, if_neg Bool.false_ne_true]

/-- The metadata of an entry that is not copied is not copied. -/
theorem NvsMap.copied_metaKey_of_unfilled {m : NvsMap} {ns key : Name} (hlen : key.length ≤ 34)
    (h : m.filled ns key = none) : m.copied ns (metaKey key) = none := by
  rw [copied, if_pos (strstr_metaKey hlen), if_neg]
  rw [stem_metaKey hlen]
  exact fun hc => hc.2.2 h

theorem NvsMap.copied_metaKey {m : NvsMap} {ns key : Name} (hlen : key.length ≤ 34)
    (h : strstr metaSuffix key = false) (hfilled : m.filled ns key ≠ none) :
    m.copied ns (metaKey key) = ((m.blob ns (metaKey key)).filter (·.length ≤ nvsEntrySize)).map
      fun bytes => (NvsEntry.ofBytes bytes).toBytes := by
  rw [copied, if_pos (strstr_metaKey hlen), if_pos]
  rw [stem_metaKey hlen]
  exact ⟨rfl, h, hfilled⟩

/-- Nothing is copied from where there is nothing. -/
theorem NvsMap.copied_of_none {m : NvsMap} {ns key : Name} (h : m ns key = none) :
    m.copied ns key = none := by
  have hblob : m.blob ns key = none := by rw [blob, h]
  unfold copied filled
  rw [hblob]
  split
  · split <;> rfl
  · rfl

/-- Nor under a key that has the suffix's letters and is no plain key's metadata. -/
theorem NvsMap.copied_of_no_entry (m : NvsMap) (ns : Name) {key : Name}
    (hsuffix : strstr metaSuffix key = true)
    (h : ¬ (key = metaKey (stem key) ∧ strstr metaSuffix (stem key) = false)) :
    m.copied ns key = none := by
  rw [copied, if_pos hsuffix, if_neg fun hc => h ⟨hc.1, hc.2.1⟩]

/-- What a backup copies under a key depends on the entry there and on the one it describes. -/
theorem NvsMap.copied_congr {m m' : NvsMap} {ns key : Name} (h : m' ns key = m ns key)
    (hstem : m' ns (stem key) = m ns (stem key)) : m'.copied ns key = m.copied ns key := by
  rw [copied, copied, filled_congr h, filled_congr hstem, blob_congr h]

/-- A copied key is one the loop reaches, or the metadata of one. -/
theorem NvsMap.of_copied {m : NvsMap} {ns key : Name} {data : List UInt8}
    (h : m.copied ns key = some data) :
    ∃ entry, strstr metaSuffix entry = false ∧ m.filled ns entry ≠ none
      ∧ (key = entry ∨ key = metaKey entry) := by
  unfold copied at h
  split at h
  · split at h
    · rename_i hc
      exact ⟨stem key, hc.2.1, hc.2.2, Or.inr hc.1⟩
    · exact absurd h (by simp)
  · rename_i hplain
    exact ⟨key, Bool.eq_false_iff.mpr hplain, by rw [h]; exact Option.some_ne_none _, Or.inl rfl⟩

/-- The metadata of a key with the suffix's letters in it is not copied. -/
theorem NvsMap.copied_metaKey_of_suffixed {m : NvsMap} {ns key : Name} (hlen : key.length ≤ 10)
    (hsuffix : strstr metaSuffix key = true) : m.copied ns (metaKey key) = none := by
  rw [copied, if_pos (strstr_metaKey (by omega)), if_neg]
  rw [stem_metaKey (by omega), hsuffix]
  exact fun hc => absurd hc.2.1 (by decide)

/-- An empty blob is never copied. -/
theorem NvsMap.copied_ne_nil {m : NvsMap} {ns key : Name} {data : List UInt8}
    (h : m.copied ns key = some data) : data ≠ [] := by
  unfold copied at h
  split at h
  · split at h
    · obtain ⟨bytes, _, hbytes⟩ := Option.map_eq_some_iff.mp h
      rintro rfl
      have hlen := NvsEntry.length_toBytes (NvsEntry.length_ofBytes_key bytes)
      rw [hbytes] at hlen
      exact absurd hlen (by decide)
    · exact absurd h (by simp)
  · exact (filled_eq_some.mp h).2

/-- Under every key but the magic's a backup leaves the copy, or what was there. -/
theorem NvsMap.backup_at {m : NvsMap} {ns x : Name} (hx : x ≠ kBackupMagicKey) :
    m.backup ns kBackupNs x = copyOver (m.copied ns x) (m kBackupNs x) := by
  rw [backup, if_pos rfl, if_neg hx]

theorem NvsMap.blob_backup {m : NvsMap} {ns x : Name} (hx : x ≠ kBackupMagicKey) :
    (m.backup ns).blob kBackupNs x = (m.copied ns x).or (m.blob kBackupNs x) := by
  rw [blob, backup_at hx]
  cases hcopied : m.copied ns x with
  | none => rfl
  | some data => rfl

theorem NvsMap.filled_backup {m : NvsMap} {ns x : Name} (hx : x ≠ kBackupMagicKey) :
    (m.backup ns).filled kBackupNs x = (m.copied ns x).or (m.filled kBackupNs x) := by
  rw [filled, filled, blob_backup hx]
  cases hcopied : m.copied ns x with
  | none => rfl
  | some data =>
    rw [Option.some_or, Option.some_or, Option.filter_eq_some_iff]
    exact ⟨rfl, decide_eq_true (copied_ne_nil hcopied)⟩

/-! ## One key of a backup -/

variable {σ : Type}

theorem backupKey_skips (nvs : NvsFlash σ) (ns : Name) (s : σ) {key : Name}
    (h : strstr metaSuffix key = true) : backupKey nvs ns s key = s := by
  rw [backupKey, if_pos h]

section

variable {nvs : NvsFlash σ} {view : σ → NvsMap} (hmap : nvs.IsMap view)

include hmap

/-- What both loops read of an entry: its length, and the blob if there is one. -/
theorem blobLength_getBlob (s : σ) (ns key : Name) :
    (match nvs.blobLength s ns key with
      | none => none
      | some len => if len = 0 then none else nvs.getBlob s ns key len)
      = (view s).filled ns key := by
  rw [hmap.blobLength, NvsMap.filled]
  cases hblob : (view s).blob ns key with
  | none => rfl
  | some data =>
    rw [Option.map_some, Option.filter_some]
    dsimp only
    by_cases hne : data = []
    · rw [if_pos (by rw [hne]; rfl), decide_eq_false (by simp [hne])]
      rfl
    · rw [if_neg (by simpa using hne), hmap.getBlob, hblob, Option.filter_some,
        decide_eq_true (Nat.le_refl _), decide_eq_true hne]

theorem view_backupKey (ns : Name) (s : σ) {key : Name} (hlen : key.length ≤ 34)
    (hplain : strstr metaSuffix key = false) : view (backupKey nvs ns s key)
      = match (view s).filled ns key with
        | none => view s
        | some data =>
          match ((view s).blob ns (metaKey key)).filter (·.length ≤ nvsEntrySize) with
          | none => (view s).put kBackupNs key data
          | some bytes => ((view s).put kBackupNs key data).put kBackupNs (metaKey key)
            (NvsEntry.ofBytes bytes).toBytes := by
  rw [← blobLength_getBlob hmap, backupKey, if_neg (by rw [hplain]; exact Bool.false_ne_true)]
  cases hsome : nvs.blobLength s ns key with
  | none => rfl
  | some len =>
    dsimp only
    by_cases hzero : len = 0
    · rw [if_pos hzero, if_pos hzero]
    · rw [if_neg hzero, if_neg hzero]
      cases hdata : nvs.getBlob s ns key len with
      | none => rfl
      | some data =>
        dsimp only
        have hview := (hmap.setBlob s kBackupNs key data).2
        rw [hmap.getBlob, hview,
          NvsMap.blob_congr ((view s).put_other_key (metaKey_ne_self hlen))]
        cases hbytes : ((view s).blob ns (metaKey key)).filter (·.length ≤ nvsEntrySize) with
        | none => exact hview
        | some bytes =>
          dsimp only
          rw [(hmap.setBlob _ _ _ _).2, hview]

/-- One key changes the backup namespace only. -/
theorem backupKey_other_ns (ns : Name) (s : σ) {key : Name} (hlen : key.length ≤ 34)
    {ns' : Name} (hns : ns' ≠ kBackupNs) (x : Name) :
    view (backupKey nvs ns s key) ns' x = view s ns' x := by
  cases hplain : strstr metaSuffix key with
  | true => rw [backupKey_skips nvs ns s hplain]
  | false =>
    rw [view_backupKey hmap ns s hlen hplain]
    split
    · rfl
    · split
      · exact NvsMap.put_other_ns _ hns
      · rw [NvsMap.put_other_ns _ hns]
        exact NvsMap.put_other_ns _ hns

/-- It leaves the keys there that are neither its own nor its metadata's. -/
theorem backupKey_other_key (ns : Name) (s : σ) {key x : Name} (hlen : key.length ≤ 34)
    (hkey : x ≠ key) (hmeta : x ≠ metaKey key) (ns' : Name) :
    view (backupKey nvs ns s key) ns' x = view s ns' x := by
  cases hplain : strstr metaSuffix key with
  | true => rw [backupKey_skips nvs ns s hplain]
  | false =>
    rw [view_backupKey hmap ns s hlen hplain]
    split
    · rfl
    · split
      · exact NvsMap.put_other_key _ hkey
      · rw [NvsMap.put_other_key _ hmeta]
        exact NvsMap.put_other_key _ hkey

/-- At these two it puts what a backup copies there. -/
theorem backupKey_copies (ns : Name) (s : σ) {key x : Name}
    (hplain : strstr metaSuffix key = false) (hx : x = key ∨ x = metaKey key)
    (hlen : key.length ≤ 34) :
    view (backupKey nvs ns s key) kBackupNs x
      = copyOver ((view s).copied ns x) (view s kBackupNs x) := by
  have hne := metaKey_ne_self hlen
  rw [view_backupKey hmap ns s hlen hplain]
  cases hdata : (view s).filled ns key with
  | none =>
    rcases hx with rfl | rfl
    · rw [NvsMap.copied_of_plain hplain, hdata]
      rfl
    · rw [NvsMap.copied_metaKey_of_unfilled hlen hdata]
      rfl
  | some data =>
    -- the key is one of the partition's, so it is not too long to be set
    have hshort : key.length ≤ 15 := by
      refine hmap.short s ns key ?_
      rw [(NvsMap.filled_eq_some.mp hdata).1]
      exact Option.some_ne_none _
    rcases hx with rfl | rfl
    · rw [NvsMap.copied_of_plain hplain, hdata]
      split
      · rename_i h
        cases h
      · rename_i h
        cases h
        split
        · exact NvsMap.put_self _ data hshort
        · rw [NvsMap.put_other_key _ hne.symm]
          exact NvsMap.put_self _ data hshort
    · rw [NvsMap.copied_metaKey hlen hplain (by rw [hdata]; exact Option.some_ne_none _)]
      dsimp only
      cases hbytes : ((view s).blob ns (metaKey key)).filter (·.length ≤ nvsEntrySize) with
      | none => exact NvsMap.put_other_key _ hne
      | some bytes =>
        have hblob := NvsMap.blob_eq_some.mp (Option.filter_eq_some_iff.mp hbytes).1
        refine NvsMap.put_self _ _ (hmap.short s ns (metaKey key) ?_)
        rw [hblob]
        exact Option.some_ne_none _

/-! ## All keys of a backup -/

/-- The keys that going through `keys` can put something under. -/
def Covers (keys : List Name) (x : Name) : Prop :=
  ∃ key ∈ keys, strstr metaSuffix key = false ∧ (x = key ∨ x = metaKey key)

/-- A step leaves what a later one reads, and what stands where a later one writes. -/
theorem backupKey_before (ns : Name) (s : σ) {key later x : Name} (hlen : key.length ≤ 34)
    (hlater : later.length ≤ 34) (hne : later ≠ key) (hplain : strstr metaSuffix later = false)
    (hx : x = later ∨ x = metaKey later) :
    (view (backupKey nvs ns s key)).copied ns x = (view s).copied ns x
      ∧ view (backupKey nvs ns s key) kBackupNs x = view s kBackupNs x := by
  cases hkey : strstr metaSuffix key with
  | true => simp only [backupKey_skips nvs ns s hkey, and_self]
  | false =>
    -- neither the later key nor its metadata is this key or its metadata
    have hlater_other : ∀ ns', view (backupKey nvs ns s key) ns' later = view s ns' later := by
      refine backupKey_other_key hmap ns s hlen hne ?_
      rintro rfl
      rw [strstr_metaKey hlen] at hplain
      exact Bool.noConfusion hplain
    have hmeta_other : ∀ ns', view (backupKey nvs ns s key) ns' (metaKey later)
        = view s ns' (metaKey later) := by
      refine backupKey_other_key hmap ns s hlen ?_ fun he => hne (metaKey_inj hlater hlen he)
      rintro rfl
      rw [strstr_metaKey hlater] at hkey
      exact absurd hkey (by decide)
    rcases hx with rfl | rfl
    · refine ⟨?_, hlater_other _⟩
      rw [NvsMap.copied_of_plain hplain, NvsMap.copied_of_plain hplain]
      exact NvsMap.filled_congr (hlater_other ns)
    · refine ⟨NvsMap.copied_congr (hmeta_other ns) ?_, hmeta_other _⟩
      rw [stem_metaKey hlater]
      exact hlater_other ns

/-- **The loop of a backup** copies under each key it covers, once. -/
theorem backupKeys_view (ns : Name) (keys : List Name) (hnodup : keys.Nodup)
    (hlen : ∀ key ∈ keys, key.length ≤ 34) (s : σ) :
    (∀ ns' x, ns' ≠ kBackupNs →
      view (keys.foldl (backupKey nvs ns) s) ns' x = view s ns' x) ∧
    (∀ x, Covers keys x → view (keys.foldl (backupKey nvs ns) s) kBackupNs x
      = copyOver ((view s).copied ns x) (view s kBackupNs x)) ∧
    (∀ x, ¬ Covers keys x →
      view (keys.foldl (backupKey nvs ns) s) kBackupNs x = view s kBackupNs x) := by
  induction keys generalizing s with
  | nil =>
    refine ⟨fun _ _ _ => rfl, ?_, fun _ _ => rfl⟩
    rintro x ⟨_, hmem, _⟩
    cases hmem
  | cons key keys ih =>
    obtain ⟨hnew, hnodup⟩ := List.nodup_cons.mp hnodup
    have hkey := hlen key List.mem_cons_self
    obtain ⟨ihother, ihcovered, ihuncovered⟩ :=
      ih hnodup (fun key hmem => hlen key (List.mem_cons_of_mem _ hmem)) (backupKey nvs ns s key)
    rw [List.foldl_cons]
    refine ⟨?_, ?_, ?_⟩
    · intro ns' x hns
      rw [ihother ns' x hns, backupKey_other_ns hmap ns s hkey hns]
    · intro x hcovers
      by_cases hlater : Covers keys x
      · rw [ihcovered x hlater]
        obtain ⟨later, hmem, hplain, hx⟩ := hlater
        have hne : later ≠ key := fun he => hnew (he ▸ hmem)
        obtain ⟨hcopied, hold⟩ := backupKey_before hmap ns s hkey
          (hlen later (List.mem_cons_of_mem _ hmem)) hne hplain hx
        rw [hcopied, hold]
      · rw [ihuncovered x hlater]
        obtain ⟨key', hmem, hplain, hx⟩ := hcovers
        rcases List.mem_cons.mp hmem with rfl | hmem
        · exact backupKey_copies hmap ns s hplain hx hkey
        · exact absurd ⟨key', hmem, hplain, hx⟩ hlater
    · intro x huncovered
      rw [ihuncovered x fun ⟨key', hmem, h⟩ =>
        huncovered ⟨key', List.mem_cons_of_mem _ hmem, h⟩]
      cases hplain : strstr metaSuffix key with
      | true => rw [backupKey_skips nvs ns s hplain]
      | false =>
        have hother := fun hx => huncovered ⟨key, List.mem_cons_self, hplain, hx⟩
        exact backupKey_other_key hmap ns s hkey (fun h => hother (Or.inl h))
          (fun h => hother (Or.inr h)) _

/-! ## The backup -/

/-- A namespace without entries is not backed up. -/
theorem backup_empty {s : σ} {ns : Name} (h : (view s).Empty ns) :
    (backup nvs ns s).1 = false ∧ view (backup nvs ns s).2 = view s := by
  obtain ⟨_, hopen⟩ := hmap.openReadWrite s kBackupNs (by decide)
  have hentries : nvs.entries (nvs.openReadWrite s kBackupNs).2 ns = [] := by
    rw [List.eq_nil_iff_forall_not_mem]
    intro key hmem
    rw [hmap.mem_entries, hopen] at hmem
    exact hmem (h key)
  unfold backup
  split
  · exact ⟨rfl, rfl⟩
  · dsimp only
    split
    · exact ⟨rfl, hopen⟩
    · rw [hentries]
      exact ⟨rfl, hopen⟩

/-- **A backup, whatever the order of the entries.** -/
theorem backup_view {s : σ} {ns : Name} (h : ¬ (view s).Empty ns) :
    (backup nvs ns s).1 = true ∧ view (backup nvs ns s).2 = (view s).backup ns := by
  obtain ⟨hok, hopen⟩ := hmap.openReadWrite s kBackupNs (by decide)
  obtain ⟨key₀, hkey₀⟩ := not_forall.mp h
  generalize hopened : (nvs.openReadWrite s kBackupNs).2 = opened at hopen
  have hmem : ∀ key, key ∈ nvs.entries opened ns ↔ view s ns key ≠ none := by
    intro key
    rw [hmap.mem_entries, hopen]
  obtain ⟨hother, hcovered, huncovered⟩ := backupKeys_view hmap ns (nvs.entries opened ns)
    (hmap.nodup_entries opened ns)
    (fun key hkey => by have := hmap.short s ns key ((hmem key).mp hkey); omega) opened
  have hresult : backup nvs ns s = (true, (nvs.commit (nvs.setU32
      ((nvs.entries opened ns).foldl (backupKey nvs ns) opened)
      kBackupNs kBackupMagicKey kBackupMagic).2 kBackupNs).2) := by
    unfold backup
    rw [hmap.readable s ns key₀ hkey₀]
    dsimp only
    rw [hok, hopened]
    cases hentries : nvs.entries opened ns with
    | nil =>
      have hin := (hmem key₀).mpr hkey₀
      rw [hentries] at hin
      cases hin
    | cons key keys => rfl
  rw [hresult]
  refine ⟨rfl, ?_⟩
  rw [(hmap.commit _ _).2, hmap.setU32 _ _ _ _ (by decide)]
  funext ns' x
  rw [NvsMap.backup]
  by_cases hns : ns' = kBackupNs
  · subst hns
    rw [if_pos rfl]
    by_cases hx : x = kBackupMagicKey
    · rw [hx, NvsMap.set_self, if_pos rfl]
    · rw [NvsMap.set_other_key _ hx, if_neg hx]
      by_cases hcov : Covers (nvs.entries opened ns) x
      · rw [hcovered x hcov, hopen]
      · rw [huncovered x hcov, hopen]
        cases hcopied : (view s).copied ns x with
        | none => rfl
        | some data =>
          obtain ⟨entry, hplain, hfilled, hx⟩ := NvsMap.of_copied hcopied
          refine absurd ⟨entry, (hmem entry).mpr fun hnone => hfilled ?_, hplain, hx⟩ hcov
          rw [NvsMap.filled, NvsMap.blob, hnone]
          rfl
  · rw [if_neg hns, NvsMap.set_other_ns _ hns, hother ns' x hns, hopen]

/-! ## The restore -/

theorem view_restoreKey (ns : Name) (s : σ) {key : Name} (hkey : key ≠ kBackupMagicKey) :
    view (restoreKey nvs ns s key)
      = match (view s).filled kBackupNs key with
        | none => view s
        | some data => (view s).put ns key data := by
  rw [← blobLength_getBlob hmap, restoreKey, if_neg hkey]
  cases hsome : nvs.blobLength s kBackupNs key with
  | none => rfl
  | some len =>
    dsimp only
    by_cases hzero : len = 0
    · rw [if_pos hzero, if_pos hzero]
    · rw [if_neg hzero, if_neg hzero]
      cases hdata : nvs.getBlob s kBackupNs key len with
      | none => rfl
      | some data => exact (hmap.setBlob s ns key data).2

/-- A step puts the backup's blob under its key. -/
theorem restoreKey_at (ns : Name) (s : σ) {key : Name} (hkey : key ≠ kBackupMagicKey) :
    view (restoreKey nvs ns s key) ns key
      = copyOver ((view s).filled kBackupNs key) (view s ns key) := by
  rw [view_restoreKey hmap ns s hkey]
  cases hdata : (view s).filled kBackupNs key with
  | none => rfl
  | some data =>
    refine NvsMap.put_self _ data (hmap.short s kBackupNs key ?_)
    rw [(NvsMap.filled_eq_some.mp hdata).1]
    exact Option.some_ne_none _

/-- And nothing elsewhere. -/
theorem restoreKey_other (ns : Name) (s : σ) {key ns' x : Name}
    (h : ¬ (ns' = ns ∧ x = key ∧ x ≠ kBackupMagicKey)) :
    view (restoreKey nvs ns s key) ns' x = view s ns' x := by
  by_cases hkey : key = kBackupMagicKey
  · rw [restoreKey, if_pos hkey]
  · rw [view_restoreKey hmap ns s hkey]
    split
    · rfl
    · by_cases hns : ns' = ns
      · by_cases hx : x = key
        · exact absurd ⟨hns, hx, hx ▸ hkey⟩ h
        · exact NvsMap.put_other_key _ hx
      · exact NvsMap.put_other_ns _ hns

/-- The backup namespace stays as it is, also when it is restored from itself. -/
theorem restoreKey_backup (ns : Name) (s : σ) (key x : Name) :
    view (restoreKey nvs ns s key) kBackupNs x = view s kBackupNs x := by
  by_cases h : kBackupNs = ns ∧ x = key ∧ x ≠ kBackupMagicKey
  · obtain ⟨rfl, rfl, hkey⟩ := h
    rw [restoreKey_at hmap kBackupNs s hkey, NvsMap.copyOver_filled]
  · exact restoreKey_other hmap ns s h

/-- **The loop of a restore** copies under each of its keys but the magic's. -/
theorem restoreKeys_view (ns : Name) (keys : List Name) (s : σ) :
    (∀ x, view (keys.foldl (restoreKey nvs ns) s) kBackupNs x = view s kBackupNs x) ∧
    (∀ x ∈ keys, x ≠ kBackupMagicKey → view (keys.foldl (restoreKey nvs ns) s) ns x
      = copyOver ((view s).filled kBackupNs x) (view s ns x)) ∧
    (∀ ns' x, ¬ (ns' = ns ∧ x ∈ keys ∧ x ≠ kBackupMagicKey) →
      view (keys.foldl (restoreKey nvs ns) s) ns' x = view s ns' x) := by
  induction keys generalizing s with
  | nil => exact ⟨fun _ => rfl, fun _ hmem => absurd hmem List.not_mem_nil, fun _ _ _ => rfl⟩
  | cons key keys ih =>
    obtain ⟨ihbackup, ihcopied, ihother⟩ := ih (restoreKey nvs ns s key)
    have hfilled : ∀ x, (view (restoreKey nvs ns s key)).filled kBackupNs x
        = (view s).filled kBackupNs x :=
      fun x => NvsMap.filled_congr (restoreKey_backup hmap ns s key x)
    rw [List.foldl_cons]
    refine ⟨?_, ?_, ?_⟩
    · intro x
      rw [ihbackup x, restoreKey_backup hmap ns s key x]
    · intro x hmem hx
      by_cases hlater : x ∈ keys
      · rw [ihcopied x hlater hx, hfilled]
        by_cases hkey : x = key
        · -- copied twice
          rw [← hkey, restoreKey_at hmap ns s hx]
          cases (view s).filled kBackupNs x with
          | none => rfl
          | some data => rfl
        · rw [restoreKey_other hmap ns s fun h => hkey h.2.1]
      · rcases List.mem_cons.mp hmem with rfl | hmem
        · rw [ihother ns x fun h => hlater h.2.1, restoreKey_at hmap ns s hx]
        · exact absurd hmem hlater
    · intro ns' x h
      rw [ihother ns' x fun h' => h ⟨h'.1, List.mem_cons_of_mem _ h'.2.1, h'.2.2⟩,
        restoreKey_other hmap ns s
          fun h' => h ⟨h'.1, by rw [h'.2.1]; exact List.mem_cons_self, h'.2.2⟩]

/-- Without the magic nothing is restored. -/
theorem restore_incomplete {s : σ} (ns : Name) (h : ¬ (view s).BackupComplete) :
    restoreFromBackup nvs ns s = (false, s) := by
  have hmagic : nvs.getU32 s kBackupNs kBackupMagicKey ≠ some kBackupMagic := by
    rw [hmap.getU32]
    intro hc
    split at hc
    · rename_i value hvalue
      rw [Option.some.inj hc] at hvalue
      exact h hvalue
    · exact absurd hc (by simp)
  rw [restoreFromBackup, if_pos hmagic]
  split <;> rfl

/-- **A restore, whatever the order of the entries.** -/
theorem restore_view {s : σ} {ns : Name} (hns : ns.length ≤ 15) (h : (view s).BackupComplete) :
    (restoreFromBackup nvs ns s).1 = true
      ∧ view (restoreFromBackup nvs ns s).2 = (view s).restore ns := by
  obtain ⟨hok, hopen⟩ := hmap.openReadWrite s ns hns
  have hsome : view s kBackupNs kBackupMagicKey ≠ none := by
    rw [h]
    exact Option.some_ne_none _
  have hmagic : nvs.getU32 s kBackupNs kBackupMagicKey = some kBackupMagic := by
    rw [hmap.getU32, h]
  generalize hopened : (nvs.openReadWrite s ns).2 = opened at hopen
  have hmem : ∀ key, key ∈ nvs.entries opened kBackupNs ↔ view s kBackupNs key ≠ none := by
    intro key
    rw [hmap.mem_entries, hopen]
  have hresult : restoreFromBackup nvs ns s = (true, (nvs.commit
      ((nvs.entries opened kBackupNs).foldl (restoreKey nvs ns) opened) ns).2) := by
    unfold restoreFromBackup
    rw [hmap.readable s kBackupNs _ hsome, hmagic, if_neg (by simp), if_neg (by simp)]
    dsimp only
    rw [hok, hopened]
    cases hentries : nvs.entries opened kBackupNs with
    | nil =>
      have hin := (hmem _).mpr hsome
      rw [hentries] at hin
      cases hin
    | cons key keys => rfl
  obtain ⟨_, hcopied, hother⟩ :=
    restoreKeys_view hmap ns (nvs.entries opened kBackupNs) opened
  rw [hresult]
  refine ⟨rfl, ?_⟩
  rw [(hmap.commit _ _).2]
  funext ns' x
  rw [NvsMap.restore]
  by_cases hat : ns' = ns ∧ x ≠ kBackupMagicKey
  · obtain ⟨rfl, hx⟩ := hat
    rw [if_pos ⟨rfl, hx⟩]
    by_cases hin : x ∈ nvs.entries opened kBackupNs
    · rw [hcopied x hin hx, hopen]
    · have hnone : view s kBackupNs x = none := not_not.mp fun hc => hin ((hmem x).mpr hc)
      rw [hother ns' x fun hc => hin hc.2.1, hopen, NvsMap.filled, NvsMap.blob, hnone]
      rfl
  · rw [if_neg hat, hother ns' x fun hc => hat ⟨hc.1, hc.2.2⟩, hopen]

/-- A restore puts something only under the keys of a completed backup. -/
theorem restore_other {s : σ} {ns : Name} (hns : ns.length ≤ 15) {ns' x : Name}
    (h : ns' = ns → (view s).BackupComplete → (view s).filled kBackupNs x = none) :
    view (restoreFromBackup nvs ns s).2 ns' x = view s ns' x := by
  by_cases hcomplete : (view s).BackupComplete
  · rw [(restore_view hmap hns hcomplete).2, NvsMap.restore]
    split
    · rename_i hat
      rw [h hat.1 hcomplete, hat.1]
      rfl
    · rfl
  · rw [restore_incomplete hmap ns hcomplete]

/-- A start that finds an unsound entry restores the backup, unless the check crashes. -/
theorem init_eq (s : σ) (name : Name) :
    init nvs s name
      = (verifyIntegrity nvs (NvsManager.namespaceOf name) (nvs.flashInit s).2).map fun ok =>
        (true, NvsManager.namespaceOf name, if ok then (nvs.flashInit s).2
          else (restoreFromBackup nvs (NvsManager.namespaceOf name) (nvs.flashInit s).2).2) := by
  unfold init
  dsimp only
  rw [(hmap.flashInit s).1, if_neg (show ¬ NvsInit.ok = .mustErase by decide)]
  dsimp only
  rw [if_neg (by decide)]
  cases verifyIntegrity nvs (NvsManager.namespaceOf name) (nvs.flashInit s).2 with
  | none => rfl
  | some ok =>
    cases ok with
    | true => rfl
    | false => rfl

theorem remove_view {ns : Name} (hns : ns.length ≤ 15) (s : σ) (key : Name) :
    (remove nvs ns s key).1 = true ∧ view (remove nvs ns s key).2
      = ((view s).set ns key none).set ns (metaKey key) none := by
  obtain ⟨hok, hopen⟩ := hmap.openReadWrite s ns hns
  unfold remove
  dsimp only
  rw [hok, Bool.not_true, if_neg Bool.false_ne_true, (hmap.commit _ _).2, hmap.eraseKey,
    hmap.eraseKey, hopen]
  exact ⟨rfl, rfl⟩

end

end TaktOS
