import TaktOS.Proof.NvsIndependence

/-!
# Entries that meet

For every two entries that are not apart there is a partition where writing one shows in the
other. The partitions are built from an erased one: half of the entry is there already, and the
write of the other entry supplies the rest.
-/

namespace TaktOS.Proof

open Lib
open NvsManager (namespaceOf defaultNamespace)
open NvsManager.Esp32

variable {σ : Type}

/-- Entries that share a key are the same, or one's data is the other's metadata. -/
theorem entryKeys_meet {key other x : Name} (hput : x ∈ putKeys key) (hx : x ∈ entryKeys other)
    (hlen : other.length ≤ 34) : key = other ∨ metaKey key = other ∨ key = metaKey other := by
  obtain ⟨hentry, hshort⟩ := mem_putKeys.mp hput
  rcases List.mem_cons.mp hentry with he | hentry
  · rcases List.mem_cons.mp hx with he' | hx
    · exact Or.inl (he.symm.trans he')
    · exact Or.inr (Or.inr (he.symm.trans (List.mem_singleton.mp hx)))
  · rw [List.mem_singleton.mp hentry] at hx hshort
    have hkey := (length_metaKey_le key).mp hshort
    rcases List.mem_cons.mp hx with he' | hx
    · exact Or.inr (Or.inl he')
    · exact Or.inl (metaKey_inj (by omega) hlen (List.mem_singleton.mp hx))

/-! ## Restoring a pair -/

theorem written_restored {m : NvsMap} {key : Name} {data : List UInt8} {version : UInt16}
    (h : m.Written kBackupNs key data version) (hdata : data ≠ []) (hlen : key.length ≤ 10)
    (hmagic : key ≠ kBackupMagicKey) (ns : Name) :
    (m.restore ns).Written ns key data version := by
  have hcopy : ∀ x copy, x ≠ kBackupMagicKey → copy ≠ [] → m.blob kBackupNs x = some copy →
      (m.restore ns).blob ns x = some copy := by
    intro x copy hx hcopy hblob
    rw [NvsMap.blob, NvsMap.restore, if_pos ⟨rfl, hx⟩,
      NvsMap.filled_eq_some.mpr ⟨NvsMap.blob_eq_some.mp hblob, hcopy⟩]
    rfl
  exact ⟨hcopy _ _ (metaKey_ne_magic (by omega)) (NvsEntry.make_ne_nil _ _ _) h.1,
    hcopy _ _ hmagic hdata h.2⟩

/-- Half a pair restored is half a pair. -/
theorem Unreadable.restored {m : NvsMap} {ns key : Name} (h : Unreadable m kBackupNs key)
    (hempty : m.Empty ns) : Unreadable (m.restore ns) ns key := by
  have hnone : ∀ x, m.blob kBackupNs x = none → (m.restore ns).blob ns x = none := by
    intro x hx
    rw [NvsMap.blob, NvsMap.restore, NvsMap.filled, hx]
    split
    · rename_i hc
      split at hc
      · rw [Option.filter_none, copyOver, hempty] at hc
        exact absurd hc (by simp)
      · rw [hempty] at hc
        exact absurd hc (by simp)
    · rfl
  rcases h with h | h
  · exact Or.inl (hnone _ h)
  · exact Or.inr (hnone _ h)

section

variable {nvs : NvsFlash σ} {view : σ → NvsMap} (hmap : nvs.IsMap view)

include hmap

/-! ## Partitions with a given content -/

theorem exists_erased (s : σ) : ∃ s', ∀ ns, (view s').Empty ns :=
  ⟨(nvs.flashErase s).2, fun ns key => by rw [(hmap.flashErase s).2]⟩

theorem exists_blob (s : σ) (ns key : Name) (h : key.length ≤ 15) (data : List UInt8) :
    ∃ s', view s' = (view s).set ns key (some (.blob data)) :=
  ⟨(nvs.setBlob s ns key data).2, by rw [(hmap.setBlob _ _ _ _).2, NvsMap.put, if_pos h]⟩

theorem exists_complete (s : σ) :
    ∃ s', view s' = (view s).set kBackupNs kBackupMagicKey (some (.u32 kBackupMagic)) :=
  ⟨(nvs.setU32 s kBackupNs kBackupMagicKey kBackupMagic).2, hmap.setU32 _ _ _ _ (by decide)⟩

/-- States that read the same cannot differ in whether an entry is whole. -/
theorem not_sameReads {ns key : Name} {s s' : σ} (data : List UInt8) (version : UInt16)
    (h : Unreadable (view s) ns key) (h' : (view s').Written ns key data version) :
    ¬ SameReads nvs ns key s s' :=
  fun hsame => h.not_holds _ _ ((hsame.holds hmap).mp h'.holds)

theorem not_sameReads' {ns key : Name} {s s' : σ} (data : List UInt8) (version : UInt16)
    (h : (view s).Written ns key data version) (h' : Unreadable (view s') ns key) :
    ¬ SameReads nvs ns key s s' :=
  fun hsame => h'.not_holds _ _ ((hsame.holds hmap).mpr h.holds)

/-- **Two entries that share a key of NVS.** Around any state where one is missing there is one
where writing the other makes it whole. -/
theorem exists_completed {ns key other x : Name} (hput : x ∈ putKeys key)
    (hx : x ∈ entryKeys other) (hlen : other.length ≤ 10) (s₀ : σ)
    (hfree : ∀ y ∈ entryKeys other, view s₀ ns y = none) :
    ∃ (s : σ) (value : NvsSetter) (version : UInt16) (data : List UInt8) (v : UInt16),
      (∀ ns' y, ns' ≠ ns ∨ y ∉ entryKeys other → view s ns' y = view s₀ ns' y) ∧
      Unreadable (view s) ns other ∧ data ≠ [] ∧
      ((view s).write ns key value.data version).Written ns other data v := by
  have hset : ∀ y ∈ entryKeys other, ∀ v : Option NvsValue, ∀ ns' z,
      ns' ≠ ns ∨ z ∉ entryKeys other → (view s₀).set ns y v ns' z = view s₀ ns' z := by
    intro y hy v ns' z h
    rcases h with h | h
    · exact NvsMap.set_other_ns _ h
    · exact NvsMap.set_other_key _ fun he => h (he ▸ hy)
  rcases entryKeys_meet hput hx (by omega) with rfl | rfl | rfl
  · refine ⟨s₀, .setU8 0, 0, [0], 0, fun _ _ _ => rfl, Or.inr ?_, by simp, ?_⟩
    · rw [NvsMap.blob, hfree key List.mem_cons_self]
    · exact NvsMap.written_write _ ns hlen [0] 0
  · -- the metadata of `key` is the data
    rw [length_metaKey] at hlen
    have hkey : key.length ≤ 5 := by omega
    have hne : metaKey (metaKey key) ≠ metaKey key :=
      metaKey_ne_self (by rw [length_metaKey]; omega)
    obtain ⟨s, hs⟩ := exists_blob hmap s₀ ns (metaKey (metaKey key))
      ((length_metaKey_le _).mpr (by rw [length_metaKey]; omega))
      (NvsEntry.make (metaKey key) (NvsEntry.make key [0] 0).toBytes 0).toBytes
    refine ⟨s, .setU8 0, 0, (NvsEntry.make key [0] 0).toBytes, 0, ?_, Or.inr ?_, ?_, ?_, ?_⟩
    · rw [hs]
      exact hset _ (metaKey_mem_entryKeys _) _
    · rw [hs, NvsMap.blob, NvsMap.set_other_key _ hne.symm, hfree _ List.mem_cons_self]
    · exact NvsEntry.make_ne_nil _ _ _
    · rw [NvsMap.blob_congr (write_other_key _ ?_), hs, NvsMap.blob_set_self]
      intro hmem
      rcases List.mem_cons.mp (mem_putKeys.mp hmem).1 with he | hmem
      · have hlength := congrArg List.length he
        rw [length_metaKey, length_metaKey] at hlength
        omega
      · exact hne (List.mem_singleton.mp hmem)
    · have hwritten : ((view s).write ns key [0] 0).Written ns key [0] 0 :=
        NvsMap.written_write (view s) ns (by omega) [0] 0
      exact hwritten.1
  · -- `key`'s data is the metadata
    have hne : metaKey other ≠ other := metaKey_ne_self (by omega)
    obtain ⟨s, hs⟩ := exists_blob hmap s₀ ns other (by omega) [0]
    refine ⟨s, .setBlob (NvsEntry.make other [0] 0).toBytes, 0, [0], 0, ?_, Or.inl ?_, by simp,
      ?_, ?_⟩
    · rw [hs]
      exact hset _ List.mem_cons_self _
    · rw [hs, NvsMap.blob, NvsMap.set_other_key _ hne, hfree _ (metaKey_mem_entryKeys _)]
    · exact NvsMap.blob_put_self _ _ ((length_metaKey_le other).mpr hlen)
    · rw [NvsMap.blob_congr (write_other_key _ ?_), hs, NvsMap.blob_set_self]
      intro hmem
      rcases List.mem_cons.mp (mem_putKeys.mp hmem).1 with he | hmem
      · exact hne he.symm
      · have hlen' := congrArg List.length (List.mem_singleton.mp hmem)
        rw [length_metaKey, length_metaKey] at hlen'
        omega

/-! ## The three ways to meet -/

theorem view_call (s : σ) (name key : Name) (value : NvsSetter) (version : UInt16) :
    view (value.call nvs (namespaceOf name) s key version).2
      = (view s).write (namespaceOf name) key value.data version := by
  rw [NvsSetter.call_eq, (view_writeEntry hmap (length_namespaceOf name) _ _ _ _).2]

/-- **In one namespace**: a key that `p` sets is one that `q` is seen by. -/
theorem dependent_same {p q : Name × Name} (hsame : namespaceOf p.1 = namespaceOf q.1)
    (h : ¬ (putKeys p.2).Disjoint (seenKeys q.2)) (s₀ : σ) :
    ∃ s, ¬ IndependentIn nvs p q s := by
  obtain ⟨x, hput, hseen⟩ : ∃ x, x ∈ putKeys p.2 ∧ x ∈ seenKeys q.2 := by
    by_contra hc
    exact h fun x hput hseen => hc ⟨x, hput, hseen⟩
  obtain ⟨s₁, herased⟩ := exists_erased hmap s₀
  rw [seenKeys] at hseen
  split at hseen
  · rename_i hlen
    obtain ⟨s, value, version, data, v, _, hhalf, _, hwhole⟩ :=
      exists_completed hmap hput hseen hlen s₁ fun y _ => herased (namespaceOf q.1) y
    refine ⟨s, fun hind => ?_⟩
    refine not_sameReads hmap data v hhalf ?_ (hind value version).getters
    rw [view_call hmap, hsame]
    exact hwhole
  · split at hseen
    · rename_i hlong hplain
      rw [List.mem_singleton.mp hseen] at hput
      -- a plain key is no metadata, so the two entries have the same key
      have hkey : p.2 = q.2 := by
        rcases List.mem_cons.mp (mem_putKeys.mp hput).1 with he | hmem
        · exact he.symm
        · have hmeta := List.mem_singleton.mp hmem
          have hlen := congrArg List.length hmeta
          rw [length_metaKey] at hlen
          have hsuffix : strstr metaSuffix (metaKey p.2) := strstr_metaKey (by omega)
          rw [← hmeta, hplain.2] at hsuffix
          exact Bool.noConfusion hsuffix
      refine ⟨s₁, fun hind => ?_⟩
      have hfails := (hind (.setU8 0) 0).verifyIntegrity (some false)
      rw [endsAt_of_long hmap (by omega) hplain.2, endsAt_of_long hmap (by omega) hplain.2,
        view_call hmap, hsame, hkey, NvsMap.write, NvsMap.put_self _ _ hplain.1] at hfails
      exact (hfails.mp ⟨Option.some_ne_none _, rfl⟩).1 (herased _ _)
    · exact absurd hseen List.not_mem_nil

/-- The magic's key is never restored, its metadata is: a write that puts metadata for it into
the backup completes an entry whose data is in the primary namespace. -/
theorem dependent_magic {ns : Name} (hns : ns.length ≤ 15) (hnsb : ns ≠ kBackupNs) {s s' : σ}
    (version : UInt16) (hdata : view s ns kBackupMagicKey = some (.blob [0]))
    (hmeta : view s ns (metaKey kBackupMagicKey) = none)
    (hbackup : view s kBackupNs (metaKey kBackupMagicKey) = none)
    (hsame : ∀ x, view s' ns x = view s ns x)
    (hwritten : view s' kBackupNs (metaKey kBackupMagicKey)
      = some (.blob (NvsEntry.make kBackupMagicKey [0] version).toBytes)) :
    ¬ SameReads nvs ns kBackupMagicKey (roundTrip nvs ns s) (roundTrip nvs ns s') := by
  have hne : metaKey kBackupMagicKey ≠ kBackupMagicKey := by decide
  have hafter : ∀ t, view t ns kBackupMagicKey = some (.blob [0]) →
      view t ns (metaKey kBackupMagicKey) = none →
      view (roundTrip nvs ns t) ns kBackupMagicKey = some (.blob [0]) ∧
      view (roundTrip nvs ns t) ns (metaKey kBackupMagicKey)
        = copyOver ((view t).filled kBackupNs (metaKey kBackupMagicKey)) none := by
    intro t htdata htmeta
    have hentries : ¬ (view t).Empty ns := by
      intro hempty
      rw [hempty] at htdata
      exact absurd htdata (by simp)
    rw [roundTrip_entries hmap hns hentries]
    constructor
    · rw [NvsMap.restore, if_neg (fun h => h.2 rfl), NvsMap.backup, if_neg hnsb, htdata]
    · rw [NvsMap.restore, if_pos ⟨rfl, hne⟩, NvsMap.backup, if_neg hnsb, htmeta]
      congr 1
      refine NvsMap.filled_congr ?_
      rw [NvsMap.backup, if_pos rfl, if_neg hne, NvsMap.copied_of_none htmeta]
      rfl
  obtain ⟨_, hbefore⟩ := hafter s hdata hmeta
  obtain ⟨hdata', hmeta'⟩ := hafter s' (by rw [hsame, hdata]) (by rw [hsame, hmeta])
  refine not_sameReads hmap [0] version (Or.inl ?_) ⟨?_, ?_⟩
  · rw [NvsMap.blob, hbefore, NvsMap.filled, NvsMap.blob, hbackup]
    rfl
  · rw [NvsMap.blob, hmeta', NvsMap.filled_eq_some.mpr ⟨hwritten, NvsEntry.make_ne_nil _ _ _⟩]
    rfl
  · rw [NvsMap.blob, hdata']

/-- The magic's key in another namespace: its metadata is supplied in the backup. -/
theorem dependent_on_magic {p q : Name × Name} (hp : namespaceOf p.1 = kBackupNs)
    (hq : namespaceOf q.1 ≠ kBackupNs) (hqkey : q.2 = kBackupMagicKey)
    (hpkey : p.2 = kBackupMagicKey ∨ p.2 = metaKey kBackupMagicKey) (s₀ : σ) :
    ∃ s, ¬ IndependentIn nvs p q s := by
  have hns := length_namespaceOf q.1
  have hne : metaKey kBackupMagicKey ≠ kBackupMagicKey := by decide
  obtain ⟨s₁, herased⟩ := exists_erased hmap s₀
  obtain ⟨s, hs⟩ := exists_blob hmap s₁ (namespaceOf q.1) kBackupMagicKey (by decide) [0]
  have hdata : view s (namespaceOf q.1) kBackupMagicKey = some (.blob [0]) := by
    rw [hs, NvsMap.set_self]
  have hmeta : ∀ ns, view s ns (metaKey kBackupMagicKey) = none := by
    intro ns
    rw [hs, NvsMap.set_other_key _ hne]
    exact herased ns _
  have hother : ∀ (value : NvsSetter) x,
      view (value.call nvs (namespaceOf p.1) s p.2 0).2 (namespaceOf q.1) x
        = view s (namespaceOf q.1) x := by
    intro value x
    rw [view_call hmap, write_other_ns _ (by rw [hp]; exact hq)]
  refine ⟨s, fun hind => ?_⟩
  rcases hpkey with hpkey | hpkey
  · have hreads := (hind (.setU8 0) 0).backupRestore
    rw [hqkey] at hreads
    refine dependent_magic hmap hns hq 0 hdata (hmeta _) (hmeta _) (hother (.setU8 0)) ?_ hreads
    have hwritten : ((view s).write kBackupNs kBackupMagicKey [0] 0).Written kBackupNs
        kBackupMagicKey [0] 0 := NvsMap.written_write (view s) kBackupNs (by decide) [0] 0
    rw [view_call hmap, hp, hpkey]
    exact NvsMap.blob_eq_some.mp hwritten.1
  · have hreads := (hind (.setBlob (NvsEntry.make kBackupMagicKey [0] 0).toBytes) 0).backupRestore
    rw [hqkey] at hreads
    refine dependent_magic hmap hns hq 0 hdata (hmeta _) (hmeta _) (hother _) ?_ hreads
    rw [view_call hmap, hp, hpkey]
    exact NvsMap.put_self _ _ (by decide)

/-- Any other key: the backup holds its entry, and the magic is overwritten. -/
theorem dependent_on_backup {p q : Name × Name} (hp : namespaceOf p.1 = kBackupNs)
    (hq : namespaceOf q.1 ≠ kBackupNs) (hlen : q.2.length ≤ 10) (hqkey : q.2 ≠ kBackupMagicKey)
    (hpkey : p.2 = kBackupMagicKey) (s₀ : σ) : ∃ s, ¬ IndependentIn nvs p q s := by
  obtain ⟨s₁, herased⟩ := exists_erased hmap s₀
  obtain ⟨s₂, hs₂⟩ := exists_complete hmap s₁
  obtain ⟨s, hs⟩ : ∃ s, view s = (view s₂).write kBackupNs q.2 [0] 0 :=
    ⟨_, (view_writeEntry hmap (by decide) s₂ q.2 [0] 0).2⟩
  have hempty : (view s).Empty (namespaceOf q.1) := by
    intro x
    rw [hs, write_other_ns _ hq, hs₂, NvsMap.set_other_ns _ hq]
    exact herased _ x
  have hmagic : (view s).BackupComplete := by
    rw [NvsMap.BackupComplete, hs, write_other_key _ (magic_not_put hqkey), hs₂, NvsMap.set_self]
  have hbefore : (view (roundTrip nvs (namespaceOf q.1) s)).Written (namespaceOf q.1) q.2 [0]
      0 := by
    rw [roundTrip_empty hmap (length_namespaceOf q.1) hempty hmagic]
    refine written_restored ?_ (by simp) hlen hqkey _
    rw [hs]
    exact NvsMap.written_write _ _ hlen _ _
  refine ⟨s, fun hind => not_sameReads' hmap [0] 0 hbefore (Or.inr ?_)
    (hind (.setU8 0) 0).backupRestore⟩
  have hview := view_call hmap s p.1 p.2 (.setU8 0) 0
  have hempty' : (view ((NvsSetter.setU8 0).call nvs (namespaceOf p.1) s p.2 0).2).Empty
      (namespaceOf q.1) := by
    intro x
    rw [hview, write_other_ns _ (by rw [hp]; exact hq), hempty]
  rw [roundTrip_nothing hmap hempty', NvsMap.blob, hempty']
  rw [NvsMap.BackupComplete, hview, hp, hpkey, NvsMap.write, NvsMap.put_self _ _ (by decide)]
  simp

/-- The backup holds half of the entry, and the other half is supplied. -/
theorem dependent_on_half {p q : Name × Name} (hp : namespaceOf p.1 = kBackupNs)
    (hq : namespaceOf q.1 ≠ kBackupNs) (hlen : q.2.length ≤ 10) (hqkey : q.2 ≠ kBackupMagicKey)
    (hpkey : p.2 ≠ kBackupMagicKey) {x : Name} (hput : x ∈ putKeys p.2)
    (hx : x ∈ entryKeys q.2) (s₀ : σ) : ∃ s, ¬ IndependentIn nvs p q s := by
  have hns := length_namespaceOf q.1
  have hmagic : kBackupMagicKey ∉ entryKeys q.2 := by
    intro hmem
    rcases List.mem_cons.mp hmem with he | hmem
    · exact hqkey he.symm
    · exact metaKey_ne_magic (by omega) (List.mem_singleton.mp hmem).symm
  obtain ⟨s₁, herased⟩ := exists_erased hmap s₀
  obtain ⟨s₂, hs₂⟩ := exists_complete hmap s₁
  have hfree : ∀ y ∈ entryKeys q.2, view s₂ kBackupNs y = none := by
    intro y hy
    rw [hs₂, NvsMap.set_other_key _ fun he => hmagic (by rw [← he]; exact hy)]
    exact herased _ y
  obtain ⟨s, value, version, data, v, hframe, hhalf, hdata, hwhole⟩ :=
    exists_completed hmap hput hx hlen s₂ hfree
  have hempty : (view s).Empty (namespaceOf q.1) := by
    intro y
    rw [hframe _ y (Or.inl hq), hs₂, NvsMap.set_other_ns _ hq]
    exact herased _ y
  have hcomplete : (view s).BackupComplete := by
    rw [NvsMap.BackupComplete, hframe _ _ (Or.inr hmagic), hs₂, NvsMap.set_self]
  have hview := view_call hmap s p.1 p.2 value version
  refine ⟨s, fun hind => ?_⟩
  refine not_sameReads hmap data v ?_ ?_ (hind value version).backupRestore
  · rw [roundTrip_empty hmap hns hempty hcomplete]
    exact hhalf.restored hempty
  · rw [roundTrip_empty hmap hns, hview, hp]
    · exact written_restored hwhole hdata hlen hqkey _
    · intro y
      rw [hview, write_other_ns _ (by rw [hp]; exact hq), hempty]
    · rw [NvsMap.BackupComplete, hview, write_other_key _ (magic_not_put hpkey)]
      exact hcomplete

/-- **In the backup's namespace**: `p` overwrites the magic, or what `q` is restored from. -/
theorem dependent_backup {p q : Name × Name} (hp : namespaceOf p.1 = kBackupNs)
    (hq : namespaceOf q.1 ≠ kBackupNs) (hlen : q.2.length ≤ 10)
    (h : ¬ (p.2 ≠ kBackupMagicKey ∧ (putKeys p.2).Disjoint (entryKeys q.2))) (s₀ : σ) :
    ∃ s, ¬ IndependentIn nvs p q s := by
  by_cases hpkey : p.2 = kBackupMagicKey
  · by_cases hqkey : q.2 = kBackupMagicKey
    · exact dependent_on_magic hmap hp hq hqkey (Or.inl hpkey) s₀
    · exact dependent_on_backup hmap hp hq hlen hqkey hpkey s₀
  · obtain ⟨x, hput, hx⟩ : ∃ x, x ∈ putKeys p.2 ∧ x ∈ entryKeys q.2 := by
      by_contra hc
      exact h ⟨hpkey, fun x hput hx => hc ⟨x, hput, hx⟩⟩
    by_cases hqkey : q.2 = kBackupMagicKey
    · refine dependent_on_magic hmap hp hq hqkey (Or.inr ?_) s₀
      rw [hqkey] at hx
      rcases entryKeys_meet hput hx (by decide) with hsame | hmeta | hmeta
      · exact absurd hsame hpkey
      · -- the magic's key is no metadata
        have hlength := congrArg List.length hmeta
        rw [length_metaKey, show kBackupMagicKey.length = 10 from rfl] at hlength
        exact absurd hmeta (metaKey_ne_magic (by omega))
      · exact hmeta
    · exact dependent_on_half hmap hp hq hlen hqkey hpkey hput hx s₀

/-- **As the first entry of a namespace**: the backup it makes possible puts the magic to what an
unfinished one left. -/
theorem dependent_first {p q : Name × Name} (h : Completes p q)
    (hdisjoint : (putKeys p.2).Disjoint (entryKeys q.2)) (s₀ : σ) :
    ∃ s, ¬ IndependentIn nvs p q s := by
  obtain ⟨hsame, hq, hput, hlen, hmagic⟩ := h
  have hns := length_namespaceOf q.1
  obtain ⟨s₁, herased⟩ := exists_erased hmap s₀
  obtain ⟨s, hs⟩ : ∃ s, view s = (view s₁).write kBackupNs q.2 [0] 0 :=
    ⟨_, (view_writeEntry hmap (by decide) s₁ q.2 [0] 0).2⟩
  have hempty : (view s).Empty (namespaceOf q.1) := by
    intro x
    rw [hs, write_other_ns _ hq]
    exact herased _ x
  have hincomplete : ¬ (view s).BackupComplete := by
    rw [NvsMap.BackupComplete, hs, write_other_key _ (magic_not_put hmagic), herased]
    simp
  refine ⟨s, fun hind => ?_⟩
  have hview := view_call hmap s p.1 p.2 (.setU8 0) 0
  rw [hsame] at hview
  refine not_sameReads hmap [0] 0 (Or.inr ?_) ?_
    (hind (.setU8 0) 0).backupRestore
  · rw [roundTrip_nothing hmap hempty hincomplete, NvsMap.blob, hempty]
  · rw [roundTrip_entries hmap hns]
    · refine written_restored ?_ (by simp) hlen hmagic _
      -- the backup has nothing of `q` to copy over what is there
      have hkept : ∀ x ∈ entryKeys q.2, x ≠ kBackupMagicKey →
          (view ((NvsSetter.setU8 0).call nvs (namespaceOf p.1) s p.2 0).2).backup
            (namespaceOf q.1) kBackupNs x = (view s₁).write kBackupNs q.2 [0] 0 kBackupNs x := by
        intro x hx hxmagic
        rw [NvsMap.backup, if_pos rfl, if_neg hxmagic, hsame, hview, NvsMap.copied_of_none,
          write_other_ns _ (Ne.symm hq), hs]
        · rfl
        · rw [write_other_key _ fun hmem => hdisjoint hmem hx, hempty]
      obtain ⟨hmeta, hdata⟩ := (view s₁).written_write kBackupNs hlen [0] 0
      constructor
      · rw [NvsMap.blob_congr (hkept _ (metaKey_mem_entryKeys _) (metaKey_ne_magic (by omega)))]
        exact hmeta
      · rw [NvsMap.blob_congr (hkept _ List.mem_cons_self hmagic)]
        exact hdata
    · rw [hsame, hview]
      exact write_not_empty _ hput _ _

end

/-! ## The host -/

/-- What the host build reports of an entry: its integrity check, its backup and its `getBlob`
look at nothing. -/
structure HostUnaffected (ns key : Name) (s s' : HostNvs) : Prop where
  readEntry : ∀ buf version, NvsManager.Host.readEntry ns s' key buf version
    = NvsManager.Host.readEntry ns s key buf version
  getBlob : ∀ buf version, NvsManager.Host.getBlob s' key buf version
    = NvsManager.Host.getBlob s key buf version
  verifyIntegrity : NvsManager.Host.verifyIntegrity s' = NvsManager.Host.verifyIntegrity s
  backupRestore : ∀ buf version,
    NvsManager.Host.readEntry ns
        (NvsManager.Host.restoreFromBackup (NvsManager.Host.backup s').2).2 key buf version
      = NvsManager.Host.readEntry ns
        (NvsManager.Host.restoreFromBackup (NvsManager.Host.backup s).2).2 key buf version

def HostIndependent (p q : Name × Name) : Prop :=
  ∀ (s : HostNvs) (value : NvsSetter) (version : UInt16),
    HostUnaffected (namespaceOf q.1) q.2 s
      (NvsManager.Host.writeEntry (namespaceOf p.1) s p.2 value.data version).2

/-- The key of the host's map that a pair is kept under. -/
def hostKey (p : Name × Name) : Name := NvsManager.Host.composedKey (namespaceOf p.1) p.2

/-- **On the host two entries are independent when their composed keys differ.** -/
theorem host_independent_iff (p q : Name × Name) :
    HostIndependent p q ↔ hostKey p ≠ hostKey q := by
  constructor
  · intro h hsame
    have hread := (h (fun _ => none) (.setU8 0) 0).readEntry [0] 0
    unfold hostKey at hsame
    unfold NvsManager.Host.readEntry NvsManager.Host.writeEntry at hread
    rw [hsame] at hread
    dsimp only at hread
    rw [if_pos rfl] at hread
    dsimp only at hread
    rw [if_neg (by decide), if_neg (by simp)] at hread
    injection hread with htrue _
    exact Bool.noConfusion htrue
  · intro hne s value version
    have hread : ∀ buf v, NvsManager.Host.readEntry (namespaceOf q.1)
        (NvsManager.Host.writeEntry (namespaceOf p.1) s p.2 value.data version).2 q.2 buf v
        = NvsManager.Host.readEntry (namespaceOf q.1) s q.2 buf v := by
      intro buf v
      unfold NvsManager.Host.readEntry NvsManager.Host.writeEntry
      dsimp only
      rw [if_neg fun he => hne he.symm]
    exact ⟨hread, fun _ _ => rfl, rfl, hread⟩

/-! ## The theorem -/

/--
**When two entries are independent.** On the host, exactly when their composed keys differ. On
the device, exactly when no key that the one sets is one that the other is seen by or restored
from, and the one is no first entry that lets a backup complete what an unfinished backup left of
the other; where the backup namespace is empty or completed the first condition is enough.
-/
theorem keys_independent_iff {nvs : NvsFlash σ} {view : σ → NvsMap} (hmap : nvs.IsMap view)
    (s₀ : σ) (p q : Name × Name) :
    (HostIndependent p q ↔ hostKey p ≠ hostKey q) ∧
    (Independent nvs p q ↔ Apart p q ∧ ¬ Completes p q) ∧
    (Apart p q → ∀ s, BackupWhole (view s) → IndependentIn nvs p q s) := by
  refine ⟨host_independent_iff p q, ⟨fun h => ?_, fun h s value version => ?_⟩,
    fun h s hwhole value version => ?_⟩
  · have hapart : Apart p q := by
      constructor
      · intro hsame
        by_contra hmeet
        obtain ⟨s, hs⟩ := dependent_same hmap hsame hmeet s₀
        exact hs (h s)
      · intro hp hq hlen
        by_contra hmeet
        obtain ⟨s, hs⟩ := dependent_backup hmap hp hq hlen hmeet s₀
        exact hs (h s)
    refine ⟨hapart, fun hfirst => ?_⟩
    have hdisjoint := hapart.same hfirst.1
    rw [seenKeys, if_pos hfirst.2.2.2.1] at hdisjoint
    obtain ⟨s, hs⟩ := dependent_first hmap hfirst hdisjoint s₀
    exact hs (h s)
  · exact unaffected_of_apart hmap h.1 (view_call hmap s p.1 p.2 value version) (Or.inr h.2)
  · exact unaffected_of_apart hmap h (view_call hmap s p.1 p.2 value version) (Or.inl hwhole)

/-- Two namespaces with the same key, and two keys in one namespace of an empty partition. -/
theorem keys_independent_apart :
    Independent mapNvs (defaultNamespace, ascii ['a']) (ascii ['a', 'p', 'p'], ascii ['a'])
    ∧ IndependentIn mapNvs (defaultNamespace, ascii ['a'])
      (defaultNamespace, ascii ['b']) {} := by
  have hspaces : namespaceOf defaultNamespace ≠ namespaceOf (ascii ['a', 'p', 'p']) := by
    decide
  have hbackup : namespaceOf defaultNamespace ≠ kBackupNs := by decide
  have hkeys : ∀ x ∈ putKeys (ascii ['a']), x ∉ seenKeys (ascii ['b']) := by decide
  refine ⟨(keys_independent_iff mapNvs_isMap {} _ _).2.1.mpr ⟨⟨fun h => ?_, fun h => ?_⟩, ?_⟩,
    (keys_independent_iff mapNvs_isMap {} _ _).2.2 ⟨fun _ => ?_, fun h => ?_⟩ {} (Or.inr ?_)⟩
  · exact absurd h hspaces
  · exact absurd h hbackup
  · exact fun h => hspaces h.1
  · exact fun x hput hseen => hkeys x hput hseen
  · exact absurd h hbackup
  · intro key
    simp [ListNvs.view]

/-- `setBlob("foo_meta", {7})` on an empty partition. -/
def fooMetaStored : ListNvs :=
  (writeEntry mapNvs (namespaceOf defaultNamespace) {}
    (ascii ['f', 'o', 'o', '_', 'm', 'e', 't', 'a']) [7] 1).2

/--
**Different pairs that are one entry to NVS, and to the host.** Setting `foo` puts its metadata
in the place of the data of `foo_meta`; on the host the namespace `a` with the key `b:c` is the
namespace `a:b` with the key `c`.
-/
theorem keys_collide :
    (readEntry mapNvs (namespaceOf defaultNamespace) fooMetaStored
      (ascii ['f', 'o', 'o', '_', 'm', 'e', 't', 'a']) [0] 0).1 = true
    ∧ ¬ Independent mapNvs (defaultNamespace, ascii ['f', 'o', 'o'])
      (defaultNamespace, ascii ['f', 'o', 'o', '_', 'm', 'e', 't', 'a'])
    ∧ ¬ HostIndependent (ascii ['a'], ascii ['b', ':', 'c'])
      (ascii ['a', ':', 'b'], ascii ['c']) := by
  refine ⟨by decide, ?_, ?_⟩
  · intro h
    have hread := (h fooMetaStored (.setU8 1) 1).getters.readEntry [0] 0
    exact absurd hread (by decide)
  · intro h
    have hread := (h (fun _ => none) (.setU8 1) 1).readEntry [0] 0
    exact absurd hread (by decide)

end TaktOS.Proof
