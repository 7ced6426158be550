import TaktOS.Proof.NvsReports

/-!
# When two entries are independent

Both builds put what belongs to an entry under names made by joining strings. The host joins the
namespace, a colon and the key; the device the key and `_meta`, in a namespace cut to fifteen
characters, and the backup namespace is one that a manager can be given. Two entries meet where
the joined names do.
-/

namespace TaktOS.Proof

open Lib
open NvsManager (namespaceOf defaultNamespace)
open NvsManager.Esp32

variable {σ : Type}

/-- The keys that `writeEntry` sets: NVS refuses the longer ones. -/
def putKeys (key : Name) : List Name := (entryKeys key).filter (·.length ≤ 15)

theorem mem_putKeys {key x : Name} : x ∈ putKeys key ↔ x ∈ entryKeys key ∧ x.length ≤ 15 := by
  rw [putKeys, List.mem_filter, decide_eq_true_iff]

/-- The keys that the getters and the integrity check see an entry by. Without room for the
suffix no getter succeeds, and the check sees only whether the entry is there. -/
def seenKeys (key : Name) : List Name :=
  if key.length ≤ 10 then entryKeys key
  else if key.length ≤ 15 ∧ strstr metaSuffix key = false then [key]
  else []

/-- Writing `p`'s entry in the state changes nothing that is reported of `q`'s. A pair is the
name given to `init` and the key. -/
def IndependentIn (nvs : NvsFlash σ) (p q : Name × Name) (s : σ) : Prop :=
  ∀ (value : NvsSetter) (version : UInt16),
    Unaffected nvs (namespaceOf q.1) q.2 s
      (value.call nvs (namespaceOf p.1) s p.2 version).2

/-- And so in every state of the partition. -/
def Independent (nvs : NvsFlash σ) (p q : Name × Name) : Prop := ∀ s, IndependentIn nvs p q s

/-- No key that writing `p` sets is one that `q` is seen by, in `q`'s namespace or in the backup
it is restored from. -/
structure Apart (p q : Name × Name) : Prop where
  same : namespaceOf p.1 = namespaceOf q.1 → (putKeys p.2).Disjoint (seenKeys q.2)
  backup : namespaceOf p.1 = kBackupNs → namespaceOf q.1 ≠ kBackupNs → q.2.length ≤ 10 →
    p.2 ≠ kBackupMagicKey ∧ (putKeys p.2).Disjoint (entryKeys q.2)

/-- The first entry of a namespace makes a backup of it succeed, which completes what there is in
the backup namespace. -/
def Completes (p q : Name × Name) : Prop :=
  namespaceOf p.1 = namespaceOf q.1 ∧ namespaceOf q.1 ≠ kBackupNs
    ∧ p.2.length ≤ 15 ∧ q.2.length ≤ 10 ∧ q.2 ≠ kBackupMagicKey

/-- The backup namespace holds nothing, or a completed backup. -/
def BackupWhole (m : NvsMap) : Prop := m.BackupComplete ∨ m.Empty kBackupNs

/-! ## What a write changes -/

theorem write_other_ns (m : NvsMap) {ns ns' key x : Name} {data : List UInt8} {version : UInt16}
    (h : ns' ≠ ns) : m.write ns key data version ns' x = m ns' x := by
  rw [NvsMap.write, NvsMap.put_other_ns _ h, NvsMap.put_other_ns _ h]

theorem write_other_key (m : NvsMap) {ns ns' key x : Name} {data : List UInt8}
    {version : UInt16} (h : x ∉ putKeys key) : m.write ns key data version ns' x = m ns' x := by
  have hput : ∀ (m : NvsMap) (data : List UInt8), ∀ y ∈ entryKeys key,
      m.put ns y data ns' x = m ns' x := by
    intro m data y hy
    by_cases hx : x = y
    · rw [NvsMap.put, if_neg]
      intro hlen
      exact h (mem_putKeys.mpr ⟨hx ▸ hy, hx ▸ hlen⟩)
    · exact NvsMap.put_other_key m hx
  rw [NvsMap.write, hput _ data key List.mem_cons_self, hput _ _ _ (metaKey_mem_entryKeys key)]

/-- A write that sets a key leaves an entry. -/
theorem write_not_empty (m : NvsMap) {ns key : Name} (h : key.length ≤ 15) (data : List UInt8)
    (version : UInt16) : ¬ (m.write ns key data version).Empty ns := by
  intro hempty
  have hkey := hempty key
  rw [NvsMap.write, NvsMap.put_self _ data h] at hkey
  exact absurd hkey (by simp)

theorem putKeys_of_long {key : Name} (h : 15 < key.length) : putKeys key = [] := by
  rw [putKeys, List.filter_eq_nil_iff]
  intro x hx
  rw [decide_eq_true_iff]
  rcases List.mem_cons.mp hx with rfl | hx
  · omega
  · rw [List.mem_singleton.mp hx, length_metaKey_le]
    omega

theorem magic_not_put {key : Name} (h : key ≠ kBackupMagicKey) :
    kBackupMagicKey ∉ putKeys key := by
  intro hmem
  rcases List.mem_cons.mp (mem_putKeys.mp hmem).1 with he | hmem
  · exact h he.symm
  · have hmagic := List.mem_singleton.mp hmem
    have hlen := congrArg List.length hmagic
    rw [length_metaKey, show kBackupMagicKey.length = 10 from rfl] at hlen
    exact metaKey_ne_magic (by omega) hmagic.symm

/-- A key too long to be set: nothing is written. -/
theorem write_of_long (m : NvsMap) (ns : Name) {key : Name} (h : 15 < key.length)
    (data : List UInt8) (version : UInt16) : m.write ns key data version = m := by
  funext ns' x
  exact write_other_key m (by rw [putKeys_of_long h]; exact List.not_mem_nil)

/-! ## What a backup and a restore look at -/

theorem backup_congr {m m' : NvsMap} {ns x : Name} (hself : m' ns x = m ns x)
    (hbackup : m' kBackupNs x = m kBackupNs x) (hcopied : m'.copied ns x = m.copied ns x) :
    m'.backup ns ns x = m.backup ns ns x
      ∧ m'.backup ns kBackupNs x = m.backup ns kBackupNs x := by
  unfold NvsMap.backup
  rw [hself, hbackup, hcopied]
  exact ⟨rfl, rfl⟩

theorem restore_congr {m m' : NvsMap} {ns x : Name} (hself : m' ns x = m ns x)
    (hbackup : m' kBackupNs x = m kBackupNs x) : m'.restore ns ns x = m.restore ns ns x := by
  unfold NvsMap.restore
  rw [hself, NvsMap.filled_congr hbackup]

/-- The backup namespace restored from itself. -/
theorem restore_backupNs (m : NvsMap) : m.restore kBackupNs = m := by
  funext ns x
  rw [NvsMap.restore]
  split
  · rename_i h
    rw [NvsMap.copyOver_filled, h.1]
  · rfl

/-- A key under which neither namespace has anything is left so. -/
theorem restore_none {m : NvsMap} {ns x : Name} (h : m kBackupNs x = none) :
    m.restore ns ns x = m ns x := by
  have hfilled : m.filled kBackupNs x = none := by
    rw [NvsMap.filled, NvsMap.blob, h]
    rfl
  rw [NvsMap.restore, hfilled]
  exact ite_self _

/-- **A write apart from an entry leaves what a backup copies of it.** The key of an entry can
itself be the metadata of another one; writing that one would set it. -/
theorem copied_apart (m : NvsMap) {ns key other x : Name} (hlen : other.length ≤ 10)
    (hx : x ∈ entryKeys other) (h : (putKeys key).Disjoint (entryKeys other))
    (data : List UInt8) (version : UInt16) :
    (m.write ns key data version).copied ns x = m.copied ns x := by
  have hself : m.write ns key data version ns x = m ns x :=
    write_other_key m fun hput => h hput hx
  by_cases hstem : stem x ∈ putKeys key
  · rcases List.mem_cons.mp hx with rfl | hx'
    · cases hsuffix : strstr metaSuffix x with
      | false =>
        rw [NvsMap.copied_of_plain hsuffix, NvsMap.copied_of_plain hsuffix,
          NvsMap.filled_congr hself]
      | true =>
        -- nothing is copied, whatever is written: the key describes no plain entry
        have hno : ¬ (x = metaKey (stem x) ∧ strstr metaSuffix (stem x) = false) := by
          rintro ⟨hmeta, hplain⟩
          rcases List.mem_cons.mp (mem_putKeys.mp hstem).1 with hkey | hkey
          · rw [hkey] at hmeta
            refine h (mem_putKeys.mpr ⟨?_, ?_⟩) hx
            · rw [hmeta]
              exact metaKey_mem_entryKeys key
            · omega
          · have hkey := List.mem_singleton.mp hkey
            have hle : (stem x).length ≤ 10 := le_trans (List.length_take_le' _ _) hlen
            rw [hkey, length_metaKey] at hle
            rw [hkey, strstr_metaKey (by omega)] at hplain
            exact Bool.noConfusion hplain
        rw [NvsMap.copied_of_no_entry _ _ hsuffix hno, NvsMap.copied_of_no_entry _ _ hsuffix hno]
    · rw [List.mem_singleton.mp hx', stem_metaKey (by omega)] at hstem
      exact (h hstem List.mem_cons_self).elim
  · exact NvsMap.copied_congr hself (write_other_key m hstem)

section

variable {nvs : NvsFlash σ} {view : σ → NvsMap} (hmap : nvs.IsMap view)

include hmap

/-- **A backup followed by a restore sees an entry in both namespaces**, and whether there is
anything to back up. -/
theorem roundTrip_congr {ns x : Name} (hns : ns.length ≤ 15) {s s' : σ}
    (hempty : (view s').Empty ns ↔ (view s).Empty ns)
    (hcomplete : (view s).Empty ns → ((view s').BackupComplete ↔ (view s).BackupComplete))
    (hself : view s' ns x = view s ns x) (hbackup : view s' kBackupNs x = view s kBackupNs x)
    (hcopied : (view s').copied ns x = (view s).copied ns x) :
    view (roundTrip nvs ns s') ns x = view (roundTrip nvs ns s) ns x := by
  by_cases he : (view s).Empty ns
  · by_cases hc : (view s).BackupComplete
    · rw [roundTrip_empty hmap hns he hc,
        roundTrip_empty hmap hns (hempty.mpr he) ((hcomplete he).mpr hc)]
      exact restore_congr hself hbackup
    · rw [roundTrip_nothing hmap he hc,
        roundTrip_nothing hmap (hempty.mpr he) (fun h => hc ((hcomplete he).mp h)), hself]
  · rw [roundTrip_entries hmap hns he, roundTrip_entries hmap hns fun h => he (hempty.mp h)]
    obtain ⟨hself, hbackup⟩ := backup_congr hself hbackup hcopied
    exact restore_congr hself hbackup

/-- The first entry of a namespace, apart from the one that is looked at. -/
theorem roundTrip_first {ns key other : Name} (hns : ns.length ≤ 15) {s s' : σ}
    {data : List UInt8} {version : UInt16} (hview : view s' = (view s).write ns key data version)
    (hempty : (view s).Empty ns) (hkey : key.length ≤ 15) (hlen : other.length ≤ 10)
    (hdisjoint : (putKeys key).Disjoint (entryKeys other))
    (hwhole : BackupWhole (view s) ∨ ns = kBackupNs ∨ other = kBackupMagicKey) :
    SameReads nvs ns other (roundTrip nvs ns s) (roundTrip nvs ns s') := by
  have hnone : ∀ x ∈ entryKeys other, view s' ns x = none := by
    intro x hx
    rw [hview, write_other_key _ fun hput => hdisjoint hput hx]
    exact hempty x
  have hafter : view (roundTrip nvs ns s') = ((view s').backup ns).restore ns :=
    roundTrip_entries hmap hns (by rw [hview]; exact write_not_empty _ hkey data version)
  by_cases hnsb : ns = kBackupNs
  · -- the backup namespace is not restored from itself
    subst hnsb
    have hincomplete : ¬ (view s).BackupComplete := by
      rw [NvsMap.BackupComplete, hempty]
      simp
    refine sameReads_of_unreadable hmap (Or.inr ?_) (Or.inr ?_)
    · rw [roundTrip_nothing hmap hempty hincomplete, NvsMap.blob, hempty]
    · rw [hafter, restore_backupNs, NvsMap.blob, NvsMap.backup, if_pos rfl,
        NvsMap.copied_of_none (hnone other List.mem_cons_self), hnone other List.mem_cons_self]
      split <;> simp_all [copyOver]
  · have hbackup : ∀ x, x ≠ kBackupMagicKey → x ∈ entryKeys other →
        (view s').backup ns kBackupNs x = view s kBackupNs x := by
      intro x hmagic hx
      rw [NvsMap.backup, if_pos rfl, if_neg hmagic, NvsMap.copied_of_none (hnone x hx), hview,
        write_other_ns _ (Ne.symm hnsb)]
      rfl
    have hself : ∀ x ∈ entryKeys other, (view s').backup ns ns x = view s ns x := by
      intro x hx
      rw [NvsMap.backup, if_neg hnsb, hnone x hx, hempty]
    by_cases hmagic : other = kBackupMagicKey
    · -- the magic's key is not restored
      subst hmagic
      refine sameReads_of_unreadable hmap (Or.inr ?_) (Or.inr ?_)
      · by_cases hc : (view s).BackupComplete
        · rw [roundTrip_empty hmap hns hempty hc, NvsMap.blob, NvsMap.restore,
            if_neg (fun h => h.2 rfl), hempty]
        · rw [roundTrip_nothing hmap hempty hc, NvsMap.blob, hempty]
      · rw [hafter, NvsMap.blob, NvsMap.restore, if_neg (fun h => h.2 rfl),
          hself _ List.mem_cons_self, hempty]
    · refine sameReads_of_same hmap fun x hx => ?_
      have hx_magic : x ≠ kBackupMagicKey := by
        rcases List.mem_cons.mp hx with rfl | hx
        · exact hmagic
        · rw [List.mem_singleton.mp hx]
          exact metaKey_ne_magic (by omega)
      rw [hafter, restore_congr (hself x hx) (hbackup x hx_magic hx)]
      by_cases hc : (view s).BackupComplete
      · rw [roundTrip_empty hmap hns hempty hc]
      · rw [roundTrip_nothing hmap hempty hc]
        rcases hwhole with (hcomplete | hbare) | h | h
        · exact absurd hcomplete hc
        · exact restore_none (hbare x)
        · exact absurd h hnsb
        · exact absurd h hmagic

/-! ## Entries apart are independent -/

/-- **The getters see an entry by the keys it is seen by.** -/
theorem sameReads_of_seen {ns key : Name} {s s' : σ}
    (h : ∀ x ∈ seenKeys key, view s' ns x = view s ns x) : SameReads nvs ns key s s' := by
  by_cases hlen : key.length ≤ 10
  · rw [seenKeys, if_pos hlen] at h
    exact sameReads_of_same hmap h
  · exact sameReads_of_unreadable hmap (unreadable_of_long hmap s ns (by omega))
      (unreadable_of_long hmap s' ns (by omega))

/-- And so does the integrity check. -/
theorem endsAt_of_seen {ns key : Name} {s s' : σ}
    (h : ∀ x ∈ seenKeys key, view s' ns x = view s ns x) (verdict : Option Bool) :
    EndsAt nvs ns s' key verdict ↔ EndsAt nvs ns s key verdict := by
  by_cases hshort : key.length ≤ 10
  · rw [seenKeys, if_pos hshort] at h
    have hkey := h key List.mem_cons_self
    rw [endsAt_iff hmap, endsAt_iff hmap, hkey, NvsMap.verdict_congr
      (NvsMap.blob_congr (h _ (metaKey_mem_entryKeys key))) (NvsMap.blob_congr hkey)]
  · cases hsuffix : strstr metaSuffix key with
    | true =>
      have hpassed : ∀ s, ¬ EndsAt nvs ns s key verdict := by
        rintro s ⟨_, hkey, hends⟩
        rw [verifyKey, if_pos hsuffix] at hkey
        exact hends hkey.symm
      exact iff_of_false (hpassed s') (hpassed s)
    | false =>
      rw [endsAt_of_long hmap (by omega) hsuffix, endsAt_of_long hmap (by omega) hsuffix]
      by_cases hlen : key.length ≤ 15
      · rw [seenKeys, if_neg hshort, if_pos ⟨hlen, hsuffix⟩] at h
        rw [h key List.mem_cons_self]
      · have hnone : ∀ s, view s ns key = none := by
          intro s
          by_contra hsome
          exact hlen (hmap.short s ns key hsome)
        rw [hnone, hnone]

/-- Another entry of the namespace is written, which has entries already. -/
theorem roundTrip_same_ns {ns key other : Name} (hns : ns.length ≤ 15) {s s' : σ}
    {data : List UInt8} {version : UInt16} (hview : view s' = (view s).write ns key data version)
    (hentries : ¬ (view s).Empty ns) (hkey : key.length ≤ 15) (hlen : other.length ≤ 10)
    (hdisjoint : (putKeys key).Disjoint (entryKeys other)) :
    SameReads nvs ns other (roundTrip nvs ns s) (roundTrip nvs ns s') := by
  have hkept : ∀ ns', ∀ x ∈ entryKeys other, view s' ns' x = view s ns' x := by
    intro ns' x hx
    rw [hview]
    exact write_other_key _ fun hput => hdisjoint hput hx
  have hentries' : ¬ (view s').Empty ns := by
    rw [hview]
    exact write_not_empty _ hkey data version
  refine sameReads_of_same hmap fun x hx => ?_
  refine roundTrip_congr hmap hns ⟨fun h => absurd h hentries', fun h => absurd h hentries⟩
    (fun h => absurd h hentries) (hkept ns x hx) (hkept kBackupNs x hx) ?_
  rw [hview]
  exact copied_apart _ hlen hx hdisjoint data version

/-- An entry of another namespace is written, perhaps of the backup's. -/
theorem roundTrip_other_ns {ns ns' key other : Name} (hns : ns.length ≤ 15) {s s' : σ}
    {data : List UInt8} {version : UInt16}
    (hview : view s' = (view s).write ns' key data version) (hne : ns' ≠ ns)
    (hbackup : ns' = kBackupNs →
      key ≠ kBackupMagicKey ∧ (putKeys key).Disjoint (entryKeys other)) :
    SameReads nvs ns other (roundTrip nvs ns s) (roundTrip nvs ns s') := by
  have hother : ∀ x, view s' ns x = view s ns x := by
    intro x
    rw [hview]
    exact write_other_ns _ (Ne.symm hne)
  have hkept : ∀ x, x = kBackupMagicKey ∨ x ∈ entryKeys other →
      view s' kBackupNs x = view s kBackupNs x := by
    intro x hx
    rw [hview]
    by_cases hnsb : ns' = kBackupNs
    · obtain ⟨hmagic, hdisjoint⟩ := hbackup hnsb
      refine write_other_key _ fun hput => ?_
      rcases hx with rfl | hx
      · exact magic_not_put hmagic hput
      · exact hdisjoint hput hx
    · exact write_other_ns _ (Ne.symm hnsb)
  refine sameReads_of_same hmap fun x hx => roundTrip_congr hmap hns ?_ ?_ (hother x)
    (hkept x (Or.inr hx)) (NvsMap.copied_congr (hother x) (hother _))
  · unfold NvsMap.Empty
    simp only [hother]
  · intro _
    rw [NvsMap.BackupComplete, hkept _ (Or.inl rfl), NvsMap.BackupComplete]

/-- **What a write apart from an entry does to it.** The state matters where both are in one
namespace: then it is the first entry there, or there is no unfinished backup that its own backup
would complete. -/
theorem unaffected_of_apart {p q : Name × Name} (hapart : Apart p q) {s s' : σ}
    {data : List UInt8} {version : UInt16}
    (hview : view s' = (view s).write (namespaceOf p.1) p.2 data version)
    (hstate : BackupWhole (view s) ∨ ¬ Completes p q) :
    Unaffected nvs (namespaceOf q.1) q.2 s s' := by
  have hns := length_namespaceOf q.1
  have hseen : ∀ x ∈ seenKeys q.2,
      view s' (namespaceOf q.1) x = view s (namespaceOf q.1) x := by
    intro x hx
    rw [hview]
    by_cases hsame : namespaceOf p.1 = namespaceOf q.1
    · exact write_other_key _ fun hput => hapart.same hsame hput hx
    · exact write_other_ns _ (Ne.symm hsame)
  refine ⟨sameReads_of_seen hmap hseen, endsAt_of_seen hmap hseen, ?_⟩
  by_cases hlong : 10 < q.2.length
  · exact sameReads_of_unreadable hmap (unreadable_of_long hmap _ _ hlong)
      (unreadable_of_long hmap _ _ hlong)
  have hlen : q.2.length ≤ 10 := by omega
  by_cases hsame : namespaceOf p.1 = namespaceOf q.1
  · by_cases hput : p.2.length ≤ 15
    · have hdisjoint := hapart.same hsame
      rw [seenKeys, if_pos hlen] at hdisjoint
      rw [hsame] at hview
      by_cases hempty : (view s).Empty (namespaceOf q.1)
      · refine roundTrip_first hmap hns hview hempty hput hlen hdisjoint ?_
        rcases hstate with hwhole | hstate
        · exact Or.inl hwhole
        · by_contra hc
          rw [not_or, not_or] at hc
          exact hstate ⟨hsame, hc.2.1, hput, hlen, hc.2.2⟩
      · exact roundTrip_same_ns hmap hns hview hempty hput hlen hdisjoint
    · rw [write_of_long _ _ (by omega)] at hview
      exact sameReads_of_same hmap fun x _ => roundTrip_congr hmap hns (by rw [hview])
        (fun _ => by rw [hview]) (by rw [hview]) (by rw [hview]) (by rw [hview])
  · exact roundTrip_other_ns hmap hns hview hsame
      fun hp => hapart.backup hp (fun hq => hsame (hp.trans hq.symm)) hlen

end

end TaktOS.Proof
