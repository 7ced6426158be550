import TaktOS.Proof.NvsRecovery

/-!
# A write cut short

`writeEntry` makes two updates of the partition, the metadata and then the data. Between the two
the new metadata stands beside the old data, and `readEntry` refuses the pair unless the CRCs of
both data happen to agree. A restart checks the pair too, and the check crashes where the metadata
counts no bytes and there are some.
-/

namespace TaktOS.Proof

open NvsManager (namespaceOf defaultNamespace)
open NvsManager.Esp32

variable {σ : Type}

/-- The states of the partition between the NVS calls of `writeEntry`, before the first to after
the last. -/
def crashStates (nvs : NvsFlash σ) (ns : Name) (s : σ) (key : Name) (data : List UInt8)
    (version : UInt16) : List σ :=
  let opened := (nvs.openReadWrite s ns).2
  let torn := (nvs.setBlob opened ns (metaKey key) (NvsEntry.make key data version).toBytes).2
  let written := (nvs.setBlob torn ns key data).2
  [s, opened, torn, written, (nvs.commit written ns).2]

/-- They are the states `writeEntry` goes through: it ends in the last. -/
theorem writeEntry_last {nvs : NvsFlash σ} {ns : Name} {s : σ}
    (hopen : (nvs.openReadWrite s ns).1 = true) (key : Name) (data : List UInt8)
    (version : UInt16) : (crashStates nvs ns s key data version).getLast?
      = some (writeEntry nvs ns s key data version).2 := by
  rw [writeEntry]
  dsimp only
  rw [hopen]
  rfl

/-- The entry reads as one of two versions of it. -/
def ReadsOneOf (nvs : NvsFlash σ) (ns : Name) (key : Name) (s : σ)
    (old new : List UInt8 × UInt16) : Prop :=
  ReadsBack nvs ns s key old.1 old.2 ∨ ReadsBack nvs ns s key new.1 new.2

/-- Wherever the power goes in a write, the entry reads as the old or the new version when the
partition is then seen through `seen`, which may crash. -/
def WriteAtomic (nvs : NvsFlash σ) (ns : Name) (s : σ) (key : Name)
    (old new : List UInt8 × UInt16) (seen : σ → Option σ) : Prop :=
  ∀ c ∈ crashStates nvs ns s key new.1 new.2,
    ∃ s', seen c = some s' ∧ ReadsOneOf nvs ns key s' old new

/-- Wherever the power goes in a write, the check of the restart does not crash. -/
def RestartsReturn (nvs : NvsFlash σ) (view : σ → NvsMap) (name : Name) (s : σ) (key : Name)
    (new : List UInt8 × UInt16) : Prop :=
  ∀ c ∈ crashStates nvs (namespaceOf name) s key new.1 new.2,
    ¬ CheckCrashes nvs view (namespaceOf name) (nvs.flashInit c).2

/-! ## The three maps -/

/-- The map when the metadata was written and the data was not. -/
def tornMap (m : NvsMap) (ns key : Name) (data : List UInt8) (version : UInt16) : NvsMap :=
  m.put ns (metaKey key) (NvsEntry.make key data version).toBytes

/-- **The torn pair** is read as the old data under the new version, if its CRCs agree. -/
theorem torn_holds_iff {m : NvsMap} {ns key : Name} {data₀ data₁ data : List UInt8}
    {version₀ version₁ version : UInt16} (h : m.Holds ns key data₀ version₀)
    (hk : key.length ≤ 10) : (tornMap m ns key data₁ version₁).Holds ns key data version
      ↔ data = data₀ ∧ version = version₁ ∧ Crc32.compute data₀ = Crc32.compute data₁ := by
  have hmeta : (tornMap m ns key data₁ version₁).blob ns (metaKey key)
      = some (NvsEntry.make key data₁ version₁).toBytes :=
    NvsMap.blob_put_self m _ ((length_metaKey_le key).mpr hk)
  have hdata : (tornMap m ns key data₁ version₁).blob ns key = some data₀ := by
    obtain ⟨_, _, _, hdata, _⟩ := h
    rw [tornMap, NvsMap.blob_congr (NvsMap.put_other_key m (metaKey_ne_self (by omega)).symm)]
    exact hdata
  constructor
  · rintro ⟨bytes, hmeta', _, hdata', hcrc, hversion⟩
    cases hmeta.symm.trans hmeta'
    cases hdata.symm.trans hdata'
    rw [NvsEntry.ofBytes_make] at hcrc hversion
    exact ⟨rfl, hversion.symm, hcrc⟩
  · rintro ⟨rfl, rfl, hcrc⟩
    refine ⟨_, hmeta, by rw [NvsEntry.length_make], hdata, ?_, ?_⟩
    · rw [NvsEntry.ofBytes_make]
      exact hcrc
    · rw [NvsEntry.ofBytes_make]
      rfl

/-- New metadata crashes the check over data it counts as none. -/
theorem faults_iff_of_blobs {m : NvsMap} {ns key : Name} {data data' : List UInt8}
    {version : UInt16} (hplain : strstr metaSuffix key = false)
    (hmeta : m.blob ns (metaKey key) = some (NvsEntry.make key data version).toBytes)
    (hdata : m.blob ns key = some data') :
    m.faults ns key = true ↔ data.length % 65536 = 0 ∧ data' ≠ [] := by
  have hsize : (NvsEntry.make key data version).dataSize = 0 ↔ data.length % 65536 = 0 := by
    rw [← UInt16.toNat_inj, NvsEntry.make, UInt16.toNat_ofNat']
    rfl
  rw [NvsMap.faults, hplain, hmeta, hdata, filter_fits (by rw [NvsEntry.length_make])]
  dsimp only
  rw [NvsEntry.ofBytes_make, Bool.not_false, Bool.true_and, Bool.and_eq_true, decide_eq_true_iff,
    decide_eq_true_iff, hsize]

section

variable {nvs : NvsFlash σ} {view : σ → NvsMap} (hmap : nvs.IsMap view)

include hmap

/-- Every state is one of three maps, and each of the three is the map of a state. -/
theorem crashStates_views {ns : Name} (hns : ns.length ≤ 15) (s : σ) (key : Name)
    (data : List UInt8) (version : UInt16) :
    (crashStates nvs ns s key data version).map view
      = [view s, view s, tornMap (view s) ns key data version, (view s).write ns key data version,
        (view s).write ns key data version] := by
  simp only [crashStates, List.map_cons, List.map_nil, tornMap, NvsMap.write,
    (hmap.openReadWrite s ns hns).2, (hmap.setBlob _ _ _ _).2, (hmap.commit _ _).2]

/-- The map of a state. -/
theorem crashStates_cases {ns : Name} (hns : ns.length ≤ 15) {s c : σ} {key : Name}
    {data : List UInt8} {version : UInt16} (hc : c ∈ crashStates nvs ns s key data version) :
    view c = view s ∨ view c = tornMap (view s) ns key data version
      ∨ view c = (view s).write ns key data version := by
  have hview : view c ∈ (crashStates nvs ns s key data version).map view := List.mem_map_of_mem hc
  rw [crashStates_views hmap hns] at hview
  simpa only [List.mem_cons, List.not_mem_nil, or_false, or_self, or_self_left] using hview

/-- A state of a map. -/
theorem exists_crashState {ns : Name} (hns : ns.length ≤ 15) (s : σ) (key : Name)
    (data : List UInt8) (version : UInt16) {m : NvsMap}
    (hm : m = tornMap (view s) ns key data version ∨ m = (view s).write ns key data version) :
    ∃ c ∈ crashStates nvs ns s key data version, view c = m := by
  rw [← List.mem_map, crashStates_views hmap hns]
  rcases hm with rfl | rfl <;> simp

/-! ## The restart -/

/-- Without a completed backup `init` leaves the partition as it is. -/
theorem view_restarted {s s' : σ} (h : ¬ (view s).BackupComplete) {name : Name}
    (hinit : restarted nvs name s = some s') : view s' = view s := by
  have hview := (hmap.flashInit s).2
  rw [restarted, init_eq hmap, restore_incomplete hmap (namespaceOf name) (by rw [hview]; exact h),
    Option.map_map] at hinit
  obtain ⟨ok, _, hs'⟩ := Option.map_eq_some_iff.mp hinit
  rw [← hs', ← hview]
  exact congrArg view (ite_self _)

/-- A write in progress completes no backup. -/
theorem no_backup_during_write {ns : Name} (hns : ns.length ≤ 15) {s : σ}
    (h : ¬ (view s).BackupComplete) {key : Name} {data : List UInt8} {version : UInt16} {c : σ}
    (hc : c ∈ crashStates nvs ns s key data version) : ¬ (view c).BackupComplete := by
  have hput : ∀ (m : NvsMap) (key : Name) (data : List UInt8),
      ¬ m.BackupComplete → ¬ (m.put ns key data).BackupComplete := by
    intro m key data hm
    rw [NvsMap.BackupComplete]
    rcases m.put_cases ns key data kBackupNs kBackupMagicKey with hsame | hblob
    · rw [hsame]
      exact hm
    · rw [hblob]
      simp
  rcases crashStates_cases hmap hns hc with hv | hv | hv
  · rw [hv]
    exact h
  · rw [hv]
    exact hput _ _ _ h
  · rw [hv]
    exact hput _ _ _ (hput _ _ _ h)

/-! ## The theorem -/

/-- The theorem for whatever leaves the maps of the states as they are. -/
theorem atomic_iff_of_same_views {ns : Name} (hns : ns.length ≤ 15) {s : σ} {key : Name}
    {old : List UInt8 × UInt16} (hold : ReadsBack nvs ns s key old.1 old.2)
    (new : List UInt8 × UInt16) (seen : σ → Option σ)
    (hseen : ∀ c ∈ crashStates nvs ns s key new.1 new.2, ∀ s',
      seen c = some s' → view s' = view c) :
    WriteAtomic nvs ns s key old new seen
      ↔ (∀ c ∈ crashStates nvs ns s key new.1 new.2, seen c ≠ none)
        ∧ Crc32.compute old.1 = Crc32.compute new.1 ∧ (old.1 = new.1 ∨ old.2 = new.2) := by
  have hbefore := (readsBack_iff hmap).mp hold
  have hk := short_of_holds hmap hbefore
  have htorn : ∀ data version, (tornMap (view s) ns key new.1 new.2).Holds ns key data version
      ↔ data = old.1 ∧ version = new.2 ∧ Crc32.compute old.1 = Crc32.compute new.1 :=
    fun _ _ => torn_holds_iff hbefore hk
  unfold WriteAtomic ReadsOneOf
  simp only [readsBack_iff hmap]
  constructor
  · intro h
    refine ⟨fun c hc => ?_, ?_⟩
    · obtain ⟨s', hs', _⟩ := h c hc
      rw [hs']
      exact Option.some_ne_none _
    obtain ⟨c, hc, hview⟩ := exists_crashState hmap hns s key new.1 new.2 (Or.inl rfl)
    obtain ⟨s', hs', hread⟩ := h c hc
    rw [hseen c hc s' hs', hview, htorn, htorn] at hread
    rcases hread with ⟨_, hversion, hcrc⟩ | ⟨hdata, _, hcrc⟩
    · exact ⟨hcrc, Or.inr hversion⟩
    · exact ⟨hcrc, Or.inl hdata.symm⟩
  · rintro ⟨hreturns, hcrc, hsame⟩ c hc
    obtain ⟨s', hs'⟩ := Option.ne_none_iff_exists'.mp (hreturns c hc)
    refine ⟨s', hs', ?_⟩
    rw [hseen c hc s' hs']
    rcases crashStates_cases hmap hns hc with hv | hv | hv
    · rw [hv]
      exact Or.inl hbefore
    · rw [hv, htorn, htorn]
      rcases hsame with hdata | hversion
      · exact Or.inr ⟨hdata.symm, rfl, hcrc⟩
      · exact Or.inl ⟨rfl, hversion, hcrc⟩
    · rw [hv]
      exact Or.inr ((view s).written_write ns hk new.1 new.2).holds

/-! ## The check of the restart -/

/-- In a store that passes the check, only the entry that is written can end it. -/
theorem verifyIntegrity_of_written {ns : Name} {s t : σ} {key : Name}
    (hplain : strstr metaSuffix key = false) (hk : key.length ≤ 10)
    (hsound : verifyIntegrity nvs ns s = some true) (hentry : view t ns key ≠ none)
    (hother : ∀ x, x ≠ key → x ≠ metaKey key → view t ns x = view s ns x) :
    verifyIntegrity nvs ns t = (view t).verdict ns key := by
  have hall := (verifyIntegrity_iff hmap (open_of_verified hsound)).mp hsound
  rw [verifyIntegrity, hmap.readable t ns key hentry, Bool.not_true, if_neg Bool.false_ne_true,
    ← verifyKey_eq hmap]
  refine verifyKeys_of_others (fun x hx hne => ?_) ((hmap.mem_entries _ _ _).mpr hentry)
  rw [verifyKey_eq hmap, NvsMap.verdict_true_iff]
  cases hsuffix : strstr metaSuffix x with
  | true => rw [NvsMap.sound, hsuffix, Bool.true_or]
  | false =>
    have hlen := hmap.short t ns x ((hmap.mem_entries _ _ _).mp hx)
    have hsame : view t ns x = view s ns x := by
      refine hother x hne fun he => ?_
      have hmeta : strstr metaSuffix (metaKey key) := strstr_metaKey (by omega)
      rw [← he, hsuffix] at hmeta
      exact Bool.noConfusion hmeta
    have hsameMeta : view t ns (metaKey x) = view s ns (metaKey x) := by
      refine hother _ (fun he => ?_) fun he => hne (metaKey_inj (by omega) (by omega) he)
      have hmeta : strstr metaSuffix (metaKey x) := strstr_metaKey (by omega)
      rw [he, hplain] at hmeta
      exact Bool.noConfusion hmeta
    rw [NvsMap.sound_congr (NvsMap.blob_congr hsameMeta) (NvsMap.blob_congr hsame)]
    refine hall x ?_
    rw [← hsame, ← hmap.mem_entries]
    exact hx

/-- The check of the restart crashes over metadata that counts the entry's data as none. -/
theorem checkCrashes_iff {name : Name} {s c : σ} {key : Name} (hk : key.length ≤ 10)
    (hplain : strstr metaSuffix key = false)
    (hsound : verifyIntegrity nvs (namespaceOf name) s = some true)
    {data data' : List UInt8} {version : UInt16}
    (hmeta : (view c).blob (namespaceOf name) (metaKey key)
      = some (NvsEntry.make key data version).toBytes)
    (hdata : (view c).blob (namespaceOf name) key = some data')
    (hother : ∀ x, x ≠ key → x ≠ metaKey key →
      view c (namespaceOf name) x = view s (namespaceOf name) x) :
    CheckCrashes nvs view (namespaceOf name) (nvs.flashInit c).2
      ↔ data.length % 65536 = 0 ∧ data' ≠ [] := by
  have hentry : view c (namespaceOf name) key ≠ none := by
    rw [NvsMap.blob_eq_some.mp hdata]
    exact Option.some_ne_none _
  rw [← (hmap.flashInit c).2] at hmeta hdata hother hentry
  rw [← verifyIntegrity_none_iff hmap,
    verifyIntegrity_of_written hmap hplain hk hsound hentry hother, NvsMap.verdict_none_iff]
  exact faults_iff_of_blobs hplain hmeta hdata

/-- The check passes in a state that has the map of one in which it passes. -/
theorem not_checkCrashes_of_same {ns key : Name} {s c : σ} (hentry : view s ns key ≠ none)
    (hsound : verifyIntegrity nvs ns s = some true) (hc : view c = view s) :
    ¬ CheckCrashes nvs view ns c := by
  rw [← hc] at hentry
  have hopen := hmap.readable _ _ _ hentry
  rw [← verifyIntegrity_none_iff hmap, (verifyIntegrity_iff hmap hopen).mpr]
  · exact Option.some_ne_none _
  · rw [hc]
    exact (verifyIntegrity_iff hmap (open_of_verified hsound)).mp hsound

section

variable {name : Name} {s c : σ} {key : Name} (hk : key.length ≤ 10)
  (hplain : strstr metaSuffix key = false)
  (hsound : verifyIntegrity nvs (namespaceOf name) s = some true)

include hk hplain hsound

/-- Between the two updates it does over an old value that is not empty. -/
theorem checkCrashes_torn_iff {old : List UInt8} {new : List UInt8 × UInt16}
    (hdata : (view s).blob (namespaceOf name) key = some old)
    (hc : view c = tornMap (view s) (namespaceOf name) key new.1 new.2) :
    CheckCrashes nvs view (namespaceOf name) (nvs.flashInit c).2
      ↔ new.1.length % 65536 = 0 ∧ old ≠ [] := by
  have hmeta : (view c).blob (namespaceOf name) (metaKey key)
      = some (NvsEntry.make key new.1 new.2).toBytes := by
    rw [hc]
    exact NvsMap.blob_put_self _ _ ((length_metaKey_le key).mpr hk)
  have hkept : (view c).blob (namespaceOf name) key = some old := by
    rw [hc, tornMap, NvsMap.blob_congr (NvsMap.put_other_key _ (metaKey_ne_self (by omega)).symm)]
    exact hdata
  refine checkCrashes_iff hmap hk hplain hsound hmeta hkept fun x _ hx => ?_
  rw [hc]
  exact NvsMap.put_other_key _ hx

/-- After them it does over a new value whose length is counted as none. -/
theorem checkCrashes_written_iff {new : List UInt8 × UInt16}
    (hc : view c = (view s).write (namespaceOf name) key new.1 new.2) :
    CheckCrashes nvs view (namespaceOf name) (nvs.flashInit c).2
      ↔ new.1.length % 65536 = 0 ∧ new.1 ≠ [] := by
  have hpair := (view s).written_write (namespaceOf name) hk new.1 new.2
  rw [← hc] at hpair
  refine checkCrashes_iff hmap hk hplain hsound hpair.1 hpair.2 fun x hx hxmeta => ?_
  rw [hc, NvsMap.write, NvsMap.put_other_key _ hx, NvsMap.put_other_key _ hxmeta]

end

/-- **In a store that passes the check the restart crashes over an empty new value**, or one whose
length is counted as none, unless the old value is empty as well. -/
theorem restartsReturn_iff {name : Name} {s : σ} {key : Name} {old : List UInt8 × UInt16}
    (hold : ReadsBack nvs (namespaceOf name) s key old.1 old.2) (new : List UInt8 × UInt16)
    (hsound : verifyIntegrity nvs (namespaceOf name) s = some true)
    (hplain : strstr metaSuffix key = false) :
    RestartsReturn nvs view name s key new
      ↔ (new.1.length % 65536 = 0 → old.1 = [] ∧ new.1 = []) := by
  have hns := length_namespaceOf name
  have hbefore := (readsBack_iff hmap).mp hold
  have hk := short_of_holds hmap hbefore
  obtain ⟨_, _, _, hdata, _⟩ := hbefore
  have hentry : view s (namespaceOf name) key ≠ none := by
    rw [NvsMap.blob_eq_some.mp hdata]
    exact Option.some_ne_none _
  constructor
  · intro h hlen
    obtain ⟨c, hc, hview⟩ := exists_crashState hmap hns s key new.1 new.2 (Or.inl rfl)
    obtain ⟨c', hc', hview'⟩ := exists_crashState hmap hns s key new.1 new.2 (Or.inr rfl)
    have htorn := (checkCrashes_torn_iff hmap hk hplain hsound hdata hview).not.mp (h c hc)
    have hwritten := (checkCrashes_written_iff hmap hk hplain hsound hview').not.mp (h c' hc')
    exact ⟨not_not.mp fun hne => htorn ⟨hlen, hne⟩, not_not.mp fun hne => hwritten ⟨hlen, hne⟩⟩
  · intro h c hc
    rcases crashStates_cases hmap hns hc with hv | hv | hv
    · refine not_checkCrashes_of_same hmap hentry hsound ?_
      rw [(hmap.flashInit c).2, hv]
    · rw [checkCrashes_torn_iff hmap hk hplain hsound hdata hv]
      exact fun hcrash => hcrash.2 (h hcrash.1).1
    · rw [checkCrashes_written_iff hmap hk hplain hsound hv]
      exact fun hcrash => hcrash.2 (h hcrash.1).2

end

/--
**A write is atomic only where a torn one cannot be told from a whole one.** For every key with
a readable entry and every new data and version: the entry reads as the old or as the new one at
every point where the power can go exactly when the CRCs of the data agree and the data or the
versions are the same. With the restart in between, and no completed backup, no check of a restart
may crash either. Of a plain key in a store that passes the check this asks that the new data has
a length the metadata counts, or that the old and the new data are empty.
-/
theorem write_atomic_iff {nvs : NvsFlash σ} {view : σ → NvsMap} (hmap : nvs.IsMap view)
    (name : Name) {s : σ} {key : Name} {old : List UInt8 × UInt16}
    (hold : ReadsBack nvs (namespaceOf name) s key old.1 old.2) (new : List UInt8 × UInt16) :
    (WriteAtomic nvs (namespaceOf name) s key old new some
      ↔ Crc32.compute old.1 = Crc32.compute new.1 ∧ (old.1 = new.1 ∨ old.2 = new.2)) ∧
    (¬ (view s).BackupComplete →
      (WriteAtomic nvs (namespaceOf name) s key old new (restarted nvs name)
        ↔ RestartsReturn nvs view name s key new
          ∧ Crc32.compute old.1 = Crc32.compute new.1 ∧ (old.1 = new.1 ∨ old.2 = new.2))) ∧
    (verifyIntegrity nvs (namespaceOf name) s = some true → strstr metaSuffix key = false →
      (RestartsReturn nvs view name s key new
        ↔ (new.1.length % 65536 = 0 → old.1 = [] ∧ new.1 = []))) := by
  have hns := length_namespaceOf name
  refine ⟨?_, ?_, restartsReturn_iff hmap hold new⟩
  · rw [atomic_iff_of_same_views hmap hns hold new some fun _ _ _ h => by cases h; rfl]
    exact and_iff_right fun _ _ => Option.some_ne_none _
  · intro hbackup
    rw [atomic_iff_of_same_views hmap hns hold new (restarted nvs name) fun c hc _ hs' =>
      view_restarted hmap (no_backup_during_write hmap hns hbackup hc) hs']
    refine and_congr_left fun _ => forall₂_congr fun c _ => not_congr ?_
    rw [restarted, Option.map_eq_none_iff, init_none_iff hmap, verifyIntegrity_none_iff hmap]

/-! ## One byte -/

/-- `init("takt")`, then `setU8("a", 1, 1)` on an empty partition. -/
def oneByteStored : ListNvs :=
  (writeEntry mapNvs (namespaceOf defaultNamespace) {} (ascii ['a']) [1] 1).2

theorem oneByteStored_reads :
    ReadsBack mapNvs (namespaceOf defaultNamespace) oneByteStored (ascii ['a']) [1]
      1 := by
  rw [readsBack_iff mapNvs_isMap, oneByteStored,
    (view_writeEntry mapNvs_isMap (length_namespaceOf _) _ _ _ _).2]
  exact (NvsMap.written_write _ _ (by decide) _ _).holds

/-- The same byte under the next version is written atomically, also with the restart. -/
theorem write_atomic_same_byte :
    WriteAtomic mapNvs (namespaceOf defaultNamespace) oneByteStored (ascii ['a'])
      ([1], 1) ([1], 2) some
    ∧ WriteAtomic mapNvs (namespaceOf defaultNamespace) oneByteStored (ascii ['a'])
      ([1], 1) ([1], 2) (restarted mapNvs defaultNamespace) := by
  have hreads : ReadsBack mapNvs (namespaceOf defaultNamespace) oneByteStored (ascii ['a'])
      (([1], 1) : List UInt8 × UInt16).1 (([1], 1) : List UInt8 × UInt16).2 := oneByteStored_reads
  obtain ⟨hatonce, hrestart, hreturns⟩ :=
    write_atomic_iff mapNvs_isMap defaultNamespace hreads ([1], 2)
  have hreturn := (hreturns (by decide) (by decide)).mpr fun h => absurd h (by decide)
  have hbackup : ¬ oneByteStored.view.BackupComplete :=
    show ¬ oneByteStored.view kBackupNs kBackupMagicKey = _ by decide
  exact ⟨hatonce.mpr ⟨rfl, Or.inl rfl⟩, (hrestart hbackup).mpr ⟨hreturn, rfl, Or.inl rfl⟩⟩

/--
**Another byte is not**: with the metadata written and the data not, the entry cannot be read,
neither at once nor after the restart.
-/
theorem write_torn :
    ReadsBack mapNvs (namespaceOf defaultNamespace) oneByteStored (ascii ['a']) [1] 1
    ∧ ¬ WriteAtomic mapNvs (namespaceOf defaultNamespace) oneByteStored (ascii ['a'])
      ([1], 1) ([2], 2) some
    ∧ ¬ WriteAtomic mapNvs (namespaceOf defaultNamespace) oneByteStored (ascii ['a'])
      ([1], 1) ([2], 2) (restarted mapNvs defaultNamespace) := by
  have htorn : (mapNvs.setBlob
      (mapNvs.openReadWrite oneByteStored (namespaceOf defaultNamespace)).2
      (namespaceOf defaultNamespace) (metaKey (ascii ['a']))
      (NvsEntry.make (ascii ['a']) [2] 2).toBytes).2
      ∈ crashStates mapNvs (namespaceOf defaultNamespace) oneByteStored (ascii ['a'])
        [2] 2 := by
    simp [crashStates]
  refine ⟨oneByteStored_reads, ?_, ?_⟩
  · intro h
    obtain ⟨s', hs', hread | hread⟩ := h _ htorn
    · cases hs'
      exact absurd (hread [0] 0 (by decide)) (by decide)
    · cases hs'
      exact absurd (hread [0] 0 (by decide)) (by decide)
  · intro h
    obtain ⟨s', hs', hread | hread⟩ := h _ htorn
    · cases hs'
      exact absurd (hread [0] 0 (by decide)) (by decide)
    · cases hs'
      exact absurd (hread [0] 0 (by decide)) (by decide)

end TaktOS.Proof
