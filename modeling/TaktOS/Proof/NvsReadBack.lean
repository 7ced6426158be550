import TaktOS.Lib.Run
import TaktOS.Proof.NvsBackup

/-!
# What was set can be read

`writeEntry` drops the results of both blob writes, so the setters report success whether or not
NVS took the keys, and the length in the metadata is the data's length modulo 65536. An entry is
stored where NVS takes the key of the metadata and the length fits, and then stays while nothing
is put under either of its keys.
-/

namespace TaktOS.Proof

open Lib
open NvsManager (namespaceOf defaultNamespace)
open NvsManager.Esp32

variable {σ : Type}

/-- A value and the setter it is given to. -/
inductive NvsSetter where
  | setBlob (data : List UInt8)
  | setU8 (value : UInt8)
  | setU16 (value : UInt16)
  | setU32 (value : UInt32)
  | setString (value : List UInt8)
  deriving DecidableEq, Repr

namespace NvsSetter

/-- The bytes that are stored. -/
def data : NvsSetter → List UInt8
  | .setBlob data => data
  | .setU8 value => [value]
  | .setU16 value => leHalfBytes value
  | .setU32 value => leBytes value
  | .setString value => value ++ [0]

def call (nvs : NvsFlash σ) (ns : Name) (s : σ) (key : Name) (version : UInt16) :
    NvsSetter → Bool × σ
  | .setBlob data => NvsManager.Esp32.setBlob nvs ns s key data version
  | .setU8 value => NvsManager.Esp32.setU8 nvs ns s key value version
  | .setU16 value => NvsManager.Esp32.setU16 nvs ns s key value version
  | .setU32 value => NvsManager.Esp32.setU32 nvs ns s key value version
  | .setString value => NvsManager.Esp32.setString nvs ns s key value version

/-- All setters are `writeEntry`. -/
theorem call_eq (nvs : NvsFlash σ) (ns : Name) (s : σ) (key : Name) (version : UInt16)
    (value : NvsSetter) :
    value.call nvs ns s key version = writeEntry nvs ns s key value.data version := by
  cases value <;> rfl

end NvsSetter

/-- The calls that change the partition, each by a manager with the name `init` was given. -/
inductive NvsOp where
  | set (name key : Name) (value : NvsSetter) (version : UInt16)
  | remove (name key : Name)
  | eraseAll
  | backup (name : Name)
  | restoreFromBackup (name : Name)
  | init (name : Name)
  deriving DecidableEq, Repr

/-- The partition after a start; one whose check crashes leaves it as it is. -/
def afterInit (nvs : NvsFlash σ) (s : σ) (name : Name) : σ :=
  match init nvs s name with
  | some (_, _, s') => s'
  | none => (nvs.flashInit s).2

def nvsStep (nvs : NvsFlash σ) (s : σ) : NvsOp → Option σ
  | .set name key value version => some (value.call nvs (namespaceOf name) s key version).2
  | .remove name key => some (remove nvs (namespaceOf name) s key).2
  | .eraseAll => some (eraseAll nvs s).2
  | .backup name => some (backup nvs (namespaceOf name) s).2
  | .restoreFromBackup name => some (restoreFromBackup nvs (namespaceOf name) s).2
  | .init name => some (afterInit nvs s name)

/-- The two keys that NVS knows an entry by. -/
def entryKeys (key : Name) : List Name := [key, metaKey key]

theorem metaKey_mem_entryKeys (key : Name) : metaKey key ∈ entryKeys key :=
  List.mem_cons_of_mem _ List.mem_cons_self

theorem ne_of_disjoint {key other x : Name} (h : (entryKeys other).Disjoint (entryKeys key))
    (hx : x ∈ entryKeys key) : x ≠ other ∧ x ≠ metaKey other := by
  constructor
  · intro he
    rw [he] at hx
    exact h List.mem_cons_self hx
  · intro he
    rw [he] at hx
    exact h (metaKey_mem_entryKeys other) hx

/-- A completed backup holds a blob for one of the entry's keys. -/
def InBackup (m : NvsMap) (key : Name) : Prop :=
  m.BackupComplete ∧ ∃ x ∈ entryKeys key, m.filled kBackupNs x ≠ none

/-- The call neither writes nor removes the entry, nor another one that shares a key with it. -/
def Spares (nvs : NvsFlash σ) (view : σ → NvsMap) (ns key : Name) (s : σ) : NvsOp → Prop
  | .set name other _ _ => namespaceOf name ≠ ns ∨ (entryKeys other).Disjoint (entryKeys key)
  | .remove name other => namespaceOf name ≠ ns ∨ (entryKeys other).Disjoint (entryKeys key)
  | .eraseAll => False
  | .backup _ => ns ≠ kBackupNs
  | .restoreFromBackup name => namespaceOf name ≠ ns ∨ ¬ InBackup (view s) key
  | .init name => namespaceOf name ≠ ns ∨ ¬ InBackup (view s) key
    -- a start restores nothing when it finds every entry sound, or crashes
    ∨ verifyIntegrity nvs (namespaceOf name) (nvs.flashInit s).2 ≠ some false

/-- The entry can be read back, and `verifyIntegrity` does not fail at either of its keys. -/
def StoredBack (nvs : NvsFlash σ) (ns : Name) (s : σ) (key : Name) (data : List UInt8)
    (version : UInt16) : Prop :=
  ReadsBack nvs ns s key data version
    ∧ ∀ x ∈ entryKeys key, x ∈ nvs.entries s ns → verifyKey nvs ns s x = some true

/-- NVS takes both keys, and the length is kept or never looked at. -/
def Storable (key : Name) (data : List UInt8) : Prop :=
  key.length ≤ 10 ∧ (data.length < 65536 ∨ strstr metaSuffix key = true)

instance (key : Name) (data : List UInt8) : Decidable (Storable key data) :=
  inferInstanceAs (Decidable (_ ∧ _))

/-! ## What is written is stored -/

/-- The integrity check compares as many bytes as the metadata counts. -/
theorem sound_iff {m : NvsMap} {ns key : Name} {data : List UInt8} {version : UInt16}
    (h : m.Written ns key data version) :
    m.sound ns key = true ↔ data.length < 65536 ∨ strstr metaSuffix key = true := by
  have hsize : (NvsEntry.make key data version).dataSize.toNat = data.length % 65536 := by
    rw [NvsEntry.make, UInt16.toNat_ofNat']
  rw [NvsMap.sound, h.1, h.2, filter_fits (by rw [NvsEntry.length_make]), Bool.or_eq_true]
  dsimp only
  rw [NvsEntry.ofBytes_make, Bool.and_eq_true, decide_eq_true_iff, decide_eq_true_iff, hsize]
  constructor
  · rintro (hsuffix | ⟨hle, _⟩)
    · exact Or.inr hsuffix
    · exact Or.inl (by have := Nat.mod_lt data.length (show 65536 > 0 by decide); omega)
  · rintro (hlt | hsuffix)
    · exact Or.inr ⟨by rw [Nat.mod_eq_of_lt hlt], rfl⟩
    · exact Or.inl hsuffix

section

variable {nvs : NvsFlash σ} {view : σ → NvsMap} (hmap : nvs.IsMap view)

include hmap

/-- **What stays written is stored exactly when it was storable.** -/
theorem storedBack_iff {ns : Name} {s : σ} {key : Name} {data : List UInt8} {version : UInt16}
    (hk : key.length ≤ 10) (h : (view s).Written ns key data version) :
    StoredBack nvs ns s key data version ↔ Storable key data := by
  have hentry : key ∈ nvs.entries s ns := by
    rw [hmap.mem_entries, NvsMap.blob_eq_some.mp h.2]
    exact Option.some_ne_none _
  have hmeta : verifyKey nvs ns s (metaKey key) = some true := by
    rw [verifyKey, if_pos (strstr_metaKey (by omega))]
  constructor
  · rintro ⟨_, hverify⟩
    have hkey := hverify key List.mem_cons_self hentry
    rw [verifyKey_eq hmap, NvsMap.verdict_true_iff, sound_iff h] at hkey
    exact ⟨hk, hkey⟩
  · rintro ⟨_, hsize⟩
    refine ⟨(readsBack_iff hmap).mpr h.holds, ?_⟩
    intro x hx _
    rcases List.mem_cons.mp hx with rfl | hx
    · rw [verifyKey_eq hmap, NvsMap.verdict_true_iff, sound_iff h]
      exact hsize
    · rw [List.mem_singleton.mp hx]
      exact hmeta

/-! ## It stays written -/

/-- A call that spares the entry leaves what is under its keys. -/
theorem spared_keeps {ns key : Name} {s s' : σ} {op : NvsOp}
    (hspares : Spares nvs view ns key s op) (hstep : nvsStep nvs s op = some s') {x : Name}
    (hx : x ∈ entryKeys key) : view s' ns x = view s ns x := by
  have hrestore : ∀ (name : Name) (s : σ), namespaceOf name ≠ ns ∨ ¬ InBackup (view s) key →
      view (restoreFromBackup nvs (namespaceOf name) s).2 ns x = view s ns x := by
    intro name s h
    refine restore_other hmap (length_namespaceOf name) ?_
    intro hns hcomplete
    rcases h with h | h
    · exact absurd hns.symm h
    · exact not_not.mp fun hne => h ⟨hcomplete, x, hx, hne⟩
  cases op with
  | set name other value version =>
    injection hstep with hstep
    rw [← hstep, NvsSetter.call_eq, (view_writeEntry hmap (length_namespaceOf name) _ _ _ _).2,
      NvsMap.write]
    rcases hspares with hns | hkeys
    · rw [NvsMap.put_other_ns _ (Ne.symm hns), NvsMap.put_other_ns _ (Ne.symm hns)]
    · obtain ⟨hkey, hmeta⟩ := ne_of_disjoint hkeys hx
      rw [NvsMap.put_other_key _ hkey, NvsMap.put_other_key _ hmeta]
  | remove name other =>
    injection hstep with hstep
    rw [← hstep, (remove_view hmap (length_namespaceOf name) _ _).2]
    rcases hspares with hns | hkeys
    · rw [NvsMap.set_other_ns _ (Ne.symm hns), NvsMap.set_other_ns _ (Ne.symm hns)]
    · obtain ⟨hkey, hmeta⟩ := ne_of_disjoint hkeys hx
      rw [NvsMap.set_other_key _ hmeta, NvsMap.set_other_key _ hkey]
  | eraseAll => exact hspares.elim
  | backup name =>
    injection hstep with hstep
    rw [← hstep]
    by_cases hempty : (view s).Empty (namespaceOf name)
    · rw [(backup_empty hmap hempty).2]
    · rw [(backup_view hmap hempty).2, NvsMap.backup, if_neg hspares]
  | restoreFromBackup name =>
    injection hstep with hstep
    rw [← hstep]
    exact hrestore name s hspares
  | init name =>
    injection hstep with hstep
    have hview := (hmap.flashInit s).2
    rw [← hstep, afterInit, init_eq hmap]
    cases hfound : verifyIntegrity nvs (namespaceOf name) (nvs.flashInit s).2 with
    | none => exact congrFun (congrFun hview ns) x
    | some ok =>
      cases ok with
      | true => exact congrFun (congrFun hview ns) x
      | false =>
        show view (restoreFromBackup nvs (namespaceOf name) (nvs.flashInit s).2).2 ns x = _
        rw [hrestore name (nvs.flashInit s).2, hview]
        rw [hview]
        rcases hspares with hns | hbackup | hsound
        · exact Or.inl hns
        · exact Or.inr hbackup
        · exact absurd hfound hsound

theorem written_step {ns key : Name} {data : List UInt8} {version : UInt16} {s s' : σ}
    {op : NvsOp} (h : (view s).Written ns key data version)
    (hspares : Spares nvs view ns key s op) (hstep : nvsStep nvs s op = some s') :
    (view s').Written ns key data version := by
  have hkeep := fun x => spared_keeps hmap hspares hstep (x := x)
  rw [NvsMap.Written, NvsMap.blob_congr (hkeep _ (metaKey_mem_entryKeys key)),
    NvsMap.blob_congr (hkeep key List.mem_cons_self)]
  exact h

end

/-! ## The theorem -/

/-- After every run of calls that spare the entry it can be read back. -/
def StaysStored (nvs : NvsFlash σ) (view : σ → NvsMap) (ns : Name) (s : σ) (key : Name)
    (data : List UInt8) (version : UInt16) : Prop :=
  ∀ ops t, Along (nvsStep nvs) (Spares nvs view ns key) s ops →
    run (nvsStep nvs) s ops = some t → StoredBack nvs ns t key data version

/--
**A write that reports success can be read back exactly when the entry is storable.** Every
setter reports success, for every key, value and version. From then on, through all calls that
spare the entry, it reads as it was set and passes the integrity check if the key has at most
ten characters and the data less than 65536 bytes (or the key a name the check passes over), and
otherwise not even at once.
-/
theorem read_back_iff {nvs : NvsFlash σ} {view : σ → NvsMap} (hmap : nvs.IsMap view)
    (name : Name) (s : σ) (key : Name) (value : NvsSetter) (version : UInt16) :
    (value.call nvs (namespaceOf name) s key version).1 = true ∧
    (StaysStored nvs view (namespaceOf name) (value.call nvs (namespaceOf name) s key version).2
        key value.data version
      ↔ Storable key value.data) := by
  rw [NvsSetter.call_eq]
  obtain ⟨hok, hview⟩ := view_writeEntry hmap (length_namespaceOf name) s key value.data version
  refine ⟨hok, ?_⟩
  have hwritten : key.length ≤ 10 →
      (view (writeEntry nvs (namespaceOf name) s key value.data version).2).Written
        (namespaceOf name) key value.data version := by
    intro hk
    rw [hview]
    exact (view s).written_write _ hk value.data version
  constructor
  · intro h
    have hstored := h [] _ trivial rfl
    have hk := short_of_holds hmap ((readsBack_iff hmap).mp hstored.1)
    exact (storedBack_iff hmap hk (hwritten hk)).mp hstored
  · intro hstorable ops t hspared hrun
    have hlater := run_invariant
      (fun s => (view s).Written (namespaceOf name) key value.data version)
      (fun _ _ _ h hspares hstep => written_step hmap h hspares hstep)
      (hwritten hstorable.1) hspared hrun
    exact (storedBack_iff hmap hstorable.1 hlater).mpr hstorable

/-- `setString("wifi_ssid", "ap")` on an empty partition. -/
def ssidStored : Bool × ListNvs :=
  (NvsSetter.setString (ascii ['a', 'p'])).call mapNvs (namespaceOf defaultNamespace) {}
    (ascii ['w', 'i', 'f', 'i', '_', 's', 's', 'i', 'd']) 1

/-- The network's name is stored, whatever else is set afterwards. -/
theorem ssid_stored :
    StaysStored mapNvs ListNvs.view (namespaceOf defaultNamespace) ssidStored.2
      (ascii ['w', 'i', 'f', 'i', '_', 's', 's', 'i', 'd'])
      (NvsSetter.setString (ascii ['a', 'p'])).data 1 :=
  (read_back_iff mapNvs_isMap defaultNamespace {} _ (.setString (ascii ['a', 'p'])) 1).2.mpr
    (by decide)

/-- `setString("mqtt_broker", "uri")` on an empty partition. -/
def brokerStored : Bool × ListNvs :=
  (NvsSetter.setString (ascii ['u', 'r', 'i'])).call mapNvs (namespaceOf defaultNamespace) {}
    (ascii ['m', 'q', 't', 't', '_', 'b', 'r', 'o', 'k', 'e', 'r']) 1

/--
**The broker's address is not**: its key has eleven characters. The setter reports success, the
data is there without metadata, it cannot be read, and the integrity check fails from then on.
-/
theorem broker_lost :
    brokerStored.1 = true
    ∧ (readEntry mapNvs (namespaceOf defaultNamespace) brokerStored.2
      (ascii ['m', 'q', 't', 't', '_', 'b', 'r', 'o', 'k', 'e', 'r']) (List.replicate 128 0) 0).1
      = false
    ∧ verifyIntegrity mapNvs (namespaceOf defaultNamespace) brokerStored.2 = some false
    ∧ ¬ StoredBack mapNvs (namespaceOf defaultNamespace) brokerStored.2
      (ascii ['m', 'q', 't', 't', '_', 'b', 'r', 'o', 'k', 'e', 'r'])
      (NvsSetter.setString (ascii ['u', 'r', 'i'])).data 1 := by
  refine ⟨by decide, by decide, by decide, ?_⟩
  intro h
  exact absurd (h.1 (List.replicate 128 0) 0 (by decide +kernel)) (by decide)

end TaktOS.Proof
