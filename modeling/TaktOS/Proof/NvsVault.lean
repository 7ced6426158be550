import TaktOS.Lib.Vault
import TaktOS.Proof.Storage
import TaktOS.Proof.NvsBuilds
import TaktOS.Proof.NvsSpaces

/-!
# NVS as a vault

The manager refines a vault: one value a key in every namespace, and one store for backups, which
all namespaces share. Two blobs an entry, metadata and the order of the entries are not seen, as
long as keys leave room for the suffix and do not have it in them, and blobs are neither empty nor
longer than the metadata can say. A start changes nothing in a namespace that was written to; in
any other it restores.
-/

namespace TaktOS.Proof

open Lib
open NvsManager (namespaceOf)
open NvsManager.Esp32

variable {σ : Type}

/-! ## Keys, values and namespaces -/

/-- The entry has its own two keys, and a backup copies it. -/
structure IsPlain (key : Name) : Prop where
  short : key.length ≤ 10
  plain : strstr metaSuffix key = false
  not_magic : key ≠ kBackupMagicKey

instance (key : Name) : Decidable (IsPlain key) :=
  decidable_of_iff (key.length ≤ 10 ∧ strstr metaSuffix key = false ∧ key ≠ kBackupMagicKey)
    ⟨fun h => ⟨h.1, h.2.1, h.2.2⟩, fun h => ⟨h.short, h.plain, h.not_magic⟩⟩

abbrev PlainKey : Type := { key : Name // IsPlain key }

/-- A backup passes over empty blobs, and the metadata has 16 bits for the length. -/
structure IsStorable (data : List UInt8) : Prop where
  filled : data ≠ []
  fits : data.length < 65536

instance (data : List UInt8) : Decidable (IsStorable data) :=
  decidable_of_iff (data ≠ [] ∧ data.length < 65536)
    ⟨fun h => ⟨h.1, h.2⟩, fun h => ⟨h.filled, h.fits⟩⟩

structure StoredValue where
  data : List UInt8
  version : UInt16
  storable : IsStorable data
  deriving DecidableEq, Repr

abbrev Space : Type := { name : Name // name.length ≤ 15 ∧ name ≠ kBackupNs }

namespace PlainKey

theorem metaKey_ne {k k' : PlainKey} (h : k ≠ k') : metaKey k.1 ≠ metaKey k'.1 := by
  have hk := k.2.short
  have hk' := k'.2.short
  exact fun he => h (Subtype.ext (metaKey_inj (by omega) (by omega) he))

theorem metaKey_not_magic (k : PlainKey) : metaKey k.1 ≠ kBackupMagicKey :=
  metaKey_ne_magic (by have := k.2.short; omega)

theorem strstr_meta (k : PlainKey) : strstr metaSuffix (metaKey k.1) = true :=
  strstr_metaKey (by have := k.2.short; omega)

theorem ne_metaKey (k k' : PlainKey) : k.1 ≠ metaKey k'.1 := by
  intro he
  have hsuffix := k'.strstr_meta
  rw [← he, k.2.plain] at hsuffix
  exact Bool.noConfusion hsuffix

end PlainKey

/-! ## The manager -/

/-- `NvsManager::instance()` with its partition. -/
structure NvsDevice (σ : Type) where
  namespace_ : Name
  partition : σ
  deriving DecidableEq, Repr

def NvsCall.Plain : NvsCall → Prop
  | .set key value _ => IsPlain key ∧ IsStorable value.data
  | .getBlob key _ _ => IsPlain key
  | .getU8 key _ => IsPlain key
  | .getU16 key _ => IsPlain key
  | .getU32 key _ => IsPlain key
  | .getString key _ => IsPlain key
  | .remove key => IsPlain key
  | .eraseAll => False

/-- What is done with the manager. -/
inductive NvsUse where
  | init (space : Space)
  | call (c : NvsCall) (plain : c.Plain)
  | backup
  | restoreFromBackup
  /-- `eraseAll`, and the start after it. -/
  | factoryReset (space : Space)

/-- What the manager answers, and the device afterwards, unless the check of a start crashes. -/
def managerStep (nvs : NvsFlash σ) (d : NvsDevice σ) : NvsUse → Option (NvsAnswer × NvsDevice σ)
  | .init space =>
    (init nvs d.partition space.1).map fun (ok, namespace_, partition) =>
      (.done ok, { namespace_, partition })
  | .call c _ =>
    let (answer, partition) := onDevice nvs d.namespace_ d.partition c
    some (answer, { d with partition })
  | .backup =>
    let (ok, partition) := backup nvs d.namespace_ d.partition
    some (.done ok, { d with partition })
  | .restoreFromBackup =>
    let (ok, partition) := restoreFromBackup nvs d.namespace_ d.partition
    some (.done ok, { d with partition })
  | .factoryReset space =>
    let (_, partition) := eraseAll nvs d.partition
    (init nvs partition space.1).map fun (ok, namespace_, partition) =>
      (.done ok, { namespace_, partition })

/-! ## What the vault is asked, and what its answer is to the caller -/

def NvsCall.asked : (call : NvsCall) → call.Plain → Vault.Op Space PlainKey StoredValue
  | .set key value version, h => .put ⟨key, h.1⟩ ⟨value.data, version, h.2⟩
  | .getBlob key _ _, h => .look ⟨key, h⟩
  | .getU8 key _, h => .look ⟨key, h⟩
  | .getU16 key _, h => .look ⟨key, h⟩
  | .getU32 key _, h => .look ⟨key, h⟩
  | .getString key _, h => .look ⟨key, h⟩
  | .remove key, h => .drop ⟨key, h⟩
  | .eraseAll, h => h.elim

def NvsUse.asked : NvsUse → Vault.Op Space PlainKey StoredValue
  | .init space => .enter space
  | .call c plain => c.asked plain
  | .backup => .save
  | .restoreFromBackup => .restore
  | .factoryReset space => .wipe space

/-- The caller's buffer and version, when the value fits into it. -/
def StoredValue.into (v : Option StoredValue) (buf : List UInt8) (version : UInt16) :
    Bool × List UInt8 × UInt16 :=
  match v with
  | some v =>
    if v.data.length ≤ buf.length then (true, v.data ++ buf.drop v.data.length, v.version)
    else (false, buf, version)
  | none => (false, buf, version)

/-- The length of the value, when it fits. -/
def StoredValue.count (v : Option StoredValue) (buf : List UInt8) : Int :=
  match v with
  | some v => if v.data.length ≤ buf.length then v.data.length else -1
  | none => -1

def NvsCall.told (call : NvsCall) (v : Option StoredValue) : NvsAnswer :=
  match call with
  | .getBlob _ buf version =>
    .blob (StoredValue.count v buf) (StoredValue.into v buf version).2.1
      (StoredValue.into v buf version).2.2
  | .getU8 _ value =>
    .u8 (StoredValue.into v [value] 0).1 ((StoredValue.into v [value] 0).2.1.getD 0 0)
  | .getU16 _ value =>
    .u16 (StoredValue.into v (leHalfBytes value) 0).1
      (halfAt (StoredValue.into v (leHalfBytes value) 0).2.1 0)
  | .getU32 _ value =>
    .u32 (StoredValue.into v (leBytes value) 0).1
      (wordAt (StoredValue.into v (leBytes value) 0).2.1 0)
  | .getString _ buf => .string (StoredValue.into v buf 0).1 (StoredValue.into v buf 0).2.1
  | _ => .done false

def NvsUse.told (use : NvsUse) : Vault.Reply StoredValue → NvsAnswer
  | .done ok => .done ok
  | .found v =>
    match use with
    | .call c _ => c.told v
    | _ => .done false

/-- The vault, asked as the manager is. -/
def vaultSpec : Spec (Vault Space PlainKey StoredValue) NvsUse NvsAnswer :=
  fun t use answer t' => ∃ r, Vault.Step t use.asked r t' ∧ answer = use.told r

/-! ## What a namespace holds -/

/-- The namespace holds the entries, and nothing but the magic besides. -/
structure Stores (m : NvsMap) (ns : Name) (e : PlainKey → Option StoredValue) : Prop where
  written : ∀ k v, e k = some v → m.Written ns k.1 v.data v.version
  absent : ∀ k, e k = none → m ns k.1 = none ∧ m ns (metaKey k.1) = none
  only : ∀ x, x ≠ kBackupMagicKey → m ns x ≠ none → ∃ k : PlainKey, x = k.1 ∨ x = metaKey k.1

section

variable {m m' : NvsMap} {ns : Name} {e f : PlainKey → Option StoredValue}

/-- The two blobs depend on what stands under the two keys. -/
theorem written_congr {key : Name} {data : List UInt8} {version : UInt16}
    (h : m.Written ns key data version) (hdata : m' ns key = m ns key)
    (hmeta : m' ns (metaKey key) = m ns (metaKey key)) : m'.Written ns key data version :=
  ⟨(NvsMap.blob_congr hmeta).trans h.1, (NvsMap.blob_congr hdata).trans h.2⟩

theorem Stores.congr (h : Stores m ns e) (hsame : ∀ x, x ≠ kBackupMagicKey → m' ns x = m ns x) :
    Stores m' ns e where
  written := fun k v hv => written_congr (h.written k v hv) (hsame _ k.2.not_magic)
    (hsame _ k.metaKey_not_magic)
  absent := fun k hk => by
    rw [hsame _ k.2.not_magic, hsame _ k.metaKey_not_magic]
    exact h.absent k hk
  only := fun x hx hsome => h.only x hx (by rw [← hsame x hx]; exact hsome)

theorem stores_nothing (h : ∀ x, x ≠ kBackupMagicKey → m ns x = none) :
    Stores m ns fun _ => none where
  written := fun _ _ hv => absurd hv (by simp)
  absent := fun k _ => ⟨h _ k.2.not_magic, h _ k.metaKey_not_magic⟩
  only := fun x hx hsome => absurd (h x hx) hsome

/-- What is under the keys of an entry tells whether it is stored. -/
theorem Stores.blob (h : Stores m ns e) (k : PlainKey) :
    m.blob ns k.1 = (e k).map StoredValue.data := by
  cases hk : e k with
  | none => rw [NvsMap.blob, (h.absent k hk).1]; rfl
  | some v => exact (h.written k v hk).2

theorem Stores.empty_iff (h : Stores m ns e) (hmagic : m ns kBackupMagicKey = none) :
    m.Empty ns ↔ ∀ k, e k = none := by
  constructor
  · intro hempty k
    have hblob := h.blob k
    rw [NvsMap.blob, hempty] at hblob
    exact Option.map_eq_none_iff.mp hblob.symm
  · intro hnone x
    by_cases hx : x = kBackupMagicKey
    · rw [hx, hmagic]
    · by_contra hsome
      obtain ⟨k, rfl | rfl⟩ := h.only x hx hsome
      · exact hsome (h.absent k (hnone k)).1
      · exact hsome (h.absent k (hnone k)).2

/-! ## Reading -/

/-- **A read gives the value that is stored.** -/
theorem Stores.read (h : Stores m ns e) (k : PlainKey) (buf : List UInt8) (version : UInt16) :
    m.read ns k.1 buf version = StoredValue.into (e k) buf version := by
  cases hk : e k with
  | none =>
    exact read_of_no_pair (Or.inl (by rw [NvsMap.blob, (h.absent k hk).1])) buf version
  | some v =>
    have hholds := (h.written k v hk).holds
    by_cases hfit : v.data.length ≤ buf.length
    · rw [NvsMap.readsBack_iff.mpr hholds buf version hfit, StoredValue.into, if_pos hfit]
    · have hnone : (some v.data).filter (·.length ≤ buf.length) = none := by
        rw [Option.filter_some, if_neg (by simpa using hfit)]
      rw [NvsMap.read, (h.written k v hk).2, hnone, StoredValue.into]
      rw [if_neg hfit]
      split
      · rename_i hc
        exact absurd hc (by simp)
      · rfl

/-- The check passes every entry of the namespace. -/
theorem Stores.sound (h : Stores m ns e) (hmagic : m ns kBackupMagicKey = none) :
    AllSound m ns := by
  intro x hsome
  have hx : x ≠ kBackupMagicKey := fun he => hsome (by rw [he, hmagic])
  obtain ⟨k, rfl | rfl⟩ := h.only x hx hsome
  · cases hk : e k with
    | none => exact absurd (h.absent k hk).1 hsome
    | some v =>
      obtain ⟨hmeta, hdata⟩ := h.written k v hk
      have hsize : (NvsEntry.make k.1 v.data v.version).dataSize.toNat = v.data.length := by
        rw [NvsEntry.make]
        exact UInt16.toNat_ofNat_of_lt v.storable.fits
      have hcrc : (NvsEntry.make k.1 v.data v.version).crc32 = Crc32.compute v.data := rfl
      rw [NvsMap.sound, hmeta, hdata, filter_fits (by rw [NvsEntry.length_make])]
      dsimp only
      rw [NvsEntry.ofBytes_make, hsize, hcrc]
      simp
  · rw [NvsMap.sound, k.strstr_meta, Bool.true_or]

/-! ## Writing -/

theorem Stores.write (h : Stores m ns e) (k : PlainKey) (v : StoredValue) :
    Stores (m.write ns k.1 v.data v.version) ns (Vault.set e k (some v)) := by
  have hother : ∀ x, x ≠ k.1 → x ≠ metaKey k.1 →
      m.write ns k.1 v.data v.version ns x = m ns x := fun x hx hx' => by
    rw [NvsMap.write, NvsMap.put_other_key _ hx, NvsMap.put_other_key _ hx']
  have hkeys : ∀ k', k' ≠ k → k'.1 ≠ k.1 ∧ metaKey k'.1 ≠ k.1 := fun k' hne =>
    ⟨fun he => hne (Subtype.ext he), (k.ne_metaKey k').symm⟩
  constructor
  · intro k' v' hv'
    by_cases hne : k' = k
    · subst hne
      rw [Vault.set_self] at hv'
      obtain rfl := Option.some.inj hv'
      exact NvsMap.written_write m ns k'.2.short v.data v.version
    · rw [Vault.set_other e _ hne] at hv'
      obtain ⟨hdata, hmeta⟩ := hkeys k' hne
      exact written_congr (h.written k' v' hv') (hother _ hdata (k'.ne_metaKey k))
        (hother _ hmeta (PlainKey.metaKey_ne hne))
  · intro k' hk'
    have hne : k' ≠ k := fun he => by
      rw [he, Vault.set_self] at hk'
      exact absurd hk' (by simp)
    rw [Vault.set_other e _ hne] at hk'
    obtain ⟨hdata, hmeta⟩ := hkeys k' hne
    rw [hother _ hdata (k'.ne_metaKey k), hother _ hmeta (PlainKey.metaKey_ne hne)]
    exact h.absent k' hk'
  · intro x hx hsome
    by_cases hat : x = k.1 ∨ x = metaKey k.1
    · exact ⟨k, hat⟩
    · rw [not_or] at hat
      exact h.only x hx (by rw [← hother x hat.1 hat.2]; exact hsome)

theorem Stores.erase (h : Stores m ns e) (k : PlainKey) :
    Stores ((m.set ns k.1 none).set ns (metaKey k.1) none) ns (Vault.set e k none) := by
  have hother : ∀ x, x ≠ k.1 → x ≠ metaKey k.1 →
      (m.set ns k.1 none).set ns (metaKey k.1) none ns x = m ns x := fun x hx hx' => by
    rw [NvsMap.set_other_key _ hx', NvsMap.set_other_key _ hx]
  have hgone : (m.set ns k.1 none).set ns (metaKey k.1) none ns k.1 = none := by
    rw [NvsMap.set_other_key _ (k.ne_metaKey k), NvsMap.set_self]
  have hkeys : ∀ k', k' ≠ k → k'.1 ≠ k.1 ∧ metaKey k'.1 ≠ k.1 := fun k' hne =>
    ⟨fun he => hne (Subtype.ext he), (k.ne_metaKey k').symm⟩
  constructor
  · intro k' v' hv'
    have hne : k' ≠ k := fun he => by
      rw [he, Vault.set_self] at hv'
      exact absurd hv' (by simp)
    rw [Vault.set_other e _ hne] at hv'
    obtain ⟨hdata, hmeta⟩ := hkeys k' hne
    exact written_congr (h.written k' v' hv') (hother _ hdata (k'.ne_metaKey k))
      (hother _ hmeta (PlainKey.metaKey_ne hne))
  · intro k' hk'
    by_cases hne : k' = k
    · subst hne
      exact ⟨hgone, NvsMap.set_self _ _ _ _⟩
    · rw [Vault.set_other e _ hne] at hk'
      obtain ⟨hdata, hmeta⟩ := hkeys k' hne
      rw [hother _ hdata (k'.ne_metaKey k), hother _ hmeta (PlainKey.metaKey_ne hne)]
      exact h.absent k' hk'
  · intro x hx hsome
    by_cases hat : x = k.1 ∨ x = metaKey k.1
    · exact ⟨k, hat⟩
    · rw [not_or] at hat
      exact h.only x hx (by rw [← hother x hat.1 hat.2]; exact hsome)

/-! ## Copying a namespace over another -/

/-- The map after every key but the magic's was copied, where there is something to copy. -/
theorem Stores.lay (copy : Name → Option (List UInt8)) {ns' : Name} (he : Stores m ns e)
    (hf : Stores m ns' f) (hat : ∀ x, x ≠ kBackupMagicKey → m' ns x = copyOver (copy x) (m ns x))
    (hdata : ∀ k, copy k.1 = (f k).map StoredValue.data)
    (hmeta : ∀ k : PlainKey, copy (metaKey k.1)
      = (f k).map fun v => (NvsEntry.make k.1 v.data v.version).toBytes)
    (hnone : ∀ x, m ns' x = none → copy x = none) : Stores m' ns (laidOver f e) := by
  constructor
  · intro k v hv
    cases hk : f k with
    | none =>
      rw [laidOver_of_none hk] at hv
      refine written_congr (he.written k v hv) ?_ ?_
      · rw [hat _ k.2.not_magic, hdata, hk]
        rfl
      · rw [hat _ k.metaKey_not_magic, hmeta, hk]
        rfl
    | some w =>
      obtain rfl : w = v := Option.some.inj ((laidOver_of_some hk).symm.trans hv)
      constructor
      · rw [NvsMap.blob, hat _ k.metaKey_not_magic, hmeta, hk]
        rfl
      · rw [NvsMap.blob, hat _ k.2.not_magic, hdata, hk]
        rfl
  · intro k hk
    have hfk : f k = none := by
      cases hk' : f k with
      | none => rfl
      | some w => exact absurd ((laidOver_of_some hk').symm.trans hk) (by simp)
    rw [laidOver_of_none hfk] at hk
    rw [hat _ k.2.not_magic, hat _ k.metaKey_not_magic, hdata, hmeta, hfk]
    exact he.absent k hk
  · intro x hx hsome
    by_cases hsrc : m ns' x = none
    · refine he.only x hx fun hold => hsome ?_
      rw [hat x hx, hnone x hsrc, hold]
      rfl
    · exact hf.only x hx hsrc

/-- Every stored value is one a copy takes. -/
theorem Stores.filled (h : Stores m ns e) (k : PlainKey) :
    m.filled ns k.1 = (e k).map StoredValue.data := by
  rw [NvsMap.filled, h.blob]
  cases e k with
  | none => rfl
  | some v =>
    rw [Option.map_some, Option.filter_some, if_pos (by simpa using v.storable.filled)]

theorem Stores.blob_meta (h : Stores m ns e) (k : PlainKey) : m.blob ns (metaKey k.1)
    = (e k).map fun v => (NvsEntry.make k.1 v.data v.version).toBytes := by
  cases hk : e k with
  | none => rw [NvsMap.blob, (h.absent k hk).2]; rfl
  | some v => exact (h.written k v hk).1

theorem Stores.restore (he : Stores m ns e) (hf : Stores m kBackupNs f) :
    Stores (m.restore ns) ns (laidOver f e) := by
  refine he.lay (m.filled kBackupNs) hf (fun x hx => ?_) hf.filled (fun k => ?_)
    fun x hx => ?_
  · rw [NvsMap.restore, if_pos ⟨rfl, hx⟩]
  · rw [NvsMap.filled, hf.blob_meta]
    cases f k with
    | none => rfl
    | some v =>
      rw [Option.map_some, Option.filter_some,
        if_pos (by simpa using NvsEntry.make_ne_nil k.1 v.data v.version)]
  · rw [NvsMap.filled, NvsMap.blob, hx]
    rfl

theorem Stores.backup (he : Stores m ns e) (hf : Stores m kBackupNs f) :
    Stores (m.backup ns) kBackupNs (laidOver e f) := by
  refine hf.lay (m.copied ns) he (fun x hx => NvsMap.backup_at hx) (fun k => ?_)
    (fun k => ?_) fun x hx => NvsMap.copied_of_none hx
  · rw [NvsMap.copied_of_plain k.2.plain, he.filled]
  · have hlen : k.1.length ≤ 34 := by have := k.2.short; omega
    have hfilled := he.filled k
    cases hk : e k with
    | none =>
      rw [hk] at hfilled
      exact NvsMap.copied_metaKey_of_unfilled hlen hfilled
    | some v =>
      rw [hk] at hfilled
      rw [NvsMap.copied_metaKey hlen k.2.plain (by rw [hfilled]; exact Option.some_ne_none _),
        he.blob_meta, hk]
      dsimp only [Option.map_some]
      rw [filter_fits (by rw [NvsEntry.length_make]), Option.map_some, NvsEntry.ofBytes_make]

end

/-! ## The partition and the vault -/

/-- The partition holds what the vault does. -/
structure HoldsVault (nvs : NvsFlash σ) (view : σ → NvsMap) (s : σ)
    (t : Vault Space PlainKey StoredValue) : Prop where
  entries : ∀ n : Space, Stores (view s) n.1 (t.entries n)
  noMagic : ∀ n : Space, view s n.1 kBackupMagicKey = none
  saved : Stores (view s) kBackupNs t.saved
  complete : (view s).BackupComplete ↔ t.complete = true
  known : ∀ n : Space, nvs.openReadOnly s n.1 = t.known n

/-- The manager is in the space that is entered. -/
structure ManagesVault (nvs : NvsFlash σ) (view : σ → NvsMap) (d : NvsDevice σ)
    (t : Vault Space PlainKey StoredValue) : Prop where
  space : d.namespace_ = t.space.1
  kept : HoldsVault nvs view d.partition t

section

variable {nvs : NvsFlash σ} {view : σ → NvsMap} {s s' : σ}
  {t : Vault Space PlainKey StoredValue}

/-- Entering a space is nothing to the partition. -/
theorem HoldsVault.enter (h : HoldsVault nvs view s t) (n : Space) :
    HoldsVault nvs view s { t with space := n } :=
  ⟨h.entries, h.noMagic, h.saved, h.complete, h.known⟩

/-- Only the space's namespace was written to. -/
theorem HoldsVault.write (h : HoldsVault nvs view s t) {e : PlainKey → Option StoredValue}
    (hother : ∀ ns x, ns ≠ t.space.1 → view s' ns x = view s ns x)
    (hstores : Stores (view s') t.space.1 e)
    (hmagic : view s' t.space.1 kBackupMagicKey = none)
    (hknown : ∀ ns, nvs.openReadOnly s' ns
      = (nvs.openReadOnly s ns || decide (ns = t.space.1))) :
    HoldsVault nvs view s' (t.write e) where
  entries := by
    intro n
    by_cases hn : n = t.space
    · rw [hn, Vault.write_entries_self]
      exact hstores
    · have hne : n.1 ≠ t.space.1 := fun he => hn (Subtype.ext he)
      rw [Vault.write_entries_other t e hn]
      exact (h.entries n).congr fun x _ => hother n.1 x hne
  noMagic := by
    intro n
    by_cases hn : n.1 = t.space.1
    · rw [hn, hmagic]
    · rw [hother _ _ hn]
      exact h.noMagic n
  saved := h.saved.congr fun x _ => hother _ x t.space.2.2.symm
  complete := by
    rw [NvsMap.BackupComplete, hother _ _ t.space.2.2.symm]
    exact h.complete
  known := by
    intro n
    rw [hknown, h.known n, Vault.write]
    exact congrArg _ (decide_eq_decide.mpr Subtype.ext_iff.symm)

variable (hmap : nvs.IsMap view) (hspaces : TracksSpaces nvs)

include hmap

theorem HoldsVault.read (h : HoldsVault nvs view s t) (k : PlainKey) (buf : List UInt8)
    (version : UInt16) : readEntry nvs t.space.1 s k.1 buf version
      = StoredValue.into (t.entries t.space k) buf version := by
  rw [readEntry_eq hmap, (h.entries t.space).read]

theorem HoldsVault.getBlob (h : HoldsVault nvs view s t) (k : PlainKey) (buf : List UInt8)
    (version : UInt16) : getBlob nvs t.space.1 s k.1 buf version
      = (StoredValue.count (t.entries t.space k) buf,
        (StoredValue.into (t.entries t.space k) buf version).2.1,
        (StoredValue.into (t.entries t.space k) buf version).2.2) := by
  have hstores := h.entries t.space
  have hblob := hstores.blob k
  cases hk : t.entries t.space k with
  | none =>
    rw [hk] at hblob
    exact getBlob_fails hmap version (Or.inl hblob)
  | some v =>
    rw [hk] at hblob
    by_cases hfit : v.data.length ≤ buf.length
    · have hcast := castInt_of_lt (n := v.data.length) (by have := v.storable.fits; omega)
      rw [getBlob_reads hmap version (hstores.written k v hk).holds hfit, hcast,
        StoredValue.count, StoredValue.into]
      rw [if_pos hfit, if_pos hfit]
    · rw [getBlob_fails hmap version (Or.inr (Or.inr ⟨v.data, hblob, by omega⟩)),
        StoredValue.count, StoredValue.into]
      rw [if_neg hfit, if_neg hfit]

include hspaces

theorem HoldsVault.put (h : HoldsVault nvs view s t) (k : PlainKey) (v : StoredValue) :
    (writeEntry nvs t.space.1 s k.1 v.data v.version).1 = true
      ∧ HoldsVault nvs view (writeEntry nvs t.space.1 s k.1 v.data v.version).2
        (t.write (Vault.set (t.entries t.space) k (some v))) := by
  have hlen := t.space.2.1
  obtain ⟨hok, hview⟩ := view_writeEntry hmap hlen s k.1 v.data v.version
  refine ⟨hok, h.write (fun ns x hns => ?_) ?_ ?_ fun ns =>
    writeEntry_spaces hspaces hmap hlen s k.1 v.data v.version ns⟩
  · rw [hview, NvsMap.write, NvsMap.put_other_ns _ hns, NvsMap.put_other_ns _ hns]
  · rw [hview]
    exact (h.entries t.space).write k v
  · rw [hview, NvsMap.write, NvsMap.put_other_key _ k.2.not_magic.symm,
      NvsMap.put_other_key _ k.metaKey_not_magic.symm]
    exact h.noMagic t.space

theorem HoldsVault.drop (h : HoldsVault nvs view s t) (k : PlainKey) :
    (remove nvs t.space.1 s k.1).1 = true
      ∧ HoldsVault nvs view (remove nvs t.space.1 s k.1).2
        (t.write (Vault.set (t.entries t.space) k none)) := by
  have hlen := t.space.2.1
  obtain ⟨hok, hview⟩ := remove_view hmap hlen s k.1
  refine ⟨hok, h.write (fun ns x hns => ?_) ?_ ?_ fun ns =>
    remove_spaces hspaces hmap hlen s k.1 ns⟩
  · rw [hview, NvsMap.set_other_ns _ hns, NvsMap.set_other_ns _ hns]
  · rw [hview]
    exact (h.entries t.space).erase k
  · rw [hview, NvsMap.set_other_key _ k.metaKey_not_magic.symm,
      NvsMap.set_other_key _ k.2.not_magic.symm]
    exact h.noMagic t.space

/-- **A backup saves**, unless the namespace has no entry. -/
theorem HoldsVault.save (h : HoldsVault nvs view s t) :
    ∃ ok t', Vault.Step t .save (.done ok) t' ∧ t'.space = t.space
      ∧ (backup nvs t.space.1 s).1 = ok ∧ HoldsVault nvs view (backup nvs t.space.1 s).2 t' := by
  have hstores := h.entries t.space
  have hempty := hstores.empty_iff (h.noMagic t.space)
  have hknown : ∀ n : Space, nvs.openReadOnly (backup nvs t.space.1 s).2 n.1 = t.known n :=
    fun n => by rw [backup_spaces hspaces hmap t.space.1 s n.2.2, h.known n]
  by_cases hnone : ∀ k, t.entries t.space k = none
  · obtain ⟨hok, hview⟩ := backup_empty hmap (hempty.mpr hnone)
    refine ⟨false, t, .saveNone hnone, rfl, hok, ?_⟩
    exact ⟨by rw [hview]; exact h.entries, by rw [hview]; exact h.noMagic,
      by rw [hview]; exact h.saved, by rw [hview]; exact h.complete, hknown⟩
  · obtain ⟨hok, hview⟩ := backup_view hmap fun hc => hnone (hempty.mp hc)
    refine ⟨true, _, .save (not_forall.mp hnone), rfl, hok, ?_⟩
    have hother : ∀ (n : Space) x, view (backup nvs t.space.1 s).2 n.1 x = view s n.1 x :=
      fun n x => by rw [hview, NvsMap.backup, if_neg n.2.2]
    refine ⟨fun n => (h.entries n).congr fun x _ => hother n x,
      fun n => (hother n _).trans (h.noMagic n), ?_, ?_, hknown⟩
    · rw [hview]
      exact hstores.backup h.saved
    · rw [hview]
      exact ⟨fun _ => rfl, fun _ => by rw [NvsMap.BackupComplete, NvsMap.backup, if_pos rfl,
        if_pos rfl]⟩

/-- **A restore restores**, once a backup was made. -/
theorem HoldsVault.restore (h : HoldsVault nvs view s t) :
    ∃ ok t', Vault.Step t .restore (.done ok) t' ∧ t'.space = t.space
      ∧ (restoreFromBackup nvs t.space.1 s).1 = ok
      ∧ HoldsVault nvs view (restoreFromBackup nvs t.space.1 s).2 t' := by
  by_cases hc : t.complete = true
  · have hcomplete := h.complete.mpr hc
    obtain ⟨hok, hview⟩ := restore_view hmap t.space.2.1 hcomplete
    refine ⟨true, _, .restore hc, rfl, hok, h.write (fun ns x hns => ?_) ?_ ?_ fun ns =>
      restore_spaces hspaces hmap t.space.2.1 hcomplete ns⟩
    · rw [hview, NvsMap.restore, if_neg fun hat => hns hat.1]
    · rw [hview]
      exact (h.entries t.space).restore h.saved
    · rw [hview, NvsMap.restore, if_neg fun hat => hat.2 rfl]
      exact h.noMagic t.space
  · rw [restore_incomplete hmap t.space.1 fun hcomplete => hc (h.complete.mp hcomplete)]
    exact ⟨false, t, .restoreNone (Bool.eq_false_iff.mpr hc), rfl, rfl, h⟩

/-- A `flashInit` changes nothing. -/
theorem HoldsVault.flashInit (h : HoldsVault nvs view s t) :
    HoldsVault nvs view (nvs.flashInit s).2 t := by
  have hview := (hmap.flashInit s).2
  exact ⟨by rw [hview]; exact h.entries, by rw [hview]; exact h.noMagic,
    by rw [hview]; exact h.saved, by rw [hview]; exact h.complete,
    fun n => by rw [hspaces.flashInit, h.known n]⟩

/-- **A start enters its space**, and restores where nothing was ever written. -/
theorem HoldsVault.start (h : HoldsVault nvs view s t) (n : Space) :
    ∃ t' s', Vault.Step t (.enter n) (.done true) t' ∧ t'.space = n
      ∧ init nvs s n.1 = some (true, n.1, s') ∧ HoldsVault nvs view s' t' := by
  have hname : namespaceOf n.1 = n.1 := List.take_of_length_le n.2.1
  have hflash := (h.flashInit hmap hspaces).enter n
  rw [init_eq hmap, hname]
  cases hn : t.known n with
  | true =>
    have hverified : verifyIntegrity nvs n.1 (nvs.flashInit s).2 = some true := by
      refine (verifyIntegrity_iff hmap ?_).mpr ?_
      · rw [hflash.known n, hn]
      · exact (hflash.entries n).sound (hflash.noMagic n)
    rw [hverified]
    exact ⟨_, _, .enter (Or.inl hn), rfl, rfl, hflash⟩
  | false =>
    have hfails : verifyIntegrity nvs n.1 (nvs.flashInit s).2 = some false := by
      have hclosed : nvs.openReadOnly (nvs.flashInit s).2 n.1 = false :=
        (hflash.known n).trans hn
      rw [verifyIntegrity, hclosed]
      rfl
    rw [hfails]
    obtain ⟨ok, t', hstep, hspace, -, hkept⟩ := hflash.restore hmap hspaces
    cases hstep with
    | restore hc => exact ⟨_, _, .enterNew hn hc, rfl, rfl, hkept⟩
    | restoreNone hc => exact ⟨_, _, .enter (Or.inr hc), rfl, rfl, hkept⟩

omit hmap hspaces in
/-- A partition with nothing in it and no namespace is the vault with nothing in it. -/
theorem fresh_kept (hempty : ∀ ns key, view s ns key = none)
    (hclosed : ∀ ns, nvs.openReadOnly s ns = false) (n : Space) :
    HoldsVault nvs view s { space := n } where
  entries := fun _ => stores_nothing fun x _ => hempty _ x
  noMagic := fun _ => hempty _ _
  saved := stores_nothing fun x _ => hempty _ x
  complete := by simp [NvsMap.BackupComplete, hempty]
  known := fun n' => hclosed n'.1

end

end TaktOS.Proof
