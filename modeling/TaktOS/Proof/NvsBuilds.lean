import TaktOS.Lib.Run
import TaktOS.Proof.NvsReadBack
import TaktOS.Proof.Storage

/-!
# The two builds side by side

The host build keeps one record an entry and has no `getBlob`, and its `remove` and `eraseAll` do
nothing. The device build keeps two blobs that other entries may share. The two are run on the
same calls; they give the same answers while the host's record of every key mirrors what the
device reads of it.
-/

namespace TaktOS.Proof

open Lib
open NvsManager (namespaceOf defaultNamespace)
open NvsManager.Host (composedKey)

variable {σ : Type}

/-- The calls that both builds have. A getter is given what the caller's variable or buffer holds,
`getBlob` its version too. -/
inductive NvsCall where
  | set (key : Name) (value : NvsSetter) (version : UInt16)
  | getBlob (key : Name) (buf : List UInt8) (version : UInt16)
  | getU8 (key : Name) (value : UInt8)
  | getU16 (key : Name) (value : UInt16)
  | getU32 (key : Name) (value : UInt32)
  | getString (key : Name) (buf : List UInt8)
  | remove (key : Name)
  | eraseAll
  deriving DecidableEq, Repr

/-- What a call returns, and the caller's variables afterwards. -/
inductive NvsAnswer where
  | done (ok : Bool)
  | blob (count : Int) (buf : List UInt8) (version : UInt16)
  | u8 (ok : Bool) (value : UInt8)
  | u16 (ok : Bool) (value : UInt16)
  | u32 (ok : Bool) (value : UInt32)
  | string (ok : Bool) (buf : List UInt8)
  deriving DecidableEq, Repr

namespace NvsSetter

def hostCall (ns : Name) (s : HostNvs) (key : Name) (version : UInt16) :
    NvsSetter → Bool × HostNvs
  | .setBlob data => NvsManager.Host.setBlob ns s key data version
  | .setU8 value => NvsManager.Host.setU8 ns s key value version
  | .setU16 value => NvsManager.Host.setU16 ns s key value version
  | .setU32 value => NvsManager.Host.setU32 ns s key value version
  | .setString value => NvsManager.Host.setString ns s key value version

theorem hostCall_eq (ns : Name) (s : HostNvs) (key : Name) (version : UInt16)
    (value : NvsSetter) :
    value.hostCall ns s key version
      = NvsManager.Host.writeEntry ns s key value.data version := by
  cases value <;> rfl

end NvsSetter

open NvsAnswer

/-- A call to the host build. -/
def onHost (ns : Name) (h : HostNvs) : NvsCall → NvsAnswer × HostNvs
  | .set key value version =>
    let (ok, h) := value.hostCall ns h key version
    (done ok, h)
  | .getBlob key buf version =>
    let (count, buf, version) := NvsManager.Host.getBlob h key buf version
    (blob count buf version, h)
  | .getU8 key value =>
    let (ok, value) := NvsManager.Host.getU8 ns h key value
    (u8 ok value, h)
  | .getU16 key value =>
    let (ok, value) := NvsManager.Host.getU16 ns h key value
    (u16 ok value, h)
  | .getU32 key value =>
    let (ok, value) := NvsManager.Host.getU32 ns h key value
    (u32 ok value, h)
  | .getString key buf =>
    let (ok, buf) := NvsManager.Host.getString ns h key buf
    (string ok buf, h)
  | .remove key =>
    let (ok, h) := NvsManager.Host.remove h key
    (done ok, h)
  | .eraseAll =>
    let (ok, h) := NvsManager.Host.eraseAll h
    (done ok, h)

/-- The same call to the device build. -/
def onDevice (nvs : NvsFlash σ) (ns : Name) (s : σ) : NvsCall → NvsAnswer × σ
  | .set key value version =>
    let (ok, s) := value.call nvs ns s key version
    (done ok, s)
  | .getBlob key buf version =>
    let (count, buf, version) := NvsManager.Esp32.getBlob nvs ns s key buf version
    (blob count buf version, s)
  | .getU8 key value =>
    let (ok, value) := NvsManager.Esp32.getU8 nvs ns s key value
    (u8 ok value, s)
  | .getU16 key value =>
    let (ok, value) := NvsManager.Esp32.getU16 nvs ns s key value
    (u16 ok value, s)
  | .getU32 key value =>
    let (ok, value) := NvsManager.Esp32.getU32 nvs ns s key value
    (u32 ok value, s)
  | .getString key buf =>
    let (ok, buf) := NvsManager.Esp32.getString nvs ns s key buf
    (string ok buf, s)
  | .remove key =>
    let (ok, s) := NvsManager.Esp32.remove nvs ns s key
    (done ok, s)
  | .eraseAll =>
    let (ok, s) := NvsManager.Esp32.eraseAll nvs s
    (done ok, s)

/-- Both builds, each with its store. -/
def onBoth (nvs : NvsFlash σ) (ns : Name) (t : HostNvs × σ) (call : NvsCall) :
    Option (HostNvs × σ) :=
  some ((onHost ns t.1 call).2, (onDevice nvs ns t.2 call).2)

def SameAnswer (nvs : NvsFlash σ) (ns : Name) (t : HostNvs × σ) (call : NvsCall) : Prop :=
  (onHost ns t.1 call).1 = (onDevice nvs ns t.2 call).1

/-- The keys of the call have at most ten characters. -/
def NvsCall.Short : NvsCall → Prop
  | .set key _ _ => key.length ≤ 10
  | .getBlob key _ _ => key.length ≤ 10
  | .getU8 key _ => key.length ≤ 10
  | .getU16 key _ => key.length ≤ 10
  | .getU32 key _ => key.length ≤ 10
  | .getString key _ => key.length ≤ 10
  | .remove key => key.length ≤ 10
  | .eraseAll => True

/-- The device's metadata of an entry, as `readEntry` takes it. -/
def metaOf (m : NvsMap) (ns key : Name) : Option (List UInt8) :=
  (m.blob ns (metaKey key)).filter (·.length ≤ nvsEntrySize)

/-- Writing `key` leaves what is read of the other entry: where the two share one of the device's
keys, a stored one finds there what it had, and one that is not stored does not become a pair. -/
def LeavesEntry (h : HostNvs) (m : NvsMap) (ns key : Name) (data : List UInt8)
    (version : UInt16) (other : Name) : Prop :=
  match h (composedKey ns other) with
  | some entry =>
    (metaKey other = key → data.length ≤ nvsEntrySize
      ∧ Crc32.compute entry.data = (NvsEntry.ofBytes data).crc32)
    ∧ (other = metaKey key → entry.data = (NvsEntry.make key data version).toBytes)
  | none =>
    (metaKey other = key → m.blob ns other = none ∨ nvsEntrySize < data.length)
    ∧ (other = metaKey key → metaOf m ns other = none)

/-- The call does what both builds do. -/
def Mirrored (view : σ → NvsMap) (ns : Name) (t : HostNvs × σ) : NvsCall → Prop
  | .set key value version => ∀ other, other.length ≤ 10 → other ≠ key →
    LeavesEntry t.1 (view t.2) ns key value.data version other
  | .getBlob key buf _ => ∀ entry, t.1 (composedKey ns key) = some entry →
    buf.length < entry.data.length
  | .remove key => t.1 (composedKey ns key) = none
    ∧ ∀ other, other.length ≤ 10 → metaKey other = key ∨ other = metaKey key →
      t.1 (composedKey ns other) = none
  | .eraseAll => ∀ key, key.length ≤ 10 → t.1 (composedKey ns key) = none
  | _ => True

/-! ## The host's record of a key and the device's -/

/-- The device reads the entry the host has stored, and nothing where it has none. -/
def Mirrors (h : HostNvs) (m : NvsMap) (ns key : Name) : Prop :=
  match h (composedKey ns key) with
  | some entry =>
    entry.crc32 = Crc32.compute entry.data ∧ ∃ version, m.Holds ns key entry.data version
  | none => m.blob ns key ≠ some [] ∧ (m.blob ns key = none ∨ metaOf m ns key = none)

/-- What the caller sees of a read: the version is dropped. -/
def visible (read : Bool × List UInt8 × UInt16) : Bool × List UInt8 := (read.1, read.2.1)

theorem composedKey_inj {ns key key' : Name} :
    composedKey ns key = composedKey ns key' ↔ key = key' := by
  constructor
  · exact List.append_cancel_left
  · exact congrArg _

theorem read_of_no_pair {m : NvsMap} {ns key : Name}
    (h : m.blob ns key = none ∨ metaOf m ns key = none) (buf : List UInt8) (version : UInt16) :
    m.read ns key buf version = (false, buf, version) := by
  rw [NvsMap.read]
  rcases h with h | h
  · rw [h]
    cases (m.blob ns (metaKey key)).filter (·.length ≤ nvsEntrySize) <;> rfl
  · rw [metaOf] at h
    rw [h]

/-- **A mirrored entry reads the same.** -/
theorem Mirrors.read {h : HostNvs} {m : NvsMap} {ns key : Name} (hm : Mirrors h m ns key)
    (buf : List UInt8) (version : UInt16) :
    visible (NvsManager.Host.readEntry ns h key buf version)
      = visible (m.read ns key buf version) := by
  unfold Mirrors at hm
  unfold NvsManager.Host.readEntry
  cases hentry : h (composedKey ns key) with
  | none =>
    rw [hentry] at hm
    rw [read_of_no_pair hm.2]
  | some entry =>
    rw [hentry] at hm
    obtain ⟨hcrc, ver, hholds⟩ := hm
    dsimp only
    by_cases hfit : entry.data.length ≤ buf.length
    · rw [if_neg (by omega), if_neg (by rw [hcrc]; exact fun hc => hc rfl),
        NvsMap.readsBack_iff.mpr hholds buf version hfit]
      rfl
    · obtain ⟨bytes, hmeta, hle, hdata, _⟩ := hholds
      rw [if_pos (by omega), NvsMap.read, hmeta, hdata, filter_fits hle, Option.filter_some,
        decide_eq_false hfit]
      rfl

theorem crc_of_mirrors {h : HostNvs} {m : NvsMap} {ns key : Name} (hm : Mirrors h m ns key)
    {entry : HostNvsEntry} (hentry : h (composedKey ns key) = some entry) :
    entry.crc32 = Crc32.compute entry.data := by
  rw [Mirrors, hentry] at hm
  exact hm.1

/-- Every key of at most ten characters is mirrored. -/
def MirrorsAll (h : HostNvs) (m : NvsMap) (ns : Name) : Prop :=
  ∀ key, key.length ≤ 10 → Mirrors h m ns key

/-! ## The same answers -/

section

variable {nvs : NvsFlash σ} {view : σ → NvsMap} (hmap : nvs.IsMap view)

include hmap

/-- The device's `getBlob` fails where nothing is stored, and where the buffer is too short. -/
theorem getBlob_fails {ns : Name} {s : σ} {key : Name} {buf : List UInt8} (version : UInt16)
    (h : (view s).blob ns key = none ∨ metaOf (view s) ns key = none
      ∨ ∃ data, (view s).blob ns key = some data ∧ buf.length < data.length) :
    NvsManager.Esp32.getBlob nvs ns s key buf version = (-1, buf, version) := by
  unfold NvsManager.Esp32.getBlob
  split
  · rfl
  · rw [hmap.blobLength]
    cases hblob : (view s).blob ns key with
    | none => rfl
    | some data =>
      dsimp only [Option.map_some]
      split
      · rfl
      · rename_i hfit
        have hmeta : metaOf (view s) ns key = none := by
          rcases h with h | h | ⟨data', h, hlong⟩
          · rw [hblob] at h
            exact absurd h (by simp)
          · exact h
          · rw [hblob] at h
            injection h with h
            rw [h] at hfit
            exact absurd hlong hfit
        rw [readEntry_eq hmap, read_of_no_pair (Or.inr hmeta)]
        rfl

/-- The device's `getBlob` returns a held entry that fits into the buffer. -/
theorem getBlob_reads {ns : Name} {s : σ} {key : Name} {buf data : List UInt8} {ver : UInt16}
    (version : UInt16) (hholds : (view s).Holds ns key data ver)
    (hfit : data.length ≤ buf.length) :
    NvsManager.Esp32.getBlob nvs ns s key buf version
      = (castInt data.length, data ++ buf.drop data.length, ver) := by
  have hread := readEntry_eq hmap ns s key buf version
  rw [NvsMap.readsBack_iff.mpr hholds buf version hfit] at hread
  obtain ⟨_, _, _, hdata, _⟩ := hholds
  have hopen : nvs.openReadOnly s ns = true := by
    refine hmap.readable s ns key ?_
    rw [NvsMap.blob_eq_some.mp hdata]
    exact Option.some_ne_none _
  unfold NvsManager.Esp32.getBlob
  rw [hopen, hmap.blobLength, hdata, hread]
  dsimp only [Option.map_some]
  rw [Bool.not_true, if_neg Bool.false_ne_true, if_neg (by omega), if_neg Bool.false_ne_true]

theorem sameAnswer_of_mirrors {ns : Name} (hlen : ns.length ≤ 15) {t : HostNvs × σ}
    (hall : MirrorsAll t.1 (view t.2) ns) {call : NvsCall} (hshort : call.Short)
    (hcall : Mirrored view ns t call) : SameAnswer nvs ns t call := by
  have hread : ∀ (f : Bool × List UInt8 → NvsAnswer) (key : Name) (buf : List UInt8),
      key.length ≤ 10 → f (visible (NvsManager.Host.readEntry ns t.1 key buf 0))
        = f (visible (NvsManager.Esp32.readEntry nvs ns t.2 key buf 0)) := by
    intro f key buf hkey
    rw [readEntry_eq hmap, (hall key hkey).read]
  cases call with
  | set key value version =>
    show done (value.hostCall ns t.1 key version).1 = done (value.call nvs ns t.2 key version).1
    rw [NvsSetter.hostCall_eq, NvsSetter.call_eq, (view_writeEntry hmap hlen _ _ _ _).1]
    rfl
  | getBlob key buf version =>
    have hfails : NvsManager.Esp32.getBlob nvs ns t.2 key buf version = (-1, buf, version) := by
      refine getBlob_fails hmap version ?_
      have hm := hall key hshort
      unfold Mirrors at hm
      cases hentry : t.1 (composedKey ns key) with
      | none =>
        rw [hentry] at hm
        exact hm.2.imp_right Or.inl
      | some entry =>
        rw [hentry] at hm
        obtain ⟨_, _, _, _, _, hdata, _⟩ := hm
        exact Or.inr (Or.inr ⟨entry.data, hdata, hcall entry hentry⟩)
    show _ = (onDevice nvs ns t.2 (.getBlob key buf version)).1
    rw [onDevice, hfails]
    rfl
  | getU8 key value => exact hread (fun r => u8 r.1 (r.2.getD 0 0)) key [value] hshort
  | getU16 key value => exact hread (fun r => u16 r.1 (halfAt r.2 0)) key _ hshort
  | getU32 key value => exact hread (fun r => u32 r.1 (wordAt r.2 0)) key _ hshort
  | getString key buf => exact hread (fun r => string r.1 r.2) key buf hshort
  | remove key =>
    show done true = done (NvsManager.Esp32.remove nvs ns t.2 key).1
    rw [(remove_view hmap hlen _ _).1]
  | eraseAll =>
    show done true = done (nvs.flashErase t.2).1
    rw [(hmap.flashErase _).1]

end

/-! ## What a call leaves -/

/-- What `writeEntry` leaves under a key of the namespace. -/
theorem write_at (m : NvsMap) (ns : Name) {key : Name} (hlen : key.length ≤ 10)
    (data : List UInt8) (version : UInt16) (x : Name) :
    (m.write ns key data version).blob ns x
      = if x = key then some data
        else if x = metaKey key then some (NvsEntry.make key data version).toBytes
        else m.blob ns x := by
  by_cases hkey : x = key
  · rw [if_pos hkey, hkey]
    exact (m.written_write ns hlen data version).2
  · rw [if_neg hkey]
    by_cases hmeta : x = metaKey key
    · rw [if_pos hmeta, hmeta]
      exact (m.written_write ns hlen data version).1
    · rw [if_neg hmeta, NvsMap.write, NvsMap.blob_congr (NvsMap.put_other_key _ hkey),
        NvsMap.blob_congr (NvsMap.put_other_key _ hmeta)]

/-- The entry that is written is mirrored. -/
theorem mirrors_written (h : HostNvs) (m : NvsMap) (ns : Name) {key : Name}
    (hlen : key.length ≤ 10) (data : List UInt8) (version : UInt16) :
    Mirrors (NvsManager.Host.writeEntry ns h key data version).2 (m.write ns key data version)
      ns key := by
  rw [Mirrors, show (NvsManager.Host.writeEntry ns h key data version).2 (composedKey ns key)
    = some { data, version, crc32 := Crc32.compute data } from if_pos rfl]
  exact ⟨rfl, version, (m.written_write ns hlen data version).holds⟩

/-- What a write leaves under the two keys of another entry. -/
theorem write_at_other (m : NvsMap) (ns : Name) {key other : Name} (hlen : key.length ≤ 10)
    (hother : other.length ≤ 10) (hne : other ≠ key) (data : List UInt8) (version : UInt16) :
    (m.write ns key data version).blob ns other
        = (if other = metaKey key then some (NvsEntry.make key data version).toBytes
          else m.blob ns other)
      ∧ (m.write ns key data version).blob ns (metaKey other)
        = if metaKey other = key then some data else m.blob ns (metaKey other) := by
  have hmetas : metaKey other ≠ metaKey key :=
    fun hc => hne (metaKey_inj (by omega) (by omega) hc)
  have hdata := write_at m ns hlen data version other
  have hmeta := write_at m ns hlen data version (metaKey other)
  rw [if_neg hne] at hdata
  rw [if_neg hmetas] at hmeta
  exact ⟨hdata, hmeta⟩

/-- A held entry is still held when a shared key got what it had. -/
theorem holds_write_iff {m : NvsMap} {ns key other : Name} (hlen : key.length ≤ 10)
    (hother : other.length ≤ 10) (hne : other ≠ key) (data : List UInt8) (version : UInt16)
    {stored : List UInt8} {ver : UInt16} (hm : m.Holds ns other stored ver) :
    (∃ ver', (m.write ns key data version).Holds ns other stored ver') ↔
      (metaKey other = key → data.length ≤ nvsEntrySize
        ∧ Crc32.compute stored = (NvsEntry.ofBytes data).crc32)
      ∧ (other = metaKey key → stored = (NvsEntry.make key data version).toBytes) := by
  obtain ⟨hdata, hmeta⟩ := write_at_other m ns hlen hother hne data version
  obtain ⟨bytes, hbytes, hle, hblob, hmatch, hver⟩ := hm
  constructor
  · rintro ⟨ver', bytes', hbytes', hle', hblob', hmatch', _⟩
    rw [hmeta] at hbytes'
    rw [hdata] at hblob'
    constructor
    · intro hshare
      rw [if_pos hshare] at hbytes'
      injection hbytes' with hbytes'
      rw [hbytes']
      exact ⟨hle', hmatch'⟩
    · intro hshare
      rw [if_pos hshare] at hblob'
      injection hblob' with hblob'
      exact hblob'.symm
  · rintro ⟨hasMeta, hasData⟩
    have hblob' : (m.write ns key data version).blob ns other = some stored := by
      rw [hdata]
      split
      · rename_i hshare
        rw [hasData hshare]
      · exact hblob
    by_cases hshare : metaKey other = key
    · rw [if_pos hshare] at hmeta
      obtain ⟨hle', hmatch'⟩ := hasMeta hshare
      exact ⟨_, data, hmeta, hle', hblob', hmatch', rfl⟩
    · rw [if_neg hshare] at hmeta
      exact ⟨ver, bytes, hmeta.trans hbytes, hle, hblob', hmatch, hver⟩

/-- Two keys that are no pair become none when a shared one completes no pair. -/
theorem no_pair_write_iff {m : NvsMap} {ns key other : Name} (hlen : key.length ≤ 10)
    (hother : other.length ≤ 10) (hne : other ≠ key) (data : List UInt8) (version : UInt16)
    (hm : m.blob ns other ≠ some [] ∧ (m.blob ns other = none ∨ metaOf m ns other = none)) :
    ((m.write ns key data version).blob ns other ≠ some []
        ∧ ((m.write ns key data version).blob ns other = none
          ∨ metaOf (m.write ns key data version) ns other = none)) ↔
      (metaKey other = key → m.blob ns other = none ∨ nvsEntrySize < data.length)
      ∧ (other = metaKey key → metaOf m ns other = none) := by
  obtain ⟨hdata, hmeta⟩ := write_at_other m ns hlen hother hne data version
  -- the two keys of the one cannot be the two of the other
  have hnot : metaKey other = key → other ≠ metaKey key := by
    intro h₁ h₂
    have hlens := congrArg List.length h₁
    rw [h₂, length_metaKey, length_metaKey] at hlens
    omega
  rw [metaOf, hmeta, hdata]
  by_cases hshareMeta : metaKey other = key
  · have hshareData := hnot hshareMeta
    rw [if_pos hshareMeta, if_neg hshareData]
    constructor
    · rintro ⟨_, hnone⟩
      refine ⟨fun _ => hnone.imp_right fun hlong => ?_, fun hc => absurd hc hshareData⟩
      rw [Option.filter_some] at hlong
      by_contra hle
      rw [decide_eq_true (by omega)] at hlong
      exact absurd hlong (by simp)
    · rintro ⟨hcond, _⟩
      refine ⟨hm.1, (hcond hshareMeta).imp_right fun hlong => ?_⟩
      rw [Option.filter_some, decide_eq_false (by omega)]
      rfl
  · rw [if_neg hshareMeta]
    by_cases hshareData : other = metaKey key
    · rw [if_pos hshareData]
      constructor
      · rintro ⟨_, hnone⟩
        refine ⟨fun hc => absurd hc hshareMeta, fun _ => hnone.resolve_left (by simp)⟩
      · rintro ⟨_, hcond⟩
        refine ⟨fun hc => NvsEntry.make_ne_nil key data version (Option.some.inj hc),
          Or.inr (hcond hshareData)⟩
    · rw [if_neg hshareData]
      exact ⟨fun _ => ⟨fun hc => absurd hc hshareMeta, fun hc => absurd hc hshareData⟩,
        fun _ => hm⟩

/-- **Another entry stays mirrored exactly when the write leaves it.** -/
theorem mirrors_write_iff {h : HostNvs} {m : NvsMap} {ns key other : Name}
    (hlen : key.length ≤ 10) (hother : other.length ≤ 10) (hne : other ≠ key)
    (data : List UInt8) (version : UInt16) (hm : Mirrors h m ns other) :
    Mirrors (NvsManager.Host.writeEntry ns h key data version).2 (m.write ns key data version)
        ns other
      ↔ LeavesEntry h m ns key data version other := by
  have hhost : (NvsManager.Host.writeEntry ns h key data version).2 (composedKey ns other)
      = h (composedKey ns other) := if_neg fun hc => hne (composedKey_inj.mp hc)
  rw [LeavesEntry, Mirrors, hhost]
  unfold Mirrors at hm
  cases hentry : h (composedKey ns other) with
  | some entry =>
    rw [hentry] at hm
    obtain ⟨hcrc, ver, hholds⟩ := hm
    have hiff := holds_write_iff hlen hother hne data version hholds
    exact ⟨fun hw => hiff.mp hw.2, fun hw => ⟨hcrc, hiff.mpr hw⟩⟩
  | none =>
    rw [hentry] at hm
    exact no_pair_write_iff hlen hother hne data version hm

/-- Keys that a read of any buffer leaves alone are no pair. -/
theorem no_pair_of_reads {m : NvsMap} {ns key : Name} (hfull : m.blob ns key ≠ some [])
    (hsame : ∀ buf, visible (m.read ns key buf 0) = (false, buf)) :
    m.blob ns key = none ∨ metaOf m ns key = none := by
  by_contra hpair
  obtain ⟨hdata, hmeta⟩ := not_or.mp hpair
  obtain ⟨data, hdata⟩ := Option.ne_none_iff_exists'.mp hdata
  obtain ⟨bytes, hmeta⟩ := Option.ne_none_iff_exists'.mp hmeta
  rw [metaOf] at hmeta
  -- a buffer of the data's length comes back with the data in it
  have hover : ∀ b : UInt8, List.replicate data.length b = data := by
    intro b
    have hbuf := congrArg (fun r => r.2) (hsame (List.replicate data.length b))
    rw [NvsMap.read, hmeta, hdata, filter_fits (by rw [List.length_replicate])] at hbuf
    dsimp only [visible] at hbuf
    rw [apply_ite (fun r : Bool × List UInt8 × UInt16 => r.2.1), ite_self,
      List.drop_of_length_le (by rw [List.length_replicate]), List.append_nil] at hbuf
    exact hbuf.symm
  have hboth := (hover 0).trans (hover 1).symm
  cases data with
  | nil => exact hfull hdata
  | cons byte data =>
    injection hboth with hbyte _
    exact absurd hbyte (by decide)

/-- What a read puts into every buffer it fits in is held. -/
theorem holds_of_reads {m : NvsMap} {ns key : Name} {stored : List UInt8}
    (hsame : ∀ buf, stored.length ≤ buf.length →
      visible (m.read ns key buf 0) = (true, stored ++ buf.drop stored.length)) :
    ∃ version, m.Holds ns key stored version := by
  cases hmeta : metaOf m ns key with
  | none =>
    have hbuf := hsame stored (Nat.le_refl _)
    rw [read_of_no_pair (Or.inr hmeta)] at hbuf
    exact absurd (congrArg (fun r => r.1) hbuf) (by simp [visible])
  | some bytes =>
    refine ⟨(NvsEntry.ofBytes bytes).version, NvsMap.readsBack_iff.mp fun buf version hfit => ?_⟩
    have hbuf := hsame buf hfit
    rw [metaOf] at hmeta
    unfold NvsMap.read at hbuf ⊢
    unfold visible at hbuf
    rw [hmeta] at hbuf ⊢
    cases hdata : (m.blob ns key).filter (·.length ≤ buf.length) with
    | none =>
      rw [hdata] at hbuf
      exact absurd (congrArg (fun r => r.1) hbuf) (by simp)
    | some data =>
      rw [hdata] at hbuf
      dsimp only at hbuf ⊢
      split at hbuf
      · rename_i hmatch
        injection hbuf with _ hbuf
        dsimp only at hbuf
        rw [if_pos hmatch, hbuf]
      · exact absurd (congrArg (fun r => r.1) hbuf) (by simp)

/-- **What reads the same is mirrored.** -/
theorem mirrors_of_reads {h : HostNvs} {m : NvsMap} {ns key : Name}
    (hcrc : ∀ entry, h (composedKey ns key) = some entry →
      entry.crc32 = Crc32.compute entry.data)
    (hfull : h (composedKey ns key) = none → m.blob ns key ≠ some [])
    (hsame : ∀ buf, visible (NvsManager.Host.readEntry ns h key buf 0)
      = visible (m.read ns key buf 0)) :
    Mirrors h m ns key := by
  unfold NvsManager.Host.readEntry at hsame
  rw [Mirrors]
  cases hentry : h (composedKey ns key) with
  | none =>
    rw [hentry] at hsame
    exact ⟨hfull hentry, no_pair_of_reads (hfull hentry) fun buf => (hsame buf).symm⟩
  | some entry =>
    rw [hentry] at hsame
    dsimp only at hsame
    refine ⟨hcrc entry hentry, holds_of_reads fun buf hfit => ?_⟩
    have hbuf := hsame buf
    rw [if_neg (by omega), if_neg (by rw [hcrc entry hentry]; exact fun hc => hc rfl)] at hbuf
    exact hbuf.symm

section

variable {nvs : NvsFlash σ} {view : σ → NvsMap} (hmap : nvs.IsMap view)

include hmap

theorem remove_at {ns : Name} (hlen : ns.length ≤ 15) (s : σ) (key x : Name) :
    (view (NvsManager.Esp32.remove nvs ns s key).2).blob ns x
      = if x = key ∨ x = metaKey key then none else (view s).blob ns x := by
  rw [NvsMap.blob, (remove_view hmap hlen s key).2]
  by_cases hmeta : x = metaKey key
  · rw [if_pos (Or.inr hmeta), hmeta, NvsMap.set_self]
  · rw [NvsMap.set_other_key _ hmeta]
    by_cases hkey : x = key
    · rw [if_pos (Or.inl hkey), hkey, NvsMap.set_self]
    · rw [NvsMap.set_other_key _ hkey, if_neg (not_or.mpr ⟨hkey, hmeta⟩)]
      rfl

/-- A `remove` of a key that is not stored keeps an entry mirrored that shares no key with it. -/
theorem mirrors_remove {ns : Name} (hlen : ns.length ≤ 15) {h : HostNvs} {s : σ}
    {key other : Name} (hkey : key.length ≤ 10) (hother : other.length ≤ 10)
    (hnone : h (composedKey ns key) = none)
    (hapart : metaKey other = key ∨ other = metaKey key → h (composedKey ns other) = none)
    (hm : Mirrors h (view s) ns other) :
    Mirrors h (view (NvsManager.Esp32.remove nvs ns s key).2) ns other := by
  have hdata := remove_at hmap hlen s key other
  have hmeta := remove_at hmap hlen s key (metaKey other)
  rw [Mirrors] at hm ⊢
  cases hentry : h (composedKey ns other) with
  | some entry =>
    rw [hentry] at hm
    have hne : other ≠ key := by
      rintro rfl
      exact absurd (hnone.symm.trans hentry) (by simp)
    obtain ⟨hmeta_ne, hdata_ne⟩ : metaKey other ≠ key ∧ other ≠ metaKey key :=
      not_or.mp fun hshare => absurd ((hapart hshare).symm.trans hentry) (by simp)
    have hmetas : metaKey other ≠ metaKey key :=
      fun hc => hne (metaKey_inj (by omega) (by omega) hc)
    rw [if_neg (not_or.mpr ⟨hne, hdata_ne⟩)] at hdata
    rw [if_neg (not_or.mpr ⟨hmeta_ne, hmetas⟩)] at hmeta
    obtain ⟨hcrc, ver, bytes, hbytes, hle, hblob, hmatch⟩ := hm
    exact ⟨hcrc, ver, bytes, hmeta.trans hbytes, hle, hdata.trans hblob, hmatch⟩
  | none =>
    rw [hentry] at hm
    constructor
    · rw [hdata]
      split
      · simp
      · exact hm.1
    · refine hm.2.imp (fun hvoid => ?_) (fun hvoid => ?_)
      · rw [hdata, hvoid, ite_self]
      · rw [metaOf, hmeta]
        split
        · rfl
        · exact hvoid

/-- **A call that both builds do keeps every key mirrored.** -/
theorem mirrors_step {ns : Name} (hlen : ns.length ≤ 15) {t t' : HostNvs × σ}
    (hall : MirrorsAll t.1 (view t.2) ns) {call : NvsCall} (hshort : call.Short)
    (hcall : Mirrored view ns t call) (hstep : onBoth nvs ns t call = some t') :
    MirrorsAll t'.1 (view t'.2) ns := by
  injection hstep with hstep
  subst hstep
  cases call with
  | set key value version =>
    show MirrorsAll (value.hostCall ns t.1 key version).2
      (view (value.call nvs ns t.2 key version).2) ns
    rw [NvsSetter.hostCall_eq, NvsSetter.call_eq, (view_writeEntry hmap hlen _ _ _ _).2]
    intro other hother
    by_cases hne : other = key
    · rw [hne]
      exact mirrors_written _ _ _ hshort _ _
    · exact (mirrors_write_iff hshort hother hne _ _ (hall other hother)).mpr
        (hcall other hother hne)
  | remove key =>
    exact fun other hother => mirrors_remove hmap hlen hshort hother hcall.1
      (hcall.2 other hother) (hall other hother)
  | eraseAll =>
    intro other hother
    show Mirrors t.1 (view (nvs.flashErase t.2).2) ns other
    rw [Mirrors, hcall other hother, (hmap.flashErase t.2).2]
    exact ⟨by simp [NvsMap.blob], Or.inl rfl⟩
  | getBlob _ _ _ => exact hall
  | getU8 _ _ => exact hall
  | getU16 _ _ => exact hall
  | getU32 _ _ => exact hall
  | getString _ _ => exact hall

/-! ## No other call is left out in vain -/

/-- The two builds give different answers to a `getString`. -/
def ReadsDiffer (nvs : NvsFlash σ) (ns : Name) (t : HostNvs × σ) : Prop :=
  ∃ key buf, key.length ≤ 10 ∧ ¬ SameAnswer nvs ns t (.getString key buf)

theorem read_of_sameAnswer {ns : Name} {t : HostNvs × σ} {key : Name} {buf : List UInt8}
    (h : SameAnswer nvs ns t (.getString key buf)) :
    visible (NvsManager.Host.readEntry ns t.1 key buf 0)
      = visible ((view t.2).read ns key buf 0) := by
  rw [← readEntry_eq hmap]
  have hsame : string (visible (NvsManager.Host.readEntry ns t.1 key buf 0)).1
        (visible (NvsManager.Host.readEntry ns t.1 key buf 0)).2
      = string (visible (NvsManager.Esp32.readEntry nvs ns t.2 key buf 0)).1
        (visible (NvsManager.Esp32.readEntry nvs ns t.2 key buf 0)).2 := h
  injection hsame with hok hbuf
  exact Prod.ext hok hbuf

/-- A record that the device does not mirror is read differently. -/
theorem readsDiffer_of_not_mirrors {ns : Name} {t : HostNvs × σ} {key : Name}
    (hkey : key.length ≤ 10)
    (hcrc : ∀ entry, t.1 (composedKey ns key) = some entry →
      entry.crc32 = Crc32.compute entry.data)
    (hfull : t.1 (composedKey ns key) = none → (view t.2).blob ns key ≠ some [])
    (h : ¬ Mirrors t.1 (view t.2) ns key) : ReadsDiffer nvs ns t := by
  by_contra hsame
  refine h (mirrors_of_reads hcrc hfull fun buf => read_of_sameAnswer hmap ?_)
  by_contra hdiffer
  exact hsame ⟨key, buf, hkey, hdiffer⟩

/-- One that the device has lost, too. -/
theorem readsDiffer_of_lost {ns : Name} {t : HostNvs × σ} {key : Name} (hkey : key.length ≤ 10)
    {entry : HostNvsEntry} (hentry : t.1 (composedKey ns key) = some entry)
    (hcrc : entry.crc32 = Crc32.compute entry.data)
    (h : (view t.2).blob ns key = none ∨ metaOf (view t.2) ns key = none) :
    ReadsDiffer nvs ns t := by
  refine readsDiffer_of_not_mirrors hmap hkey (fun entry' hentry' => ?_) (fun hnone => ?_) ?_
  · rw [hentry] at hentry'
    injection hentry' with hentry'
    rw [← hentry', hcrc]
  · rw [hentry] at hnone
    exact absurd hnone (by simp)
  · intro hm
    rw [Mirrors, hentry] at hm
    obtain ⟨_, _, bytes, hmeta, hle, hdata, _⟩ := hm
    rcases h with h | h
    · rw [hdata] at h
      exact absurd h (by simp)
    · rw [metaOf, hmeta, filter_fits hle] at h
      exact absurd h (by simp)

/-- **A call that not both builds do shows**, in its own answer or in a read after it. -/
theorem differ_of_not_mirrored {ns : Name} (hlen : ns.length ≤ 15) {t : HostNvs × σ}
    (hall : MirrorsAll t.1 (view t.2) ns) {call : NvsCall} (hshort : call.Short)
    (hfits : ∀ key entry, t.1 (composedKey ns key) = some entry → entry.data.length < 2147483648)
    (hcall : ¬ Mirrored view ns t call) :
    ¬ SameAnswer nvs ns t call
      ∨ ReadsDiffer nvs ns ((onHost ns t.1 call).2, (onDevice nvs ns t.2 call).2) := by
  cases call with
  | set key value version =>
    obtain ⟨other, hother⟩ := not_forall.mp hcall
    obtain ⟨hlenOther, hother⟩ := Classical.not_imp.mp hother
    obtain ⟨hne, hother⟩ := Classical.not_imp.mp hother
    have hm := hall other hlenOther
    rw [← mirrors_write_iff hshort hlenOther hne value.data version hm] at hother
    refine Or.inr ?_
    show ReadsDiffer nvs ns ((value.hostCall ns t.1 key version).2,
      (value.call nvs ns t.2 key version).2)
    rw [NvsSetter.hostCall_eq, NvsSetter.call_eq]
    have hview := (view_writeEntry hmap hlen t.2 key value.data version).2
    have hhost : (NvsManager.Host.writeEntry ns t.1 key value.data version).2
        (composedKey ns other) = t.1 (composedKey ns other) :=
      if_neg fun hc => hne (composedKey_inj.mp hc)
    refine readsDiffer_of_not_mirrors hmap hlenOther (fun entry hentry => ?_) (fun hnone => ?_) ?_
    · exact crc_of_mirrors hm (hhost.symm.trans hentry)
    · have hnone := hhost.symm.trans hnone
      dsimp only
      rw [hview, write_at _ _ hshort, if_neg hne]
      split
      · exact fun hc => NvsEntry.make_ne_nil _ _ _ (Option.some.inj hc)
      · rw [Mirrors, hnone] at hm
        exact hm.1
    · rw [hview]
      exact hother
  | getBlob key buf version =>
    refine Or.inl fun hsame => ?_
    obtain ⟨entry, hentry⟩ := not_forall.mp hcall
    obtain ⟨hentry, hfit⟩ := Classical.not_imp.mp hentry
    have hm := hall key hshort
    rw [Mirrors, hentry] at hm
    obtain ⟨_, ver, hholds⟩ := hm
    have hanswers : blob (-1) buf version = blob (castInt entry.data.length)
        (entry.data ++ buf.drop entry.data.length) ver := by
      have hsame : blob (-1) buf version = (onDevice nvs ns t.2 (.getBlob key buf version)).1 :=
        hsame
      rw [onDevice, getBlob_reads hmap version hholds (by omega)] at hsame
      exact hsame
    injection hanswers with hcount
    rw [castInt_of_lt (hfits key entry hentry)] at hcount
    omega
  | remove key =>
    refine Or.inr ?_
    have hkeyAt := remove_at hmap hlen t.2 key
    show ReadsDiffer nvs ns (t.1, (NvsManager.Esp32.remove nvs ns t.2 key).2)
    by_cases hstored : t.1 (composedKey ns key) = none
    · obtain ⟨other, hother⟩ := not_forall.mp fun hc => hcall ⟨hstored, hc⟩
      obtain ⟨hlenOther, hother⟩ := Classical.not_imp.mp hother
      obtain ⟨hshare, hother⟩ := Classical.not_imp.mp hother
      obtain ⟨entry, hentry⟩ := Option.ne_none_iff_exists'.mp hother
      refine readsDiffer_of_lost hmap hlenOther hentry
        (crc_of_mirrors (hall other hlenOther) hentry) ?_
      rcases hshare with hshare | hshare
      · refine Or.inr ?_
        rw [metaOf, hkeyAt, if_pos (Or.inl hshare)]
        rfl
      · exact Or.inl (by rw [hkeyAt, if_pos (Or.inr hshare)])
    · obtain ⟨entry, hentry⟩ := Option.ne_none_iff_exists'.mp hstored
      exact readsDiffer_of_lost hmap hshort hentry (crc_of_mirrors (hall key hshort) hentry)
        (Or.inl (by rw [hkeyAt, if_pos (Or.inl rfl)]))
  | eraseAll =>
    obtain ⟨key, hkey⟩ := not_forall.mp hcall
    obtain ⟨hlenKey, hkey⟩ := Classical.not_imp.mp hkey
    obtain ⟨entry, hentry⟩ := Option.ne_none_iff_exists'.mp hkey
    refine Or.inr (readsDiffer_of_lost hmap hlenKey hentry
      (crc_of_mirrors (hall key hlenKey) hentry) (Or.inl ?_))
    show (view (nvs.flashErase t.2).2).blob ns key = none
    rw [(hmap.flashErase t.2).2]
    rfl
  | getU8 _ _ => exact absurd trivial hcall
  | getU16 _ _ => exact absurd trivial hcall
  | getU32 _ _ => exact absurd trivial hcall
  | getString _ _ => exact absurd trivial hcall

end

/-! ## The theorem -/

/--
**The builds give the same answers while every call is one that both do.** From stores without
entries in the namespace, for keys of at most ten characters. And each call that is left out
shows: it is answered differently, or a `getString` after it is (as long as no entry has 2^31
bytes).
-/
theorem builds_agree {nvs : NvsFlash σ} {view : σ → NvsMap} (hmap : nvs.IsMap view) (name : Name)
    {h : HostNvs} {s : σ} (hhost : ∀ key, h (composedKey (namespaceOf name) key) = none)
    (hdevice : (view s).Empty (namespaceOf name)) {calls : List NvsCall}
    (hshort : ∀ call ∈ calls, call.Short)
    (hcalls : Along (onBoth nvs (namespaceOf name)) (Mirrored view (namespaceOf name)) (h, s)
      calls) :
    Along (onBoth nvs (namespaceOf name)) (SameAnswer nvs (namespaceOf name)) (h, s) calls ∧
    ∀ t, run (onBoth nvs (namespaceOf name)) (h, s) calls = some t → ∀ call, call.Short →
      (∀ key entry, t.1 (composedKey (namespaceOf name) key) = some entry →
        entry.data.length < 2147483648) →
      ¬ Mirrored view (namespaceOf name) t call →
      ¬ SameAnswer nvs (namespaceOf name) t call
        ∨ ReadsDiffer nvs (namespaceOf name)
          ((onHost (namespaceOf name) t.1 call).2,
            (onDevice nvs (namespaceOf name) t.2 call).2) := by
  have hlen := length_namespaceOf name
  have hstart : MirrorsAll h (view s) (namespaceOf name) := by
    intro key _
    rw [Mirrors, hhost]
    have hnone : (view s).blob (namespaceOf name) key = none := by rw [NvsMap.blob, hdevice key]
    exact ⟨by rw [hnone]; simp, Or.inl hnone⟩
  have halong := hcalls.and_forall hshort
  constructor
  · exact along_of_invariant (fun t => MirrorsAll t.1 (view t.2) (namespaceOf name))
      (fun _ _ _ hall hcall hstep => mirrors_step hmap hlen hall hcall.1 hcall.2 hstep)
      (fun _ _ hall hcall => sameAnswer_of_mirrors hmap hlen hall hcall.1 hcall.2) hstart halong
  · intro t hrun call hcallShort hfits hcall
    have hall := run_invariant (fun t => MirrorsAll t.1 (view t.2) (namespaceOf name))
      (fun _ _ _ hall hcall hstep => mirrors_step hmap hlen hall hcall.1 hcall.2 hstep)
      hstart halong hrun
    exact differ_of_not_mirrored hmap hlen hall hcallShort hfits hcall

instance (nvs : NvsFlash σ) (ns : Name) (t : HostNvs × σ) (call : NvsCall) :
    Decidable (SameAnswer nvs ns t call) := inferInstanceAs (Decidable (_ = _))

/-- A counter is set and read back on both. -/
theorem builds_agree_counter :
    Along (onBoth mapNvs (namespaceOf defaultNamespace))
      (SameAnswer mapNvs (namespaceOf defaultNamespace)) ((fun _ => none), {})
      [.set (ascii ['c', 'o', 'u', 'n', 't', 'e', 'r']) (.setU32 42) 1,
        .getU32 (ascii ['c', 'o', 'u', 'n', 't', 'e', 'r']) 0] := by
  have hempty : ∀ ns key, ListNvs.view {} ns key = none := by
    intro ns key
    simp [ListNvs.view]
  refine (builds_agree mapNvs_isMap defaultNamespace (fun _ => rfl) (hempty _) ?_ ?_).1
  · intro call hmem
    rcases List.mem_cons.mp hmem with rfl | hmem
    · exact (by decide : (ascii ['c', 'o', 'u', 'n', 't', 'e', 'r']).length ≤ 10)
    · rw [List.mem_singleton.mp hmem]
      exact (by decide : (ascii ['c', 'o', 'u', 'n', 't', 'e', 'r']).length ≤ 10)
  · refine ⟨fun other _ _ => ⟨fun _ => Or.inl ?_, fun _ => ?_⟩,
      fun _ _ => ⟨trivial, fun _ _ => trivial⟩⟩
    · rw [NvsMap.blob, hempty]
    · rw [metaOf, NvsMap.blob, hempty]
      rfl

/-- **A byte that was removed is still there on the host**, and `getBlob` finds it nowhere. -/
theorem builds_differ :
    ¬ Along (onBoth mapNvs (namespaceOf defaultNamespace))
        (SameAnswer mapNvs (namespaceOf defaultNamespace)) ((fun _ => none), {})
        [.set (ascii ['a']) (.setU8 1) 1, .remove (ascii ['a']), .getU8 (ascii ['a']) 0]
    ∧ ¬ Along (onBoth mapNvs (namespaceOf defaultNamespace))
        (SameAnswer mapNvs (namespaceOf defaultNamespace)) ((fun _ => none), {})
        [.set (ascii ['a']) (.setU8 1) 1, .getBlob (ascii ['a']) [0] 0] := by
  constructor <;> decide

end TaktOS.Proof
