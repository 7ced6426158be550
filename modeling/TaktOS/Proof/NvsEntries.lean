import Mathlib.Data.List.GetD
import Mathlib.Data.List.Infix
import TaktOS.Proof.NvsLaws

/-!
# Entries as pairs of blobs

What `writeEntry`, `readEntry` and `verifyIntegrity` do to the map and read off it. An entry is
two blobs, and `Holds` says when the two belong together: this is when the entry can be read.
-/

namespace TaktOS

open Lib

/-! ## Names -/

theorem strstr_iff (needle : Name) (hay : Name) : strstr needle hay = true ↔ needle <:+: hay := by
  induction hay with
  | nil => simp [strstr]
  | cons c cs ih =>
    rw [strstr, Bool.or_eq_true, ih, List.isPrefixOf_iff_prefix, List.infix_cons_iff]

@[simp] theorem length_metaSuffix : metaSuffix.length = 5 := rfl

theorem length_metaKey (key : Name) : (metaKey key).length = min 39 (key.length + 5) := by
  rw [metaKey, List.length_take, List.length_append, length_metaSuffix]

/-- The metadata's key is one that NVS takes when the key has at most ten characters. -/
theorem length_metaKey_le (key : Name) : (metaKey key).length ≤ 15 ↔ key.length ≤ 10 := by
  rw [length_metaKey]
  omega

theorem metaKey_of_short {key : Name} (h : key.length ≤ 34) : metaKey key = key ++ metaSuffix :=
  List.take_of_length_le (by rw [List.length_append, length_metaSuffix]; omega)

theorem metaKey_ne_self {key : Name} (h : key.length ≤ 34) : metaKey key ≠ key := by
  intro he
  have hlen := congrArg List.length he
  rw [length_metaKey] at hlen
  omega

theorem metaKey_inj {key key' : Name} (h : key.length ≤ 34) (h' : key'.length ≤ 34)
    (he : metaKey key = metaKey key') : key = key' := by
  rw [metaKey_of_short h, metaKey_of_short h'] at he
  exact List.append_cancel_right he

theorem strstr_metaKey {key : Name} (h : key.length ≤ 34) : strstr metaSuffix (metaKey key) := by
  rw [metaKey_of_short h, strstr_iff]
  exact (List.suffix_append key metaSuffix).isInfix

/-! ## The bytes of the metadata -/

@[simp] theorem length_padTo (n : Nat) (bs : List UInt8) : (padTo n bs).length = n := by
  rw [padTo, List.length_take, List.length_append, List.length_replicate]
  omega

theorem NvsEntry.length_toBytes {e : NvsEntry} (h : e.key.length = 32) :
    e.toBytes.length = nvsEntrySize := by
  rw [toBytes, List.length_append, List.length_append, List.length_append, h]
  rfl

/-- **The metadata is read back as it was written.** -/
theorem NvsEntry.ofBytes_toBytes {e : NvsEntry} (h : e.key.length = 32) :
    ofBytes e.toBytes = e := by
  obtain ⟨key, version, dataSize, crc32⟩ := e
  have hk : key.length = 32 := h
  have htail : ∀ i, (key ++ leHalfBytes version ++ leHalfBytes dataSize ++ leBytes crc32).getD
      (32 + i) 0 = (leHalfBytes version ++ leHalfBytes dataSize ++ leBytes crc32).getD i 0 := by
    intro i
    rw [List.append_assoc, List.append_assoc, List.getD_append_right _ _ _ _ (by omega), hk,
      Nat.add_sub_cancel_left, List.append_assoc]
  have hkey : padTo 32 (key ++ leHalfBytes version ++ leHalfBytes dataSize ++ leBytes crc32)
      = key := by
    rw [padTo, List.append_assoc, List.append_assoc, List.append_assoc, List.take_left' hk]
  have hversion := halfAt_leHalfBytes version
  have hsize := halfAt_leHalfBytes dataSize
  have hcrc := leWord_leByte crc32
  unfold ofBytes toBytes
  dsimp only
  rw [hkey]
  unfold halfAt wordAt at *
  rw [htail 0, htail 1, htail 2, htail 3, htail 4, htail 5, htail 6, htail 7]
  simp only [leHalfBytes, leBytes, List.cons_append, List.nil_append, List.getD_cons_zero,
    List.getD_cons_succ] at *
  rw [hversion, hsize, hcrc]

@[simp] theorem NvsEntry.length_make_key (key : Name) (data : List UInt8) (version : UInt16) :
    (make key data version).key.length = 32 := length_padTo _ _

@[simp] theorem NvsEntry.length_make (key : Name) (data : List UInt8) (version : UInt16) :
    (make key data version).toBytes.length = nvsEntrySize :=
  length_toBytes (length_make_key key data version)

theorem NvsEntry.make_ne_nil (key : Name) (data : List UInt8) (version : UInt16) :
    (make key data version).toBytes ≠ [] := by
  intro hnil
  have hlen := length_make key data version
  rw [hnil] at hlen
  exact absurd hlen (by decide)

@[simp] theorem NvsEntry.ofBytes_make (key : Name) (data : List UInt8) (version : UInt16) :
    ofBytes (make key data version).toBytes = make key data version :=
  ofBytes_toBytes (length_make_key key data version)

@[simp] theorem NvsEntry.length_ofBytes_key (bs : List UInt8) : (ofBytes bs).key.length = 32 :=
  length_padTo _ _

/-! ## Entries on the map -/

/-- The map after `writeEntry`. -/
def NvsMap.write (m : NvsMap) (ns key : Name) (data : List UInt8) (version : UInt16) : NvsMap :=
  (m.put ns (metaKey key) (NvsEntry.make key data version).toBytes).put ns key data

/-- What `readEntry` gives: the result, the buffer and the version. -/
def NvsMap.read (m : NvsMap) (ns key : Name) (buf : List UInt8) (version : UInt16) :
    Bool × List UInt8 × UInt16 :=
  match (m.blob ns (metaKey key)).filter (·.length ≤ nvsEntrySize),
    (m.blob ns key).filter (·.length ≤ buf.length) with
  | some bytes, some data =>
    if Crc32.compute data = (NvsEntry.ofBytes bytes).crc32 then
      (true, data ++ buf.drop data.length, (NvsEntry.ofBytes bytes).version)
    else (false, data ++ buf.drop data.length, version)
  | _, _ => (false, buf, version)

/-- `verifyIntegrity` goes on after the entry. -/
def NvsMap.sound (m : NvsMap) (ns key : Name) : Bool :=
  strstr metaSuffix key ||
    match (m.blob ns (metaKey key)).filter (·.length ≤ nvsEntrySize), m.blob ns key with
    | some bytes, some data => data.length ≤ (NvsEntry.ofBytes bytes).dataSize.toNat
      && Crc32.compute data = (NvsEntry.ofBytes bytes).crc32
    | _, _ => false

/-- The metadata of the entry counts no bytes while there are some: the check crashes. -/
def NvsMap.faults (m : NvsMap) (ns key : Name) : Bool :=
  !strstr metaSuffix key &&
    match (m.blob ns (metaKey key)).filter (·.length ≤ nvsEntrySize), m.blob ns key with
    | some bytes, some data => (NvsEntry.ofBytes bytes).dataSize = 0 && data ≠ []
    | _, _ => false

/-- What `verifyIntegrity` does at the entry. -/
def NvsMap.verdict (m : NvsMap) (ns key : Name) : Option Bool :=
  if m.faults ns key then none else some (m.sound ns key)

/-- The pair under the key is the data and metadata that describes it. -/
def NvsMap.Holds (m : NvsMap) (ns key : Name) (data : List UInt8) (version : UInt16) : Prop :=
  ∃ bytes, m.blob ns (metaKey key) = some bytes ∧ bytes.length ≤ nvsEntrySize ∧
    m.blob ns key = some data ∧ Crc32.compute data = (NvsEntry.ofBytes bytes).crc32 ∧
    (NvsEntry.ofBytes bytes).version = version

/-- The two blobs that `writeEntry` writes are both there. -/
def NvsMap.Written (m : NvsMap) (ns key : Name) (data : List UInt8) (version : UInt16) : Prop :=
  m.blob ns (metaKey key) = some (NvsEntry.make key data version).toBytes
    ∧ m.blob ns key = some data

/-- A read into any buffer that is long enough gives the data and the version. -/
def NvsMap.ReadsBack (m : NvsMap) (ns key : Name) (data : List UInt8) (version : UInt16) : Prop :=
  ∀ buf v, data.length ≤ buf.length →
    m.read ns key buf v = (true, data ++ buf.drop data.length, version)

/-- A blob that the buffer holds is read. -/
theorem filter_fits {data : List UInt8} {n : Nat} (h : data.length ≤ n) :
    (some data).filter (·.length ≤ n) = some data :=
  Option.filter_eq_some_iff.mpr ⟨rfl, decide_eq_true h⟩

/-- Two buffers that differ everywhere show which bytes of them were overwritten. -/
theorem eq_of_filled {data data' : List UInt8}
    (hzero : data' ++ (List.replicate data.length 0).drop data'.length = data)
    (hone : data' ++ (List.replicate data.length 1).drop data'.length = data) : data' = data := by
  have hsame := List.append_cancel_left (hzero.trans hone.symm)
  rw [List.drop_replicate, List.drop_replicate] at hsame
  cases hk : data.length - data'.length with
  | zero =>
    rw [List.drop_replicate, hk, List.replicate_zero, List.append_nil] at hzero
    exact hzero
  | succ k =>
    rw [hk, List.replicate_succ, List.replicate_succ] at hsame
    injection hsame with hbyte _
    exact absurd hbyte (by decide)

/-- **An entry can be read back exactly when its two blobs belong together.** -/
theorem NvsMap.readsBack_iff {m : NvsMap} {ns key : Name} {data : List UInt8} {version : UInt16} :
    m.ReadsBack ns key data version ↔ m.Holds ns key data version := by
  constructor
  · intro h
    have hzero := h (List.replicate data.length 0) 0 (by rw [List.length_replicate])
    have hone := h (List.replicate data.length 1) 0 (by rw [List.length_replicate])
    unfold read at hzero hone
    rw [List.length_replicate] at hzero hone
    rw [List.drop_of_length_le (by rw [List.length_replicate]), List.append_nil] at hzero hone
    split at hzero
    · rename_i bytes data' hmeta hdata
      rw [hmeta, hdata] at hone
      dsimp only at hone
      split at hzero
      · rename_i hcrc
        rw [if_pos hcrc] at hone
        obtain ⟨hmeta, hle⟩ := Option.filter_eq_some_iff.mp hmeta
        obtain ⟨hdata, _⟩ := Option.filter_eq_some_iff.mp hdata
        injection hzero with _ hzero
        injection hzero with hzero hversion
        injection hone with _ hone
        injection hone with hone _
        cases eq_of_filled hzero hone
        exact ⟨bytes, hmeta, of_decide_eq_true hle, hdata, hcrc, hversion⟩
      · injection hzero with hfalse _
        exact Bool.noConfusion hfalse
    · injection hzero with hfalse _
      exact Bool.noConfusion hfalse
  · rintro ⟨bytes, hmeta, hle, hdata, hcrc, hversion⟩ buf v hbuf
    rw [read, hmeta, hdata, filter_fits hle, filter_fits hbuf]
    dsimp only
    rw [if_pos hcrc, hversion]

/-- An entry whose metadata has a key that NVS takes is written whole. -/
theorem NvsMap.written_write (m : NvsMap) (ns : Name) {key : Name} (hk : key.length ≤ 10)
    (data : List UInt8) (version : UInt16) :
    (m.write ns key data version).Written ns key data version := by
  constructor
  · rw [write, blob_congr (put_other_key _ (metaKey_ne_self (by omega)))]
    exact blob_put_self m _ ((length_metaKey_le key).mpr hk)
  · exact blob_put_self _ _ (by omega)

theorem NvsMap.Written.holds {m : NvsMap} {ns key : Name} {data : List UInt8}
    {version : UInt16} (h : m.Written ns key data version) : m.Holds ns key data version := by
  refine ⟨_, h.1, ?_, h.2, ?_, ?_⟩
  · rw [NvsEntry.length_make]
  · rw [NvsEntry.ofBytes_make]
    rfl
  · rw [NvsEntry.ofBytes_make]
    rfl

theorem NvsMap.read_congr {m m' : NvsMap} {ns key : Name}
    (hmeta : m'.blob ns (metaKey key) = m.blob ns (metaKey key))
    (hdata : m'.blob ns key = m.blob ns key) (buf : List UInt8) (version : UInt16) :
    m'.read ns key buf version = m.read ns key buf version := by
  rw [read, read, hmeta, hdata]

theorem NvsMap.sound_congr {m m' : NvsMap} {ns key : Name}
    (hmeta : m'.blob ns (metaKey key) = m.blob ns (metaKey key))
    (hdata : m'.blob ns key = m.blob ns key) : m'.sound ns key = m.sound ns key := by
  rw [sound, sound, hmeta, hdata]

theorem NvsMap.verdict_congr {m m' : NvsMap} {ns key : Name}
    (hmeta : m'.blob ns (metaKey key) = m.blob ns (metaKey key))
    (hdata : m'.blob ns key = m.blob ns key) : m'.verdict ns key = m.verdict ns key := by
  rw [verdict, verdict, faults, faults, sound_congr hmeta hdata, hmeta, hdata]

/-- An entry that crashes the check does not pass it. -/
theorem NvsMap.not_sound_of_faults {m : NvsMap} {ns key : Name} (h : m.faults ns key = true) :
    m.sound ns key = false := by
  rw [faults, Bool.and_eq_true, Bool.not_eq_true'] at h
  obtain ⟨hplain, h⟩ := h
  rw [sound, hplain, Bool.false_or]
  split at h
  · rename_i bytes data hmeta hdata
    rw [Bool.and_eq_true, decide_eq_true_iff, decide_eq_true_iff] at h
    have hle : ¬ data.length ≤ (NvsEntry.ofBytes bytes).dataSize.toNat := by
      rw [h.1]
      exact Nat.not_le.mpr (List.length_pos_of_ne_nil h.2)
    rw [decide_eq_false hle, Bool.false_and]
  · exact Bool.noConfusion h

theorem NvsMap.verdict_true_iff {m : NvsMap} {ns key : Name} :
    m.verdict ns key = some true ↔ m.sound ns key = true := by
  rw [verdict]
  cases hfaults : m.faults ns key with
  | false => rw [if_neg Bool.false_ne_true, Option.some_inj]
  | true => simp [not_sound_of_faults hfaults]

theorem NvsMap.verdict_none_iff {m : NvsMap} {ns key : Name} :
    m.verdict ns key = none ↔ m.faults ns key = true := by
  rw [verdict]
  cases m.faults ns key with
  | false => simp
  | true => simp

/-- NVS takes every namespace that `init` was given. -/
theorem length_namespaceOf (name : Name) : (NvsManager.namespaceOf name).length ≤ 15 :=
  List.length_take_le _ _

/-! ## What the calls do to the map -/

/-- A `readEntry` into any buffer that is long enough gives the data and the version. -/
def NvsManager.Esp32.ReadsBack {σ : Type} (nvs : NvsFlash σ) (ns : Name) (s : σ) (key : Name)
    (data : List UInt8) (version : UInt16) : Prop :=
  ∀ buf v, data.length ≤ buf.length → NvsManager.Esp32.readEntry nvs ns s key buf v
    = (true, data ++ buf.drop data.length, version)

section

variable {σ : Type} {nvs : NvsFlash σ} {view : σ → NvsMap} (hmap : nvs.IsMap view)

include hmap

theorem view_writeEntry {ns : Name} (hns : ns.length ≤ 15) (s : σ) (key : Name)
    (data : List UInt8) (version : UInt16) :
    (NvsManager.Esp32.writeEntry nvs ns s key data version).1 = true ∧
    view (NvsManager.Esp32.writeEntry nvs ns s key data version).2
      = (view s).write ns key data version := by
  obtain ⟨hok, hopen⟩ := hmap.openReadWrite s ns hns
  unfold NvsManager.Esp32.writeEntry
  dsimp only
  rw [hok, Bool.not_true, if_neg Bool.false_ne_true, (hmap.commit _ _).1, (hmap.commit _ _).2,
    (hmap.setBlob _ _ _ _).2, (hmap.setBlob _ _ _ _).2, hopen]
  exact ⟨rfl, rfl⟩

/-- A namespace that cannot be opened holds nothing. -/
theorem IsMap.blob_of_closed {s : σ} {ns : Name} (h : nvs.openReadOnly s ns = false)
    (key : Name) : (view s).blob ns key = none := by
  by_cases hnone : view s ns key = none
  · rw [NvsMap.blob, hnone]
  · have hopen := hmap.readable s ns key hnone
    rw [h] at hopen
    exact absurd hopen Bool.false_ne_true

theorem readEntry_eq (ns : Name) (s : σ) (key : Name) (buf : List UInt8) (version : UInt16) :
    NvsManager.Esp32.readEntry nvs ns s key buf version = (view s).read ns key buf version := by
  unfold NvsManager.Esp32.readEntry NvsMap.read
  cases hopen : nvs.openReadOnly s ns with
  | false =>
    rw [IsMap.blob_of_closed hmap hopen, IsMap.blob_of_closed hmap hopen]
    rfl
  | true =>
    rw [hmap.getBlob, hmap.getBlob, Bool.not_true, if_neg Bool.false_ne_true]
    cases hm : ((view s).blob ns (metaKey key)).filter (·.length ≤ nvsEntrySize) with
    | none => rfl
    | some bytes =>
      cases hd : ((view s).blob ns key).filter (·.length ≤ buf.length) with
      | none => rfl
      | some data =>
        dsimp only
        rw [ite_not]

/-- A key whose entry can be read leaves room for the suffix. -/
theorem short_of_holds {ns : Name} {s : σ} {key : Name} {data : List UInt8} {version : UInt16}
    (h : (view s).Holds ns key data version) : key.length ≤ 10 := by
  obtain ⟨bytes, hmeta, _⟩ := h
  refine (length_metaKey_le key).mp (hmap.short s ns (metaKey key) ?_)
  rw [NvsMap.blob_eq_some.mp hmeta]
  exact Option.some_ne_none _

/-- The entry can be read by the device build exactly when the pair in the partition matches. -/
theorem readsBack_iff {ns : Name} {s : σ} {key : Name} {data : List UInt8} {version : UInt16} :
    NvsManager.Esp32.ReadsBack nvs ns s key data version ↔ (view s).Holds ns key data version := by
  rw [← NvsMap.readsBack_iff, NvsManager.Esp32.ReadsBack, NvsMap.ReadsBack]
  simp only [readEntry_eq hmap]

theorem verifyKey_eq (ns : Name) (s : σ) (key : Name) :
    NvsManager.Esp32.verifyKey nvs ns s key = (view s).verdict ns key := by
  unfold NvsManager.Esp32.verifyKey NvsMap.verdict NvsMap.faults NvsMap.sound
  cases hsuffix : strstr metaSuffix key with
  | true => rfl
  | false =>
    rw [if_neg Bool.false_ne_true, Bool.false_or, Bool.not_false, Bool.true_and, hmap.getBlob]
    cases hm : ((view s).blob ns (metaKey key)).filter (·.length ≤ nvsEntrySize) with
    | none => rfl
    | some bytes =>
      dsimp only
      rw [hmap.getBlob, hmap.blobLength]
      cases hd : (view s).blob ns key with
      | none => split <;> rfl
      | some data =>
        dsimp only [Option.map_some]
        by_cases hzero : (NvsEntry.ofBytes bytes).dataSize = 0
        · rw [if_pos hzero]
          cases data with
          | nil => simp [hzero]
          | cons byte rest => simp [hzero]
        · have hnone : ¬ (decide ((NvsEntry.ofBytes bytes).dataSize = 0)
              && decide (data ≠ [])) = true := by
            simp [hzero]
          rw [if_neg hzero, if_neg hnone, Option.filter_some]
          by_cases hle : data.length ≤ (NvsEntry.ofBytes bytes).dataSize.toNat
          · rw [decide_eq_true hle, if_pos rfl, Bool.true_and]
          · rw [decide_eq_false hle, if_neg Bool.false_ne_true, Bool.false_and]

omit hmap in
theorem verifyKeys_true_iff (ns : Name) (s : σ) (keys : List Name) :
    NvsManager.Esp32.verifyKeys nvs ns s keys = some true
      ↔ ∀ key ∈ keys, NvsManager.Esp32.verifyKey nvs ns s key = some true := by
  induction keys with
  | nil => simp [NvsManager.Esp32.verifyKeys]
  | cons key keys ih =>
    rw [NvsManager.Esp32.verifyKeys, List.forall_mem_cons, ← ih]
    split
    · rename_i hkey
      rw [hkey, eq_self, true_and]
    · rename_i hkey
      exact ⟨fun h => absurd h hkey, fun h => absurd h.1 hkey⟩

omit hmap in
/-- When all other entries pass, the loop ends as it does at the one that is left. -/
theorem verifyKeys_of_others {ns : Name} {s : σ} {key : Name} {keys : List Name}
    (hothers : ∀ x ∈ keys, x ≠ key → NvsManager.Esp32.verifyKey nvs ns s x = some true)
    (hmem : key ∈ keys) :
    NvsManager.Esp32.verifyKeys nvs ns s keys = NvsManager.Esp32.verifyKey nvs ns s key := by
  induction keys with
  | nil => cases hmem
  | cons x keys ih =>
    have hrest := fun y hy => hothers y (List.mem_cons_of_mem x hy)
    rw [NvsManager.Esp32.verifyKeys]
    split
    · rename_i hx
      by_cases hin : key ∈ keys
      · exact ih hrest hin
      · have hkey : key = x := (List.mem_cons.mp hmem).resolve_right hin
        rw [hkey, hx, verifyKeys_true_iff]
        exact fun y hy => hrest y hy fun he => hin (he ▸ hy)
    · rename_i hx
      by_cases hkey : x = key
      · rw [hkey]
      · exact absurd (hothers x List.mem_cons_self hkey) hx

omit hmap in
/-- The loop crashes at the first entry that does not pass, or not at all. -/
theorem verifyKeys_none_iff (ns : Name) (s : σ) (keys : List Name) :
    NvsManager.Esp32.verifyKeys nvs ns s keys = none
      ↔ ∃ before key after, keys = before ++ key :: after
        ∧ (∀ x ∈ before, NvsManager.Esp32.verifyKey nvs ns s x = some true)
        ∧ NvsManager.Esp32.verifyKey nvs ns s key = none := by
  induction keys with
  | nil => simp [NvsManager.Esp32.verifyKeys]
  | cons key keys ih =>
    rw [NvsManager.Esp32.verifyKeys]
    split
    · rename_i hkey
      rw [ih]
      constructor
      · rintro ⟨before, x, after, rfl, hbefore, hx⟩
        exact ⟨key :: before, x, after, rfl, List.forall_mem_cons.mpr ⟨hkey, hbefore⟩, hx⟩
      · rintro ⟨before, x, after, heq, hbefore, hx⟩
        cases before with
        | nil =>
          cases heq
          rw [hkey] at hx
          cases hx
        | cons y before =>
          cases heq
          exact ⟨before, x, after, rfl, (List.forall_mem_cons.mp hbefore).2, hx⟩
    · rename_i hkey
      constructor
      · exact fun hnone => ⟨[], key, keys, rfl, List.forall_mem_nil _, hnone⟩
      · rintro ⟨before, x, after, heq, hbefore, hx⟩
        cases before with
        | nil =>
          cases heq
          exact hx
        | cons y before =>
          cases heq
          exact absurd (List.forall_mem_cons.mp hbefore).1 hkey

end

end TaktOS
