import TaktOS.Proof.NvsBuilds
import TaktOS.Proof.NvsReports

/-!
# Typed reads

Every getter is `readEntry` into a buffer, which holds no more than the width of the type: an entry
that is shorter is copied over the front of the variable, and one whose CRC is wrong is copied
before the CRC is looked at. `readStored` is what is common to the two builds, and the getters are
read off it.
-/

namespace TaktOS.Proof

open Lib
open NvsManager (namespaceOf defaultNamespace)
open NvsManager.Host (composedKey)

variable {σ : Type}

/-- The entry that the device's `readEntry` finds under the key. -/
def storedAt (m : NvsMap) (ns key : Name) : Option HostNvsEntry :=
  match metaOf m ns key, m.blob ns key with
  | some bytes, some data => some {
      data, version := (NvsEntry.ofBytes bytes).version, crc32 := (NvsEntry.ofBytes bytes).crc32 }
  | _, _ => none

/-- The entries of the host's map. -/
def hostStored (ns : Name) (h : HostNvs) : Name → Option HostNvsEntry :=
  fun key => h (composedKey ns key)

/-- The data is what its CRC was made for. -/
def Intact (e : HostNvsEntry) : Prop := Crc32.compute e.data = e.crc32

instance (e : HostNvsEntry) : Decidable (Intact e) :=
  inferInstanceAs (Decidable (Crc32.compute e.data = e.crc32))

/-- The result of a read of an entry, and the buffer afterwards. -/
def readStored (entry : Option HostNvsEntry) (buf : List UInt8) : Bool × List UInt8 :=
  match entry with
  | none => (false, buf)
  | some e =>
    if e.data.length > buf.length then (false, buf)
    else (decide (Intact e), e.data ++ buf.drop e.data.length)

/-! ## Variables as bytes -/

/-- A variable of a type with a fixed width is its bytes. -/
structure Packing (β : Type) (width : Nat) where
  encode : β → List UInt8
  decode : List UInt8 → β
  length_encode : ∀ x, (encode x).length = width
  decode_encode : ∀ x, decode (encode x) = x
  encode_decode : ∀ bs, bs.length = width → encode (decode bs) = bs

def bytePacking : Packing UInt8 1 where
  encode x := [x]
  decode bs := bs.getD 0 0
  length_encode _ := rfl
  decode_encode _ := rfl
  encode_decode bs h := by
    obtain ⟨a, rfl⟩ := List.length_eq_one_iff.mp h
    rfl

def halfPacking : Packing UInt16 2 where
  encode := leHalfBytes
  decode bs := halfAt bs 0
  length_encode _ := rfl
  decode_encode := halfAt_leHalfBytes
  encode_decode _ := leHalfBytes_halfAt

def wordPacking : Packing UInt32 4 where
  encode := leBytes
  decode bs := wordAt bs 0
  length_encode _ := rfl
  decode_encode := leWord_leByte
  encode_decode _ := leBytes_wordAt

/-! ## What a call should do -/

/-- An integer is read exactly when the entry is intact and of its width. -/
structure ExactRead {β : Type} {width : Nat} (l : Packing β width) (entry : Option HostNvsEntry)
    (ok : Bool) (before after : β) : Prop where
  answer : ok = true ↔ ∃ e, entry = some e ∧ Intact e ∧ e.data.length = width
  value : ok = true → ∀ e, entry = some e → after = l.decode e.data
  kept : ok = false → after = before

/-- The answer that the call should have, by the entries that are stored. -/
def TypedRead (stored : Name → Option HostNvsEntry) : NvsCall → NvsAnswer → Prop
  | .getU8 key value, .u8 ok value' => ExactRead bytePacking (stored key) ok value value'
  | .getU16 key value, .u16 ok value' => ExactRead halfPacking (stored key) ok value value'
  | .getU32 key value, .u32 ok value' => ExactRead wordPacking (stored key) ok value value'
  | .getString _ buf, .string ok buf' => ok = false → buf' = buf
  | .getBlob _ buf _, .blob count buf' _ => count < 0 → buf' = buf
  | _, _ => True

/-- An entry that goes into the variable is intact and fills it, or has the bytes that are there. -/
def FillsOrKeeps (entry : Option HostNvsEntry) (buf : List UInt8) : Prop :=
  ∀ e ∈ entry, e.data.length ≤ buf.length →
    if Intact e then e.data.length = buf.length else e.data <+: buf

/-- An entry that goes into the buffer and is refused has the bytes that are there. -/
def RefusedKeeps (refused : HostNvsEntry → Prop) (entry : Option HostNvsEntry) (buf : List UInt8) :
    Prop :=
  ∀ e ∈ entry, e.data.length ≤ buf.length → refused e → e.data <+: buf

/-- The entry that the call reads, if there is one, is one that it reads as it should. -/
def ReadsTyped (stored : Name → Option HostNvsEntry) : NvsCall → Prop
  | .getU8 key value => FillsOrKeeps (stored key) (bytePacking.encode value)
  | .getU16 key value => FillsOrKeeps (stored key) (halfPacking.encode value)
  | .getU32 key value => FillsOrKeeps (stored key) (wordPacking.encode value)
  | .getString key buf => RefusedKeeps (fun e => ¬ Intact e) (stored key) buf
  -- the length is returned as an `int`
  | .getBlob key buf _ =>
    RefusedKeeps (fun e => ¬ Intact e ∨ castInt e.data.length < 0) (stored key) buf
  | _ => True

instance (entry : Option HostNvsEntry) (buf : List UInt8) :
    Decidable (FillsOrKeeps entry buf) := Option.decidableForallMem entry

instance (refused : HostNvsEntry → Prop) [DecidablePred refused] (entry : Option HostNvsEntry)
    (buf : List UInt8) : Decidable (RefusedKeeps refused entry buf) :=
  Option.decidableForallMem entry

instance (stored : Name → Option HostNvsEntry) : ∀ call, Decidable (ReadsTyped stored call)
  | .getU8 .. | .getU16 .. | .getU32 .. => inferInstanceAs (Decidable (FillsOrKeeps ..))
  | .getString .. | .getBlob .. => inferInstanceAs (Decidable (RefusedKeeps ..))
  | .set .. | .remove .. | .eraseAll => isTrue trivial

/-! ## A read of an entry -/

theorem append_drop_eq_iff (data buf : List UInt8) :
    data ++ buf.drop data.length = buf ↔ data <+: buf :=
  List.prefix_iff_eq_append.symm

/-- What a read leaves of a buffer has its length. -/
theorem length_readStored (entry : Option HostNvsEntry) (buf : List UInt8) :
    (readStored entry buf).2.length = buf.length := by
  unfold readStored
  split
  · rfl
  · split
    · rfl
    · rename_i e h
      rw [List.length_append, List.length_drop]
      omega

/-- An entry of the buffer's length replaces it. -/
theorem readStored_full {e : HostNvsEntry} {buf : List UInt8} (h : e.data.length = buf.length) :
    (readStored (some e) buf).2 = e.data := by
  rw [readStored, if_neg (by omega), h, List.drop_length, List.append_nil]

/-- A refused read keeps the buffer. -/
theorem readStored_kept (entry : Option HostNvsEntry) (buf : List UInt8) :
    ((readStored entry buf).1 = false → (readStored entry buf).2 = buf)
      ↔ RefusedKeeps (fun e => ¬ Intact e) entry buf := by
  unfold readStored RefusedKeeps
  cases entry with
  | none => simp
  | some e =>
    by_cases hfit : e.data.length ≤ buf.length
    · simp [hfit, Nat.not_lt_of_le hfit, append_drop_eq_iff]
    · simp [hfit, Nat.lt_of_not_le hfit]

/-- The result says that the entry is intact and of the width, while no entry that is shorter and
intact is read. -/
theorem readStored_answer (entry : Option HostNvsEntry) {buf : List UInt8} {width : Nat}
    (h : buf.length = width) :
    ((readStored entry buf).1 = true ↔ ∃ e, entry = some e ∧ Intact e ∧ e.data.length = width)
      ↔ ∀ e, entry = some e → e.data.length ≤ buf.length → Intact e →
        e.data.length = buf.length := by
  subst h
  unfold readStored
  cases entry with
  | none => simp
  | some e =>
    by_cases hfit : e.data.length ≤ buf.length
    · simp [hfit, Nat.not_lt_of_le hfit]
    · have hne : e.data.length ≠ buf.length := fun h => hfit (Nat.le_of_eq h)
      simp [hfit, Nat.lt_of_not_le hfit, hne]

/-- **An integer is read exactly** when the entry fills the variable or leaves it. -/
theorem exactRead_iff {β : Type} {width : Nat} (l : Packing β width)
    (entry : Option HostNvsEntry) (value : β) :
    ExactRead l entry (readStored entry (l.encode value)).1 value
        (l.decode (readStored entry (l.encode value)).2)
      ↔ FillsOrKeeps entry (l.encode value) := by
  have hwidth := l.length_encode value
  have hkept : l.decode (readStored entry (l.encode value)).2 = value ↔
      (readStored entry (l.encode value)).2 = l.encode value := by
    constructor
    · intro h
      rw [← l.encode_decode _ ((length_readStored _ _).trans hwidth), h]
    · intro h
      rw [h, l.decode_encode]
  constructor
  · rintro ⟨hanswer, _, hfalse⟩ e he hle
    split
    · rename_i hin
      exact (readStored_answer entry hwidth).mp hanswer e he hle hin
    · rename_i hin
      exact (readStored_kept entry _).mp (fun h => hkept.mp (hfalse h)) e he hle hin
  · intro h
    have hanswer : (readStored entry (l.encode value)).1 = true ↔
        ∃ e, entry = some e ∧ Intact e ∧ e.data.length = width := by
      refine (readStored_answer entry hwidth).mpr fun e he hle hin => ?_
      have hfill := h e he hle
      rwa [if_pos hin] at hfill
    refine ⟨hanswer, ?_, ?_⟩
    · intro hok e he
      obtain ⟨e', he', _, hfull⟩ := hanswer.mp hok
      obtain rfl : e' = e := Option.some.inj (he'.symm.trans he)
      rw [he, readStored_full (hfull.trans hwidth.symm)]
    · intro hfalse
      refine hkept.mpr ((readStored_kept entry _).mpr (fun e he hle hin => ?_) hfalse)
      have hkeep := h e he hle
      rwa [if_neg hin] at hkeep

/-- A getter that is a read into the variable's bytes. -/
theorem typedRead_iff {β : Type} {width : Nat} (l : Packing β width) {entry : Option HostNvsEntry}
    {value : β} {read : Bool × List UInt8 × UInt16}
    (hread : visible read = readStored entry (l.encode value)) :
    ExactRead l entry read.1 value (l.decode read.2.1) ↔ FillsOrKeeps entry (l.encode value) := by
  obtain ⟨hok, hbuf⟩ := Prod.ext_iff.mp hread
  rw [show read.1 = _ from hok, show read.2.1 = _ from hbuf]
  exact exactRead_iff l entry value

/-- A getter that is a read into the caller's buffer. -/
theorem stringRead_iff {entry : Option HostNvsEntry} {buf : List UInt8}
    {read : Bool × List UInt8 × UInt16} (hread : visible read = readStored entry buf) :
    (read.1 = false → read.2.1 = buf) ↔ RefusedKeeps (fun e => ¬ Intact e) entry buf := by
  obtain ⟨hok, hbuf⟩ := Prod.ext_iff.mp hread
  rw [show read.1 = _ from hok, show read.2.1 = _ from hbuf]
  exact readStored_kept entry buf

/-! ## The two builds -/

theorem host_readEntry_eq (ns : Name) (h : HostNvs) (key : Name) (buf : List UInt8)
    (version : UInt16) :
    visible (NvsManager.Host.readEntry ns h key buf version)
      = readStored (h (composedKey ns key)) buf := by
  unfold NvsManager.Host.readEntry readStored visible
  cases h (composedKey ns key) with
  | none => rfl
  | some e =>
    dsimp only
    split
    · rfl
    · split
      · rename_i hcrc
        rw [decide_eq_false (show ¬ Intact e from hcrc)]
      · rename_i hcrc
        rw [decide_eq_true (show Intact e from not_not.mp hcrc)]

theorem storedAt_none {m : NvsMap} {ns key : Name}
    (h : m.blob ns key = none ∨ metaOf m ns key = none) : storedAt m ns key = none := by
  rw [storedAt]
  rcases h with hnone | hnone
  · rw [hnone]
    cases metaOf m ns key <;> rfl
  · rw [hnone]

/-- What is stored is the blob, described by the metadata. -/
theorem storedAt_data {m : NvsMap} {ns key : Name} {e : HostNvsEntry}
    (h : storedAt m ns key = some e) : m.blob ns key = some e.data := by
  rw [storedAt] at h
  split at h
  · rename_i hdata
    rw [hdata, ← Option.some.inj h]
  · exact absurd h (by simp)

theorem map_read_eq (m : NvsMap) (ns key : Name) (buf : List UInt8) (version : UInt16) :
    visible (m.read ns key buf version) = readStored (storedAt m ns key) buf := by
  by_cases hpair : m.blob ns key = none ∨ metaOf m ns key = none
  · rw [read_of_no_pair hpair, storedAt_none hpair]
    rfl
  · obtain ⟨hdata, hmeta⟩ := not_or.mp hpair
    obtain ⟨data, hdata⟩ := Option.ne_none_iff_exists'.mp hdata
    obtain ⟨bytes, hmeta⟩ := Option.ne_none_iff_exists'.mp hmeta
    rw [storedAt, hmeta, hdata]
    rw [metaOf] at hmeta
    rw [NvsMap.read, hmeta, hdata]
    by_cases hfit : data.length ≤ buf.length
    · rw [filter_fits hfit]
      simp only [readStored, if_neg (Nat.not_lt_of_le hfit), gt_iff_lt]
      split
      · rename_i hcrc
        simp [visible, Intact, hcrc]
      · rename_i hcrc
        simp [visible, Intact, hcrc]
    · rw [Option.filter_some, decide_eq_false hfit, readStored, if_pos (Nat.lt_of_not_le hfit)]
      rfl

/-- The getters of the host; its `getBlob` always refuses. -/
theorem host_typed_iff (ns : Name) (h : HostNvs) (call : NvsCall) :
    TypedRead (hostStored ns h) call (onHost ns h call).1 ↔
      (∃ key buf version, call = .getBlob key buf version)
        ∨ ReadsTyped (hostStored ns h) call := by
  cases call with
  | getU8 key value =>
    simp only [reduceCtorEq, exists_false, false_or]
    exact typedRead_iff bytePacking (host_readEntry_eq ns h key _ 0)
  | getU16 key value =>
    simp only [reduceCtorEq, exists_false, false_or]
    exact typedRead_iff halfPacking (host_readEntry_eq ns h key _ 0)
  | getU32 key value =>
    simp only [reduceCtorEq, exists_false, false_or]
    exact typedRead_iff wordPacking (host_readEntry_eq ns h key _ 0)
  | getString key buf =>
    simp only [reduceCtorEq, exists_false, false_or]
    exact stringRead_iff (host_readEntry_eq ns h key buf 0)
  | getBlob key buf version =>
    exact iff_of_true (fun _ => rfl) (Or.inl ⟨key, buf, version, rfl⟩)
  | set key value version => exact iff_of_true trivial (Or.inr trivial)
  | remove key => exact iff_of_true trivial (Or.inr trivial)
  | eraseAll => exact iff_of_true trivial (Or.inr trivial)

section

variable {nvs : NvsFlash σ} {view : σ → NvsMap} (hmap : nvs.IsMap view)

include hmap

theorem device_readEntry_eq (ns : Name) (s : σ) (key : Name) (buf : List UInt8)
    (version : UInt16) :
    visible (NvsManager.Esp32.readEntry nvs ns s key buf version)
      = readStored (storedAt (view s) ns key) buf := by
  rw [readEntry_eq hmap, map_read_eq]

/-- The device's `getBlob` is a read of the entry, and a refused one is -1. -/
theorem device_getBlob_eq (ns : Name) (s : σ) (key : Name) (buf : List UInt8)
    (version : UInt16) :
    (NvsManager.Esp32.getBlob nvs ns s key buf version).1
        = (match storedAt (view s) ns key with
          | none => -1
          | some e => if (readStored (some e) buf).1 then castInt e.data.length else -1)
      ∧ (NvsManager.Esp32.getBlob nvs ns s key buf version).2.1
        = (readStored (storedAt (view s) ns key) buf).2 := by
  have hread := map_read_eq (view s) ns key buf version
  rw [getBlob_eq hmap]
  cases hstored : storedAt (view s) ns key with
  | none =>
    rw [hstored] at hread
    obtain ⟨hok, hbuf⟩ := Prod.ext_iff.mp hread
    have hok : ((view s).read ns key buf version).1 = false := hok
    have hbuf : ((view s).read ns key buf version).2.1 = buf := hbuf
    cases (view s).blob ns key with
    | none => exact ⟨rfl, rfl⟩
    | some data =>
      dsimp only
      split
      · exact ⟨rfl, rfl⟩
      · simp [hok, hbuf, readStored]
  | some e =>
    rw [hstored] at hread
    obtain ⟨hok, hbuf⟩ := Prod.ext_iff.mp hread
    have hok : ((view s).read ns key buf version).1 = (readStored (some e) buf).1 := hok
    have hbuf : ((view s).read ns key buf version).2.1 = (readStored (some e) buf).2 := hbuf
    rw [storedAt_data hstored]
    dsimp only
    split
    · rename_i hlong
      simp [readStored, hlong]
    · rw [hok, hbuf]
      cases (readStored (some e) buf).1 <;> simp

/-- The device's `getBlob` returns a count that is not negative, or -1 and the buffer as it was. -/
theorem blobRead_iff (ns : Name) (s : σ) (key : Name) (buf : List UInt8) (version : UInt16) :
    ((NvsManager.Esp32.getBlob nvs ns s key buf version).1 < 0 →
        (NvsManager.Esp32.getBlob nvs ns s key buf version).2.1 = buf)
      ↔ RefusedKeeps (fun e => ¬ Intact e ∨ castInt e.data.length < 0)
        (storedAt (view s) ns key) buf := by
  obtain ⟨hcount, hbuf⟩ := device_getBlob_eq hmap ns s key buf version
  rw [hcount, hbuf, RefusedKeeps]
  cases storedAt (view s) ns key with
  | none => simp [readStored]
  | some e =>
    by_cases hfit : e.data.length ≤ buf.length
    · by_cases hin : Intact e
      · simp [readStored, hfit, Nat.not_lt_of_le hfit, hin, append_drop_eq_iff]
      · simp [readStored, hfit, Nat.not_lt_of_le hfit, hin, append_drop_eq_iff]
    · simp [readStored, hfit, Nat.lt_of_not_le hfit]

/-- The getters of the device. -/
theorem device_typed_iff (ns : Name) (s : σ) (call : NvsCall) :
    TypedRead (storedAt (view s) ns) call (onDevice nvs ns s call).1 ↔
      ReadsTyped (storedAt (view s) ns) call := by
  cases call with
  | getU8 key value => exact typedRead_iff bytePacking (device_readEntry_eq hmap ns s key _ 0)
  | getU16 key value => exact typedRead_iff halfPacking (device_readEntry_eq hmap ns s key _ 0)
  | getU32 key value => exact typedRead_iff wordPacking (device_readEntry_eq hmap ns s key _ 0)
  | getString key buf => exact stringRead_iff (device_readEntry_eq hmap ns s key buf 0)
  | getBlob key buf version => exact blobRead_iff hmap ns s key buf version
  | set key value version => exact Iff.rfl
  | remove key => exact Iff.rfl
  | eraseAll => exact Iff.rfl

end

/-! ## The theorem -/

/-- The host reads what it should. -/
def HostTyped (ns : Name) (t : HostNvs × σ) (call : NvsCall) : Prop :=
  TypedRead (hostStored ns t.1) call (onHost ns t.1 call).1

/-- The device reads what it should. -/
def DeviceTyped (nvs : NvsFlash σ) (view : σ → NvsMap) (ns : Name) (t : HostNvs × σ)
    (call : NvsCall) : Prop :=
  TypedRead (storedAt (view t.2) ns) call (onDevice nvs ns t.2 call).1

/--
**Typed reads are exact** on either build, from whatever it has stored, in the runs in which every
entry that an integer getter copies fills the variable when it is intact, and whatever is refused
has the bytes that were there.
-/
theorem typed_reads_iff {nvs : NvsFlash σ} {view : σ → NvsMap} (hmap : nvs.IsMap view) (ns : Name)
    (t : HostNvs × σ) (calls : List NvsCall) :
    (Along (onBoth nvs ns) (HostTyped ns) t calls ↔
      Along (onBoth nvs ns) (fun t call => (∃ key buf version, call = .getBlob key buf version)
        ∨ ReadsTyped (hostStored ns t.1) call) t calls) ∧
    (Along (onBoth nvs ns) (DeviceTyped nvs view ns) t calls ↔
      Along (onBoth nvs ns) (fun t call => ReadsTyped (storedAt (view t.2) ns) call) t calls) := by
  constructor
  · exact along_iff_of_invariant (fun _ => True) (fun _ _ _ _ _ _ => trivial)
      (fun t call _ => host_typed_iff ns t.1 call) trivial
  · exact along_iff_of_invariant (fun _ => True) (fun _ _ _ _ _ _ => trivial)
      (fun t call _ => device_typed_iff hmap ns t.2 call) trivial

/-- A word that was set is read on both. -/
theorem typed_reads_counter :
    Along (onBoth mapNvs defaultNamespace) (HostTyped defaultNamespace) ((fun _ => none), {})
        [.set (ascii ['a']) (.setU32 42) 1, .getU32 (ascii ['a']) 0]
      ∧ Along (onBoth mapNvs defaultNamespace)
        (DeviceTyped mapNvs ListNvs.view defaultNamespace) ((fun _ => none), {})
        [.set (ascii ['a']) (.setU32 42) 1, .getU32 (ascii ['a']) 0] := by
  obtain ⟨hhost, hdevice⟩ := typed_reads_iff mapNvs_isMap defaultNamespace
    ((fun _ => none), {}) [.set (ascii ['a']) (.setU32 42) 1, .getU32 (ascii ['a']) 0]
  refine ⟨hhost.mpr ?_, hdevice.mpr ?_⟩
  · exact .cons rfl (Or.inr trivial) (.cons rfl (Or.inr (by decide +kernel)) trivial)
  · exact .cons rfl trivial (.cons rfl (by decide +kernel) trivial)

/-- **A byte that was set is read as a word**, three bytes of which are the variable's own, and a
byte whose CRC is wrong is left in the variable. -/
theorem byte_read_as_word :
    (onHost defaultNamespace (onHost defaultNamespace (fun _ => none)
        (.set (ascii ['a']) (.setU8 5) 1)).2 (.getU32 (ascii ['a']) 0xFFFFFFFF)).1
        = .u32 true 0xFFFFFF05
      ∧ (onHost defaultNamespace (fun _ => some { data := [1] }) (.getU8 (ascii ['a']) 7)).1
        = .u8 false 1
      ∧ ¬ Along (onBoth mapNvs defaultNamespace) (HostTyped defaultNamespace) ((fun _ => none), {})
        [.set (ascii ['a']) (.setU8 5) 1, .getU32 (ascii ['a']) 0xFFFFFFFF]
      ∧ ¬ Along (onBoth mapNvs defaultNamespace)
        (DeviceTyped mapNvs ListNvs.view defaultNamespace) ((fun _ => none), {})
        [.set (ascii ['a']) (.setU8 5) 1, .getU32 (ascii ['a']) 0xFFFFFFFF] := by
  refine ⟨by decide, by decide, fun h => ?_, fun h => ?_⟩
  · have hread := (host_typed_iff _ _ _).mp (h.2 _ rfl).1
    exact absurd hread (by simp only [reduceCtorEq, exists_false, false_or]; decide +kernel)
  · have hread := (device_typed_iff mapNvs_isMap _ _ _).mp (h.2 _ rfl).1
    exact absurd hread (by decide)

end TaktOS.Proof
