import TaktOS.Drivers.EspIdf
import TaktOS.Proof.VerifyLoop

/-!
# What `verify` reads

The header says how long the image is, and nothing compares that with the slot. `verify` reads as
many bytes as the header says, chunk by chunk, until they are through or a chunk is not read, which
only the end of the flash brings about.
-/

namespace TaktOS.Proof

open Lib

variable {δ : Type}

/-! ## Which bytes are read -/

/-- Every byte on record as addressed lies in `[lo, hi)`. -/
def Addressed (lo hi : Nat) (log : List FlashAccess) : Prop :=
  ∀ acc ∈ log, ∀ a, acc.Touches a → lo ≤ a ∧ a < hi

theorem Addressed.read {lo hi off len : Nat} {log : List FlashAccess} (h : Addressed lo hi log)
    (hlo : lo ≤ off) (hhi : off + len ≤ hi) : Addressed lo hi (.read off len :: log) := by
  intro acc hacc a ha
  rcases List.mem_cons.mp hacc with rfl | hacc
  · obtain ⟨h1, h2⟩ : off ≤ a ∧ a < off + len := ha
    omega
  · exact h acc hacc a ha

/--
The first chunk of the `rem` bytes at `off`, or another that begins no later than `hi`, ends behind
the flash, and either ends below `hi` still or is refused by the bounds check.
-/
def ChunkStops (t : Target) (total off rem hi : Nat) : Prop :=
  ∃ i, (i = 0 ∨ off + 4096 * i ≤ hi) ∧ total < off + min (4096 * (i + 1)) rem
    ∧ (off + min (4096 * (i + 1)) rem ≤ hi ∨ total < t.size (off + min (4096 * (i + 1)) rem))

/-- A whole chunk in the flash is not the one. -/
theorem chunkStops_pass {t : Target} {total off rem hi : Nat} (hroom : off + 4096 ≤ hi)
    (hflash : off + 4096 ≤ total) (hrem : 4096 ≤ rem) :
    ChunkStops t total (off + 4096) (rem - 4096) hi ↔ ChunkStops t total off rem hi := by
  have hnext : ∀ i, off + 4096 + min (4096 * (i + 1)) (rem - 4096)
      = off + min (4096 * (i + 1 + 1)) rem := fun i => by omega
  have hlater : ∀ i, (i = 0 ∨ off + 4096 + 4096 * i ≤ hi) ↔ off + 4096 * (i + 1) ≤ hi :=
    fun i => by omega
  constructor
  · rintro ⟨i, hbegin, hend⟩
    rw [hnext] at hend
    exact ⟨i + 1, Or.inr ((hlater i).mp hbegin), hend⟩
  · rintro ⟨i, hbegin, hend⟩
    cases i with
    | zero => omega
    | succ i =>
      rw [← hnext] at hend
      exact ⟨i, (hlater i).mpr (hbegin.resolve_left (Nat.succ_ne_zero i)), hend⟩

/-- With no room for a whole chunk below `hi` it is the next one, or none. -/
theorem chunkStops_last {t : Target} {total off rem hi : Nat} (hroom : hi < off + 4096)
    (hrem : hi < off + rem) :
    ChunkStops t total off rem hi ↔ total < t.size (off + min 4096 rem) := by
  have hle := size_le t (off + min 4096 rem)
  constructor
  · rintro ⟨i, hbegin, _, hend⟩
    have h0 : i = 0 := by omega
    subst h0
    exact hend.resolve_left (by omega)
  · intro hstop
    exact ⟨0, Or.inl rfl, by omega, Or.inr hstop⟩

section Recorded

variable {b : FlashBackend δ} {content : δ → Nat → UInt8}

/-- A read that is let through is on record, and one that is not leaves no trace. -/
theorem read_recorded {sm : StorageManager (δ × List FlashAccess)}
    (hb : sm.backend = some b.recorded) (offset : UInt32) (buf : List UInt8) :
    (b.totalSize.toNat < sm.target.size (offset.toNat + buf.length)
        ∧ sm.read offset buf = (-1, buf, sm))
      ∨ (sm.target.size (offset.toNat + buf.length) ≤ b.totalSize.toNat ∧ ∃ d,
        (sm.read offset buf).2.2
          = { sm with device := (d, .read offset.toNat buf.length :: sm.device.2) }) := by
  rw [StorageManager.read, hb]
  dsimp only
  by_cases hcheck : sm.target.size (offset.toNat + buf.length) > b.totalSize.toNat
  · exact Or.inl ⟨hcheck, by rw [if_pos (show _ > b.recorded.totalSize.toNat from hcheck)]⟩
  · exact Or.inr ⟨Nat.le_of_not_lt hcheck, _,
      by rw [if_neg (show ¬ _ > b.recorded.totalSize.toNat from hcheck)]; rfl⟩

/-- A read inside `[lo, hi)` keeps the record there. -/
theorem read_addressed {sm : StorageManager (δ × List FlashAccess)}
    (hb : sm.backend = some b.recorded) {lo hi : Nat} {offset : UInt32} {buf : List UInt8}
    (hlo : lo ≤ offset.toNat) (hhi : offset.toNat + buf.length ≤ hi)
    (h : Addressed lo hi sm.device.2) : Addressed lo hi (sm.read offset buf).2.2.device.2 := by
  rcases read_recorded hb offset buf with ⟨_, hread⟩ | ⟨_, d, hread⟩
  · rw [hread]
    exact h
  · rw [hread]
    exact h.read hlo hhi

theorem length_chunkBuffer (remaining : UInt32) :
    (List.replicate (chunkOf remaining).toNat (0 : UInt8)).length = (chunkOf remaining).toNat :=
  List.length_replicate

/-- A chunk inside the flash is read, and the next one goes behind it. -/
theorem chunkRead_inside {sm : StorageManager (δ × List FlashAccess)} (hr : b.Readable content)
    (hb : sm.backend = some b.recorded) (remaining offset : UInt32)
    (hin : offset.toNat + (chunkOf remaining).toNat ≤ b.totalSize.toNat)
    (h : remaining > 0) :
    (chunkRead sm remaining offset).1 = (chunkOf remaining).toNat
      ∧ (offset + chunkOf remaining).toNat = offset.toNat + (chunkOf remaining).toNat
      ∧ (chunkRead sm remaining offset).2.2.backend = some b.recorded
      ∧ (chunkRead sm remaining offset).2.2.target = sm.target := by
  obtain ⟨_, _, hmin⟩ := chunkOf_bounds h
  have htot := b.totalSize.toNat_lt
  have hlen := length_chunkBuffer remaining
  obtain ⟨hcode, _⟩ := read_inside sm hb (recorded_readable hr) offset
    (List.replicate (chunkOf remaining).toNat 0) (by rw [hlen]; exact hin)
  obtain ⟨d, hd, _⟩ := read_after sm (readKeeps_true sm) trivial offset
    (List.replicate (chunkOf remaining).toNat 0)
  refine ⟨?_, ?_, ?_, ?_⟩
  · rw [chunkRead, hcode, hlen]
    exact castInt_chunk (by omega)
  · rw [UInt32.toNat_add]
    exact Nat.mod_eq_of_lt (by omega)
  · rw [chunkRead, hd]
    exact hb
  · rw [chunkRead, hd]

/-- Its read is kept on record inside `[lo, hi)`. -/
theorem chunkRead_addressed {sm : StorageManager (δ × List FlashAccess)}
    (hb : sm.backend = some b.recorded) {lo hi : Nat} {remaining offset : UInt32}
    (hlo : lo ≤ offset.toNat) (hhi : offset.toNat + (chunkOf remaining).toNat ≤ hi)
    (h : Addressed lo hi sm.device.2) :
    Addressed lo hi (chunkRead sm remaining offset).2.2.device.2 :=
  read_addressed hb hlo (by rw [length_chunkBuffer]; exact hhi) h

/-- A chunk that reaches behind the flash is not read. -/
theorem chunkRead_outside {sm : StorageManager (δ × List FlashAccess)} (hr : b.Readable content)
    (hb : sm.backend = some b.recorded) (remaining offset : UInt32)
    (hout : b.totalSize.toNat < offset.toNat + (chunkOf remaining).toNat) :
    (chunkRead sm remaining offset).1 ≠ (chunkOf remaining).toNat := by
  have hneg := read_outside sm hb (recorded_readable hr) offset
    (List.replicate (chunkOf remaining).toNat 0) (by rw [length_chunkBuffer]; exact hout)
  rw [chunkRead]
  omega

/-- What is on record stays there. -/
theorem recorded_kept {sm : StorageManager (δ × List FlashAccess)}
    (hb : sm.backend = some b.recorded) (acc : FlashAccess) :
    ReadKeeps sm (fun d => acc ∈ d.2) := by
  intro b' hb' d off buf hd
  rw [← Option.some.inj (hb.symm.trans hb')]
  exact List.mem_cons_of_mem _ hd

theorem verifyLoop_kept {sm : StorageManager (δ × List FlashAccess)}
    (hb : sm.backend = some b.recorded) {acc : FlashAccess} (hacc : acc ∈ sm.device.2) (fuel : Nat)
    (remaining offset crc : UInt32) :
    acc ∈ (FirmwareCache.verifyLoop sm fuel remaining offset crc).2.device.2 := by
  obtain ⟨d, hd, hmem⟩ := verifyLoop_after fuel sm (recorded_kept hb acc) hacc remaining offset crc
  rw [hd]
  exact hmem

/-- The first chunk is on record if it is let through. -/
theorem verifyLoop_first {sm : StorageManager (δ × List FlashAccess)}
    (hb : sm.backend = some b.recorded) (fuel : Nat) {remaining : UInt32} (offset crc : UInt32)
    (hpos : remaining > 0)
    (hthrough : sm.target.size (offset.toNat + (chunkOf remaining).toNat) ≤ b.totalSize.toNat) :
    .read offset.toNat (chunkOf remaining).toNat
      ∈ (FirmwareCache.verifyLoop sm (fuel + 1) remaining offset crc).2.device.2 := by
  rw [verifyLoop_pass sm fuel hpos]
  rcases read_recorded hb offset (List.replicate (chunkOf remaining).toNat 0)
    with ⟨hgt, _⟩ | ⟨_, d, hread⟩
  · rw [length_chunkBuffer] at hgt
    exact absurd hthrough (Nat.not_le.mpr hgt)
  · have hrecord : .read offset.toNat (chunkOf remaining).toNat
        ∈ (chunkRead sm remaining offset).2.2.device.2 := by
      rw [chunkRead, hread, length_chunkBuffer]
      exact List.mem_cons_self
    split
    · exact hrecord
    · exact verifyLoop_kept (by rw [chunkRead, hread]; exact hb) hrecord _ _ _ _

/-- An image that ends below `hi` is read below `hi`. -/
theorem verifyLoop_inside {lo hi : Nat} (hr : b.Readable content) :
    ∀ (fuel : Nat) {sm : StorageManager (δ × List FlashAccess)} (remaining offset crc : UInt32),
      sm.backend = some b.recorded → lo ≤ offset.toNat →
      offset.toNat + remaining.toNat ≤ hi → Addressed lo hi sm.device.2 →
      Addressed lo hi
        (FirmwareCache.verifyLoop sm fuel remaining offset crc).2.device.2 := by
  intro fuel
  induction fuel with
  | zero => intro sm remaining offset crc _ _ _ h; exact h
  | succ fuel ih =>
    intro sm remaining offset crc hb hlo hin h
    by_cases hpos : remaining > 0
    · obtain ⟨_, hle, _⟩ := chunkOf_bounds hpos
      have hsub := remaining_sub hpos
      have hread := chunkRead_addressed hb hlo
        (show offset.toNat + (chunkOf remaining).toNat ≤ hi by omega) h
      rw [verifyLoop_pass sm fuel hpos]
      split
      · exact hread
      · -- read, so in the flash, and the next offset does not wrap
        rename_i hcode
        have hflash := Nat.le_of_not_lt (mt (chunkRead_outside hr hb remaining offset) hcode)
        obtain ⟨_, hadd, hb', _⟩ := chunkRead_inside hr hb remaining offset hflash hpos
        exact ih _ _ _ hb' (by omega) (by omega) hread
    · rw [verifyLoop_done sm _ hpos]
      exact h

/-- A whole chunk in the flash leaves the loop behind it, with the same chunk to stop at. -/
theorem verifyLoop_whole {hi : Nat} (hr : b.Readable content)
    {sm : StorageManager (δ × List FlashAccess)} (hb : sm.backend = some b.recorded) (fuel : Nat)
    {remaining offset : UInt32} (crc : UInt32) (hroom : offset.toNat + 4096 ≤ hi)
    (hflash : offset.toNat + 4096 ≤ b.totalSize.toNat)
    (hrem : hi < offset.toNat + remaining.toNat) :
    ∃ sm' remaining' offset' crc', FirmwareCache.verifyLoop sm (fuel + 1) remaining offset crc
        = FirmwareCache.verifyLoop sm' fuel remaining' offset' crc'
      ∧ sm'.backend = some b.recorded ∧ sm'.target = sm.target
      ∧ remaining'.toNat = remaining.toNat - 4096 ∧ offset'.toNat = offset.toNat + 4096
      ∧ (ChunkStops sm.target b.totalSize.toNat offset'.toNat remaining'.toNat hi
        ↔ ChunkStops sm.target b.totalSize.toNat offset.toNat remaining.toNat hi)
      ∧ ∀ {lo}, lo ≤ offset.toNat → Addressed lo hi sm.device.2 →
        Addressed lo hi sm'.device.2 := by
  have hpos : remaining > 0 := pos_iff_toNat.mpr (by omega)
  obtain ⟨_, _, hmin⟩ := chunkOf_bounds hpos
  have hchunk : (chunkOf remaining).toNat = 4096 := by omega
  have hsub := remaining_sub hpos
  obtain ⟨hcode, hadd, hb', htarget⟩ := chunkRead_inside hr hb remaining offset (by omega) hpos
  rw [hchunk] at hsub hadd
  refine ⟨_, _, _, Crc32.update crc (chunkRead sm remaining offset).2.1, ?_, hb', htarget, hsub,
    hadd, ?_, fun hlo h => ?_⟩
  · rw [verifyLoop_pass sm fuel hpos, if_neg (by simp [hcode])]
  · rw [hadd, hsub]
    exact chunkStops_pass hroom hflash (by omega)
  · exact chunkRead_addressed hb hlo (by omega) h

/-- A longer one is read below `hi` if one of its chunks up to there is not, and then it fails. -/
theorem verifyLoop_stopped {lo hi : Nat} (hr : b.Readable content) :
    ∀ (fuel : Nat) {sm : StorageManager (δ × List FlashAccess)} {remaining : UInt32}
      (offset crc : UInt32), sm.backend = some b.recorded → remaining.toNat ≤ fuel →
      lo ≤ offset.toNat → remaining > 0 → hi < offset.toNat + remaining.toNat →
      ChunkStops sm.target b.totalSize.toNat offset.toNat remaining.toNat hi →
      Addressed lo hi sm.device.2 →
      (FirmwareCache.verifyLoop sm fuel remaining offset crc).1 = none
        ∧ Addressed lo hi
          (FirmwareCache.verifyLoop sm fuel remaining offset crc).2.device.2 := by
  intro fuel
  -- on the fuel: a chunk that was read is not the one to stop at
  induction fuel with
  | zero =>
    intro sm remaining offset crc _ hf _ hpos _ _ _
    exact absurd hf (Nat.not_le.mpr (pos_iff_toNat.mp hpos))
  | succ fuel ih =>
    intro sm remaining offset crc hb hf hlo hpos hrem hstop h
    obtain ⟨_, _, hmin⟩ := chunkOf_bounds hpos
    by_cases hroom : offset.toNat + 4096 ≤ hi
    · by_cases hflash : offset.toNat + 4096 ≤ b.totalSize.toNat
      · obtain ⟨sm', remaining', offset', crc', hloop, hb', htarget, hsub, hadd, hsame, hread⟩ :=
          verifyLoop_whole hr hb fuel crc hroom hflash hrem
        rw [hloop]
        exact ih _ _ hb' (by omega) (by omega) (pos_iff_toNat.mpr (by omega)) (by omega)
          (by rw [htarget]; exact hsame.mpr hstop) (hread hlo h)
      · -- the backend may be asked for it, and fails
        rw [verifyLoop_pass sm fuel hpos,
          if_pos (chunkRead_outside hr hb remaining offset (by omega))]
        exact ⟨rfl, chunkRead_addressed hb hlo (by omega) h⟩
    · -- this is the chunk that reaches past `hi`, and it is refused
      rw [chunkStops_last (by omega) hrem, ← hmin] at hstop
      have hrefused : chunkRead sm remaining offset
          = (-1, List.replicate (chunkOf remaining).toNat 0, sm) := by
        rcases read_recorded hb offset (List.replicate (chunkOf remaining).toNat 0)
          with ⟨_, hread⟩ | ⟨hle, _⟩
        · exact hread
        · rw [length_chunkBuffer] at hle
          omega
      have hneg : (-1 : Int) ≠ (chunkOf remaining).toNat := by omega
      rw [verifyLoop_pass sm fuel hpos, hrefused, if_pos hneg]
      exact ⟨rfl, h⟩

/-- If none stops it a byte past `hi` is addressed. -/
theorem verifyLoop_overrun {hi : Nat} (hr : b.Readable content) :
    ∀ (fuel : Nat) {sm : StorageManager (δ × List FlashAccess)} {remaining : UInt32}
      (offset crc : UInt32), sm.backend = some b.recorded → remaining.toNat ≤ fuel →
      remaining > 0 → hi < offset.toNat + remaining.toNat →
      ¬ ChunkStops sm.target b.totalSize.toNat offset.toNat remaining.toNat hi →
      ∃ acc ∈ (FirmwareCache.verifyLoop sm fuel remaining offset crc).2.device.2,
        ∃ a, acc.Touches a ∧ hi ≤ a := by
  intro fuel
  induction fuel with
  | zero =>
    intro sm remaining offset crc _ hf hpos _ _
    exact absurd hf (Nat.not_le.mpr (pos_iff_toNat.mp hpos))
  | succ fuel ih =>
    intro sm remaining offset crc hb hf hpos hrem hpass
    by_cases hroom : offset.toNat + 4096 ≤ hi
    · have hflash : offset.toNat + 4096 ≤ b.totalSize.toNat := by
        refine Nat.le_of_not_lt fun hout => hpass ⟨0, Or.inl rfl, ?_, Or.inl ?_⟩ <;> omega
      obtain ⟨sm', remaining', offset', crc', hloop, hb', htarget, hsub, hadd, hsame, _⟩ :=
        verifyLoop_whole hr hb fuel crc hroom hflash hrem
      rw [hloop]
      exact ih _ _ hb' (by omega) (pos_iff_toNat.mpr (by omega)) (by omega)
        (by rw [htarget]; exact mt hsame.mp hpass)
    · -- the chunk past `hi` is let through
      obtain ⟨hchunk, _, hmin⟩ := chunkOf_bounds hpos
      rw [chunkStops_last (by omega) hrem, ← hmin, Nat.not_lt] at hpass
      have htouch : (FlashAccess.read offset.toNat (chunkOf remaining).toNat).Touches
          (offset.toNat + (chunkOf remaining).toNat - 1) := by
        show offset.toNat ≤ _ ∧ _ < offset.toNat + (chunkOf remaining).toNat
        omega
      exact ⟨_, verifyLoop_first hb fuel offset crc hpos hpass, _, htouch, by omega⟩

/-! ## The header, and then the image -/

/-- A header found has the magic, so asking for it again changes nothing. -/
theorem getHeader_magic {δ : Type} {fc : FirmwareCache} {sm : StorageManager δ} {slot : UInt8}
    {header : FirmwareHeader} (h : (fc.getHeader sm slot header).1 = true) :
    (fc.getHeader sm slot header).2.1.magic = kFirmwareMagic := by
  unfold FirmwareCache.getHeader at h ⊢
  split at h
  · exact absurd h (by simp)
  · rename_i hs
    rw [if_neg hs]
    dsimp only at h ⊢
    split at h
    · exact absurd h (by simp)
    · rename_i hcode
      rw [if_neg hcode]
      exact of_decide_eq_true h

/-- The loop of `verify`, on the header found. -/
def bodyLoop (fc : FirmwareCache) (sm : StorageManager δ) (slot : UInt8) :
    Option UInt32 × StorageManager δ :=
  FirmwareCache.verifyLoop (fc.getHeader sm slot {}).2.2
    (fc.getHeader sm slot {}).2.1.size.toNat (fc.getHeader sm slot {}).2.1.size
    (fc.slotOffset slot + kHeaderReserved) Crc32.initial

/-- `verify` reads the header, and the image behind it if that is flagged. -/
theorem verify_reads (fc : FirmwareCache) (sm : StorageManager δ) {slot : UInt8} (hs : slot ≤ 1) :
    (((fc.getHeader sm slot {}).1 && (fc.getHeader sm slot {}).2.1.validFlag) = false
        ∧ fc.verify sm slot = (false, (fc.getHeader sm slot {}).2.2))
      ∨ (((fc.getHeader sm slot {}).1 && (fc.getHeader sm slot {}).2.1.validFlag) = true
        ∧ (fc.verify sm slot).2 = (bodyLoop fc sm slot).2
        ∧ ((bodyLoop fc sm slot).1 = none → (fc.verify sm slot).1 = false)) := by
  rw [FirmwareCache.verify, if_neg (UInt8.not_lt.mpr hs)]
  dsimp only
  cases hok : (fc.getHeader sm slot {}).1 with
  | false => exact Or.inl ⟨rfl, rfl⟩
  | true =>
    have hmagic := getHeader_magic hok
    cases hvalid : (fc.getHeader sm slot {}).2.1.validFlag with
    | false => exact Or.inl ⟨rfl, by simp⟩
    | true =>
      refine Or.inr ⟨rfl, ?_⟩
      simp only [hmagic, ne_eq, not_true_eq_false, decide_false, Bool.not_true, Bool.or_self,
        Bool.false_eq_true, if_false]
      unfold bodyLoop
      split
      · rename_i hL
        rw [hL]
        exact ⟨rfl, fun _ => rfl⟩
      · rename_i hL
        rw [hL]
        exact ⟨rfl, fun h => absurd h (by simp)⟩

/-- **What `verify` accepts fits its slot**, and it reads nothing outside it. -/
structure VerifyStaysInSlot (content : δ → Nat → UInt8) (fc : FirmwareCache)
    (sm : StorageManager (δ × List FlashAccess)) (slot : UInt8) : Prop where
  size : (fc.verify sm slot).1 = true →
    4096 + (storedHeader (content sm.device.1) (fc.slotOffset slot)).size.toNat
      ≤ fc.slotSize.toNat
  reads : Addressed (fc.slotOffset slot).toNat
    ((fc.slotOffset slot).toNat + fc.slotSize.toNat) (fc.verify sm slot).2.device.2

/--
What the header at `off` announces is in its slot of `size` bytes, or the reading of it stops there.
An empty image takes the sector of the header, if its CRC is right.
-/
def BodyStops (t : Target) (total : Nat) (off size : UInt32) (hdr : FirmwareHeader) : Prop :=
  (hdr.size = 0 ∧ (4096 ≤ size.toNat ∨ Crc32.compute [] ≠ hdr.crc32))
    ∨ (hdr.size ≠ 0 ∧ off.toNat + 4096 < 4294967296
      ∧ (4096 + hdr.size.toNat ≤ size.toNat
        ∨ ChunkStops t total (off.toNat + 4096) hdr.size.toNat (off.toNat + size.toNat)))

/-- `verify` stops in the slot: at the header, at a header not flagged, or in the body. -/
def StopsInSlot (content : δ → Nat → UInt8) (b : FlashBackend δ) (fc : FirmwareCache)
    (sm : StorageManager (δ × List FlashAccess)) (slot : UInt8) : Prop :=
  slot ≤ 1 →
    (b.totalSize.toNat < sm.target.size ((fc.slotOffset slot).toNat + headerSize)
        ∨ headerSize ≤ fc.slotSize.toNat)
      ∧ (Flagged b.totalSize.toNat (content sm.device.1) (fc.slotOffset slot) →
        BodyStops sm.target b.totalSize.toNat (fc.slotOffset slot) fc.slotSize
          (storedHeader (content sm.device.1) (fc.slotOffset slot)))

section Slot

variable {sm : StorageManager (δ × List FlashAccess)} {fc : FirmwareCache} {slot : UInt8}

/-- The header is refused, or its read is on record. -/
theorem header_recorded (hb : sm.backend = some b.recorded) (hs : slot ≤ 1) :
    (b.totalSize.toNat < sm.target.size ((fc.slotOffset slot).toNat + headerSize)
        ∧ (fc.getHeader sm slot {}).2.2 = sm)
      ∨ (sm.target.size ((fc.slotOffset slot).toNat + headerSize) ≤ b.totalSize.toNat
        ∧ ∃ d, (fc.getHeader sm slot {}).2.2
          = { sm with device := (d, .read (fc.slotOffset slot).toNat headerSize
                :: sm.device.2) }) := by
  have hsame : (fc.getHeader sm slot {}).2.2
      = (sm.read (fc.slotOffset slot) ({} : FirmwareHeader).toBytes).2.2 := by
    rw [FirmwareCache.getHeader, if_neg (UInt8.not_lt.mpr hs)]
    dsimp only
    split <;> rfl
  rw [hsame]
  rcases read_recorded hb (fc.slotOffset slot) ({} : FirmwareHeader).toBytes
    with ⟨hgt, hread⟩ | ⟨hle, d, hread⟩
  · exact Or.inl ⟨hgt, by rw [hread]⟩
  · exact Or.inr ⟨hle, d, hread⟩

/-- The header is read inside the slot, if it is not refused. -/
theorem header_addressed (hb : sm.backend = some b.recorded) (hlog : sm.device.2 = [])
    (hs : slot ≤ 1)
    (hin : b.totalSize.toNat < sm.target.size ((fc.slotOffset slot).toNat + headerSize)
      ∨ headerSize ≤ fc.slotSize.toNat) :
    Addressed (fc.slotOffset slot).toNat ((fc.slotOffset slot).toNat + fc.slotSize.toNat)
      (fc.getHeader sm slot {}).2.2.device.2 := by
  have hempty : Addressed (fc.slotOffset slot).toNat
      ((fc.slotOffset slot).toNat + fc.slotSize.toNat) sm.device.2 := by
    rw [hlog]
    exact fun acc hacc => absurd hacc (by simp)
  rcases header_recorded hb hs with ⟨_, hrefused⟩ | ⟨hle, d, hread⟩
  · rw [hrefused]
    exact hempty
  · rw [hread]
    have hroom := hin.resolve_left (Nat.not_lt.mpr hle)
    exact hempty.read (Nat.le_refl _) (by omega)

/-- A header that is let through stays on record. -/
theorem verify_header_kept (hb : sm.backend = some b.recorded) (hs : slot ≤ 1)
    (hle : sm.target.size ((fc.slotOffset slot).toNat + headerSize) ≤ b.totalSize.toNat) :
    .read (fc.slotOffset slot).toNat headerSize ∈ (fc.verify sm slot).2.device.2 := by
  rcases header_recorded hb hs with ⟨hgt, _⟩ | ⟨_, d, hread⟩
  · exact absurd hle (Nat.not_le.mpr hgt)
  · have hrecord : .read (fc.slotOffset slot).toNat headerSize
        ∈ (fc.getHeader sm slot {}).2.2.device.2 := by
      rw [hread]
      exact List.mem_cons_self
    rcases verify_reads fc sm hs with ⟨_, hv⟩ | ⟨_, hloop, _⟩
    · rw [hv]
      exact hrecord
    · rw [hloop]
      exact verifyLoop_kept (by rw [hread]; exact hb) hrecord _ _ _ _

/-- Without a flagged header nothing behind it is read, and nothing verifies. -/
theorem verify_unflagged (hr : b.Readable content) (hb : sm.backend = some b.recorded)
    (hs : slot ≤ 1)
    (hF : ¬ Flagged b.totalSize.toNat (content sm.device.1) (fc.slotOffset slot)) :
    fc.verify sm slot = (false, (fc.getHeader sm slot {}).2.2) := by
  rcases verify_reads fc sm hs with ⟨_, hv⟩ | ⟨hyes, _⟩
  · exact hv
  · exact absurd ((getHeader_flagged sm hb (recorded_readable hr) fc hs {}).mp hyes) hF

/-- With one the loop of `verify` reads the image from behind the header on. -/
theorem verify_flagged (hr : b.Readable content) (hb : sm.backend = some b.recorded)
    (hs : slot ≤ 1) (hF : Flagged b.totalSize.toNat (content sm.device.1) (fc.slotOffset slot)) :
    ∃ sm₁ res, FirmwareCache.verifyLoop sm₁
          (storedHeader (content sm.device.1) (fc.slotOffset slot)).size.toNat
          (storedHeader (content sm.device.1) (fc.slotOffset slot)).size
          (fc.slotOffset slot + kHeaderReserved) Crc32.initial = res
      ∧ sm₁ = (fc.getHeader sm slot {}).2.2
      ∧ sm₁.backend = some b.recorded ∧ sm₁.target = sm.target
      ∧ (fc.verify sm slot).2 = res.2 ∧ (res.1 = none → (fc.verify sm slot).1 = false) := by
  obtain ⟨d, hd, _⟩ := getHeader_after sm
    (readKeeps_content hb (recorded_readable hr) (content sm.device.1)) rfl fc slot {}
  rcases verify_reads fc sm hs with ⟨hno, _⟩ | ⟨_, hloop, hnone⟩
  · have hyes := (getHeader_flagged sm hb (recorded_readable hr) fc hs {}).mpr hF
    rw [hno] at hyes
    exact absurd hyes (by simp)
  · unfold bodyLoop at hloop hnone
    rw [getHeader_header sm hb (recorded_readable hr) fc hs {} hF.1] at hloop hnone
    exact ⟨_, _, rfl, rfl, by rw [hd]; exact hb, by rw [hd], hloop, hnone⟩

/-- An empty image is read nowhere, so only its CRC counts. -/
theorem empty_fits_iff (hr : b.Readable content) (hb : sm.backend = some b.recorded)
    (hs : slot ≤ 1) (hF : Flagged b.totalSize.toNat (content sm.device.1) (fc.slotOffset slot))
    (hhead : Addressed (fc.slotOffset slot).toNat
      ((fc.slotOffset slot).toNat + fc.slotSize.toNat) (fc.getHeader sm slot {}).2.2.device.2)
    (hzero : (storedHeader (content sm.device.1) (fc.slotOffset slot)).size = 0) :
    VerifyStaysInSlot content fc sm slot
      ↔ 4096 ≤ fc.slotSize.toNat
        ∨ Crc32.compute []
          ≠ (storedHeader (content sm.device.1) (fc.slotOffset slot)).crc32 := by
  obtain ⟨sm₁, res, hres, hsm₁, _, _, hloop, _⟩ := verify_flagged hr hb hs hF
  have hverify : (fc.verify sm slot).1 = true
      ↔ Crc32.compute []
        = (storedHeader (content sm.device.1) (fc.slotOffset slot)).crc32 := by
    rw [verify_iff sm hb (recorded_readable hr) fc hs]
    constructor
    · intro hwhole
      have hcrc := hwhole.2.2
      rw [hzero] at hcrc
      exact hcrc
    · intro hcrc
      refine ⟨hF, Or.inl hzero, ?_⟩
      rw [hzero]
      exact hcrc
  have hread : Addressed (fc.slotOffset slot).toNat
      ((fc.slotOffset slot).toNat + fc.slotSize.toNat) (fc.verify sm slot).2.device.2 := by
    rw [hzero] at hres
    rw [hloop, ← hres, hsm₁]
    exact hhead
  constructor
  · intro hfits
    by_cases hcrc : Crc32.compute []
        = (storedHeader (content sm.device.1) (fc.slotOffset slot)).crc32
    · have := hfits.size (hverify.mpr hcrc)
      exact Or.inl (by omega)
    · exact Or.inr hcrc
  · rintro (hroom | hcrc)
    · refine ⟨fun _ => ?_, hread⟩
      rw [hzero]
      exact hroom
    · exact ⟨fun h => absurd (hverify.mp h) hcrc, hread⟩

/-- If the offset behind the header wraps, the first bytes of the flash are read for the image. -/
theorem wrapped_not_fits (hr : b.Readable content) (hb : sm.backend = some b.recorded)
    (hs : slot ≤ 1) (hF : Flagged b.totalSize.toNat (content sm.device.1) (fc.slotOffset slot))
    (hsome : (storedHeader (content sm.device.1) (fc.slotOffset slot)).size ≠ 0)
    (hwrap : 4294967296 ≤ (fc.slotOffset slot).toNat + 4096) :
    ¬ VerifyStaysInSlot content fc sm slot := by
  intro hfits
  obtain ⟨sm₁, res, hres, _, hb', htarget, hloop, _⟩ := verify_flagged hr hb hs hF
  have hpos := UInt32.pos_iff_ne_zero.mpr hsome
  obtain ⟨hchunk, _, hmin⟩ := chunkOf_bounds hpos
  have hbody : (fc.slotOffset slot + kHeaderReserved).toNat
      = (fc.slotOffset slot).toNat + 4096 - 4294967296 := by
    have hoff := (fc.slotOffset slot).toNat_lt
    rw [UInt32.toNat_add, show kHeaderReserved.toNat = 4096 from rfl]
    omega
  obtain ⟨hend, _⟩ := hF
  have hoff := (fc.slotOffset slot).toNat_lt
  have hle := size_le sm.target ((fc.slotOffset slot + kHeaderReserved).toNat
    + (chunkOf (storedHeader (content sm.device.1) (fc.slotOffset slot)).size).toNat)
  obtain ⟨fuel, hfuel⟩ : ∃ k,
      (storedHeader (content sm.device.1) (fc.slotOffset slot)).size.toNat = k + 1 :=
    Nat.exists_eq_succ_of_ne_zero (Nat.pos_iff_ne_zero.mp (pos_iff_toNat.mp hpos))
  rw [hfuel] at hres
  have hfirst := verifyLoop_first hb' fuel (fc.slotOffset slot + kHeaderReserved) Crc32.initial
    hpos (by rw [htarget]; omega)
  rw [hres, ← hloop] at hfirst
  have hbelow := hfits.reads _ hfirst (fc.slotOffset slot + kHeaderReserved).toNat
    ⟨Nat.le_refl _, by omega⟩
  omega

/-- A body that begins behind the header is read in the slot if it fits, or stops there. -/
theorem body_fits_iff (hr : b.Readable content) (hb : sm.backend = some b.recorded)
    (hs : slot ≤ 1) (hF : Flagged b.totalSize.toNat (content sm.device.1) (fc.slotOffset slot))
    (hhead : Addressed (fc.slotOffset slot).toNat
      ((fc.slotOffset slot).toNat + fc.slotSize.toNat) (fc.getHeader sm slot {}).2.2.device.2)
    (hsome : (storedHeader (content sm.device.1) (fc.slotOffset slot)).size ≠ 0)
    (hnowrap : (fc.slotOffset slot).toNat + 4096 < 4294967296) :
    VerifyStaysInSlot content fc sm slot
      ↔ 4096 + (storedHeader (content sm.device.1) (fc.slotOffset slot)).size.toNat
          ≤ fc.slotSize.toNat
        ∨ ChunkStops sm.target b.totalSize.toNat ((fc.slotOffset slot).toNat + 4096)
          (storedHeader (content sm.device.1) (fc.slotOffset slot)).size.toNat
          ((fc.slotOffset slot).toNat + fc.slotSize.toNat) := by
  obtain ⟨sm₁, res, hres, hsm₁, hb', htarget, hloop, hnone⟩ := verify_flagged hr hb hs hF
  rw [← hsm₁] at hhead
  have hbody := bodyOffset_toNat (fc.slotOffset slot) hnowrap
  have hlow : (fc.slotOffset slot).toNat ≤ (fc.slotOffset slot + kHeaderReserved).toNat := by
    omega
  have hpos := UInt32.pos_iff_ne_zero.mpr hsome
  by_cases hfit : 4096 + (storedHeader (content sm.device.1) (fc.slotOffset slot)).size.toNat
      ≤ fc.slotSize.toNat
  · -- the image ends in the slot
    have hlast : (fc.slotOffset slot + kHeaderReserved).toNat
        + (storedHeader (content sm.device.1) (fc.slotOffset slot)).size.toNat
        ≤ (fc.slotOffset slot).toNat + fc.slotSize.toNat := by omega
    have hin := verifyLoop_inside hr
      (storedHeader (content sm.device.1) (fc.slotOffset slot)).size.toNat _
      (fc.slotOffset slot + kHeaderReserved) Crc32.initial hb' hlow hlast hhead
    rw [hres, ← hloop] at hin
    exact ⟨fun _ => Or.inl hfit, fun _ => ⟨fun _ => hfit, hin⟩⟩
  have hover : (fc.slotOffset slot).toNat + fc.slotSize.toNat
      < (fc.slotOffset slot + kHeaderReserved).toNat
        + (storedHeader (content sm.device.1) (fc.slotOffset slot)).size.toNat := by omega
  by_cases hstop : ChunkStops sm.target b.totalSize.toNat ((fc.slotOffset slot).toNat + 4096)
      (storedHeader (content sm.device.1) (fc.slotOffset slot)).size.toNat
      ((fc.slotOffset slot).toNat + fc.slotSize.toNat)
  · obtain ⟨hfail, hin⟩ := verifyLoop_stopped hr _ (fc.slotOffset slot + kHeaderReserved)
      Crc32.initial hb' (Nat.le_refl _) hlow hpos hover (by rw [htarget, hbody]; exact hstop) hhead
    rw [hres] at hfail
    rw [hres, ← hloop] at hin
    refine ⟨fun _ => Or.inr hstop, fun _ => ⟨fun h => ?_, hin⟩⟩
    rw [hnone hfail] at h
    exact absurd h (by simp)
  · -- a byte of what follows the slot is read
    obtain ⟨acc, hacc, a, htouch, ha⟩ := verifyLoop_overrun hr _
      (fc.slotOffset slot + kHeaderReserved) Crc32.initial hb' (Nat.le_refl _) hpos hover
      (by rw [htarget, hbody]; exact hstop)
    rw [hres, ← hloop] at hacc
    refine ⟨fun hfits => ?_, fun h => absurd h (not_or.mpr ⟨hfit, hstop⟩)⟩
    have := hfits.reads acc hacc a htouch
    omega

end Slot

/--
**When a verified image fits its slot.** For every content of the flash, and so for every header,
and every layout of the slots: `verify` accepts nothing longer than the slot and reads nothing
outside it exactly when the header and the image it announces stay in the slot, or the reading of
them stops there, for which there is nothing but the end of the flash.
-/
theorem verified_image_fits_iff (content : δ → Nat → UInt8) (hr : b.Readable content)
    {sm : StorageManager (δ × List FlashAccess)} (hb : sm.backend = some b.recorded)
    (hlog : sm.device.2 = []) (fc : FirmwareCache) (slot : UInt8) :
    VerifyStaysInSlot content fc sm slot ↔ StopsInSlot content b fc sm slot := by
  by_cases hs : slot ≤ 1
  case neg =>
    -- no other slot is looked at
    have hv := verify_high (UInt8.not_le.mp hs) fc sm
    refine ⟨fun _ h => absurd h hs, fun _ => ⟨fun h => ?_, ?_⟩⟩
    · rw [hv] at h
      exact absurd h (by simp)
    · rw [hv, hlog]
      exact fun acc hacc => absurd hacc (by simp)
  by_cases hin : b.totalSize.toNat < sm.target.size ((fc.slotOffset slot).toNat + headerSize)
      ∨ headerSize ≤ fc.slotSize.toNat
  case neg =>
    -- the last byte of the header is outside
    obtain ⟨hthrough, hshort⟩ := not_or.mp hin
    have hkept := verify_header_kept hb hs (Nat.le_of_not_lt hthrough)
    refine ⟨fun hfits => ?_, fun hstops => absurd (hstops hs).1 hin⟩
    have hbelow := hfits.reads _ hkept ((fc.slotOffset slot).toNat + headerSize - 1)
      ⟨by unfold headerSize; omega, by unfold headerSize; omega⟩
    omega
  have hhead := header_addressed hb hlog hs hin
  by_cases hF : Flagged b.totalSize.toNat (content sm.device.1) (fc.slotOffset slot)
  case neg =>
    have hv := verify_unflagged hr hb hs hF
    refine ⟨fun _ _ => ⟨hin, fun hF' => absurd hF' hF⟩, fun _ => ⟨fun h => ?_, ?_⟩⟩
    · rw [hv] at h
      exact absurd h (by simp)
    · rw [hv]
      exact hhead
  have hbody : VerifyStaysInSlot content fc sm slot
      ↔ BodyStops sm.target b.totalSize.toNat (fc.slotOffset slot) fc.slotSize
        (storedHeader (content sm.device.1) (fc.slotOffset slot)) := by
    by_cases hzero : (storedHeader (content sm.device.1) (fc.slotOffset slot)).size = 0
    · rw [empty_fits_iff hr hb hs hF hhead hzero]
      exact ⟨fun h => Or.inl ⟨hzero, h⟩, fun h => (h.resolve_right fun h' => h'.1 hzero).2⟩
    · by_cases hwrap : (fc.slotOffset slot).toNat + 4096 < 4294967296
      · rw [body_fits_iff hr hb hs hF hhead hzero hwrap]
        exact ⟨fun h => Or.inr ⟨hzero, hwrap, h⟩, fun h =>
          (h.resolve_left fun h' => hzero h'.1).2.2⟩
      · refine ⟨fun hfits => absurd hfits ?_, fun h => ?_⟩
        · exact wrapped_not_fits hr hb hs hF hzero (Nat.le_of_not_lt hwrap)
        · exact absurd (h.resolve_left fun h' => hzero h'.1).2.1 hwrap
  exact ⟨fun hfits _ => ⟨hin, fun _ => hbody.mp hfits⟩, fun hstops => hbody.mpr ((hstops hs).2 hF)⟩

end Recorded

/-- A header just laid down is the one stored. -/
theorem storedHeader_overlay (m : Nat → UInt8) (off : UInt32) (hdr : FirmwareHeader) :
    storedHeader (overlay m off.toNat hdr.toBytes) off = hdr := by
  rw [storedHeader, show headerSize = hdr.toBytes.length from rfl, slice_overlay,
    FirmwareHeader.ofBytes_toBytes]

/-- An image with its header is whole, however long, if the flash holds it. -/
theorem withImage_verifies {total : Nat} (htotal : total < 4294967296) (m : Nat → UInt8)
    (off : UInt32) (slot : UInt8) {data : List UInt8}
    (hin : off.toNat + 4096 + data.length ≤ total) :
    (storedHeader (withImage m off.toNat slot data) off).size.toNat = data.length
      ∧ Verifies total (withImage m off.toNat slot data) off := by
  have hbody := bodyOffset_toNat off (by omega)
  have hhdr : storedHeader (withImage m off.toNat slot data) off
      = { magic := kFirmwareMagic, size := UInt32.ofNat data.length,
          crc32 := Crc32.compute data, slot := slot, flags := 0x01 } :=
    storedHeader_overlay _ _ _
  have hsize : (storedHeader (withImage m off.toNat slot data) off).size.toNat = data.length := by
    rw [hhdr]
    exact UInt32.toNat_ofNat'.trans (Nat.mod_eq_of_lt (by omega))
  -- the header ends long before the image begins
  have hslice : slice (withImage m off.toNat slot data) (off.toNat + 4096) data.length = data := by
    have hagree : AgreeOn (off.toNat + 4096) (off.toNat + 4096 + data.length)
        (withImage m off.toNat slot data) (overlay m (off.toNat + kHeaderReserved.toNat) data) := by
      intro a hlow _
      exact overlay_of_ge (by rw [FirmwareHeader.length_toBytes]; omega)
    rw [slice_congr hagree]
    exact slice_overlay m (off.toNat + 4096) data
  have hvalid : (storedHeader (withImage m off.toNat slot data) off).validFlag = true := by
    rw [hhdr]
    simp [FirmwareHeader.validFlag]
  refine ⟨hsize, ⟨by unfold headerSize; omega, by rw [hhdr], hvalid⟩, Or.inr ?_, ?_⟩
  · rw [hbody, hsize]
    exact hin
  · rw [hbody, hsize, hslice, hhdr]

/-- The test's flash under watch, with an image in slot A. -/
def watchedStorage (data : List UInt8) : StorageManager ((Nat → UInt8) × List FlashAccess) where
  target := .host
  backend := some (memBackend 0x10000 4096).recorded
  device := (withImage testStorage.device 0x1000 0 data, [])

/-- One byte stays in the slot. -/
theorem verified_image_fits_one_byte : VerifyStaysInSlot id testCache (watchedStorage [1]) 0 := by
  refine (verified_image_fits_iff id (memBackend_readable 0x10000 4096) rfl rfl testCache 0).mpr
    fun _ => ⟨Or.inr (by decide), fun _ => Or.inr ⟨?_, by decide, Or.inl ?_⟩⟩
  · decide
  · decide

/-- The slots of the test end where the image of `0x3001` bytes does not. -/
theorem overlong_verifies {data : List UInt8} (hlen : data.length = 0x3001) :
    (testCache.verify (watchedStorage data) 0).1 = true
      ∧ ¬ VerifyStaysInSlot id testCache (watchedStorage data) 0 := by
  have hin : (testCache.slotOffset 0).toNat + 4096 + data.length ≤ 0x10000 := by
    rw [hlen]
    decide
  obtain ⟨hsize, hwhole⟩ := withImage_verifies (by decide) testStorage.device
    (testCache.slotOffset 0) 0 hin
  have hverify : (testCache.verify (watchedStorage data) 0).1 = true :=
    (verify_iff (watchedStorage data) rfl
      (recorded_readable (memBackend_readable 0x10000 4096)) testCache (by decide)).mpr hwhole
  refine ⟨hverify, fun h => ?_⟩
  have hfit : 4096 + (storedHeader (withImage testStorage.device (testCache.slotOffset 0).toNat 0
      data) (testCache.slotOffset 0)).size.toNat ≤ testCache.slotSize.toNat := h.size hverify
  rw [hsize, hlen] at hfit
  exact absurd hfit (by decide)

/--
**An image one byte too long for slot A verifies**, over the first byte of slot B.
-/
theorem verified_image_overlong :
    (testCache.verify (watchedStorage (List.replicate 0x3001 0xFF)) 0).1 = true
      ∧ ¬ VerifyStaysInSlot id testCache (watchedStorage (List.replicate 0x3001 0xFF)) 0 :=
  overlong_verifies List.length_replicate

end TaktOS.Proof
