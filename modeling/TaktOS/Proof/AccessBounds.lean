import TaktOS.Proof.EraseLoop
import TaktOS.Proof.PartitionAccess

/-!
# Which accesses the checks let through

Both checks compare a sum with the size, and on the device the sum is a `size_t` of 32 bits. So a
range that wraps passes them, an erase reaches up to the end of the last sector, and
`eraseSector` asks nothing at all.
-/

namespace TaktOS.Proof

open Lib

variable {δ : Type} {b : FlashBackend δ} {log : δ → List FlashAccess}

/-! ## The calls -/

inductive StorageCall where
  | read (offset : UInt32) (buf : List UInt8)
  | write (offset : UInt32) (buf : List UInt8)
  | eraseSector (offset : UInt32)

namespace StorageCall

/-- The storage after the call, where it returns. -/
def run (sm : StorageManager δ) : StorageCall → Option (StorageManager δ)
  | read offset buf => some (sm.read offset buf).2.2
  | write offset buf => (sm.write offset buf).map fun w => w.2
  | eraseSector offset => some (sm.eraseSector offset).2

/--
The call is refused or has nothing to access, or all of it is in a flash of `total` bytes: the
range that is read, the sectors of the range that is written, the sector that is erased.
-/
def Fits (total S : Nat) : StorageCall → Prop
  | read offset buf =>
    total < Target.esp32.size (offset.toNat + buf.length) ∨ buf.length = 0
      ∨ offset.toNat + buf.length ≤ total
  | write offset buf =>
    total < Target.esp32.size (offset.toNat + buf.length) ∨ S = 0
      ∨ 0 < offset.toNat + buf.length ∧ blockCeil S (offset.toNat + buf.length) ≤ total
  | eraseSector offset => S = 0 ∨ offset.toNat + S ≤ total

end StorageCall

/-- Every byte that was addressed is in the flash. -/
def InBounds (total : Nat) (log : List FlashAccess) : Prop :=
  ∀ acc ∈ log, ∀ a, acc.Touches a → a < total

theorem inBounds_single {total : Nat} {acc : FlashAccess} :
    InBounds total [acc] ↔ ∀ a, acc.Touches a → a < total := by
  simp [InBounds]

theorem inBounds_nil (total : Nat) : InBounds total [] := fun _ h => absurd h List.not_mem_nil

/-! ## What fits stays inside -/

/-- Everything the device is asked for is on record, if it is not turned down before. -/
structure Watched (b : FlashBackend δ) (log : δ → List FlashAccess) : Prop where
  read : ∀ d off buf, log (b.read d off buf).2.2 = log d
    ∨ log (b.read d off buf).2.2 = .read off.toNat buf.length :: log d
  write : ∀ d off buf, log (b.write d off buf).2 = log d
    ∨ log (b.write d off buf).2 = .write off.toNat buf.length :: log d
  erase : ∀ d off len, log (b.erase d off len).2 = log d
    ∨ log (b.erase d off len).2 = .erase off.toNat len :: log d

theorem Watched.keeps (h : Watched b log) (lo hi : Nat) :
    b.Keeps lo hi (fun d => Confined lo hi (log d)) where
  read := by
    intro d off buf hd
    rcases h.read d off buf with heq | heq <;> rw [heq]
    · exact hd
    · exact hd.cons fun _ ha => ha.elim
  write := by
    intro d off buf hin hd
    rcases h.write d off buf with heq | heq <;> rw [heq]
    · exact hd
    · exact hd.cons fun a ha => hin a ha.1 ha.2
  erase := by
    intro d off len hin hd
    rcases h.erase d off len with heq | heq <;> rw [heq]
    · exact hd
    · exact hd.cons fun a ha => hin a ha.1 ha.2

def isRead : FlashAccess → Bool
  | .read _ _ => true
  | _ => false

/-- A write reads nothing. -/
theorem Watched.write_reads_nothing (h : Watched b log) {sm sm' : StorageManager δ}
    (hb : sm.backend = some b) {offset : UInt32} {buf : List UInt8} {r : Int}
    (hw : sm.write offset buf = some (r, sm')) (hlog : log sm.device = []) :
    ∀ acc ∈ log sm'.device, isRead acc = false := by
  refine write_after (P := fun d => ∀ acc ∈ log d, isRead acc = false) hb
    (fun d off len hd => ?_) (fun d hd => ?_) hw ?_
  · rcases h.erase d off len with heq | heq <;> rw [heq]
    · exact hd
    · exact List.forall_mem_cons.mpr ⟨rfl, hd⟩
  · rcases h.write d offset buf with heq | heq <;> rw [heq]
    · exact hd
    · exact List.forall_mem_cons.mpr ⟨rfl, hd⟩
  · rw [hlog]
    exact fun _ hacc => absurd hacc List.not_mem_nil

/-- **A call that fits addresses nothing outside the flash**, whatever the backend answers. -/
theorem fits_in_bounds (h : Watched b log) (sm : StorageManager δ) {sm' : StorageManager δ}
    (hb : sm.backend = some b) (ht : sm.target = .esp32) (hlog : log sm.device = [])
    {call : StorageCall} (hfit : call.Fits b.totalSize.toNat b.sectorSize.toNat)
    (hrun : call.run sm = some sm') : InBounds b.totalSize.toNat (log sm'.device) := by
  have htot := b.totalSize.toNat_lt
  cases call with
  | read offset buf =>
    injection hrun with hrun
    rw [← hrun, StorageManager.read, hb]
    dsimp only
    rw [ht]
    split
    · rw [hlog]
      exact inBounds_nil _
    · rename_i hcheck
      rcases h.read sm.device offset buf with heq | heq
      · rw [heq, hlog]
        exact inBounds_nil _
      · rw [heq, hlog, inBounds_single]
        rintro a ⟨hlow, hhigh⟩
        rcases hfit with hrefused | hnone | hin <;> omega
  | write offset buf =>
    obtain ⟨⟨r, sm₁⟩, hw, rfl⟩ := Option.map_eq_some_iff.mp hrun
    have hreads := h.write_reads_nothing hb hw hlog
    have hconf : Confined 0 b.totalSize.toNat (log sm₁.device) := by
      have hstart : Confined 0 b.totalSize.toNat (log sm.device) := by
        rw [hlog]
        exact fun _ hacc => absurd hacc List.not_mem_nil
      by_cases hcheck : sm.target.size (offset.toNat + buf.length) ≤ b.totalSize.toNat
      · have hS := sector_pos_of_write hb hcheck hw
        rw [ht] at hcheck
        rcases hfit with hrefused | hzero | ⟨h0, hin⟩
        · omega
        · omega
        · exact write_keeps hb (h.keeps 0 b.totalSize.toNat) hS htot
            (fun _ => ⟨h0, fun a _ ha => ⟨Nat.zero_le _, by omega⟩⟩) hw hstart
      · rw [write_refused hb (by omega)] at hw
        injection hw with hw; injection hw with _ hw
        rw [← hw]
        exact hstart
    intro acc hacc a ha
    cases acc with
    | read off len => exact absurd (hreads _ hacc) (by simp [isRead])
    | write off len => exact (hconf _ hacc a ha).2
    | erase off len => exact (hconf _ hacc a ha).2
  | eraseSector offset =>
    injection hrun with hrun
    rw [← hrun, StorageManager.eraseSector, hb]
    dsimp only
    rcases h.erase sm.device offset b.sectorSize.toNat with heq | heq
    · rw [heq, hlog]
      exact inBounds_nil _
    · rw [heq, hlog, inBounds_single]
      rintro a ⟨hlow, hhigh⟩
      rcases hfit with hzero | hin <;> omega

/-! ## What does not fit gets out -/

/--
A device that puts every call the checks let through on record, and turns an erase down exactly
where it would leave the flash.
-/
structure Strict (b : FlashBackend δ) (log : δ → List FlashAccess) : Prop where
  bounded : b.Bounded
  read : ∀ d (off : UInt32) buf,
    Target.esp32.size (off.toNat + buf.length) ≤ b.totalSize.toNat →
    log (b.read d off buf).2.2 = .read off.toNat buf.length :: log d
  write : ∀ d (off : UInt32) buf,
    Target.esp32.size (off.toNat + buf.length) ≤ b.totalSize.toNat →
    log (b.write d off buf).2 = .write off.toNat buf.length :: log d
  erase : ∀ d off len, log (b.erase d off len).2 = .erase off.toNat len :: log d
  erase_fails : ∀ d off len, (b.erase d off len).1 ≠ 0 →
    b.totalSize.toNat < off.toNat + len

/-- The loop ends, at the latest with an erase that gets out of the flash. -/
theorem Strict.eraseLoop_ends (h : Strict b log) (hS : 0 < b.sectorSize.toNat) {e : UInt32} :
    ∀ (fuel : Nat) {s : UInt32} {d : δ}, 0 < fuel → s.toNat * b.sectorSize.toNat < 4294967296 →
      b.totalSize.toNat < (s.toNat + fuel) * b.sectorSize.toNat →
      ∃ ok d', StorageManager.eraseLoop b e fuel s d = some (ok, d')
        ∧ (ok = false → ¬ InBounds b.totalSize.toNat (log d')) := by
  intro fuel
  induction fuel with
  | zero => intro s d hf; exact absurd hf (Nat.lt_irrefl 0)
  | succ fuel ih =>
    intro s d _ hsmall hend
    rcases Nat.lt_or_ge e.toNat s.toNat with hlt | hle
    · exact ⟨true, d, eraseLoop_done hlt, fun hc => absurd hc Bool.noConfusion⟩
    · rw [eraseLoop_succ hle]
      split
      · -- the last byte of the sector is outside
        rename_i hcode
        have hout := h.erase_fails _ _ _ hcode
        refine ⟨false, _, rfl, fun _ hin => ?_⟩
        have hlast := hin (.erase (s * b.sectorSize).toNat b.sectorSize.toNat)
          (by rw [h.erase]; exact List.mem_cons_self)
          ((s * b.sectorSize).toNat + b.sectorSize.toNat - 1) ⟨by omega, by omega⟩
        omega
      · rename_i hcode
        obtain ⟨hsucc, hnext⟩ := nextSector h.bounded hS hsmall (Decidable.not_not.mp hcode)
        have htot := b.totalSize.toNat_lt
        refine ih (Nat.pos_of_ne_zero fun hz => ?_) (by rw [hsucc]; omega) ?_
        · rw [hz, Nat.zero_add] at hend
          omega
        · rw [hsucc, show s.toNat + 1 + fuel = s.toNat + (fuel + 1) by omega]
          exact hend

/-- **A call that does not fit gets out of such a flash.** -/
theorem Strict.fits (h : Strict b log) (sm : StorageManager δ) (hb : sm.backend = some b)
    (ht : sm.target = .esp32) {call : StorageCall}
    (hsafe : ∀ sm', call.run sm = some sm' → InBounds b.totalSize.toNat (log sm'.device)) :
    call.Fits b.totalSize.toNat b.sectorSize.toNat := by
  have htot := b.totalSize.toNat_lt
  cases call with
  | read offset buf =>
    by_cases hcheck : Target.esp32.size (offset.toNat + buf.length) ≤ b.totalSize.toNat
    · right
      have hin := hsafe _ rfl
      rw [StorageManager.read, hb] at hin
      dsimp only at hin
      rw [ht, if_neg (Nat.not_lt.mpr hcheck)] at hin
      dsimp only at hin
      rw [h.read _ _ _ hcheck] at hin
      rcases Nat.eq_zero_or_pos buf.length with hz | hpos
      · exact Or.inl hz
      · have hlast := hin _ List.mem_cons_self (offset.toNat + buf.length - 1)
          ⟨by omega, by omega⟩
        exact Or.inr (by omega)
    · exact Or.inl (by omega)
  | write offset buf =>
    by_cases hcheck : Target.esp32.size (offset.toNat + buf.length) ≤ b.totalSize.toNat
    · right
      rcases Nat.eq_zero_or_pos b.sectorSize.toNat with hz | hS
      · exact Or.inl hz
      · right
        have hoff := offset.toNat_lt
        have hfloor := blockFloor_le b.sectorSize.toNat offset.toNat
        have hdiv : (offset / b.sectorSize).toNat = offset.toNat / b.sectorSize.toNat :=
          UInt32.toNat_div _ _
        have hfuel := Nat.mul_le_mul_left ((offset / b.sectorSize).toNat + 2 ^ 32) hS
        unfold blockFloor at hfloor
        obtain ⟨ok, d, hloop, hfalse⟩ := h.eraseLoop_ends hS
          (e := StorageManager.endSector sm.target offset buf.length b.sectorSize) (2 ^ 32)
          (s := offset / b.sectorSize) (d := sm.device) (by decide)
          (by rw [hdiv]; omega) (by omega)
        have hwrite := write_loop sm hb hS (by rw [ht]; exact hcheck)
        rw [hloop] at hwrite
        cases ok with
        | false =>
          exact absurd (hsafe { sm with device := d }
            (by rw [StorageCall.run, hwrite]; rfl)) (hfalse rfl)
        | true =>
          -- everything was erased that had to be, and then the range was written
          have hin := hsafe { sm with device := (b.write d offset buf).2 }
            (by rw [StorageCall.run, hwrite]; rfl)
          dsimp only at hin
          rw [h.write _ _ _ hcheck] at hin
          have hend := fun hle => eraseLoop_inside h.bounded hS (2 ^ 32) hle
            (by rw [hdiv]; omega) hloop
          rw [ht] at hend
          have h0 : 0 < offset.toNat + buf.length := by
            refine Nat.pos_of_ne_zero fun hz => ?_
            have hlast := endSector_of_zero_ge .esp32 hS offset buf.length (by rw [hz]; rfl)
            have := hend (by rw [hdiv, show offset.toNat = 0 by omega, Nat.zero_div]; omega)
            omega
          have hrange : offset.toNat + buf.length ≤ b.totalSize.toNat := by
            rcases Nat.eq_zero_or_pos buf.length with hz | hpos
            · rw [hz, Nat.add_zero, size_of_lt .esp32 hoff] at hcheck
              omega
            · have hlast := hin _ List.mem_cons_self (offset.toNat + buf.length - 1)
                ⟨by omega, by omega⟩
              omega
          refine ⟨h0, ?_⟩
          rw [← endSector_ceil hS h0, ← endSector_toNat .esp32 b.sectorSize h0 (by omega)]
          rcases Nat.lt_or_ge
            (StorageManager.endSector .esp32 offset buf.length b.sectorSize).toNat
            (offset / b.sectorSize).toNat with hlt | hle
          · -- nothing was erased: the range is empty and begins a sector
            have := Nat.mul_le_mul_right b.sectorSize.toNat hlt
            rw [hdiv] at this
            exact Nat.le_trans this (by omega)
          · exact hend hle
    · exact Or.inl (by omega)
  | eraseSector offset =>
    have hin := hsafe _ rfl
    rw [StorageManager.eraseSector, hb] at hin
    dsimp only at hin
    rw [h.erase] at hin
    rcases Nat.eq_zero_or_pos b.sectorSize.toNat with hz | hS
    · exact Or.inl hz
    · have hlast := hin _ List.mem_cons_self (offset.toNat + b.sectorSize.toNat - 1)
        ⟨by omega, by omega⟩
      exact Or.inr (by omega)

/-! ## The two layers -/

theorem recorded_watched (b : FlashBackend δ) : Watched b.recorded (fun d => d.2) where
  read _ _ _ := Or.inr rfl
  write _ _ _ := Or.inr rfl
  erase _ _ _ := Or.inr rfl

theorem memBackend_strict (kSize sectorSize : UInt32) :
    Strict (memBackend kSize sectorSize).recorded (fun d => d.2) where
  bounded :=
    { write_outside := fun d => (memBackend_bounded kSize sectorSize).write_outside d.1
      erase_outside := fun d => (memBackend_bounded kSize sectorSize).erase_outside d.1 }
  read _ _ _ _ := rfl
  write _ _ _ _ := rfl
  erase _ _ _ := rfl
  erase_fails := by
    intro d off len hcode
    simp only [FlashBackend.recorded, memBackend] at hcode ⊢
    split at hcode
    · assumption
    · exact absurd rfl hcode

/-- The ESP-IDF with the partition calls it receives on record, counted from the partition's
start. -/
def recordedIdf (idf : EspIdf δ) : EspIdf (δ × List FlashAccess) where
  findFirst := idf.findFirst
  read d p off buf :=
    let (ok, buf', d') := idf.read d.1 p off buf
    (ok, buf', d', .read off buf.length :: d.2)
  write d p off buf :=
    let (ok, d') := idf.write d.1 p off buf
    (ok, d', .write off buf.length :: d.2)
  eraseRange d p off len :=
    let (ok, d') := idf.eraseRange d.1 p off len
    (ok, d', .erase off len :: d.2)
  running := idf.running
  nextUpdate := idf.nextUpdate
  description := idf.description

theorem partition_watched (idf : EspIdf δ) (part : EspTableEntry) :
    Watched (partitionBackend (recordedIdf idf) part) (fun d => d.2) where
  read := by
    intro d off buf
    simp only [partitionBackend, partitionRead]
    split
    · exact Or.inl rfl
    · exact Or.inr rfl
  write := by
    intro d off buf
    simp only [partitionBackend, partitionWrite]
    split
    · exact Or.inl rfl
    · exact Or.inr rfl
  erase _ _ _ := Or.inr rfl

theorem partition_strict (part : EspTableEntry) :
    Strict (partitionBackend (recordedIdf (chip [part] none)) part) (fun d => d.2) where
  bounded :=
    { write_outside := by
        intro d off buf hout
        simp only [partitionBackend, partitionWrite, recordedIdf, chip] at hout ⊢
        split
        · exact show (-1 : Int) < 0 by decide
        · rw [if_neg (Nat.not_le.mpr hout)]
          exact show (-1 : Int) < 0 by decide
      erase_outside := by
        intro d off len hout
        simp only [partitionBackend, partitionErase, recordedIdf, chip] at hout ⊢
        rw [if_neg (Nat.not_le.mpr hout)]
        exact show (-1 : Int) ≠ 0 by decide }
  read := by
    intro d off buf hcheck
    simp only [partitionBackend, partitionRead] at hcheck ⊢
    rw [if_neg (by omega)]
    rfl
  write := by
    intro d off buf hcheck
    simp only [partitionBackend, partitionWrite] at hcheck ⊢
    rw [if_neg (by omega)]
    rfl
  erase _ _ _ := rfl
  erase_fails := by
    intro d off len hcode
    simp only [partitionBackend, partitionErase, recordedIdf, chip] at hcode ⊢
    split at hcode
    · exact absurd rfl hcode
    · omega

/-- Whatever the backend does, what the call asks of it is in the flash. -/
def StaysInFlash (total S : UInt32) (call : StorageCall) : Prop :=
  ∀ (δ : Type) (b : FlashBackend δ) (d : δ) (sm' : StorageManager (δ × List FlashAccess)),
    b.totalSize = total → b.sectorSize = S → call.run (watching b .esp32 d) = some sm' →
    InBounds total.toNat sm'.device.2

/-- A storage on a partition, with the calls the ESP-IDF receives on record. -/
def onPartition (idf : EspIdf δ) (part : EspTableEntry) (d : δ) :
    StorageManager (δ × List FlashAccess) where
  target := .esp32
  backend := some (partitionBackend (recordedIdf idf) part)
  device := (d, [])

/-- Whatever the ESP-IDF does, what the call asks of it through the partition backend is in the
partition. -/
def StaysInPartition (part : EspTableEntry) (call : StorageCall) : Prop :=
  ∀ (δ : Type) (idf : EspIdf δ) (d : δ) (sm' : StorageManager (δ × List FlashAccess)),
    call.run (onPartition idf part d) = some sm' → InBounds part.size.toNat sm'.device.2

/--
**Which calls stay in bounds on the device.** Exactly those that fit, at either layer: a partition
is a flash of its size with sectors of 4096 bytes.
-/
theorem accesses_in_bounds_iff (call : StorageCall) :
    (∀ total S : UInt32, StaysInFlash total S call ↔ call.Fits total.toNat S.toNat)
      ∧ ∀ part : EspTableEntry, StaysInPartition part call ↔ call.Fits part.size.toNat 4096 := by
  constructor
  · intro total S
    constructor
    · intro h
      exact (memBackend_strict total S).fits (watching (memBackend total S) .esp32 fun _ => 0)
        rfl rfl fun sm' hrun => h _ (memBackend total S) _ sm' rfl rfl hrun
    · rintro hfit δ b d sm' rfl rfl hrun
      exact fits_in_bounds (recorded_watched b) (watching b .esp32 d) rfl rfl rfl hfit hrun
  · intro part
    constructor
    · intro h
      exact (partition_strict part).fits
        (onPartition (chip [part] none) part (fun _ => 0, [])) rfl rfl
        fun sm' hrun => h _ (chip [part] none) _ sm' hrun
    · intro hfit δ idf d sm' hrun
      exact fits_in_bounds (partition_watched idf part) (onPartition idf part d) rfl rfl rfl hfit
        hrun

/-- **Two bytes from the last address on**: the sum is 1, and both checks let the read through. -/
theorem wrapping_read_let_through :
    (StorageCall.read 0xFFFFFFFF [0, 0]).run (onPartition csvChip csvStorage (fun _ => 0, []))
        = some { onPartition csvChip csvStorage (fun _ => 0, []) with
          device := ((fun _ => 0, []), [.read 0xFFFFFFFF 2]) }
      ∧ ¬ StaysInPartition csvStorage (.read 0xFFFFFFFF [0, 0])
      ∧ ¬ StaysInFlash 0x10000 4096 (.read 0xFFFFFFFF [0, 0]) := by
  have hpart : (StorageCall.read 0xFFFFFFFF [0, 0]).run
      (onPartition csvChip csvStorage (fun _ => 0, []))
      = some { onPartition csvChip csvStorage (fun _ => 0, []) with
        device := ((fun _ => 0, []), [.read 0xFFFFFFFF 2]) } := rfl
  refine ⟨hpart, fun h => ?_, fun h => ?_⟩
  · exact absurd (inBounds_single.mp (h _ _ _ _ hpart) 0xFFFFFFFF ⟨by decide, by decide⟩)
      (by decide)
  · have hflash : (StorageCall.read 0xFFFFFFFF [0, 0]).run
        (watching (memBackend 0x10000 4096) .esp32 fun _ => 0)
        = some { watching (memBackend 0x10000 4096) .esp32 fun _ => 0 with
          device := (fun _ => 0, [.read 0xFFFFFFFF 2]) } := rfl
    exact absurd (inBounds_single.mp (h _ _ _ _ rfl rfl hflash) 0xFFFFFFFF
      ⟨by decide, by decide⟩) (by decide)

end TaktOS.Proof
