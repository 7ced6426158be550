import Mathlib.Data.List.Nodup
import TaktOS.Proof.Storage

/-!
# Which sectors a write erases

The last sector is `(offset + len - 1) / sector`, computed in `size_t` and kept in 32 bits, and the
loop goes up to it with `<=`. That is the last sector the range touches unless the range is empty
or its end wraps: one less than 0 is the largest `size_t`, a range that wraps ends before it begins,
and the byte before an empty range lies in the range's sector unless it begins there.
-/

namespace TaktOS.Proof

open Lib

variable {δ : Type} {b : FlashBackend δ}

/-! ## The loop over a backend with an end -/

/-- Behind a sector that was erased there is another number, and the flash is no shorter. -/
theorem nextSector (hbd : b.Bounded) (hS : 0 < b.sectorSize.toNat) {s : UInt32} {d : δ}
    (hsmall : s.toNat * b.sectorSize.toNat < 4294967296)
    (hcode : (b.erase d (s * b.sectorSize) b.sectorSize.toNat).1 = 0) :
    (s + 1).toNat = s.toNat + 1 ∧ (s.toNat + 1) * b.sectorSize.toNat ≤ b.totalSize.toNat := by
  have hin := hbd.erased_inside hcode
  have hnext : (s.toNat + 1) * b.sectorSize.toNat
      = s.toNat * b.sectorSize.toNat + b.sectorSize.toNat := Nat.succ_mul _ _
  rw [toNat_mul hsmall, ← hnext] at hin
  have htot := b.totalSize.toNat_lt
  have hmul := Nat.mul_le_mul_left (s.toNat + 1) hS
  exact ⟨toNat_succ (by omega), hin⟩

/-- What erases of the sectors from `s` to `e` keep, the loop keeps. No sector it gets to wraps. -/
theorem eraseLoop_from (hbd : b.Bounded) (hS : 0 < b.sectorSize.toNat) {P : δ → Prop} {e : UInt32}
    (lo : Nat)
    (hk : ∀ d (s : UInt32), lo ≤ s.toNat → s.toNat ≤ e.toNat →
      (s * b.sectorSize).toNat = s.toNat * b.sectorSize.toNat → P d →
      P (b.erase d (s * b.sectorSize) b.sectorSize.toNat).2) :
    ∀ (fuel : Nat) {s : UInt32} {d d' : δ} {ok : Bool}, lo ≤ s.toNat →
      s.toNat * b.sectorSize.toNat < 4294967296 →
      StorageManager.eraseLoop b e fuel s d = some (ok, d') → P d → P d' := by
  intro fuel
  induction fuel with
  | zero => intro s d d' ok _ _ h _; exact absurd h (by simp [StorageManager.eraseLoop])
  | succ fuel ih =>
    intro s d d' ok hlo hsmall h hp
    rcases Nat.lt_or_ge e.toNat s.toNat with hlt | hle
    · rw [eraseLoop_done hlt] at h
      injection h with h; injection h with _ h
      exact h ▸ hp
    · have hp' := hk d s hlo hle (toNat_mul hsmall) hp
      rw [eraseLoop_succ hle] at h
      split at h
      · injection h with h; injection h with _ h
        exact h ▸ hp'
      · -- erased, so the sector is in the flash and the next one does not wrap
        rename_i hcode
        obtain ⟨hsucc, hnext⟩ := nextSector hbd hS hsmall (Decidable.not_not.mp hcode)
        have htot := b.totalSize.toNat_lt
        exact ih (by omega) (by rw [hsucc]; omega) h hp'

/-- A loop that erased something and came to its end did not leave the flash. -/
theorem eraseLoop_inside (hbd : b.Bounded) (hS : 0 < b.sectorSize.toNat) {e : UInt32} :
    ∀ (fuel : Nat) {s : UInt32} {d d' : δ}, s.toNat ≤ e.toNat →
      s.toNat * b.sectorSize.toNat < 4294967296 →
      StorageManager.eraseLoop b e fuel s d = some (true, d') →
      (e.toNat + 1) * b.sectorSize.toNat ≤ b.totalSize.toNat := by
  intro fuel
  induction fuel with
  | zero => intro s d d' _ _ h; exact absurd h (by simp [StorageManager.eraseLoop])
  | succ fuel ih =>
    intro s d d' hle hsmall h
    rw [eraseLoop_succ hle] at h
    split at h
    · exact absurd h (by simp)
    · rename_i hcode
      obtain ⟨hsucc, hnext⟩ := nextSector hbd hS hsmall (Decidable.not_not.mp hcode)
      rcases Nat.lt_or_ge s.toNat e.toNat with hlt | hge
      · have htot := b.totalSize.toNat_lt
        exact ih (by omega) (by rw [hsucc]; omega) h
      · rw [show e.toNat = s.toNat by omega]
        exact hnext

/-! ## The last sector -/

/-- The end sector as it comes out of the sum the build computes. -/
theorem endSector_of_pos (t : Target) (sector offset : UInt32) (len : Nat)
    (hpos : 0 < t.size (offset.toNat + len)) (hlt : t.size (offset.toNat + len) < 4294967296) :
    (StorageManager.endSector t offset len sector).toNat
      = (t.size (offset.toNat + len) - 1) / sector.toNat := by
  have hdiv := Nat.div_le_self (t.size (offset.toNat + len) - 1) sector.toNat
  rw [StorageManager.endSector, size_pred t hpos hlt, UInt32.toNat_ofNat']
  exact Nat.mod_eq_of_lt (by omega)

/-- One less than 0 is the largest `size_t`. -/
theorem endSector_of_zero (t : Target) (sector offset : UInt32) (len : Nat)
    (hzero : t.size (offset.toNat + len) = 0) :
    (StorageManager.endSector t offset len sector).toNat
      = (2 ^ t.sizeBits - 1) / sector.toNat % 4294967296 := by
  have hmax : t.size (0 + (2 ^ t.sizeBits - 1)) = 2 ^ t.sizeBits - 1 := by
    rw [Nat.zero_add]
    exact Nat.mod_eq_of_lt (Nat.sub_lt (Nat.two_pow_pos _) Nat.one_pos)
  rw [StorageManager.endSector, hzero, hmax, UInt32.toNat_ofNat']

/-- So the sectors up to it cover every address there is, cut to 32 bits or not. -/
theorem endSector_of_zero_ge (t : Target) {sector : UInt32} (hS : 0 < sector.toNat)
    (offset : UInt32) (len : Nat) (hzero : t.size (offset.toNat + len) = 0) :
    4294967296 ≤ ((StorageManager.endSector t offset len sector).toNat + 1) * sector.toNat := by
  rw [endSector_of_zero t sector offset len hzero]
  generalize hq : (2 ^ t.sizeBits - 1) / sector.toNat = q
  have hle : q * sector.toNat ≤ 2 ^ t.sizeBits - 1 := by
    rw [← hq]
    exact Nat.div_mul_le_self _ _
  have hgt : 2 ^ t.sizeBits - 1 < q * sector.toNat + sector.toNat := by
    have := lt_blockFloor_add hS (2 ^ t.sizeBits - 1)
    rw [blockFloor, hq] at this
    exact this
  -- `q` is `h * 2 ^ 32` and the rest, and `h` sectors do not make 2 ^ 32
  have hsplit : q * sector.toNat
      = 4294967296 * (q / 4294967296 * sector.toNat) + q % 4294967296 * sector.toNat := by
    rw [← Nat.mul_assoc, ← Nat.add_mul, Nat.div_add_mod]
  rw [Nat.succ_mul]
  cases t with
  | host =>
    have hbits : (2 : Nat) ^ Target.host.sizeBits = 18446744073709551616 := by decide
    omega
  | esp32 =>
    have hbits : (2 : Nat) ^ Target.esp32.sizeBits = 4294967296 := by decide
    omega

/-! ## What the loop erases -/

def isErase : FlashAccess → Bool
  | .erase _ _ => true
  | _ => false

/-- The erases on record, in the order they were made. -/
def erasesIn (log : List FlashAccess) : List FlashAccess := log.reverse.filter isErase

/-- Sector `s` shares a byte with the range. -/
def Meets (S s off len : Nat) : Prop := ∃ a, off ≤ a ∧ a < off + len ∧ s * S ≤ a ∧ a < s * S + S

/-- The sectors that share a byte with a range are those from its first byte's to its last's. -/
theorem meets_iff {S s off len : Nat} (hS : 0 < S) (hlen : 0 < len) :
    Meets S s off len ↔ off / S ≤ s ∧ s ≤ (off + len - 1) / S := by
  have hsector : ∀ a, s * S ≤ a ∧ a < s * S + S ↔ a / S = s := by
    intro a
    rw [Nat.div_eq_iff hS]
    omega
  constructor
  · rintro ⟨a, hlow, hhigh, ha⟩
    rw [hsector] at ha
    rw [← ha]
    exact ⟨Nat.div_le_div_right hlow, Nat.div_le_div_right (by omega)⟩
  · rintro ⟨hfirst, hlast⟩
    rw [Nat.le_div_iff_mul_le hS] at hlast
    rw [Nat.div_le_iff_le_mul_add_pred hS] at hfirst
    rcases Nat.lt_or_ge off (s * S) with hlt | hge
    · exact ⟨s * S, by omega, by omega, by omega, by omega⟩
    · exact ⟨off, by omega, by omega, hge, by rw [Nat.mul_comm S s] at hfirst; omega⟩

theorem not_meets_nil (S s off : Nat) : ¬ Meets S s off 0 := by
  rintro ⟨a, _, _, _⟩
  omega

@[simp] theorem erasesIn_erase (off len : Nat) (log : List FlashAccess) :
    erasesIn (.erase off len :: log) = erasesIn log ++ [.erase off len] := by
  simp [erasesIn, isErase]

@[simp] theorem erasesIn_write (off len : Nat) (log : List FlashAccess) :
    erasesIn (.write off len :: log) = erasesIn log := by
  simp [erasesIn, isErase]

variable {e s : UInt32} {d d' : δ × List FlashAccess} {ok : Bool} {fuel : Nat}

/-- The sector the loop starts at is erased before anything is decided. -/
theorem eraseLoop_first (hle : s.toNat ≤ e.toNat)
    (h : StorageManager.eraseLoop b.recorded e fuel s d = some (ok, d')) :
    .erase (s * b.sectorSize).toNat b.sectorSize.toNat ∈ erasesIn d'.2 := by
  cases fuel with
  | zero => exact absurd h (by simp [StorageManager.eraseLoop])
  | succ fuel =>
    have hnew : .erase (s * b.sectorSize).toNat b.sectorSize.toNat ∈ erasesIn
        (b.recorded.erase d (s * b.sectorSize) b.sectorSize.toNat).2.2 := by
      rw [show (b.recorded.erase d (s * b.sectorSize) b.sectorSize.toNat).2.2
        = .erase (s * b.sectorSize).toNat b.sectorSize.toNat :: d.2 from rfl, erasesIn_erase]
      exact List.mem_append_right _ (List.mem_singleton_self _)
    rw [eraseLoop_succ hle] at h
    split at h
    · injection h with h; injection h with _ h
      rw [← h]
      exact hnew
    · refine eraseLoop_after
        (P := fun d => .erase (s * b.sectorSize).toNat b.sectorSize.toNat ∈ erasesIn d.2)
        (fun d i _ hd => ?_) fuel h hnew
      rw [show (b.recorded.erase d (i * b.recorded.sectorSize) b.recorded.sectorSize.toNat).2.2
        = .erase (i * b.sectorSize).toNat b.sectorSize.toNat :: d.2 from rfl, erasesIn_erase]
      exact List.mem_append_left _ hd

/-- Every erase the loop adds is of a sector up to the last one. -/
theorem eraseLoop_upto (h : StorageManager.eraseLoop b.recorded e fuel s d = some (ok, d'))
    (hnone : erasesIn d.2 = []) {acc : FlashAccess} (hacc : acc ∈ erasesIn d'.2) :
    ∃ i : UInt32, i.toNat ≤ e.toNat
      ∧ acc = .erase (i * b.sectorSize).toNat b.sectorSize.toNat := by
  revert acc
  refine eraseLoop_after (P := fun d => ∀ {acc}, acc ∈ erasesIn d.2 → ∃ i : UInt32,
    i.toNat ≤ e.toNat ∧ acc = .erase (i * b.sectorSize).toNat b.sectorSize.toNat)
    (fun d i hi hd acc hacc => ?_) fuel h (fun hacc => ?_)
  · rw [show (b.recorded.erase d (i * b.recorded.sectorSize) b.recorded.sectorSize.toNat).2.2
      = .erase (i * b.sectorSize).toNat b.sectorSize.toNat :: d.2 from rfl, erasesIn_erase] at hacc
    rcases List.mem_append.mp hacc with hold | hnew
    · exact hd hold
    · exact ⟨i, hi, List.mem_singleton.mp hnew⟩
  · rw [hnone] at hacc
    exact absurd hacc List.not_mem_nil

/-- **The loop over erases that succeed** ends with the sectors from `s` to `e` erased in turn. -/
theorem eraseLoop_exact (hz : ∀ d off len, (b.erase d off len).1 = 0)
    (he : e.toNat + 1 < 4294967296) (hend : e.toNat * b.sectorSize.toNat < 4294967296) :
    ∀ (n : Nat) {fuel : Nat} {s : UInt32} {d : δ × List FlashAccess}, s.toNat + n = e.toNat + 1 →
      n < fuel → ∃ d', StorageManager.eraseLoop b.recorded e fuel s d = some (true, d')
        ∧ erasesIn d'.2 = erasesIn d.2 ++ (List.range' s.toNat n).map
            fun i => .erase (i * b.sectorSize.toNat) b.sectorSize.toNat := by
  intro n
  induction n with
  | zero =>
    intro fuel s d hs hf
    obtain ⟨fuel, rfl⟩ : ∃ k, fuel = k + 1 := ⟨fuel - 1, by omega⟩
    exact ⟨d, eraseLoop_done (by omega), by simp⟩
  | succ n ih =>
    intro fuel s d hs hf
    obtain ⟨fuel, rfl⟩ : ∃ k, fuel = k + 1 := ⟨fuel - 1, by omega⟩
    have hmul : s.toNat * b.sectorSize.toNat ≤ e.toNat * b.sectorSize.toNat :=
      Nat.mul_le_mul_right _ (by omega)
    have hsucc := toNat_succ (s := s) (by omega)
    obtain ⟨d', hloop, hlog⟩ := @ih fuel (s + 1)
      (b.recorded.erase d (s * b.sectorSize) b.sectorSize.toNat).2 (by omega) (by omega)
    refine ⟨d', ?_, ?_⟩
    · rw [eraseLoop_succ (by omega)]
      exact (if_neg (not_not.mpr (hz d.1 _ _))).trans hloop
    · rw [hlog, hsucc, show (b.recorded.erase d (s * b.sectorSize) b.sectorSize.toNat).2.2
        = .erase (s * b.sectorSize).toNat b.sectorSize.toNat :: d.2 from rfl, erasesIn_erase,
        toNat_mul (by omega), List.append_assoc, List.range'_succ]
      rfl

/-- Up to the largest number there is the loop has no end. -/
theorem eraseLoop_endless {b : FlashBackend δ} (hz : ∀ d off len, (b.erase d off len).1 = 0)
    (he : e.toNat = 4294967295) :
    ∀ (fuel : Nat) (s : UInt32) (d : δ), StorageManager.eraseLoop b e fuel s d = none := by
  intro fuel
  induction fuel with
  | zero => intro s d; rfl
  | succ fuel ih =>
    intro s d
    have hs := s.toNat_lt
    rw [eraseLoop_succ (by omega), if_neg (not_not.mpr (hz _ _ _))]
    exact ih _ _

/-! ## What a write erases -/

/-- A storage whose backend is watched from here on. -/
def watching (b : FlashBackend δ) (t : Target) (d : δ) : StorageManager (δ × List FlashAccess) where
  target := t
  backend := some b.recorded
  device := (d, [])

/--
The write returns, and has erased the sectors its range shares a byte with, each of them once, and
nothing else.
-/
def ErasesExactly (b : FlashBackend δ) (t : Target) (d : δ) (offset : UInt32) (buf : List UInt8) :
    Prop :=
  ∃ r sm', (watching b t d).write offset buf = some (r, sm')
    ∧ (erasesIn sm'.device.2).Nodup
    ∧ ∀ acc, acc ∈ erasesIn sm'.device.2 ↔ ∃ s,
        Meets b.sectorSize.toNat s offset.toNat buf.length
          ∧ acc = .erase (s * b.sectorSize.toNat) b.sectorSize.toNat

variable {t : Target} {d₀ : δ} {offset : UInt32} {buf : List UInt8}

/-- The erases of a write are those of its loop. -/
theorem write_erases (hS : 0 < b.sectorSize.toNat)
    (hcheck : t.size (offset.toNat + buf.length) ≤ b.totalSize.toNat) {r : Int}
    {sm' : StorageManager (δ × List FlashAccess)}
    (h : (watching b t d₀).write offset buf = some (r, sm')) :
    ∃ ok d, StorageManager.eraseLoop b.recorded
        (StorageManager.endSector t offset buf.length b.sectorSize) (2 ^ 32)
        (offset / b.sectorSize) (d₀, []) = some (ok, d)
      ∧ erasesIn sm'.device.2 = erasesIn d.2 := by
  rw [write_loop (b := b.recorded) (watching b t d₀) rfl hS hcheck] at h
  obtain ⟨ok, d, hloop, ⟨_, _, rfl⟩ | ⟨_, _, rfl⟩⟩ := afterErase_cases h
  · exact ⟨ok, d, hloop, rfl⟩
  · exact ⟨ok, d, hloop, erasesIn_write _ _ _⟩

/-- The loop is exact up to a last sector that neither wraps nor is the largest number there is. -/
theorem write_erases_run (hz : ∀ d off len, (b.erase d off len).1 = 0)
    (hS : 0 < b.sectorSize.toNat)
    (hcheck : t.size (offset.toNat + buf.length) ≤ b.totalSize.toNat) {e : Nat}
    (hend : (StorageManager.endSector t offset buf.length b.sectorSize).toNat = e)
    (hfirst : offset.toNat / b.sectorSize.toNat ≤ e + 1) (he : e + 1 < 4294967296)
    (haddr : e * b.sectorSize.toNat < 4294967296)
    (hmeets : ∀ s, Meets b.sectorSize.toNat s offset.toNat buf.length
      ↔ offset.toNat / b.sectorSize.toNat ≤ s ∧ s ≤ e) :
    ErasesExactly b t d₀ offset buf := by
  subst hend
  have hdiv : (offset / b.sectorSize).toNat = offset.toNat / b.sectorSize.toNat :=
    UInt32.toNat_div _ _
  obtain ⟨d, hloop, hlog⟩ := @eraseLoop_exact _ b _ hz he haddr
    ((StorageManager.endSector t offset buf.length b.sectorSize).toNat + 1
      - offset.toNat / b.sectorSize.toNat) (2 ^ 32) (offset / b.sectorSize) (d₀, [])
    (by omega) (by omega)
  have hwrite := write_loop (b := b.recorded) (watching b t d₀) rfl hS hcheck
  rw [show StorageManager.eraseLoop b.recorded (StorageManager.endSector (watching b t d₀).target
    offset buf.length b.recorded.sectorSize) (2 ^ 32) (offset / b.recorded.sectorSize)
    (watching b t d₀).device = some (true, d) from hloop] at hwrite
  refine ⟨_, _, hwrite, ?_⟩
  rw [show erasesIn (b.recorded.write d offset buf).2.2 = erasesIn d.2 from erasesIn_write _ _ _,
    hlog, hdiv]
  constructor
  · -- two sectors have two addresses
    refine (List.nodup_range').map fun i j hij => ?_
    injection hij with hij _
    exact Nat.eq_of_mul_eq_mul_right hS hij
  · intro acc
    rw [show erasesIn ([] : List FlashAccess) = [] from rfl, List.nil_append, List.mem_map]
    constructor
    · rintro ⟨i, hi, rfl⟩
      rw [List.mem_range'_1] at hi
      exact ⟨i, (hmeets i).mpr (by omega), rfl⟩
    · rintro ⟨i, hi, rfl⟩
      have hi := (hmeets i).mp hi
      exact ⟨i, List.mem_range'_1.mpr (by omega), rfl⟩

/-- A range that wraps ends in a sector that was not erased. -/
theorem last_sector_missed (hS : 0 < b.sectorSize.toNat) {n w : Nat} (hw : 0 < w)
    (hsmall : w ≤ b.totalSize.toNat) (hwrap : w + 4294967296 ≤ n) {e i : UInt32}
    (he : e.toNat = (w - 1) / b.sectorSize.toNat) (hi : i.toNat ≤ e.toNat) :
    (n - 1) / b.sectorSize.toNat * b.sectorSize.toNat ≠ (i * b.sectorSize).toNat := by
  have hle : i.toNat * b.sectorSize.toNat ≤ w - 1 := by
    have := Nat.mul_le_mul_right b.sectorSize.toNat hi
    rw [he] at this
    exact Nat.le_trans this (Nat.div_mul_le_self _ _)
  have htot := b.totalSize.toNat_lt
  rw [toNat_mul (by omega)]
  intro heq
  have hnum : (n - 1) / b.sectorSize.toNat = i.toNat := Nat.eq_of_mul_eq_mul_right hS heq
  have hlt := lt_blockFloor_add hS (n - 1)
  rw [blockFloor, heq] at hlt
  have hsec := b.sectorSize.toNat_lt
  omega

/-- The sector a length of 0 ends in is behind the one it begins in if that one begins there. -/
theorem pred_div_lt_iff {S n : Nat} (hn : 0 < n) : (n - 1) / S < n / S ↔ S ∣ n := by
  obtain ⟨k, rfl⟩ : ∃ k, n = k + 1 := ⟨n - 1, by omega⟩
  rw [Nat.add_sub_cancel, Nat.succ_div]
  split
  · rename_i hdvd
    exact ⟨fun _ => hdvd, fun _ => Nat.lt_succ_self _⟩
  · rename_i hdvd
    exact ⟨fun h => absurd h (by omega), fun h => absurd h hdvd⟩

/-! ### The writes that are exact -/

/-- A range with bytes in it whose end is a `size_t`. -/
theorem erases_of_inside (hz : ∀ d off len, (b.erase d off len).1 = 0)
    (hS : 0 < b.sectorSize.toNat)
    (hcheck : t.size (offset.toNat + buf.length) ≤ b.totalSize.toNat) (hpos : 0 < buf.length)
    (hin : offset.toNat + buf.length < 2 ^ t.sizeBits) : ErasesExactly b t d₀ offset buf := by
  have htot := b.totalSize.toNat_lt
  have hsize : t.size (offset.toNat + buf.length) = offset.toNat + buf.length :=
    Nat.mod_eq_of_lt hin
  have hinside := hcheck
  rw [hsize] at hinside
  have hmul := Nat.div_mul_le_self (offset.toNat + buf.length - 1) b.sectorSize.toNat
  have hle := Nat.div_le_self (offset.toNat + buf.length - 1) b.sectorSize.toNat
  refine write_erases_run hz hS hcheck
    (endSector_toNat t b.sectorSize (by omega) (by omega)) ?_ (by omega) (by omega)
    (fun s => meets_iff hS hpos)
  exact Nat.le_trans (Nat.div_le_div_right (by omega)) (Nat.le_succ _)

/-- An empty range that begins a sector: the last one is the sector before it. -/
theorem erases_of_empty (hz : ∀ d off len, (b.erase d off len).1 = 0)
    (hS : 0 < b.sectorSize.toNat)
    (hcheck : t.size (offset.toNat + buf.length) ≤ b.totalSize.toNat) (hzero : buf.length = 0)
    (hfirst : 0 < offset.toNat) (hdvd : b.sectorSize.toNat ∣ offset.toNat) :
    ErasesExactly b t d₀ offset buf := by
  have hoff := offset.toNat_lt
  have hbits : 4294967296 ≤ 2 ^ t.sizeBits := by cases t <;> decide
  have hlt := (pred_div_lt_iff hfirst).mpr hdvd
  have hle := Nat.div_le_self offset.toNat b.sectorSize.toNat
  have hmul := Nat.div_mul_le_self (offset.toNat - 1) b.sectorSize.toNat
  have hnext : offset.toNat / b.sectorSize.toNat
      ≤ (offset.toNat - 1) / b.sectorSize.toNat + 1 := by
    have := Nat.div_le_div_right (c := b.sectorSize.toNat)
      (show offset.toNat ≤ offset.toNat - 1 + b.sectorSize.toNat by omega)
    rwa [Nat.add_div_right _ hS] at this
  refine write_erases_run hz hS hcheck
    (e := (offset.toNat - 1) / b.sectorSize.toNat) ?_ hnext (by omega) (by omega)
    (fun s => ?_)
  · rw [endSector_toNat t b.sectorSize (by omega) (by omega), hzero, Nat.add_zero]
  · rw [hzero]
    exact ⟨fun h => absurd h (not_meets_nil _ _ _), fun h => absurd h (by omega)⟩

/-- A range up to the last address of the device: one less than its end is that address. -/
theorem erases_of_last (hz : ∀ d off len, (b.erase d off len).1 = 0)
    (hcheck : Target.esp32.size (offset.toNat + buf.length) ≤ b.totalSize.toNat)
    (hend : offset.toNat + buf.length = 4294967296) (hone : 1 < b.sectorSize.toNat) :
    ErasesExactly b .esp32 d₀ offset buf := by
  have hoff := offset.toNat_lt
  have hS : 0 < b.sectorSize.toNat := by omega
  have hbits : (2 : Nat) ^ Target.esp32.sizeBits = 4294967296 := by decide
  have hw0 : Target.esp32.size (offset.toNat + buf.length) = 0 := by
    rw [hend, Target.size, hbits]
  have hle := Nat.div_lt_self (n := 4294967295) (by decide) hone
  have hmul := Nat.div_mul_le_self 4294967295 b.sectorSize.toNat
  refine write_erases_run hz hS hcheck
    (e := 4294967295 / b.sectorSize.toNat) ?_ ?_ (by omega) (by omega) (fun s => ?_)
  · rw [endSector_of_zero .esp32 b.sectorSize offset buf.length hw0, hbits]
    exact Nat.mod_eq_of_lt (Nat.lt_trans hle (by decide))
  · exact Nat.le_trans (Nat.div_le_div_right (by omega)) (Nat.le_succ _)
  · rw [meets_iff hS (by omega), hend]

/-! ### No other is -/

/-- What an exact write says of its loop. -/
theorem loop_of_exact (hS : 0 < b.sectorSize.toNat)
    (hcheck : t.size (offset.toNat + buf.length) ≤ b.totalSize.toNat)
    (h : ErasesExactly b t d₀ offset buf) :
    ∃ ok d, StorageManager.eraseLoop b.recorded
        (StorageManager.endSector t offset buf.length b.sectorSize) (2 ^ 32)
        (offset / b.sectorSize) (d₀, []) = some (ok, d)
      ∧ ∀ acc, acc ∈ erasesIn d.2 ↔ ∃ s,
          Meets b.sectorSize.toNat s offset.toNat buf.length
            ∧ acc = .erase (s * b.sectorSize.toNat) b.sectorSize.toNat := by
  obtain ⟨r, sm', hw, _, hmem⟩ := h
  obtain ⟨ok, d, hloop, hsame⟩ := write_erases hS hcheck hw
  exact ⟨ok, d, hloop, fun acc => hsame ▸ hmem acc⟩

/-- An empty range meets no sector, so the loop has to end before it begins. -/
theorem empty_of_exact (hS : 0 < b.sectorSize.toNat)
    (hcheck : t.size (offset.toNat + buf.length) ≤ b.totalSize.toNat) (hzero : buf.length = 0)
    (h : ErasesExactly b t d₀ offset buf) :
    0 < offset.toNat ∧ b.sectorSize.toNat ∣ offset.toNat := by
  have hoff := offset.toNat_lt
  have hbits : 4294967296 ≤ 2 ^ t.sizeBits := by cases t <;> decide
  have hdiv : (offset / b.sectorSize).toNat = offset.toNat / b.sectorSize.toNat :=
    UInt32.toNat_div _ _
  obtain ⟨ok, d, hloop, hmem⟩ := loop_of_exact hS hcheck h
  have hlt : (StorageManager.endSector t offset buf.length b.sectorSize).toNat
      < offset.toNat / b.sectorSize.toNat := by
    refine Nat.lt_of_not_le fun hle => ?_
    obtain ⟨s, hs, _⟩ := (hmem _).mp (eraseLoop_first (by rw [hdiv]; exact hle) hloop)
    rw [hzero] at hs
    exact not_meets_nil _ _ _ hs
  have h0 : 0 < offset.toNat := by
    refine Nat.pos_of_ne_zero fun h0 => ?_
    rw [h0, Nat.zero_div] at hlt
    omega
  rw [endSector_toNat t b.sectorSize (by omega) (by omega), hzero, Nat.add_zero,
    pred_div_lt_iff h0] at hlt
  exact ⟨h0, hlt⟩

/-- A range that wraps has to end where the addresses do: the sector of its last byte is erased. -/
theorem wrapped_of_exact (hz : ∀ d off len, (b.erase d off len).1 = 0)
    (hS : 0 < b.sectorSize.toNat) (hlen : buf.length < 2 ^ t.sizeBits)
    (hcheck : t.size (offset.toNat + buf.length) ≤ b.totalSize.toNat) (hpos : 0 < buf.length)
    (hout : 2 ^ t.sizeBits ≤ offset.toNat + buf.length) (h : ErasesExactly b t d₀ offset buf) :
    t = .esp32 ∧ offset.toNat + buf.length = 4294967296 ∧ 1 < b.sectorSize.toNat := by
  have htot := b.totalSize.toNat_lt
  have hoff := offset.toNat_lt
  have hbits : 4294967296 ≤ 2 ^ t.sizeBits := by cases t <;> decide
  have hsize : t.size (offset.toNat + buf.length)
      = offset.toNat + buf.length - 2 ^ t.sizeBits := by
    rw [Target.size, Nat.mod_eq_sub_mod hout]
    exact Nat.mod_eq_of_lt (by omega)
  obtain ⟨ok, d, hloop, hmem⟩ := loop_of_exact hS hcheck h
  have hmeets := (meets_iff (s := (offset.toNat + buf.length - 1) / b.sectorSize.toNat)
    hS hpos).mpr ⟨Nat.div_le_div_right (by omega), Nat.le_refl _⟩
  obtain ⟨i, hi, hlast⟩ := eraseLoop_upto hloop rfl ((hmem _).mpr ⟨_, hmeets, rfl⟩)
  injection hlast with hlast _
  rcases Nat.eq_zero_or_pos (t.size (offset.toNat + buf.length)) with hw0 | hwpos
  · have hlt := lt_blockFloor_add hS (offset.toNat + buf.length - 1)
    have haddr := (i * b.sectorSize).toNat_lt
    have hsec := b.sectorSize.toNat_lt
    rw [blockFloor, hlast] at hlt
    cases t with
    | host =>
      have hbits : (2 : Nat) ^ Target.host.sizeBits = 18446744073709551616 := by decide
      omega
    | esp32 =>
      have hbits : (2 : Nat) ^ Target.esp32.sizeBits = 4294967296 := by decide
      refine ⟨rfl, by omega, Nat.lt_of_not_le fun hone => ?_⟩
      -- with sectors of one byte the last one is the largest number, and the loop has no end
      have hend := endSector_of_zero .esp32 b.sectorSize offset buf.length hw0
      rw [show b.sectorSize.toNat = 1 by omega, Nat.div_one, hbits] at hend
      rw [eraseLoop_endless (b := b.recorded) (fun d => hz d.1) hend] at hloop
      exact absurd hloop (by simp)
  · have hend := endSector_of_pos t b.sectorSize offset buf.length hwpos (by omega)
    exact absurd hlast (last_sector_missed hS hwpos hcheck (by omega) hend hi)

/--
**Which writes erase exactly the sectors of their range.** Over erases that all succeed, a write
the bounds check lets through returns and has erased each sector its range meets once, and no
other, exactly when there is a sector size, and the range is not empty and its end is a `size_t`;
or it is empty and begins a sector other than the first; or it ends where the addresses of the
device do, with sectors of more than one byte.
-/
theorem erases_exactly_iff (hz : ∀ d off len, (b.erase d off len).1 = 0) (t : Target) (d₀ : δ)
    (offset : UInt32) (buf : List UInt8) (hlen : buf.length < 2 ^ t.sizeBits)
    (hcheck : t.size (offset.toNat + buf.length) ≤ b.totalSize.toNat) :
    ErasesExactly b t d₀ offset buf
      ↔ 0 < b.sectorSize.toNat
        ∧ (0 < buf.length ∧ offset.toNat + buf.length < 2 ^ t.sizeBits
          ∨ buf.length = 0 ∧ 0 < offset.toNat ∧ b.sectorSize.toNat ∣ offset.toNat
          ∨ t = .esp32 ∧ offset.toNat + buf.length = 4294967296 ∧ 1 < b.sectorSize.toNat) := by
  constructor
  · intro hexact
    have hS : 0 < b.sectorSize.toNat := by
      obtain ⟨r, sm', hw, _⟩ := hexact
      exact sector_pos_of_write (b := b.recorded) rfl hcheck hw
    refine ⟨hS, ?_⟩
    rcases Nat.eq_zero_or_pos buf.length with hzero | hpos
    · exact Or.inr (Or.inl ⟨hzero, empty_of_exact hS hcheck hzero hexact⟩)
    · rcases Nat.lt_or_ge (offset.toNat + buf.length) (2 ^ t.sizeBits) with hin | hout
      · exact Or.inl ⟨hpos, hin⟩
      · exact Or.inr (Or.inr (wrapped_of_exact hz hS hlen hcheck hpos hout hexact))
  · rintro ⟨hS, ⟨hpos, hin⟩ | ⟨hzero, hfirst, hdvd⟩ | ⟨rfl, hend, hone⟩⟩
    · exact erases_of_inside hz hS hcheck hpos hin
    · exact erases_of_empty hz hS hcheck hzero hfirst hdvd
    · exact erases_of_last hz hcheck hend hone

/-- A flash on which every erase succeeds. -/
def obliging : FlashBackend (Nat → UInt8) :=
  { memBackend 0x10000 4096 with
    erase := fun mem off len => (0, fill mem off.toNat (off.toNat + len) erased) }

/-- A byte at the end of a sector, and its sector is erased. -/
theorem erases_exactly_one_byte :
    ErasesExactly obliging .host (fun _ => erased) 0x1FFF [1] :=
  (erases_exactly_iff (fun _ _ _ => rfl) .host (fun _ => erased) 0x1FFF [1] (by decide)
    (by decide)).mpr ⟨by decide, Or.inl ⟨by decide, by decide⟩⟩

/-- **A write of nothing erases a sector**, if it is inside that sector. -/
theorem empty_write_erases :
    ((watching obliging .host fun _ => erased).write 0x1001 []).map
        (fun w => (w.1, erasesIn w.2.device.2)) = some (0, [.erase 0x1000 4096])
      ∧ ¬ ErasesExactly obliging .host (fun _ => erased) 0x1001 [] := by
  have hrun : ((watching obliging .host fun _ => erased).write 0x1001 []).map
      (fun w => (w.1, erasesIn w.2.device.2)) = some (0, [.erase 0x1000 4096]) := by
    decide
  refine ⟨hrun, ?_⟩
  rintro ⟨r, sm', hw, _, hmem⟩
  rw [hw, Option.map_some] at hrun
  injection hrun with hrun
  obtain ⟨s, hs, _⟩ := (hmem (.erase 0x1000 4096)).mp
    (by rw [(Prod.mk.inj hrun).2]; exact List.mem_singleton_self _)
  exact not_meets_nil _ _ _ hs

end TaktOS.Proof
