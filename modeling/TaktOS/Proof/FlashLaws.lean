import TaktOS.Lib.Sector
import TaktOS.Kernel.Storage

/-!
# What a flash backend is assumed to do

The backend is opaque, so every result about flash says which of these it needs.
All are about a view `content` of the device as a store.

* `Readable` — reads deliver the content and change nothing.
* `Framed` — moreover a write or an erase, successful or not, leaves every byte
  outside the range it was given alone.
* `Truthful` — a write that reports success, that is no negative code, stored its bytes;
  any write and any erase may fail.
* `Fallible` — a write or a sector erase inside the flash that reports success had its
  documented effect; one that fails may leave anything anywhere.
* `Counts` — a write reports its length or a negative code.
* `Reliable` — reads deliver the content, and every write and every sector erase
  inside the flash succeeds with the documented effect.
* `Bounded` — a write or an erase that reaches past the end is rejected.

The test's memory backend satisfies all of them, and watching a backend keeps the
first two. `Keeps` is the form in which confinement is proved: a predicate of the
device that survives every access inside a region.
-/

namespace TaktOS

open Lib

variable {δ : Type}

/-! ## The laws -/

/-- Reads deliver the content, reject what lies past the end, and change nothing. -/
structure FlashBackend.Readable (b : FlashBackend δ) (content : δ → Nat → UInt8) : Prop where
  /-- No read disturbs the content. -/
  keep : ∀ d off buf, content (b.read d off buf).2.2 = content d
  /-- A read inside the flash returns its length. -/
  code : ∀ d off buf, off.toNat + buf.length ≤ b.totalSize.toNat →
    (b.read d off buf).1 = castInt buf.length
  /-- A read inside the flash fills the buffer. -/
  data : ∀ d off buf, off.toNat + buf.length ≤ b.totalSize.toNat →
    (b.read d off buf).2.1 = slice (content d) off.toNat buf.length
  /-- A read past the end fails. -/
  fail : ∀ d off buf, b.totalSize.toNat < off.toNat + buf.length → (b.read d off buf).1 < 0

/-- Writes and erases, failed ones included, stay inside the range they were given. -/
structure FlashBackend.Framed (b : FlashBackend δ) (content : δ → Nat → UInt8) : Prop
    extends b.Readable content where
  write_frame : ∀ d off buf a, a < off.toNat ∨ off.toNat + buf.length ≤ a →
    content (b.write d off buf).2 a = content d a
  erase_frame : ∀ d off len a, a < off.toNat ∨ off.toNat + len ≤ a →
    content (b.erase d off len).2 a = content d a

/-- A write that reports success stored its bytes. -/
structure FlashBackend.Truthful (b : FlashBackend δ) (content : δ → Nat → UInt8) : Prop
    extends b.Readable content where
  stored : ∀ d off buf, 0 ≤ (b.write d off buf).1 →
    slice (content (b.write d off buf).2) off.toNat buf.length = buf

/-- Every write reports its length or a negative code. -/
def FlashBackend.Counts (b : FlashBackend δ) : Prop :=
  ∀ d off buf, (b.write d off buf).1 = castInt buf.length ∨ (b.write d off buf).1 < 0

/-- Every operation inside the flash succeeds with its documented effect. -/
structure FlashBackend.Reliable (b : FlashBackend δ) (content : δ → Nat → UInt8) : Prop
    extends b.Readable content where
  write_code : ∀ d off buf, off.toNat + buf.length ≤ b.totalSize.toNat →
    (b.write d off buf).1 = castInt buf.length
  write_data : ∀ d off buf, off.toNat + buf.length ≤ b.totalSize.toNat →
    content (b.write d off buf).2 = overlay (content d) off.toNat buf
  erase_code : ∀ d (off : UInt32), b.sectorSize.toNat ∣ off.toNat →
    off.toNat < b.totalSize.toNat → (b.erase d off b.sectorSize.toNat).1 = 0
  erase_data : ∀ d (off : UInt32), b.sectorSize.toNat ∣ off.toNat →
    off.toNat < b.totalSize.toNat →
    content (b.erase d off b.sectorSize.toNat).2
      = fill (content d) off.toNat (off.toNat + b.sectorSize.toNat) erased

/-- A write or a sector erase inside the flash that reports success had its documented effect. -/
structure FlashBackend.Fallible (b : FlashBackend δ) (content : δ → Nat → UInt8) : Prop
    extends b.Readable content where
  write_ok : ∀ d off buf, off.toNat + buf.length ≤ b.totalSize.toNat →
    0 ≤ (b.write d off buf).1 → content (b.write d off buf).2 = overlay (content d) off.toNat buf
  erase_ok : ∀ d (off : UInt32), b.sectorSize.toNat ∣ off.toNat →
    off.toNat < b.totalSize.toNat → (b.erase d off b.sectorSize.toNat).1 = 0 →
    content (b.erase d off b.sectorSize.toNat).2
      = fill (content d) off.toNat (off.toNat + b.sectorSize.toNat) erased

/-- A write or an erase that reaches past the end of the flash is rejected. -/
structure FlashBackend.Bounded (b : FlashBackend δ) : Prop where
  write_outside : ∀ d off buf, b.totalSize.toNat < off.toNat + buf.length →
    (b.write d off buf).1 < 0
  erase_outside : ∀ d off len, b.totalSize.toNat < off.toNat + len → (b.erase d off len).1 ≠ 0

/-- An erase that succeeds was in the flash. -/
theorem FlashBackend.Bounded.erased_inside {b : FlashBackend δ} (h : b.Bounded) {d : δ}
    {off : UInt32} {len : Nat} (hcode : (b.erase d off len).1 = 0) :
    off.toNat + len ≤ b.totalSize.toNat :=
  Nat.le_of_not_lt fun hout => h.erase_outside d off len hout hcode

/-- A reliable backend is one whose operations never fail. -/
theorem FlashBackend.Reliable.fallible {b : FlashBackend δ} {content : δ → Nat → UInt8}
    (hr : b.Reliable content) : b.Fallible content where
  toReadable := hr.toReadable
  write_ok := fun d off buf hin _ => hr.write_data d off buf hin
  erase_ok := fun d off hd hin _ => hr.erase_data d off hd hin

/-- The device predicate `P` survives every access whose bytes lie in `[lo, hi)`. -/
structure FlashBackend.Keeps (b : FlashBackend δ) (lo hi : Nat) (P : δ → Prop) : Prop where
  read : ∀ d off buf, P d → P (b.read d off buf).2.2
  write : ∀ d off buf, (∀ a, off.toNat ≤ a → a < off.toNat + buf.length → lo ≤ a ∧ a < hi) →
    P d → P (b.write d off buf).2
  erase : ∀ d off len, (∀ a, off.toNat ≤ a → a < off.toNat + len → lo ≤ a ∧ a < hi) →
    P d → P (b.erase d off len).2

/-! ## Who satisfies them -/

/-- A whole sector fits between a sector boundary inside the flash and its end. -/
theorem sector_fits {S total off : Nat} (ht : S ∣ total) (ho : S ∣ off) (h : off < total) :
    off + S ≤ total := by
  obtain ⟨k, rfl⟩ := ht
  obtain ⟨j, rfl⟩ := ho
  have hjk : j < k := Nat.lt_of_mul_lt_mul_left h
  calc S * j + S = S * (j + 1) := (Nat.mul_succ S j).symm
    _ ≤ S * k := Nat.mul_le_mul_left S hjk

theorem memBackend_readable (kSize sectorSize : UInt32) :
    (memBackend kSize sectorSize).Readable id where
  keep := by intro d off buf; simp only [memBackend]; split <;> rfl
  code := by
    intro d off buf h
    simp only [memBackend] at h ⊢
    rw [if_neg (by omega)]
  data := by
    intro d off buf h
    simp only [memBackend] at h ⊢
    rw [if_neg (by omega)]
    rfl
  fail := by
    intro d off buf h
    simp only [memBackend] at h ⊢
    rw [if_pos (by omega)]
    show (-1 : Int) < 0
    decide

theorem memBackend_framed (kSize sectorSize : UInt32) :
    (memBackend kSize sectorSize).Framed id where
  toReadable := memBackend_readable kSize sectorSize
  write_frame := by
    intro d off buf a h
    simp only [memBackend]
    split
    · rfl
    · exact overlay_of_not_mem h
  erase_frame := by
    intro d off len a h
    simp only [memBackend]
    split
    · rfl
    · exact fill_of_not_mem h

theorem memBackend_truthful (kSize sectorSize : UInt32) :
    (memBackend kSize sectorSize).Truthful id where
  toReadable := memBackend_readable kSize sectorSize
  stored := by
    intro d off buf h
    simp only [memBackend] at h ⊢
    split at h
    · exact absurd h (show ¬ (0 : Int) ≤ -1 by decide)
    · rename_i hin
      rw [if_neg hin]
      exact slice_overlay d off.toNat buf

theorem memBackend_counts (kSize sectorSize : UInt32) : (memBackend kSize sectorSize).Counts := by
  intro d off buf
  simp only [memBackend]
  split
  · exact Or.inr (show (-1 : Int) < 0 by decide)
  · left
    dsimp only

theorem memBackend_bounded (kSize sectorSize : UInt32) :
    (memBackend kSize sectorSize).Bounded where
  write_outside := by
    intro d off buf h
    simp only [memBackend] at h ⊢
    rw [if_pos (by omega)]
    exact show (-1 : Int) < 0 by decide
  erase_outside := by
    intro d off len h
    simp only [memBackend] at h ⊢
    rw [if_pos (by omega)]
    exact show (-1 : Int) ≠ 0 by decide

/-- **The backend of the repository's tests is reliable**, on a flash of whole sectors. -/
theorem memBackend_reliable {kSize sectorSize : UInt32} (h : sectorSize.toNat ∣ kSize.toNat) :
    (memBackend kSize sectorSize).Reliable id where
  toReadable := memBackend_readable kSize sectorSize
  write_code := by
    intro d off buf hin
    simp only [memBackend] at hin ⊢
    rw [if_neg (by omega)]
  write_data := by
    intro d off buf hin
    simp only [memBackend] at hin ⊢
    rw [if_neg (by omega)]
    rfl
  erase_code := by
    intro d off hd hin
    have := sector_fits h hd hin
    simp only [memBackend] at hin ⊢
    rw [if_neg (by omega)]
  erase_data := by
    intro d off hd hin
    have := sector_fits h hd hin
    simp only [memBackend] at hin ⊢
    rw [if_neg (by omega)]
    rfl

theorem testFlash_reliable : (memBackend 0x10000 4096).Reliable id :=
  memBackend_reliable (by decide)

/-- Watching a backend does not change what it reads. -/
theorem recorded_readable {b : FlashBackend δ} {content : δ → Nat → UInt8}
    (h : b.Readable content) : b.recorded.Readable (fun d => content d.1) where
  keep := fun d off buf => h.keep d.1 off buf
  code := fun d off buf => h.code d.1 off buf
  data := fun d off buf => h.data d.1 off buf
  fail := fun d off buf => h.fail d.1 off buf

/-- Watching a backend does not change what it does to the content. -/
theorem recorded_framed {b : FlashBackend δ} {content : δ → Nat → UInt8}
    (h : b.Framed content) : b.recorded.Framed (fun d => content d.1) where
  keep := fun d off buf => h.keep d.1 off buf
  code := fun d off buf => h.code d.1 off buf
  data := fun d off buf => h.data d.1 off buf
  fail := fun d off buf => h.fail d.1 off buf
  write_frame := fun d off buf => h.write_frame d.1 off buf
  erase_frame := fun d off len => h.erase_frame d.1 off len

/-- What lies outside a region lies outside every range inside the region. -/
theorem not_mem_of_inside {lo hi x y a : Nat} (hin : ∀ a, x ≤ a → a < y → lo ≤ a ∧ a < hi)
    (ha : a < lo ∨ hi ≤ a) : a < x ∨ y ≤ a := by
  by_cases h1 : a < x
  · exact Or.inl h1
  · by_cases h2 : a < y
    · have := hin a (by omega) h2
      omega
    · exact Or.inr (by omega)

/-- A framed backend keeps whatever the content says outside the region. -/
theorem FlashBackend.Framed.keeps {b : FlashBackend δ} {content : δ → Nat → UInt8}
    (h : b.Framed content) (lo hi : Nat) (m : Nat → UInt8) :
    b.Keeps lo hi (fun d => ∀ a, a < lo ∨ hi ≤ a → content d a = m a) where
  read := by
    intro d off buf hd a ha
    rw [h.keep]
    exact hd a ha
  write := by
    intro d off buf hin hd a ha
    rw [h.write_frame d off buf a (not_mem_of_inside hin ha)]
    exact hd a ha
  erase := by
    intro d off len hin hd a ha
    rw [h.erase_frame d off len a (not_mem_of_inside hin ha)]
    exact hd a ha

/-- The bytes a call erased or wrote. -/
def FlashAccess.Modifies : FlashAccess → Nat → Prop
  | .read _ _, _ => False
  | .write off len, a => off ≤ a ∧ a < off + len
  | .erase off len, a => off ≤ a ∧ a < off + len

/-- Every byte on record as erased or written lies in `[lo, hi)`. -/
def Confined (lo hi : Nat) (log : List FlashAccess) : Prop :=
  ∀ acc ∈ log, ∀ a, acc.Modifies a → lo ≤ a ∧ a < hi

theorem Confined.cons {lo hi : Nat} {log : List FlashAccess} {acc : FlashAccess}
    (h : Confined lo hi log) (hacc : ∀ a, acc.Modifies a → lo ≤ a ∧ a < hi) :
    Confined lo hi (acc :: log) := by
  intro acc' hmem a ha
  rcases List.mem_cons.mp hmem with rfl | hmem
  · exact hacc a ha
  · exact h acc' hmem a ha

/-- The record of a backend stays confined while its accesses do. -/
theorem recorded_keeps (b : FlashBackend δ) (lo hi : Nat) :
    b.recorded.Keeps lo hi (fun d => Confined lo hi d.2) where
  read := fun _ _ _ hd => hd.cons (fun _ ha => ha.elim)
  write := fun _ _ _ hin hd => hd.cons (fun a ha => hin a ha.1 ha.2)
  erase := fun _ _ _ hin hd => hd.cons (fun a ha => hin a ha.1 ha.2)

end TaktOS
