import TaktOS.Proof.Operations

/-!
# The chunk loop of `verify`

The image is read in chunks of 4096 bytes, the last one shorter, with the CRC carried along. The
loop ends for every length a header may give, and what it carries is the CRC of the image in one
piece.
-/

namespace TaktOS.Proof

open Lib

variable {δ : Type}

/-! ## The loop ends -/

/-- What one pass reads of what is left. -/
def chunkOf (remaining : UInt32) : UInt32 :=
  if remaining > kVerifyChunk then kVerifyChunk else remaining

/-- The read of one pass, into a buffer of the chunk's length. -/
def chunkRead (sm : StorageManager δ) (remaining offset : UInt32) :
    Int × List UInt8 × StorageManager δ :=
  sm.read offset (List.replicate (chunkOf remaining).toNat 0)

/-- The passes of the chunk loop, from a state to its end: the CRC, or `none` after a failed
read. -/
inductive ChunkRun : StorageManager δ → UInt32 → UInt32 → UInt32 →
    Option UInt32 × StorageManager δ → Prop where
  | done (sm : StorageManager δ) (offset crc : UInt32) : ChunkRun sm 0 offset crc (some crc, sm)
  | failed {sm : StorageManager δ} {remaining offset : UInt32} (crc : UInt32)
      (hpos : remaining > 0)
      (hread : (chunkRead sm remaining offset).1 ≠ (chunkOf remaining).toNat) :
      ChunkRun sm remaining offset crc (none, (chunkRead sm remaining offset).2.2)
  | pass {sm : StorageManager δ} {remaining offset crc : UInt32}
      {res : Option UInt32 × StorageManager δ} (hpos : remaining > 0)
      (hread : (chunkRead sm remaining offset).1 = (chunkOf remaining).toNat)
      (rest : ChunkRun (chunkRead sm remaining offset).2.2 (remaining - chunkOf remaining)
        (offset + chunkOf remaining) (Crc32.update crc (chunkRead sm remaining offset).2.1) res) :
      ChunkRun sm remaining offset crc res

theorem pos_iff_toNat {n : UInt32} : n > 0 ↔ 0 < n.toNat := UInt32.lt_iff_toNat_lt

theorem chunkOf_bounds {remaining : UInt32} (h : remaining > 0) :
    0 < (chunkOf remaining).toNat ∧ (chunkOf remaining).toNat ≤ remaining.toNat
      ∧ (chunkOf remaining).toNat = min 4096 remaining.toNat := by
  have hchunk : (if remaining > kVerifyChunk then kVerifyChunk else remaining)
      = chunkOf remaining := rfl
  obtain ⟨h0, hle, h4096⟩ := verifyChunk_bounds (pos_iff_toNat.mp h) hchunk
  refine ⟨h0, hle, ?_⟩
  unfold chunkOf at hle h4096 ⊢
  split
  · rename_i hgt
    have := UInt32.lt_iff_toNat_lt.mp hgt
    have hk : kVerifyChunk.toNat = 4096 := rfl
    omega
  · rename_i hgt
    rw [if_neg hgt] at h4096
    omega

theorem remaining_sub {remaining : UInt32} (h : remaining > 0) :
    (remaining - chunkOf remaining).toNat = remaining.toNat - (chunkOf remaining).toNat :=
  UInt32.toNat_sub_of_le _ _ (UInt32.le_iff_toNat_le.mpr (chunkOf_bounds h).2.1)

/-- One pass of the loop. -/
theorem verifyLoop_pass (sm : StorageManager δ) (fuel : Nat) {remaining : UInt32}
    (h : remaining > 0) (offset crc : UInt32) :
    FirmwareCache.verifyLoop sm (fuel + 1) remaining offset crc
      = if (chunkRead sm remaining offset).1 ≠ (chunkOf remaining).toNat
        then (none, (chunkRead sm remaining offset).2.2)
        else FirmwareCache.verifyLoop (chunkRead sm remaining offset).2.2 fuel
          (remaining - chunkOf remaining) (offset + chunkOf remaining)
          (Crc32.update crc (chunkRead sm remaining offset).2.1) := by
  rw [FirmwareCache.verifyLoop, if_pos h]
  rfl

theorem verifyLoop_done (sm : StorageManager δ) (fuel : Nat) {remaining : UInt32}
    (h : ¬ remaining > 0) (offset crc : UInt32) :
    FirmwareCache.verifyLoop sm fuel remaining offset crc = (some crc, sm) := by
  cases fuel with
  | zero => rfl
  | succ fuel => rw [FirmwareCache.verifyLoop, if_neg h]

/-- **The loop ends**, over any backend and for every length, with what `verifyLoop` computes. -/
theorem verifyLoop_run : ∀ (fuel : Nat) (sm : StorageManager δ) {remaining : UInt32}
    (offset crc : UInt32), remaining.toNat ≤ fuel →
      ChunkRun sm remaining offset crc
        (FirmwareCache.verifyLoop sm fuel remaining offset crc) := by
  intro fuel
  -- on the fuel: each pass takes a byte or more off what is left
  induction fuel with
  | zero =>
    intro sm remaining offset crc hf
    have h0 : remaining = 0 := UInt32.toNat_inj.mp (Nat.le_zero.mp hf)
    subst h0
    exact .done sm offset crc
  | succ fuel ih =>
    intro sm remaining offset crc hf
    by_cases hpos : remaining > 0
    · obtain ⟨h0, _, _⟩ := chunkOf_bounds hpos
      have hsub := remaining_sub hpos
      rw [verifyLoop_pass sm fuel hpos]
      split
      · rename_i hread
        exact .failed crc hpos hread
      · rename_i hread
        exact .pass hpos (Decidable.not_not.mp hread) (ih _ _ _ (by omega))
    · have h0 : remaining = 0 := by
        refine UInt32.toNat_inj.mp (Nat.le_zero.mp ?_)
        exact Nat.le_of_not_lt fun h => hpos (pos_iff_toNat.mpr h)
      rw [verifyLoop_done sm _ hpos]
      subst h0
      exact .done sm offset crc

/-! ## The CRC of the whole image -/

section Readable

variable {b : FlashBackend δ} {content : δ → Nat → UInt8}

/-- The header stored at `off` is flagged valid, the bytes it counts from `off + 4096` on are all
in the flash, and the CRC of these in one piece is the stored one. -/
def WholeImage (total : Nat) (m : Nat → UInt8) (off : UInt32) : Prop :=
  Flagged total m off
    ∧ (∀ a, off.toNat + 4096 ≤ a → a < off.toNat + 4096 + (storedHeader m off).size.toNat →
      a < total)
    ∧ Crc32.compute (slice m (off.toNat + 4096) (storedHeader m off).size.toNat)
      = (storedHeader m off).crc32

theorem verifies_iff_wholeImage {total : Nat} {m : Nat → UInt8} {off : UInt32}
    (hw : off.toNat + 4096 < 4294967296) : Verifies total m off ↔ WholeImage total m off := by
  rw [Verifies, WholeImage, bodyOffset_toNat off hw]
  refine and_congr_right fun _ => and_congr_left fun _ => ?_
  constructor
  · rintro (h0 | hfit) a hlow hhigh
    · rw [h0] at hhigh
      exact absurd hhigh (Nat.not_lt.mpr hlow)
    · omega
  · intro hin
    rcases Nat.eq_zero_or_pos (storedHeader m off).size.toNat with h0 | hpos
    · exact Or.inl (UInt32.toNat_inj.mp h0)
    · -- the last byte of the image is in the flash
      have := hin (off.toNat + 4096 + (storedHeader m off).size.toNat - 1) (by omega) (by omega)
      exact Or.inr (by omega)

/--
**`verify` computes the CRC of the whole image**, for every content of the flash and every length
the header may give; and whatever the header and the backend, its loop ends.
-/
theorem verify_whole_image (content : δ → Nat → UInt8) (hr : b.Readable content)
    {sm : StorageManager δ} (hb : sm.backend = some b) {fc : FirmwareCache}
    (htotal : b.totalSize.toNat ≤ 2147483648)
    (hslots : ∀ slot, (fc.slotOffset slot).toNat + fc.slotSize.toNat ≤ b.totalSize.toNat)
    {slot : UInt8} (hs : slot ≤ 1) :
    ((fc.verify sm slot).1 = true
        ↔ WholeImage b.totalSize.toNat (content sm.device) (fc.slotOffset slot))
      ∧ ∀ (smL : StorageManager δ) (hdr : FirmwareHeader),
        ChunkRun smL hdr.size (fc.slotOffset slot + kHeaderReserved) Crc32.initial
          (FirmwareCache.verifyLoop smL hdr.size.toNat hdr.size
            (fc.slotOffset slot + kHeaderReserved) Crc32.initial) := by
  have hslot := hslots slot
  refine ⟨?_, fun smL hdr => verifyLoop_run _ smL _ _ (Nat.le_refl _)⟩
  rw [verify_iff sm hb hr fc hs]
  exact verifies_iff_wholeImage (by omega)

/-- The test's flash with the one-byte image 2 in slot B. -/
theorem verify_whole_image_slotB :
    WholeImage 0x10000 (withImage testStorage.device 0x5000 1 [2]) 0x5000 := by
  have hverify : (testCache.verify
      { testStorage with device := withImage testStorage.device 0x5000 1 [2] } 1).1 = true := by
    decide
  have hslots : ∀ slot, (testCache.slotOffset slot).toNat + testCache.slotSize.toNat
      ≤ (memBackend 0x10000 4096).totalSize.toNat := fun slot =>
    Layout.inside (testCache_layout rfl rfl) slot
  have hback : ({ testStorage with device := withImage testStorage.device 0x5000 1 [2] }
      : StorageManager (Nat → UInt8)).backend = some (memBackend 0x10000 4096) := rfl
  exact (verify_whole_image id (memBackend_readable 0x10000 4096) hback (by decide) hslots
    (show (1 : UInt8) ≤ 1 by decide)).1.mp hverify

end Readable

end TaktOS.Proof
