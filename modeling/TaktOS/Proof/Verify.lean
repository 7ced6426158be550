import TaktOS.Kernel.FirmwareCache
import TaktOS.Proof.Storage

/-!
# What `verify` decides

`FirmwareCache::verify` reads a header, then the body in chunks, through a backend
that may do anything. Over a readable one the outcome is a property of the flash
content alone: `Verifies`, the stored header flagged valid and the CRC of the whole
body in one piece equal to the stored one. `init` looks only at `Flagged`, the header
half of it.

Reading changes no more than the device, and keeps whatever the backend's reads keep;
that is the `after` family, used with `P := True` where only the frame matters.
-/

namespace TaktOS.Proof

open Lib

variable {δ : Type}

/-! ## Reads change the device only -/

/-- The device predicate `P` survives every read. -/
def ReadKeeps (sm : StorageManager δ) (P : δ → Prop) : Prop :=
  ∀ b, sm.backend = some b → ∀ d off buf, P d → P (b.read d off buf).2.2

theorem readKeeps_true (sm : StorageManager δ) : ReadKeeps sm (fun _ => True) :=
  fun _ _ _ _ _ _ => trivial

theorem readKeeps_content {sm : StorageManager δ} {b : FlashBackend δ}
    {content : δ → Nat → UInt8} (hb : sm.backend = some b) (hr : b.Readable content)
    (m : Nat → UInt8) : ReadKeeps sm (fun d => content d = m) := by
  intro b' hb' d off buf hd
  rw [hb] at hb'
  rw [← Option.some.inj hb', hr.keep]
  exact hd

variable {P : δ → Prop}

theorem read_after (sm : StorageManager δ) (hk : ReadKeeps sm P) (hp : P sm.device)
    (offset : UInt32) (buf : List UInt8) :
    ∃ d, (sm.read offset buf).2.2 = { sm with device := d } ∧ P d := by
  unfold StorageManager.read
  split
  · exact ⟨sm.device, rfl, hp⟩
  · rename_i b hb
    split
    · exact ⟨sm.device, rfl, hp⟩
    · exact ⟨_, rfl, hk b hb _ _ _ hp⟩

theorem getHeader_after (sm : StorageManager δ) (hk : ReadKeeps sm P) (hp : P sm.device)
    (fc : FirmwareCache) (slot : UInt8) (header : FirmwareHeader) :
    ∃ d, (fc.getHeader sm slot header).2.2 = { sm with device := d } ∧ P d := by
  obtain ⟨d, hd, hpd⟩ := read_after sm hk hp (fc.slotOffset slot) header.toBytes
  unfold FirmwareCache.getHeader
  split
  · exact ⟨sm.device, rfl, hp⟩
  · dsimp only
    split
    · exact ⟨d, hd, hpd⟩
    · exact ⟨d, hd, hpd⟩

theorem verifyLoop_after : ∀ (fuel : Nat) (sm : StorageManager δ), ReadKeeps sm P →
    P sm.device → ∀ remaining offset crc : UInt32,
      ∃ d, (FirmwareCache.verifyLoop sm fuel remaining offset crc).2 = { sm with device := d }
        ∧ P d := by
  intro fuel
  induction fuel with
  | zero => intro sm _ hp remaining offset crc; exact ⟨sm.device, rfl, hp⟩
  | succ fuel ih =>
    intro sm hk hp remaining offset crc
    rw [FirmwareCache.verifyLoop]
    split
    · dsimp only
      generalize (if remaining > kVerifyChunk then kVerifyChunk else remaining) = chunk
      obtain ⟨d, hd, hpd⟩ := read_after sm hk hp offset (List.replicate chunk.toNat 0)
      rw [hd]
      split
      · exact ⟨d, rfl, hpd⟩
      · exact ih { sm with device := d } hk hpd _ _ _
    · exact ⟨sm.device, rfl, hp⟩

/-- **Verifying changes the device only**, and only as reads do. -/
theorem verify_after (sm : StorageManager δ) (hk : ReadKeeps sm P) (hp : P sm.device)
    (fc : FirmwareCache) (slot : UInt8) :
    ∃ d, (fc.verify sm slot).2 = { sm with device := d } ∧ P d := by
  unfold FirmwareCache.verify
  split
  · exact ⟨sm.device, rfl, hp⟩
  · obtain ⟨d, hd, hpd⟩ := getHeader_after sm hk hp fc slot {}
    dsimp only
    rw [hd]
    split
    · exact ⟨d, rfl, hpd⟩
    · split
      · exact ⟨d, rfl, hpd⟩
      · obtain ⟨d', hd', hpd'⟩ := verifyLoop_after
          (fc.getHeader sm slot {}).2.1.size.toNat { sm with device := d } hk hpd
          (fc.getHeader sm slot {}).2.1.size (fc.slotOffset slot + kHeaderReserved)
          Crc32.initial
        split
        · rename_i smL hL
          rw [hL] at hd'
          exact ⟨d', hd', hpd'⟩
        · rename_i crc smL hL
          rw [hL] at hd'
          exact ⟨d', hd', hpd'⟩

/-- There are two slots, and no other verifies. -/
theorem verify_high {slot : UInt8} (h : slot > 1) (fc : FirmwareCache) (sm : StorageManager δ) :
    fc.verify sm slot = (false, sm) := by
  rw [FirmwareCache.verify, if_pos h]

/-! ## What is stored at a slot -/

/-- The header stored at a slot's offset. -/
def storedHeader (m : Nat → UInt8) (off : UInt32) : FirmwareHeader :=
  FirmwareHeader.ofBytes (slice m off.toNat headerSize)

/-- The stored header is inside the flash, carries the magic, and is flagged valid. -/
def Flagged (total : Nat) (m : Nat → UInt8) (off : UInt32) : Prop :=
  off.toNat + headerSize ≤ total ∧ (storedHeader m off).magic = kFirmwareMagic
    ∧ (storedHeader m off).validFlag = true

instance (total : Nat) (m : Nat → UInt8) (off : UInt32) : Decidable (Flagged total m off) :=
  inferInstanceAs (Decidable (_ ∧ _ ∧ _))

/-- The image at a slot's offset is whole: flagged, inside the flash, and its CRC matches. -/
def Verifies (total : Nat) (m : Nat → UInt8) (off : UInt32) : Prop :=
  Flagged total m off
    ∧ ((storedHeader m off).size = 0
        ∨ (off + kHeaderReserved).toNat + (storedHeader m off).size.toNat ≤ total)
    ∧ Crc32.compute (slice m (off + kHeaderReserved).toNat (storedHeader m off).size.toNat)
        = (storedHeader m off).crc32

instance (total : Nat) (m : Nat → UInt8) (off : UInt32) : Decidable (Verifies total m off) :=
  inferInstanceAs (Decidable (_ ∧ (_ ∨ _) ∧ _))

theorem storedHeader_congr {m m' : Nat → UInt8} {off : UInt32}
    (h : AgreeOn off.toNat (off.toNat + headerSize) m m') :
    storedHeader m off = storedHeader m' off := by
  rw [storedHeader, storedHeader, slice_congr h]

theorem flagged_congr {total : Nat} {m m' : Nat → UInt8} {off : UInt32}
    (h : AgreeOn off.toNat (off.toNat + headerSize) m m') :
    Flagged total m off ↔ Flagged total m' off := by
  rw [Flagged, Flagged, storedHeader_congr h]

/-- **Whether an image verifies depends on its header and its body only.** -/
theorem verifies_congr {total : Nat} {m m' : Nat → UInt8} {off : UInt32}
    (h : AgreeOn off.toNat (off.toNat + headerSize) m m')
    (h' : AgreeOn (off + kHeaderReserved).toNat
      ((off + kHeaderReserved).toNat + (storedHeader m off).size.toNat) m m') :
    Verifies total m off ↔ Verifies total m' off := by
  rw [Verifies, Verifies, flagged_congr h, ← storedHeader_congr h, slice_congr h']

/-- The body offset as `verify` computes it, where it does not wrap. -/
theorem bodyOffset_toNat (off : UInt32) (h : off.toNat + 4096 < 4294967296) :
    (off + kHeaderReserved).toNat = off.toNat + 4096 := by
  rw [UInt32.toNat_add]
  exact Nat.mod_eq_of_lt h

/-- An image that lies in its slot depends on the slot only. -/
theorem verifies_congr_slot {total n : Nat} {m m' : Nat → UInt8} {off : UInt32}
    (h : AgreeOn off.toNat (off.toNat + n) m m') (hn : headerSize ≤ n)
    (hw : off.toNat + n < 4294967296)
    (hfit : Flagged total m off → 4096 + (storedHeader m off).size.toNat ≤ n) :
    Verifies total m off ↔ Verifies total m' off := by
  have hhead : AgreeOn off.toNat (off.toNat + headerSize) m m' := h.mono (by omega) (by omega)
  by_cases hF : Flagged total m off
  · have hsize := hfit hF
    have hbody := bodyOffset_toNat off (by omega)
    exact verifies_congr hhead (h.mono (by omega) (by omega))
  · have hF' : ¬ Flagged total m' off := fun hc => hF ((flagged_congr hhead).mpr hc)
    exact ⟨fun hv => absurd hv.1 hF, fun hv => absurd hv.1 hF'⟩

/-! ## `getHeader` and `verify` over a readable backend -/

section Readable

variable {b : FlashBackend δ} {content : δ → Nat → UInt8} (sm : StorageManager δ)

theorem castInt_headerSize : castInt headerSize = headerSize := by decide

theorem castInt_chunk {n : UInt32} (h : n.toNat ≤ 4096) : castInt n.toNat = n.toNat :=
  castInt_of_lt (by omega)

/-- `getHeader` finds the magic exactly when the stored header carries it. -/
theorem getHeader_ok (hb : sm.backend = some b) (hr : b.Readable content) (fc : FirmwareCache)
    {slot : UInt8} (hs : slot ≤ 1) (header : FirmwareHeader) :
    (fc.getHeader sm slot header).1 = true
      ↔ (fc.slotOffset slot).toNat + headerSize ≤ b.totalSize.toNat
        ∧ (storedHeader (content sm.device) (fc.slotOffset slot)).magic = kFirmwareMagic := by
  have hns : ¬ slot > 1 := UInt8.not_lt.mpr hs
  rw [FirmwareCache.getHeader, if_neg hns]
  dsimp only
  by_cases hin : (fc.slotOffset slot).toNat + headerSize ≤ b.totalSize.toNat
  · -- the code is the size asked for, so the magic decides
    obtain ⟨hcode, hdata⟩ := read_inside sm hb hr (fc.slotOffset slot) header.toBytes hin
    have hcode' : (sm.read (fc.slotOffset slot) header.toBytes).1 = headerSize := by
      rw [hcode, FirmwareHeader.length_toBytes]
      exact castInt_headerSize
    rw [if_neg (by simp [hcode']), hdata, decide_eq_true_iff]
    exact ⟨fun h => ⟨hin, h⟩, fun h => h.2⟩
  · have hneg := read_outside sm hb hr (fc.slotOffset slot) header.toBytes
      (by simp only [FirmwareHeader.length_toBytes]; unfold headerSize at hin; omega)
    have hne : (sm.read (fc.slotOffset slot) header.toBytes).1 ≠ headerSize := by
      unfold headerSize
      omega
    rw [if_pos hne]
    simp [hin]

/-- Inside the flash `getHeader` delivers the stored header. -/
theorem getHeader_header (hb : sm.backend = some b) (hr : b.Readable content)
    (fc : FirmwareCache) {slot : UInt8} (hs : slot ≤ 1) (header : FirmwareHeader)
    (hin : (fc.slotOffset slot).toNat + headerSize ≤ b.totalSize.toNat) :
    (fc.getHeader sm slot header).2.1
      = storedHeader (content sm.device) (fc.slotOffset slot) := by
  have hns : ¬ slot > 1 := UInt8.not_lt.mpr hs
  rw [FirmwareCache.getHeader, if_neg hns]
  dsimp only
  obtain ⟨_, hdata⟩ := read_inside sm hb hr (fc.slotOffset slot) header.toBytes hin
  rw [hdata]
  split <;> rfl

/-- What `init` and `verify` ask of a header is that it is flagged. -/
theorem getHeader_flagged (hb : sm.backend = some b) (hr : b.Readable content)
    (fc : FirmwareCache) {slot : UInt8} (hs : slot ≤ 1) (header : FirmwareHeader) :
    ((fc.getHeader sm slot header).1 && (fc.getHeader sm slot header).2.1.validFlag) = true
      ↔ Flagged b.totalSize.toNat (content sm.device) (fc.slotOffset slot) := by
  rw [Bool.and_eq_true, getHeader_ok sm hb hr fc hs]
  constructor
  · rintro ⟨⟨hin, hm⟩, hv⟩
    rw [getHeader_header sm hb hr fc hs header hin] at hv
    exact ⟨hin, hm, hv⟩
  · rintro ⟨hin, hm, hv⟩
    rw [getHeader_header sm hb hr fc hs header hin]
    exact ⟨⟨hin, hm⟩, hv⟩

/-- A chunk of the loop is not empty, not longer than what is left, and fits the buffer. -/
theorem verifyChunk_bounds {remaining chunk : UInt32} (h : 0 < remaining.toNat)
    (hc : (if remaining > kVerifyChunk then kVerifyChunk else remaining) = chunk) :
    0 < chunk.toNat ∧ chunk.toNat ≤ remaining.toNat ∧ chunk.toNat ≤ 4096 := by
  have h4096 : kVerifyChunk.toNat = 4096 := rfl
  by_cases hgt : remaining > kVerifyChunk
  · rw [if_pos hgt] at hc
    subst hc
    have := UInt32.lt_iff_toNat_lt.mp hgt
    omega
  · rw [if_neg hgt] at hc
    subst hc
    have := UInt32.le_iff_toNat_le.mp (UInt32.not_lt.mp hgt)
    omega

/--
The chunk loop computes the CRC of the range in one piece, and fails exactly when the
range does not lie in the flash. Any fuel that covers `remaining` gives this, so the
source's loop ends for every header.
-/
theorem verifyLoop_eq (hr : b.Readable content) :
    ∀ (fuel : Nat) (sm : StorageManager δ), sm.backend = some b →
      ∀ remaining offset crc : UInt32, remaining.toNat ≤ fuel →
        (FirmwareCache.verifyLoop sm fuel remaining offset crc).1
          = if remaining = 0 ∨ offset.toNat + remaining.toNat ≤ b.totalSize.toNat
            then some (Crc32.update crc
              (slice (content sm.device) offset.toNat remaining.toNat))
            else none := by
  intro fuel
  -- on the fuel: a pass shortens `remaining` and the fuel alike, and moves `crc` along
  induction fuel with
  | zero =>
    intro sm _ remaining offset crc hf
    have h0 : remaining = 0 := UInt32.toNat_inj.mp (by simpa using hf)
    subst h0
    simp [FirmwareCache.verifyLoop, slice]
  | succ fuel ih =>
    intro sm hb remaining offset crc hf
    rw [FirmwareCache.verifyLoop]
    by_cases h0 : remaining = 0
    · subst h0
      rw [if_neg (by decide), if_pos (Or.inl rfl)]
      rfl
    have hpos : 0 < remaining.toNat := by
      rcases Nat.eq_zero_or_pos remaining.toNat with hz | hz
      · exact absurd (UInt32.toNat_inj.mp hz) h0
      · exact hz
    rw [if_pos (UInt32.lt_iff_toNat_lt.mpr (show (0 : UInt32).toNat < _ from hpos))]
    dsimp only
    generalize hc : (if remaining > kVerifyChunk then kVerifyChunk else remaining) = chunk
    obtain ⟨hc0, hcr, hc4⟩ := verifyChunk_bounds hpos hc
    have hlen : (List.replicate chunk.toNat (0 : UInt8)).length = chunk.toNat :=
      List.length_replicate
    have htot := b.totalSize.toNat_lt
    have hsub : (remaining - chunk).toNat = remaining.toNat - chunk.toNat :=
      UInt32.toNat_sub_of_le _ _ (UInt32.le_iff_toNat_le.mpr hcr)
    by_cases hin : offset.toNat + chunk.toNat ≤ b.totalSize.toNat
    · -- the chunk is inside the flash: fold it in and go on behind it
      obtain ⟨hcode, hdata⟩ := read_inside sm hb hr offset
        (List.replicate chunk.toNat 0) (by rw [hlen]; exact hin)
      rw [hlen] at hcode hdata
      rw [if_neg (by simp [hcode, castInt_chunk hc4]), hdata]
      obtain ⟨d, hd, hcont⟩ := read_after sm (readKeeps_content hb hr (content sm.device)) rfl
        offset (List.replicate chunk.toNat 0)
      have hadd : (offset + chunk).toNat = offset.toNat + chunk.toNat := by
        rw [UInt32.toNat_add]
        exact Nat.mod_eq_of_lt (by omega)
      rw [hd, ih { sm with device := d } hb _ _ _ (by omega)]
      dsimp only
      rw [hcont, hadd, hsub, ← Crc32.update_append]
      have hsplit : slice (content sm.device) offset.toNat chunk.toNat
            ++ slice (content sm.device) (offset.toNat + chunk.toNat)
              (remaining.toNat - chunk.toNat)
          = slice (content sm.device) offset.toNat remaining.toNat := by
        rw [← slice_add, Nat.add_sub_cancel' hcr]
      rw [hsplit]
      have hz : remaining - chunk = 0 ↔ remaining.toNat - chunk.toNat = 0 := by
        rw [← UInt32.toNat_inj, hsub]
        rfl
      -- the rest fits exactly where the whole range does
      by_cases hfit : offset.toNat + remaining.toNat ≤ b.totalSize.toNat
      · rw [if_pos (Or.inr (by omega)), if_pos (Or.inr hfit)]
      · rw [if_neg, if_neg]
        · rintro (h | h)
          · exact h0 h
          · exact hfit h
        · rintro (h | h)
          · rw [hz] at h; omega
          · omega
    · -- the chunk reaches past the end, and so does the range
      have hneg := read_outside sm hb hr offset
        (List.replicate chunk.toNat 0) (by rw [hlen]; omega)
      rw [if_pos (by omega), if_neg]
      rintro (h | h)
      · exact h0 h
      · omega

/-- With a flagged header the loop decides, and compares the CRC of the whole body. -/
theorem verify_of_flagged (hb : sm.backend = some b) (hr : b.Readable content)
    (fc : FirmwareCache) {slot : UInt8} (hs : slot ≤ 1)
    (hF : Flagged b.totalSize.toNat (content sm.device) (fc.slotOffset slot)) :
    (fc.verify sm slot).1 = true
      ↔ Verifies b.totalSize.toNat (content sm.device) (fc.slotOffset slot) := by
  obtain ⟨d, hd, hcont⟩ := getHeader_after sm (readKeeps_content hb hr (content sm.device)) rfl
    fc slot {}
  have hhdr := getHeader_header sm hb hr fc hs {} hF.1
  have hok := (getHeader_ok sm hb hr fc hs {}).mpr ⟨hF.1, hF.2.1⟩
  have hmagic := hF.2.1
  have hvalid := hF.2.2
  rw [FirmwareCache.verify, if_neg (UInt8.not_lt.mpr hs)]
  dsimp only
  rw [hhdr, hok, hd]
  generalize hH : storedHeader (content sm.device) (fc.slotOffset slot) = H at *
  have hloop := verifyLoop_eq hr H.size.toNat { sm with device := d } hb H.size
    (fc.slotOffset slot + kHeaderReserved) Crc32.initial (Nat.le_refl _)
  simp only [Bool.not_true, Bool.false_eq_true, if_false, hmagic, hvalid, ne_eq,
    not_true_eq_false, decide_false, Bool.or_self]
  by_cases hfit : H.size = 0
      ∨ (fc.slotOffset slot + kHeaderReserved).toNat + H.size.toNat ≤ b.totalSize.toNat
  · rw [if_pos hfit] at hloop
    split
    · rename_i smL hL
      rw [hL] at hloop
      exact absurd hloop (by simp)
    · rename_i crc smL hL
      rw [hL, hcont] at hloop
      have hcrc := Option.some.inj hloop
      rw [decide_eq_true_iff, hcrc, Verifies, hH]
      exact ⟨fun h => ⟨hF, hfit, h⟩, fun h => h.2.2⟩
  · -- a body that reaches past the end cannot be read
    rw [if_neg hfit] at hloop
    split
    · rw [Verifies, hH]
      exact ⟨fun h => absurd h (by simp), fun h => absurd h.2.1 hfit⟩
    · rename_i crc smL hL
      rw [hL] at hloop
      exact absurd hloop (by simp)

/-- Without a flagged header one of the two header checks fails. -/
theorem verify_of_not_flagged (hb : sm.backend = some b) (hr : b.Readable content)
    (fc : FirmwareCache) {slot : UInt8} (hs : slot ≤ 1)
    (hF : ¬ Flagged b.totalSize.toNat (content sm.device) (fc.slotOffset slot)) :
    (fc.verify sm slot).1 = false := by
  have hfalse : ¬ ((fc.getHeader sm slot {}).1 = true
      ∧ (fc.getHeader sm slot {}).2.1.validFlag = true) := by
    rw [← Bool.and_eq_true, getHeader_flagged sm hb hr fc hs {}]
    exact hF
  rw [FirmwareCache.verify, if_neg (UInt8.not_lt.mpr hs)]
  dsimp only
  cases hok : (fc.getHeader sm slot {}).1 with
  | false => simp
  | true =>
    have hv : (fc.getHeader sm slot {}).2.1.validFlag = false := by
      cases hvalid : (fc.getHeader sm slot {}).2.1.validFlag with
      | false => rfl
      | true => exact absurd ⟨hok, hvalid⟩ hfalse
    simp [hv]

/-- **`verify` accepts a slot exactly when its image is whole.** -/
theorem verify_iff (hb : sm.backend = some b) (hr : b.Readable content) (fc : FirmwareCache)
    {slot : UInt8} (hs : slot ≤ 1) :
    (fc.verify sm slot).1 = true
      ↔ Verifies b.totalSize.toNat (content sm.device) (fc.slotOffset slot) := by
  by_cases hF : Flagged b.totalSize.toNat (content sm.device) (fc.slotOffset slot)
  · exact verify_of_flagged sm hb hr fc hs hF
  · rw [verify_of_not_flagged sm hb hr fc hs hF]
    exact ⟨fun h => absurd h (by simp), fun h => absurd h.1 hF⟩

/-- What `verify` says of a slot is what the image there is. -/
theorem verify_congr (sm' : StorageManager δ) (hb : sm.backend = some b)
    (hb' : sm'.backend = some b) (hr : b.Readable content) {fc fc' : FirmwareCache} {slot : UInt8}
    (h : slot ≤ 1 → (Verifies b.totalSize.toNat (content sm'.device) (fc'.slotOffset slot)
      ↔ Verifies b.totalSize.toNat (content sm.device) (fc.slotOffset slot))) :
    (fc'.verify sm' slot).1 = (fc.verify sm slot).1 := by
  by_cases hslot : slot ≤ 1
  · rw [Bool.eq_iff_iff, verify_iff sm' hb' hr fc' hslot, verify_iff sm hb hr fc hslot]
    exact h hslot
  · have hgt : slot > 1 := UInt8.not_le.mp hslot
    rw [verify_high hgt, verify_high hgt]

end Readable

end TaktOS.Proof
