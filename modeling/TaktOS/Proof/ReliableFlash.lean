import TaktOS.Proof.Operations

/-!
# The operations over a reliable backend

One specification for each operation that touches flash: what it returns, and what the
flash holds afterwards, as a function of what it held before. `init` and `verify` leave
the content as it is; `finalizeWrite` and `activateSlot` program one header.
-/

namespace TaktOS.Proof

open Lib

variable {δ : Type}

/-! ## A header just programmed -/

/-- A header that was just programmed is the one stored. -/
theorem storedHeader_program (S : Nat) (m : Nat → UInt8) (off : UInt32) (hdr : FirmwareHeader) :
    storedHeader (program S erased m off.toNat hdr.toBytes) off = hdr := by
  rw [storedHeader, show headerSize = hdr.toBytes.length from rfl, slice_program,
    FirmwareHeader.ofBytes_toBytes]

/-- A session's header is flagged once it is programmed. -/
theorem sessionHeader_flagged (fc : FirmwareCache) (slot : UInt8) (S : Nat)
    (m : Nat → UInt8) {total : Nat} {off : UInt32} (hin : off.toNat + headerSize ≤ total) :
    Flagged total (program S erased m off.toNat (fc.sessionHeader slot).toBytes) off :=
  ⟨hin, by rw [storedHeader_program]; rfl,
    by rw [storedHeader_program]; simp [FirmwareCache.sessionHeader, FirmwareHeader.validFlag]⟩

/-- A session's header verifies over a body that reads back as the image it describes. -/
theorem verifies_session (fc : FirmwareCache) (slot : UInt8) (S : Nat) (m : Nat → UInt8)
    {total : Nat} {off : UInt32} {image : List UInt8}
    (hcrc : fc.writeCrc = Crc32.update Crc32.initial image) (htotal : total < 4294967296)
    (hfit : off.toNat + 4096 + fc.writeImageSize.toNat ≤ total)
    (himage : slice (program S erased m off.toNat (fc.sessionHeader slot).toBytes)
      (off.toNat + 4096) fc.writeImageSize.toNat = image) :
    Verifies total (program S erased m off.toNat (fc.sessionHeader slot).toBytes) off := by
  have hbody := bodyOffset_toNat off (by omega)
  have hcrc' : (fc.sessionHeader slot).crc32 = Crc32.compute image :=
    congrArg Crc32.finalize hcrc
  refine ⟨sessionHeader_flagged fc slot S m (by unfold headerSize; omega), Or.inr ?_, ?_⟩
  · rw [storedHeader_program, hbody]
    exact hfit
  · rw [storedHeader_program, hbody, hcrc']
    exact congrArg Crc32.compute himage

/-- The bootable bit leaves the valid bit alone. -/
theorem bootable_validFlag (h : FirmwareHeader) : (bootable h).validFlag = h.validFlag := by
  -- the two bits are masked apart
  have hbits : (h.flags ||| 0x02) &&& 0x01 = (h.flags &&& 0x01) ||| (0x02 &&& 0x01) :=
    UInt8.toBitVec_inj.mp BitVec.and_or_distrib_right
  have hzero : (h.flags ||| 0x02) &&& 0x01 = h.flags &&& 0x01 := hbits.trans UInt8.or_zero
  simp only [FirmwareHeader.validFlag, bootable, hzero]

/-- The flash after the header at `off` was marked bootable. -/
def markedBootable (b : FlashBackend δ) (m : Nat → UInt8) (off : UInt32) : Nat → UInt8 :=
  program b.sectorSize.toNat erased m off.toNat (bootable (storedHeader m off)).toBytes

theorem storedHeader_marked (b : FlashBackend δ) (m : Nat → UInt8) (off : UInt32) :
    storedHeader (markedBootable b m off) off = bootable (storedHeader m off) :=
  storedHeader_program _ _ _ _

/-- A flagged header marked bootable is still flagged. -/
theorem flagged_marked {b : FlashBackend δ} {total : Nat} {m : Nat → UInt8} {off : UInt32}
    (h : Flagged total m off) : Flagged total (markedBootable b m off) off :=
  ⟨h.1, by rw [storedHeader_marked]; exact h.2.1,
    by rw [storedHeader_marked, bootable_validFlag]; exact h.2.2⟩

/-- An image marked bootable is still whole, where the header's sectors end before the body. -/
theorem verifies_marked {b : FlashBackend δ} {total : Nat} {m : Nat → UInt8} {off : UInt32}
    (hS : 0 < b.sectorSize.toNat) (hoff : b.sectorSize.toNat ∣ off.toNat)
    (hres : blockCeil b.sectorSize.toNat headerSize ≤ 4096) (hw : off.toNat + 4096 < 4294967296)
    (h : Verifies total m off) : Verifies total (markedBootable b m off) off := by
  have hbody : AgreeOn (off + kHeaderReserved).toNat
      ((off + kHeaderReserved).toNat + (storedHeader m off).size.toNat)
      (markedBootable b m off) m := by
    refine agreeOn_program hS (Or.inr ?_)
    rw [bodyOffset_toNat off hw, FirmwareHeader.length_toBytes, blockCeil_add hS hoff]
    exact Nat.add_le_add_left hres _
  refine ⟨flagged_marked h.1, ?_, ?_⟩
  · rw [storedHeader_marked]
    exact h.2.1
  · rw [storedHeader_marked]
    exact (congrArg Crc32.compute (slice_congr hbody)).trans h.2.2

/-! ## `init`, and the answer of `finalizeWrite` -/

section Readable

variable {b : FlashBackend δ} {content : δ → Nat → UInt8} (sm : StorageManager δ)

/-- **`init` selects by the flags alone**: slot A if it is flagged, else B if that is, else A. -/
theorem init_readable (hb : sm.backend = some b) (hr : b.Readable content) (fc : FirmwareCache)
    (slotA slotB size : UInt32) :
    ∃ d, content d = content sm.device
      ∧ fc.init sm slotA slotB size
        = ({ fc with
              slotAOffset := slotA
              slotBOffset := slotB
              slotSize := size
              activeSlot :=
                if Flagged b.totalSize.toNat (content sm.device) slotA then 0
                else if Flagged b.totalSize.toNat (content sm.device) slotB then 1 else 0 },
            { sm with device := d }) := by
  rw [FirmwareCache.init]
  dsimp only
  generalize hfc : ({ fc with slotAOffset := slotA, slotBOffset := slotB, slotSize := size }
    : FirmwareCache) = fc'
  have hA : fc'.slotOffset 0 = slotA := by rw [← hfc]; rfl
  have hB : fc'.slotOffset 1 = slotB := by rw [← hfc]; rfl
  have hflagA := getHeader_flagged sm hb hr fc' (show (0 : UInt8) ≤ 1 by decide) {}
  obtain ⟨d, hd, hcont⟩ := getHeader_after sm (readKeeps_content hb hr (content sm.device)) rfl
    fc' 0 {}
  -- slot B's header is read after slot A's, from the same content
  have hflagB := getHeader_flagged { sm with device := d } hb hr fc'
    (show (1 : UInt8) ≤ 1 by decide) {}
  obtain ⟨d', hd', hcont'⟩ := getHeader_after { sm with device := d }
    (readKeeps_content hb hr (content sm.device)) hcont fc' 1 {}
  refine ⟨d', hcont', ?_⟩
  dsimp only at hflagB
  rw [hcont] at hflagB
  rw [hd, hd']
  simp only [hflagA, hflagB, hA, hB]

/-- What `finalizeWrite` answers is whether its header write left a whole image. -/
theorem finalizeWrite_answer (hb : sm.backend = some b) (hr : b.Readable content)
    (fc : FirmwareCache) (hw : fc.writing = true) {r : Int} {sm₁ : StorageManager δ}
    (hwr : sm.write (fc.slotOffset fc.inactiveSlot) (fc.sessionHeader fc.inactiveSlot).toBytes
      = some (r, sm₁)) :
    ∃ ok d, fc.finalizeWrite sm = some (ok, closed fc, { sm with device := d })
      ∧ content d = content sm₁.device
      ∧ (ok = true ↔ Verifies b.totalSize.toNat (content sm₁.device)
          (fc.slotOffset fc.inactiveSlot)) := by
  obtain ⟨d₁, rfl⟩ := write_frame hwr
  -- `verify` runs on what the write left, and leaves it as it is
  obtain ⟨d, hd, hcont⟩ := verify_after { sm with device := d₁ }
    (readKeeps_content hb hr (content d₁)) rfl fc fc.inactiveSlot
  refine ⟨_, d, ?_, hcont, verify_iff { sm with device := d₁ } hb hr fc (inactiveSlot_le fc)⟩
  rw [finalizeWrite_open hw hwr, hd]

end Readable

/-! ## `finalizeWrite`, `activateSlot`, `rollback` -/

section Reliable

variable {b : FlashBackend δ} {content : δ → Nat → UInt8}

/-- `finalizeWrite`: the header is programmed, then verified. -/
theorem finalizeWrite_reliable (hr : b.Reliable content) (hS : 0 < b.sectorSize.toNat)
    (fc : FirmwareCache) (sm : StorageManager δ) (hb : sm.backend = some b)
    (hw : fc.writing = true)
    (hin : (fc.slotOffset fc.inactiveSlot).toNat + headerSize ≤ b.totalSize.toNat) :
    ∃ ok d', fc.finalizeWrite sm = some (ok, closed fc, { sm with device := d' })
      ∧ content d' = program b.sectorSize.toNat erased (content sm.device)
          (fc.slotOffset fc.inactiveSlot).toNat (fc.sessionHeader fc.inactiveSlot).toBytes
      ∧ (ok = true ↔ Verifies b.totalSize.toNat (content d')
          (fc.slotOffset fc.inactiveSlot)) := by
  obtain ⟨d, hwr, hcont⟩ := write_reliable sm hb hr hS (fc.slotOffset fc.inactiveSlot)
    (fc.sessionHeader fc.inactiveSlot).toBytes
    (by rw [FirmwareHeader.length_toBytes]; omega)
    (by rw [FirmwareHeader.length_toBytes]; exact hin)
  obtain ⟨ok, d', hcall, hcont', hok⟩ := finalizeWrite_answer sm hb hr.toReadable fc hw hwr
  exact ⟨ok, d', hcall, hcont'.trans hcont, by rw [hcont']; exact hok⟩

variable {fc fc' : FirmwareCache} {sm sm' : StorageManager δ}

/-- `activateSlot`: refused without a trace, or the slot's header is marked bootable. -/
theorem activateSlot_reliable (hr : b.Reliable content) (hS : 0 < b.sectorSize.toNat)
    {slot : UInt8} {ok : Bool} (h : fc.activateSlot sm slot = some (ok, fc', sm'))
    (hb : sm.backend = some b) :
    ∃ d, sm' = { sm with device := d }
      ∧ ((ok = false ∧ fc' = fc ∧ content d = content sm.device)
        ∨ (ok = true ∧ slot ≤ 1 ∧ fc' = { fc with activeSlot := slot }
          ∧ Verifies b.totalSize.toNat (content sm.device) (fc.slotOffset slot)
          ∧ content d = markedBootable b (content sm.device) (fc.slotOffset slot))) := by
  obtain ⟨d, hd, hcont⟩ := verify_after sm (readKeeps_content hb hr.toReadable (content sm.device))
    rfl fc slot
  rcases activateSlot_cases h with ⟨_, hok, hfc, hsm⟩ | ⟨_, _, hok, hfc, hsm⟩
    | ⟨hslot, hv, hok, hfc, k, hw⟩
  · exact ⟨sm.device, hsm, Or.inl ⟨hok, hfc, rfl⟩⟩
  · exact ⟨d, hsm.trans hd, Or.inl ⟨hok, hfc, hcont⟩⟩
  · have hver := (verify_iff sm hb hr.toReadable fc hslot).mp hv
    have hin := hver.1.1
    -- the header written back is the one verified
    rw [hd, getHeader_header { sm with device := d } hb hr.toReadable fc hslot {} hin] at hw
    obtain ⟨d₁, hd₁, hcont₁⟩ := getHeader_after { sm with device := d }
      (readKeeps_content hb hr.toReadable (content sm.device)) hcont fc slot {}
    rw [hd₁] at hw
    obtain ⟨d₂, hwr, hcont₂⟩ := write_reliable { sm with device := d₁ } hb hr hS
      (fc.slotOffset slot)
      (bootable (storedHeader (content d) (fc.slotOffset slot))).toBytes
      (by rw [FirmwareHeader.length_toBytes]; omega)
      (by rw [FirmwareHeader.length_toBytes]; exact hin)
    refine ⟨d₂, ?_, Or.inr ⟨hok, hslot, hfc, hver, ?_⟩⟩
    · have := hw.symm.trans hwr
      injection this with this; injection this
    · rw [hcont₂, hcont, hcont₁]
      rfl

/-- `rollback` is `activateSlot` of the inactive slot, as far as flash can tell. -/
theorem rollback_reliable (hr : b.Reliable content) (hS : 0 < b.sectorSize.toNat)
    {ok : Bool} (h : fc.rollback sm = some (ok, fc', sm')) (hb : sm.backend = some b) :
    ∃ d, sm' = { sm with device := d }
      ∧ ((ok = false ∧ fc' = fc ∧ content d = content sm.device)
        ∨ (ok = true ∧ fc' = { fc with activeSlot := fc.inactiveSlot }
          ∧ Verifies b.totalSize.toNat (content sm.device) (fc.slotOffset fc.inactiveSlot)
          ∧ content d
            = markedBootable b (content sm.device) (fc.slotOffset fc.inactiveSlot))) := by
  obtain ⟨d, hd, hcont⟩ := verify_after sm (readKeeps_content hb hr.toReadable (content sm.device))
    rfl fc fc.inactiveSlot
  rcases rollback_cases h with ⟨_, hok, hfc, hsm⟩ | ⟨_, hact⟩
  · exact ⟨d, hsm.trans hd, Or.inl ⟨hok, hfc, hcont⟩⟩
  · rw [hd] at hact
    obtain ⟨d', hsm, hcases⟩ := activateSlot_reliable hr hS hact hb
    dsimp only at hcases
    rw [hcont] at hcases
    refine ⟨d', hsm, ?_⟩
    rcases hcases with hrefused | ⟨hok, _, hfc, hver, hprog⟩
    · exact Or.inl hrefused
    · exact Or.inr ⟨hok, hfc, hver, hprog⟩

end Reliable

end TaktOS.Proof
