import TaktOS.Proof.ReliableFlash

/-!
# A slot switch and the next reboot

`activateSlot` and `rollback` keep their choice in RAM and set a bit that nothing reads;
`init` chooses again from the valid flags, slot A first. The two agree exactly when the
switch was to slot A, or slot A has no valid header to be preferred for.
-/

namespace TaktOS.Proof

open Lib

variable {δ : Type}

/-- The two calls that switch the active slot. -/
inductive SwitchOp where
  | activateSlot (slot : UInt8)
  | rollback

/-- The slot a switch is to. -/
def SwitchOp.slot (fc : FirmwareCache) : SwitchOp → UInt8
  | .activateSlot slot => slot
  | .rollback => fc.inactiveSlot

def SwitchOp.call (fc : FirmwareCache) (sm : StorageManager δ) :
    SwitchOp → Option (Bool × FirmwareCache × StorageManager δ)
  | .activateSlot slot => fc.activateSlot sm slot
  | .rollback => fc.rollback sm

/-- Slot A's header lies outside the sectors that a header write to slot B erases. -/
def HeadersApart (b : FlashBackend δ) (fc : FirmwareCache) : Prop :=
  fc.slotAOffset.toNat + headerSize ≤ blockFloor b.sectorSize.toNat fc.slotBOffset.toNat
    ∨ blockCeil b.sectorSize.toNat (fc.slotBOffset.toNat + headerSize) ≤ fc.slotAOffset.toNat

/--
The switch is to slot A, or slot A's header is not flagged valid, read after the header of
the slot switched to has been marked.
-/
def SurvivesReboot (b : FlashBackend δ) (m : Nat → UInt8) (fc : FirmwareCache)
    (slot : UInt8) : Prop :=
  slot = 0
    ∨ ¬ Flagged b.totalSize.toNat (markedBootable b m (fc.slotOffset slot)) fc.slotAOffset

variable {b : FlashBackend δ} {content : δ → Nat → UInt8} {fc fc' : FirmwareCache}
  {sm sm' : StorageManager δ}

/-- What either switch leaves on flash. -/
theorem switch_reliable (hr : b.Reliable content) (hS : 0 < b.sectorSize.toNat)
    (hb : sm.backend = some b) {op : SwitchOp} (h : op.call fc sm = some (true, fc', sm')) :
    op.slot fc ≤ 1 ∧ Verifies b.totalSize.toNat (content sm.device) (fc.slotOffset (op.slot fc))
      ∧ ∃ d, sm' = { sm with device := d }
        ∧ content d = markedBootable b (content sm.device) (fc.slotOffset (op.slot fc)) := by
  cases op with
  | activateSlot slot =>
    obtain ⟨d, hsm, ⟨hok, _⟩ | ⟨_, hslot, _, hver, hprog⟩⟩ := activateSlot_reliable hr hS h hb
    · exact absurd hok (by simp)
    · exact ⟨hslot, hver, d, hsm, hprog⟩
  | rollback =>
    obtain ⟨d, hsm, ⟨hok, _⟩ | ⟨_, _, hver, hprog⟩⟩ := rollback_reliable hr hS h hb
    · exact absurd hok (by simp)
    · exact ⟨inactiveSlot_le fc, hver, d, hsm, hprog⟩

/-- With the headers apart, marking slot B leaves slot A's header as it was. -/
theorem survivesReboot_iff (hS : 0 < b.sectorSize.toNat) {m : Nat → UInt8} {slot : UInt8}
    (hslot : slot ≤ 1) (hapart : HeadersApart b fc) :
    SurvivesReboot b m fc slot
      ↔ slot = 0 ∨ ¬ Flagged b.totalSize.toNat m fc.slotAOffset := by
  unfold SurvivesReboot
  rcases le_one_cases hslot with rfl | rfl
  · simp
  · have hagree : AgreeOn fc.slotAOffset.toNat (fc.slotAOffset.toNat + headerSize)
        (markedBootable b m (fc.slotOffset 1)) m := agreeOn_program hS hapart
    rw [flagged_congr hagree]

/--
**A switch survives a reboot exactly when slot A is not in its way.** Whatever history led
to the state: after a successful `activateSlot` or `rollback` over a reliable backend,
`init` with the same parameters selects the slot just activated if and only if that is
slot A or slot A's header is not flagged valid. Where the two headers share no sector, that
can be read off the flash before the call.
-/
theorem switch_survives_iff (hr : b.Reliable content) (hS : 0 < b.sectorSize.toNat)
    (hb : sm.backend = some b) {op : SwitchOp} (h : op.call fc sm = some (true, fc', sm'))
    (fresh : FirmwareCache) :
    ((fresh.init sm' fc.slotAOffset fc.slotBOffset fc.slotSize).1.activeSlot = op.slot fc
        ↔ SurvivesReboot b (content sm.device) fc (op.slot fc))
      ∧ (HeadersApart b fc →
          (SurvivesReboot b (content sm.device) fc (op.slot fc)
            ↔ op.slot fc = 0
              ∨ ¬ Flagged b.totalSize.toNat (content sm.device) fc.slotAOffset)) := by
  obtain ⟨hslot, hver, d, hsm, hprog⟩ := switch_reliable hr hS hb h
  refine ⟨?_, survivesReboot_iff hS hslot⟩
  obtain ⟨d', _, hinit⟩ := init_readable sm' (by rw [hsm]; exact hb)
    hr.toReadable fresh fc.slotAOffset fc.slotBOffset fc.slotSize
  rw [hinit, hsm]
  dsimp only
  rw [hprog]
  -- the slot just marked is flagged
  have hflag : Flagged b.totalSize.toNat
      (markedBootable b (content sm.device) (fc.slotOffset (op.slot fc)))
      (fc.slotOffset (op.slot fc)) := flagged_marked hver.1
  unfold SurvivesReboot
  rcases le_one_cases hslot with h0 | h1
  · -- a flagged slot A is selected
    rw [h0] at hflag ⊢
    rw [if_pos (show Flagged _ _ fc.slotAOffset from hflag)]
    simp
  · -- slot B is selected if slot A is not
    rw [h1] at hflag ⊢
    by_cases hA : Flagged b.totalSize.toNat
        (markedBootable b (content sm.device) (fc.slotOffset 1)) fc.slotAOffset
    · rw [if_pos hA]
      simp [hA]
    · rw [if_neg hA, if_pos (show Flagged _ _ fc.slotBOffset from hflag)]
      simp [hA]

/-- With slot A blank, the switch to slot B survives. -/
theorem switch_survives_blank_slotA :
    ∃ fc' sm', testCache.activateSlot
          { testStorage with device := withImage testStorage.device 0x5000 1 [2] } 1
        = some (true, fc', sm')
      ∧ (({} : FirmwareCache).init sm' 0x1000 0x5000 0x4000).1.activeSlot = 1 := by
  have hret : (testCache.activateSlot
      { testStorage with device := withImage testStorage.device 0x5000 1 [2] } 1).map
        (fun t => t.1) = some true := by decide
  obtain ⟨⟨ok, fc', sm'⟩, hcall, hok⟩ := Option.map_eq_some_iff.mp hret
  dsimp only at hok
  rw [hok] at hcall
  have hswitch : SwitchOp.call testCache
      { testStorage with device := withImage testStorage.device 0x5000 1 [2] } (.activateSlot 1)
        = some (true, fc', sm') := hcall
  have hiff := switch_survives_iff testFlash_reliable (by decide) rfl hswitch {}
  exact ⟨fc', sm', hcall, hiff.1.mpr ((hiff.2 (Or.inl (by decide))).mpr (by decide))⟩

/-- **With an image in both slots, a switch to slot B is forgotten.** -/
theorem switch_forgotten :
    ∃ fc' sm', testCache.activateSlot
          { testStorage with
            device := withImage (withImage testStorage.device 0x1000 0 [1]) 0x5000 1 [2] } 1
        = some (true, fc', sm')
      ∧ (({} : FirmwareCache).init sm' 0x1000 0x5000 0x4000).1.activeSlot ≠ 1 := by
  have hret : (testCache.activateSlot
      { testStorage with
        device := withImage (withImage testStorage.device 0x1000 0 [1]) 0x5000 1 [2] } 1).map
        (fun t => (t.1, (({} : FirmwareCache).init t.2.2 0x1000 0x5000 0x4000).1.activeSlot))
      = some (true, 0) := by decide
  obtain ⟨⟨ok, fc', sm'⟩, hcall, hres⟩ := Option.map_eq_some_iff.mp hret
  obtain ⟨hok, hactive⟩ := Prod.mk.inj hres
  dsimp only at hok hactive
  rw [hok] at hcall
  exact ⟨fc', sm', hcall, by rw [hactive]; decide⟩

end TaktOS.Proof
