import TaktOS.Proof.ActivationFailures
import TaktOS.Proof.CacheRuns

/-!
# Rolling back twice

A switch rewrites the header of the slot it switches to, with one more bit set. The sectors it
erases for that end before the body and lie in one slot, so `verify` finds of either slot what it
found before. Two rollbacks are then two switches, away and back; only the bits stay.
-/

namespace TaktOS.Proof

open Lib

variable {δ : Type}

/-! ## The active slot is one of the two -/

theorem activeSlot_le_of_init (fc : FirmwareCache) (sm : StorageManager δ)
    (slotA slotB size : UInt32) : (fc.init sm slotA slotB size).1.activeSlot ≤ 1 := by
  unfold FirmwareCache.init
  dsimp only
  split
  · decide
  · split <;> decide

theorem activateSlot_activeSlot_le {fc fc' : FirmwareCache} {sm sm' : StorageManager δ}
    {slot : UInt8} {ok : Bool} (h : fc.activateSlot sm slot = some (ok, fc', sm'))
    (hact : fc.activeSlot ≤ 1) : fc'.activeSlot ≤ 1 := by
  rcases activateSlot_cases h with ⟨_, _, hfc, _⟩ | ⟨_, _, _, hfc, _⟩ | ⟨hs, _, _, hfc, _⟩
  · rw [hfc]; exact hact
  · rw [hfc]; exact hact
  · rw [hfc]; exact hs

/-- **No call makes another slot active**, whatever the backend does. -/
theorem activeSlot_le_step {s s' : CacheState δ} {op : CacheOp} (h : cacheStep s op = some s')
    (hact : s.cache.activeSlot ≤ 1) : s'.cache.activeSlot ≤ 1 := by
  cases op with
  | session op =>
    rw [sessionStep_activeSlot h]
    exact hact
  | verify slot =>
    rw [← Option.some.inj h]
    exact hact
  | activateSlot slot =>
    obtain ⟨_, hc⟩ := activateSlot_step h
    exact activateSlot_activeSlot_le hc hact
  | rollback =>
    obtain ⟨_, hc⟩ := rollback_step h
    rcases rollback_cases hc with ⟨_, _, hfc, _⟩ | ⟨_, hc'⟩
    · rw [hfc]; exact hact
    · exact activateSlot_activeSlot_le hc' hact

/-- So the active slot of an initialised cache is one of the two after any calls. -/
theorem activeSlot_le_run {fc : FirmwareCache} {sm : StorageManager δ}
    {slotA slotB size : UInt32} {s' : CacheState δ} {ops : List CacheOp}
    (h : run cacheStep
      { cache := (fc.init sm slotA slotB size).1, storage := (fc.init sm slotA slotB size).2 } ops
        = some s') : s'.cache.activeSlot ≤ 1 :=
  run_preserves (fun s => s.cache.activeSlot ≤ 1) (fun _ _ _ hi hs => activeSlot_le_step hs hi)
    (activeSlot_le_of_init fc sm slotA slotB size) h

/-! ## What a switch keeps -/

/-- The image a flagged header announces lies in its slot, as `beginWrite` sees to. -/
def ImagesFit (total : Nat) (m : Nat → UInt8) (fc : FirmwareCache) : Prop :=
  ∀ slot ≤ 1, Flagged total m (fc.slotOffset slot) →
    4096 + (storedHeader m (fc.slotOffset slot)).size.toNat ≤ fc.slotSize.toNat

/-- The call returns, and `verify` says of every slot what it said before. -/
def KeepsVerify (fc : FirmwareCache) (sm : StorageManager δ)
    (call : Option (Bool × FirmwareCache × StorageManager δ)) : Prop :=
  ∃ ok fc' sm', call = some (ok, fc', sm') ∧ ∀ s, (fc'.verify sm' s).1 = (fc.verify sm s).1

section Reliable

variable {b : FlashBackend δ} {content : δ → Nat → UInt8} {fc fc' : FirmwareCache}
  {sm sm' : StorageManager δ}

/-- Marking a whole image bootable leaves both slots as whole as they were. -/
theorem verifies_after_marked {m : Nat → UInt8} (hl : Layout fc b)
    (hdvd : b.sectorSize.toNat ∣ 4096) (hfit : ImagesFit b.totalSize.toNat m fc) {slot : UInt8}
    (hslot : slot ≤ 1) (hv : Verifies b.totalSize.toNat m (fc.slotOffset slot)) {s : UInt8}
    (hs : s ≤ 1) :
    Verifies b.totalSize.toNat (markedBootable b m (fc.slotOffset slot)) (fc.slotOffset s)
      ↔ Verifies b.totalSize.toNat m (fc.slotOffset s) := by
  have htot := b.totalSize.toNat_lt
  have hin := hl.inside slot
  have hroom := hfit slot hslot hv.1
  have hres : HeaderReserve fc b := ⟨blockCeil_le hl.sector_pos hdvd (by decide), by omega⟩
  by_cases heq : s = slot
  · -- its own header: the sectors end before the body
    subst heq
    exact ⟨fun _ => hv, fun _ =>
      verifies_marked hl.sector_pos (hl.aligned s) hres.sectors (by omega) hv⟩
  · -- the other slot is out of reach
    have hins := hl.inside s
    have hagree : AgreeOn (fc.slotOffset s).toNat ((fc.slotOffset s).toNat + fc.slotSize.toNat) m
        (markedBootable b m (fc.slotOffset slot)) :=
      agreeOn_sectorsMiss hl.sector_pos (header_misses_other hl hres hslot hs heq)
    exact (verifies_congr_slot hagree (by unfold headerSize; omega) (by omega) (hfit s hs)).symm

/-- A call that leaves the flash, or marks a whole image in it, keeps `verify`. -/
theorem keepsVerify_of_switch (hr : b.Readable content) (hb : sm.backend = some b)
    (hl : Layout fc b) (hdvd : b.sectorSize.toNat ∣ 4096)
    (hfit : ImagesFit b.totalSize.toNat (content sm.device) fc) {slot : UInt8}
    (hslot : slot ≤ 1) (hslots : SameSlots fc fc') {d : δ}
    (hcont : content d = content sm.device
      ∨ Verifies b.totalSize.toNat (content sm.device) (fc.slotOffset slot)
        ∧ content d = markedBootable b (content sm.device) (fc.slotOffset slot)) (s : UInt8) :
    (fc'.verify { sm with device := d } s).1 = (fc.verify sm s).1 := by
  refine verify_congr sm { sm with device := d } hb hb hr fun hs => ?_
  rw [hslots.slotOffset]
  rcases hcont with hcont | ⟨hv, hcont⟩
  · rw [hcont]
  · rw [hcont]
    exact verifies_after_marked hl hdvd hfit hslot hv hs

theorem activateSlot_keepsVerify (hr : b.Reliable content) (hb : sm.backend = some b)
    (hl : Layout fc b) (hdvd : b.sectorSize.toNat ∣ 4096)
    (hfit : ImagesFit b.totalSize.toNat (content sm.device) fc) (slot : UInt8) :
    KeepsVerify fc sm (fc.activateSlot sm slot) := by
  obtain ⟨ok, fc', sm', hcall⟩ := activateSlot_returns fc sm hr.fallible hb hl.sector_pos slot
  have hslots := (activateSlot_frame hcall).slots
  refine ⟨ok, fc', sm', hcall, ?_⟩
  obtain ⟨d, rfl, ⟨_, _, hcont⟩ | ⟨_, hslot, _, hv, hcont⟩⟩ :=
    activateSlot_reliable hr hl.sector_pos hcall hb
  · exact keepsVerify_of_switch hr.toReadable hb hl hdvd hfit (inactiveSlot_le fc) hslots
      (Or.inl hcont)
  · exact keepsVerify_of_switch hr.toReadable hb hl hdvd hfit hslot hslots (Or.inr ⟨hv, hcont⟩)

/-- The other slot does not verify: nothing happens. -/
theorem rollback_refused (hr : b.Readable content) (hb : sm.backend = some b)
    (hv : (fc.verify sm fc.inactiveSlot).1 = false) :
    ∃ d, fc.rollback sm = some (false, fc, { sm with device := d })
      ∧ content d = content sm.device := by
  obtain ⟨d, hd, hcont⟩ := verify_after sm (readKeeps_content hb hr (content sm.device)) rfl
    fc fc.inactiveSlot
  refine ⟨d, ?_, hcont⟩
  rw [FirmwareCache.rollback]
  dsimp only
  rw [hv, hd]
  rfl

/-- It verifies: it becomes the active one, whatever becomes of the header write. -/
theorem rollback_switches (fc : FirmwareCache) (sm : StorageManager δ)
    (hr : b.Fallible content) (hb : sm.backend = some b) (hS : 0 < b.sectorSize.toNat)
    (hv : (fc.verify sm fc.inactiveSlot).1 = true) :
    ∃ d, fc.rollback sm
      = some (true, { fc with activeSlot := fc.inactiveSlot }, { sm with device := d }) := by
  obtain ⟨d, hd, hcont⟩ := verify_after sm
    (readKeeps_content hb hr.toReadable (content sm.device)) rfl fc fc.inactiveSlot
  have hagain : (fc.verify { sm with device := d } fc.inactiveSlot).1 = true := by
    rw [← hv]
    exact verify_congr sm { sm with device := d } hb hb hr.toReadable fun _ => by rw [hcont]
  obtain ⟨r, d', hw, _⟩ := markWrite_returns fc { sm with device := d } hr hb hS
    (inactiveSlot_le fc) hagain
  refine ⟨d', ?_⟩
  rw [FirmwareCache.rollback]
  dsimp only
  rw [hv, hd, if_neg (by decide)]
  exact activateSlot_accepts fc { sm with device := d } hr.toReadable hb (inactiveSlot_le fc)
    hagain hw

theorem rollback_keepsVerify (hr : b.Reliable content) (hb : sm.backend = some b)
    (hl : Layout fc b) (hdvd : b.sectorSize.toNat ∣ 4096)
    (hfit : ImagesFit b.totalSize.toNat (content sm.device) fc) :
    KeepsVerify fc sm (fc.rollback sm) := by
  have hreturns : ∃ ok fc' sm', fc.rollback sm = some (ok, fc', sm') := by
    cases hv : (fc.verify sm fc.inactiveSlot).1 with
    | false =>
      obtain ⟨d, hcall, _⟩ := rollback_refused hr.toReadable hb hv
      exact ⟨_, _, _, hcall⟩
    | true =>
      obtain ⟨d, hcall⟩ := rollback_switches fc sm hr.fallible hb hl.sector_pos hv
      exact ⟨_, _, _, hcall⟩
  obtain ⟨ok, fc', sm', hcall⟩ := hreturns
  have hslots := (rollback_frame hcall).slots
  refine ⟨ok, fc', sm', hcall, ?_⟩
  obtain ⟨d, rfl, ⟨_, _, hcont⟩ | ⟨_, _, hv, hcont⟩⟩ :=
    rollback_reliable hr hl.sector_pos hcall hb
  · exact keepsVerify_of_switch hr.toReadable hb hl hdvd hfit (inactiveSlot_le fc) hslots
      (Or.inl hcont)
  · exact keepsVerify_of_switch hr.toReadable hb hl hdvd hfit (inactiveSlot_le fc) hslots
      (Or.inr ⟨hv, hcont⟩)

end Reliable

/-! ## The theorem -/

/-- The inactive slot of the inactive slot is the active one. -/
theorem inactiveSlot_inactiveSlot {fc : FirmwareCache} (hact : fc.activeSlot ≤ 1) :
    ({ fc with activeSlot := fc.inactiveSlot } : FirmwareCache).inactiveSlot = fc.activeSlot := by
  unfold FirmwareCache.inactiveSlot
  rcases le_one_cases hact with h | h <;> simp [h]

/-- Two rollbacks both return `true`, the first on the other slot, and end on the slot they started
from. -/
def RollsBackTwice (fc : FirmwareCache) (sm : StorageManager δ) : Prop :=
  ∃ fc₁ sm₁ fc₂ sm₂, fc.rollback sm = some (true, fc₁, sm₁) ∧ fc₁.activeSlot = fc.inactiveSlot
    ∧ fc₁.rollback sm₁ = some (true, fc₂, sm₂) ∧ fc₂.activeSlot = fc.activeSlot

/--
**Rollback is an involution.** Over a reliable flash, with disjoint sector-aligned slots and
images that fit them, `activateSlot` and `rollback` keep what `verify` says of both slots. So if
both verify, two rollbacks lead over and back; if the inactive one does not, a rollback is refused,
and neither the flash nor the active slot changes.
-/
theorem rollback_involution (content : δ → Nat → UInt8) {b : FlashBackend δ}
    (hr : b.Reliable content) {fc : FirmwareCache} {sm : StorageManager δ}
    (hb : sm.backend = some b) (hl : Layout fc b) (hdvd : b.sectorSize.toNat ∣ 4096)
    (hfit : ImagesFit b.totalSize.toNat (content sm.device) fc) (hact : fc.activeSlot ≤ 1) :
    (∀ slot, KeepsVerify fc sm (fc.activateSlot sm slot))
      ∧ KeepsVerify fc sm (fc.rollback sm)
      ∧ ((fc.verify sm 0).1 = true → (fc.verify sm 1).1 = true → RollsBackTwice fc sm)
      ∧ ((fc.verify sm fc.inactiveSlot).1 = false →
        ∃ d, fc.rollback sm = some (false, fc, { sm with device := d })
          ∧ content d = content sm.device) := by
  have hkeeps := rollback_keepsVerify hr hb hl hdvd hfit
  refine ⟨activateSlot_keepsVerify hr hb hl hdvd hfit, hkeeps, fun h0 h1 => ?_,
    rollback_refused hr.toReadable hb⟩
  have hboth : ∀ s ≤ 1, (fc.verify sm s).1 = true := by
    intro s hs
    rcases le_one_cases hs with rfl | rfl
    · exact h0
    · exact h1
  obtain ⟨d, hcall⟩ := rollback_switches fc sm hr.fallible hb hl.sector_pos
    (hboth _ (inactiveSlot_le fc))
  obtain ⟨_, _, _, hcall', hsame⟩ := hkeeps
  rw [hcall] at hcall'
  obtain ⟨_, rfl, rfl⟩ : true = _ ∧ _ ∧ _ := by simpa using hcall'
  have hback := inactiveSlot_inactiveSlot hact
  obtain ⟨d', hcall₂⟩ := rollback_switches { fc with activeSlot := fc.inactiveSlot }
    { sm with device := d } hr.fallible hb hl.sector_pos
    (by rw [hback, hsame]; exact hboth _ hact)
  exact ⟨_, _, _, _, hcall, rfl, hcall₂, hback⟩

/-- The test's flash with an image in either slot. -/
def bothImages : StorageManager (Nat → UInt8) :=
  { testStorage with device := withImage (withImage testStorage.device 0x1000 0 [1]) 0x5000 1 [2] }

/-- From slot A to slot B and back. -/
theorem rollback_involution_both_images : RollsBackTwice testCache bothImages := by
  refine (rollback_involution id testFlash_reliable
    (show bothImages.backend = _ from rfl) (testCache_layout rfl rfl) (by decide) ?_
    (by decide)).2.2.1 (by decide) (by decide)
  intro slot hslot _
  rcases le_one_cases hslot with rfl | rfl <;> decide

end TaktOS.Proof
