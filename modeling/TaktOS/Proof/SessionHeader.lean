import TaktOS.Proof.ActivationFailures
import TaktOS.Proof.ImageLength

/-!
# What `finalizeWrite` vouches for when flash operations fail

The header of the session is written, the result dropped, and `verify` asked. Where the write
fails `verify` judges whatever the slot holds, and an image of an earlier session passes as well
as this one's. It is still there if not even its first sector could be erased.
-/

namespace TaktOS.Proof

open Lib

variable {δ : Type}

/-! ## The header vouched for, and the foreign image -/

/-- The header of a session that announced `imageSize` and `version` and took these bytes. -/
def builtHeader (fc : FirmwareCache) (imageSize version : UInt32) (taken : List UInt8) :
    FirmwareHeader where
  magic := kFirmwareMagic
  version := version
  size := imageSize
  slot := fc.inactiveSlot
  crc32 := Crc32.compute taken
  flags := 0x01

/-- If the answer is `true`, the header stored is the one that was to be written. -/
def VouchesFor (content : δ → Nat → UInt8) (off : UInt32) (header : FirmwareHeader)
    (answer : Option (Bool × FirmwareCache × StorageManager δ)) : Prop :=
  ∀ fc' sm', answer = some (true, fc', sm') → storedHeader (content sm'.device) off = header

/-- The header write that closes the session. -/
def closingWrite (fc : FirmwareCache) (sm : StorageManager δ) : Option (Int × StorageManager δ) :=
  sm.write (fc.slotOffset fc.inactiveSlot) (fc.sessionHeader fc.inactiveSlot).toBytes

/-- It succeeds. -/
def ClosingWritten (fc : FirmwareCache) (sm : StorageManager δ) : Prop :=
  ∃ r sm', closingWrite fc sm = some (r, sm') ∧ 0 ≤ r

/-- It leaves a whole image under another header. -/
def ForeignImageLeft (b : FlashBackend δ) (content : δ → Nat → UInt8) (fc : FirmwareCache)
    (sm : StorageManager δ) : Prop :=
  ∃ r sm', closingWrite fc sm = some (r, sm')
    ∧ Verifies b.totalSize.toNat (content sm'.device) (fc.slotOffset fc.inactiveSlot)
    ∧ storedHeader (content sm'.device) (fc.slotOffset fc.inactiveSlot)
      ≠ fc.sessionHeader fc.inactiveSlot

/-- The slot holds a whole image under another header, and the first sector cannot be erased. -/
def ForeignImageKept (b : FlashBackend δ) (content : δ → Nat → UInt8) (fc : FirmwareCache)
    (sm : StorageManager δ) : Prop :=
  (b.erase sm.device (fc.slotOffset fc.inactiveSlot) b.sectorSize.toNat).1 ≠ 0
    ∧ Verifies b.totalSize.toNat (content sm.device) (fc.slotOffset fc.inactiveSlot)
    ∧ storedHeader (content sm.device) (fc.slotOffset fc.inactiveSlot)
      ≠ fc.sessionHeader fc.inactiveSlot

/-! ## Closing a session -/

section Fallible

variable {b : FlashBackend δ} {content : δ → Nat → UInt8} (fc : FirmwareCache)
  (sm : StorageManager δ)

/-- **It vouches for the header unless the write leaves a whole image under another one.** -/
theorem vouchesFor_iff (hr : b.Readable content) (hb : sm.backend = some b)
    (hw : fc.writing = true) :
    VouchesFor content (fc.slotOffset fc.inactiveSlot) (fc.sessionHeader fc.inactiveSlot)
        (fc.finalizeWrite sm)
      ↔ ¬ ForeignImageLeft b content fc sm := by
  constructor
  · rintro hvouch ⟨r, sm₁, hwr, hv, hne⟩
    obtain ⟨ok, d, hcall, hcont, hok⟩ := finalizeWrite_answer sm hb hr fc hw hwr
    have hstored := hvouch _ _ (hok.mpr hv ▸ hcall)
    dsimp only at hstored
    rw [hcont] at hstored
    exact hne hstored
  · intro hleft fc' sm' hcall
    rcases finalizeWrite_cases hcall with ⟨hw', _⟩ | ⟨_, _, r, sm₁, hwr, _⟩
    · exact absurd (hw.symm.trans hw') (by simp)
    · obtain ⟨ok, d, hcall', hcont, hok⟩ := finalizeWrite_answer sm hb hr fc hw hwr
      rw [hcall] at hcall'
      injection hcall' with hcall'; injection hcall' with htrue hcall'
      injection hcall' with _ hsm
      rw [hsm]
      dsimp only
      rw [hcont]
      exact Decidable.not_not.mp fun hne => hleft ⟨r, sm₁, hwr, hok.mp htrue.symm, hne⟩

/-- A write that succeeds leaves the session's own header. -/
theorem not_foreign_of_written (hr : b.Fallible content) (hb : sm.backend = some b)
    (hS : 0 < b.sectorSize.toNat) (hwritten : ClosingWritten fc sm) :
    ¬ ForeignImageLeft b content fc sm := by
  rintro ⟨r, sm₁, hwr, hv, hne⟩
  obtain ⟨r', sm', hwr', hpos⟩ := hwritten
  rw [hwr] at hwr'
  injection hwr' with hwr'; injection hwr' with hr' _
  obtain ⟨r₂, d, hfall, hprog⟩ := write_fallible sm hr hb hS (fc.slotOffset fc.inactiveSlot)
    (fc.sessionHeader fc.inactiveSlot).toBytes (by rw [FirmwareHeader.length_toBytes]; decide)
    (by rw [FirmwareHeader.length_toBytes]; exact hv.1.1)
  rw [show sm.write (fc.slotOffset fc.inactiveSlot) (fc.sessionHeader fc.inactiveSlot).toBytes
    = some (r, sm₁) from hwr] at hfall
  injection hfall with hfall; injection hfall with hr₂ hsm
  refine hne ?_
  rw [hsm]
  dsimp only
  rw [hprog (by omega), storedHeader_program]

/-- Where a failed operation changes nothing, the image left is the one that was there. -/
theorem foreign_left_iff_kept (hr : b.Fallible content) (hc : b.Clean content)
    (hb : sm.backend = some b) (hS : 0 < b.sectorSize.toNat)
    (ha : b.sectorSize.toNat ∣ (fc.slotOffset fc.inactiveSlot).toNat) :
    ForeignImageLeft b content fc sm ↔ ForeignImageKept b content fc sm := by
  have hlen : (fc.sessionHeader fc.inactiveSlot).toBytes.length = 24 := rfl
  constructor
  · intro hleft
    have hnot := fun hwritten => not_foreign_of_written fc sm hr hb hS hwritten hleft
    obtain ⟨r, sm₁, hwr, hv, hne⟩ := hleft
    have hneg : r < 0 := Int.not_le.mp fun hpos => hnot ⟨r, sm₁, hwr, hpos⟩
    rcases write_failed_clean sm hr hc hb hS ha (by omega) (by omega)
      (by rw [hlen]; exact hv.1.1) hwr hneg with ⟨hcode, hsame⟩ | ⟨_, hblank⟩
    · rw [hsame] at hv hne
      exact ⟨hcode, hv, hne⟩
    · exact absurd hv.1 (not_flagged_erased hblank)
  · rintro ⟨hcode, hv, hne⟩
    refine ⟨-1, _, write_erase_failed sm hb hS ha (by omega) (by rw [hlen]; exact hv.1.1) hcode,
      ?_⟩
    dsimp only
    rw [hc.erase_failed _ _ _ hcode]
    exact ⟨hv, hne⟩

end Fallible

/-! ## The theorem -/

/--
**Exactly when `finalizeWrite` vouches for the session's header.** Over a flash whose erases and
writes may fail, whatever the slot held and whichever chunks were taken: a `true` means that
header if the header write succeeds, or if failing it does not leave a whole image under another
one. Where failed operations change nothing, the latter happens only if such an image was there
before and the first sector of its header cannot be erased.
-/
theorem finalize_vouches_iff (content : δ → Nat → UInt8) {b : FlashBackend δ}
    (hr : b.Fallible content) (hS : 0 < b.sectorSize.toNat) {fc : FirmwareCache}
    {sm : StorageManager δ} (hb : sm.backend = some b) {imageSize version : UInt32}
    {chunks : List (List UInt8)} (hacc : (fc.beginWrite imageSize version).1 = true)
    {rs : List Int} {fc₁ : FirmwareCache} {sm₁ : StorageManager δ}
    (hrun : writeChunks (fc.beginWrite imageSize version).2 sm chunks = some (rs, fc₁, sm₁)) :
    (VouchesFor content (fc.slotOffset fc.inactiveSlot)
        (builtHeader fc imageSize version
          (takenBytes (fc.beginWrite imageSize version).2 sm chunks)) (fc₁.finalizeWrite sm₁)
      ↔ ClosingWritten fc₁ sm₁ ∨ ¬ ForeignImageLeft b content fc₁ sm₁)
    ∧ (b.sectorSize.toNat ∣ (fc.slotOffset fc.inactiveSlot).toNat → b.Clean content →
      (VouchesFor content (fc.slotOffset fc.inactiveSlot)
          (builtHeader fc imageSize version
            (takenBytes (fc.beginWrite imageSize version).2 sm chunks)) (fc₁.finalizeWrite sm₁)
        ↔ ¬ ForeignImageKept b content fc₁ sm₁)) := by
  rw [beginWrite_opened hacc] at hrun ⊢
  obtain ⟨rfl, hbackend⟩ := writeChunks_taken chunks
    (show (opened fc imageSize version).writing = true from rfl) hrun
  generalize takenBytes (opened fc imageSize version) sm chunks = taken
  have hb₁ := hbackend.trans hb
  -- the header built is that of what the session took
  have hvouch := vouchesFor_iff (accepted (opened fc imageSize version) taken) sm₁
    hr.toReadable hb₁ rfl
  have hnot := not_foreign_of_written (accepted (opened fc imageSize version) taken) sm₁ hr hb₁ hS
  refine ⟨hvouch.trans ⟨Or.inr, fun h => h.elim hnot id⟩, fun ha hc => ?_⟩
  exact hvouch.trans (not_congr (foreign_left_iff_kept _ sm₁ hr hc hb₁ hS ha))

/-- Slot B holds an image of version 0. -/
def usedStorage (failures : List Bool) : StorageManager ((Nat → UInt8) × List Bool) :=
  failingStorage 0x5000 1 failures

/-- The session that brings the byte in slot B under a new version, and its answer. -/
def sameByteSession (failures : List Bool) :
    Option (Bool × FirmwareCache × StorageManager ((Nat → UInt8) × List Bool)) :=
  (writeChunks (testCache.beginWrite 1 7).2 (usedStorage failures) [[1]]).bind
    fun t => t.2.1.finalizeWrite t.2.2

/-- Without failures it vouches for version 7. -/
theorem vouches_without_failures :
    VouchesFor (fun d => d.1) 0x5000 (builtHeader testCache 1 7 [1]) (sameByteSession []) := by
  have hsome : (writeChunks (testCache.beginWrite 1 7).2 (usedStorage []) [[1]]).isSome = true := by
    decide
  obtain ⟨⟨rs, fc₁, sm₁⟩, hrun⟩ := Option.isSome_iff_exists.mp hsome
  have htaken : takenBytes (testCache.beginWrite 1 7).2 (usedStorage []) [[1]] = [1] := by
    decide
  have hwritten : ((writeChunks (testCache.beginWrite 1 7).2 (usedStorage []) [[1]]).bind fun t =>
      (closingWrite t.2.1 t.2.2).map fun w => w.1) = some 24 := by decide
  rw [hrun] at hwritten
  obtain ⟨⟨r, sm'⟩, hw, hr⟩ := Option.map_eq_some_iff.mp hwritten
  have hvouch := (finalize_vouches_iff (fun d => d.1) (failing_fallible testFlash_reliable)
    (by decide) (show (usedStorage []).backend = _ from rfl)
    (show (testCache.beginWrite 1 7).1 = true by decide) hrun).1.mpr
    (Or.inl ⟨r, sm', hw, by rw [show r = 24 from hr]; decide⟩)
  rw [htaken] at hvouch
  rw [sameByteSession, hrun]
  exact hvouch

/--
**The old header passes for the new one.** The chunk is written, the erase of the header's sector
fails; slot B keeps the header of version 0, and the answer is `true`.
-/
theorem old_header_vouched_for :
    (failing (memBackend 0x10000 4096)).Fallible (fun d => d.1)
      ∧ (testCache.beginWrite 1 7).1 = true
      ∧ takenBytes (testCache.beginWrite 1 7).2 (usedStorage [false, false, true]) [[1]] = [1]
      ∧ ¬ VouchesFor (fun d => d.1) 0x5000 (builtHeader testCache 1 7 [1])
        (sameByteSession [false, false, true]) := by
  refine ⟨failing_fallible testFlash_reliable, by decide, by decide, fun h => ?_⟩
  have hend : (sameByteSession [false, false, true]).map
      (fun t => (t.1, (storedHeader t.2.2.device.1 0x5000).version)) = some (true, 0) := by
    decide
  obtain ⟨⟨ok, fc', sm'⟩, hcall, hres⟩ := Option.map_eq_some_iff.mp hend
  obtain ⟨hok, hversion⟩ := Prod.mk.inj hres
  dsimp only at hok hversion
  subst hok
  rw [h fc' sm' hcall] at hversion
  exact absurd hversion (by decide)

end TaktOS.Proof
