import TaktOS.Proof.Verify

/-!
# What each firmware cache operation can do

One inversion lemma for each operation: every outcome it has, with the guard that
leads there and the state it leaves. Nothing above this file unfolds the operations.

`Layout` is the geometry the slots are configured with. No operation but `init`
touches it, which is `SameSlots`.
-/

namespace TaktOS.Proof

open Lib

variable {δ : Type}

/-! ## Geometry -/

/-- Two disjoint slots inside the flash, each starting on a sector boundary. -/
structure Layout (fc : FirmwareCache) (b : FlashBackend δ) : Prop where
  sector_pos : 0 < b.sectorSize.toNat
  alignedA : b.sectorSize.toNat ∣ fc.slotAOffset.toNat
  alignedB : b.sectorSize.toNat ∣ fc.slotBOffset.toNat
  insideA : fc.slotAOffset.toNat + fc.slotSize.toNat ≤ b.totalSize.toNat
  insideB : fc.slotBOffset.toNat + fc.slotSize.toNat ≤ b.totalSize.toNat
  disjoint : fc.slotAOffset.toNat + fc.slotSize.toNat ≤ fc.slotBOffset.toNat
    ∨ fc.slotBOffset.toNat + fc.slotSize.toNat ≤ fc.slotAOffset.toNat

theorem Layout.aligned {fc : FirmwareCache} {b : FlashBackend δ} (h : Layout fc b)
    (slot : UInt8) : b.sectorSize.toNat ∣ (fc.slotOffset slot).toNat := by
  unfold FirmwareCache.slotOffset
  split
  · exact h.alignedA
  · exact h.alignedB

theorem Layout.inside {fc : FirmwareCache} {b : FlashBackend δ} (h : Layout fc b)
    (slot : UInt8) : (fc.slotOffset slot).toNat + fc.slotSize.toNat ≤ b.totalSize.toNat := by
  unfold FirmwareCache.slotOffset
  split
  · exact h.insideA
  · exact h.insideB

/-- The test's two slots suit its flash, and any other of that size and with those sectors. -/
theorem testCache_layout {b : FlashBackend δ} (htotal : b.totalSize = 0x10000)
    (hsector : b.sectorSize = 4096) : Layout testCache b where
  sector_pos := by rw [hsector]; decide
  alignedA := by rw [hsector]; decide
  alignedB := by rw [hsector]; decide
  insideA := by rw [htotal]; decide
  insideB := by rw [htotal]; decide
  disjoint := Or.inl (by decide)

/-- The same slots, whatever else changed. -/
structure SameSlots (fc fc' : FirmwareCache) : Prop where
  slotA : fc'.slotAOffset = fc.slotAOffset
  slotB : fc'.slotBOffset = fc.slotBOffset
  size : fc'.slotSize = fc.slotSize

theorem SameSlots.refl (fc : FirmwareCache) : SameSlots fc fc := ⟨rfl, rfl, rfl⟩

theorem SameSlots.slotOffset {fc fc' : FirmwareCache} (h : SameSlots fc fc') (slot : UInt8) :
    fc'.slotOffset slot = fc.slotOffset slot := by
  unfold FirmwareCache.slotOffset
  rw [h.slotA, h.slotB]

theorem SameSlots.layout {fc fc' : FirmwareCache} (h : SameSlots fc fc') {b : FlashBackend δ}
    (hl : Layout fc b) : Layout fc' b := by
  obtain ⟨h1, h2, h3, h4, h5, h6⟩ := hl
  exact ⟨h1, by rw [h.slotA]; exact h2, by rw [h.slotB]; exact h3,
    by rw [h.slotA, h.size]; exact h4, by rw [h.slotB, h.size]; exact h5,
    by rw [h.slotA, h.slotB, h.size]; exact h6⟩

theorem inactiveSlot_le (fc : FirmwareCache) : fc.inactiveSlot ≤ 1 := by
  unfold FirmwareCache.inactiveSlot
  split <;> decide

theorem inactiveSlot_cases (fc : FirmwareCache) : fc.inactiveSlot = 0 ∨ fc.inactiveSlot = 1 := by
  unfold FirmwareCache.inactiveSlot
  split
  · exact Or.inr rfl
  · exact Or.inl rfl

theorem le_one_cases {slot : UInt8} (h : slot ≤ 1) : slot = 0 ∨ slot = 1 := by
  have h' : slot.toNat ≤ 1 := UInt8.le_iff_toNat_le.mp h
  rcases (by omega : slot.toNat = 0 ∨ slot.toNat = 1) with h0 | h1
  · exact Or.inl (UInt8.toNat_inj.mp h0)
  · exact Or.inr (UInt8.toNat_inj.mp h1)

/-- The inactive slot lies where the active one does not. -/
theorem slotOffset_inactive (fc : FirmwareCache) :
    (fc.slotOffset fc.inactiveSlot = fc.slotAOffset ∧ fc.slotOffset fc.activeSlot = fc.slotBOffset)
      ∨ (fc.slotOffset fc.inactiveSlot = fc.slotBOffset
        ∧ fc.slotOffset fc.activeSlot = fc.slotAOffset) := by
  unfold FirmwareCache.slotOffset FirmwareCache.inactiveSlot
  by_cases h : fc.activeSlot = 0 <;> simp [h]

/-! ## `beginWrite` -/

/-- The session `beginWrite` opens when it accepts. -/
def opened (fc : FirmwareCache) (imageSize version : UInt32) : FirmwareCache :=
  { fc with
    writeOffset := kHeaderReserved
    writeCrc := Crc32.initial
    writeImageSize := imageSize
    writeVersion := version
    writing := true }

theorem beginWrite_cases (fc : FirmwareCache) (imageSize version : UInt32) :
    (imageSize > fc.slotSize - kHeaderReserved
        ∧ fc.beginWrite imageSize version = (false, fc))
      ∨ (imageSize ≤ fc.slotSize - kHeaderReserved
        ∧ fc.beginWrite imageSize version = (true, opened fc imageSize version)) := by
  unfold FirmwareCache.beginWrite
  split
  · rename_i h; exact Or.inl ⟨h, rfl⟩
  · rename_i h; exact Or.inr ⟨UInt32.not_lt.mp h, rfl⟩

/-- An accepted `beginWrite` opens the session. -/
theorem beginWrite_opened {fc : FirmwareCache} {imageSize version : UInt32}
    (h : (fc.beginWrite imageSize version).1 = true) :
    (fc.beginWrite imageSize version).2 = opened fc imageSize version := by
  rcases beginWrite_cases fc imageSize version with ⟨_, hb⟩ | ⟨_, hb⟩
  · rw [hb] at h
    exact absurd h Bool.false_ne_true
  · rw [hb]

/-! ## `writeChunk` -/

/-- The session after a chunk was accepted. -/
def accepted (fc : FirmwareCache) (data : List UInt8) : FirmwareCache :=
  { fc with
    writeCrc := Crc32.update fc.writeCrc data
    writeOffset := fc.writeOffset + UInt32.ofNat data.length }

/-- Where `writeChunk` writes. -/
def chunkOffset (fc : FirmwareCache) : UInt32 := fc.slotOffset fc.inactiveSlot + fc.writeOffset

theorem writeChunk_closed {fc : FirmwareCache} (h : fc.writing = false) (sm : StorageManager δ)
    (data : List UInt8) : fc.writeChunk sm data = some (-1, fc, sm) := by
  simp [FirmwareCache.writeChunk, h]

theorem writeChunk_open {fc : FirmwareCache} (h : fc.writing = true) {sm sm' : StorageManager δ}
    {data : List UInt8} {k : Int} (hw : sm.write (chunkOffset fc) data = some (k, sm')) :
    fc.writeChunk sm data
      = some (if k < 0 then (-1, fc, sm') else (castInt data.length, accepted fc data, sm')) := by
  unfold chunkOffset at hw
  rw [FirmwareCache.writeChunk, if_neg (by simp [h])]
  dsimp only
  rw [hw]
  dsimp only
  split <;> rfl

theorem writeChunk_cases {fc fc' : FirmwareCache} {sm sm' : StorageManager δ}
    {data : List UInt8} {r : Int} (h : fc.writeChunk sm data = some (r, fc', sm')) :
    (fc.writing = false ∧ r = -1 ∧ fc' = fc ∧ sm' = sm)
      ∨ (fc.writing = true ∧ ∃ k, sm.write (chunkOffset fc) data = some (k, sm')
        ∧ ((k < 0 ∧ r = -1 ∧ fc' = fc)
          ∨ (0 ≤ k ∧ r = castInt data.length ∧ fc' = accepted fc data))) := by
  cases hw : fc.writing with
  | false =>
    rw [writeChunk_closed hw] at h
    injection h with h; injection h with h1 h; injection h with h2 h3
    exact Or.inl ⟨rfl, h1.symm, h2.symm, h3.symm⟩
  | true =>
    refine Or.inr ⟨rfl, ?_⟩
    cases hs : sm.write (chunkOffset fc) data with
    | none =>
      unfold chunkOffset at hs
      simp [FirmwareCache.writeChunk, hw, hs] at h
    | some p =>
      obtain ⟨k, sm₁⟩ := p
      rw [writeChunk_open hw hs] at h
      injection h with h
      split at h
      · rename_i hk
        injection h with h1 h; injection h with h2 h3
        exact ⟨k, by rw [h3], Or.inl ⟨hk, h1.symm, h2.symm⟩⟩
      · rename_i hk
        injection h with h1 h; injection h with h2 h3
        exact ⟨k, by rw [h3], Or.inr ⟨by omega, h1.symm, h2.symm⟩⟩

/-! ## `finalizeWrite` -/

/-- The session after `finalizeWrite` closed it. -/
def closed (fc : FirmwareCache) : FirmwareCache := { fc with writing := false }

theorem finalizeWrite_open {fc : FirmwareCache} (h : fc.writing = true)
    {sm sm₁ : StorageManager δ} {k : Int}
    (hw : sm.write (fc.slotOffset fc.inactiveSlot) (fc.sessionHeader fc.inactiveSlot).toBytes
      = some (k, sm₁)) :
    fc.finalizeWrite sm
      = some ((fc.verify sm₁ fc.inactiveSlot).1, closed fc, (fc.verify sm₁ fc.inactiveSlot).2) := by
  rw [FirmwareCache.finalizeWrite, if_neg (by simp [h])]
  dsimp only
  rw [hw]
  rfl

theorem finalizeWrite_cases {fc fc' : FirmwareCache} {sm sm' : StorageManager δ} {ok : Bool}
    (h : fc.finalizeWrite sm = some (ok, fc', sm')) :
    (fc.writing = false ∧ ok = false ∧ fc' = fc ∧ sm' = sm)
      ∨ (fc.writing = true ∧ fc' = closed fc ∧ ∃ k sm₁,
        sm.write (fc.slotOffset fc.inactiveSlot) (fc.sessionHeader fc.inactiveSlot).toBytes
            = some (k, sm₁)
          ∧ ok = (fc.verify sm₁ fc.inactiveSlot).1
          ∧ sm' = (fc.verify sm₁ fc.inactiveSlot).2) := by
  cases hw : fc.writing with
  | false =>
    simp only [FirmwareCache.finalizeWrite, hw] at h
    injection h with h; injection h with h1 h; injection h with h2 h3
    exact Or.inl ⟨rfl, h1.symm, h2.symm, h3.symm⟩
  | true =>
    refine Or.inr ⟨rfl, ?_⟩
    cases hs : sm.write (fc.slotOffset fc.inactiveSlot)
        (fc.sessionHeader fc.inactiveSlot).toBytes with
    | none => simp [FirmwareCache.finalizeWrite, hw, hs] at h
    | some p =>
      obtain ⟨k, sm₁⟩ := p
      rw [finalizeWrite_open hw hs] at h
      injection h with h; injection h with h1 h; injection h with h2 h3
      exact ⟨h2.symm, k, sm₁, rfl, h1.symm, h3.symm⟩

/-! ## `activateSlot` and `rollback` -/

/-- The header `activateSlot` writes back: the one it read, with the bootable bit set. -/
def bootable (h : FirmwareHeader) : FirmwareHeader := { h with flags := h.flags ||| 0x02 }

theorem activateSlot_cases {fc fc' : FirmwareCache} {sm sm' : StorageManager δ} {slot : UInt8}
    {ok : Bool} (h : fc.activateSlot sm slot = some (ok, fc', sm')) :
    (slot > 1 ∧ ok = false ∧ fc' = fc ∧ sm' = sm)
      ∨ (slot ≤ 1 ∧ (fc.verify sm slot).1 = false ∧ ok = false ∧ fc' = fc
        ∧ sm' = (fc.verify sm slot).2)
      ∨ (slot ≤ 1 ∧ (fc.verify sm slot).1 = true ∧ ok = true
        ∧ fc' = { fc with activeSlot := slot } ∧ ∃ k,
          (fc.getHeader (fc.verify sm slot).2 slot {}).2.2.write (fc.slotOffset slot)
            (bootable (fc.getHeader (fc.verify sm slot).2 slot {}).2.1).toBytes
            = some (k, sm')) := by
  unfold FirmwareCache.activateSlot at h
  split at h
  · rename_i hs
    injection h with h; injection h with h1 h; injection h with h2 h3
    exact Or.inl ⟨hs, h1.symm, h2.symm, h3.symm⟩
  · rename_i hs
    have hle : slot ≤ 1 := UInt8.not_lt.mp hs
    dsimp only at h
    cases hv : (fc.verify sm slot).1 with
    | false =>
      rw [hv] at h
      injection h with h; injection h with h1 h; injection h with h2 h3
      exact Or.inr (Or.inl ⟨hle, rfl, h1.symm, h2.symm, h3.symm⟩)
    | true =>
      rw [hv] at h
      simp only [Bool.not_true, Bool.false_eq_true, if_false] at h
      split at h
      · exact absurd h (by simp)
      · rename_i k sm₁ hw
        injection h with h; injection h with h1 h; injection h with h2 h3
        exact Or.inr (Or.inr ⟨hle, rfl, h1.symm, h2.symm, k, by rw [← h3]; exact hw⟩)

theorem rollback_cases {fc fc' : FirmwareCache} {sm sm' : StorageManager δ} {ok : Bool}
    (h : fc.rollback sm = some (ok, fc', sm')) :
    ((fc.verify sm fc.inactiveSlot).1 = false ∧ ok = false ∧ fc' = fc
        ∧ sm' = (fc.verify sm fc.inactiveSlot).2)
      ∨ ((fc.verify sm fc.inactiveSlot).1 = true
        ∧ fc.activateSlot (fc.verify sm fc.inactiveSlot).2 fc.inactiveSlot
          = some (ok, fc', sm')) := by
  unfold FirmwareCache.rollback at h
  dsimp only at h
  cases hv : (fc.verify sm fc.inactiveSlot).1 with
  | false =>
    rw [hv] at h
    injection h with h; injection h with h1 h; injection h with h2 h3
    exact Or.inl ⟨rfl, h1.symm, h2.symm, h3.symm⟩
  | true =>
    rw [hv] at h
    exact Or.inr ⟨rfl, h⟩

/-! ## The choice of slot -/

/-- Opening a session leaves the active slot. -/
theorem beginWrite_activeSlot (fc : FirmwareCache) (imageSize version : UInt32) :
    (fc.beginWrite imageSize version).2.activeSlot = fc.activeSlot := by
  rcases beginWrite_cases fc imageSize version with ⟨_, h⟩ | ⟨_, h⟩ <;> rw [h]
  rfl

theorem writeChunk_activeSlot {fc fc' : FirmwareCache} {sm sm' : StorageManager δ}
    {data : List UInt8} {r : Int} (h : fc.writeChunk sm data = some (r, fc', sm')) :
    fc'.activeSlot = fc.activeSlot := by
  rcases writeChunk_cases h with ⟨_, _, hfc, _⟩ | ⟨_, _, _, ⟨_, _, hfc⟩ | ⟨_, _, hfc⟩⟩ <;> rw [hfc]
  rfl

theorem finalizeWrite_activeSlot {fc fc' : FirmwareCache} {sm sm' : StorageManager δ} {ok : Bool}
    (h : fc.finalizeWrite sm = some (ok, fc', sm')) : fc'.activeSlot = fc.activeSlot := by
  rcases finalizeWrite_cases h with ⟨_, _, hfc, _⟩ | ⟨_, hfc, _⟩ <;> rw [hfc]
  rfl

/-- An activation that fails leaves the active slot; one that succeeds sets it. -/
theorem activateSlot_activeSlot {fc fc' : FirmwareCache} {sm sm' : StorageManager δ}
    {slot : UInt8} {ok : Bool} (h : fc.activateSlot sm slot = some (ok, fc', sm')) :
    fc'.activeSlot = if ok then slot else fc.activeSlot := by
  rcases activateSlot_cases h with ⟨_, hok, hfc, _⟩ | ⟨_, _, hok, hfc, _⟩ | ⟨_, _, hok, hfc, _⟩
    <;> rw [hok, hfc] <;> rfl

/-- A rollback of the cache leaves the active slot, or the inactive slot verified. -/
theorem rollback_activeSlot {fc fc' : FirmwareCache} {sm sm' : StorageManager δ} {ok : Bool}
    (h : fc.rollback sm = some (ok, fc', sm')) :
    fc'.activeSlot = fc.activeSlot ∨ (fc.verify sm fc.inactiveSlot).1 = true := by
  rcases rollback_cases h with ⟨_, _, hfc, _⟩ | ⟨hv, _⟩
  · exact Or.inl (by rw [hfc])
  · exact Or.inr hv

/-! ## What no operation changes -/

/-- The slots did not move, and the storage differs in its device only. -/
structure Frame (fc fc' : FirmwareCache) (sm sm' : StorageManager δ) : Prop where
  slots : SameSlots fc fc'
  storage : ∃ d, sm' = { sm with device := d }

theorem Frame.refl (fc : FirmwareCache) (sm : StorageManager δ) : Frame fc fc sm sm :=
  ⟨SameSlots.refl fc, sm.device, rfl⟩

theorem Frame.trans {fc₁ fc₂ fc₃ : FirmwareCache} {sm₁ sm₂ sm₃ : StorageManager δ}
    (h : Frame fc₁ fc₂ sm₁ sm₂) (h' : Frame fc₂ fc₃ sm₂ sm₃) : Frame fc₁ fc₃ sm₁ sm₃ := by
  obtain ⟨⟨hA, hB, hS⟩, d, rfl⟩ := h
  obtain ⟨⟨hA', hB', hS'⟩, d', rfl⟩ := h'
  exact ⟨⟨hA'.trans hA, hB'.trans hB, hS'.trans hS⟩, d', rfl⟩

theorem Frame.backend {fc fc' : FirmwareCache} {sm sm' : StorageManager δ}
    (h : Frame fc fc' sm sm') : sm'.backend = sm.backend := by
  obtain ⟨d, hd⟩ := h.storage
  rw [hd]

theorem verify_frame (fc : FirmwareCache) (sm : StorageManager δ) (slot : UInt8) :
    ∃ d, (fc.verify sm slot).2 = { sm with device := d } := by
  obtain ⟨d, hd, _⟩ := verify_after sm (readKeeps_true sm) trivial fc slot
  exact ⟨d, hd⟩

theorem beginWrite_slots (fc : FirmwareCache) (imageSize version : UInt32) :
    SameSlots fc (fc.beginWrite imageSize version).2 := by
  rcases beginWrite_cases fc imageSize version with ⟨_, h⟩ | ⟨_, h⟩
  · rw [h]; exact SameSlots.refl fc
  · rw [h]; exact ⟨rfl, rfl, rfl⟩

theorem writeChunk_frame {fc fc' : FirmwareCache} {sm sm' : StorageManager δ}
    {data : List UInt8} {r : Int} (h : fc.writeChunk sm data = some (r, fc', sm')) :
    Frame fc fc' sm sm' := by
  rcases writeChunk_cases h with ⟨_, _, hfc, hsm⟩ | ⟨_, k, hw, ⟨_, _, hfc⟩ | ⟨_, _, hfc⟩⟩
  · rw [hfc, hsm]; exact Frame.refl fc sm
  · rw [hfc]; exact ⟨SameSlots.refl fc, write_frame hw⟩
  · rw [hfc]; exact ⟨⟨rfl, rfl, rfl⟩, write_frame hw⟩

theorem finalizeWrite_frame {fc fc' : FirmwareCache} {sm sm' : StorageManager δ} {ok : Bool}
    (h : fc.finalizeWrite sm = some (ok, fc', sm')) : Frame fc fc' sm sm' := by
  rcases finalizeWrite_cases h with ⟨_, _, hfc, hsm⟩ | ⟨_, hfc, k, sm₁, hw, _, hsm⟩
  · rw [hfc, hsm]; exact Frame.refl fc sm
  · obtain ⟨d, rfl⟩ := write_frame hw
    rw [hfc, hsm]
    exact ⟨⟨rfl, rfl, rfl⟩, verify_frame fc { sm with device := d } fc.inactiveSlot⟩

theorem activateSlot_frame {fc fc' : FirmwareCache} {sm sm' : StorageManager δ}
    {slot : UInt8} {ok : Bool} (h : fc.activateSlot sm slot = some (ok, fc', sm')) :
    Frame fc fc' sm sm' := by
  obtain ⟨d, hd⟩ := verify_frame fc sm slot
  rcases activateSlot_cases h with ⟨_, _, hfc, hsm⟩ | ⟨_, _, _, hfc, hsm⟩
    | ⟨_, _, _, hfc, k, hw⟩
  · rw [hfc, hsm]; exact Frame.refl fc sm
  · rw [hfc, hsm]; exact ⟨SameSlots.refl fc, d, hd⟩
  · rw [hd] at hw
    obtain ⟨d₁, hd₁, _⟩ := getHeader_after { sm with device := d }
      (readKeeps_true { sm with device := d }) trivial
      fc slot {}
    rw [hd₁] at hw
    obtain ⟨d₂, hd₂⟩ := write_frame hw
    rw [hfc]
    exact ⟨⟨rfl, rfl, rfl⟩, d₂, hd₂⟩

theorem rollback_frame {fc fc' : FirmwareCache} {sm sm' : StorageManager δ} {ok : Bool}
    (h : fc.rollback sm = some (ok, fc', sm')) : Frame fc fc' sm sm' := by
  obtain ⟨d, hd⟩ := verify_frame fc sm fc.inactiveSlot
  rcases rollback_cases h with ⟨_, _, hfc, hsm⟩ | ⟨_, h⟩
  · rw [hfc, hsm]; exact ⟨SameSlots.refl fc, d, hd⟩
  · rw [hd] at h
    obtain ⟨hslots, d', hd'⟩ := activateSlot_frame h
    exact ⟨hslots, d', hd'⟩

end TaktOS.Proof
