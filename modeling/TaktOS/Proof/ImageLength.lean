import TaktOS.Proof.UpdateDelivery

/-!
# What `finalizeWrite` knows of an image's length

Nothing counts the bytes a session takes. The header gets the length announced by `beginWrite`
and the CRC of the bytes taken, and `verify` reads as many bytes as announced. So an image of
another length is accepted exactly when the two strings share their CRC-32.
-/

namespace TaktOS.Proof

open Lib

variable {δ : Type}

/-! ## The bytes a session takes -/

/-- The bytes of the chunks whose write reports no error; `writeChunk` returns their length. -/
def takenBytes (fc : FirmwareCache) (sm : StorageManager δ) : List (List UInt8) → List UInt8
  | [] => []
  | c :: cs =>
    match sm.write (chunkOffset fc) c with
    | none => []
    | some (k, sm) => if k < 0 then takenBytes fc sm cs else c ++ takenBytes (accepted fc c) sm cs

/-- Two strings of different lengths with one CRC-32. -/
def LengthCollision (xs ys : List UInt8) : Prop :=
  xs.length ≠ ys.length ∧ Crc32.compute xs = Crc32.compute ys

/-- The bytes `verify` reads of the image of a session. -/
def bodyRead (content : δ → Nat → UInt8) (fc : FirmwareCache) (sm : StorageManager δ)
    (imageSize : UInt32) : List UInt8 :=
  slice (content sm.device) (fc.slotOffset fc.inactiveSlot + kHeaderReserved).toNat
    imageSize.toNat

/-- **Any chunks leave the session of the bytes they were taken for.** -/
theorem writeChunks_taken : ∀ (chunks : List (List UInt8)) {fc fc' : FirmwareCache}
    {sm sm' : StorageManager δ} {rs : List Int}, fc.writing = true →
    writeChunks fc sm chunks = some (rs, fc', sm') →
      fc' = accepted fc (takenBytes fc sm chunks) ∧ sm'.backend = sm.backend := by
  intro chunks
  -- on the chunks: each is taken or not, and the session goes on either way
  induction chunks with
  | nil =>
    intro fc fc' sm sm' rs _ h
    injection h with h; injection h with _ h; injection h with hfc hsm
    exact ⟨by rw [← hfc, takenBytes, accepted_nil], by rw [← hsm]⟩
  | cons c cs ih =>
    intro fc fc' sm sm' rs hw h
    rw [writeChunks] at h
    split at h
    · exact absurd h (by simp)
    · rename_i r fc₁ sm₁ hc
      split at h
      · exact absurd h (by simp)
      · rename_i rs' fc₂ sm₂ hcs
        injection h with h; injection h with _ h; injection h with hfc hsm
        subst hfc hsm
        have hbackend := (writeChunk_frame hc).backend
        rcases writeChunk_cases hc with ⟨hw', _⟩ | ⟨_, k, hwr, ⟨hk, _, hfc₁⟩ | ⟨hk, _, hfc₁⟩⟩
        · exact absurd (hw.symm.trans hw') (by simp)
        · subst hfc₁
          obtain ⟨hrest, hbackend'⟩ := ih hw hcs
          refine ⟨?_, hbackend'.trans hbackend⟩
          rw [takenBytes, hwr]
          dsimp only
          rw [if_pos hk]
          exact hrest
        · subst hfc₁
          obtain ⟨hrest, hbackend'⟩ := ih (show (accepted fc c).writing = true from hw) hcs
          refine ⟨?_, hbackend'.trans hbackend⟩
          rw [takenBytes, hwr]
          dsimp only
          rw [if_neg (Int.not_lt.mpr hk), ← accepted_accepted]
          exact hrest

/-! ## What `true` says -/

section Reliable

variable {b : FlashBackend δ} {content : δ → Nat → UInt8} {fc fc' : FirmwareCache}
  {sm sm' : StorageManager δ}

/-- Where `finalizeWrite` returns `true` the slot begins inside the flash. -/
theorem finalizeWrite_inside (hr : b.Readable content) (hb : sm.backend = some b)
    (h : fc.finalizeWrite sm = some (true, fc', sm')) :
    fc.writing = true ∧ (fc.slotOffset fc.inactiveSlot).toNat + headerSize ≤ b.totalSize.toNat := by
  rcases finalizeWrite_cases h with ⟨_, hok, _⟩ | ⟨hw, _, k, sm₁, hwr, hok, _⟩
  · exact absurd hok (by simp)
  · obtain ⟨d, rfl⟩ := write_frame hwr
    exact ⟨hw, ((verify_iff { sm with device := d } hb hr fc (inactiveSlot_le fc)).mp
      hok.symm).1.1⟩

/-- The CRC of the session is that of as many bytes as were announced. -/
theorem finalizeWrite_crc (hr : b.Reliable content) (hS : 0 < b.sectorSize.toNat)
    (hb : sm.backend = some b) (h : fc.finalizeWrite sm = some (true, fc', sm')) :
    Crc32.finalize fc.writeCrc = Crc32.compute (bodyRead content fc sm' fc.writeImageSize) := by
  obtain ⟨hw, hin⟩ := finalizeWrite_inside hr.toReadable hb h
  obtain ⟨ok, d, hfin, hcont, hok⟩ := finalizeWrite_reliable hr hS fc sm hb hw hin
  rw [h] at hfin
  injection hfin with hfin; injection hfin with htrue hfin; injection hfin with _ hsm
  have hcrc := (hok.mp htrue.symm).2.2
  -- the header `verify` found is the one the session wrote
  have hstored : storedHeader (content d) (fc.slotOffset fc.inactiveSlot)
      = fc.sessionHeader fc.inactiveSlot := by rw [hcont, storedHeader_program]
  rw [hstored] at hcrc
  rw [hsm]
  exact hcrc.symm

end Reliable

/-! ## The theorem -/

/--
**An accepted image is as long as announced, or collides.** Over a reliable flash, whatever it
held before: where a session ends with `true`, the bytes taken and the bytes read back have one
CRC-32. So as many were taken as were announced, or the two are strings of different lengths with
one CRC-32.
-/
theorem accepted_length_or_collision (content : δ → Nat → UInt8) {b : FlashBackend δ}
    (hr : b.Reliable content) (hS : 0 < b.sectorSize.toNat) {fc : FirmwareCache}
    {sm : StorageManager δ} (hb : sm.backend = some b) {imageSize version : UInt32}
    {chunks : List (List UInt8)} (hacc : (fc.beginWrite imageSize version).1 = true)
    {rs : List Int} {fc₁ fc₂ : FirmwareCache} {sm₁ sm₂ : StorageManager δ}
    (hrun : writeChunks (fc.beginWrite imageSize version).2 sm chunks = some (rs, fc₁, sm₁))
    (hfin : fc₁.finalizeWrite sm₁ = some (true, fc₂, sm₂)) :
    Crc32.compute (takenBytes (fc.beginWrite imageSize version).2 sm chunks)
        = Crc32.compute (bodyRead content fc sm₂ imageSize)
      ∧ ((takenBytes (fc.beginWrite imageSize version).2 sm chunks).length = imageSize.toNat
        ∨ LengthCollision (takenBytes (fc.beginWrite imageSize version).2 sm chunks)
          (bodyRead content fc sm₂ imageSize)) := by
  rw [beginWrite_opened hacc] at hrun ⊢
  obtain ⟨hfc, hbackend⟩ := writeChunks_taken chunks
    (show (opened fc imageSize version).writing = true from rfl) hrun
  have hcrc : Crc32.compute (takenBytes (opened fc imageSize version) sm chunks)
      = Crc32.compute (bodyRead content fc sm₂ imageSize) := by
    have h := finalizeWrite_crc hr hS (hbackend.trans hb) hfin
    rw [hfc] at h
    exact h
  refine ⟨hcrc, ?_⟩
  by_cases hlen : (takenBytes (opened fc imageSize version) sm chunks).length = imageSize.toNat
  · exact Or.inl hlen
  · refine Or.inr ⟨?_, hcrc⟩
    rw [bodyRead, length_slice]
    exact hlen

/-- A byte announced, a byte taken, and its CRC found. -/
theorem accepted_one_byte :
    ∃ rs fc₁ sm₁ fc₂ sm₂,
      writeChunks (testCache.beginWrite 1 1).2 testStorage [[1]] = some (rs, fc₁, sm₁)
        ∧ fc₁.finalizeWrite sm₁ = some (true, fc₂, sm₂)
        ∧ Crc32.compute (takenBytes (testCache.beginWrite 1 1).2 testStorage [[1]])
          = Crc32.compute (bodyRead id testCache sm₂ 1) := by
  have hend : ((writeChunks (testCache.beginWrite 1 1).2 testStorage [[1]]).bind fun t =>
      (t.2.1.finalizeWrite t.2.2).map fun r => r.1) = some true := by decide
  obtain ⟨⟨rs, fc₁, sm₁⟩, hrun, hlast⟩ := Option.bind_eq_some_iff.mp hend
  obtain ⟨⟨ok, fc₂, sm₂⟩, hfin, hok⟩ := Option.map_eq_some_iff.mp hlast
  dsimp only at hfin hok
  subst hok
  exact ⟨rs, fc₁, sm₁, fc₂, sm₂, hrun, hfin,
    (accepted_length_or_collision id testFlash_reliable (by decide)
      (show testStorage.backend = _ from rfl) (by decide) hrun hfin).1⟩

/--
**Five bytes pass for one.** The four behind the first bring the CRC back to where it was.
-/
theorem accepted_longer_than_announced :
    (memBackend 0x10000 4096).Reliable id ∧ (testCache.beginWrite 1 1).1 = true
      ∧ ¬ (∀ rs fc₁ sm₁ fc₂ sm₂,
        writeChunks (testCache.beginWrite 1 1).2 testStorage [[1, 101, 6, 212, 248]]
            = some (rs, fc₁, sm₁) →
          fc₁.finalizeWrite sm₁ = some (true, fc₂, sm₂) →
            (takenBytes (testCache.beginWrite 1 1).2 testStorage
              [[1, 101, 6, 212, 248]]).length = 1) := by
  refine ⟨testFlash_reliable, by decide, fun h => ?_⟩
  have hend : ((writeChunks (testCache.beginWrite 1 1).2 testStorage
      [[1, 101, 6, 212, 248]]).bind fun t =>
        (t.2.1.finalizeWrite t.2.2).map fun r => r.1) = some true := by decide +kernel
  obtain ⟨⟨rs, fc₁, sm₁⟩, hrun, hlast⟩ := Option.bind_eq_some_iff.mp hend
  obtain ⟨⟨ok, fc₂, sm₂⟩, hfin, hok⟩ := Option.map_eq_some_iff.mp hlast
  dsimp only at hfin hok
  subst hok
  have hlen := h rs fc₁ sm₁ fc₂ sm₂ hrun hfin
  have htaken : (takenBytes (testCache.beginWrite 1 1).2 testStorage
      [[1, 101, 6, 212, 248]]).length = 5 := by decide
  rw [htaken] at hlen
  exact absurd hlen (by decide)

end TaktOS.Proof
