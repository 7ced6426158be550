import TaktOS.Proof.ReliableFlash

/-!
# An update session, end to end

`beginWrite`, any way of cutting the image into `writeChunk` calls, `finalizeWrite`.
Every chunk goes through `StorageManager::write`, which erases each sector the chunk
touches, so a chunk that starts inside a sector blanks what the chunks before it left
there. The result is exactly when the image survives that.
-/

namespace TaktOS.Proof

open Lib

variable {δ : Type}

/-! ## The session as a run -/

/-- Feed the chunks to `writeChunk` one after the other; what each call returned, in order. -/
def writeChunks (fc : FirmwareCache) (sm : StorageManager δ) :
    List (List UInt8) → Option (List Int × FirmwareCache × StorageManager δ)
  | [] => some ([], fc, sm)
  | c :: cs =>
    match fc.writeChunk sm c with
    | none => none
    | some (r, fc, sm) =>
      match writeChunks fc sm cs with
      | none => none
      | some (rs, fc, sm) => some (r :: rs, fc, sm)

/--
**The update is delivered**: every chunk returns its length, `finalizeWrite` returns
`true`, and the image lies behind the header sector of the slot that was inactive.
-/
def UpdateDelivered (content : δ → Nat → UInt8) (b : FlashBackend δ) (fc : FirmwareCache)
    (sm : StorageManager δ) (imageSize version : UInt32) (chunks : List (List UInt8)) : Prop :=
  ∃ fc₁ sm₁ fc₂ sm₂,
    writeChunks (fc.beginWrite imageSize version).2 sm chunks
        = some (chunks.map (fun c => (c.length : Int)), fc₁, sm₁)
      ∧ fc₁.finalizeWrite sm₁ = some (true, fc₂, sm₂)
      ∧ (fc.slotOffset fc.inactiveSlot).toNat + 4096 + imageSize.toNat ≤ b.totalSize.toNat
      ∧ slice (content sm₂.device) ((fc.slotOffset fc.inactiveSlot).toNat + 4096) imageSize.toNat
          = chunks.flatten

/--
The bytes of the body that a later erase of the same session hits: those in the sectors
of the header, and those below the start of a later chunk in that chunk's first sector.
-/
def ErasedLater (S off : Nat) (chunks : List (List UInt8)) (a : Nat) : Prop :=
  a < blockCeil S (off + headerSize)
    ∨ ∃ p ∈ pieceStarts (off + 4096) chunks, a < p ∧ a / S = p / S

/--
What the inputs must satisfy: the image fits into the flash behind the header sector, no
chunk is longer than an `int` can report, and the image is blank wherever it is erased.
-/
def Deliverable (b : FlashBackend δ) (fc : FirmwareCache) (imageSize : UInt32)
    (chunks : List (List UInt8)) : Prop :=
  (fc.slotOffset fc.inactiveSlot).toNat + 4096 + imageSize.toNat ≤ b.totalSize.toNat
    ∧ (∀ c ∈ chunks, c.length < 2147483648)
    ∧ ∀ i (h : i < chunks.flatten.length),
        ErasedLater b.sectorSize.toNat (fc.slotOffset fc.inactiveSlot).toNat chunks
            ((fc.slotOffset fc.inactiveSlot).toNat + 4096 + i) →
          chunks.flatten[i] = erased

/-- The image is blank wherever the session erases it again. -/
def BlankWhereErased (S off : Nat) (chunks : List (List UInt8)) : Prop :=
  ∀ i (h : i < chunks.flatten.length),
    ErasedLater S off chunks (off + 4096 + i) → chunks.flatten[i] = erased

/-! ## What the chunks leave on flash -/

theorem accepted_nil (fc : FirmwareCache) : accepted fc [] = fc := by
  unfold accepted
  simp

theorem accepted_accepted (fc : FirmwareCache) (xs ys : List UInt8) :
    accepted (accepted fc xs) ys = accepted fc (xs ++ ys) := by
  unfold accepted
  simp [Crc32.update_append, UInt32.ofNat_add, UInt32.add_assoc]

/-- A chunk reports its own length only if an `int` can hold it. -/
theorem castInt_eq_self {n : Nat} (h : castInt n = n) : n < 2147483648 := by
  unfold castInt at h
  rw [Int.bmod_def] at h
  omega

/-- Whatever the backend: chunks that all reported their length fit an `int`. -/
theorem writeChunks_lengths : ∀ {chunks : List (List UInt8)} {fc fc' : FirmwareCache}
    {sm sm' : StorageManager δ},
    writeChunks fc sm chunks = some (chunks.map (fun c => (c.length : Int)), fc', sm') →
    ∀ c ∈ chunks, c.length < 2147483648 := by
  intro chunks
  induction chunks with
  | nil => intro fc fc' sm sm' _ c hc; exact absurd hc (by simp)
  | cons x xs ih =>
    intro fc fc' sm sm' h c hc
    rw [writeChunks] at h
    split at h
    · exact absurd h (by simp)
    · rename_i r fc₁ sm₁ hx
      split at h
      · exact absurd h (by simp)
      · rename_i rs fc₂ sm₂ hxs
        simp only [List.map_cons, Option.some.injEq, Prod.mk.injEq, List.cons.injEq] at h
        obtain ⟨⟨hr, hrs⟩, _, _⟩ := h
        rcases List.mem_cons.mp hc with hcx | hcx
        · subst hcx
          rcases writeChunk_cases hx with ⟨_, hr1, _⟩ | ⟨_, _, _, ⟨_, hr1, _⟩ | ⟨_, hr1, _⟩⟩
          · omega
          · omega
          · exact castInt_eq_self (hr1 ▸ hr)
        · exact ih (hrs ▸ hxs) c hcx

section Reliable

variable {b : FlashBackend δ} {content : δ → Nat → UInt8}

/-- **The chunks of a session are one image programmed in pieces.** -/
theorem writeChunks_reliable (hr : b.Reliable content) (hS : 0 < b.sectorSize.toNat) :
    ∀ (chunks : List (List UInt8)) (fc : FirmwareCache) (sm : StorageManager δ) (base : Nat),
      sm.backend = some b → fc.writing = true → 0 < base →
      base = (fc.slotOffset fc.inactiveSlot).toNat + fc.writeOffset.toNat →
      base + chunks.flatten.length ≤ b.totalSize.toNat →
      (∀ c ∈ chunks, c.length < 2147483648) →
      ∃ d', writeChunks fc sm chunks = some (chunks.map (fun c => (c.length : Int)),
          accepted fc chunks.flatten, { sm with device := d' })
        ∧ content d' = programAll b.sectorSize.toNat erased (content sm.device) base chunks := by
  intro chunks
  have htot := b.totalSize.toNat_lt
  -- on the chunks: `base` is where the next one goes, and nothing up to the end wraps
  induction chunks with
  | nil =>
    intro fc sm base _ _ _ _ _ _
    exact ⟨sm.device, by rw [List.flatten_nil, accepted_nil]; rfl, rfl⟩
  | cons x xs ih =>
    intro fc sm base hb hw h0 hbase hin hlen
    simp only [List.flatten_cons, List.length_append] at hin
    have hoff : (chunkOffset fc).toNat = base := by
      rw [chunkOffset, UInt32.toNat_add, ← hbase]
      exact Nat.mod_eq_of_lt (by omega)
    have hx : x.length < 2147483648 := hlen x List.mem_cons_self
    obtain ⟨d, hwr, hcont⟩ := write_reliable sm hb hr hS (chunkOffset fc) x
      (by omega) (by omega)
    have hchunk := writeChunk_open hw hwr
    rw [castInt_of_lt hx, if_neg (by omega)] at hchunk
    obtain ⟨d', hrun, hcont'⟩ := ih (accepted fc x) { sm with device := d } (base + x.length)
      hb hw (by omega)
      (by
        show base + x.length = (fc.slotOffset fc.inactiveSlot).toNat
          + (fc.writeOffset + UInt32.ofNat x.length).toNat
        rw [UInt32.toNat_add, UInt32.toNat_ofNat']
        omega)
      (by omega) (fun c hc => hlen c (List.mem_cons_of_mem _ hc))
    refine ⟨d', ?_, ?_⟩
    · rw [writeChunks, hchunk]
      dsimp only
      rw [hrun, accepted_accepted]
      rfl
    · rw [hcont', hcont, hoff]
      rfl

/-! ## The image after the header -/

/--
After the header is written the body reads back as the image exactly when every byte of
it that was erased again was blank.
-/
theorem image_survives_iff (hS : 0 < b.sectorSize.toNat) (off : Nat) (m : Nat → UInt8)
    (chunks : List (List UInt8)) (hdr : FirmwareHeader) :
    slice (program b.sectorSize.toNat erased
        (programAll b.sectorSize.toNat erased m (off + 4096) chunks) off hdr.toBytes)
        (off + 4096) chunks.flatten.length = chunks.flatten
      ↔ BlankWhereErased b.sectorSize.toNat off chunks := by
  have hlen : hdr.toBytes.length = 24 := rfl
  refine slice_eq_iff_blanked ?_ ?_
  · -- erased again, by the header's sectors or by a later chunk
    intro i hi hd
    by_cases hh : off + 4096 + i < blockCeil b.sectorSize.toNat (off + headerSize)
    · exact program_above (by omega) hh
    · rw [program_outside (Or.inr (Nat.le_of_not_lt hh)) hS, programAll_data hS hi]
      exact if_pos (hd.resolve_left hh)
  · -- left alone by both
    intro i hi hd
    have hh : ¬ off + 4096 + i < blockCeil b.sectorSize.toNat (off + headerSize) :=
      fun h => hd (Or.inl h)
    rw [program_outside (Or.inr (Nat.le_of_not_lt hh)) hS, programAll_data hS hi]
    exact if_neg (fun h => hd (Or.inr h))

/-! ## The theorem -/

/--
The session over a reliable backend, once the sizes are in range: every chunk returns its
length, and `finalizeWrite` accepts if the body reads back as the image.
-/
theorem session_reliable (hr : b.Reliable content) (hS : 0 < b.sectorSize.toNat)
    {fc : FirmwareCache} {sm : StorageManager δ} (hb : sm.backend = some b)
    {imageSize : UInt32} (version : UInt32) {chunks : List (List UInt8)}
    (hsum : chunks.flatten.length = imageSize.toNat)
    (hfit : (fc.slotOffset fc.inactiveSlot).toNat + 4096 + imageSize.toNat
      ≤ b.totalSize.toNat)
    (hlen : ∀ c ∈ chunks, c.length < 2147483648) :
    ∃ fc₁ sm₁ ok fc₂ sm₂,
      writeChunks (opened fc imageSize version) sm chunks
          = some (chunks.map (fun c => (c.length : Int)), fc₁, sm₁)
        ∧ fc₁.finalizeWrite sm₁ = some (ok, fc₂, sm₂)
        ∧ (slice (content sm₂.device) ((fc.slotOffset fc.inactiveSlot).toNat + 4096)
              imageSize.toNat = chunks.flatten
            ↔ BlankWhereErased b.sectorSize.toNat (fc.slotOffset fc.inactiveSlot).toNat chunks)
        ∧ (slice (content sm₂.device) ((fc.slotOffset fc.inactiveSlot).toNat + 4096)
              imageSize.toNat = chunks.flatten → ok = true) := by
  have htot := b.totalSize.toNat_lt
  obtain ⟨d₁, hrun, hc₁⟩ := writeChunks_reliable hr hS chunks
    (opened fc imageSize version) sm ((fc.slotOffset fc.inactiveSlot).toNat + 4096) hb rfl
    (by omega) rfl (by rw [hsum]; exact hfit) hlen
  have hhead : (fc.slotOffset fc.inactiveSlot).toNat + headerSize ≤ b.totalSize.toNat := by
    unfold headerSize
    omega
  obtain ⟨ok, d₂, hfin, hc₂, hok⟩ := finalizeWrite_reliable hr hS
    (accepted (opened fc imageSize version) chunks.flatten) { sm with device := d₁ } hb rfl hhead
  have hsurvive := image_survives_iff (b := b) hS (fc.slotOffset fc.inactiveSlot).toNat
    (content sm.device) chunks
    ((accepted (opened fc imageSize version) chunks.flatten).sessionHeader fc.inactiveSlot)
  have hc : content d₂ = program b.sectorSize.toNat erased
      (programAll b.sectorSize.toNat erased (content sm.device)
        ((fc.slotOffset fc.inactiveSlot).toNat + 4096) chunks)
      (fc.slotOffset fc.inactiveSlot).toNat
      ((accepted (opened fc imageSize version) chunks.flatten).sessionHeader
        fc.inactiveSlot).toBytes := by
    rw [hc₂, hc₁]
    rfl
  rw [← hc] at hsurvive
  have hiff : slice (content d₂) ((fc.slotOffset fc.inactiveSlot).toNat + 4096)
        imageSize.toNat = chunks.flatten
      ↔ BlankWhereErased b.sectorSize.toNat (fc.slotOffset fc.inactiveSlot).toNat chunks := by
    rw [← hsum]
    exact hsurvive
  refine ⟨_, _, ok, _, _, hrun, hfin, hiff, fun hslice => hok.mpr ?_⟩
  rw [hc] at hslice ⊢
  exact verifies_session _ _ _ _ rfl htot hfit hslice

/--
**Exactly when an update arrives.** Over a reliable backend, an accepted session whose
chunks add up to the image size is delivered if and only if the image fits into the
flash, every chunk fits an `int`, and every image byte that a later write of the session
erases, because a later chunk starts in its sector or the header's sectors reach it, is
`0xFF` anyway.
-/
theorem update_delivered_iff (content : δ → Nat → UInt8) {b : FlashBackend δ}
    (hr : b.Reliable content) (hS : 0 < b.sectorSize.toNat) {fc : FirmwareCache}
    {sm : StorageManager δ} (hb : sm.backend = some b) {imageSize version : UInt32}
    {chunks : List (List UInt8)} (hsum : chunks.flatten.length = imageSize.toNat)
    (hacc : (fc.beginWrite imageSize version).1 = true) :
    UpdateDelivered content b fc sm imageSize version chunks
      ↔ Deliverable b fc imageSize chunks := by
  have hopen := beginWrite_opened hacc
  constructor
  · rintro ⟨fc₁, sm₁, fc₂, sm₂, hrun, hfin, hfit, hslice⟩
    have hlen := writeChunks_lengths hrun
    obtain ⟨fc₁', sm₁', ok, fc₂', sm₂', hrun', hfin', hiff, _⟩ :=
      session_reliable hr hS hb version hsum hfit hlen
    rw [hopen, hrun'] at hrun
    simp only [Option.some.injEq, Prod.mk.injEq, true_and] at hrun
    rw [← hrun.1, ← hrun.2, hfin'] at hfin
    simp only [Option.some.injEq, Prod.mk.injEq] at hfin
    rw [← hfin.2.2] at hslice
    exact ⟨hfit, hlen, hiff.mp hslice⟩
  · rintro ⟨hfit, hlen, hblank⟩
    obtain ⟨fc₁, sm₁, ok, fc₂, sm₂, hrun, hfin, hiff, hok⟩ :=
      session_reliable hr hS hb version hsum hfit hlen
    have hslice := hiff.mpr hblank
    rw [hok hslice] at hfin
    exact ⟨fc₁, sm₁, fc₂, sm₂, by rw [hopen]; exact hrun, hfin, hfit, hslice⟩

end Reliable

/-- The whole image in one chunk, as the repository's test sends it, arrives. -/
theorem update_delivered_one_chunk :
    UpdateDelivered id (memBackend 0x10000 4096) testCache testStorage 2 1 [[1, 2]] := by
  refine (update_delivered_iff id testFlash_reliable (by decide) rfl rfl
    (by decide)).mpr ⟨by decide, by decide, ?_⟩
  intro i _ herased
  -- the only chunk starts where the body does, and the header fills its own sector
  rcases herased with h | ⟨p, hp, hlt, _⟩
  · have h1 : blockCeil (memBackend 0x10000 4096).sectorSize.toNat
        ((testCache.slotOffset testCache.inactiveSlot).toNat + headerSize)
          = (testCache.slotOffset testCache.inactiveSlot).toNat + 4096 := by decide
    omega
  · rw [List.mem_singleton.mp hp] at hlt
    omega

/--
**Two chunks into one sector lose the first one.** Every call of the session returns
normally but for `finalizeWrite`, which reports the image as corrupt.
-/
theorem update_lost_two_chunks :
    Layout testCache (memBackend 0x10000 4096) ∧ (memBackend 0x10000 4096).Reliable id
      ∧ (testCache.beginWrite 2 1).1 = true
      ∧ ¬ UpdateDelivered id (memBackend 0x10000 4096) testCache testStorage 2 1 [[1], [2]] := by
  refine ⟨testCache_layout rfl rfl, testFlash_reliable, by decide, ?_⟩
  rintro ⟨fc₁, sm₁, fc₂, sm₂, hrun, hfin, _⟩
  have hresult : (writeChunks (testCache.beginWrite 2 1).2 testStorage [[1], [2]]).bind
      (fun t => (t.2.1.finalizeWrite t.2.2).map (fun t => t.1)) = some false := by
    decide +kernel
  rw [hrun] at hresult
  simp [hfin] at hresult

end TaktOS.Proof
