import TaktOS.Proof.ActivationFailures
import TaktOS.Proof.EraseLoop
import TaktOS.Proof.ImageLength

/-!
# Repeating a chunk that failed

A chunk that fails leaves the session as it was, and repeating it over a working flash ends where
the chunk would have ended at once. What it may have destroyed lies below it: the first sector is
erased before anything can be written, and the end of the chunk before may be in that sector.
-/

namespace TaktOS.Proof

open Lib

variable {δ : Type} {b : FlashBackend δ} {content : δ → Nat → UInt8}

/-! ## What a write does, whatever becomes of it -/

/-- The erase of the sector that `offset` lies in. -/
def firstErase (b : FlashBackend δ) (d : δ) (offset : UInt32) : Int × δ :=
  b.erase d (offset / b.sectorSize * b.sectorSize) b.sectorSize.toNat

/-- The sector of an offset begins at or below it. -/
theorem sector_toNat (b : FlashBackend δ) (offset : UInt32) :
    (offset / b.sectorSize * b.sectorSize).toNat = blockFloor b.sectorSize.toNat offset.toNat := by
  have hle := blockFloor_le b.sectorSize.toNat offset.toNat
  have hoff := offset.toNat_lt
  unfold blockFloor at hle ⊢
  rw [toNat_mul (by rw [UInt32.toNat_div]; omega), UInt32.toNat_div]

variable {sm sm' : StorageManager δ} {offset : UInt32} {buf : List UInt8} {r : Int}

/-- The write of `len` bytes at `offset` begins with an erase. -/
def ErasesFirst (b : FlashBackend δ) (t : Target) (offset : UInt32) (len : Nat) : Prop :=
  offset / b.sectorSize ≤ StorageManager.endSector t offset len b.sectorSize

instance (b : FlashBackend δ) (t : Target) (offset : UInt32) (len : Nat) :
    Decidable (ErasesFirst b t offset len) := inferInstanceAs (Decidable (_ ≤ _))

/-- Below the range the sector loop changes what its first erase does. -/
theorem eraseLoop_below (hf : b.Framed content) (hbd : b.Bounded) (hS : 0 < b.sectorSize.toNat)
    {t : Target} {len : Nat} {d d' : δ} {ok : Bool}
    (h : StorageManager.eraseLoop b (StorageManager.endSector t offset len b.sectorSize) (2 ^ 32)
      (offset / b.sectorSize) d = some (ok, d')) {a : Nat} (ha : a < offset.toNat) :
    content d' a
      = if ErasesFirst b t offset len then content (firstErase b d offset).2 a
        else content d a := by
  rw [show (2 : Nat) ^ 32 = 4294967295 + 1 by decide] at h
  by_cases hle : ErasesFirst b t offset len
  · rw [if_pos hle]
    rw [eraseLoop_succ (UInt32.le_iff_toNat_le.mp hle)] at h
    split at h
    · injection h with h; injection h with _ h
      rw [← h]
      rfl
    · -- behind the first sector no erase reaches down to `a`
      rename_i hcode
      have hdiv : (offset / b.sectorSize).toNat = offset.toNat / b.sectorSize.toNat :=
        UInt32.toNat_div _ _
      have hlt := lt_blockFloor_add hS offset.toNat
      have hfloor := blockFloor_le b.sectorSize.toNat offset.toNat
      have hoff := offset.toNat_lt
      obtain ⟨hsucc, hnext⟩ := nextSector hbd hS
        (by rw [hdiv]; exact Nat.lt_of_le_of_lt hfloor hoff) (Decidable.not_not.mp hcode)
      have htot := b.totalSize.toNat_lt
      refine eraseLoop_from (P := fun d' => content d' a = content (firstErase b d offset).2 a)
        hbd hS ((offset / b.sectorSize).toNat + 1) (fun d s hlo _ hs hd => ?_) _
        (Nat.le_of_eq hsucc.symm) (by rw [hsucc]; omega) h rfl
      have hmono := Nat.mul_le_mul_right b.sectorSize.toNat hlo
      rw [Nat.succ_mul, hdiv] at hmono
      unfold blockFloor at hlt
      exact (hf.erase_frame d _ _ a (Or.inl (by omega))).trans hd
  · rw [if_neg hle]
    rw [eraseLoop_done (UInt32.lt_iff_toNat_lt.mp (UInt32.not_le.mp hle))] at h
    injection h with h; injection h with _ h
    rw [← h]

/-- **Below its range a write changes what its first erase does**, and nothing if it erases
nothing. -/
theorem write_below (hf : b.Framed content) (hbd : b.Bounded) (hb : sm.backend = some b)
    (hcheck : sm.target.size (offset.toNat + buf.length) ≤ b.totalSize.toNat)
    (h : sm.write offset buf = some (r, sm')) {a : Nat} (ha : a < offset.toNat) :
    content sm'.device a
      = if ErasesFirst b sm.target offset buf.length
        then content (firstErase b sm.device offset).2 a else content sm.device a := by
  have hS := sector_pos_of_write hb hcheck h
  rw [write_loop sm hb hS hcheck] at h
  obtain ⟨ok, d, hloop, ⟨_, _, rfl⟩ | ⟨_, _, rfl⟩⟩ := afterErase_cases h
  · exact eraseLoop_below hf hbd hS hloop ha
  · exact (hf.write_frame d offset buf a (Or.inl ha)).trans (eraseLoop_below hf hbd hS hloop ha)

/-- Outside the sectors of its range a write changes nothing, whether or not it succeeds. -/
theorem write_outside (hf : b.Framed content) (hbd : b.Bounded) (hb : sm.backend = some b)
    (hS : 0 < b.sectorSize.toNat) (h0 : 0 < offset.toNat + buf.length)
    (hin : offset.toNat + buf.length ≤ b.totalSize.toNat)
    (h : sm.write offset buf = some (r, sm')) {a : Nat}
    (ha : a < blockFloor b.sectorSize.toNat offset.toNat
      ∨ blockCeil b.sectorSize.toNat (offset.toNat + buf.length) ≤ a) :
    content sm'.device a = content sm.device a := by
  obtain ⟨e, he, _, _, hceil, hwrite⟩ := write_sectors sm hb hS h0 hin
  have hfl := blockFloor_le b.sectorSize.toNat offset.toNat
  have hce := le_blockCeil hS (offset.toNat + buf.length)
  have hoff := offset.toNat_lt
  have hdiv : (offset / b.sectorSize).toNat = offset.toNat / b.sectorSize.toNat :=
    UInt32.toNat_div _ _
  have hkeep : ∀ {ok d}, StorageManager.eraseLoop b e (2 ^ 32) (offset / b.sectorSize) sm.device
      = some (ok, d) → content d a = content sm.device a := by
    intro ok d hl
    refine eraseLoop_from (P := fun d => content d a = content sm.device a) hbd hS
      (offset.toNat / b.sectorSize.toNat) (fun d s hlo hle hs hd => ?_) _
      (Nat.le_of_eq hdiv.symm) (by rw [hdiv]; exact Nat.lt_of_le_of_lt hfl hoff) hl rfl
    have hlow := Nat.mul_le_mul_right b.sectorSize.toNat hlo
    have hhigh : s.toNat * b.sectorSize.toNat + b.sectorSize.toNat
        ≤ blockCeil b.sectorSize.toNat (offset.toNat + buf.length) := by
      rw [← Nat.succ_mul, ← hceil]
      exact Nat.mul_le_mul_right _ (Nat.succ_le_succ hle)
    unfold blockFloor at ha
    exact (hf.erase_frame d _ _ a (by omega)).trans hd
  rw [hwrite] at h
  obtain ⟨ok, d, hloop, ⟨_, _, rfl⟩ | ⟨_, _, rfl⟩⟩ := afterErase_cases h
  · exact hkeep hloop
  · exact (hf.write_frame d offset buf a (by omega)).trans (hkeep hloop)

/-- A write that is accepted lies in the flash. -/
theorem write_accepted_inside (hbd : b.Bounded) (hb : sm.backend = some b)
    (h : sm.write offset buf = some (r, sm')) (hok : 0 ≤ r) :
    offset.toNat + buf.length ≤ b.totalSize.toNat := by
  by_cases hcheck : sm.target.size (offset.toNat + buf.length) ≤ b.totalSize.toNat
  · rw [write_loop sm hb (sector_pos_of_write hb hcheck h) hcheck] at h
    obtain ⟨ok, d, _, ⟨_, rfl, _⟩ | ⟨_, hr, _⟩⟩ := afterErase_cases h
    · exact absurd hok (by decide)
    · refine Nat.le_of_not_lt fun hout => ?_
      have := hbd.write_outside d offset buf hout
      omega
  · rw [write_refused hb (by omega)] at h
    injection h with h; injection h with hr _
    exact absurd (hr ▸ hok) (by decide)

/-! ## Where the bytes of a session are -/

theorem chunkOffset_accepted (fc : FirmwareCache) {data : List UInt8}
    (h : (chunkOffset fc).toNat + data.length < 4294967296) :
    (chunkOffset (accepted fc data)).toNat = (chunkOffset fc).toNat + data.length := by
  have hsum : chunkOffset (accepted fc data) = chunkOffset fc + UInt32.ofNat data.length :=
    (UInt32.add_assoc _ _ _).symm
  rw [hsum, UInt32.toNat_add, UInt32.toNat_ofNat']
  omega

/-- **The bytes taken lie one behind the other**, and the next chunk goes behind them. -/
theorem chunkOffset_taken (hbd : b.Bounded) : ∀ (chunks : List (List UInt8))
    {fc fc' : FirmwareCache} {sm sm' : StorageManager δ} {rs : List Int},
    sm.backend = some b → fc.writing = true → writeChunks fc sm chunks = some (rs, fc', sm') →
      (chunkOffset fc').toNat = (chunkOffset fc).toNat + (takenBytes fc sm chunks).length := by
  intro chunks
  have htot := b.totalSize.toNat_lt
  -- on the chunks: one that is taken lies in the flash, so the offset does not wrap
  induction chunks with
  | nil =>
    intro fc fc' sm sm' rs _ _ h
    injection h with h; injection h with _ h; injection h with hfc _
    rw [← hfc]
    rfl
  | cons c cs ih =>
    intro fc fc' sm sm' rs hb hw h
    rw [writeChunks] at h
    split at h
    · exact absurd h (by simp)
    · rename_i r fc₁ sm₁ hc
      split at h
      · exact absurd h (by simp)
      · rename_i rs' fc₂ sm₂ hcs
        injection h with h; injection h with _ h; injection h with hfc hsm
        subst hfc hsm
        have hb₁ := (writeChunk_frame hc).backend.trans hb
        rcases writeChunk_cases hc with ⟨hw', _⟩ | ⟨_, k, hwr, ⟨hk, _, hfc₁⟩ | ⟨hk, _, hfc₁⟩⟩
        · exact absurd (hw.symm.trans hw') (by simp)
        · subst hfc₁
          rw [ih hb₁ hw hcs, takenBytes, hwr]
          dsimp only
          rw [if_pos hk]
        · subst hfc₁
          have hin := write_accepted_inside hbd hb hwr hk
          rw [ih hb₁ (show (accepted fc c).writing = true from hw) hcs,
            chunkOffset_accepted fc (by omega), takenBytes, hwr]
          dsimp only
          rw [if_neg (Int.not_lt.mpr hk), List.length_append, Nat.add_assoc]

/-! ## What a failed chunk leaves -/

/--
The erase that the write at `offset` begins with loses no byte from `body` on: those of them in its
sector are blank, if it succeeds, and left alone, if it fails.
-/
def SparesEarlier (content : δ → Nat → UInt8) (b : FlashBackend δ) (sm : StorageManager δ)
    (body : Nat) (offset : UInt32) (len : Nat) : Prop :=
  ErasesFirst b sm.target offset len →
    ∀ a, body ≤ a → blockFloor b.sectorSize.toNat offset.toNat ≤ a → a < offset.toNat →
      if (firstErase b sm.device offset).1 = 0 then content sm.device a = erased
      else content (firstErase b sm.device offset).2 a = content sm.device a

theorem kept_iff_sparesEarlier (hr : b.Fallible content) (hf : b.Framed content) (hbd : b.Bounded)
    (hb : sm.backend = some b) (hS : 0 < b.sectorSize.toNat)
    (hcheck : sm.target.size (offset.toNat + buf.length) ≤ b.totalSize.toNat)
    (h : sm.write offset buf = some (r, sm')) (body : Nat) :
    (∀ a, body ≤ a → a < offset.toNat → content sm'.device a = content sm.device a)
      ↔ SparesEarlier content b sm body offset buf.length := by
  have hfirst := sector_toNat b offset
  have hsector := lt_blockFloor_add hS offset.toNat
  -- a first erase that succeeds is one inside the flash, and blanks its sector
  have hblank : (firstErase b sm.device offset).1 = 0 →
      ∀ a, blockFloor b.sectorSize.toNat offset.toNat ≤ a → a < offset.toNat →
        content (firstErase b sm.device offset).2 a = erased := by
    intro hcode a hlow hhigh
    have hin := hbd.erased_inside hcode
    have hdvd : b.sectorSize.toNat ∣ (offset / b.sectorSize * b.sectorSize).toNat := by
      rw [hfirst]
      exact Nat.dvd_mul_left _ _
    rw [firstErase, hr.erase_ok sm.device _ hdvd (by omega) hcode]
    exact fill_of_mem (by omega) (by omega)
  constructor
  · intro hkept herases a hbody hlow hhigh
    have hsame := hkept a hbody hhigh
    rw [write_below hf hbd hb hcheck h hhigh, if_pos herases] at hsame
    split
    · rename_i hcode
      rw [← hsame]
      exact hblank hcode a hlow hhigh
    · exact hsame
  · intro hspared a hbody hhigh
    rw [write_below hf hbd hb hcheck h hhigh]
    split
    · rename_i herases
      by_cases hlow : blockFloor b.sectorSize.toNat offset.toNat ≤ a
      · have hs := hspared herases a hbody hlow hhigh
        split at hs
        · rename_i hcode
          rw [hs]
          exact hblank hcode a hlow hhigh
        · exact hs
      · exact hf.erase_frame sm.device _ _ a (Or.inl (by omega))
    · rfl

/-- What the caller of a `writeChunk` that failed may count on: the session is as it was, so are
the `earlier` bytes taken before, and repeated over a working flash the chunk does what it would
have done there at first. -/
structure Retryable (content : δ → Nat → UInt8) (b : FlashBackend δ) (fc fc' : FirmwareCache)
    (sm sm' : StorageManager δ) (data : List UInt8) (body earlier : Nat) : Prop where
  session : fc' = fc
  kept : ∀ a, body ≤ a → a < body + earlier → content sm'.device a = content sm.device a
  repeated : ∀ w : FlashBackend δ, w.Reliable content → w.totalSize = b.totalSize →
    w.sectorSize = b.sectorSize → 0 < (chunkOffset fc).toNat + data.length →
    (chunkOffset fc).toNat + data.length ≤ w.totalSize.toNat →
    ∃ r fc₂ d d', fc.writeChunk { sm with backend := some w } data
        = some (r, fc₂, { sm with backend := some w, device := d })
      ∧ fc'.writeChunk { sm' with backend := some w } data
        = some (r, fc₂, { sm with backend := some w, device := d' })
      ∧ content d' = content d
      ∧ (data.length < 2147483648 → r = data.length ∧ fc₂ = accepted fc data)

/-- Over a working flash a chunk lands the same whether or not it failed before. -/
theorem repeat_chunk {fc : FirmwareCache} (hw : fc.writing = true) {d₁ : δ} {data : List UInt8}
    {w : FlashBackend δ} (hr : w.Reliable content) (hS : 0 < w.sectorSize.toNat)
    (h0 : 0 < (chunkOffset fc).toNat + data.length)
    (hin : (chunkOffset fc).toNat + data.length ≤ w.totalSize.toNat)
    (hsame : ∀ a, a < blockFloor w.sectorSize.toNat (chunkOffset fc).toNat
        ∨ blockCeil w.sectorSize.toNat ((chunkOffset fc).toNat + data.length) ≤ a →
      content sm.device a = content d₁ a) :
    ∃ r fc₂ d d', fc.writeChunk { sm with backend := some w } data
        = some (r, fc₂, { sm with backend := some w, device := d })
      ∧ fc.writeChunk { sm with backend := some w, device := d₁ } data
        = some (r, fc₂, { sm with backend := some w, device := d' })
      ∧ content d' = content d
      ∧ (data.length < 2147483648 → r = data.length ∧ fc₂ = accepted fc data) := by
  obtain ⟨d, hwr, hcont⟩ := write_reliable { sm with backend := some w } rfl hr hS
    (chunkOffset fc) data h0 hin
  obtain ⟨d', hwr', hcont'⟩ := write_reliable { sm with backend := some w, device := d₁ } rfl hr hS
    (chunkOffset fc) data h0 hin
  have hrun := writeChunk_open hw hwr
  have hrun' := writeChunk_open hw hwr'
  have hcontent : content d' = content d :=
    hcont'.trans ((program_congr hS hsame).symm.trans hcont.symm)
  by_cases hneg : castInt data.length < 0
  · rw [if_pos hneg] at hrun hrun'
    refine ⟨_, _, d, d', hrun, hrun', hcontent, fun hlen => ?_⟩
    rw [castInt_of_lt hlen] at hneg
    omega
  · rw [if_neg hneg] at hrun hrun'
    exact ⟨_, _, d, d', hrun, hrun', hcontent, fun hlen => ⟨castInt_of_lt hlen, rfl⟩⟩

/-! ## The theorem -/

/--
**When a failed chunk may be repeated.** For every session and every way of cutting the image into
chunks, some of which may have failed before: a chunk the backend fails is reported as failed, and
it is retryable exactly when the erase it began with spared the bytes taken before.
-/
theorem failed_chunk_retryable_iff (content : δ → Nat → UInt8) (hr : b.Fallible content)
    (hf : b.Framed content) (hbd : b.Bounded) {fc : FirmwareCache} (hb : sm.backend = some b)
    {imageSize version : UInt32} {chunks : List (List UInt8)}
    (hacc : (fc.beginWrite imageSize version).1 = true) {rs : List Int} {fc₁ : FirmwareCache}
    {sm₁ sm₂ : StorageManager δ}
    (hrun : writeChunks (fc.beginWrite imageSize version).2 sm chunks = some (rs, fc₁, sm₁))
    {data : List UInt8}
    (hcheck : sm₁.target.size ((chunkOffset fc₁).toNat + data.length) ≤ b.totalSize.toNat) {k : Int}
    (hw : sm₁.write (chunkOffset fc₁) data = some (k, sm₂)) (hk : k < 0) :
    ∃ fc₂, fc₁.writeChunk sm₁ data = some (-1, fc₂, sm₂)
      ∧ (Retryable content b fc₁ fc₂ sm₁ sm₂ data
          (fc.slotOffset fc.inactiveSlot + kHeaderReserved).toNat
          (takenBytes (fc.beginWrite imageSize version).2 sm chunks).length
        ↔ SparesEarlier content b sm₁ (fc.slotOffset fc.inactiveSlot + kHeaderReserved).toNat
          (chunkOffset fc₁) data.length) := by
  rw [beginWrite_opened hacc] at hrun ⊢
  have hopen : (opened fc imageSize version).writing = true := rfl
  obtain ⟨hfc₁, hback⟩ := writeChunks_taken chunks hopen hrun
  have hb₁ : sm₁.backend = some b := hback.trans hb
  have hS := sector_pos_of_write hb₁ hcheck hw
  have hw₁ : fc₁.writing = true := by rw [hfc₁]; rfl
  have hplace := chunkOffset_taken hbd chunks hb hopen hrun
  have hchunk := writeChunk_open hw₁ hw
  rw [if_pos hk] at hchunk
  have hiff := kept_iff_sparesEarlier hr hf hbd hb₁ hS hcheck hw
    (fc.slotOffset fc.inactiveSlot + kHeaderReserved).toNat
  refine ⟨fc₁, hchunk, ?_⟩
  rw [← hiff]
  constructor
  · intro hret a hbody hlt
    exact hret.kept a hbody (Nat.lt_of_lt_of_eq hlt hplace)
  · intro hkept
    refine ⟨rfl, fun a hbody hlt => hkept a hbody (Nat.lt_of_lt_of_eq hlt hplace.symm), ?_⟩
    intro w hrel htotal hsector h0 hin
    obtain ⟨d₁, rfl⟩ := write_frame hw
    rw [htotal] at hin
    have hsame : ∀ a, a < blockFloor w.sectorSize.toNat (chunkOffset fc₁).toNat
        ∨ blockCeil w.sectorSize.toNat ((chunkOffset fc₁).toNat + data.length) ≤ a →
        content sm₁.device a = content d₁ a := by
      intro a ha
      rw [hsector] at ha
      exact (write_outside hf hbd hb₁ hS h0 hin hw ha).symm
    exact repeat_chunk hw₁ hrel (by rw [hsector]; exact hS) h0 (by rw [htotal]; exact hin) hsame

/-- Two bytes in two chunks, and what the second one leaves, with failures to come. -/
def secondChunk (failures : List Bool) :
    Option (FirmwareCache × StorageManager ((Nat → UInt8) × List Bool) × Int
      × StorageManager ((Nat → UInt8) × List Bool)) :=
  (writeChunks (testCache.beginWrite 2 1).2 (failingStorage 0x1000 0 failures) [[1]]).bind fun t =>
    (t.2.2.write (chunkOffset t.2.1) [2]).map fun w => (t.2.1, t.2.2, w.1, w.2)

/-- The erase of the second chunk fails, and the first byte is there for another try. -/
theorem retryable_after_failed_erase :
    ∃ rs fc₁ sm₁ fc₂ sm₂,
      writeChunks (testCache.beginWrite 2 1).2 (failingStorage 0x1000 0 [false, false, true]) [[1]]
          = some (rs, fc₁, sm₁)
        ∧ fc₁.writeChunk sm₁ [2] = some (-1, fc₂, sm₂)
        ∧ Retryable (fun d => d.1) (failing (memBackend 0x10000 4096)) fc₁ fc₂ sm₁ sm₂ [2] 0x6000
          (takenBytes (testCache.beginWrite 2 1).2 (failingStorage 0x1000 0 [false, false, true])
            [[1]]).length := by
  have hend : (secondChunk [false, false, true]).map
      (fun t => (t.2.2.1, chunkOffset t.1, t.2.1.target,
        (firstErase (failing (memBackend 0x10000 4096)) t.2.1.device (chunkOffset t.1)).1))
      = some (-1, 0x6001, .host, -1) := by decide
  obtain ⟨⟨fc₁, sm₁, k, sm₂⟩, hsecond, hres⟩ := Option.map_eq_some_iff.mp hend
  obtain ⟨⟨rs, fc₁', sm₁'⟩, hrun, hwrite⟩ := Option.bind_eq_some_iff.mp hsecond
  obtain ⟨⟨k', sm₂'⟩, hw, heq⟩ := Option.map_eq_some_iff.mp hwrite
  obtain ⟨rfl, rfl, rfl, rfl⟩ : fc₁' = fc₁ ∧ sm₁' = sm₁ ∧ k' = k ∧ sm₂' = sm₂ := by
    simpa using heq
  obtain ⟨hk, hoff, htarget, hcode⟩ : k' = -1 ∧ chunkOffset fc₁' = 0x6001 ∧ sm₁'.target = .host
      ∧ (firstErase (failing (memBackend 0x10000 4096)) sm₁'.device (chunkOffset fc₁')).1 = -1 := by
    simpa using hres
  dsimp only at hrun hw
  have hcheck : sm₁'.target.size ((chunkOffset fc₁').toNat + [(2 : UInt8)].length)
      ≤ (failing (memBackend 0x10000 4096)).totalSize.toNat := by
    rw [htarget, hoff]
    decide
  obtain ⟨fc₂, hcall, hiff⟩ := failed_chunk_retryable_iff (fun d => d.1)
    (failing_fallible testFlash_reliable) (failing_framed (memBackend_framed _ _))
    (failing_bounded (memBackend_bounded _ _))
    (show (failingStorage 0x1000 0 [false, false, true]).backend = _ from rfl)
    (show (testCache.beginWrite 2 1).1 = true by decide) hrun hcheck hw (by rw [hk]; decide)
  refine ⟨rs, fc₁', sm₁', fc₂, sm₂', hrun, hcall, hiff.mpr fun _ a _ _ _ => ?_⟩
  rw [if_neg (by rw [hcode]; decide)]
  exact congrFun ((failing_clean _ _).erase_failed _ _ _
    (show (firstErase (failing (memBackend 0x10000 4096)) sm₁'.device (chunkOffset fc₁')).1 ≠ 0 by
      rw [hcode]; decide)) a

/--
**The second chunk fails and the first one is gone.** Its sector, which holds the end of the first
chunk, is erased before the write fails.
-/
theorem first_chunk_lost :
    (failing (memBackend 0x10000 4096)).Fallible (fun d => d.1)
      ∧ (testCache.beginWrite 2 1).1 = true
      ∧ ∃ fc₁ sm₁ sm₂, secondChunk [false, false, false, true] = some (fc₁, sm₁, -1, sm₂)
        ∧ fc₁.writeChunk sm₁ [2] = some (-1, fc₁, sm₂)
        ∧ ¬ Retryable (fun d => d.1) (failing (memBackend 0x10000 4096)) fc₁ fc₁ sm₁ sm₂ [2] 0x6000
          1 := by
  refine ⟨failing_fallible testFlash_reliable, by decide, ?_⟩
  have hend : (secondChunk [false, false, false, true]).map
      (fun t => (t.2.2.1, t.1.writing, t.2.1.device.1 0x6000, t.2.2.2.device.1 0x6000))
      = some (-1, true, 1, 0xFF) := by decide
  obtain ⟨⟨fc₁, sm₁, k, sm₂⟩, hsecond, hres⟩ := Option.map_eq_some_iff.mp hend
  obtain ⟨rfl, hopen, hbefore, hafter⟩ : k = -1 ∧ fc₁.writing = true ∧ sm₁.device.1 0x6000 = 1
      ∧ sm₂.device.1 0x6000 = 0xFF := by simpa using hres
  obtain ⟨⟨rs, fc₁', sm₁'⟩, hrun, hwrite⟩ := Option.bind_eq_some_iff.mp hsecond
  obtain ⟨⟨k', sm₂'⟩, hw, heq⟩ := Option.map_eq_some_iff.mp hwrite
  obtain ⟨rfl, rfl, rfl, rfl⟩ : fc₁' = fc₁ ∧ sm₁' = sm₁ ∧ k' = -1 ∧ sm₂' = sm₂ := by
    simpa using heq
  refine ⟨fc₁', sm₁', sm₂', hsecond, writeChunk_open hopen hw, fun hret => ?_⟩
  have hkept := hret.kept 0x6000 (by decide) (by decide)
  rw [hbefore, hafter] at hkept
  exact absurd hkept (by decide)

end TaktOS.Proof
