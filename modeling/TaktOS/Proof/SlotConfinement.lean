import TaktOS.Proof.CacheRuns

/-!
# Where an update session writes

`writeOffset_` grows with every chunk and is compared with nothing: `beginWrite` bounds
the size the client announces, not what the client then sends, and a write erases whole
sectors. `StaysInSlot` is what a client has to see to itself. Along a run that does, no
byte outside the inactive slot is erased or written, whatever the backend does, and the
running image is what it was.
-/

namespace TaktOS.Proof

open Lib

variable {δ : Type}

/-! ## The condition -/

/--
What a session call must satisfy in the state it is issued in: the sectors of a chunk
that the bounds check lets through end within the slot, counted from the write offset,
unless it is an empty chunk on a sector boundary; and a header's sectors fit a slot.
-/
def StaysInSlot (b : FlashBackend δ) (s : CacheState δ) : SessionOp → Prop
  | .beginWrite _ _ => True
  | .writeChunk data =>
    s.cache.writing = true →
      s.storage.target.size ((chunkOffset s.cache).toNat + data.length) ≤ b.totalSize.toNat →
        0 < (chunkOffset s.cache).toNat + data.length
          ∧ (blockCeil b.sectorSize.toNat (s.cache.writeOffset.toNat + data.length)
                ≤ s.cache.slotSize.toNat
            ∨ data = [] ∧ b.sectorSize.toNat ∣ (chunkOffset s.cache).toNat)
  | .finalizeWrite =>
    s.cache.writing = true →
      s.storage.target.size ((s.cache.slotOffset s.cache.inactiveSlot).toNat + headerSize)
          ≤ b.totalSize.toNat →
        blockCeil b.sectorSize.toNat headerSize ≤ s.cache.slotSize.toNat

instance (b : FlashBackend δ) (s : CacheState δ) : ∀ op, Decidable (StaysInSlot b s op)
  | .beginWrite _ _ => isTrue trivial
  | .writeChunk _ => inferInstanceAs (Decidable (_ → _ → _ ∧ (_ ∨ _)))
  | .finalizeWrite => inferInstanceAs (Decidable (_ → _ → _))

/-! ## One call -/

section Keeps

variable {b : FlashBackend δ} {s s' : CacheState δ}

/-- The sectors of a chunk that stays lie in the inactive slot. -/
theorem chunk_sectors_inside {fc : FirmwareCache} (hl : Layout fc b) {len : Nat}
    (h : blockCeil b.sectorSize.toNat (fc.writeOffset.toNat + len) ≤ fc.slotSize.toNat
      ∨ len = 0 ∧ b.sectorSize.toNat ∣ (chunkOffset fc).toNat) (a : Nat)
    (h1 : blockFloor b.sectorSize.toNat (chunkOffset fc).toNat ≤ a)
    (h2 : a < blockCeil b.sectorSize.toNat ((chunkOffset fc).toNat + len)) :
    (fc.slotOffset fc.inactiveSlot).toNat ≤ a
      ∧ a < (fc.slotOffset fc.inactiveSlot).toNat + fc.slotSize.toNat := by
  have hS := hl.sector_pos
  rcases h with hfit | ⟨h0, hdvd⟩
  · have hin := hl.inside fc.inactiveSlot
    have htot := b.totalSize.toNat_lt
    have hle := le_blockCeil hS (fc.writeOffset.toNat + len)
    have hoff : (chunkOffset fc).toNat
        = (fc.slotOffset fc.inactiveSlot).toNat + fc.writeOffset.toNat := by
      rw [chunkOffset, UInt32.toNat_add]
      exact Nat.mod_eq_of_lt (by omega)
    rw [hoff, blockFloor_add hS (hl.aligned _)] at h1
    rw [hoff, Nat.add_assoc, blockCeil_add hS (hl.aligned _)] at h2
    omega
  · -- an empty range on a boundary has no sectors
    have hfloor := le_blockFloor hdvd (Nat.le_refl _)
    have hceil := blockCeil_le hS hdvd (Nat.le_refl _)
    rw [h0, Nat.add_zero] at h2
    omega

/-- **A session call that stays in the slot keeps what accesses to the slot keep.** -/
theorem sessionStep_keeps {P : δ → Prop} (hb : s.storage.backend = some b)
    (hl : Layout s.cache b)
    (hk : b.Keeps (s.cache.slotOffset s.cache.inactiveSlot).toNat
      ((s.cache.slotOffset s.cache.inactiveSlot).toNat + s.cache.slotSize.toNat) P)
    {op : SessionOp} (hstay : StaysInSlot b s op) (h : sessionStep s op = some s')
    (hp : P s.storage.device) : P s'.storage.device := by
  have hin := hl.inside s.cache.inactiveSlot
  have htot := b.totalSize.toNat_lt
  have hS := hl.sector_pos
  cases op with
  | beginWrite imageSize version =>
    rw [← Option.some.inj h]
    exact hp
  | writeChunk data =>
    obtain ⟨r, hc⟩ := writeChunk_step h
    rcases writeChunk_cases hc with ⟨_, _, _, hsm⟩ | ⟨hw, k, hwr, _⟩
    · rw [hsm]; exact hp
    · refine write_keeps hb hk hS (by omega) (fun hsize => ?_) hwr hp
      obtain ⟨h0, hfit⟩ := hstay hw hsize
      refine ⟨h0, chunk_sectors_inside hl (hfit.imp id (fun he => ⟨?_, he.2⟩))⟩
      rw [he.1]
      rfl
  | finalizeWrite =>
    obtain ⟨ok, hc⟩ := finalizeWrite_step h
    rcases finalizeWrite_cases hc with ⟨_, _, _, hsm⟩ | ⟨hw, _, k, sm₁, hwr, _, hsm⟩
    · rw [hsm]; exact hp
    · have hp₁ : P sm₁.device := by
        refine write_keeps hb hk hS (by omega) (fun hsize => ⟨?_, ?_⟩) hwr hp
        · rw [FirmwareHeader.length_toBytes]; omega
        · intro a h1 h2
          have hfit := hstay hw hsize
          have hfloor := le_blockFloor (hl.aligned s.cache.inactiveSlot) (Nat.le_refl _)
          rw [FirmwareHeader.length_toBytes, blockCeil_add hS (hl.aligned _)] at h2
          unfold headerSize at hfit
          omega
      -- the verify that follows only reads
      obtain ⟨d, rfl⟩ := write_frame hwr
      have hreads : ReadKeeps { s.storage with device := d } P := by
        intro b' hb' d off buf hd
        rw [← Option.some.inj (hb.symm.trans hb')]
        exact hk.read d off buf hd
      obtain ⟨d', hd', hp'⟩ := verify_after _ hreads hp₁ s.cache s.cache.inactiveSlot
      rw [hsm, hd']
      exact hp'

/-- **So does a run of them**, however many sessions it opens and abandons. -/
theorem session_keeps {P : δ → Prop} (hb : s.storage.backend = some b) (hl : Layout s.cache b)
    (hk : b.Keeps (s.cache.slotOffset s.cache.inactiveSlot).toNat
      ((s.cache.slotOffset s.cache.inactiveSlot).toNat + s.cache.slotSize.toNat) P)
    {ops : List SessionOp} (hstay : Along sessionStep (StaysInSlot b) s ops)
    (hrun : run sessionStep s ops = some s') (hp : P s.storage.device) :
    (Frame s.cache s'.cache s.storage s'.storage
      ∧ s'.cache.activeSlot = s.cache.activeSlot) ∧ P s'.storage.device := by
  refine run_invariant
    (fun t => (Frame s.cache t.cache s.storage t.storage
      ∧ t.cache.activeSlot = s.cache.activeSlot) ∧ P t.storage.device)
    ?_ ⟨⟨Frame.refl _ _, rfl⟩, hp⟩ hstay hrun
  intro t op t' ⟨⟨hf, ha⟩, hpt⟩ hst hstep
  -- no session call switches, so the slot of the first call is the slot of all
  have hinact : t.cache.inactiveSlot = s.cache.inactiveSlot := by
    unfold FirmwareCache.inactiveSlot
    rw [ha]
  refine ⟨⟨hf.trans (sessionStep_frame hstep), (sessionStep_activeSlot hstep).trans ha⟩, ?_⟩
  refine sessionStep_keeps (hf.backend.trans hb) (hf.slots.layout hl) ?_ hst hstep hpt
  rw [hinact, hf.slots.slotOffset, hf.slots.size]
  exact hk

end Keeps

/-! ## Runs, watched -/

/-- The image a slot claims to hold lies in the slot. -/
def ImageInSlot (total : Nat) (m : Nat → UInt8) (fc : FirmwareCache) (slot : UInt8) : Prop :=
  headerSize ≤ fc.slotSize.toNat
    ∧ (Flagged total m (fc.slotOffset slot) →
      4096 + (storedHeader m (fc.slotOffset slot)).size.toNat ≤ fc.slotSize.toNat)

/-- What lies in the active slot lies outside the inactive one. -/
theorem active_outside_inactive {fc : FirmwareCache} {b : FlashBackend δ} (hl : Layout fc b)
    {a : Nat} (h1 : (fc.slotOffset fc.activeSlot).toNat ≤ a)
    (h2 : a < (fc.slotOffset fc.activeSlot).toNat + fc.slotSize.toNat) :
    a < (fc.slotOffset fc.inactiveSlot).toNat
      ∨ (fc.slotOffset fc.inactiveSlot).toNat + fc.slotSize.toNat ≤ a := by
  have hd := hl.disjoint
  rcases slotOffset_inactive fc with ⟨hi, ha⟩ | ⟨hi, ha⟩
  · rw [ha] at h1 h2
    rw [hi]
    omega
  · rw [ha] at h1 h2
    rw [hi]
    omega

/--
**A session that stays in its slot touches nothing else.** Along any run of session calls
that stay, over any backend, every byte erased or written lies in the inactive slot. If the
backend keeps to the ranges it is given, the active slot reads as before and, where the
image it claims lies in it, verifies as before.
-/
theorem session_confined {b : FlashBackend δ} {s s' : CacheState (δ × List FlashAccess)}
    {ops : List SessionOp} (hb : s.storage.backend = some b.recorded)
    (hlog : s.storage.device.2 = []) (hl : Layout s.cache b.recorded)
    (hstay : Along sessionStep (StaysInSlot b.recorded) s ops)
    (hrun : run sessionStep s ops = some s') :
    Confined (s.cache.slotOffset s.cache.inactiveSlot).toNat
        ((s.cache.slotOffset s.cache.inactiveSlot).toNat + s.cache.slotSize.toNat)
        s'.storage.device.2
      ∧ ∀ content : δ → Nat → UInt8, b.Framed content →
        AgreeOn (s.cache.slotOffset s.cache.activeSlot).toNat
            ((s.cache.slotOffset s.cache.activeSlot).toNat + s.cache.slotSize.toNat)
            (content s.storage.device.1) (content s'.storage.device.1)
          ∧ (ImageInSlot b.totalSize.toNat (content s.storage.device.1) s.cache
                s.cache.activeSlot →
              (s'.cache.verify s'.storage s'.cache.activeSlot).1
                = (s.cache.verify s.storage s.cache.activeSlot).1) := by
  -- one run, two predicates: the record so far, and the content outside the slot
  have hconf := session_keeps hb hl (recorded_keeps b _ _) hstay hrun
    (by rw [hlog]; exact fun acc hacc => absurd hacc (by simp))
  refine ⟨hconf.2, fun content hf => ?_⟩
  obtain ⟨⟨hframe, hact⟩, hsame⟩ := session_keeps hb hl
    ((recorded_framed hf).keeps _ _ (content s.storage.device.1)) hstay hrun (fun _ _ => rfl)
  have hagree : AgreeOn (s.cache.slotOffset s.cache.activeSlot).toNat
      ((s.cache.slotOffset s.cache.activeSlot).toNat + s.cache.slotSize.toNat)
      (content s.storage.device.1) (content s'.storage.device.1) :=
    fun a h1 h2 => (hsame a (active_outside_inactive hl h1 h2)).symm
  refine ⟨hagree, fun ⟨hn, hfit⟩ => ?_⟩
  have hin := hl.inside s.cache.activeSlot
  have htot := b.recorded.totalSize.toNat_lt
  rw [hact]
  refine verify_congr _ _ hb (hframe.backend.trans hb) (recorded_framed hf).toReadable fun _ => ?_
  rw [hframe.slots.slotOffset]
  exact (verifies_congr_slot hagree hn (by omega) hfit).symm

/-- A session that sends what it announced stays in its slot. -/
theorem session_confined_two_chunks :
    ∃ s', run sessionStep (watched testCache fun _ => erased)
          [.beginWrite 5000 1, .writeChunk (List.replicate 4096 7),
            .writeChunk (List.replicate 904 9), .finalizeWrite] = some s'
        ∧ Confined 0x5000 0x9000 s'.storage.device.2 := by
  have hret : (run sessionStep (watched testCache fun _ => erased)
      [.beginWrite 5000 1, .writeChunk (List.replicate 4096 7),
        .writeChunk (List.replicate 904 9), .finalizeWrite]).isSome = true := by decide +kernel
  obtain ⟨s', hs'⟩ := Option.isSome_iff_exists.mp hret
  exact ⟨s', hs', (session_confined rfl rfl (testCache_layout rfl rfl) (by decide +kernel) hs').1⟩

/-- The running image in slot B, right behind a slot A of two sectors. -/
def smallSlots : FirmwareCache where
  slotAOffset := 0x1000
  slotBOffset := 0x3000
  slotSize := 0x2000
  activeSlot := 1

/--
**An image longer than announced bricks the running one.** `init` selects slot B, which
verifies; a session announces one byte and sends a sector and a byte; slot B is gone.
-/
theorem session_overruns_slot :
    (({} : FirmwareCache).init
        (watched {} (withImage (fun _ => erased) 0x3000 1 [42])).storage 0x1000 0x3000 0x2000).1
        = smallSlots
      ∧ Layout smallSlots (memBackend 0x10000 4096).recorded
      ∧ (smallSlots.verify
          (watched smallSlots (withImage (fun _ => erased) 0x3000 1 [42])).storage 1).1 = true
      ∧ ∃ s', run sessionStep (watched smallSlots (withImage (fun _ => erased) 0x3000 1 [42]))
            [.beginWrite 1 1, .writeChunk (List.replicate 4097 7)] = some s'
          ∧ ¬ Confined 0x1000 0x3000 s'.storage.device.2
          ∧ (s'.cache.verify s'.storage s'.cache.activeSlot).1 = false := by
  refine ⟨by decide, ⟨by decide, by decide, by decide, by decide, by decide, by decide⟩,
    by decide, ?_⟩
  have hend : (run sessionStep (watched smallSlots (withImage (fun _ => erased) 0x3000 1 [42]))
      [.beginWrite 1 1, .writeChunk (List.replicate 4097 7)]).map (fun s =>
        (s.storage.device.2, (s.cache.verify s.storage s.cache.activeSlot).1))
      = some ([.write 0x2000 4097, .erase 0x3000 4096, .erase 0x2000 4096], false) := by
    decide +kernel
  obtain ⟨s', hs', hres⟩ := Option.map_eq_some_iff.mp hend
  obtain ⟨hlog, hver⟩ := Prod.mk.inj hres
  refine ⟨s', hs', fun hc => ?_, hver⟩
  rw [hlog] at hc
  exact absurd (hc (.erase 0x3000 4096) (by decide) 0x3000 ⟨by decide, by decide⟩).2 (by decide)

end TaktOS.Proof
