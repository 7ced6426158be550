import TaktOS.Proof.CacheRuns
import TaktOS.Proof.ReliableFlash

/-!
# Slot selection after a power loss

A session leaves the header of the slot it writes to in place until `finalizeWrite`, and
`init` looks at nothing but headers, slot A's first. So a session into slot A that is cut
off leaves a slot `init` prefers and `verify` rejects. `PowerState` remembers whether slot
A is in that condition; the invariant is that otherwise a flagged slot A is whole.

Each call makes at most one `StorageManager::write`, and what it reads after that write
does not change flash, so a power loss between any two storage calls leaves the flash that
a power loss between two cache calls does.
-/

namespace TaktOS.Proof

open Lib

variable {δ : Type}

/-! ## Runs with power losses -/

/-- A cache, and whether slot A has been written to since it was last finalized. -/
structure PowerState (δ : Type) where
  state : CacheState δ
  torn : Bool := false

inductive PowerOp where
  | call (op : CacheOp)
  /-- The RAM is lost, and `init` runs again with the parameters it was given before. -/
  | reboot

/-- A session is open, and it writes to slot A. -/
def intoSlotA (fc : FirmwareCache) : Bool := fc.writing && fc.inactiveSlot == 0

/-- Slot A after a call: torn by a chunk, mended by a `finalizeWrite` that returns `true`. -/
def tornBy (p : PowerState δ) : CacheOp → Bool
  | .session (.writeChunk _) => p.torn || intoSlotA p.state.cache
  | .session .finalizeWrite =>
    if intoSlotA p.state.cache then
      (p.state.cache.finalizeWrite p.state.storage).map (fun t => t.1) != some true
    else p.torn
  | _ => p.torn

def powerStep (p : PowerState δ) : PowerOp → Option (PowerState δ)
  | .call op => (cacheStep p.state op).map fun s' => { state := s', torn := tornBy p op }
  | .reboot =>
    let fc := p.state.cache
    let (fc', sm') :=
      ({} : FirmwareCache).init p.state.storage fc.slotAOffset fc.slotBOffset fc.slotSize
    some { p with state := { cache := fc', storage := sm' } }

/-- If either slot passes `verify`, the active one does. -/
def ActiveVerifies (s : CacheState δ) : Prop :=
  (s.cache.verify s.storage 0).1 = true ∨ (s.cache.verify s.storage 1).1 = true →
    (s.cache.verify s.storage s.cache.activeSlot).1 = true

/-- After every reboot the slot selected is one that passes, if any does. -/
def SelectsVerified (p : PowerState δ) : PowerOp → Prop
  | .call _ => True
  | .reboot => ∀ p', powerStep p .reboot = some p' → ActiveVerifies p'.state

/-! ## The conditions -/

/-- The sectors of a header fit the reserve in front of the body, and the reserve fits a slot. -/
structure HeaderReserve (fc : FirmwareCache) (b : FlashBackend δ) : Prop where
  sectors : blockCeil b.sectorSize.toNat headerSize ≤ 4096
  room : 4096 ≤ fc.slotSize.toNat

/-- The sectors that a write of `len` bytes at `off` touches miss `[lo, hi)`. -/
def SectorsMiss (S off len lo hi : Nat) : Prop :=
  blockCeil S (off + len) ≤ blockFloor S off ∨ blockCeil S (off + len) ≤ lo
    ∨ hi ≤ blockFloor S off

/--
The power does not fail while slot A is torn, still flagged, and slot B whole; and no chunk
of a session into slot B runs into slot A.
-/
def Sheltered (b : FlashBackend δ) (content : δ → Nat → UInt8) (p : PowerState δ) :
    PowerOp → Prop
  | .reboot =>
    p.torn = false
      ∨ ¬ Flagged b.totalSize.toNat (content p.state.storage.device) p.state.cache.slotAOffset
      ∨ ¬ Verifies b.totalSize.toNat (content p.state.storage.device) p.state.cache.slotBOffset
  | .call (.session (.writeChunk data)) =>
    p.state.cache.writing = true → p.state.cache.inactiveSlot = 1 →
      p.state.storage.target.size ((chunkOffset p.state.cache).toNat + data.length)
          ≤ b.totalSize.toNat →
        0 < (chunkOffset p.state.cache).toNat + data.length
          ∧ (chunkOffset p.state.cache).toNat + data.length ≤ b.totalSize.toNat
          ∧ SectorsMiss b.sectorSize.toNat (chunkOffset p.state.cache).toNat data.length
            p.state.cache.slotAOffset.toNat
            (p.state.cache.slotAOffset.toNat + p.state.cache.slotSize.toNat)
  | .call _ => True

instance (b : FlashBackend δ) (content : δ → Nat → UInt8) (p : PowerState δ) :
    ∀ op, Decidable (Sheltered b content p op)
  | .reboot => inferInstanceAs (Decidable (_ ∨ ¬ _ ∨ ¬ _))
  | .call (.session (.writeChunk _)) =>
    inferInstanceAs (Decidable (_ → _ → _ → _ ∧ _ ∧ (_ ∨ _ ∨ _)))
  | .call (.session (.beginWrite _ _)) => isTrue trivial
  | .call (.session .finalizeWrite) => isTrue trivial
  | .call (.verify _) => isTrue trivial
  | .call (.activateSlot _) => isTrue trivial
  | .call .rollback => isTrue trivial

/-- A flagged slot A holds a whole image that lies in the slot. -/
def SlotAWhole (total : Nat) (m : Nat → UInt8) (fc : FirmwareCache) : Prop :=
  Flagged total m fc.slotAOffset →
    Verifies total m fc.slotAOffset
      ∧ 4096 + (storedHeader m fc.slotAOffset).size.toNat ≤ fc.slotSize.toNat

/-- What every permitted step preserves. -/
structure SelectionInv (b : FlashBackend δ) (content : δ → Nat → UInt8)
    (p : PowerState δ) : Prop where
  backend : p.state.storage.backend = some b
  layout : Layout p.state.cache b
  reserve : HeaderReserve p.state.cache b
  /-- The image announced for an open session fits the slot. -/
  announced : p.state.cache.writing = true →
    4096 + p.state.cache.writeImageSize.toNat ≤ p.state.cache.slotSize.toNat
  /-- Unless slot A is torn, it is whole or not flagged. -/
  slotA : p.torn = false →
    SlotAWhole b.totalSize.toNat (content p.state.storage.device) p.state.cache

/-! ## What leaves slot A alone -/

section SlotA

variable {b : FlashBackend δ} {content : δ → Nat → UInt8}

theorem slotAWhole_congr {fc : FirmwareCache} {m m' : Nat → UInt8} (hl : Layout fc b)
    (hres : HeaderReserve fc b)
    (h : AgreeOn fc.slotAOffset.toNat (fc.slotAOffset.toNat + fc.slotSize.toNat) m m')
    (hA : SlotAWhole b.totalSize.toNat m fc) : SlotAWhole b.totalSize.toNat m' fc := by
  have hin := hl.insideA
  have htot := b.totalSize.toNat_lt
  have hroom := hres.room
  have hhead : AgreeOn fc.slotAOffset.toNat (fc.slotAOffset.toNat + headerSize) m m' :=
    h.mono (Nat.le_refl _) (by unfold headerSize; omega)
  intro hF
  have hF' := (flagged_congr hhead).mpr hF
  obtain ⟨hv, hsize⟩ := hA hF'
  refine ⟨?_, by rw [← storedHeader_congr hhead]; exact hsize⟩
  exact (verifies_congr_slot h (by unfold headerSize; omega) (by omega) (fun _ => hsize)).mp hv

theorem agreeOn_sectorsMiss {S off lo hi : Nat} {m : Nat → UInt8} {xs : List UInt8} (hS : 0 < S)
    (h : SectorsMiss S off xs.length lo hi) :
    AgreeOn lo hi m (program S erased m off xs) := by
  rcases h with h | h | h
  · intro a _ _
    exact (program_outside (by omega) hS).symm
  · exact (agreeOn_program hS (Or.inr h)).symm
  · exact (agreeOn_program hS (Or.inl h)).symm

/-- A header written to one slot misses the other. -/
theorem header_misses_other {fc : FirmwareCache} (hl : Layout fc b) (hres : HeaderReserve fc b)
    {slot s : UInt8} (hslot : slot ≤ 1) (hs : s ≤ 1) (hne : s ≠ slot) :
    SectorsMiss b.sectorSize.toNat (fc.slotOffset slot).toNat headerSize (fc.slotOffset s).toNat
      ((fc.slotOffset s).toNat + fc.slotSize.toNat) := by
  have hsec := hres.sectors
  have hroom := hres.room
  have hA : fc.slotOffset 0 = fc.slotAOffset := rfl
  have hB : fc.slotOffset 1 = fc.slotBOffset := rfl
  have hfloor := le_blockFloor (hl.aligned slot) (Nat.le_refl _)
  have hoff : (fc.slotOffset slot).toNat + fc.slotSize.toNat ≤ (fc.slotOffset s).toNat
      ∨ (fc.slotOffset s).toNat + fc.slotSize.toNat ≤ (fc.slotOffset slot).toNat := by
    rcases le_one_cases hslot with rfl | rfl <;> rcases le_one_cases hs with rfl | rfl
    · exact absurd rfl hne
    · rw [hA, hB]
      exact hl.disjoint
    · rw [hA, hB]
      exact hl.disjoint.symm
    · exact absurd rfl hne
  unfold SectorsMiss
  rw [blockCeil_add hl.sector_pos (hl.aligned slot)]
  rcases hoff with h | h
  · exact Or.inr (Or.inl (by omega))
  · exact Or.inr (Or.inr (by omega))

/-- A header written to slot B misses slot A. -/
theorem header_misses_slotA {fc : FirmwareCache} (hl : Layout fc b) (hres : HeaderReserve fc b) :
    SectorsMiss b.sectorSize.toNat fc.slotBOffset.toNat headerSize fc.slotAOffset.toNat
      (fc.slotAOffset.toNat + fc.slotSize.toNat) := by
  have hA : fc.slotOffset 0 = fc.slotAOffset := rfl
  have hB : fc.slotOffset 1 = fc.slotBOffset := rfl
  rw [← hA, ← hB]
  exact header_misses_other hl hres (by decide) (by decide) (by decide)

/-- A sheltered chunk of a session into slot B leaves slot A as it was. -/
theorem chunk_spares_slotA (hr : b.Reliable content) {p : PowerState δ}
    (hi : SelectionInv b content p) {data : List UInt8}
    (hc : Sheltered b content p (.call (.session (.writeChunk data))))
    (hw : p.state.cache.writing = true) (hB : p.state.cache.inactiveSlot = 1) {k : Int}
    {sm' : StorageManager δ}
    (h : p.state.storage.write (chunkOffset p.state.cache) data = some (k, sm')) :
    AgreeOn p.state.cache.slotAOffset.toNat
      (p.state.cache.slotAOffset.toNat + p.state.cache.slotSize.toNat)
      (content p.state.storage.device) (content sm'.device) := by
  rcases Nat.lt_or_ge b.totalSize.toNat
    (p.state.storage.target.size ((chunkOffset p.state.cache).toNat + data.length)) with hlt | hge
  · -- the bounds check rejects the chunk
    have := h.symm.trans (write_refused hi.backend hlt)
    injection this with this; injection this with _ this
    rw [this]
    exact AgreeOn.refl _ _ _
  · obtain ⟨h0, hin, hmiss⟩ := hc hw hB hge
    obtain ⟨d, hwr, hcont⟩ := write_reliable _ hi.backend hr hi.layout.sector_pos
      _ _ h0 hin
    have := h.symm.trans hwr
    injection this with this; injection this with _ this
    rw [this]
    show AgreeOn _ _ _ (content d)
    rw [hcont]
    exact agreeOn_sectorsMiss hi.layout.sector_pos hmiss

/-- Marking either slot bootable keeps slot A whole. -/
theorem slotAWhole_marked {fc : FirmwareCache} {m : Nat → UInt8} (hl : Layout fc b)
    (hres : HeaderReserve fc b) {slot : UInt8} (hslot : slot ≤ 1)
    (hv : Verifies b.totalSize.toNat m (fc.slotOffset slot))
    (hA : SlotAWhole b.totalSize.toNat m fc) :
    SlotAWhole b.totalSize.toNat (markedBootable b m (fc.slotOffset slot)) fc := by
  have hin := hl.insideA
  have htot := b.totalSize.toNat_lt
  have hroom := hres.room
  rcases le_one_cases hslot with rfl | rfl
  · -- slot A's own header: the body behind the reserve is not touched
    have hoff : (fc.slotOffset 0).toNat = fc.slotAOffset.toNat := rfl
    intro _
    refine ⟨verifies_marked hl.sector_pos hl.alignedA hres.sectors (by omega) hv, ?_⟩
    show 4096 + (storedHeader (markedBootable b m fc.slotAOffset) fc.slotAOffset).size.toNat ≤ _
    rw [storedHeader_marked]
    exact (hA hv.1).2
  · exact slotAWhole_congr hl hres
      (agreeOn_sectorsMiss hl.sector_pos (header_misses_slotA hl hres)) hA

end SlotA

/-! ## Every permitted step keeps the invariant -/

section Steps

variable {b : FlashBackend δ} {content : δ → Nat → UInt8} {p p' : PowerState δ}

theorem intoSlotA_iff {fc : FirmwareCache} :
    intoSlotA fc = true ↔ fc.writing = true ∧ fc.inactiveSlot = 0 := by
  simp [intoSlotA]

/-- The step at a call whose session fields are the old ones or those of no session. -/
theorem selectionInv_of_frame (hi : SelectionInv b content p) {s' : CacheState δ} {torn : Bool}
    (hf : Frame p.state.cache s'.cache p.state.storage s'.storage)
    (hann : s'.cache.writing = true →
      4096 + s'.cache.writeImageSize.toNat ≤ p.state.cache.slotSize.toNat)
    (hA : torn = false →
      SlotAWhole b.totalSize.toNat (content s'.storage.device) p.state.cache) :
    SelectionInv b content { state := s', torn := torn } where
  backend := hf.backend.trans hi.backend
  layout := hf.slots.layout hi.layout
  reserve := ⟨hi.reserve.sectors, by rw [hf.slots.size]; exact hi.reserve.room⟩
  announced := by
    rw [hf.slots.size]
    exact hann
  slotA := by
    intro ht
    unfold SlotAWhole
    rw [hf.slots.slotA, hf.slots.size]
    exact hA ht

theorem selectionInv_beginWrite (hi : SelectionInv b content p) (imageSize version : UInt32) :
    SelectionInv b content
      { p with state := { p.state with
          cache := (p.state.cache.beginWrite imageSize version).2 } } := by
  refine selectionInv_of_frame hi ⟨beginWrite_slots _ _ _, p.state.storage.device, rfl⟩ ?_ hi.slotA
  intro hw
  dsimp only at hw ⊢
  rcases beginWrite_cases p.state.cache imageSize version with ⟨_, hb⟩ | ⟨hle, hb⟩
  · rw [hb] at hw ⊢
    exact hi.announced hw
  · rw [hb]
    show 4096 + imageSize.toNat ≤ _
    -- the reserve fits the slot, so the difference `beginWrite` compares with does not wrap
    have hroom := hi.reserve.room
    have hle' := UInt32.le_iff_toNat_le.mp hle
    have hres : kHeaderReserved.toNat = 4096 := rfl
    rw [UInt32.toNat_sub_of_le _ _ (UInt32.le_iff_toNat_le.mpr (hres ▸ hroom))] at hle'
    omega

theorem selectionInv_writeChunk (hr : b.Reliable content) (hi : SelectionInv b content p)
    {data : List UInt8} (hc : Sheltered b content p (.call (.session (.writeChunk data))))
    {s' : CacheState δ} (h : sessionStep p.state (.writeChunk data) = some s') :
    SelectionInv b content
      { state := s', torn := tornBy p (.session (.writeChunk data)) } := by
  obtain ⟨r, hcall⟩ := writeChunk_step h
  refine selectionInv_of_frame hi (writeChunk_frame hcall) ?_ ?_
  · intro hw
    rcases writeChunk_cases hcall with ⟨_, _, hfc, _⟩ | ⟨hw', _, _, ⟨_, _, hfc⟩ | ⟨_, _, hfc⟩⟩
    · rw [hfc] at hw ⊢
      exact hi.announced hw
    · rw [hfc]
      exact hi.announced hw'
    · rw [hfc]
      exact hi.announced hw'
  · intro ht
    obtain ⟨htorn, hinto⟩ := Bool.or_eq_false_iff.mp ht
    rcases writeChunk_cases hcall with ⟨_, _, _, hsm⟩ | ⟨hw, k, hwr, _⟩
    · rw [hsm]
      exact hi.slotA htorn
    · have hB : p.state.cache.inactiveSlot = 1 := by
        rcases inactiveSlot_cases p.state.cache with h0 | h1
        · exact absurd (intoSlotA_iff.mpr ⟨hw, h0⟩) (by rw [hinto]; decide)
        · exact h1
      exact slotAWhole_congr hi.layout hi.reserve (chunk_spares_slotA hr hi hc hw hB hwr)
        (hi.slotA htorn)

theorem selectionInv_finalizeWrite (hr : b.Reliable content) (hi : SelectionInv b content p)
    {s' : CacheState δ} (h : sessionStep p.state .finalizeWrite = some s') :
    SelectionInv b content { state := s', torn := tornBy p (.session .finalizeWrite) } := by
  obtain ⟨ok, hcall⟩ := finalizeWrite_step h
  cases hw : p.state.cache.writing with
  | false =>
    -- refused
    rcases finalizeWrite_cases hcall with ⟨_, _, hfc, hsm⟩ | ⟨hw', _⟩
    · refine selectionInv_of_frame hi (finalizeWrite_frame hcall) ?_ ?_
      · intro hwr
        rw [hfc, hw] at hwr
        exact absurd hwr (by simp)
      · intro ht
        have hinto : intoSlotA p.state.cache = false := by simp [intoSlotA, hw]
        rw [tornBy, hinto] at ht
        rw [hsm]
        exact hi.slotA ht
    · exact absurd (hw.symm.trans hw') (by simp)
  | true =>
    have hin := hi.layout.inside p.state.cache.inactiveSlot
    have hroom := hi.reserve.room
    obtain ⟨ok', d, hfin, hcont, hok⟩ := finalizeWrite_reliable hr hi.layout.sector_pos
      _ _ hi.backend hw (by unfold headerSize; omega)
    have heq := hcall.symm.trans hfin
    injection heq with heq; injection heq with hokeq heq; injection heq with hfc hsm
    refine selectionInv_of_frame hi (finalizeWrite_frame hcall) ?_ ?_
    · intro hwr
      rw [hfc] at hwr
      exact absurd hwr (by simp [closed])
    · intro ht
      rw [hsm]
      show SlotAWhole _ (content d) _
      rcases inactiveSlot_cases p.state.cache with h0 | h1
      · -- into slot A: not torn means it verified
        have hinto : intoSlotA p.state.cache = true := intoSlotA_iff.mpr ⟨hw, h0⟩
        rw [tornBy, hinto, if_pos rfl, hcall] at ht
        have htrue : ok = true := by simpa using ht
        have hv := hok.mp (hokeq ▸ htrue)
        rw [h0] at hv hcont
        intro _
        refine ⟨hv, ?_⟩
        rw [hcont]
        show 4096 + (storedHeader (program _ erased _ p.state.cache.slotAOffset.toNat _)
          p.state.cache.slotAOffset).size.toNat ≤ _
        rw [storedHeader_program]
        exact hi.announced hw
      · -- into slot B: the header's sectors miss slot A
        have hinto : intoSlotA p.state.cache = false := by simp [intoSlotA, h1]
        rw [tornBy, hinto] at ht
        refine slotAWhole_congr hi.layout hi.reserve ?_ (hi.slotA ht)
        rw [hcont, h1]
        exact agreeOn_sectorsMiss hi.layout.sector_pos
          (header_misses_slotA hi.layout hi.reserve)

theorem selectionInv_verify (hr : b.Reliable content) (hi : SelectionInv b content p)
    (slot : UInt8) :
    SelectionInv b content
      { p with state := { p.state with
          storage := (p.state.cache.verify p.state.storage slot).2 } } := by
  obtain ⟨d, hd, hcont⟩ := verify_after _
    (readKeeps_content hi.backend hr.toReadable (content p.state.storage.device)) rfl
    p.state.cache slot
  refine selectionInv_of_frame hi ⟨SameSlots.refl _, verify_frame _ _ _⟩ hi.announced ?_
  intro ht
  dsimp only
  rw [hd]
  show SlotAWhole _ (content d) _
  rw [hcont]
  exact hi.slotA ht

/-- A switch of slots, refused or not, whose session fields are the old ones. -/
theorem selectionInv_of_switch (hi : SelectionInv b content p) {s' : CacheState δ} {slot : UInt8}
    (hslot : slot ≤ 1) (hf : Frame p.state.cache s'.cache p.state.storage s'.storage)
    (hann : s'.cache.writing = true →
      4096 + s'.cache.writeImageSize.toNat ≤ p.state.cache.slotSize.toNat)
    (hcont : content s'.storage.device = content p.state.storage.device
      ∨ Verifies b.totalSize.toNat (content p.state.storage.device) (p.state.cache.slotOffset slot)
        ∧ content s'.storage.device
          = markedBootable b (content p.state.storage.device) (p.state.cache.slotOffset slot)) :
    SelectionInv b content { p with state := s' } := by
  refine selectionInv_of_frame hi hf hann (fun ht => ?_)
  rcases hcont with hcont | ⟨hv, hcont⟩
  · rw [hcont]
    exact hi.slotA ht
  · rw [hcont]
    exact slotAWhole_marked hi.layout hi.reserve hslot hv (hi.slotA ht)

theorem selectionInv_activateSlot (hr : b.Reliable content) (hi : SelectionInv b content p)
    {slot : UInt8} {s' : CacheState δ} (h : cacheStep p.state (.activateSlot slot) = some s') :
    SelectionInv b content { p with state := s' } := by
  obtain ⟨ok, hcall⟩ := activateSlot_step h
  have hf := activateSlot_frame hcall
  obtain ⟨d, hsm, ⟨_, hfc, hcont⟩ | ⟨_, hslot, hfc, hv, hcont⟩⟩ :=
    activateSlot_reliable hr hi.layout.sector_pos hcall hi.backend
  · exact selectionInv_of_switch hi (inactiveSlot_le s'.cache) hf (by rw [hfc]; exact hi.announced)
      (Or.inl (by rw [hsm]; exact hcont))
  · exact selectionInv_of_switch hi hslot hf (by rw [hfc]; exact hi.announced)
      (Or.inr ⟨hv, by rw [hsm]; exact hcont⟩)

theorem selectionInv_rollback (hr : b.Reliable content) (hi : SelectionInv b content p)
    {s' : CacheState δ} (h : cacheStep p.state .rollback = some s') :
    SelectionInv b content { p with state := s' } := by
  obtain ⟨ok, hcall⟩ := rollback_step h
  have hf := rollback_frame hcall
  have hslot := inactiveSlot_le p.state.cache
  obtain ⟨d, hsm, ⟨_, hfc, hcont⟩ | ⟨_, hfc, hv, hcont⟩⟩ :=
    rollback_reliable hr hi.layout.sector_pos hcall hi.backend
  · exact selectionInv_of_switch hi hslot hf (by rw [hfc]; exact hi.announced)
      (Or.inl (by rw [hsm]; exact hcont))
  · exact selectionInv_of_switch hi hslot hf (by rw [hfc]; exact hi.announced)
      (Or.inr ⟨hv, by rw [hsm]; exact hcont⟩)

/-- A reboot keeps the flash, and starts without a session. -/
theorem selectionInv_reboot (hr : b.Reliable content) (hi : SelectionInv b content p)
    (h : powerStep p .reboot = some p') : SelectionInv b content p' := by
  obtain ⟨d, hcont, hinit⟩ := init_readable _ hi.backend hr.toReadable {}
    p.state.cache.slotAOffset p.state.cache.slotBOffset p.state.cache.slotSize
  rw [powerStep, hinit] at h
  rw [← Option.some.inj h]
  refine selectionInv_of_frame hi ⟨⟨rfl, rfl, rfl⟩, d, rfl⟩ (fun hw => absurd hw (by simp)) ?_
  intro ht
  dsimp only
  rw [hcont]
  exact hi.slotA ht

/-- **Every permitted step keeps the invariant.** -/
theorem selectionInv_step (hr : b.Reliable content) {op : PowerOp} (hi : SelectionInv b content p)
    (hc : Sheltered b content p op) (h : powerStep p op = some p') :
    SelectionInv b content p' := by
  cases op with
  | reboot => exact selectionInv_reboot hr hi h
  | call op =>
    obtain ⟨s', hs, hp'⟩ := Option.map_eq_some_iff.mp h
    rw [← hp']
    cases op with
    | session op =>
      cases op with
      | beginWrite imageSize version =>
        rw [← Option.some.inj hs]
        exact selectionInv_beginWrite hi imageSize version
      | writeChunk data => exact selectionInv_writeChunk hr hi hc hs
      | finalizeWrite => exact selectionInv_finalizeWrite hr hi hs
    | verify slot =>
      rw [← Option.some.inj hs]
      exact selectionInv_verify hr hi slot
    | activateSlot slot => exact selectionInv_activateSlot hr hi hs
    | rollback => exact selectionInv_rollback hr hi hs

/-- With the invariant, a sheltered reboot selects a slot that passes. -/
theorem selectsVerified_of_inv (hr : b.Reliable content) {op : PowerOp}
    (hi : SelectionInv b content p) (hc : Sheltered b content p op) : SelectsVerified p op := by
  cases op with
  | call op => trivial
  | reboot =>
    intro p' h
    have hi' := selectionInv_reboot hr hi h
    obtain ⟨d, hcont, hinit⟩ := init_readable _ hi.backend hr.toReadable {}
      p.state.cache.slotAOffset p.state.cache.slotBOffset p.state.cache.slotSize
    rw [powerStep, hinit] at h
    have hp' := Option.some.inj h
    have hmem : content p'.state.storage.device = content p.state.storage.device := by
      rw [← hp']
      exact hcont
    have hA : p'.state.cache.slotOffset 0 = p.state.cache.slotAOffset := by rw [← hp']; rfl
    have hB : p'.state.cache.slotOffset 1 = p.state.cache.slotBOffset := by rw [← hp']; rfl
    have hverify : ∀ slot, slot ≤ 1 → ((p'.state.cache.verify p'.state.storage slot).1 = true
        ↔ Verifies b.totalSize.toNat (content p.state.storage.device)
          (p'.state.cache.slotOffset slot)) := by
      intro slot hslot
      rw [verify_iff _ hi'.backend hr.toReadable _ hslot, hmem]
    rw [ActiveVerifies, hverify 0 (by decide), hverify 1 (by decide), hA, hB]
    intro hone
    by_cases hFA : Flagged b.totalSize.toNat (content p.state.storage.device)
        p.state.cache.slotAOffset
    · -- slot A is preferred, and is whole unless nothing else was
      have hact : p'.state.cache.activeSlot = 0 := by rw [← hp']; exact if_pos hFA
      rw [hact, hverify 0 (by decide), hA]
      rcases hc with ht | hnF | hnV
      · exact (hi.slotA ht hFA).1
      · exact absurd hFA hnF
      · exact hone.resolve_right hnV
    · -- slot A is not flagged, so slot B is the one that passes
      have hVB := hone.resolve_left (fun hv => hFA hv.1)
      have hact : p'.state.cache.activeSlot = 1 := by
        rw [← hp']
        exact (if_neg hFA).trans (if_pos hVB.1)
      rw [hact, hverify 1 (by decide), hB]
      exact hVB

end Steps

/-! ## The theorem -/

/--
**Slot selection survives power losses outside the dangerous window.** Start without an open
session, with slot A whole or not flagged, over a reliable flash. In any run of sessions,
verifications, switches and power losses that is sheltered, every reboot selects a slot that
passes `verify` if either does.
-/
theorem selection_after_power_loss (content : δ → Nat → UInt8) {b : FlashBackend δ}
    (hr : b.Reliable content) {p : PowerState δ} (hb : p.state.storage.backend = some b)
    (hl : Layout p.state.cache b) (hres : HeaderReserve p.state.cache b)
    (hw : p.state.cache.writing = false)
    (hA : SlotAWhole b.totalSize.toNat (content p.state.storage.device) p.state.cache)
    {ops : List PowerOp} (hc : Along powerStep (Sheltered b content) p ops) :
    Along powerStep SelectsVerified p ops :=
  along_of_invariant (SelectionInv b content)
    (fun _ _ _ hi hc h => selectionInv_step hr hi hc h)
    (fun _ _ hi hc => selectsVerified_of_inv hr hi hc)
    ⟨hb, hl, hres, fun h => absurd (hw.symm.trans h) (by simp), fun _ => hA⟩ hc

/-- A session into slot B may be cut off anywhere: slot A stays selected. -/
theorem selection_after_cut_into_slotB :
    Along powerStep SelectsVerified
      { state :=
          { cache := testCache
            storage :=
              { testStorage with device := withImage testStorage.device 0x1000 0 [1] } } }
      [.call (.session (.beginWrite 2 1)), .call (.session (.writeChunk [3, 4])), .reboot] :=
  selection_after_power_loss id testFlash_reliable rfl (testCache_layout rfl rfl)
    ⟨by decide, by decide⟩ rfl (fun _ => by decide) (by decide)

/--
The history of a device with a blank flash: an update into slot B and the switch to it, an
update into slot A, and a third one, into slot A again, cut off after its first chunk.
-/
def cutIntoSlotA : List PowerOp :=
  [.call (.session (.beginWrite 1 1)), .call (.session (.writeChunk [2])),
    .call (.session .finalizeWrite), .call (.activateSlot 1),
    .call (.session (.beginWrite 1 2)), .call (.session (.writeChunk [1])),
    .call (.session .finalizeWrite),
    .call (.session (.beginWrite 2 3)), .call (.session (.writeChunk [3, 4]))]

/--
**A session into slot A that is cut off loses the running image.** After the power loss
`init` selects slot A, which does not pass `verify`, although slot B does.
-/
theorem selection_lost_after_cut_into_slotA :
    ¬ Along powerStep SelectsVerified { state := { cache := testCache, storage := testStorage } }
      (cutIntoSlotA ++ [.reboot]) := by
  intro h
  have hend : ((run powerStep { state := { cache := testCache, storage := testStorage } }
      cutIntoSlotA).bind fun p => (powerStep p .reboot).map fun p' =>
        ((p'.state.cache.verify p'.state.storage 1).1,
          (p'.state.cache.verify p'.state.storage p'.state.cache.activeSlot).1))
      = some (true, false) := by decide
  obtain ⟨p, hrun, hlast⟩ := Option.bind_eq_some_iff.mp hend
  obtain ⟨p', hp', hres⟩ := Option.map_eq_some_iff.mp hlast
  obtain ⟨hB, hactive⟩ := Prod.mk.inj hres
  have hsel : SelectsVerified p .reboot := along_last _ h hrun
  have := hsel p' hp' (Or.inr hB)
  rw [hactive] at this
  exact absurd this (by decide)

end TaktOS.Proof
