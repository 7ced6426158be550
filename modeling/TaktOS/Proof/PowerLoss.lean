import TaktOS.Proof.ImageRuns

/-!
# Power losses inside a call

`SlotSelection` loses the power between calls. Here it goes in the middle of one, between any two
operations of the flash: the sectors erased by then stay erased, and what was to follow is not
written. After that `init` runs again.

A header write that is cut off leaves the header it found, or none, or the new one; a chunk leaves
the headers. So the slot that was active is as it was, and what is to be asked is only that the
other is not preferred to it for a header that its body does not go with.
-/

namespace TaktOS.Proof

open Lib

variable {δ : Type}

/-! ## Losing the power -/

/-- A call that ends or a reboot; or a call in which the power is lost. -/
inductive LossOp where
  | on (op : PowerOp)
  /-- Of the writes and erases of the call, those listed as true do not happen any more. -/
  | lost (fails : List Bool) (op : CacheOp)

/-- The cache over its flash as the power goes. -/
def dying (s : CacheState δ) (fails : List Bool) : CacheState (δ × List Bool) where
  cache := s.cache
  storage :=
    { target := s.storage.target
      backend := s.storage.backend.map failing
      device := (s.storage.device, fails) }

def lossStep (s : CacheState δ) : LossOp → Option (CacheState δ)
  | .on op => silent imageStep s op
  | .lost fails op =>
    -- what the call did to the cache is lost with the RAM
    (cacheStep (dying s fails) op).bind fun s' =>
      let storage := { s.storage with device := s'.storage.device.1 }
      silent imageStep { s with storage } .reboot

section Condition

variable (b : FlashBackend δ) (content : δ → Nat → UInt8) (s : CacheState δ)

/-- What lies in the body of the inactive slot has the CRC of what the session was given. -/
def BodyMatches : Prop :=
  Crc32.compute (slice (content s.storage.device)
      (s.cache.slotOffset s.cache.inactiveSlot + kHeaderReserved).toNat
      s.cache.writeImageSize.toNat)
    = Crc32.finalize s.cache.writeCrc

instance : Decidable (BodyMatches content s) := inferInstanceAs (Decidable (_ = _))

/--
What the call may leave of the inactive slot is no trap. While slot B is active, no chunk goes
under a flagged header of slot A, and no header over a body that is not whole; and the header of
the active slot is not rewritten.
-/
def NoTrap : CacheOp → Prop
  | .session (.writeChunk _) =>
    s.cache.writing = true → s.cache.activeSlot = 1 →
      ¬ Flagged b.totalSize.toNat (content s.storage.device) s.cache.slotAOffset
  | .session .finalizeWrite =>
    s.cache.writing = true → s.cache.activeSlot = 1 → BodyMatches content s
  | .activateSlot slot => slot ≠ s.cache.activeSlot
  | _ => True

instance : ∀ op, Decidable (NoTrap b content s op)
  | .session (.beginWrite _ _) => isTrue trivial
  | .session (.writeChunk _) => inferInstanceAs (Decidable (_ → _ → ¬ _))
  | .session .finalizeWrite => inferInstanceAs (Decidable (_ → _ → _))
  | .verify _ => isTrue trivial
  | .activateSlot _ => inferInstanceAs (Decidable (_ ≠ _))
  | .rollback => isTrue trivial

/-- The power may be lost in the call. -/
structure MayBeLost (op : CacheOp) : Prop where
  fits : Fits b s (.call op)
  notMisled : ¬ MisledBySlotA b content s
  noTrap : NoTrap b content s op

instance (op : CacheOp) : Decidable (MayBeLost b content s op) :=
  decidable_of_iff (Fits b s (.call op) ∧ ¬ MisledBySlotA b content s ∧ NoTrap b content s op)
    ⟨fun h => ⟨h.1, h.2.1, h.2.2⟩, fun h => ⟨h.fits, h.notMisled, h.noTrap⟩⟩

/-- The condition on each step. -/
def BearsLoss : LossOp → Prop
  | .on op => KeepsActive b content s op
  | .lost _ op => MayBeLost b content s op

instance : ∀ op, Decidable (BearsLoss b content s op)
  | .on op => inferInstanceAs (Decidable (KeepsActive b content s op))
  | .lost _ op => inferInstanceAs (Decidable (MayBeLost b content s op))

end Condition

/-! ## What a call leaves that is cut short -/

/-- A header write that is cut short leaves the header it found, or the new one, or none. -/
inductive HeaderLeft (S : Nat) (m : Nat → UInt8) (off : UInt32) (hdr : FirmwareHeader)
    (m' : Nat → UInt8) : Prop where
  | same (h : m' = m)
  | written (h : m' = program S erased m off.toNat hdr.toBytes)
  | gone (hfirst : m' off.toNat = erased)
      (hrest : ∀ a, a < off.toNat ∨ off.toNat + 4096 ≤ a → m' a = m a)

/-- What the flash can hold after the call. -/
inductive Left (S total : Nat) (fc : FirmwareCache) (m : Nat → UInt8) :
    CacheOp → (Nat → UInt8) → Prop where
  | same {op : CacheOp} : Left S total fc m op m
  | chunk {data : List UInt8} {m' : Nat → UInt8} (hw : fc.writing = true)
      (hactive : AgreeOn (fc.slotOffset fc.activeSlot).toNat
        ((fc.slotOffset fc.activeSlot).toNat + fc.slotSize.toNat) m m')
      (hheader : AgreeOn (fc.slotOffset fc.inactiveSlot).toNat
        ((fc.slotOffset fc.inactiveSlot).toNat + headerSize) m m') :
      Left S total fc m (.session (.writeChunk data)) m'
  | session {m' : Nat → UInt8} (hw : fc.writing = true)
      (h : HeaderLeft S m (fc.slotOffset fc.inactiveSlot) (fc.sessionHeader fc.inactiveSlot) m') :
      Left S total fc m (.session .finalizeWrite) m'
  | activation {slot : UInt8} {m' : Nat → UInt8} (hslot : slot ≤ 1)
      (hv : Verifies total m (fc.slotOffset slot))
      (h : HeaderLeft S m (fc.slotOffset slot) (bootable (storedHeader m (fc.slotOffset slot)))
        m') :
      Left S total fc m (.activateSlot slot) m'
  | rollback {m' : Nat → UInt8} (hv : Verifies total m (fc.slotOffset fc.inactiveSlot))
      (h : HeaderLeft S m (fc.slotOffset fc.inactiveSlot)
        (bootable (storedHeader m (fc.slotOffset fc.inactiveSlot))) m') :
      Left S total fc m .rollback m'

section Fallible

variable {b : FlashBackend δ} {content : δ → Nat → UInt8} {s : CacheState δ}

/-- Failed or not, a write leaves what lies outside the sectors of its range. -/
theorem write_leaves (hf : b.Framed content) {sm sm' : StorageManager δ}
    (hb : sm.backend = some b) (hS : 0 < b.sectorSize.toNat) {offset : UInt32} {buf : List UInt8}
    {lo hi : Nat} (h0 : 0 < offset.toNat + buf.length) (hhi : hi ≤ b.totalSize.toNat)
    (hlo : lo ≤ blockFloor b.sectorSize.toNat offset.toNat)
    (hceil : blockCeil b.sectorSize.toNat (offset.toNat + buf.length) ≤ hi) {r : Int}
    (h : sm.write offset buf = some (r, sm')) {a : Nat} (ha : a < lo ∨ hi ≤ a) :
    content sm'.device a = content sm.device a :=
  write_keeps hb (hf.keeps lo hi (content sm.device)) hS
    (Nat.lt_of_le_of_lt hhi b.totalSize.toNat_lt)
    (fun _ => ⟨h0, fun _ h1 h2 => ⟨Nat.le_trans hlo h1, Nat.lt_of_lt_of_le h2 hceil⟩⟩) h
    (fun _ _ => rfl) a ha

/-- A write inside the flash returns. -/
theorem write_fallible_returns (hr : b.Fallible content) (sm : StorageManager δ)
    (hb : sm.backend = some b) (hS : 0 < b.sectorSize.toNat) (offset : UInt32) (buf : List UInt8)
    (h0 : 0 < offset.toNat + buf.length) (h : offset.toNat + buf.length ≤ b.totalSize.toNat) :
    ∃ r d, sm.write offset buf = some (r, { sm with device := d }) := by
  obtain ⟨e, he, hs, -, -, hwrite⟩ := write_sectors sm hb hS h0 h
  have hlt := e.toNat_lt
  obtain ⟨ok, d, hloop, -⟩ := eraseLoop_fallible hr hS he (2 ^ 32)
    (s := offset / b.sectorSize) (d := sm.device) hs (by
      have hmul := Nat.mul_le_mul_left e.toNat hS
      have htot := b.totalSize.toNat_lt
      omega)
  rw [hwrite, hloop]
  cases ok with
  | false => exact ⟨_, _, rfl⟩
  | true => exact ⟨_, _, rfl⟩

/-- A header write. -/
theorem headerWrite_left (hr : b.Fallible content) (hf : b.Framed content)
    (hc : b.Clean content) (hs : Sited b s) {sm sm' : StorageManager δ}
    (hb : sm.backend = some b) {slot : UInt8} {hdr : FirmwareHeader} {r : Int}
    (h : sm.write (s.cache.slotOffset slot) hdr.toBytes = some (r, sm')) :
    HeaderLeft b.sectorSize.toNat (content sm.device) (s.cache.slotOffset slot) hdr
      (content sm'.device) := by
  have hS := hs.layout.sector_pos
  have hin := hs.layout.inside slot
  have hroom := hs.reserve.room
  have hlen : hdr.toBytes.length = 24 := rfl
  have hend : (s.cache.slotOffset slot).toNat + hdr.toBytes.length ≤ b.totalSize.toNat := by omega
  by_cases hneg : r < 0
  · rcases write_failed_clean sm hr hc hb hS (hs.layout.aligned slot) (by omega) (by omega) hend h
      hneg with ⟨-, hsame⟩ | ⟨-, hfirst⟩
    · exact .same hsame
    · refine .gone hfirst fun a ha => ?_
      refine write_leaves hf hb hS (by omega) (by omega)
        (le_blockFloor (hs.layout.aligned slot) (Nat.le_refl _)) ?_ h ha
      rw [hlen, blockCeil_add hS (hs.layout.aligned slot)]
      exact Nat.add_le_add_left hs.reserve.sectors _
  · obtain ⟨r', d, hw, hok⟩ := write_fallible sm hr hb hS (s.cache.slotOffset slot) hdr.toBytes
      (by omega) hend
    obtain ⟨rfl, rfl⟩ := Prod.mk.inj (Option.some.inj (h.symm.trans hw))
    exact .written (hok (Int.not_lt.mp hneg))

/-- `activateSlot` of a slot that is there. -/
theorem activateSlot_left (hr : b.Fallible content) (hf : b.Framed content)
    (hc : b.Clean content) (hs : Sited b s) {sm : StorageManager δ} (hb : sm.backend = some b)
    (slot : UInt8) :
    ∃ ok fc' sm', s.cache.activateSlot sm slot = some (ok, fc', sm')
      ∧ (content sm'.device = content sm.device
        ∨ slot ≤ 1
          ∧ Verifies b.totalSize.toNat (content sm.device) (s.cache.slotOffset slot)
          ∧ HeaderLeft b.sectorSize.toNat (content sm.device) (s.cache.slotOffset slot)
              (bootable (storedHeader (content sm.device) (s.cache.slotOffset slot)))
              (content sm'.device)) := by
  have hS := hs.layout.sector_pos
  by_cases hacc : slot ≤ 1 ∧ (s.cache.verify sm slot).1 = true
  · obtain ⟨r, d, hw, -⟩ := markWrite_returns s.cache sm hr hb hS hacc.1 hacc.2
    obtain ⟨d', hread, hcont⟩ := readBack_spec s.cache sm hr.toReadable hb slot
    refine ⟨_, _, _, activateSlot_accepts s.cache sm hr.toReadable hb hacc.1 hacc.2 hw,
      .inr ⟨hacc.1, (verify_iff sm hb hr.toReadable s.cache hacc.1).mp hacc.2, ?_⟩⟩
    rw [markWrite, hread] at hw
    have hback : ({ sm with device := d' } : StorageManager δ).backend = some b := hb
    have hleft := headerWrite_left hr hf hc hs hback hw
    dsimp only at hleft
    rw [hcont] at hleft
    exact hleft
  · obtain ⟨d, hcall, hcont⟩ := activateSlot_refuses s.cache sm hr.toReadable hb hacc
    exact ⟨_, _, _, hcall, .inl hcont⟩

/-- **What a call can leave**, of whose operations some do nothing. -/
theorem call_left (hr : b.Fallible content) (hf : b.Framed content) (hc : b.Clean content)
    (hs : Sited b s)
    (hoffset : s.cache.writing = true →
      4096 ≤ s.cache.writeOffset.toNat ∧ s.cache.writeOffset.toNat ≤ s.cache.slotSize.toNat)
    {op : CacheOp} (hfits : Fits b s (.call op)) :
    ∃ s', cacheStep s op = some s'
      ∧ Left b.sectorSize.toNat b.totalSize.toNat s.cache (content s.storage.device) op
        (content s'.storage.device) := by
  have hS := hs.layout.sector_pos
  have hin := hs.layout.inside s.cache.inactiveSlot
  have hroom := hs.reserve.room
  cases op with
  | session op =>
    cases op with
    | beginWrite imageSize version => exact ⟨_, rfl, .same⟩
    | writeChunk data =>
      cases hw : s.cache.writing with
      | false =>
        refine ⟨s, ?_, .same⟩
        rw [cacheStep, sessionStep, writeChunk_closed hw]
        rfl
      | true =>
        obtain ⟨hlo, hhi⟩ := hoffset hw
        have hceil := (hfits hw).1
        have hend := le_blockCeil hS (s.cache.writeOffset.toNat + data.length)
        have hoff := chunkOffset_toNat hs.layout hhi
        obtain ⟨r, d, hwr⟩ := write_fallible_returns hr s.storage hs.backend hS
          (chunkOffset s.cache) data (by omega) (by omega)
        -- the sectors of the chunk are in the body
        have hleft : ∀ a, a < (s.cache.slotOffset s.cache.inactiveSlot).toNat + 4096
            ∨ (s.cache.slotOffset s.cache.inactiveSlot).toNat + s.cache.slotSize.toNat ≤ a →
            content s.storage.device a = content d a := by
          intro a ha
          refine (write_leaves hf hs.backend hS (by omega) hin ?_ ?_ hwr ha).symm
          · rw [hoff]
            exact le_blockFloor ((Nat.dvd_add (hs.layout.aligned _) hs.sectors)) (by omega)
          · rw [hoff, Nat.add_assoc, blockCeil_add hS (hs.layout.aligned _)]
            omega
        refine ⟨⟨if r < 0 then s.cache else accepted s.cache data, { s.storage with device := d }⟩,
          ?_, .chunk hw (fun a h1 h2 => ?_)
            fun a h1 h2 => hleft a (.inl (by unfold headerSize at h2; omega))⟩
        · rw [cacheStep, sessionStep, writeChunk_open hw hwr]
          by_cases hneg : r < 0
          · rw [if_pos hneg, if_pos hneg]
            rfl
          · rw [if_neg hneg, if_neg hneg]
            rfl
        · refine hleft a ?_
          have hdisj := hs.layout.disjoint
          rcases slotOffset_inactive s.cache with ⟨hi, ha⟩ | ⟨hi, ha⟩
          · rw [ha] at h1 h2
            rw [hi]
            omega
          · rw [ha] at h1 h2
            rw [hi]
            omega
    | finalizeWrite =>
      cases hw : s.cache.writing with
      | false =>
        refine ⟨s, ?_, .same⟩
        rw [cacheStep, sessionStep, FirmwareCache.finalizeWrite, hw]
        rfl
      | true =>
        obtain ⟨r, d, hwr⟩ := write_fallible_returns hr s.storage hs.backend hS
          (s.cache.slotOffset s.cache.inactiveSlot)
          (s.cache.sessionHeader s.cache.inactiveSlot).toBytes
          (by rw [FirmwareHeader.length_toBytes]; omega)
          (by rw [FirmwareHeader.length_toBytes]; omega)
        obtain ⟨ok, d', hfin, hcont, -⟩ := finalizeWrite_answer s.storage hs.backend hr.toReadable
          s.cache hw hwr
        refine ⟨{ cache := closed s.cache, storage := { s.storage with device := d' } }, ?_,
          .session hw ?_⟩
        · rw [cacheStep, sessionStep, hfin]
          rfl
        · show HeaderLeft _ _ _ _ (content d')
          rw [hcont]
          exact headerWrite_left hr hf hc hs hs.backend hwr
  | verify slot =>
    obtain ⟨d, hd, hcont⟩ := verify_after s.storage
      (readKeeps_content hs.backend hr.toReadable (content s.storage.device)) rfl s.cache slot
    refine ⟨_, rfl, ?_⟩
    rw [hd]
    show Left _ _ _ _ _ (content d)
    rw [hcont]
    exact .same
  | activateSlot slot =>
    obtain ⟨ok, fc', sm', hcall, hleft⟩ := activateSlot_left hr hf hc hs hs.backend slot
    refine ⟨{ cache := fc', storage := sm' }, by rw [cacheStep, hcall]; rfl, ?_⟩
    rcases hleft with hcont | ⟨hslot, hv, hleft⟩
    · show Left _ _ _ _ _ (content sm'.device)
      rw [hcont]
      exact .same
    · exact .activation hslot hv hleft
  | rollback =>
    obtain ⟨d, hd, hcont⟩ := verify_after s.storage
      (readKeeps_content hs.backend hr.toReadable (content s.storage.device)) rfl s.cache
      s.cache.inactiveSlot
    cases hv : (s.cache.verify s.storage s.cache.inactiveSlot).1 with
    | false =>
      obtain ⟨d', hcall, hcont'⟩ := rollback_refused hr.toReadable hs.backend hv
      refine ⟨{ cache := s.cache, storage := { s.storage with device := d' } },
        by rw [cacheStep, hcall]; rfl, ?_⟩
      show Left _ _ _ _ _ (content d')
      rw [hcont']
      exact .same
    | true =>
      have hback : ({ s.storage with device := d } : StorageManager δ).backend = some b :=
        hs.backend
      obtain ⟨ok, fc', sm', hcall, hleft⟩ :=
        activateSlot_left hr hf hc hs hback s.cache.inactiveSlot
      refine ⟨{ cache := fc', storage := sm' }, ?_, ?_⟩
      · rw [cacheStep, FirmwareCache.rollback]
        dsimp only
        rw [hv, hd, hcall]
        rfl
      · dsimp only at hleft
        rw [hcont] at hleft
        rcases hleft with hsame | ⟨-, hver, hleft⟩
        · show Left _ _ _ _ _ (content sm'.device)
          rw [hsame]
          exact .same
        · exact .rollback hver hleft

end Fallible

/-! ## What it leaves is no trap -/

section Spared

variable {b : FlashBackend δ} {content : δ → Nat → UInt8} {s : CacheState δ}
  {t : TwoBanks UInt32 UInt8}

/-- A flash on which `init` finds an image, if the active slot held one before. -/
structure Spared (total : Nat) (fc : FirmwareCache) (m m' : Nat → UInt8) : Prop where
  kept : AgreeOn (fc.slotOffset fc.activeSlot).toNat
    ((fc.slotOffset fc.activeSlot).toNat + fc.slotSize.toNat) m m'
  images : ImagesFit total m' fc
  chosen : fc.activeSlot = 1 → Flagged total m' fc.slotAOffset → Verifies total m' fc.slotAOffset

/-- A flagged slot A is whole while slot B is active. -/
theorem verifies_of_not_misled (hm : ¬ MisledBySlotA b content s) (hact : s.cache.activeSlot = 1)
    (hF : Flagged b.totalSize.toNat (content s.storage.device) s.cache.slotAOffset) :
    Verifies b.totalSize.toNat (content s.storage.device) s.cache.slotAOffset :=
  Decidable.byContradiction fun hv => hm ⟨hact, hF, hv⟩

/-- A header write to the slot that is not active. -/
theorem headerLeft_spared (h : Represents b content s t) (hm : ¬ MisledBySlotA b content s)
    {slot : UInt8} (hslot : slot ≤ 1) (hne : slot ≠ s.cache.activeSlot) {hdr : FirmwareHeader}
    (hsize : 4096 + hdr.size.toNat ≤ s.cache.slotSize.toNat)
    (hwhole : s.cache.activeSlot = 1 → Verifies b.totalSize.toNat
      (program b.sectorSize.toNat erased (content s.storage.device)
        (s.cache.slotOffset slot).toNat hdr.toBytes) (s.cache.slotOffset slot))
    {m' : Nat → UInt8}
    (hl : HeaderLeft b.sectorSize.toNat (content s.storage.device) (s.cache.slotOffset slot) hdr
      m') : Spared b.totalSize.toNat s.cache (content s.storage.device) m' := by
  have hroom := h.reserve.room
  have hS := h.layout.sector_pos
  have hactive : s.cache.activeSlot ≤ 1 := by rw [h.active]; exact slotOf_le _
  have hslotA : s.cache.activeSlot = 1 → s.cache.slotOffset slot = s.cache.slotAOffset := by
    intro hact
    rcases le_one_cases hslot with rfl | rfl
    · rfl
    · exact absurd hact.symm hne
  cases hl with
  | same hsame =>
    rw [hsame]
    exact ⟨.refl _ _ _, h.images, verifies_of_not_misled hm⟩
  | written hw =>
    have hmiss : ∀ x ≤ 1, x ≠ slot → AgreeOn (s.cache.slotOffset x).toNat
        ((s.cache.slotOffset x).toNat + s.cache.slotSize.toNat) (content s.storage.device) m' := by
      intro x hx hxs
      rw [hw]
      exact agreeOn_sectorsMiss hS (header_misses_other h.layout h.reserve hslot hx hxs)
    refine ⟨hmiss _ hactive hne.symm, ?_, fun hact _ => ?_⟩
    · refine h.images.congr ⟨rfl, rfl, rfl⟩ fun x hx => ?_
      by_cases hxs : x = slot
      · subst hxs
        right
        rw [hw, storedHeader_program]
        exact hsize
      · exact .inl ((hmiss x hx hxs).mono (Nat.le_refl _) (by unfold headerSize; omega))
    · rw [hw, ← hslotA hact]
      exact hwhole hact
  | gone hfirst hrest =>
    -- the reserve of the slot is all that changed, and there is no header in it
    have hmiss : ∀ x ≤ 1, x ≠ slot → AgreeOn (s.cache.slotOffset x).toNat
        ((s.cache.slotOffset x).toNat + s.cache.slotSize.toNat) (content s.storage.device) m' := by
      intro x hx hxs a h1 h2
      refine (hrest a ?_).symm
      have hdisj := h.layout.disjoint
      have hA : s.cache.slotOffset 0 = s.cache.slotAOffset := rfl
      have hB : s.cache.slotOffset 1 = s.cache.slotBOffset := rfl
      rcases le_one_cases hslot with rfl | rfl <;> rcases le_one_cases hx with rfl | rfl
      · exact absurd rfl hxs
      · rw [hA]; rw [hB] at h1 h2; omega
      · rw [hB]; rw [hA] at h1 h2; omega
      · exact absurd rfl hxs
    refine ⟨hmiss _ hactive hne.symm, fun x hx hF => ?_, fun hact hF => ?_⟩
    · by_cases hxs : x = slot
      · subst hxs
        exact absurd hF (not_flagged_erased hfirst)
      · have hagree := (hmiss x hx hxs).mono (Nat.le_refl _)
          (show (s.cache.slotOffset x).toNat + headerSize ≤ _ by unfold headerSize; omega)
        rw [← storedHeader_congr hagree]
        exact h.images x hx ((flagged_congr hagree).mpr hF)
    · rw [← hslotA hact] at hF
      exact absurd hF (not_flagged_erased hfirst)

/-- The header of a session whose body matches. -/
theorem verifies_of_matches (h : Represents b content s t) (hw : s.cache.writing = true)
    (hmatch : BodyMatches content s) :
    Verifies b.totalSize.toNat
      (program b.sectorSize.toNat erased (content s.storage.device)
        (s.cache.slotOffset s.cache.inactiveSlot).toNat
        (s.cache.sessionHeader s.cache.inactiveSlot).toBytes)
      (s.cache.slotOffset s.cache.inactiveSlot) := by
  obtain ⟨u, hu⟩ := h.writing_iff.mp hw
  have hup := h.upload u hu
  have hfit := hup.room
  have hin := h.layout.inside s.cache.inactiveSlot
  have htot := b.totalSize.toNat_lt
  have hbody := bodyOffset_toNat (s.cache.slotOffset s.cache.inactiveSlot) (by omega)
  rw [← hup.announced] at hfit
  have hslice := slice_congr ((header_misses_bodies h.layout h.reserve (inactiveSlot_le s.cache)
    (inactiveSlot_le s.cache) (content s.storage.device)
    (s.cache.sessionHeader s.cache.inactiveSlot)).mono (Nat.le_refl _)
    (show (s.cache.slotOffset s.cache.inactiveSlot).toNat + 4096
      + s.cache.writeImageSize.toNat ≤ _ by omega))
  refine ⟨sessionHeader_flagged _ _ _ _ (by unfold headerSize; omega), .inr ?_, ?_⟩
  · rw [storedHeader_program, hbody]
    show _ + s.cache.writeImageSize.toNat ≤ _
    omega
  · rw [storedHeader_program, hbody]
    show Crc32.compute (slice _ _ s.cache.writeImageSize.toNat) = Crc32.finalize s.cache.writeCrc
    rw [← hslice, ← hbody]
    exact hmatch

/-- A slot that exists is the inactive one or the active one. -/
theorem slotOf_inactive_or_active (h : Represents b content s t) {slot : UInt8} (hslot : slot ≤ 1) :
    slot = s.cache.inactiveSlot ∨ slot = s.cache.activeSlot := by
  obtain ⟨x, rfl⟩ := exists_slotOf hslot
  rw [h.free, h.active]
  rcases Bank.eq_or_other t.active x with rfl | rfl
  · exact .inr rfl
  · exact .inl rfl

/-- **Whatever the call leaves, it is no trap.** -/
theorem left_spared (h : Represents b content s t) {op : CacheOp}
    (hlose : MayBeLost b content s op) {m' : Nat → UInt8}
    (hl : Left b.sectorSize.toNat b.totalSize.toNat s.cache (content s.storage.device) op m') :
    Spared b.totalSize.toNat s.cache (content s.storage.device) m' := by
  have hroom := h.reserve.room
  have hne : s.cache.inactiveSlot ≠ s.cache.activeSlot := by
    rw [h.free, h.active]
    exact fun heq => Bank.other_ne _ (slotOf_injective heq)
  -- while slot B is active, a slot marked bootable is slot A, and whole
  have hmarked : ∀ {slot : UInt8}, Verifies b.totalSize.toNat (content s.storage.device)
      (s.cache.slotOffset slot) → slot ≤ 1 →
      4096 + (storedHeader (content s.storage.device) (s.cache.slotOffset slot)).size.toNat
          ≤ s.cache.slotSize.toNat
        ∧ Verifies b.totalSize.toNat
          (markedBootable b (content s.storage.device) (s.cache.slotOffset slot))
          (s.cache.slotOffset slot) := by
    intro slot hver hslot
    have hin := h.layout.inside slot
    have htot := b.totalSize.toNat_lt
    exact ⟨h.images slot hslot hver.1, verifies_marked h.layout.sector_pos
      (h.layout.aligned slot) h.reserve.sectors (by omega) hver⟩
  cases hl with
  | same => exact ⟨.refl _ _ _, h.images, verifies_of_not_misled hlose.notMisled⟩
  | chunk hw hactive hheader =>
    refine ⟨hactive, h.images.congr ⟨rfl, rfl, rfl⟩ fun x hx => .inl ?_, fun hact hF => ?_⟩
    · rcases slotOf_inactive_or_active h hx with rfl | rfl
      · exact hheader
      · exact hactive.mono (Nat.le_refl _) (by unfold headerSize; omega)
    · -- slot A was not flagged, and its header is what it was
      have hfree : s.cache.slotOffset s.cache.inactiveSlot = s.cache.slotAOffset := by
        rw [FirmwareCache.inactiveSlot, hact]
        rfl
      rw [hfree] at hheader
      exact absurd ((flagged_congr hheader).mpr hF) (hlose.noTrap hw hact)
  | session hw hleft =>
    obtain ⟨u, hu⟩ := h.writing_iff.mp hw
    have hup := h.upload u hu
    refine headerLeft_spared h hlose.notMisled (inactiveSlot_le _) hne ?_ (fun hact => ?_) hleft
    · show 4096 + s.cache.writeImageSize.toNat ≤ _
      rw [hup.announced]
      exact hup.room
    · exact verifies_of_matches h hw (hlose.noTrap hw hact)
  | activation hslot hver hleft =>
    obtain ⟨hsize, hmark⟩ := hmarked hver hslot
    refine headerLeft_spared h hlose.notMisled hslot hlose.noTrap ?_ ?_ hleft
    · exact hsize
    · exact fun _ => hmark
  | rollback hver hleft =>
    obtain ⟨hsize, hmark⟩ := hmarked hver (inactiveSlot_le _)
    refine headerLeft_spared h hlose.notMisled (inactiveSlot_le _) hne ?_ ?_ hleft
    · exact hsize
    · exact fun _ => hmark

/-- After the restart the active slot holds an image. -/
theorem spared_restart (hr : b.Reliable content) (h : Represents b content s t) (hv : t.Sound)
    {d : δ} (hsp : Spared b.totalSize.toNat s.cache (content s.storage.device) (content d)) :
    ∃ s' t', silent imageStep { s with storage := { s.storage with device := d } } .reboot
        = some s'
      ∧ Represents b content s' t' ∧ t'.Sound := by
  -- a restart looks at the slots and the flash only
  let s₁ : CacheState δ := ⟨closed s.cache, { s.storage with device := d }⟩
  have hactive : s.cache.activeSlot ≤ 1 := by rw [h.active]; exact slotOf_le _
  have hrep₁ : Represents b content s₁ (storeOf b content s₁) :=
    storeOf_represents (h.toSited.step ⟨⟨rfl, rfl, rfl⟩, _, rfl⟩) hsp.images hactive rfl
  have hsound₁ : (storeOf b content s₁).Sound := by
    have hbank := h.bank_congr t.active (by rw [← h.active]; exact hsp.kept)
    have hact : bankOf s.cache.activeSlot = t.active := by rw [h.active, bankOf_slotOf]
    show (contentOf b.totalSize.toNat (content d)
      (s.cache.slotOffset (slotOf (bankOf s.cache.activeSlot)))).isImage = true
    rw [hact, hbank]
    exact hv
  have hnot : ¬ MisledBySlotA b content s₁ := fun hm => hm.2.2 (hsp.chosen hm.1 hm.2.1)
  obtain ⟨answer, s', t', hstep, hspec, hrep', -⟩ :=
    imageStep_allowed hr hrep₁ (show Fits b s₁ .reboot from trivial)
  refine ⟨s', t', ?_, hrep', hspec.1.sound hsound₁ fun _ hm => hnot (hrep₁.misled hm)⟩
  have hsame : imageStep { s with storage := { s.storage with device := d } } .reboot
      = imageStep s₁ .reboot := rfl
  rw [silent, hsame, hstep]
  rfl

end Spared

/-! ## The theorem -/

section Loss

variable {b : FlashBackend δ} {content : δ → Nat → UInt8} {s : CacheState δ}

/-- What fails changes nothing, by itself or by the pattern. -/
theorem clean_failing (hc : b.Clean content) : (failing b).Clean (fun d => content d.1) where
  write_failed := by
    intro d off buf hlen h
    simp only [failing] at h ⊢
    split at h
    · rename_i hf
      rw [if_pos hf]
    · rename_i hf
      rw [if_neg hf]
      exact hc.write_failed d.1 off buf hlen h
  erase_failed := by
    intro d off len h
    simp only [failing] at h ⊢
    split at h
    · rename_i hf
      rw [if_pos hf]
    · rename_i hf
      rw [if_neg hf]
      exact hc.erase_failed d.1 off len h

/-- A call in which the power is lost, and the restart. -/
theorem lost_spared (hr : b.Reliable content) (hf : b.Framed content) (hc : b.Clean content)
    {t : TwoBanks UInt32 UInt8} (h : Represents b content s t) (hv : t.Sound) {fails : List Bool}
    {op : CacheOp} (hlose : MayBeLost b content s op) :
    ∃ s' t', lossStep s (.lost fails op) = some s' ∧ Represents b content s' t' ∧ t'.Sound := by
  have hs : Sited (failing b) (dying s fails) := by
    obtain ⟨hback, hlayout, hreserve, hsectors⟩ := h.toSited
    obtain ⟨h1, h2, h3, h4, h5, h6⟩ := hlayout
    obtain ⟨h7, h8⟩ := hreserve
    exact ⟨by rw [dying, hback]; rfl, ⟨h1, h2, h3, h4, h5, h6⟩, ⟨h7, h8⟩, hsectors⟩
  have hfits : Fits (failing b) (dying s fails) (.call op) := hlose.fits
  obtain ⟨s₁, hstep, hleft⟩ := call_left (failing_fallible hr) (failing_framed hf)
    (clean_failing hc) hs h.upload_offset hfits
  obtain ⟨s', t', hrestart, hrep, hsound⟩ := spared_restart hr h hv (left_spared h hlose hleft)
  refine ⟨s', t', ?_, hrep, hsound⟩
  rw [lossStep, hstep]
  exact hrestart

/--
**The power may go at any moment.** Over a reliable flash whose operations are all or nothing, let
any run of the cache's calls and of reboots be given, and let the power be lost in any of the
calls, between any two operations of the flash. From a state in which the active slot verifies, the
run returns and the active slot verifies at its end, as long as chunks fit, no reboot finds slot A
flagged and torn while slot B is active, and what a call can leave is no trap.
-/
theorem survives_power_loss (hr : b.Reliable content) (hf : b.Framed content)
    (hc : b.Clean content) (hs : Sited b s)
    (hfit : ImagesFit b.totalSize.toNat (content s.storage.device) s.cache)
    (hact : s.cache.activeSlot ≤ 1) (hw : s.cache.writing = false)
    (hv : (s.cache.verify s.storage s.cache.activeSlot).1 = true) {ops : List LossOp}
    (hops : Along lossStep (BearsLoss b content) s ops) :
    ∃ s', run lossStep s ops = some s'
      ∧ (s'.cache.verify s'.storage s'.cache.activeSlot).1 = true := by
  have hrep := storeOf_represents hs hfit hact hw
  obtain ⟨s', hrun, t', hrep', hsound⟩ := run_returns_along
    (fun s : CacheState δ => ∃ t, Represents b content s t ∧ t.Sound)
    (fun s op hi hp => by
      obtain ⟨t, hrep, hsound⟩ := hi
      cases op with
      | on op =>
        have hp : KeepsActive b content s op := hp
        obtain ⟨answer, s', t', hstep, hspec, hrep', -⟩ := imageStep_allowed hr hrep hp.fits
        refine ⟨s', by rw [lossStep, silent, hstep]; rfl, t', hrep', ?_⟩
        exact hspec.1.sound hsound fun hop hm =>
          hp.not_misled (purpose_restart hop) (hrep.misled hm)
      | lost fails op =>
        obtain ⟨s', t', hstep, hrep', hsound'⟩ := lost_spared hr hf hc hrep hsound hp
        exact ⟨s', hstep, t', hrep', hsound'⟩)
    ⟨_, hrep, (hrep.sound_iff hr.toReadable).mpr hv⟩ hops
  exact ⟨s', hrun, (hrep'.sound_iff hr.toReadable).mp hsound⟩

end Loss

/-- A failed call of the test's memory changed nothing. -/
theorem memBackend_clean (kSize sectorSize : UInt32) :
    (memBackend kSize sectorSize).Clean id where
  write_failed := by
    intro d off buf hlen h
    simp only [memBackend] at h ⊢
    split at h
    · rename_i hout
      rw [if_pos hout]
    · dsimp only at h
      rw [castInt_of_lt hlen] at h
      exact absurd h (Int.not_lt.mpr (Int.natCast_nonneg _))
  erase_failed := by
    intro d off len h
    simp only [memBackend] at h ⊢
    split at h
    · rename_i hout
      rw [if_pos hout]
    · exact absurd rfl h

/--
With slot A active the power goes in a chunk after its erase, in the header write of
`finalizeWrite`, and in that of the activation.
-/
def threeLosses : List LossOp :=
  [.on (.call (.session (.beginWrite 2 1))), .lost [false, true] (.session (.writeChunk [1, 2])),
    .on (.call (.session (.beginWrite 2 1))), .on (.call (.session (.writeChunk [1, 2]))),
    .lost [false, true] (.session .finalizeWrite),
    .on (.call (.session (.beginWrite 2 1))), .on (.call (.session (.writeChunk [1, 2]))),
    .on (.call (.session .finalizeWrite)), .lost [false, true] (.activateSlot 1)]

theorem survives_power_loss_three :
    ∃ s', run lossStep
        { cache := testCache,
          storage := { testStorage with device := withImage testStorage.device 0x1000 0 [7] } }
        threeLosses = some s'
      ∧ (s'.cache.verify s'.storage s'.cache.activeSlot).1 = true :=
  survives_power_loss testFlash_reliable (memBackend_framed _ _) (memBackend_clean _ _)
    (testCache_sited _)
    (by intro slot hslot; rcases le_one_cases hslot with rfl | rfl <;> decide) (by decide) rfl
    (by decide) (by decide +kernel)

end TaktOS.Proof
