import TaktOS.Lib.TwoBanks
import TaktOS.Proof.RollbackInvolution
import TaktOS.Proof.SlotConfinement
import TaktOS.Proof.SlotSelection
import TaktOS.Proof.UpdateDelivery

/-!
# The firmware cache as a store of two images

What the dual-bank cache is for is `Lib.TwoBanks`: two images, one of them active, the other
replaced by an upload. Here every run of the cache over a reliable flash, reboots included, is a
run of that store: the slots are the banks, the sectors its blocks, and the CRC-32 the sum an
image is known by. What the flash holds gives the banks; the upload is what the session was given.

A session may send more than its slot takes, and then nothing holds. `Fits` asks of each chunk
that its sectors end in the slot.
-/

namespace TaktOS.Proof

open Lib

variable {δ : Type}

/-! ## Banks and slots -/

def slotOf (x : Bank) : UInt8 :=
  match x with
  | .a => 0
  | .b => 1

def bankOf (slot : UInt8) : Bank := if slot = 0 then .a else .b

/-- The bank that a number stands for; there is no third. -/
def bankNumbered (slot : UInt8) : Option Bank :=
  if slot = 0 then some .a else if slot = 1 then some .b else none

@[simp] theorem bankOf_slotOf (x : Bank) : bankOf (slotOf x) = x := by cases x <;> rfl

theorem slotOf_le (x : Bank) : slotOf x ≤ 1 := by cases x <;> decide

theorem slotOf_injective {x y : Bank} (h : slotOf x = slotOf y) : x = y := by
  rw [← bankOf_slotOf x, h, bankOf_slotOf]

theorem bankNumbered_slotOf (x : Bank) : bankNumbered (slotOf x) = some x := by cases x <;> rfl

theorem bankNumbered_none {slot : UInt8} (h : ¬ slot ≤ 1) : bankNumbered slot = none := by
  unfold bankNumbered
  rw [if_neg (fun h0 => h (by rw [h0]; decide)), if_neg (fun h1 => h (by rw [h1]; decide))]

/-- A slot that exists is that of a bank. -/
theorem exists_slotOf {slot : UInt8} (h : slot ≤ 1) : ∃ x : Bank, slot = slotOf x := by
  rcases le_one_cases h with rfl | rfl
  · exact ⟨.a, rfl⟩
  · exact ⟨.b, rfl⟩

theorem inactiveSlot_slotOf {fc : FirmwareCache} {x : Bank} (h : fc.activeSlot = slotOf x) :
    fc.inactiveSlot = slotOf x.other := by
  unfold FirmwareCache.inactiveSlot
  rw [h]
  cases x <;> decide

/-! ## What a slot holds -/

/-- The image a flagged header describes. -/
def imageAt (m : Nat → UInt8) (off : UInt32) : Image UInt32 UInt8 where
  version := (storedHeader m off).version
  bytes := slice m (off + kHeaderReserved).toNat (storedHeader m off).size.toNat

def contentOf (total : Nat) (m : Nat → UInt8) (off : UInt32) : BankContent UInt32 UInt8 :=
  if Verifies total m off then .image (imageAt m off)
  else if Flagged total m off then .torn
  else .blank

theorem contentOf_isImage {total : Nat} {m : Nat → UInt8} {off : UInt32} :
    (contentOf total m off).isImage = true ↔ Verifies total m off := by
  unfold contentOf
  split
  · rename_i h; exact ⟨fun _ => h, fun _ => rfl⟩
  · rename_i h
    refine ⟨fun himg => ?_, fun hv => absurd hv h⟩
    split at himg <;> exact absurd himg Bool.false_ne_true

theorem contentOf_blank {total : Nat} {m : Nat → UInt8} {off : UInt32} :
    contentOf total m off = .blank ↔ ¬ Flagged total m off := by
  unfold contentOf
  split
  · rename_i h
    exact ⟨fun hc => absurd hc (by simp), fun hF => absurd h.1 hF⟩
  · split
    · rename_i hF
      exact ⟨fun hc => absurd hc (by simp), fun hn => absurd hF hn⟩
    · rename_i hF
      exact ⟨fun _ => hF, fun _ => rfl⟩

/-- A slot that is flagged and does not verify. -/
theorem contentOf_torn {total : Nat} {m : Nat → UInt8} {off : UInt32}
    (hF : Flagged total m off) (hv : ¬ Verifies total m off) : contentOf total m off = .torn := by
  rw [contentOf, if_neg hv, if_pos hF]

theorem contentOf_image {total : Nat} {m : Nat → UInt8} {off : UInt32}
    (hv : Verifies total m off) : contentOf total m off = .image (imageAt m off) := if_pos hv

/-- What a slot holds is what two flashes that agree on the slot hold there. -/
theorem contentOf_congr {total n : Nat} {m m' : Nat → UInt8} {off : UInt32}
    (h : AgreeOn off.toNat (off.toNat + n) m m') (hn : 4096 ≤ n)
    (hw : off.toNat + n < 4294967296)
    (hfit : Flagged total m off → 4096 + (storedHeader m off).size.toNat ≤ n) :
    contentOf total m' off = contentOf total m off := by
  have hhdr : AgreeOn off.toNat (off.toNat + headerSize) m m' :=
    h.mono (Nat.le_refl _) (by unfold headerSize; omega)
  have hF : Flagged total m off ↔ Flagged total m' off := flagged_congr hhdr
  have hV := verifies_congr_slot h (by unfold headerSize; omega) hw hfit
  by_cases hv : Verifies total m off
  · have hroom := hfit hv.1
    have hoff := bodyOffset_toNat off (by omega)
    rw [contentOf_image hv, contentOf_image (hV.mp hv)]
    have hbody : slice m (off.toNat + 4096) (storedHeader m off).size.toNat
        = slice m' (off.toNat + 4096) (storedHeader m off).size.toNat :=
      slice_congr (h.mono (by omega) (by omega))
    unfold imageAt
    rw [← storedHeader_congr hhdr, hoff, hbody]
  · have hv' : ¬ Verifies total m' off := mt hV.mpr hv
    by_cases hf : Flagged total m off
    · rw [contentOf_torn hf hv, contentOf_torn (hF.mp hf) hv']
    · rw [contentOf_blank.mpr hf, contentOf_blank.mpr (mt hF.mpr hf)]

/-- A header marked bootable describes the image it described. -/
theorem contentOf_marked {b : FlashBackend δ} {total : Nat} {m : Nat → UInt8} {off : UInt32}
    (hS : 0 < b.sectorSize.toNat) (hoff : b.sectorSize.toNat ∣ off.toNat)
    (hres : blockCeil b.sectorSize.toNat headerSize ≤ 4096) (hw : off.toNat + 4096 < 4294967296)
    (hv : Verifies total m off) :
    contentOf total (markedBootable b m off) off = contentOf total m off := by
  rw [contentOf_image hv, contentOf_image (verifies_marked hS hoff hres hw hv)]
  have hend : blockCeil b.sectorSize.toNat (off.toNat + headerSize) ≤ off.toNat + 4096 := by
    rw [blockCeil_add hS hoff]
    omega
  -- the bootable bit is no part of the image
  have hbody : slice (markedBootable b m off) (off.toNat + 4096) (storedHeader m off).size.toNat
      = slice m (off.toNat + 4096) (storedHeader m off).size.toNat :=
    slice_congr (agreeOn_program hS (Or.inr (by rw [FirmwareHeader.length_toBytes]; exact hend)))
  unfold imageAt
  rw [storedHeader_marked, bodyOffset_toNat off hw]
  exact congrArg (fun bytes => BankContent.image ⟨(storedHeader m off).version, bytes⟩) hbody

/-! ## The cache with its answers -/

/-- A call or a reboot: whether it succeeded, and the cache and its storage afterwards. -/
def storeCall (s : CacheState δ) : PowerOp → Option (Bool × CacheState δ)
  | .call (.session (.beginWrite imageSize version)) =>
    let (ok, cache) := s.cache.beginWrite imageSize version
    some (ok, { s with cache })
  | .call (.session (.writeChunk data)) =>
    -- a chunk that is taken reports its length
    (s.cache.writeChunk s.storage data).map fun t =>
      (decide (t.1 = (data.length : Int)), { cache := t.2.1, storage := t.2.2 })
  | .call (.session .finalizeWrite) =>
    (s.cache.finalizeWrite s.storage).map fun t => (t.1, { cache := t.2.1, storage := t.2.2 })
  | .call (.verify slot) =>
    let (ok, storage) := s.cache.verify s.storage slot
    some (ok, { s with storage })
  | .call (.activateSlot slot) =>
    (s.cache.activateSlot s.storage slot).map fun t => (t.1, { cache := t.2.1, storage := t.2.2 })
  | .call .rollback =>
    (s.cache.rollback s.storage).map fun t => (t.1, { cache := t.2.1, storage := t.2.2 })
  | .reboot =>
    let (cache, storage) := ({} : FirmwareCache).init s.storage s.cache.slotAOffset
      s.cache.slotBOffset s.cache.slotSize
    some (true, { cache, storage })

theorem storeCall_beginWrite {s s' : CacheState δ} {imageSize version : UInt32} {ok : Bool}
    (h : storeCall s (.call (.session (.beginWrite imageSize version))) = some (ok, s')) :
    (s.cache.beginWrite imageSize version) = (ok, s'.cache) ∧ s'.storage = s.storage := by
  have h' : some ((s.cache.beginWrite imageSize version).1,
      ({ s with cache := (s.cache.beginWrite imageSize version).2 } : CacheState δ))
        = some (ok, s') := h
  rw [Option.some.injEq, Prod.mk.injEq] at h'
  obtain ⟨rfl, rfl⟩ := h'
  exact ⟨rfl, rfl⟩

theorem storeCall_verify {s s' : CacheState δ} {slot : UInt8} {ok : Bool}
    (h : storeCall s (.call (.verify slot)) = some (ok, s')) :
    (s.cache.verify s.storage slot) = (ok, s'.storage) ∧ s'.cache = s.cache := by
  have h' : some ((s.cache.verify s.storage slot).1,
      ({ s with storage := (s.cache.verify s.storage slot).2 } : CacheState δ))
        = some (ok, s') := h
  rw [Option.some.injEq, Prod.mk.injEq] at h'
  obtain ⟨rfl, rfl⟩ := h'
  exact ⟨rfl, rfl⟩

/-- The same with `activeSlot()` after the call. -/
def imageStep (s : CacheState δ) (op : PowerOp) : Option ((Bool × Bank) × CacheState δ) :=
  (storeCall s op).map fun t => ((t.1, bankOf t.2.cache.activeSlot), t.2)

/-- What a call is for. -/
def purpose : PowerOp → TwoBanks.Op UInt32 UInt8
  | .call (.session (.beginWrite imageSize version)) => .begin imageSize.toNat version
  | .call (.session (.writeChunk data)) => .piece data
  | .call (.session .finalizeWrite) => .finish
  | .call (.verify slot) => .check (bankNumbered slot)
  | .call (.activateSlot slot) => .select (bankNumbered slot)
  | .call .rollback => .back
  | .reboot => .restart

/-- The sectors of a chunk end in the slot, and its length is an `int`. -/
def Fits (b : FlashBackend δ) (s : CacheState δ) : PowerOp → Prop
  | .call (.session (.writeChunk data)) =>
    s.cache.writing = true →
      blockCeil b.sectorSize.toNat (s.cache.writeOffset.toNat + data.length)
          ≤ s.cache.slotSize.toNat
        ∧ data.length < 2147483648
  | _ => True

instance decidableFits (b : FlashBackend δ) (s : CacheState δ) : ∀ op, Decidable (Fits b s op)
  | .reboot => isTrue trivial
  | .call (.session (.writeChunk _)) => inferInstanceAs (Decidable (_ → _ ∧ _))
  | .call (.session (.beginWrite _ _)) => isTrue trivial
  | .call (.session .finalizeWrite) => isTrue trivial
  | .call (.verify _) => isTrue trivial
  | .call (.activateSlot _) => isTrue trivial
  | .call .rollback => isTrue trivial

/-- The session in progress is that upload. -/
structure UploadOf (content : δ → Nat → UInt8) (s : CacheState δ) (u : Upload UInt32 UInt8) :
    Prop where
  writing : s.cache.writing = true
  announced : s.cache.writeImageSize.toNat = u.announced
  room : 4096 + u.announced ≤ s.cache.slotSize.toNat
  version : s.cache.writeVersion = u.version
  crc : s.cache.writeCrc = Crc32.update Crc32.initial u.taken
  offset : s.cache.writeOffset.toNat = 4096 + u.taken.length
  inSlot : 4096 + u.taken.length ≤ s.cache.slotSize.toNat
  /-- What was taken is in the body of the slot. -/
  bytes : u.intact = true →
    slice (content s.storage.device) ((s.cache.slotOffset (slotOf u.bank)).toNat + 4096)
      u.taken.length = u.taken

/-- Slots and sectors that keep the images apart. -/
structure Sited (b : FlashBackend δ) (s : CacheState δ) : Prop where
  backend : s.storage.backend = some b
  layout : Layout s.cache b
  reserve : HeaderReserve s.cache b
  sectors : b.sectorSize.toNat ∣ 4096

/-- The cache, with what its flash holds, is that store. -/
structure Represents (b : FlashBackend δ) (content : δ → Nat → UInt8) (s : CacheState δ)
    (t : TwoBanks UInt32 UInt8) : Prop extends Sited b s where
  images : ImagesFit b.totalSize.toNat (content s.storage.device) s.cache
  active : s.cache.activeSlot = slotOf t.active
  banks : ∀ x, t.content x = contentOf b.totalSize.toNat (content s.storage.device)
    (s.cache.slotOffset (slotOf x))
  noUpload : t.upload = none → s.cache.writing = false
  upload : ∀ u, t.upload = some u → UploadOf content s u

theorem Sited.step {b : FlashBackend δ} {s s' : CacheState δ} (h : Sited b s)
    (hf : Frame s.cache s'.cache s.storage s'.storage) : Sited b s' where
  backend := hf.backend.trans h.backend
  layout := hf.slots.layout h.layout
  reserve := ⟨h.reserve.sectors, by rw [hf.slots.size]; exact h.reserve.room⟩
  sectors := h.sectors

/-- The store that a cache without a session is. -/
def storeOf (b : FlashBackend δ) (content : δ → Nat → UInt8) (s : CacheState δ) :
    TwoBanks UInt32 UInt8 where
  content x := contentOf b.totalSize.toNat (content s.storage.device)
    (s.cache.slotOffset (slotOf x))
  active := bankOf s.cache.activeSlot

theorem storeOf_represents {b : FlashBackend δ} {content : δ → Nat → UInt8} {s : CacheState δ}
    (hs : Sited b s) (hfit : ImagesFit b.totalSize.toNat (content s.storage.device) s.cache)
    (hact : s.cache.activeSlot ≤ 1) (hw : s.cache.writing = false) :
    Represents b content s (storeOf b content s) where
  toSited := hs
  images := hfit
  active := by
    obtain ⟨x, hx⟩ := exists_slotOf hact
    rw [storeOf, hx, bankOf_slotOf]
  banks _ := rfl
  noUpload _ := hw
  upload _ hu := absurd hu (by simp [storeOf])

/-! ## One call -/

section Calls

variable {b : FlashBackend δ} {content : δ → Nat → UInt8} {s s' : CacheState δ}
  {t : TwoBanks UInt32 UInt8}

/-- A call of the store with that answer, to what the cache is afterwards. -/
def Allowed (b : FlashBackend δ) (content : δ → Nat → UInt8) (t : TwoBanks UInt32 UInt8)
    (op : PowerOp) (ok : Bool) (s' : CacheState δ) : Prop :=
  ∃ t', TwoBanks.Step b.sectorSize.toNat (s'.cache.slotSize.toNat - 4096) Crc32.compute t
    (purpose op) ok t' ∧ Represents b content s' t'

/-- A flash that holds the same, and a cache that differs in nothing that matters. -/
theorem Represents.congr (h : Represents b content s t)
    (hf : Frame s.cache s'.cache s.storage s'.storage)
    (hcont : content s'.storage.device = content s.storage.device)
    (hcache : s'.cache = s.cache) : Represents b content s' t where
  toSited := h.toSited.step hf
  images := by rw [hcont, hcache]; exact h.images
  active := by rw [hcache]; exact h.active
  banks := by rw [hcont, hcache]; exact h.banks
  noUpload := by rw [hcache]; exact h.noUpload
  upload u hu := by
    obtain ⟨h1, h2, h3, h4, h5, h6, h7, h8⟩ := h.upload u hu
    exact ⟨by rw [hcache]; exact h1, by rw [hcache]; exact h2, by rw [hcache]; exact h3,
      by rw [hcache]; exact h4, by rw [hcache]; exact h5, by rw [hcache]; exact h6,
      by rw [hcache]; exact h7, by rw [hcont, hcache]; exact h8⟩

theorem Represents.writing_iff (h : Represents b content s t) :
    s.cache.writing = true ↔ ∃ u, t.upload = some u := by
  constructor
  · intro hw
    cases hu : t.upload with
    | none => exact absurd (hw.symm.trans (h.noUpload hu)) (by decide)
    | some u => exact ⟨u, rfl⟩
  · rintro ⟨u, hu⟩
    exact (h.upload u hu).writing

theorem Represents.free (h : Represents b content s t) :
    s.cache.inactiveSlot = slotOf t.active.other := inactiveSlot_slotOf h.active

/-- The size `beginWrite` allows, where a slot has room for its reserve. -/
theorem room_toNat (hs : Sited b s) :
    (s.cache.slotSize - kHeaderReserved).toNat = s.cache.slotSize.toNat - 4096 :=
  UInt32.toNat_sub_of_le _ _ (UInt32.le_iff_toNat_le.mpr hs.reserve.room)

theorem beginWrite_allowed (h : Represents b content s t) {imageSize version : UInt32} {ok : Bool}
    (hs : storeCall s (.call (.session (.beginWrite imageSize version))) = some (ok, s')) :
    Allowed b content t (.call (.session (.beginWrite imageSize version))) ok s' := by
  have hroom := room_toNat h.toSited
  obtain ⟨cache, storage⟩ := s'
  obtain ⟨hs, rfl⟩ := storeCall_beginWrite hs
  rcases beginWrite_cases s.cache imageSize version with ⟨hgt, hcall⟩ | ⟨hle, hcall⟩
  · have hlt := UInt32.lt_iff_toNat_lt.mp hgt
    rw [hroom] at hlt
    obtain ⟨rfl, rfl⟩ := Prod.mk.inj (hcall.symm.trans hs)
    exact ⟨t, .tooLarge hlt, h⟩
  · have hle' := UInt32.le_iff_toNat_le.mp hle
    rw [hroom] at hle'
    have hmin := h.reserve.room
    obtain ⟨rfl, rfl⟩ := Prod.mk.inj (hcall.symm.trans hs)
    refine ⟨_, .begin hle', ?_⟩
    exact {
      toSited := h.toSited.step ⟨⟨rfl, rfl, rfl⟩, _, rfl⟩
      images := h.images
      active := h.active
      banks := h.banks
      noUpload := fun hu => absurd hu (by simp)
      upload := by
        rintro u hu
        obtain rfl := Option.some.inj hu
        exact ⟨rfl, rfl, by dsimp only [opened]; omega, rfl, rfl, rfl,
          by dsimp only [opened]; simpa using hmin, fun _ => rfl⟩ }

theorem verify_allowed (hr : b.Readable content) (h : Represents b content s t) {slot : UInt8}
    {ok : Bool} (hs : storeCall s (.call (.verify slot)) = some (ok, s')) :
    Allowed b content t (.call (.verify slot)) ok s' := by
  obtain ⟨d, hd, hcont⟩ := verify_after s.storage
    (readKeeps_content h.backend hr (content s.storage.device)) rfl s.cache slot
  obtain ⟨cache, storage⟩ := s'
  obtain ⟨hs, rfl⟩ := storeCall_verify hs
  obtain rfl : storage = { s.storage with device := d } := by rw [← hd, hs]
  refine ⟨t, ?_, h.congr ⟨SameSlots.refl _, d, rfl⟩ hcont rfl⟩
  by_cases hslot : slot ≤ 1
  · obtain ⟨x, rfl⟩ := exists_slotOf hslot
    have hans : ok = (t.content x).isImage := by
      have hok : (s.cache.verify s.storage (slotOf x)).1 = ok := by rw [hs]
      rw [← hok, Bool.eq_iff_iff, verify_iff s.storage h.backend hr s.cache hslot, h.banks x,
        contentOf_isImage]
    rw [hans, purpose, bankNumbered_slotOf]
    exact .check
  · rw [verify_high (UInt8.not_le.mp hslot)] at hs
    obtain ⟨rfl, -⟩ := Prod.mk.inj hs
    rw [purpose, bankNumbered_none hslot]
    exact .checkNone

/-! ## Calls that write -/

/-- Images fit as long as no header changes but to one whose image fits. -/
theorem ImagesFit.congr {total : Nat} {m m' : Nat → UInt8} {fc fc' : FirmwareCache}
    (h : ImagesFit total m fc) (hslots : SameSlots fc fc')
    (hhdr : ∀ slot ≤ 1, AgreeOn (fc.slotOffset slot).toNat
        ((fc.slotOffset slot).toNat + headerSize) m m'
      ∨ 4096 + (storedHeader m' (fc.slotOffset slot)).size.toNat ≤ fc.slotSize.toNat) :
    ImagesFit total m' fc' := by
  intro slot hslot hF
  rw [hslots.slotOffset] at hF ⊢
  rw [hslots.size]
  rcases hhdr slot hslot with hagree | hfit
  · rw [← storedHeader_congr hagree]
    exact h slot hslot ((flagged_congr hagree).mpr hF)
  · exact hfit

/-- A write that misses a slot leaves what its bank holds. -/
theorem Represents.bank_congr (h : Represents b content s t) {m' : Nat → UInt8} (x : Bank)
    (hagree : AgreeOn (s.cache.slotOffset (slotOf x)).toNat
      ((s.cache.slotOffset (slotOf x)).toNat + s.cache.slotSize.toNat)
      (content s.storage.device) m') :
    contentOf b.totalSize.toNat m' (s.cache.slotOffset (slotOf x)) = t.content x := by
  have htot := b.totalSize.toNat_lt
  have hin := h.layout.inside (slotOf x)
  rw [h.banks x]
  exact contentOf_congr hagree h.reserve.room (by omega) (h.images _ (slotOf_le x))

section Chunk

variable {data : List UInt8} {m : Nat → UInt8}

/-- Where a chunk goes. -/
theorem chunkOffset_toNat {fc : FirmwareCache} (hl : Layout fc b)
    (hoff : fc.writeOffset.toNat ≤ fc.slotSize.toNat) :
    (chunkOffset fc).toNat = (fc.slotOffset fc.inactiveSlot).toNat + fc.writeOffset.toNat := by
  have htot := b.totalSize.toNat_lt
  have hin := hl.inside fc.inactiveSlot
  rw [chunkOffset, UInt32.toNat_add]
  exact Nat.mod_eq_of_lt (by omega)

/-- A chunk whose sectors end in the slot misses the active one. -/
theorem chunk_misses_active {fc : FirmwareCache} (hl : Layout fc b)
    (hceil : blockCeil b.sectorSize.toNat (fc.writeOffset.toNat + data.length)
      ≤ fc.slotSize.toNat) :
    AgreeOn (fc.slotOffset fc.activeSlot).toNat
      ((fc.slotOffset fc.activeSlot).toNat + fc.slotSize.toNat) m
      (program b.sectorSize.toNat erased m (chunkOffset fc).toNat data) := by
  intro a h1 h2
  have hout := active_outside_inactive hl h1 h2
  refine (program_outside (Classical.byContradiction fun hin => ?_) hl.sector_pos).symm
  have hin' := chunk_sectors_inside hl (Or.inl hceil) a (by omega) (by omega)
  omega

/-- No chunk reaches back to the header. -/
theorem chunk_misses_header (data : List UInt8) {fc : FirmwareCache} (hl : Layout fc b)
    (hdvd : b.sectorSize.toNat ∣ 4096) (hlo : 4096 ≤ fc.writeOffset.toNat)
    (hoff : fc.writeOffset.toNat ≤ fc.slotSize.toNat) :
    AgreeOn (fc.slotOffset fc.inactiveSlot).toNat
      ((fc.slotOffset fc.inactiveSlot).toNat + 4096) m
      (program b.sectorSize.toNat erased m (chunkOffset fc).toNat data) := by
  rw [chunkOffset_toNat hl hoff]
  refine (agreeOn_program hl.sector_pos (Or.inl ?_)).symm
  exact le_blockFloor (Nat.dvd_add (hl.aligned _) hdvd) (by omega)

/-- A chunk that starts on a sector goes behind what is there. -/
theorem chunk_appends {fc : FirmwareCache} (hl : Layout fc b)
    (hdvd : b.sectorSize.toNat ∣ 4096) {taken : List UInt8}
    (hoff : fc.writeOffset.toNat = 4096 + taken.length)
    (hin : 4096 + taken.length ≤ fc.slotSize.toNat)
    (hbody : slice m ((fc.slotOffset fc.inactiveSlot).toNat + 4096) taken.length = taken)
    (hstart : b.sectorSize.toNat ∣ taken.length) :
    slice (program b.sectorSize.toNat erased m (chunkOffset fc).toNat data)
      ((fc.slotOffset fc.inactiveSlot).toNat + 4096) (taken ++ data).length
        = taken ++ data := by
  rw [chunkOffset_toNat hl (by omega), hoff, ← Nat.add_assoc, List.length_append, slice_add,
    slice_program]
  have hkept : AgreeOn ((fc.slotOffset fc.inactiveSlot).toNat + 4096)
      ((fc.slotOffset fc.inactiveSlot).toNat + 4096 + taken.length)
      (program b.sectorSize.toNat erased m
        ((fc.slotOffset fc.inactiveSlot).toNat + 4096 + taken.length) data) m := by
    refine agreeOn_program hl.sector_pos (Or.inl ?_)
    exact le_blockFloor (Nat.dvd_add (Nat.dvd_add (hl.aligned _) hdvd) hstart) (Nat.le_refl _)
  rw [slice_congr hkept, hbody]

end Chunk

theorem Represents.upload_offset (h : Represents b content s t) (hw : s.cache.writing = true) :
    4096 ≤ s.cache.writeOffset.toNat ∧ s.cache.writeOffset.toNat ≤ s.cache.slotSize.toNat := by
  obtain ⟨u, hu⟩ := h.writing_iff.mp hw
  have hoff := (h.upload u hu).offset
  have hin := (h.upload u hu).inSlot
  exact ⟨by omega, by omega⟩

/-- What the banks hold after a chunk. -/
theorem Represents.chunk_banks (h : Represents b content s t) (hw : s.cache.writing = true)
    {data : List UInt8}
    (hceil : blockCeil b.sectorSize.toNat (s.cache.writeOffset.toNat + data.length)
      ≤ s.cache.slotSize.toNat) {m' : Nat → UInt8}
    (hm' : m' = program b.sectorSize.toNat erased (content s.storage.device)
      (chunkOffset s.cache).toNat data) :
    ImagesFit b.totalSize.toNat m' s.cache
      ∧ contentOf b.totalSize.toNat m' (s.cache.slotOffset (slotOf t.active)) = t.content t.active
      ∧ (contentOf b.totalSize.toNat m' (s.cache.slotOffset (slotOf t.active.other)) = .blank
          ↔ t.content t.active.other = .blank) := by
  obtain ⟨hlo, hhi⟩ := h.upload_offset hw
  have hroom := h.reserve.room
  have hactive := chunk_misses_active (m := content s.storage.device) h.layout hceil
  have hheader := chunk_misses_header (m := content s.storage.device) data h.layout
    h.sectors hlo hhi
  rw [← hm'] at hactive hheader
  rw [h.active] at hactive
  rw [h.free] at hheader
  have hheader' : AgreeOn (s.cache.slotOffset (slotOf t.active.other)).toNat
      ((s.cache.slotOffset (slotOf t.active.other)).toNat + headerSize)
      (content s.storage.device) m' :=
    hheader.mono (Nat.le_refl _) (by unfold headerSize; omega)
  refine ⟨h.images.congr (SameSlots.refl _) fun slot hslot => Or.inl ?_,
    h.bank_congr t.active hactive, ?_⟩
  · obtain ⟨x, rfl⟩ := exists_slotOf hslot
    rcases Bank.eq_or_other t.active x with rfl | rfl
    · exact hactive.mono (Nat.le_refl _) (by unfold headerSize; omega)
    · exact hheader'
  · rw [h.banks, contentOf_blank, contentOf_blank, flagged_congr hheader']

theorem writeChunk_allowed (hr : b.Reliable content) (h : Represents b content s t)
    {data : List UInt8} {ok : Bool} (hfits : Fits b s (.call (.session (.writeChunk data))))
    (hs : storeCall s (.call (.session (.writeChunk data))) = some (ok, s')) :
    Allowed b content t (.call (.session (.writeChunk data))) ok s' := by
  have htot := b.totalSize.toNat_lt
  cases hw : s.cache.writing with
  | false =>
    have hnone : t.upload = none := by
      cases hu : t.upload with
      | none => rfl
      | some u => exact absurd (h.upload u hu).writing (by rw [hw]; decide)
    rw [storeCall, writeChunk_closed hw] at hs
    obtain ⟨rfl, rfl⟩ := Prod.mk.inj (Option.some.inj hs)
    have hno : decide ((-1 : Int) = (data.length : Int)) = false := decide_eq_false (by omega)
    rw [hno]
    exact ⟨t, .noPiece hnone, h⟩
  | true =>
    obtain ⟨hceil, hlen⟩ := hfits hw
    obtain ⟨hlo, hhi⟩ := h.upload_offset hw
    obtain ⟨u, hu⟩ := h.writing_iff.mp hw
    have hup := h.upload u hu
    have hin := h.layout.inside s.cache.inactiveSlot
    have hend := le_blockCeil h.layout.sector_pos (s.cache.writeOffset.toNat + data.length)
    have hoff := chunkOffset_toNat h.layout hhi
    obtain ⟨d, hwr, hcont⟩ := write_reliable s.storage h.backend hr h.layout.sector_pos
      (chunkOffset s.cache) data (by omega) (by omega)
    have hchunk := writeChunk_open hw hwr
    rw [castInt_of_lt hlen, if_neg (by omega)] at hchunk
    rw [storeCall, hchunk] at hs
    obtain ⟨rfl, rfl⟩ := Prod.mk.inj (Option.some.inj hs)
    rw [decide_eq_true rfl]
    obtain ⟨himages, hactive, hblank⟩ := h.chunk_banks hw hceil hcont
    refine ⟨_, .piece hu hblank, ?_⟩
    have hoff' : (accepted s.cache data).writeOffset.toNat
        = s.cache.writeOffset.toNat + data.length := by
      show (s.cache.writeOffset + UInt32.ofNat data.length).toNat = _
      rw [UInt32.toNat_add, UInt32.toNat_ofNat']
      omega
    exact {
      toSited := h.toSited.step ⟨⟨rfl, rfl, rfl⟩, _, rfl⟩
      images := himages
      active := h.active
      banks := by
        intro x
        rcases Bank.eq_or_other t.active x with rfl | rfl
        · exact (TwoBanks.setContent_ne _ _ (Bank.other_ne _).symm).trans hactive.symm
        · exact TwoBanks.setContent_self _ _ _
      noUpload := fun hnone => absurd hnone (by simp)
      upload := by
        rintro u' hu'
        obtain rfl := Option.some.inj hu'
        have hoffset := hup.offset
        exact {
          writing := hw
          announced := hup.announced
          room := hup.room
          version := hup.version
          crc := by
            show Crc32.update s.cache.writeCrc data = _
            rw [hup.crc]
            exact (Crc32.update_append _ _ _).symm
          offset := by
            rw [hoff', hoffset, Upload.take, List.length_append]
            omega
          inSlot := by
            rw [Upload.take, List.length_append]
            show _ ≤ s.cache.slotSize.toNat
            omega
          bytes := by
            intro hint
            simp only [Upload.take, Bool.and_eq_true, beq_iff_eq, decide_eq_true_eq] at hint
            obtain ⟨⟨hint, hbank⟩, hstart⟩ := hint
            have hbody := hup.bytes hint
            have hslot : slotOf u.bank = s.cache.inactiveSlot := by rw [hbank, h.free]
            show slice (content d) ((s.cache.slotOffset (slotOf u.bank)).toNat + 4096) _ = _
            rw [hslot] at hbody ⊢
            rw [hcont]
            exact chunk_appends h.layout h.sectors hoffset hup.inSlot hbody hstart } }

/-! ## Headers -/

/-- A header rewrite misses the bodies of both slots. -/
theorem header_misses_bodies {fc : FirmwareCache} (hl : Layout fc b) (hres : HeaderReserve fc b)
    {slot s : UInt8} (hslot : slot ≤ 1) (hs : s ≤ 1) (m : Nat → UInt8) (hdr : FirmwareHeader) :
    AgreeOn ((fc.slotOffset s).toNat + 4096) ((fc.slotOffset s).toNat + fc.slotSize.toNat) m
      (program b.sectorSize.toNat erased m (fc.slotOffset slot).toNat hdr.toBytes) := by
  by_cases heq : s = slot
  · subst heq
    refine (agreeOn_program hl.sector_pos (Or.inr ?_)).symm
    rw [FirmwareHeader.length_toBytes, blockCeil_add hl.sector_pos (hl.aligned s)]
    exact Nat.add_le_add_left hres.sectors _
  · have hagree : AgreeOn (fc.slotOffset s).toNat ((fc.slotOffset s).toNat + fc.slotSize.toNat) m
        (program b.sectorSize.toNat erased m (fc.slotOffset slot).toNat hdr.toBytes) :=
      agreeOn_sectorsMiss hl.sector_pos (header_misses_other hl hres hslot hs heq)
    exact hagree.mono (by omega) (Nat.le_refl _)

/-- What an upload took is not in the way of headers. -/
theorem Represents.upload_bytes (h : Represents b content s t) {u : Upload UInt32 UInt8}
    (hu : t.upload = some u) (hint : u.intact = true) {slot : UInt8} (hslot : slot ≤ 1)
    (hdr : FirmwareHeader) :
    slice (program b.sectorSize.toNat erased (content s.storage.device)
        (s.cache.slotOffset slot).toNat hdr.toBytes)
      ((s.cache.slotOffset (slotOf u.bank)).toNat + 4096) u.taken.length = u.taken := by
  have hup := h.upload u hu
  have hin := hup.inSlot
  have hagree := header_misses_bodies h.layout h.reserve hslot (slotOf_le u.bank)
    (content s.storage.device) hdr
  exact (slice_congr (hagree.mono (Nat.le_refl _) (by omega))).symm.trans (hup.bytes hint)

/-- The image that a session leaves when its header verifies. -/
theorem session_yields {fc : FirmwareCache} {slot : UInt8} {S total : Nat} {m : Nat → UInt8}
    {off : UInt32} {u : Upload UInt32 UInt8} {free : Bank}
    (hv : Verifies total (program S erased m off.toNat (fc.sessionHeader slot).toBytes) off)
    (hann : fc.writeImageSize.toNat = u.announced) (hver : fc.writeVersion = u.version)
    (hcrc : fc.writeCrc = Crc32.update Crc32.initial u.taken)
    (hbytes : u.Whole free →
      slice (program S erased m off.toNat (fc.sessionHeader slot).toBytes)
        (off + kHeaderReserved).toNat u.announced = u.taken) :
    u.Yields Crc32.compute free
      (imageAt (program S erased m off.toNat (fc.sessionHeader slot).toBytes) off) := by
  have hsum := hv.2.2
  unfold imageAt
  rw [storedHeader_program] at hsum ⊢
  exact {
    version := hver
    length := (length_slice _ _ _).trans hann
    sum := hsum.trans (congrArg Crc32.finalize hcrc)
    bytes := fun hw => by
      show slice _ _ fc.writeImageSize.toNat = _
      rw [hann]
      exact hbytes hw }

theorem finalizeWrite_allowed (hr : b.Reliable content) (h : Represents b content s t) {ok : Bool}
    (hs : storeCall s (.call (.session .finalizeWrite)) = some (ok, s')) :
    Allowed b content t (.call (.session .finalizeWrite)) ok s' := by
  have htot := b.totalSize.toNat_lt
  have hin := h.layout.inside s.cache.inactiveSlot
  have hroom := h.reserve.room
  obtain ⟨⟨ok', cache, storage⟩, hcall, heq⟩ := Option.map_eq_some_iff.mp hs
  obtain ⟨rfl, rfl⟩ := Prod.mk.inj heq
  cases hw : s.cache.writing with
  | false =>
    have hnone : t.upload = none := by
      cases hu : t.upload with
      | none => rfl
      | some u => exact absurd (h.upload u hu).writing (by rw [hw]; decide)
    rcases finalizeWrite_cases hcall with ⟨_, rfl, rfl, rfl⟩ | ⟨hw', _⟩
    · exact ⟨t, .noFinish hnone, h⟩
    · exact absurd (hw.symm.trans hw') (by decide)
  | true =>
    obtain ⟨u, hu⟩ := h.writing_iff.mp hw
    have hup := h.upload u hu
    obtain ⟨ok, d, hfin, hcont, hok⟩ := finalizeWrite_reliable hr h.layout.sector_pos s.cache
      s.storage h.backend hw (by unfold headerSize; omega)
    obtain ⟨rfl, rfl, rfl⟩ : ok' = ok ∧ cache = closed s.cache
        ∧ storage = { s.storage with device := d } := by
      simpa using hcall.symm.trans hfin
    have hbody := bodyOffset_toNat (s.cache.slotOffset s.cache.inactiveSlot) (by omega)
    -- a whole upload is still in the body when its header is
    have hwhole : u.Whole t.active.other →
        slice (content d) ((s.cache.slotOffset s.cache.inactiveSlot).toNat + 4096) u.announced
          = u.taken := by
      intro hwh
      have hkeep := h.upload_bytes hu hwh.intact (inactiveSlot_le s.cache)
        (s.cache.sessionHeader s.cache.inactiveSlot)
      rw [hwh.bank, ← h.free, hwh.length] at hkeep
      rw [hcont]
      exact hkeep
    have hactive : contentOf b.totalSize.toNat (content d)
        (s.cache.slotOffset (slotOf t.active)) = t.content t.active := by
      refine h.bank_congr t.active ?_
      rw [hcont]
      refine agreeOn_sectorsMiss h.layout.sector_pos (header_misses_other h.layout h.reserve
        (inactiveSlot_le s.cache) (slotOf_le _) ?_)
      rw [h.free]
      exact fun heq => Bank.other_ne _ (slotOf_injective heq).symm
    have hflag : Flagged b.totalSize.toNat (content d)
        (s.cache.slotOffset s.cache.inactiveSlot) := by
      rw [hcont]
      exact sessionHeader_flagged _ _ _ _ (by unfold headerSize; omega)
    have himages : ImagesFit b.totalSize.toNat (content d) (closed s.cache) := by
      refine h.images.congr ⟨rfl, rfl, rfl⟩ fun slot hslot => ?_
      by_cases heq : slot = s.cache.inactiveSlot
      · subst heq
        right
        rw [hcont, storedHeader_program]
        show 4096 + s.cache.writeImageSize.toNat ≤ _
        rw [hup.announced]
        exact hup.room
      · left
        rw [hcont]
        exact (agreeOn_sectorsMiss h.layout.sector_pos (header_misses_other h.layout h.reserve
          (inactiveSlot_le s.cache) hslot heq)).mono (Nat.le_refl _) (by unfold headerSize; omega)
    -- whatever the free bank holds now, the rest is as it should be
    have hrep : ∀ c, contentOf b.totalSize.toNat (content d)
          (s.cache.slotOffset s.cache.inactiveSlot) = c →
        Represents b content { cache := closed s.cache, storage := { s.storage with device := d } }
          { t.setContent t.active.other c with upload := none } := by
      intro c hc
      exact {
        toSited := h.toSited.step ⟨⟨rfl, rfl, rfl⟩, _, rfl⟩
        images := himages
        active := h.active
        banks := by
          intro x
          rcases Bank.eq_or_other t.active x with rfl | rfl
          · exact (TwoBanks.setContent_ne _ _ (Bank.other_ne _).symm).trans hactive.symm
          · refine (TwoBanks.setContent_self _ _ _).trans ?_
            rw [← h.free]
            exact hc.symm
        noUpload := fun _ => rfl
        upload := fun u hu => absurd hu (by simp) }
    by_cases hv : Verifies b.totalSize.toNat (content d)
        (s.cache.slotOffset s.cache.inactiveSlot)
    · obtain rfl : ok' = true := hok.mpr hv
      refine ⟨_, .installed hu ?_, hrep _ (contentOf_image hv)⟩
      rw [hcont] at hv hwhole ⊢
      exact session_yields hv hup.announced hup.version hup.crc fun hwh => by
        rw [hbody]
        exact hwhole hwh
    · obtain rfl : ok' = false := by
        cases ok' with
        | false => rfl
        | true => exact absurd (hok.mp rfl) hv
      refine ⟨_, .spoiled hu (fun hwh => hv ?_), hrep _ (contentOf_torn hflag hv)⟩
      have hslice := hwhole hwh
      have hfit := hup.room
      rw [hcont] at hslice ⊢
      rw [← hup.announced] at hslice hfit
      exact verifies_session s.cache _ _ _ hup.crc htot (by omega) hslice

/-! ## Choosing a slot -/

/-- A switch to a slot that holds an image. -/
theorem Represents.switch (h : Represents b content s t) {x : Bank} {d : δ}
    (hv : Verifies b.totalSize.toNat (content s.storage.device) (s.cache.slotOffset (slotOf x)))
    (hcont : content d
      = markedBootable b (content s.storage.device) (s.cache.slotOffset (slotOf x))) :
    Represents b content
      { cache := { s.cache with activeSlot := slotOf x },
        storage := { s.storage with device := d } }
      { t with active := x } := by
  have htot := b.totalSize.toNat_lt
  have hin := h.layout.inside (slotOf x)
  have hroom := h.reserve.room
  have hmiss : ∀ y : Bank, y ≠ x →
      AgreeOn (s.cache.slotOffset (slotOf y)).toNat
        ((s.cache.slotOffset (slotOf y)).toNat + s.cache.slotSize.toNat)
        (content s.storage.device) (content d) := by
    intro y hy
    rw [hcont]
    exact agreeOn_sectorsMiss h.layout.sector_pos (header_misses_other h.layout h.reserve
      (slotOf_le x) (slotOf_le y) fun heq => hy (slotOf_injective heq))
  have hslots : SameSlots s.cache { s.cache with activeSlot := slotOf x } := ⟨rfl, rfl, rfl⟩
  exact {
    toSited := h.toSited.step ⟨⟨rfl, rfl, rfl⟩, _, rfl⟩
    images := by
      refine h.images.congr hslots fun slot hslot => ?_
      obtain ⟨y, rfl⟩ := exists_slotOf hslot
      by_cases hy : y = x
      · subst hy
        right
        rw [hcont, storedHeader_marked]
        exact h.images _ (slotOf_le _) hv.1
      · exact Or.inl ((hmiss y hy).mono (Nat.le_refl _) (by unfold headerSize; omega))
    active := rfl
    banks := by
      intro y
      by_cases hy : y = x
      · subst hy
        show t.content y = contentOf _ (content d) (s.cache.slotOffset (slotOf y))
        rw [hcont, contentOf_marked h.layout.sector_pos (h.layout.aligned _) h.reserve.sectors
          (by omega) hv]
        exact h.banks y
      · exact (h.bank_congr y (hmiss y hy)).symm
    noUpload := h.noUpload
    upload := by
      intro u hu
      have hup := h.upload u hu
      exact {
        writing := hup.writing
        announced := hup.announced
        room := hup.room
        version := hup.version
        crc := hup.crc
        offset := hup.offset
        inSlot := hup.inSlot
        bytes := fun hint => by
          show slice (content d) _ _ = _
          rw [hcont]
          exact h.upload_bytes hu hint (slotOf_le x) _ } }

theorem activateSlot_allowed (hr : b.Reliable content) (h : Represents b content s t)
    {slot : UInt8} {ok : Bool} (hs : storeCall s (.call (.activateSlot slot)) = some (ok, s')) :
    Allowed b content t (.call (.activateSlot slot)) ok s' := by
  obtain ⟨⟨ok', cache, storage⟩, hcall, heq⟩ := Option.map_eq_some_iff.mp hs
  obtain ⟨rfl, rfl⟩ := Prod.mk.inj heq
  have hkind := activateSlot_cases hcall
  obtain ⟨d, rfl, ⟨rfl, rfl, hcont⟩ | ⟨rfl, hslot, rfl, hv, hcont⟩⟩ :=
    activateSlot_reliable hr h.layout.sector_pos hcall h.backend
  · refine ⟨t, ?_, h.congr ⟨SameSlots.refl _, d, rfl⟩ hcont rfl⟩
    rcases hkind with ⟨hgt, _⟩ | ⟨hslot, hno, _⟩ | ⟨_, _, htrue, _⟩
    · rw [purpose, bankNumbered_none (UInt8.not_le.mpr hgt)]
      exact .selectNone
    · obtain ⟨x, rfl⟩ := exists_slotOf hslot
      rw [purpose, bankNumbered_slotOf]
      refine .noSelect ?_
      rw [Bool.eq_false_iff, ne_eq, h.banks, contentOf_isImage,
        ← verify_iff s.storage h.backend hr.toReadable s.cache hslot, hno]
      exact Bool.false_ne_true
    · exact absurd htrue Bool.false_ne_true
  · obtain ⟨x, rfl⟩ := exists_slotOf hslot
    refine ⟨_, ?_, h.switch hv hcont⟩
    rw [purpose, bankNumbered_slotOf]
    exact .select (by rw [h.banks, contentOf_isImage]; exact hv)

theorem rollback_allowed (hr : b.Reliable content) (h : Represents b content s t) {ok : Bool}
    (hs : storeCall s (.call .rollback) = some (ok, s')) :
    Allowed b content t (.call .rollback) ok s' := by
  obtain ⟨⟨ok', cache, storage⟩, hcall, heq⟩ := Option.map_eq_some_iff.mp hs
  obtain ⟨rfl, rfl⟩ := Prod.mk.inj heq
  have himage : (t.content t.active.other).isImage = true
      ↔ (s.cache.verify s.storage s.cache.inactiveSlot).1 = true := by
    rw [h.banks, contentOf_isImage, verify_iff s.storage h.backend hr.toReadable s.cache
      (inactiveSlot_le _), h.free]
  have hkind := rollback_cases hcall
  obtain ⟨d, rfl, ⟨rfl, rfl, hcont⟩ | ⟨rfl, rfl, hv, hcont⟩⟩ :=
    rollback_reliable hr h.layout.sector_pos hcall h.backend
  · refine ⟨t, .noBack ?_, h.congr ⟨SameSlots.refl _, d, rfl⟩ hcont rfl⟩
    rcases hkind with ⟨hno, _⟩ | ⟨hyes, _⟩
    · rw [Bool.eq_false_iff, ne_eq, himage, hno]
      exact Bool.false_ne_true
    · obtain ⟨d', hsw⟩ := rollback_switches s.cache s.storage hr.fallible h.backend
        h.layout.sector_pos hyes
      exact absurd (hcall.symm.trans hsw) (by simp)
  · have hback : (t.content t.active.other).isImage = true := by
      rw [h.banks, contentOf_isImage, ← h.free]
      exact hv
    rw [h.free] at hv hcont ⊢
    exact ⟨_, .back hback, h.switch hv hcont⟩

/-- The slot `init` selects is that of the bank a restart makes active. -/
theorem preferred_of_flags {total : Nat} {m : Nat → UInt8} {fc : FirmwareCache} :
    (if Flagged total m fc.slotAOffset then (0 : UInt8)
      else if Flagged total m fc.slotBOffset then 1 else 0)
      = slotOf (TwoBanks.preferred fun x => contentOf total m (fc.slotOffset (slotOf x))) := by
  have hA : contentOf total m (fc.slotOffset (slotOf .a)) = .blank
      ↔ ¬ Flagged total m fc.slotAOffset := contentOf_blank
  have hB : contentOf total m (fc.slotOffset (slotOf .b)) = .blank
      ↔ ¬ Flagged total m fc.slotBOffset := contentOf_blank
  by_cases hfA : Flagged total m fc.slotAOffset
  · rw [if_pos hfA, TwoBanks.preferred_a (mt hA.mp (not_not_intro hfA))]
    rfl
  · rw [if_neg hfA]
    by_cases hfB : Flagged total m fc.slotBOffset
    · rw [if_pos hfB, TwoBanks.preferred_b (hA.mpr hfA) (mt hB.mp (not_not_intro hfB))]
      rfl
    · rw [if_neg hfB, TwoBanks.preferred_blank (hA.mpr hfA) (hB.mpr hfB)]
      rfl

theorem reboot_allowed (hr : b.Readable content) (h : Represents b content s t) {ok : Bool}
    (hs : storeCall s .reboot = some (ok, s')) : Allowed b content t .reboot ok s' := by
  obtain ⟨d, hcont, hinit⟩ := init_readable s.storage h.backend hr {} s.cache.slotAOffset
    s.cache.slotBOffset s.cache.slotSize
  rw [storeCall, hinit] at hs
  obtain ⟨rfl, rfl⟩ := Prod.mk.inj (Option.some.inj hs)
  refine ⟨_, .restart, ?_⟩
  have hbanks : t.content = fun x => contentOf b.totalSize.toNat (content s.storage.device)
      (s.cache.slotOffset (slotOf x)) := funext h.banks
  exact {
    toSited := h.toSited.step ⟨⟨rfl, rfl, rfl⟩, _, rfl⟩
    images := by rw [hcont]; exact h.images
    active := by rw [hbanks]; exact preferred_of_flags
    banks := by rw [hcont]; exact h.banks
    noUpload := fun _ => rfl
    upload := fun u hu => absurd hu (by simp) }

/-- **Every call is one of the store.** -/
theorem storeCall_allowed (hr : b.Reliable content) (h : Represents b content s t) {op : PowerOp}
    {ok : Bool} (hfits : Fits b s op) (hs : storeCall s op = some (ok, s')) :
    Allowed b content t op ok s' := by
  cases op with
  | reboot => exact reboot_allowed hr.toReadable h hs
  | call op =>
    cases op with
    | session op =>
      cases op with
      | beginWrite imageSize version => exact beginWrite_allowed h hs
      | writeChunk data => exact writeChunk_allowed hr h hfits hs
      | finalizeWrite => exact finalizeWrite_allowed hr h hs
    | verify slot => exact verify_allowed hr.toReadable h hs
    | activateSlot slot => exact activateSlot_allowed hr h hs
    | rollback => exact rollback_allowed hr h hs

/-! ## Every call returns -/

theorem SameSlots.trans {fc fc' fc'' : FirmwareCache} (h : SameSlots fc fc')
    (h' : SameSlots fc' fc'') : SameSlots fc fc'' where
  slotA := h'.slotA.trans h.slotA
  slotB := h'.slotB.trans h.slotB
  size := h'.size.trans h.size

/-- No call moves the slots. -/
theorem storeCall_slots {op : PowerOp} {ok : Bool} (hs : storeCall s op = some (ok, s')) :
    SameSlots s.cache s'.cache := by
  cases op with
  | reboot => rw [← (Prod.mk.inj (Option.some.inj hs)).2]; exact ⟨rfl, rfl, rfl⟩
  | call op =>
    cases op with
    | session op =>
      cases op with
      | beginWrite imageSize version =>
        have hslots := beginWrite_slots s.cache imageSize version
        rw [(storeCall_beginWrite hs).1] at hslots
        exact hslots
      | writeChunk data =>
        obtain ⟨⟨r, cache, storage⟩, hcall, heq⟩ := Option.map_eq_some_iff.mp hs
        obtain ⟨-, rfl⟩ := Prod.mk.inj heq
        exact (writeChunk_frame hcall).slots
      | finalizeWrite =>
        obtain ⟨⟨r, cache, storage⟩, hcall, heq⟩ := Option.map_eq_some_iff.mp hs
        obtain ⟨-, rfl⟩ := Prod.mk.inj heq
        exact (finalizeWrite_frame hcall).slots
    | verify slot => rw [(storeCall_verify hs).2]; exact .refl _
    | activateSlot slot =>
      obtain ⟨⟨r, cache, storage⟩, hcall, heq⟩ := Option.map_eq_some_iff.mp hs
      obtain ⟨-, rfl⟩ := Prod.mk.inj heq
      exact (activateSlot_frame hcall).slots
    | rollback =>
      obtain ⟨⟨r, cache, storage⟩, hcall, heq⟩ := Option.map_eq_some_iff.mp hs
      obtain ⟨-, rfl⟩ := Prod.mk.inj heq
      exact (rollback_frame hcall).slots

theorem storeCall_returns (hr : b.Reliable content) (h : Represents b content s t) {op : PowerOp}
    (hfits : Fits b s op) : ∃ ok s', storeCall s op = some (ok, s') := by
  have hin := h.layout.inside s.cache.inactiveSlot
  have hroom := h.reserve.room
  cases op with
  | reboot => exact ⟨_, _, rfl⟩
  | call op =>
    cases op with
    | session op =>
      cases op with
      | beginWrite imageSize version => exact ⟨_, _, rfl⟩
      | writeChunk data =>
        cases hw : s.cache.writing with
        | false => exact ⟨_, _, by rw [storeCall, writeChunk_closed hw]; rfl⟩
        | true =>
          obtain ⟨hlo, hhi⟩ := h.upload_offset hw
          have hend := le_blockCeil h.layout.sector_pos (s.cache.writeOffset.toNat + data.length)
          have hceil := (hfits hw).1
          have hoff := chunkOffset_toNat h.layout hhi
          obtain ⟨d, hwr, _⟩ := write_reliable s.storage h.backend hr h.layout.sector_pos
            (chunkOffset s.cache) data (by omega) (by omega)
          exact ⟨_, _, by rw [storeCall, writeChunk_open hw hwr]; rfl⟩
      | finalizeWrite =>
        cases hw : s.cache.writing with
        | false => exact ⟨_, _, by rw [storeCall, FirmwareCache.finalizeWrite, hw]; rfl⟩
        | true =>
          obtain ⟨ok, d, hfin, _⟩ := finalizeWrite_reliable hr h.layout.sector_pos s.cache
            s.storage h.backend hw (by unfold headerSize; omega)
          exact ⟨_, _, by rw [storeCall, hfin]; rfl⟩
    | verify slot => exact ⟨_, _, rfl⟩
    | activateSlot slot =>
      obtain ⟨ok, fc', sm', hcall⟩ := activateSlot_returns s.cache s.storage hr.fallible h.backend
        h.layout.sector_pos slot
      exact ⟨_, _, by rw [storeCall, hcall]; rfl⟩
    | rollback =>
      obtain ⟨ok, fc', sm', hcall, _⟩ := rollback_keepsVerify hr h.backend h.layout h.sectors
        h.images
      exact ⟨_, _, by rw [storeCall, hcall]; rfl⟩

end Calls

end TaktOS.Proof
