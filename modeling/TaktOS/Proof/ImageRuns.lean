import TaktOS.Proof.ImageStore

/-!
# Runs of the firmware cache as runs of the store

`Proof.ImageStore` has one call at a time. Here are the runs: everything a client can see of the
cache is what the store of two images allows. What is proved of the store holds of the cache: the
active image stays whole, and an upload that came in whole is there for good.
-/

namespace TaktOS.Proof

open Lib

variable {δ : Type} {b : FlashBackend δ} {content : δ → Nat → UInt8} {s : CacheState δ}

/-! ## The refinement -/

/-- The store with the sectors and the room of a cache. -/
abbrev storeSpec (b : FlashBackend δ) (slotSize : UInt32) :
    Spec (TwoBanks UInt32 UInt8) (TwoBanks.Op UInt32 UInt8) (Bool × Bank) :=
  TwoBanks.spec b.sectorSize.toNat (slotSize.toNat - 4096) Crc32.compute

/-- The calls of a history, with what they are for in their place. -/
abbrev purposes (h : List (PowerOp × (Bool × Bank))) :
    List (TwoBanks.Op UInt32 UInt8 × (Bool × Bank)) :=
  h.map fun x => (purpose x.1, x.2)

theorem imageStep_allowed (hr : b.Reliable content) {t : TwoBanks UInt32 UInt8} {op : PowerOp}
    (h : Represents b content s t) (hfits : Fits b s op) :
    ∃ answer s' t', imageStep s op = some (answer, s')
      ∧ storeSpec b s.cache.slotSize t (purpose op) answer t' ∧ Represents b content s' t'
      ∧ SameSlots s.cache s'.cache := by
  obtain ⟨ok, s', hcall⟩ := storeCall_returns hr h hfits
  obtain ⟨t', hstep, hrep⟩ := storeCall_allowed hr h hfits hcall
  have hslots := storeCall_slots hcall
  rw [hslots.size] at hstep
  refine ⟨(ok, bankOf s'.cache.activeSlot), s', t', by rw [imageStep, hcall]; rfl, ⟨hstep, ?_⟩,
    hrep, hslots⟩
  rw [hrep.active, bankOf_slotOf]

theorem storeRun_allowed (hr : b.Reliable content) {t : TwoBanks UInt32 UInt8}
    (h : Represents b content s t) {ops : List PowerOp}
    (hops : Along (silent imageStep) (Fits b) s ops) :
    ∃ h s' t', history imageStep s ops = some (h, s') ∧ h.map Prod.fst = ops
      ∧ (storeSpec b s.cache.slotSize).Allows t (purposes h) t'
      ∧ Represents b content s' t' ∧ SameSlots s.cache s'.cache :=
  history_allowed imageStep (storeSpec b s.cache.slotSize)
    (fun s₁ t => Represents b content s₁ t ∧ SameSlots s.cache s₁.cache) (Fits b) purpose
    (fun s₁ t op hR hP => by
      obtain ⟨answer, s', t', hstep, hspec, hrep, hslots⟩ := imageStep_allowed hr hR.1 hP
      rw [hR.2.size] at hspec
      exact ⟨answer, s', t', hstep, hspec, hrep, hR.2.trans hslots⟩)
    ⟨h, SameSlots.refl _⟩ hops

/--
**The firmware cache is a store of two images.** Over a reliable flash, from any state without a
session whose slots are apart and whose images lie in them, every run of its calls and of reboots
in which the chunks fit returns, and its answers are those of the store, which never looks at an
offset, a sector or a header. Where the run ends, the flash holds what the store holds.
-/
theorem cache_refines_store (hr : b.Reliable content) (hs : Sited b s)
    (hfit : ImagesFit b.totalSize.toNat (content s.storage.device) s.cache)
    (hact : s.cache.activeSlot ≤ 1) (hw : s.cache.writing = false) {ops : List PowerOp}
    (hops : Along (silent imageStep) (Fits b) s ops) :
    ∃ h s' t', history imageStep s ops = some (h, s') ∧ h.map Prod.fst = ops
      ∧ (storeSpec b s.cache.slotSize).Allows (storeOf b content s) (purposes h) t'
      ∧ Represents b content s' t' := by
  obtain ⟨h, s', t', hrun, hlist, hallows, hrep, -⟩ :=
    storeRun_allowed hr (storeOf_represents hs hfit hact hw) hops
  exact ⟨h, s', t', hrun, hlist, hallows, hrep⟩

/-- The test's slots keep their images apart. -/
theorem testCache_sited (device : Nat → UInt8) :
    Sited (memBackend 0x10000 4096)
      { cache := testCache, storage := { testStorage with device := device } } where
  backend := rfl
  layout := testCache_layout rfl rfl
  reserve := ⟨by decide, show 4096 ≤ testCache.slotSize.toNat by decide⟩
  sectors := Nat.dvd_refl _

/-- A blank flash, an update, a rollback that is refused, and a reboot. -/
def updateAndReboot : List PowerOp :=
  [.call (.session (.beginWrite 2 1)), .call (.session (.writeChunk [1, 2])),
    .call (.session .finalizeWrite), .call (.activateSlot 1), .call .rollback, .reboot]

theorem cache_refines_store_update :
    ∃ h s' t', history imageStep { cache := testCache, storage := testStorage } updateAndReboot
        = some (h, s')
      ∧ (storeSpec (memBackend 0x10000 4096) 0x4000).Allows
        (storeOf (memBackend 0x10000 4096) id { cache := testCache, storage := testStorage })
        (purposes h) t' := by
  have hfits : Along (silent imageStep) (Fits (memBackend 0x10000 4096))
      { cache := testCache, storage := testStorage } updateAndReboot := by decide +kernel
  obtain ⟨h, s', t', hrun, -, hallows, -⟩ := cache_refines_store testFlash_reliable
    (testCache_sited _) (by intro slot hslot; rcases le_one_cases hslot with rfl | rfl <;> decide)
    (by decide) rfl hfits
  exact ⟨h, s', t', hrun, hallows⟩

/-! ## The active image -/

/-- A reboot would leave a whole slot B for a slot A that is flagged and not whole. -/
def MisledBySlotA (b : FlashBackend δ) (content : δ → Nat → UInt8) (s : CacheState δ) : Prop :=
  s.cache.activeSlot = 1
    ∧ Flagged b.totalSize.toNat (content s.storage.device) s.cache.slotAOffset
    ∧ ¬ Verifies b.totalSize.toNat (content s.storage.device) s.cache.slotAOffset

instance (b : FlashBackend δ) (content : δ → Nat → UInt8) (s : CacheState δ) :
    Decidable (MisledBySlotA b content s) := inferInstanceAs (Decidable (_ ∧ _ ∧ ¬ _))

/-- The chunk fits, or the reboot is not misled. -/
def KeepsActive (b : FlashBackend δ) (content : δ → Nat → UInt8) (s : CacheState δ) :
    PowerOp → Prop
  | .reboot => ¬ MisledBySlotA b content s
  | .call op => Fits b s (.call op)

instance (b : FlashBackend δ) (content : δ → Nat → UInt8) (s : CacheState δ) :
    ∀ op, Decidable (KeepsActive b content s op)
  | .reboot => inferInstanceAs (Decidable (¬ _))
  | .call op => inferInstanceAs (Decidable (Fits b s (.call op)))

theorem KeepsActive.fits {op : PowerOp} (h : KeepsActive b content s op) : Fits b s op := by
  cases op with
  | reboot => trivial
  | call op => exact h

theorem KeepsActive.not_misled {op : PowerOp} (h : KeepsActive b content s op)
    (hop : op = .reboot) : ¬ MisledBySlotA b content s := by
  subst hop
  exact h

theorem Represents.misled {t : TwoBanks UInt32 UInt8} (h : Represents b content s t)
    (hm : t.Misled) : MisledBySlotA b content s := by
  have hA : contentOf b.totalSize.toNat (content s.storage.device) s.cache.slotAOffset = .torn :=
    (h.banks .a).symm.trans hm.2
  refine ⟨by rw [h.active, hm.1]; rfl, Classical.byContradiction fun hF => ?_, fun hv => ?_⟩
  · rw [contentOf_blank.mpr hF] at hA
    exact absurd hA (by simp)
  · rw [contentOf_image hv] at hA
    exact absurd hA (by simp)

/-- Only a reboot is a restart. -/
theorem purpose_restart {op : PowerOp} (h : purpose op = .restart) : op = .reboot := by
  cases op with
  | reboot => rfl
  | call op =>
    cases op with
    | session op => cases op <;> exact absurd h (by simp [purpose])
    | verify slot => exact absurd h (by simp [purpose])
    | activateSlot slot => exact absurd h (by simp [purpose])
    | rollback => exact absurd h (by simp [purpose])

/-- The active slot verifies where the store is sound. -/
theorem Represents.sound_iff {t : TwoBanks UInt32 UInt8} (hr : b.Readable content)
    (h : Represents b content s t) :
    t.Sound ↔ (s.cache.verify s.storage s.cache.activeSlot).1 = true := by
  rw [h.active, verify_iff s.storage h.backend hr s.cache (slotOf_le _), TwoBanks.Sound, h.banks,
    contentOf_isImage]

/--
**The active image stays whole.** Over a reliable flash, along every run of the cache's calls and
of reboots, sessions opened, cut off, sent into the slot in pieces of any size and alternated with
switches, the active slot goes on verifying, as long as the chunks fit and no reboot finds a slot
A that is flagged and torn while slot B is active.
-/
theorem active_image_stays_whole (hr : b.Reliable content) (hs : Sited b s)
    (hfit : ImagesFit b.totalSize.toNat (content s.storage.device) s.cache)
    (hact : s.cache.activeSlot ≤ 1) (hw : s.cache.writing = false)
    (hv : (s.cache.verify s.storage s.cache.activeSlot).1 = true) {ops : List PowerOp}
    (hops : Along (silent imageStep) (KeepsActive b content) s ops) :
    ∃ h s', history imageStep s ops = some (h, s') ∧ h.map Prod.fst = ops
      ∧ (s'.cache.verify s'.storage s'.cache.activeSlot).1 = true := by
  have hrep := storeOf_represents hs hfit hact hw
  obtain ⟨h, s', t', hrun, hlist, -, ⟨hrep', hsound⟩, -⟩ :=
    history_allowed imageStep (storeSpec b s.cache.slotSize)
      (fun s₁ t => (Represents b content s₁ t ∧ t.Sound) ∧ SameSlots s.cache s₁.cache)
      (KeepsActive b content) purpose
      (fun s₁ t op hR hP => by
        obtain ⟨⟨hrep₁, hsound⟩, hslots⟩ := hR
        obtain ⟨answer, s', t', hstep, hspec, hrep', hslots'⟩ := imageStep_allowed hr hrep₁ hP.fits
        rw [hslots.size] at hspec
        refine ⟨answer, s', t', hstep, hspec, ⟨hrep', hspec.1.sound hsound fun hop hm => ?_⟩,
          hslots.trans hslots'⟩
        exact hP.not_misled (purpose_restart hop) (hrep₁.misled hm))
      ⟨⟨hrep, (hrep.sound_iff hr.toReadable).mpr hv⟩, SameSlots.refl _⟩ hops
  exact ⟨h, s', hrun, hlist, (hrep'.sound_iff hr.toReadable).mp hsound⟩

/-- The running image in slot A, an update into slot B, back and a reboot. -/
theorem active_image_stays_whole_update :
    ∃ h s', history imageStep
        { cache := testCache,
          storage := { testStorage with device := withImage testStorage.device 0x1000 0 [7] } }
        updateAndReboot = some (h, s')
      ∧ (s'.cache.verify s'.storage s'.cache.activeSlot).1 = true := by
  have hkeeps : Along (silent imageStep) (KeepsActive (memBackend 0x10000 4096) id)
      { cache := testCache,
        storage := { testStorage with device := withImage testStorage.device 0x1000 0 [7] } }
      updateAndReboot := by decide +kernel
  obtain ⟨h, s', hrun, -, hv⟩ := active_image_stays_whole testFlash_reliable (testCache_sited _)
    (by intro slot hslot; rcases le_one_cases hslot with rfl | rfl <;> decide) (by decide) rfl
    (by decide) hkeeps
  exact ⟨h, s', hrun, hv⟩

/-! ## An upload that stays -/

/-- The calls that install an image and make it the active one. -/
def installCalls (fc : FirmwareCache) (imageSize version : UInt32) (chunks : List (List UInt8)) :
    List PowerOp :=
  .call (.session (.beginWrite imageSize version))
    :: (chunks.map (fun data => .call (.session (.writeChunk data)))
      ++ [.call (.session .finalizeWrite), .call (.activateSlot fc.inactiveSlot)])

theorem purpose_installCalls {fc : FirmwareCache} {x : Bank} (h : fc.inactiveSlot = slotOf x)
    (imageSize version : UInt32) (chunks : List (List UInt8)) :
    (installCalls fc imageSize version chunks).map purpose
      = TwoBanks.installOps imageSize.toNat version chunks x := by
  rw [installCalls, TwoBanks.installOps, h]
  simp [purpose, bankNumbered_slotOf, Function.comp_def]

/-- Calls that take no chunk fit. -/
theorem fits_of_not_uploads {ops : List PowerOp} (h : ∀ op ∈ ops, (purpose op).uploads = false) :
    ∀ {s : CacheState δ}, Along (silent imageStep) (Fits b) s ops := by
  refine along_of_forall fun op hop s => ?_
  have hno := h op hop
  cases op with
  | reboot => trivial
  | call op =>
    cases op with
    | session op =>
      cases op with
      | writeChunk data => exact absurd hno (by simp [purpose, TwoBanks.Op.uploads])
      | _ => trivial
    | _ => trivial

/-- Chunks that add up to an upload whose sectors end in the slot fit, one after the other. -/
theorem chunks_fit (hr : b.Reliable content) : ∀ {chunks : List (List UInt8)} {s : CacheState δ}
    {t : TwoBanks UInt32 UInt8} {u : Upload UInt32 UInt8} {rest : List PowerOp},
    Represents b content s t → t.upload = some u →
    blockCeil b.sectorSize.toNat (4096 + (u.taken.length + chunks.flatten.length))
      ≤ s.cache.slotSize.toNat →
    (∀ c ∈ chunks, c.length < 2147483648) →
    (∀ {s : CacheState δ}, Along (silent imageStep) (Fits b) s rest) →
    Along (silent imageStep) (Fits b) s
      (chunks.map (fun data => .call (.session (.writeChunk data))) ++ rest) := by
  intro chunks
  induction chunks with
  | nil => exact fun _ _ _ _ hrest => hrest
  | cons data chunks ih =>
    intro s t u rest h hu hceil hlen hrest
    have hfits : Fits b s (.call (.session (.writeChunk data))) := by
      intro _
      refine ⟨?_, hlen data List.mem_cons_self⟩
      rw [(h.upload u hu).offset]
      refine Nat.le_trans (blockCeil_mono ?_) hceil
      rw [List.flatten_cons, List.length_append, Nat.add_assoc]
      omega
    refine ⟨hfits, fun s' hs' => ?_⟩
    obtain ⟨answer, s₁, t₁, hstep, hspec, hrep, hslots⟩ := imageStep_allowed hr h hfits
    obtain rfl : s₁ = s' := by
      rw [silent, hstep] at hs'
      exact Option.some.inj hs'
    obtain ⟨ok, act⟩ := answer
    obtain ⟨hspec, -⟩ := hspec
    dsimp only [purpose] at hspec
    cases hspec with
    | noPiece hnone => exact absurd (hnone.symm.trans hu) (by simp)
    | @piece _ u' c hu' hc =>
      obtain rfl : u = u' := Option.some.inj (hu.symm.trans hu')
      refine ih hrep rfl ?_ (fun c hc => hlen c (List.mem_cons_of_mem _ hc)) hrest
      rw [hslots.size]
      rw [List.flatten_cons, List.length_append] at hceil
      rw [Upload.take, List.length_append]
      exact Nat.le_trans (Nat.le_of_eq (by rw [Nat.add_assoc])) hceil

/-- The calls of an installation fit, whatever follows that takes no chunk. -/
theorem installCalls_fit (hr : b.Reliable content) {t : TwoBanks UInt32 UInt8}
    (h : Represents b content s t) {imageSize : UInt32} (version : UInt32)
    {chunks : List (List UInt8)} (hsum : chunks.flatten.length = imageSize.toNat)
    (hceil : blockCeil b.sectorSize.toNat (4096 + imageSize.toNat) ≤ s.cache.slotSize.toNat)
    (hlen : ∀ c ∈ chunks, c.length < 2147483648) {later : List PowerOp}
    (hlater : ∀ op ∈ later, (purpose op).uploads = false) :
    Along (silent imageStep) (Fits b) s
      (installCalls s.cache imageSize version chunks ++ later) := by
  have hend := le_blockCeil h.layout.sector_pos (4096 + imageSize.toNat)
  have hnext : ∀ {s : CacheState δ}, Along (silent imageStep) (Fits b) s (later) :=
    fits_of_not_uploads hlater
  refine ⟨trivial, fun s' hs' => ?_⟩
  obtain ⟨answer, s₁, t₁, hstep, hspec, hrep, hslots⟩ := imageStep_allowed hr h
    (show Fits b s (.call (.session (.beginWrite imageSize version))) from trivial)
  obtain rfl : s₁ = s' := by
    rw [silent, hstep] at hs'
    exact Option.some.inj hs'
  obtain ⟨ok, act⟩ := answer
  obtain ⟨hspec, -⟩ := hspec
  dsimp only [purpose] at hspec
  show Along _ _ s₁ ((chunks.map _ ++ [_, _]) ++ later)
  rw [List.append_assoc]
  cases hspec with
  | tooLarge hlarge => exact absurd hlarge (by omega)
  | begin _ =>
    refine chunks_fit hr hrep rfl ?_ hlen fun {s} =>
      ⟨trivial, fun _ _ => ⟨trivial, fun _ _ => hnext⟩⟩
    rw [hslots.size, hsum]
    simpa using hceil

/--
An installation that is allowed, and what follows. Every call of it succeeds, and after it both
banks hold an image: the free one what came in, the active one what it held.
-/
theorem install_allowed (hr : b.Reliable content) {t : TwoBanks UInt32 UInt8}
    (h : Represents b content s t) (imageSize version : UInt32) (chunks : List (List UInt8))
    (hv : (s.cache.verify s.storage s.cache.activeSlot).1 = true)
    (hsum : chunks.flatten.length = imageSize.toNat)
    (hceil : blockCeil b.sectorSize.toNat (4096 + imageSize.toNat) ≤ s.cache.slotSize.toNat)
    (hlen : ∀ c ∈ chunks, c.length < 2147483648)
    (hstart : ∀ p ∈ pieceStarts 0 chunks, b.sectorSize.toNat ∣ p) (later : List PowerOp)
    (hlater : ∀ op ∈ later, (purpose op).uploads = false) :
    ∃ h₁ h₂ s' t₁ t', history imageStep s (installCalls s.cache imageSize version chunks ++ later)
        = some (h₁ ++ h₂, s')
      ∧ h₁.map Prod.fst = installCalls s.cache imageSize version chunks
      ∧ h₂.map Prod.fst = later
      ∧ (storeSpec b s.cache.slotSize).Allows t₁ (purposes h₂) t'
      ∧ Represents b content s' t' ∧ SameSlots s.cache s'.cache
      ∧ (∀ x ∈ h₁, x.2.1 = true)
      ∧ t₁.active = t.active.other
      ∧ t₁.content t.active.other = .image ⟨version, chunks.flatten⟩
      ∧ t₁.content t.active
        = .image (imageAt (content s.storage.device) (s.cache.slotOffset s.cache.activeSlot)) := by
  have hend := le_blockCeil h.layout.sector_pos (4096 + imageSize.toNat)
  have hfits := installCalls_fit hr h version hsum hceil hlen hlater
  obtain ⟨hist, s', t', hrun, hlist, hallows, hrep, hslots⟩ := storeRun_allowed hr h hfits
  obtain ⟨h₁, h₂, rfl, hfirst, hsecond⟩ := List.map_eq_append_iff.mp hlist
  rw [purposes, List.map_append] at hallows
  obtain ⟨t₁, hinstall, hrest⟩ := hallows.split
  have hops : (purposes h₁).map Prod.fst
      = TwoBanks.installOps imageSize.toNat version chunks t.active.other := by
    rw [← purpose_installCalls h.free, ← hfirst, List.map_map, List.map_map]
    rfl
  obtain ⟨hoks, hact, -, hold, hnew⟩ := TwoBanks.installs hinstall hops (by omega) hsum hstart
  have holdImage : t.content t.active
      = .image (imageAt (content s.storage.device) (s.cache.slotOffset s.cache.activeSlot)) := by
    rw [h.banks, ← h.active]
    exact contentOf_image ((verify_iff s.storage h.backend hr.toReadable s.cache
      (by rw [h.active]; exact slotOf_le _)).mp hv)
  exact ⟨h₁, h₂, s', t₁, t', hrun, hfirst, hsecond, hrest, hrep, hslots,
    fun x hx => hoks _ (List.mem_map_of_mem hx), hact, hnew, hold.trans holdImage⟩

/--
**An image that is installed is there for good.** Over a reliable flash, let an image come in
chunks that start on sectors and end in the free slot, while the active slot verifies. Then every
call of the installation succeeds. From then on, through any calls but chunks and their end, and
through reboots, the new image is in its slot and the old one in the other, byte for byte, and
every verification, activation and rollback succeeds.
-/
theorem installed_for_good (hr : b.Reliable content) {t : TwoBanks UInt32 UInt8}
    (h : Represents b content s t) (imageSize version : UInt32) (chunks : List (List UInt8))
    (hv : (s.cache.verify s.storage s.cache.activeSlot).1 = true)
    (hsum : chunks.flatten.length = imageSize.toNat)
    (hceil : blockCeil b.sectorSize.toNat (4096 + imageSize.toNat) ≤ s.cache.slotSize.toNat)
    (hlen : ∀ c ∈ chunks, c.length < 2147483648)
    (hstart : ∀ p ∈ pieceStarts 0 chunks, b.sectorSize.toNat ∣ p) (later : List PowerOp)
    (hlater : ∀ op ∈ later, (purpose op).uploads = false) :
    ∃ h₁ h₂ s', history imageStep s (installCalls s.cache imageSize version chunks ++ later)
        = some (h₁ ++ h₂, s')
      ∧ h₁.map Prod.fst = installCalls s.cache imageSize version chunks
      ∧ (∀ x ∈ h₁, x.2.1 = true)
      ∧ (∀ x ∈ h₂, (purpose x.1).chooses = true → x.2.1 = true)
      ∧ contentOf b.totalSize.toNat (content s'.storage.device)
          (s.cache.slotOffset s.cache.inactiveSlot) = .image ⟨version, chunks.flatten⟩
      ∧ contentOf b.totalSize.toNat (content s'.storage.device)
          (s.cache.slotOffset s.cache.activeSlot)
        = .image (imageAt (content s.storage.device) (s.cache.slotOffset s.cache.activeSlot)) := by
  obtain ⟨h₁, h₂, s', t₁, t', hrun, hfirst, hsecond, hrest, hrep, hslots, hoks, -, hnew, hold⟩ :=
    install_allowed hr h imageSize version chunks hv hsum hceil hlen hstart later hlater
  have hboth : t₁.Both := by
    intro x
    rcases Bank.eq_or_other t.active x with rfl | rfl
    · rw [hold]
      rfl
    · rw [hnew]
      rfl
  obtain ⟨hkeep, hchoose⟩ := TwoBanks.both_stay hrest (fun x hx => by
    obtain ⟨y, hy, rfl⟩ := List.mem_map.mp hx
    exact hlater _ (hsecond ▸ List.mem_map_of_mem hy)) hboth
  refine ⟨h₁, h₂, s', hrun, hfirst, hoks, fun x hx hc => ?_, ?_, ?_⟩
  · exact hchoose _ (List.mem_map_of_mem hx) hc
  · have hbank := hrep.banks t.active.other
    rw [hslots.slotOffset, hkeep, hnew] at hbank
    rw [h.free]
    exact hbank.symm
  · have hbank := hrep.banks t.active
    rw [hslots.slotOffset, hkeep, hold] at hbank
    rw [h.active] at hbank ⊢
    exact hbank.symm

/-- The running image in slot A, a sector and two bytes into slot B, back, and a reboot. -/
theorem installed_for_good_two_chunks :
    ∃ h₁ h₂ s', history imageStep
        { cache := testCache,
          storage := { testStorage with device := withImage testStorage.device 0x1000 0 [7] } }
        (installCalls testCache 4098 1 [List.replicate 4096 1, [2, 3]]
          ++ [.call .rollback, .reboot, .call (.activateSlot 1)]) = some (h₁ ++ h₂, s')
      ∧ (∀ x ∈ h₁, x.2.1 = true)
      ∧ contentOf 0x10000 s'.storage.device 0x5000
        = .image ⟨1, List.replicate 4096 1 ++ [2, 3]⟩ := by
  have hrep := storeOf_represents
    (testCache_sited (withImage testStorage.device 0x1000 0 [7]))
    (show ImagesFit 0x10000 (id (withImage testStorage.device 0x1000 0 [7])) testCache by
      intro slot hslot
      rcases le_one_cases hslot with rfl | rfl <;> decide) (by decide) rfl
  obtain ⟨h₁, h₂, s', hrun, -, hoks, -, hnew, -⟩ := installed_for_good testFlash_reliable hrep
    4098 1 [List.replicate 4096 1, [2, 3]] (by decide) (by decide +kernel) (by decide)
    (by decide +kernel) (by decide +kernel) [.call .rollback, .reboot, .call (.activateSlot 1)]
    (by decide)
  exact ⟨h₁, h₂, s', hrun, hoks, hnew⟩

end TaktOS.Proof
