import TaktOS.Proof.BootAgreement
import TaktOS.Proof.ImageRuns

/-!
# The update path never leaves the system without firmware

The service and the recovery manager reach the flash through the firmware cache only, and every
call of theirs comes down to calls of the cache. So what the cache keeps along its runs the system
keeps along its own, whatever state the manager is in and in whatever order it is called.
-/

namespace TaktOS.Proof

open Lib Bootloader

variable {δ : Type} {b : FlashBackend δ} {content : δ → Nat → UInt8}

/-- The cache of a system, with its storage. -/
def cacheOf (w : World δ) : CacheState δ := { cache := w.cache, storage := w.storage }

/-- The flash is that of a store of two images, and the active one is whole. -/
def InOrder (b : FlashBackend δ) (content : δ → Nat → UInt8) (s : CacheState δ) : Prop :=
  ∃ t, Represents b content s t ∧ t.Sound

/-- A chunk that goes to the cache fits there. -/
def ChunkFits (b : FlashBackend δ) (w : World δ) : WorldOp → Prop
  | .feedChunk data | .receiveChunk data =>
    Fits b (cacheOf w) (.call (.session (.writeChunk data)))
  | _ => True

instance (b : FlashBackend δ) (w : World δ) : ∀ op, Decidable (ChunkFits b w op)
  | .feedChunk data | .receiveChunk data =>
    inferInstanceAs (Decidable (Fits b _ (.call (.session (.writeChunk data)))))
  | .startUpdate .. | .completeUpdate | .otaRollback | .shutdown | .recoveryInit _
  | .startDfuListener | .finalizeDfu | .recoveryRollback | .abort | .tick
  | .markBootSuccessful => isTrue trivial

/-! ## Calls of the cache -/

/-- A call of the cache that fits returns, and leaves the flash in order. -/
theorem InOrder.call (hr : b.Reliable content) {s : CacheState δ} (h : InOrder b content s)
    (op : CacheOp) (hfits : Fits b s (.call op)) :
    ∃ ok s', storeCall s (.call op) = some (ok, s') ∧ InOrder b content s' := by
  obtain ⟨t, hrep, hsound⟩ := h
  obtain ⟨ok, s', hcall⟩ := storeCall_returns hr hrep hfits
  obtain ⟨t', hstep, hrep'⟩ := storeCall_allowed hr hrep hfits hcall
  refine ⟨ok, s', hcall, t', hrep', hstep.sound hsound fun hop => ?_⟩
  exact absurd (purpose_restart hop) (by simp)

/-- A system with a cache and a storage that are in order. -/
theorem InOrder.congr {s : CacheState δ} {w' : World δ} (h : InOrder b content s)
    (hcache : w'.cache = s.cache) (hstorage : w'.storage = s.storage) :
    InOrder b content (cacheOf w') := by
  unfold cacheOf
  rw [hcache, hstorage]
  exact h

section Cache

variable {w : World δ}

theorem InOrder.beginWrite (hr : b.Reliable content) (h : InOrder b content (cacheOf w))
    (imageSize version : UInt32) :
    InOrder b content
      { cache := (w.cache.beginWrite imageSize version).2, storage := w.storage } := by
  obtain ⟨ok, s', hcall, hs'⟩ := h.call hr (.session (.beginWrite imageSize version)) trivial
  obtain ⟨hres, hstorage⟩ := storeCall_beginWrite hcall
  obtain ⟨cache, storage⟩ := s'
  rw [show w.cache.beginWrite imageSize version = (ok, cache) from hres]
  rw [show w.storage = storage from hstorage.symm]
  exact hs'

theorem InOrder.writeChunk (hr : b.Reliable content) (h : InOrder b content (cacheOf w))
    {data : List UInt8} (hfits : Fits b (cacheOf w) (.call (.session (.writeChunk data)))) :
    ∃ n cache storage, w.cache.writeChunk w.storage data = some (n, cache, storage)
      ∧ InOrder b content { cache, storage } := by
  obtain ⟨ok, s', hcall, hs'⟩ := h.call hr _ hfits
  obtain ⟨⟨n, cache, storage⟩, hres, heq⟩ := Option.map_eq_some_iff.mp hcall
  obtain ⟨-, rfl⟩ := Prod.mk.inj heq
  exact ⟨n, cache, storage, hres, hs'⟩

theorem InOrder.finalizeWrite (hr : b.Reliable content) (h : InOrder b content (cacheOf w)) :
    ∃ ok cache storage, w.cache.finalizeWrite w.storage = some (ok, cache, storage)
      ∧ InOrder b content { cache, storage } := by
  obtain ⟨ok, s', hcall, hs'⟩ := h.call hr (.session .finalizeWrite) trivial
  obtain ⟨⟨ok', cache, storage⟩, hres, heq⟩ := Option.map_eq_some_iff.mp hcall
  obtain ⟨-, rfl⟩ := Prod.mk.inj heq
  exact ⟨ok', cache, storage, hres, hs'⟩

theorem InOrder.activateSlot (hr : b.Reliable content) {cache : FirmwareCache}
    {storage : StorageManager δ} (h : InOrder b content { cache, storage }) (slot : UInt8) :
    ∃ ok cache' storage', cache.activateSlot storage slot = some (ok, cache', storage')
      ∧ InOrder b content { cache := cache', storage := storage' } := by
  obtain ⟨ok, s', hcall, hs'⟩ := h.call hr (.activateSlot slot) trivial
  obtain ⟨⟨ok', cache', storage'⟩, hres, heq⟩ := Option.map_eq_some_iff.mp hcall
  obtain ⟨-, rfl⟩ := Prod.mk.inj heq
  exact ⟨ok', cache', storage', hres, hs'⟩

theorem InOrder.rollback (hr : b.Reliable content) (h : InOrder b content (cacheOf w)) :
    ∃ ok cache storage, w.cache.rollback w.storage = some (ok, cache, storage)
      ∧ InOrder b content { cache, storage } := by
  obtain ⟨ok, s', hcall, hs'⟩ := h.call hr .rollback trivial
  obtain ⟨⟨ok', cache, storage⟩, hres, heq⟩ := Option.map_eq_some_iff.mp hcall
  obtain ⟨-, rfl⟩ := Prod.mk.inj heq
  exact ⟨ok', cache, storage, hres, hs'⟩

end Cache

/-! ## Calls of the service and the manager -/

/-- The call returns and leaves the flash in order. -/
def Orderly (b : FlashBackend δ) (content : δ → Nat → UInt8) {ρ : Type}
    (call : Option (ρ × World δ)) : Prop :=
  ∃ r w', call = some (r, w') ∧ InOrder b content (cacheOf w')

section World

variable {w : World δ}

theorem startDfuListener_inOrder (h : InOrder b content (cacheOf w)) :
    InOrder b content (cacheOf (RecoveryManager.startDfuListener w).2) := by
  refine h.congr ?_ ?_ <;>
  · unfold RecoveryManager.startDfuListener
    dsimp only
    split <;> simp [World.setRecovery, cacheOf]

theorem startUpdate_inOrder (hr : b.Reliable content) (h : InOrder b content (cacheOf w))
    (transport : OtaTransport) (imageSize version : UInt32) :
    InOrder b content (cacheOf (OtaService.startUpdate w transport imageSize version).2) := by
  have hbegin := h.beginWrite hr imageSize version
  unfold OtaService.startUpdate
  dsimp only
  split
  · rename_i cache hb
    rw [show w.cache.beginWrite imageSize version = (false, cache) from hb] at hbegin
    exact hbegin
  · rename_i cache hb
    rw [show w.cache.beginWrite imageSize version = (true, cache) from hb] at hbegin
    refine InOrder.congr (startDfuListener_inOrder ?_) rfl rfl
    exact hbegin

theorem receiveChunk_orderly (hr : b.Reliable content) (h : InOrder b content (cacheOf w))
    {data : List UInt8} (hfits : Fits b (cacheOf w) (.call (.session (.writeChunk data)))) :
    Orderly b content (RecoveryManager.receiveChunk w data) := by
  by_cases hl : w.recovery.state = .awaitingImage ∨ w.recovery.state = .receiving
  · obtain ⟨n, cache, storage, hres, hs'⟩ := h.writeChunk hr hfits
    refine ⟨n, afterChunk w n cache storage, by rw [receiveChunk_listening hl, hres]; rfl, ?_⟩
    unfold cacheOf
    rw [afterChunk_cache, afterChunk_storage]
    exact hs'
  · exact ⟨-1, w, receiveChunk_deaf hl data, h⟩

theorem feedChunk_orderly (hr : b.Reliable content) (h : InOrder b content (cacheOf w))
    {data : List UInt8} (hfits : Fits b (cacheOf w) (.call (.session (.writeChunk data)))) :
    Orderly b content (OtaService.feedChunk w data) := by
  unfold OtaService.feedChunk
  split
  · exact ⟨-1, w, rfl, h⟩
  · obtain ⟨n, w', hrecv, hw'⟩ := receiveChunk_orderly hr h hfits
    rw [hrecv]
    dsimp only
    split
    · exact ⟨_, _, rfl, hw'.congr rfl rfl⟩
    · exact ⟨_, _, rfl, hw'⟩

theorem finalizeDfu_orderly (hr : b.Reliable content) (h : InOrder b content (cacheOf w)) :
    Orderly b content (RecoveryManager.finalizeDfu w) := by
  obtain ⟨ok, cache, storage, hfin, hs'⟩ := h.finalizeWrite hr
  unfold RecoveryManager.finalizeDfu
  dsimp only
  rw [setState_cache, setState_storage, hfin]
  cases ok with
  | false => exact ⟨_, _, rfl, hs'.congr (by simp [World.publish]) (by simp [World.publish])⟩
  | true =>
    obtain ⟨ok', cache', storage', hact, hs''⟩ := hs'.activateSlot hr cache.inactiveSlot
    dsimp only
    rw [setState_cache, setState_storage]
    dsimp only
    rw [hact]
    cases ok' with
    | false => exact ⟨_, _, rfl, hs''.congr (by simp) (by simp)⟩
    | true => exact ⟨_, _, rfl, hs''.congr (by simp [World.publish]) (by simp [World.publish])⟩

theorem completeUpdate_orderly (hr : b.Reliable content) (h : InOrder b content (cacheOf w)) :
    Orderly b content (OtaService.completeUpdate w) := by
  unfold OtaService.completeUpdate
  split
  · exact ⟨false, w, rfl, h⟩
  · obtain ⟨ok, w', hfin, hw'⟩ := finalizeDfu_orderly hr h
    rw [hfin]
    cases ok with
    | false => exact ⟨_, _, rfl, hw'.congr rfl rfl⟩
    | true => exact ⟨_, _, rfl, hw'.congr rfl rfl⟩

theorem recoveryRollback_orderly (hr : b.Reliable content) (h : InOrder b content (cacheOf w)) :
    Orderly b content (RecoveryManager.rollback w) := by
  obtain ⟨ok, cache, storage, hroll, hs'⟩ := h.rollback hr
  unfold RecoveryManager.rollback
  dsimp only
  rw [setState_cache, setState_storage, hroll]
  cases ok with
  | false => exact ⟨_, _, rfl, hs'.congr (by simp) (by simp)⟩
  | true => exact ⟨_, _, rfl, hs'.congr (by simp [World.publish]) (by simp [World.publish])⟩

theorem otaRollback_orderly (hr : b.Reliable content) (h : InOrder b content (cacheOf w)) :
    Orderly b content (OtaService.rollback w) := by
  obtain ⟨ok, cache, storage, hroll, hs'⟩ := h.rollback hr
  unfold OtaService.rollback
  dsimp only [World.setOta]
  rw [hroll]
  exact ⟨_, _, rfl, hs'.congr rfl rfl⟩

theorem abort_inOrder (h : InOrder b content (cacheOf w)) :
    InOrder b content (cacheOf (RecoveryManager.abort w)) :=
  h.congr (setState_cache w .idle) (setState_storage w .idle)

/-- **Every call returns and leaves the flash in order.** -/
theorem worldStep_inOrder (hr : b.Reliable content) (h : InOrder b content (cacheOf w))
    {op : WorldOp} (hfits : ChunkFits b w op) :
    ∃ w', worldStep w op = some w' ∧ InOrder b content (cacheOf w') := by
  have horder : ∀ {ρ : Type} {call : Option (ρ × World δ)}, Orderly b content call →
      ∃ w', call.map (fun t => t.2) = some w' ∧ InOrder b content (cacheOf w') := by
    rintro ρ call ⟨r, w', rfl, hw'⟩
    exact ⟨w', rfl, hw'⟩
  cases op with
  | startUpdate transport imageSize version =>
    exact ⟨_, rfl, startUpdate_inOrder hr h transport imageSize version⟩
  | feedChunk data => exact horder (feedChunk_orderly hr h hfits)
  | completeUpdate => exact horder (completeUpdate_orderly hr h)
  | otaRollback => exact horder (otaRollback_orderly hr h)
  | shutdown => exact ⟨_, rfl, abort_inOrder (h.congr rfl rfl)⟩
  | recoveryInit channel => exact ⟨_, rfl, h.congr rfl rfl⟩
  | startDfuListener => exact ⟨_, rfl, startDfuListener_inOrder h⟩
  | receiveChunk data => exact horder (receiveChunk_orderly hr h hfits)
  | finalizeDfu => exact horder (finalizeDfu_orderly hr h)
  | recoveryRollback => exact horder (recoveryRollback_orderly hr h)
  | abort => exact ⟨_, rfl, abort_inOrder h⟩
  | tick => exact ⟨_, rfl, by rw [tick_eq]; exact h⟩
  | markBootSuccessful => exact ⟨_, rfl, h.congr rfl rfl⟩

end World

/-! ## The theorem -/

/-- A boot of the host that finds a whole image in a slot does not take the emergency mode. -/
theorem boot_not_emergency (hr : b.Readable content) {fc : FirmwareCache} {sm : StorageManager δ}
    (hb : sm.backend = some b) {slot : UInt8} (hslot : slot ≤ 1)
    (hv : (fc.verify sm slot).1 = true) (stored : BootConfig) :
    (entry stored (.host fc sm)).mode ≠ .emergency := by
  obtain ⟨d, hd, hcont⟩ := verify_after sm (readKeeps_content hb hr (content sm.device)) rfl fc 0
  rw [entry_mode]
  have hdecision := determineBootMode_decision (entry stored (.host fc sm)).stored (.host fc sm)
  generalize determineBootMode (entry stored (.host fc sm)).stored (.host fc sm) = decision
    at hdecision
  cases hdecision with
  | emergency _ hA hB =>
    have hA' : (fc.verify sm 0).1 = false := hA
    have hB' : (fc.verify (fc.verify sm 0).2 1).1 = false := hB
    -- slot B is read from the flash that verifying slot A left, which holds the same
    rw [hd, verify_congr sm { sm with device := d } hb hb hr fun _ => by rw [hcont]] at hB'
    rcases le_one_cases hslot with rfl | rfl
    · exact absurd (hA'.symm.trans hv) (by decide)
    · exact absurd (hB'.symm.trans hv) (by decide)
  | _ => exact BootMode.noConfusion

/--
**Whatever the update path does, there is firmware to boot.** Over a reliable flash, from a state
in which the active slot verifies, every run of calls on the service and the recovery manager in
which the chunks fit their slot returns: updates started over one another, aborted or finalized at
any point, rolled back by either. At its end the active slot verifies, and with no boot record
a boot that finds the slots in their places takes the emergency mode.
-/
theorem system_keeps_firmware (hr : b.Reliable content) {w : World δ}
    (hs : Sited b (cacheOf w))
    (hfit : ImagesFit b.totalSize.toNat (content w.storage.device) w.cache)
    (hact : w.cache.activeSlot ≤ 1) (hw : w.cache.writing = false)
    (hv : (w.cache.verify w.storage w.cache.activeSlot).1 = true) {ops : List WorldOp}
    (hops : Along worldStep (ChunkFits b) w ops) :
    ∃ w', run worldStep w ops = some w'
      ∧ (w'.cache.verify w'.storage w'.cache.activeSlot).1 = true
      ∧ ∀ stored fc, SameSlots w'.cache fc →
        (entry stored (.host fc w'.storage)).mode ≠ .emergency := by
  have hrep := storeOf_represents hs hfit hact hw
  have hstart : InOrder b content (cacheOf w) := ⟨_, hrep, (hrep.sound_iff hr.toReadable).mpr hv⟩
  obtain ⟨w', hrun, t, hrep', hsound⟩ := run_returns_along
    (fun w => InOrder b content (cacheOf w)) (fun w op hi hp => worldStep_inOrder hr hi hp)
    hstart hops
  have hv' : (w'.cache.verify w'.storage w'.cache.activeSlot).1 = true :=
    (hrep'.sound_iff hr.toReadable).mp hsound
  have hle : w'.cache.activeSlot ≤ 1 := by
    rw [show w'.cache.activeSlot = slotOf t.active from hrep'.active]
    exact slotOf_le _
  refine ⟨w', hrun, hv', fun stored fc hslots => ?_⟩
  have hb' : w'.storage.backend = some b := hrep'.backend
  refine boot_not_emergency hr.toReadable hb' hle ?_ stored
  -- where the slots are decides what verifies
  rw [verify_iff w'.storage hb' hr.toReadable _ hle] at hv' ⊢
  rw [hslots.slotOffset]
  exact hv'

/-- The test's system, running an image in slot A. -/
def runningSlotA : World (Nat → UInt8) where
  cache := testCache
  storage := { testStorage with device := withImage testStorage.device 0x1000 0 [7] }

/-- An update that is cut off by another, finalized, and rolled back. -/
theorem system_keeps_firmware_two_updates :
    ∃ w', run worldStep runningSlotA
        [.startUpdate .wifi 3 1, .feedChunk [1], .startUpdate .ble 2 2, .feedChunk [1, 2],
          .completeUpdate, .recoveryRollback, .abort] = some w'
      ∧ (w'.cache.verify w'.storage w'.cache.activeSlot).1 = true := by
  have hfits : Along worldStep (ChunkFits (memBackend 0x10000 4096)) runningSlotA
      [.startUpdate .wifi 3 1, .feedChunk [1], .startUpdate .ble 2 2, .feedChunk [1, 2],
        .completeUpdate, .recoveryRollback, .abort] := by decide +kernel
  have himages : ImagesFit 0x10000 (id runningSlotA.storage.device) runningSlotA.cache := by
    intro slot hslot
    rcases le_one_cases hslot with rfl | rfl <;> decide
  have hsited : Sited (memBackend 0x10000 4096) (cacheOf runningSlotA) := testCache_sited _
  obtain ⟨w', hrun, hv, -⟩ := system_keeps_firmware testFlash_reliable hsited himages (by decide)
    rfl (by decide) hfits
  exact ⟨w', hrun, hv⟩

end TaktOS.Proof
