import TaktOS.Lib.Run
import TaktOS.Proof.BootRecord
import TaktOS.Proof.Operations
import TaktOS.Services.OtaService

/-!
# The boot record against the firmware cache

Installing an image switches the active slot and requests it from the bootloader. Rolling
back switches the slot and leaves the request: the two stores agree in every state a run
reaches unless a rollback succeeds while a request is pending.
-/

namespace TaktOS.Proof

open Lib Bootloader

variable {δ : Type}

/-! ## Runs of the system -/

/-- The calls on the service, the manager and the bootloader that a running system makes. -/
inductive WorldOp where
  | startUpdate (transport : OtaTransport) (imageSize version : UInt32)
  | feedChunk (data : List UInt8)
  | completeUpdate
  | otaRollback
  | shutdown
  | recoveryInit (channel : RecoveryChannel)
  | startDfuListener
  | receiveChunk (data : List UInt8)
  | finalizeDfu
  | recoveryRollback
  | abort
  | tick
  | markBootSuccessful

def worldStep (w : World δ) : WorldOp → Option (World δ)
  | .startUpdate transport imageSize version =>
    some (OtaService.startUpdate w transport imageSize version).2
  | .feedChunk data => (OtaService.feedChunk w data).map fun t => t.2
  | .completeUpdate => (OtaService.completeUpdate w).map fun t => t.2
  | .otaRollback => (OtaService.rollback w).map fun t => t.2
  | .shutdown => some (OtaService.shutdown w)
  | .recoveryInit channel => some (RecoveryManager.init w channel).2
  | .startDfuListener => some (RecoveryManager.startDfuListener w).2
  | .receiveChunk data => (RecoveryManager.receiveChunk w data).map fun t => t.2
  | .finalizeDfu => (RecoveryManager.finalizeDfu w).map fun t => t.2
  | .recoveryRollback => (RecoveryManager.rollback w).map fun t => t.2
  | .abort => some (RecoveryManager.abort w)
  | .tick => some (OtaService.tick w)
  | .markBootSuccessful => some { w with bootConfig := Bootloader.markBootSuccessful w.bootConfig }

/-- **The stores agree**: a pending request is for the active slot. -/
def Agree (w : World δ) : Prop :=
  (loaded w.bootConfig).mode = 2 → (loaded w.bootConfig).otaSlot = w.cache.activeSlot

def WorldOp.isRollback : WorldOp → Bool
  | .otaRollback => true
  | .recoveryRollback => true
  | _ => false

/-- A rollback is refused, because the inactive slot does not verify, or finds no request. -/
def NoRequestRolledBack (w : World δ) (op : WorldOp) : Prop :=
  op.isRollback = true →
    (loaded w.bootConfig).mode ≠ 2 ∨ (w.cache.verify w.storage w.cache.inactiveSlot).1 = false

instance (w : World δ) (op : WorldOp) : Decidable (NoRequestRolledBack w op) :=
  inferInstanceAs (Decidable (_ → _ ∨ _))

/-! ## Notifying touches neither store -/

theorem notifyProgress_stores (w : World δ) :
    (RecoveryManager.notifyProgress w).cache = w.cache
      ∧ (RecoveryManager.notifyProgress w).storage = w.storage
      ∧ (RecoveryManager.notifyProgress w).bootConfig = w.bootConfig := by
  unfold RecoveryManager.notifyProgress
  split
  · exact ⟨rfl, rfl, rfl⟩
  · exact ⟨rfl, rfl, rfl⟩
  · -- the service's lambda only adds to the notices and its own totals
    dsimp only [World.setOta]
    split <;> exact ⟨rfl, rfl, rfl⟩

@[simp] theorem notifyProgress_cache (w : World δ) :
    (RecoveryManager.notifyProgress w).cache = w.cache := (notifyProgress_stores w).1

@[simp] theorem notifyProgress_storage (w : World δ) :
    (RecoveryManager.notifyProgress w).storage = w.storage := (notifyProgress_stores w).2.1

@[simp] theorem notifyProgress_bootConfig (w : World δ) :
    (RecoveryManager.notifyProgress w).bootConfig = w.bootConfig := (notifyProgress_stores w).2.2

@[simp] theorem setState_cache (w : World δ) (s : DfuState) :
    (RecoveryManager.setState w s).cache = w.cache := notifyProgress_cache _

@[simp] theorem setState_storage (w : World δ) (s : DfuState) :
    (RecoveryManager.setState w s).storage = w.storage := notifyProgress_storage _

@[simp] theorem setState_bootConfig (w : World δ) (s : DfuState) :
    (RecoveryManager.setState w s).bootConfig = w.bootConfig := notifyProgress_bootConfig _

/-! ## What a chunk does to the system -/

/-- The system in which a listening manager hands a chunk on. -/
def receiving (w : World δ) : World δ :=
  if w.recovery.state = .awaitingImage then RecoveryManager.setState w .receiving else w

/-- The system after the cache was handed the chunk and returned. -/
def afterChunk (w : World δ) (written : Int) (cache : FirmwareCache)
    (storage : StorageManager δ) : World δ :=
  let w := { receiving w with cache, storage }
  if written > 0 then
    let received := w.recovery.received + UInt32.ofInt written
    RecoveryManager.notifyProgress
      ((w.setRecovery fun r => { r with received }).publish .otaProgress received
        w.recovery.totalSize)
  else w

/-- A listening manager hands the chunk to the cache. -/
theorem receiveChunk_listening {w : World δ}
    (hl : w.recovery.state = .awaitingImage ∨ w.recovery.state = .receiving)
    (data : List UInt8) :
    RecoveryManager.receiveChunk w data
      = (w.cache.writeChunk w.storage data).map fun t =>
          (t.1, afterChunk w t.1 t.2.1 t.2.2) := by
  have hstate : ¬ (w.recovery.state ≠ .awaitingImage ∧ w.recovery.state ≠ .receiving) :=
    fun hne => hl.elim hne.1 hne.2
  have hcache : (receiving w).cache = w.cache := by unfold receiving; split <;> simp
  have hstore : (receiving w).storage = w.storage := by unfold receiving; split <;> simp
  rw [RecoveryManager.receiveChunk, if_neg hstate]
  dsimp only
  rw [show (if w.recovery.state = .awaitingImage then RecoveryManager.setState w .receiving
    else w) = receiving w from rfl, hcache, hstore]
  cases w.cache.writeChunk w.storage data with
  | none => rfl
  | some t =>
    dsimp only [Option.map_some, afterChunk]
    split <;> rfl

/-- In any other state a call does nothing. -/
theorem receiveChunk_deaf {w : World δ}
    (hl : ¬ (w.recovery.state = .awaitingImage ∨ w.recovery.state = .receiving))
    (data : List UInt8) : RecoveryManager.receiveChunk w data = some (-1, w) := by
  rw [RecoveryManager.receiveChunk, if_pos (not_or.mp hl)]

theorem afterChunk_cache (w : World δ) (written : Int) (cache : FirmwareCache)
    (storage : StorageManager δ) : (afterChunk w written cache storage).cache = cache := by
  unfold afterChunk
  dsimp only
  split <;> simp [World.publish, World.setRecovery]

theorem afterChunk_storage (w : World δ) (written : Int) (cache : FirmwareCache)
    (storage : StorageManager δ) : (afterChunk w written cache storage).storage = storage := by
  unfold afterChunk
  dsimp only
  split <;> simp [World.publish, World.setRecovery]

theorem afterChunk_bootConfig (w : World δ) (written : Int) (cache : FirmwareCache)
    (storage : StorageManager δ) :
    (afterChunk w written cache storage).bootConfig = w.bootConfig := by
  have hboot : (receiving w).bootConfig = w.bootConfig := by unfold receiving; split <;> simp
  unfold afterChunk
  dsimp only
  split <;> simp [World.publish, World.setRecovery, hboot]

/-! ## What a call does to the two stores -/

/-- Every effect a call has on the boot record and the active slot. -/
inductive BootEffect (w : World δ) (op : WorldOp) (w' : World δ) : Prop where
  | kept (hrec : w'.bootConfig = w.bootConfig)
      (hslot : w'.cache.activeSlot = w.cache.activeSlot)
  | installed (hrec : w'.bootConfig = requestOtaBoot w.bootConfig w'.cache.activeSlot)
  | switched (hop : op.isRollback = true)
      (hv : (w.cache.verify w.storage w.cache.inactiveSlot).1 = true)
      (hrec : w'.bootConfig = w.bootConfig)
  | marked (hrec : w'.bootConfig = markBootSuccessful w.bootConfig)

/-- The two stores after a call that touches neither. -/
def Kept (w w' : World δ) : Prop :=
  w'.bootConfig = w.bootConfig ∧ w'.cache.activeSlot = w.cache.activeSlot

/-- The two stores after a call that may have installed an image. -/
def KeptOrInstalled (w w' : World δ) : Prop :=
  Kept w w' ∨ w'.bootConfig = requestOtaBoot w.bootConfig w'.cache.activeSlot

/-- The two stores after a call that may have rolled the cache back. -/
def KeptOrSwitched (w w' : World δ) : Prop :=
  w'.bootConfig = w.bootConfig
    ∧ (w'.cache.activeSlot = w.cache.activeSlot
      ∨ (w.cache.verify w.storage w.cache.inactiveSlot).1 = true)

theorem Kept.effect {w w' : World δ} (h : Kept w w') (op : WorldOp) : BootEffect w op w' :=
  .kept h.1 h.2

theorem KeptOrInstalled.effect {w w' : World δ} (h : KeptOrInstalled w w') (op : WorldOp) :
    BootEffect w op w' := by
  rcases h with hkept | hinst
  · exact hkept.effect op
  · exact .installed hinst

theorem KeptOrSwitched.effect {w w' : World δ} (h : KeptOrSwitched w w') {op : WorldOp}
    (hop : op.isRollback = true) : BootEffect w op w' := by
  obtain ⟨hrec, hslot | hv⟩ := h
  · exact .kept hrec hslot
  · exact .switched hop hv hrec

theorem startDfuListener_kept (w : World δ) : Kept w (RecoveryManager.startDfuListener w).2 := by
  unfold RecoveryManager.startDfuListener
  dsimp only
  split <;> exact ⟨setState_bootConfig _ _, congrArg _ (setState_cache _ _)⟩

theorem startUpdate_kept (w : World δ) (transport : OtaTransport) (imageSize version : UInt32) :
    Kept w (OtaService.startUpdate w transport imageSize version).2 := by
  have hslot := beginWrite_activeSlot w.cache imageSize version
  unfold OtaService.startUpdate
  dsimp only
  split
  · rename_i cache hb
    rw [show w.cache.beginWrite imageSize version = (false, cache) from hb] at hslot
    exact ⟨rfl, hslot⟩
  · rename_i cache hb
    rw [show w.cache.beginWrite imageSize version = (true, cache) from hb] at hslot
    obtain ⟨hrec, hlisten⟩ := startDfuListener_kept _
    exact ⟨hrec, hlisten.trans hslot⟩

theorem receiveChunk_kept {w w' : World δ} {data : List UInt8} {n : Int}
    (h : RecoveryManager.receiveChunk w data = some (n, w')) : Kept w w' := by
  by_cases hl : w.recovery.state = .awaitingImage ∨ w.recovery.state = .receiving
  · rw [receiveChunk_listening hl] at h
    obtain ⟨⟨written, cache, storage⟩, hwr, hres⟩ := Option.map_eq_some_iff.mp h
    cases hres
    refine ⟨afterChunk_bootConfig .., ?_⟩
    rw [afterChunk_cache]
    exact writeChunk_activeSlot hwr
  · rw [receiveChunk_deaf hl] at h
    cases h
    exact ⟨rfl, rfl⟩

theorem feedChunk_kept {w w' : World δ} {data : List UInt8} {n : Int}
    (h : OtaService.feedChunk w data = some (n, w')) : Kept w w' := by
  unfold OtaService.feedChunk at h
  split at h
  · injection h with h; injection h with _ h
    exact h ▸ ⟨rfl, rfl⟩
  · split at h
    · exact absurd h (by simp)
    · rename_i k w₁ hrecv
      have hkept := receiveChunk_kept hrecv
      split at h <;>
      · injection h with h; injection h with _ h
        rw [← h]
        exact hkept

/-- Everything a finalization that returns can have done. -/
theorem finalizeDfu_cases {w w' : World δ} {ok : Bool}
    (h : RecoveryManager.finalizeDfu w = some (ok, w')) :
    -- the image does not verify
    (∃ cache storage, w.cache.finalizeWrite w.storage = some (false, cache, storage) ∧ ok = false ∧
      w' = (RecoveryManager.setState { RecoveryManager.setState w .verifying with cache, storage }
        .failed).publish .otaFailed) ∨
    ∃ cache storage cache' storage',
      w.cache.finalizeWrite w.storage = some (true, cache, storage) ∧
      cache.activateSlot storage cache.inactiveSlot = some (ok, cache', storage') ∧
      w' =
        let w₁ := RecoveryManager.setState
          { RecoveryManager.setState w .verifying with cache, storage } .installing
        if ok then
          { (RecoveryManager.setState { w₁ with cache := cache', storage := storage' }
              .complete).publish .otaComplete with
            bootConfig := requestOtaBoot w.bootConfig cache.inactiveSlot }
        else RecoveryManager.setState { w₁ with cache := cache', storage := storage' } .failed := by
  unfold RecoveryManager.finalizeDfu at h
  dsimp only at h
  rw [setState_cache, setState_storage] at h
  split at h
  · exact absurd h (by simp)
  · rename_i cache storage hfin
    injection h with h; injection h with hok h
    exact Or.inl ⟨cache, storage, hfin, hok.symm, h.symm⟩
  · rename_i cache storage hfin
    rw [setState_cache, setState_storage] at h
    split at h
    · exact absurd h (by simp)
    · rename_i cache' storage' hact
      injection h with h; injection h with hok h
      subst hok
      exact Or.inr ⟨cache, storage, cache', storage', hfin, by simpa using hact, h.symm⟩
    · rename_i cache' storage' hact
      injection h with h; injection h with hok h
      subst hok
      refine Or.inr ⟨cache, storage, cache', storage', hfin, by simpa using hact, ?_⟩
      rw [← h]
      simp [World.publish]

/-- Finalizing installs an image and requests it, or does neither. -/
theorem finalizeDfu_effect {w w' : World δ} {ok : Bool}
    (h : RecoveryManager.finalizeDfu w = some (ok, w')) : KeptOrInstalled w w' := by
  rcases finalizeDfu_cases h with ⟨cache, storage, hfin, -, rfl⟩
    | ⟨cache, storage, cache', storage', hfin, hact, rfl⟩
  · refine Or.inl ⟨by simp [World.publish], ?_⟩
    simpa [World.publish] using finalizeWrite_activeSlot hfin
  · have hslot := activateSlot_activeSlot hact
    cases ok with
    | false =>
      refine Or.inl ⟨by simp, ?_⟩
      simpa using hslot.trans (finalizeWrite_activeSlot hfin)
    | true =>
      -- installed: the slot activated is the slot requested
      refine Or.inr ?_
      simp [World.publish, hslot]

/-- Everything a rollback by the manager that returns can have done. -/
theorem managerRollback_cases {w w' : World δ} {ok : Bool}
    (h : RecoveryManager.rollback w = some (ok, w')) :
    ∃ cache storage, w.cache.rollback w.storage = some (ok, cache, storage) ∧
      w' =
        let w₁ : World δ := { RecoveryManager.setState w .rollingBack with cache, storage }
        if ok then (RecoveryManager.setState w₁ .complete).publish .otaRollback
        else RecoveryManager.setState w₁ .failed := by
  unfold RecoveryManager.rollback at h
  dsimp only at h
  rw [setState_cache, setState_storage] at h
  split at h
  · exact absurd h (by simp)
  · rename_i cache storage hroll
    injection h with h; injection h with hok h
    subst hok
    exact ⟨cache, storage, hroll, h.symm⟩
  · rename_i cache storage hroll
    injection h with h; injection h with hok h
    subst hok
    exact ⟨cache, storage, hroll, h.symm⟩

theorem serviceRollback_cases {w w' : World δ} {ok : Bool}
    (h : OtaService.rollback w = some (ok, w')) :
    ∃ cache storage, w.cache.rollback w.storage = some (ok, cache, storage) ∧
      w' = ({ w.setOta fun ota => { ota with active := false } with cache, storage } :
        World δ).publish .otaRollback := by
  unfold OtaService.rollback at h
  dsimp only at h
  split at h
  · exact absurd h (by simp)
  · rename_i okRoll cache storage hroll
    injection h with h; injection h with hok h
    subst hok
    exact ⟨cache, storage, hroll, h.symm⟩

theorem recoveryRollback_effect {w w' : World δ} {ok : Bool}
    (h : RecoveryManager.rollback w = some (ok, w')) : KeptOrSwitched w w' := by
  obtain ⟨cache, storage, hroll, rfl⟩ := managerRollback_cases h
  have hslot := rollback_activeSlot hroll
  cases ok with
  | false => exact ⟨by simp, by simpa using hslot⟩
  | true => exact ⟨by simp [World.publish], by simpa [World.publish] using hslot⟩

theorem otaRollback_effect {w w' : World δ} {ok : Bool}
    (h : OtaService.rollback w = some (ok, w')) : KeptOrSwitched w w' := by
  obtain ⟨cache, storage, hroll, rfl⟩ := serviceRollback_cases h
  exact ⟨rfl, rollback_activeSlot hroll⟩

theorem completeUpdate_effect {w w' : World δ} {ok : Bool}
    (h : OtaService.completeUpdate w = some (ok, w')) : KeptOrInstalled w w' := by
  unfold OtaService.completeUpdate at h
  split at h
  · injection h with h; injection h with _ h
    exact Or.inl (h ▸ ⟨rfl, rfl⟩)
  · split at h
    · exact absurd h (by simp)
    · rename_i w₁ hfin
      injection h with h; injection h with _ h
      have heffect := finalizeDfu_effect hfin
      rw [← h]
      exact heffect
    · rename_i w₁ hfin
      injection h with h; injection h with _ h
      have heffect := finalizeDfu_effect hfin
      rw [← h]
      exact heffect

theorem abort_kept (w : World δ) : Kept w (RecoveryManager.abort w) :=
  ⟨setState_bootConfig _ _, congrArg _ (setState_cache _ _)⟩

/-- A tick of the service reads nothing and changes nothing. -/
theorem tick_eq (w : World δ) : OtaService.tick w = w := by
  unfold OtaService.tick RecoveryManager.tick
  split <;> rfl

/-- **Every call has one of the four effects.** -/
theorem worldStep_effect {w w' : World δ} {op : WorldOp} (h : worldStep w op = some w') :
    BootEffect w op w' := by
  cases op with
  | startUpdate transport imageSize version =>
    rw [← Option.some.inj h]
    exact (startUpdate_kept w transport imageSize version).effect _
  | feedChunk data =>
    obtain ⟨⟨n, w₁⟩, hc, rfl⟩ := Option.map_eq_some_iff.mp h
    exact (feedChunk_kept hc).effect _
  | completeUpdate =>
    obtain ⟨⟨ok, w₁⟩, hc, rfl⟩ := Option.map_eq_some_iff.mp h
    exact (completeUpdate_effect hc).effect _
  | otaRollback =>
    obtain ⟨⟨ok, w₁⟩, hc, rfl⟩ := Option.map_eq_some_iff.mp h
    exact (otaRollback_effect hc).effect rfl
  | shutdown =>
    rw [← Option.some.inj h]
    have hkept : Kept w (OtaService.shutdown w) :=
      abort_kept (w.setOta fun ota => { ota with active := false })
    exact hkept.effect _
  | recoveryInit channel =>
    rw [← Option.some.inj h]
    exact .kept rfl rfl
  | startDfuListener =>
    rw [← Option.some.inj h]
    exact (startDfuListener_kept w).effect _
  | receiveChunk data =>
    obtain ⟨⟨n, w₁⟩, hc, rfl⟩ := Option.map_eq_some_iff.mp h
    exact (receiveChunk_kept hc).effect _
  | finalizeDfu =>
    obtain ⟨⟨ok, w₁⟩, hc, rfl⟩ := Option.map_eq_some_iff.mp h
    exact (finalizeDfu_effect hc).effect _
  | recoveryRollback =>
    obtain ⟨⟨ok, w₁⟩, hc, rfl⟩ := Option.map_eq_some_iff.mp h
    exact (recoveryRollback_effect hc).effect rfl
  | abort =>
    rw [← Option.some.inj h]
    exact (abort_kept w).effect _
  | tick =>
    rw [← Option.some.inj h]
    rw [tick_eq]
    exact .kept rfl rfl
  | markBootSuccessful =>
    rw [← Option.some.inj h]
    exact .marked rfl

/-! ## The theorem -/

/-- **A call that rolls no request back keeps the stores in agreement.** -/
theorem agree_step {w w' : World δ} {op : WorldOp} (ha : Agree w)
    (hc : NoRequestRolledBack w op) (h : worldStep w op = some w') : Agree w' := by
  intro hmode
  cases worldStep_effect h with
  | kept hrec hslot =>
    rw [hrec] at hmode ⊢
    rw [hslot]
    exact ha hmode
  | installed hrec => rw [hrec, loaded_request]
  | switched hop hv hrec =>
    rw [hrec] at hmode
    rcases hc hop with hno | hrefused
    · exact absurd hmode hno
    · exact absurd (hv.symm.trans hrefused) (by simp)
  | marked hrec =>
    rw [hrec, loaded_mark] at hmode
    exact absurd hmode (show ¬ (0 : UInt8) = 2 by decide)

/--
**Boot record and firmware cache agree until a pending request is rolled back.** From a system
in which no request is pending, or one for the active slot, over any backend: in any run whose
rollbacks, of either class, are refused or find no request pending, every state reached has a
pending request for the active slot only.
-/
theorem agree_run {w w' : World δ} {ops : List WorldOp} (ha : Agree w)
    (hc : Along worldStep NoRequestRolledBack w ops) (h : run worldStep w ops = some w') :
    Agree w' :=
  run_invariant Agree (fun _ _ _ ha hc h => agree_step ha hc h) ha hc h

/-- The system after power-up on a flash with a running image in slot A. -/
def freshWorld : World (Nat → UInt8) where
  cache := testCache
  storage := { testStorage with device := withImage testStorage.device 0x1000 0 [1] }

/-- A complete update, confirmed before it is rolled back, keeps the stores in agreement. -/
theorem agree_confirmed_update :
    ∃ w', run worldStep freshWorld
        [.startUpdate .wifi 2 7, .feedChunk [3, 4], .completeUpdate, .markBootSuccessful,
          .otaRollback] = some w' ∧ Agree w' := by
  have hret : (run worldStep freshWorld
      [.startUpdate .wifi 2 7, .feedChunk [3, 4], .completeUpdate, .markBootSuccessful,
        .otaRollback]).isSome = true := by decide +kernel
  obtain ⟨w', hw'⟩ := Option.isSome_iff_exists.mp hret
  exact ⟨w', hw', agree_run (fun h => absurd h (by decide)) (by decide +kernel) hw'⟩

/--
**A rollback after an update leaves the request behind**: slot A is active again, and the
bootloader is still asked for slot B.
-/
theorem rollback_leaves_request :
    ∃ w', run worldStep freshWorld
        [.startUpdate .wifi 2 7, .feedChunk [3, 4], .completeUpdate, .otaRollback] = some w'
      ∧ ¬ Agree w' := by
  have hend : (run worldStep freshWorld
      [.startUpdate .wifi 2 7, .feedChunk [3, 4], .completeUpdate, .otaRollback]).map (fun w =>
        ((loaded w.bootConfig).mode, (loaded w.bootConfig).otaSlot, w.cache.activeSlot))
      = some (2, 1, 0) := by decide +kernel
  obtain ⟨w', hw', hres⟩ := Option.map_eq_some_iff.mp hend
  simp only [Prod.mk.injEq] at hres
  obtain ⟨hmode, hota, hactive⟩ := hres
  refine ⟨w', hw', fun ha => ?_⟩
  have := ha hmode
  rw [hota, hactive] at this
  exact absurd this (by decide)

end TaktOS.Proof
