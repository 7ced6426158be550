import TaktOS.Proof.BootAgreement

/-!
# Installing is all or nothing

`finalizeDfu` asks the cache for its inactive slot twice, once to close the session and once
to activate. Nothing switches in between, so both times it is the slot that was inactive at
the call: the switch, the request in the boot record and the state `Complete` come together,
or not at all.
-/

namespace TaktOS.Proof

open Lib Bootloader

variable {δ : Type}

/-! ## What a change of state leaves alone -/

@[simp] theorem notifyProgress_recovery (w : World δ) :
    (RecoveryManager.notifyProgress w).recovery = w.recovery := by
  unfold RecoveryManager.notifyProgress
  split
  · rfl
  · rfl
  · dsimp only [World.setOta]
    split <;> rfl

@[simp] theorem setState_recovery (w : World δ) (s : DfuState) :
    (RecoveryManager.setState w s).recovery = { w.recovery with state := s } :=
  notifyProgress_recovery _

/-- A listening manager is `Receiving` from the first chunk on. -/
theorem receiving_recovery {w : World δ}
    (hl : w.recovery.state = .awaitingImage ∨ w.recovery.state = .receiving) :
    (receiving w).recovery = { w.recovery with state := .receiving } := by
  unfold receiving
  split
  · exact setState_recovery _ _
  · rename_i hstate
    have hrecv : w.recovery.state = .receiving := hl.resolve_left hstate
    rw [← hrecv]

theorem afterChunk_recovery {w : World δ}
    (hl : w.recovery.state = .awaitingImage ∨ w.recovery.state = .receiving) (written : Int)
    (cache : FirmwareCache) (storage : StorageManager δ) :
    (afterChunk w written cache storage).recovery
      = { w.recovery with
          state := .receiving
          received := if written > 0 then w.recovery.received + UInt32.ofInt written
            else w.recovery.received } := by
  unfold afterChunk
  dsimp only
  split <;> simp [World.publish, World.setRecovery, receiving_recovery hl]

/-! ## What `finalizeDfu` can do -/

/-- The ways a call of `finalizeDfu` returns. -/
inductive FinalizeOutcome (w : World δ) : Bool → World δ → Prop where
  | rejected {w' : World δ}
      (hfin : w.cache.finalizeWrite w.storage = some (false, w'.cache, w'.storage))
      (hrec : w'.recovery = { w.recovery with state := .failed })
      (hboot : w'.bootConfig = w.bootConfig) : FinalizeOutcome w false w'
  | notActivated {w' : World δ} {cache : FirmwareCache} {storage : StorageManager δ}
      (hfin : w.cache.finalizeWrite w.storage = some (true, cache, storage))
      (hact : cache.activateSlot storage cache.inactiveSlot
        = some (false, w'.cache, w'.storage))
      (hrec : w'.recovery = { w.recovery with state := .failed })
      (hboot : w'.bootConfig = w.bootConfig) : FinalizeOutcome w false w'
  | installed {w' : World δ} {cache : FirmwareCache} {storage : StorageManager δ}
      (hfin : w.cache.finalizeWrite w.storage = some (true, cache, storage))
      (hact : cache.activateSlot storage cache.inactiveSlot
        = some (true, w'.cache, w'.storage))
      (hrec : w'.recovery = { w.recovery with state := .complete })
      (hboot : w'.bootConfig = requestOtaBoot w.bootConfig cache.inactiveSlot) :
      FinalizeOutcome w true w'

theorem finalizeDfu_outcome {w w' : World δ} {ok : Bool}
    (h : RecoveryManager.finalizeDfu w = some (ok, w')) : FinalizeOutcome w ok w' := by
  rcases finalizeDfu_cases h with ⟨cache, storage, hfin, rfl, rfl⟩
    | ⟨cache, storage, cache', storage', hfin, hact, rfl⟩
  · exact .rejected (by simpa [World.publish] using hfin) (by simp [World.publish])
      (by simp [World.publish])
  · cases ok with
    | false => exact .notActivated hfin (by simpa using hact) (by simp) (by simp)
    | true =>
      exact .installed hfin (by simpa [World.publish] using hact) (by simp [World.publish])
        (by simp [World.publish])

/-- The inactive slot follows from the active one. -/
theorem inactiveSlot_congr {fc fc' : FirmwareCache} (h : fc'.activeSlot = fc.activeSlot) :
    fc'.inactiveSlot = fc.inactiveSlot := by
  unfold FirmwareCache.inactiveSlot
  rw [h]

/-- Closing a session does not change which slot is inactive. -/
theorem finalizeWrite_inactiveSlot {fc fc' : FirmwareCache} {sm sm' : StorageManager δ}
    {ok : Bool} (h : fc.finalizeWrite sm = some (ok, fc', sm')) :
    fc'.inactiveSlot = fc.inactiveSlot := inactiveSlot_congr (finalizeWrite_activeSlot h)

/-! ## The theorem -/

/-- The system after an installation: the slot that was inactive is active and requested. -/
structure Installed (w w' : World δ) : Prop where
  activeSlot : w'.cache.activeSlot = w.cache.inactiveSlot
  intact : (loadBootConfig w'.bootConfig).1 = true
  mode : (loadBootConfig w'.bootConfig).2.mode = BootMode.otaPending.toByte
  otaSlot : (loadBootConfig w'.bootConfig).2.otaSlot = w.cache.inactiveSlot
  bootCount : (loadBootConfig w'.bootConfig).2.bootCount
    = (loadBootConfig w.bootConfig).2.bootCount
  state : w'.recovery.state = .complete

/-- The system after an installation that failed. -/
structure NotInstalled (w w' : World δ) : Prop where
  activeSlot : w'.cache.activeSlot = w.cache.activeSlot
  bootConfig : w'.bootConfig = w.bootConfig
  state : w'.recovery.state = .failed

/-- A request is stored with a CRC that matches. -/
theorem load_request (stored : BootConfig) (slot : UInt8) :
    loadBootConfig (requestOtaBoot stored slot)
      = (true, { loaded stored with mode := BootMode.otaPending.toByte, otaSlot := slot }) := by
  let config : BootConfig :=
    { loaded stored with mode := BootMode.otaPending.toByte, otaSlot := slot }
  have h := @load_save config (loaded_shape stored).1
  rw [← (loaded_shape stored).2] at h
  exact h

/--
**`finalizeDfu` installs or leaves everything.** For every state of the manager, the cache, the
boot record and the flash, over any backend: if it returns true, the slot that was inactive is
active and the stored record is intact and requests it; if it returns false, active slot and
record are what they were.
-/
theorem finalizeDfu_all_or_nothing {w w' : World δ} {ok : Bool}
    (h : RecoveryManager.finalizeDfu w = some (ok, w')) :
    (ok = true → Installed w w') ∧ (ok = false → NotInstalled w w') := by
  cases finalizeDfu_outcome h with
  | rejected hfin hrec hboot =>
    exact ⟨fun hok => absurd hok (by simp),
      fun _ => ⟨finalizeWrite_activeSlot hfin, hboot, by rw [hrec]⟩⟩
  | notActivated hfin hact hrec hboot =>
    have hslot := activateSlot_activeSlot hact
    exact ⟨fun hok => absurd hok (by simp),
      fun _ => ⟨hslot.trans (finalizeWrite_activeSlot hfin), hboot, by rw [hrec]⟩⟩
  | installed hfin hact hrec hboot =>
    have hslot := activateSlot_activeSlot hact
    rw [finalizeWrite_inactiveSlot hfin] at hslot hboot
    have hload := load_request w.bootConfig w.cache.inactiveSlot
    rw [← hboot] at hload
    refine ⟨fun _ => ?_, fun hok => absurd hok (by simp)⟩
    exact ⟨hslot, by rw [hload], by rw [hload], by rw [hload], by rw [hload]; rfl, by rw [hrec]⟩

/-- An update of two bytes on the fresh system is installed in slot B. -/
theorem finalizeDfu_installs :
    ∃ w w', run worldStep freshWorld [.startUpdate .wifi 2 7, .feedChunk [3, 4]] = some w
      ∧ RecoveryManager.finalizeDfu w = some (true, w') ∧ Installed w w' := by
  have hret : ((run worldStep freshWorld [.startUpdate .wifi 2 7, .feedChunk [3, 4]]).bind
      RecoveryManager.finalizeDfu).map (fun t => t.1) = some true := by decide +kernel
  obtain ⟨⟨ok, w'⟩, hbind, rfl⟩ := Option.map_eq_some_iff.mp hret
  obtain ⟨w, hw, hfin⟩ := Option.bind_eq_some_iff.mp hbind
  exact ⟨w, w', hw, hfin, (finalizeDfu_all_or_nothing hfin).1 rfl⟩

end TaktOS.Proof
