import TaktOS.Proof.DfuIsolation

/-!
# Which outcome an update is announced with

An image that does not verify fails at two layers, and each publishes `OtaFailed`. The
service's `rollback` publishes `OtaRollback` whatever came of it; the manager's publishes it
once the cache has rolled back.
-/

namespace TaktOS.Proof

open Lib

variable {δ : Type}

/-! ## Announced outcomes -/

/-- The events that end an update. -/
def terminal : Event → Bool
  | .otaComplete => true
  | .otaFailed => true
  | .otaRollback => true
  | _ => false

/-- The terminal events that were published, latest first. -/
def outcomes (ns : List Notice) : List Event :=
  ns.filterMap fun
    | .published event _ _ => if terminal event then some event else none
    | _ => none

/-- The call, if it returns, publishes `done` for true and `failed` for false. -/
def Announces (w : World δ) (done failed : List Event) : Option (Bool × World δ) → Prop
  | none => True
  | some (ok, w') => outcomes w'.notices = (if ok then done else failed) ++ outcomes w.notices

/-- **The terminal events match the outcome of the call.** -/
def OutcomeAnnounced (w : World δ) : WorldOp → Prop
  | .completeUpdate => w.ota.active = true →
      Announces w [.otaComplete] [.otaFailed] (OtaService.completeUpdate w)
  | .otaRollback => Announces w [.otaRollback] [] (OtaService.rollback w)
  | .recoveryRollback => Announces w [.otaRollback] [] (RecoveryManager.rollback w)
  | _ => True

instance (w : World δ) (done failed : List Event) (r : Option (Bool × World δ)) :
    Decidable (Announces w done failed r) :=
  match r with
  | none => inferInstanceAs (Decidable True)
  | some (ok, w') => inferInstanceAs (Decidable (outcomes w'.notices
      = (if ok then done else failed) ++ outcomes w.notices))

instance (w : World δ) (op : WorldOp) : Decidable (OutcomeAnnounced w op) := by
  unfold OutcomeAnnounced
  split <;> infer_instance

/-! ## The condition -/

/-- The cache has a session open, and its image verifies once the header is written. -/
def ImageVerifies (w : World δ) : Prop :=
  w.cache.writing = true
    ∧ match headerWrite w with
      | none => True
      | some (_, sm) => (w.cache.verify sm w.cache.inactiveSlot).1 = true

instance (w : World δ) : Decidable (ImageVerifies w) := by
  unfold ImageVerifies
  split <;> infer_instance

/-- The inactive slot verifies, both times a rollback checks it. -/
def RollbackVerifies (w : World δ) : Prop :=
  let (ok, sm) := w.cache.verify w.storage w.cache.inactiveSlot
  ok = true ∧ (w.cache.verify sm w.cache.inactiveSlot).1 = true

/-- An active session is closed with an image that verifies, and the service rolls back to one. -/
def FailsNowhere (w : World δ) : WorldOp → Prop
  | .completeUpdate => w.ota.active = true → ImageVerifies w
  | .otaRollback => RollbackVerifies w
  | _ => True

/-! ## What setting a state announces -/

theorem outcomes_publish (w : World δ) {event : Event} (h : terminal event = true)
    (param1 param2 : UInt32) :
    outcomes (w.publish event param1 param2).notices = event :: outcomes w.notices :=
  List.filterMap_cons_some (if_pos h)

theorem outcomes_setState (w : World δ) (s : DfuState) :
    outcomes (RecoveryManager.setState w s).notices = outcomes w.notices := by
  unfold RecoveryManager.setState RecoveryManager.notifyProgress
  dsimp only [World.setRecovery, World.setOta]
  split
  · rfl
  · rfl
  · split <;> rfl

/-! ## Completing an update -/

theorem imageVerifies_iff (w : World δ) :
    ImageVerifies w ↔ ∀ p, w.cache.finalizeWrite w.storage ≠ some (false, p) := by
  cases hwriting : w.cache.writing with
  | false => simp [FirmwareCache.finalizeWrite, ImageVerifies, hwriting]
  | true =>
    cases hw : headerWrite w with
    | none =>
      unfold headerWrite at hw
      simp [FirmwareCache.finalizeWrite, ImageVerifies, headerWrite, hwriting, hw]
    | some p =>
      obtain ⟨k, sm⟩ := p
      rw [finalizeWrite_open hwriting hw]
      simp [ImageVerifies, hwriting, hw]

/-- What finalizing announces, by where it ends. -/
theorem finalizeDfu_announces {w w' : World δ} {ok : Bool}
    (h : RecoveryManager.finalizeDfu w = some (ok, w')) :
    (¬ ImageVerifies w ∧ ok = false ∧ outcomes w'.notices = .otaFailed :: outcomes w.notices)
      ∨ (ImageVerifies w ∧ ok = false ∧ outcomes w'.notices = outcomes w.notices)
      ∨ (ImageVerifies w ∧ ok = true
        ∧ outcomes w'.notices = .otaComplete :: outcomes w.notices) := by
  have hverifies : ∀ {p}, w.cache.finalizeWrite w.storage = some (true, p) →
      ImageVerifies w := by
    intro p hfin
    rw [imageVerifies_iff, hfin]
    simp
  rcases finalizeDfu_cases h with ⟨cache, storage, hfin, rfl, rfl⟩
    | ⟨cache, storage, cache', storage', hfin, -, rfl⟩
  · refine Or.inl ⟨fun hyes => (imageVerifies_iff w).mp hyes _ hfin, rfl, ?_⟩
    rw [outcomes_publish _ rfl, outcomes_setState, outcomes_setState]
  · cases ok with
    | false =>
      refine Or.inr (Or.inl ⟨hverifies hfin, rfl, ?_⟩)
      rw [if_neg Bool.false_ne_true, outcomes_setState, outcomes_setState, outcomes_setState]
    | true =>
      refine Or.inr (Or.inr ⟨hverifies hfin, rfl, ?_⟩)
      rw [if_pos rfl]
      dsimp only
      rw [outcomes_publish _ rfl, outcomes_setState, outcomes_setState, outcomes_setState]

/-- An image that does not verify is rejected, so a call that does not return got past it. -/
theorem imageVerifies_of_stuck {w : World δ} (h : RecoveryManager.finalizeDfu w = none) :
    ImageVerifies w := by
  refine (imageVerifies_iff w).mpr fun p hfin => ?_
  unfold RecoveryManager.finalizeDfu at h
  dsimp only at h
  rw [setState_cache, setState_storage, hfin] at h
  exact absurd h (by simp)

/-- **Completing an active update announces its outcome unless the image does not verify**, which
both layers announce. -/
theorem completeUpdate_announces_iff {w : World δ} (ha : w.ota.active = true) :
    Announces w [.otaComplete] [.otaFailed] (OtaService.completeUpdate w) ↔ ImageVerifies w := by
  unfold OtaService.completeUpdate
  rw [if_neg (by rw [ha]; simp)]
  cases hfin : RecoveryManager.finalizeDfu w with
  | none =>
    exact iff_of_true trivial (imageVerifies_of_stuck hfin)
  | some p =>
    obtain ⟨ok, w₁⟩ := p
    rcases finalizeDfu_announces hfin with ⟨hno, rfl, hout⟩ | ⟨hyes, rfl, hout⟩
      | ⟨hyes, rfl, hout⟩
    · -- once by the manager and once more by the service
      refine iff_of_false (fun htold => ?_) hno
      have hlen := congrArg List.length htold
      rw [World.setOta, outcomes_publish _ rfl, hout] at hlen
      simp at hlen
    · refine iff_of_true ?_ hyes
      show outcomes (World.setOta _ _).notices = _
      rw [World.setOta, outcomes_publish _ rfl, hout]
      rfl
    · exact iff_of_true hout hyes

/-! ## Rolling back -/

theorem rollbackVerifies_iff (w : World δ) :
    RollbackVerifies w ↔ ∀ p, w.cache.rollback w.storage ≠ some (false, p) := by
  have hslot : ¬ w.cache.inactiveSlot > 1 := by
    unfold FirmwareCache.inactiveSlot
    split <;> decide
  unfold FirmwareCache.rollback RollbackVerifies
  dsimp only
  cases hfirst : (w.cache.verify w.storage w.cache.inactiveSlot).1 with
  | false => simp
  | true =>
    simp only [Bool.not_true, Bool.false_eq_true, if_false, true_and]
    unfold FirmwareCache.activateSlot
    rw [if_neg hslot]
    dsimp only
    cases hsecond : (w.cache.verify (w.cache.verify w.storage w.cache.inactiveSlot).2
        w.cache.inactiveSlot).1 with
    | false => simp
    | true =>
      simp only [Bool.not_true, Bool.false_eq_true, if_false]
      split <;> simp

/-- The manager announces a rollback that was made, and no other. -/
theorem recoveryRollback_announces (w : World δ) :
    Announces w [.otaRollback] [] (RecoveryManager.rollback w) := by
  unfold RecoveryManager.rollback
  dsimp only
  rw [setState_cache, setState_storage]
  split
  · trivial
  · show outcomes _ = outcomes w.notices
    rw [outcomes_setState, outcomes_setState]
  · show outcomes (World.publish _ _).notices = .otaRollback :: outcomes w.notices
    rw [outcomes_publish _ rfl, outcomes_setState, outcomes_setState]

/-- **The service announces a rollback that was refused as well.** -/
theorem otaRollback_announces_iff (w : World δ) :
    Announces w [.otaRollback] [] (OtaService.rollback w) ↔ RollbackVerifies w := by
  unfold OtaService.rollback
  dsimp only [World.setOta]
  cases hroll : w.cache.rollback w.storage with
  | none =>
    exact iff_of_true trivial ((rollbackVerifies_iff w).mpr (by simp [hroll]))
  | some p =>
    obtain ⟨ok, cache, storage⟩ := p
    cases ok with
    | false =>
      refine iff_of_false (fun htold => ?_)
        (fun hyes => (rollbackVerifies_iff w).mp hyes _ hroll)
      have hlen := congrArg List.length htold
      rw [outcomes_publish _ rfl] at hlen
      simp at hlen
    | true =>
      refine iff_of_true ?_ ((rollbackVerifies_iff w).mpr (by simp [hroll]))
      show outcomes (World.publish _ _).notices = _
      rw [outcomes_publish _ rfl]
      rfl

/-! ## The theorem -/

theorem outcomeAnnounced_iff (w : World δ) (op : WorldOp) :
    OutcomeAnnounced w op ↔ FailsNowhere w op := by
  unfold OutcomeAnnounced FailsNowhere
  cases op with
  | completeUpdate => exact forall_congr' completeUpdate_announces_iff
  | otaRollback => exact otaRollback_announces_iff w
  | recoveryRollback => exact iff_of_true (recoveryRollback_announces w) trivial
  | _ => exact Iff.rfl

/--
**Outcomes are announced as they are if and only if nothing fails where both layers speak.** For
every run of the calls on service and manager, from any state and over any backend: each
completion of an active session and each rollback publishes the one terminal event of its
outcome if and only if every session completed has an image that verifies once its header is
written, and every rollback of the service finds an inactive slot that verifies.
-/
theorem outcomes_announced_iff (w : World δ) (ops : List WorldOp) :
    Along worldStep OutcomeAnnounced w ops ↔ Along worldStep FailsNowhere w ops :=
  along_iff_of_invariant (fun _ => True) (fun _ _ _ _ _ _ => trivial)
    (fun w op _ => outcomeAnnounced_iff w op) trivial

/--
**A short image fails twice, and a refused rollback is announced**: one byte of two was fed, and
the only other slot is the one that failed.
-/
theorem failure_announced_twice :
    (run worldStep freshWorld [.startUpdate .wifi 2 7, .feedChunk [3], .completeUpdate]).map
        (fun w => outcomes w.notices) = some [.otaFailed, .otaFailed]
      ∧ (OtaService.rollback freshWorld).map (fun p => (p.1, outcomes p.2.notices))
        = some (false, [.otaRollback])
      ∧ ¬ Along worldStep OutcomeAnnounced freshWorld
        [.startUpdate .wifi 2 7, .feedChunk [3], .completeUpdate]
      ∧ ¬ Along worldStep OutcomeAnnounced freshWorld [.otaRollback] := by
  refine ⟨?_, ?_, ?_, ?_⟩ <;> decide +kernel

/-- An update that is fed whole announces its completion. -/
example : Along worldStep OutcomeAnnounced freshWorld
    [.startUpdate .wifi 2 7, .feedChunk [3, 4], .completeUpdate, .recoveryRollback] := by
  decide +kernel

end TaktOS.Proof
