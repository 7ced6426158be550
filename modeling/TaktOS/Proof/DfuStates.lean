import Mathlib.Data.List.Chain
import TaktOS.Proof.DfuInstall

/-!
# The manager's states against the documented diagram

`receiveChunk` is the only call that looks at the state it is made in. `startDfuListener`,
`finalizeDfu` and `rollback` set theirs from wherever they are called, so a run follows the
diagram exactly if its caller makes them where the diagram has them.
-/

namespace TaktOS.Proof

open Lib

variable {δ : Type}

/-! ## The diagram -/

/-- The arrows of the documented state machine. -/
def diagram : DfuState → DfuState → Bool
  | .idle, .awaitingImage => true
  | .awaitingImage, .receiving => true
  | .receiving, .verifying => true
  | .verifying, .installing => true
  | .verifying, .failed => true
  | .installing, .complete => true
  | .installing, .failed => true
  | .failed, .rollingBack => true
  | .rollingBack, .complete => true
  | .rollingBack, .failed => true
  | _, _ => false

/-- The manager's calls, with whatever else works on the cache and its flash in between. -/
inductive DfuOp (δ : Type) where
  | init (channel : RecoveryChannel)
  | startDfuListener
  | receiveChunk (data : List UInt8)
  | finalizeDfu
  | rollback
  | abort
  | tick
  | elsewhere (cache : FirmwareCache) (storage : StorageManager δ)

/-- A state set again is no change; only `abort` may go to `Idle`. -/
def MayChange : DfuOp δ → DfuState → DfuState → Prop
  | .abort, s, t => s = t ∨ diagram s t = true ∨ t = .idle
  | _, s, t => s = t ∨ diagram s t = true

instance (op : DfuOp δ) : DecidableRel (MayChange op) := fun s t => by
  unfold MayChange
  split <;> infer_instance

/-! ## Runs of the manager -/

/-- The system, and whether a chunk was taken since the manager began to wait for an image. -/
structure DfuRun (δ : Type) where
  world : World δ
  received : Bool := false

def dfuStep (s : DfuRun δ) : DfuOp δ → Option (DfuRun δ)
  | .init channel => some { s with world := (RecoveryManager.init s.world channel).2 }
  | .startDfuListener =>
    some { world := (RecoveryManager.startDfuListener s.world).2, received := false }
  | .receiveChunk data =>
    (RecoveryManager.receiveChunk s.world data).map fun (n, w) =>
      { world := w, received := s.received || 0 < n }
  | .finalizeDfu => (RecoveryManager.finalizeDfu s.world).map fun (_, w) => { s with world := w }
  | .rollback => (RecoveryManager.rollback s.world).map fun (_, w) => { s with world := w }
  | .abort => some { s with world := RecoveryManager.abort s.world }
  | .tick => some { s with world := RecoveryManager.tick s.world }
  | .elsewhere cache storage => some { s with world := { s.world with cache, storage } }

/-- The states a call sets, in order: also those of a call that does not return. -/
def trail (w : World δ) : DfuOp δ → List DfuState
  | .startDfuListener => [.awaitingImage]
  | .receiveChunk _ => if w.recovery.state = .awaitingImage then [.receiving] else []
  | .finalizeDfu =>
    match w.cache.finalizeWrite w.storage with
    | none => [.verifying]
    | some (false, _, _) => [.verifying, .failed]
    | some (true, cache, storage) =>
      match cache.activateSlot storage cache.inactiveSlot with
      | none => [.verifying, .installing]
      | some (false, _, _) => [.verifying, .installing, .failed]
      | some (true, _, _) => [.verifying, .installing, .complete]
  | .rollback =>
    match w.cache.rollback w.storage with
    | none => [.rollingBack]
    | some (false, _, _) => [.rollingBack, .failed]
    | some (true, _, _) => [.rollingBack, .complete]
  | .abort => [.idle]
  | .init _ => []
  | .tick => []
  | .elsewhere _ _ => []

/-- **The call follows the diagram**, and installs nothing but an image that was received. -/
def FollowsDiagram (s : DfuRun δ) (op : DfuOp δ) : Prop :=
  (s.world.recovery.state :: trail s.world op).IsChain (MayChange op)
    ∧ (.installing ∈ trail s.world op → s.received = true)

instance (s : DfuRun δ) (op : DfuOp δ) : Decidable (FollowsDiagram s op) :=
  inferInstanceAs (Decidable (_ ∧ (_ → _)))

/-- The cache closes its session with an image that verifies. -/
def ClosesWhole (w : World δ) : Prop := ∃ p, w.cache.finalizeWrite w.storage = some (true, p)

instance (w : World δ) : Decidable (ClosesWhole w) :=
  match h : w.cache.finalizeWrite w.storage with
  | some (true, p) => isTrue ⟨p, h⟩
  | some (false, _) => isFalse fun ⟨_, hp⟩ => by rw [h] at hp; cases hp
  | none => isFalse fun ⟨_, hp⟩ => by rw [h] at hp; cases hp

/-- The call is made where the diagram has it. -/
def CalledInPlace (s : DfuRun δ) : DfuOp δ → Prop
  | .startDfuListener =>
    s.world.recovery.state = .idle ∨ s.world.recovery.state = .awaitingImage
  | .finalizeDfu =>
    (s.world.recovery.state = .receiving ∨ s.world.recovery.state = .verifying)
      ∧ (ClosesWhole s.world → s.received = true)
  | .rollback => s.world.recovery.state = .failed ∨ s.world.recovery.state = .rollingBack
  | _ => True

instance (s : DfuRun δ) (op : DfuOp δ) : Decidable (CalledInPlace s op) := by
  unfold CalledInPlace
  split <;> infer_instance

/-! ## The trail is what a client sees -/

/-- The states a client's progress callback was called with, in order. -/
def seen (notices : List Notice) : List DfuState :=
  (notices.filterMap fun
    | .recoveryProgress _ _ state => some state
    | _ => none).reverse

@[simp] theorem seen_published (event : Event) (param1 param2 : UInt32) (ns : List Notice) :
    seen (.published event param1 param2 :: ns) = seen ns := rfl

@[simp] theorem seen_recoveryProgress (rx total : UInt32) (state : DfuState) (ns : List Notice) :
    seen (.recoveryProgress rx total state :: ns) = seen ns ++ [state] := by
  simp [seen]

theorem seen_notifyProgress {w : World δ} (hcb : w.recovery.progressCb = .client) :
    seen (RecoveryManager.notifyProgress w).notices = seen w.notices ++ [w.recovery.state] := by
  rw [RecoveryManager.notifyProgress, hcb]
  exact seen_recoveryProgress _ _ _ _

theorem seen_setState {w : World δ} (hcb : w.recovery.progressCb = .client) (s : DfuState) :
    seen (RecoveryManager.setState w s).notices = seen w.notices ++ [s] :=
  seen_notifyProgress (w := w.setRecovery fun r => { r with state := s }) hcb

/-- A call that does not set the state again leaves the last one it set. -/
theorem rollback_trail {w w' : World δ} {ok : Bool}
    (h : RecoveryManager.rollback w = some (ok, w')) :
    w'.recovery.state = (trail w .rollback).getLastD w.recovery.state
      ∧ (w.recovery.progressCb = .client →
        seen w'.notices = seen w.notices ++ trail w .rollback) := by
  obtain ⟨cache, storage, hroll, rfl⟩ := managerRollback_cases h
  rw [trail, hroll]
  cases ok with
  | false =>
    refine ⟨by simp, fun hcb => ?_⟩
    dsimp only
    rw [if_neg Bool.false_ne_true, seen_setState (by simpa using hcb)]
    simp [seen_setState hcb]
  | true =>
    refine ⟨by simp [World.publish], fun hcb => ?_⟩
    dsimp only
    rw [if_pos rfl, World.publish, seen_published, seen_setState (by simpa using hcb)]
    simp [seen_setState hcb]

theorem finalizeDfu_trail {w w' : World δ} {ok : Bool}
    (h : RecoveryManager.finalizeDfu w = some (ok, w')) :
    w'.recovery.state = (trail w .finalizeDfu).getLastD w.recovery.state
      ∧ (w.recovery.progressCb = .client →
        seen w'.notices = seen w.notices ++ trail w .finalizeDfu) := by
  rcases finalizeDfu_cases h with ⟨cache, storage, hfin, rfl, rfl⟩
    | ⟨cache, storage, cache', storage', hfin, hact, rfl⟩
  · rw [trail, hfin]
    refine ⟨by simp [World.publish], fun hcb => ?_⟩
    rw [World.publish, seen_published, seen_setState (by simpa using hcb)]
    simp [seen_setState hcb]
  · rw [trail, hfin]
    dsimp only
    rw [hact]
    cases ok with
    | false =>
      refine ⟨by simp, fun hcb => ?_⟩
      rw [if_neg Bool.false_ne_true, seen_setState (by simpa using hcb)]
      dsimp only
      rw [seen_setState (by simpa using hcb)]
      simp [seen_setState hcb]
    | true =>
      refine ⟨by simp [World.publish], fun hcb => ?_⟩
      rw [if_pos rfl, World.publish]
      dsimp only
      rw [seen_published, seen_setState (by simpa using hcb)]
      dsimp only
      rw [seen_setState (by simpa using hcb)]
      simp [seen_setState hcb]

/-- A chunk that counts is reported once more, in the state it is received in. -/
theorem receiveChunk_trail {w w' : World δ} {data : List UInt8} {n : Int}
    (h : RecoveryManager.receiveChunk w data = some (n, w')) :
    w'.recovery.state = (trail w (.receiveChunk data)).getLastD w.recovery.state
      ∧ (w.recovery.progressCb = .client →
        seen w'.notices = seen w.notices ++ trail w (.receiveChunk data)
          ++ if 0 < n then [w'.recovery.state] else []) := by
  by_cases hl : w.recovery.state = .awaitingImage ∨ w.recovery.state = .receiving
  · rw [receiveChunk_listening hl] at h
    obtain ⟨⟨written, cache, storage⟩, hwr, hres⟩ := Option.map_eq_some_iff.mp h
    cases hres
    have hstate : (afterChunk w written cache storage).recovery.state = .receiving := by
      rw [afterChunk_recovery hl]
    rw [hstate]
    refine ⟨?_, fun hcb => ?_⟩
    · rw [trail]
      split
      · rfl
      · rename_i hwait
        exact (hl.resolve_left hwait).symm
    · -- the change to `Receiving`, if there is one, and then the chunk
      have hseen : seen (receiving w).notices = seen w.notices ++ trail w (.receiveChunk data) := by
        unfold receiving
        rw [trail]
        split
        · exact seen_setState hcb _
        · exact (List.append_nil _).symm
      have hcb' : (receiving w).recovery.progressCb = .client := by
        rw [receiving_recovery hl]
        exact hcb
      unfold afterChunk
      dsimp only
      split
      · rw [seen_notifyProgress (by exact hcb'), World.publish, seen_published]
        dsimp only [World.setRecovery]
        rw [hseen, receiving_recovery hl]
      · rw [List.append_nil]
        exact hseen
  · rw [receiveChunk_deaf hl] at h
    cases h
    rw [trail, if_neg fun ha => hl (.inl ha)]
    exact ⟨rfl, fun _ => by simp⟩

/--
**The trail is what the calls do**: it ends in the state a call leaves, and a client's callback
is called with the states of the trail and then only with the last one.
-/
theorem dfuStep_trail {s s' : DfuRun δ} {op : DfuOp δ} (h : dfuStep s op = some s') :
    s'.world.recovery.state = (trail s.world op).getLastD s.world.recovery.state
      ∧ (s.world.recovery.progressCb = .client →
        ∃ again, (∀ t ∈ again, t = s'.world.recovery.state)
          ∧ seen s'.world.notices = seen s.world.notices ++ trail s.world op ++ again) := by
  cases op with
  | init channel =>
    cases h
    exact ⟨rfl, fun _ => ⟨[], by simp, by simp [trail, RecoveryManager.init, World.setRecovery]⟩⟩
  | startDfuListener =>
    cases h
    have hlisten : ∀ w : World δ, (RecoveryManager.startDfuListener w).2.recovery.state
          = .awaitingImage
        ∧ (RecoveryManager.startDfuListener w).2.notices
          = (RecoveryManager.setState w .awaitingImage).notices := by
      intro w
      unfold RecoveryManager.startDfuListener
      dsimp only
      split <;> simp [World.setRecovery]
    refine ⟨(hlisten _).1, fun hcb => ⟨[], by simp, ?_⟩⟩
    dsimp only
    rw [(hlisten _).2, seen_setState hcb, List.append_nil]
    rfl
  | receiveChunk data =>
    obtain ⟨⟨n, w'⟩, hc, rfl⟩ := Option.map_eq_some_iff.mp h
    obtain ⟨hstate, hseen⟩ := receiveChunk_trail hc
    refine ⟨hstate, fun hcb => ⟨_, ?_, hseen hcb⟩⟩
    intro t ht
    split at ht
    · exact List.mem_singleton.mp ht
    · cases ht
  | finalizeDfu =>
    obtain ⟨⟨ok, w'⟩, hc, rfl⟩ := Option.map_eq_some_iff.mp h
    obtain ⟨hstate, hseen⟩ := finalizeDfu_trail hc
    exact ⟨hstate, fun hcb => ⟨[], by simp, by rw [List.append_nil]; exact hseen hcb⟩⟩
  | rollback =>
    obtain ⟨⟨ok, w'⟩, hc, rfl⟩ := Option.map_eq_some_iff.mp h
    obtain ⟨hstate, hseen⟩ := rollback_trail hc
    exact ⟨hstate, fun hcb => ⟨[], by simp, by rw [List.append_nil]; exact hseen hcb⟩⟩
  | abort =>
    cases h
    refine ⟨by simp [RecoveryManager.abort, World.setRecovery, trail], fun hcb => ?_⟩
    refine ⟨[], by simp, ?_⟩
    rw [List.append_nil]
    exact seen_setState hcb _
  | tick =>
    cases h
    exact ⟨rfl, fun _ => ⟨[], by simp, by simp [trail, RecoveryManager.tick]⟩⟩
  | elsewhere cache storage =>
    cases h
    exact ⟨rfl, fun _ => ⟨[], by simp, by simp [trail]⟩⟩

/-! ## The theorem -/

theorem MayChange.arrow {op : DfuOp δ} {s t : DfuState} (h : diagram s t = true) :
    MayChange op s t := by
  unfold MayChange
  split
  · exact Or.inr (Or.inl h)
  · exact Or.inr h

theorem mayChange_listen (s : DfuState) :
    MayChange (δ := δ) .startDfuListener s .awaitingImage ↔ s = .idle ∨ s = .awaitingImage := by
  change s = .awaitingImage ∨ diagram s .awaitingImage = true ↔ _
  cases s <;> decide

theorem mayChange_finalize (s : DfuState) :
    MayChange (δ := δ) .finalizeDfu s .verifying ↔ s = .receiving ∨ s = .verifying := by
  change s = .verifying ∨ diagram s .verifying = true ↔ _
  cases s <;> decide

theorem mayChange_rollback (s : DfuState) :
    MayChange (δ := δ) .rollback s .rollingBack ↔ s = .failed ∨ s = .rollingBack := by
  change s = .rollingBack ∨ diagram s .rollingBack = true ↔ _
  cases s <;> decide

/-- A call follows the diagram exactly when it is made in its place. -/
theorem followsDiagram_iff (s : DfuRun δ) (op : DfuOp δ) :
    FollowsDiagram s op ↔ CalledInPlace s op := by
  unfold FollowsDiagram CalledInPlace
  cases op with
  | init channel => simp [trail]
  | startDfuListener => simp [trail, mayChange_listen]
  | receiveChunk data =>
    dsimp only [trail]
    split
    · rename_i hstate
      simp [hstate, MayChange, diagram]
    · simp
  | finalizeDfu =>
    -- past `Verifying` every change is an arrow
    have hrej : MayChange (δ := δ) .finalizeDfu .verifying .failed := .arrow rfl
    have hver : MayChange (δ := δ) .finalizeDfu .verifying .installing := .arrow rfl
    have hbad : MayChange (δ := δ) .finalizeDfu .installing .failed := .arrow rfl
    have hdone : MayChange (δ := δ) .finalizeDfu .installing .complete := .arrow rfl
    dsimp only [trail, ClosesWhole]
    split
    · rename_i hfin
      simp [mayChange_finalize, hfin]
    · rename_i hfin
      simp [mayChange_finalize, hfin, hrej]
    · rename_i hfin
      split <;> simp [mayChange_finalize, hfin, hver, hbad, hdone]
  | rollback =>
    have hbad : MayChange (δ := δ) .rollback .rollingBack .failed := .arrow rfl
    have hdone : MayChange (δ := δ) .rollback .rollingBack .complete := .arrow rfl
    dsimp only [trail]
    split <;> simp [mayChange_rollback, hbad, hdone]
  | abort => simp [trail, MayChange]
  | tick => simp [trail]
  | elsewhere cache storage => simp [trail]

/--
**A run follows the diagram exactly when its calls are made in their places**: `startDfuListener`
in `Idle` or `AwaitingImage`, `rollback` in `Failed`, `finalizeDfu` in `Receiving` and, if the
cache then closes a session that verifies, after a chunk was taken. In every other state the
call sets its own state all the same. This is for every run and every outcome of the cache.
-/
theorem follows_diagram_iff (s : DfuRun δ) (ops : List (DfuOp δ)) :
    Along dfuStep FollowsDiagram s ops ↔ Along dfuStep CalledInPlace s ops := by
  constructor
  · exact along_of_invariant (fun _ => True) (fun _ _ _ _ _ _ => trivial)
      (fun s op _ h => (followsDiagram_iff s op).mp h) trivial
  · exact along_of_invariant (fun _ => True) (fun _ _ _ _ _ _ => trivial)
      (fun s op _ h => (followsDiagram_iff s op).mpr h) trivial

/--
**An aborted update installs**: the session it opened is still there, so finalizing goes from
`Idle` through `Installing` to `Complete`, with no image received.
-/
theorem finalize_after_abort_leaves_diagram :
    ¬ Along dfuStep FollowsDiagram { world := (OtaService.startUpdate freshWorld .wifi 0 7).2 }
        [.abort, .finalizeDfu] := by
  decide

/-- An update, made in its order, follows the diagram to its end. -/
example : Along dfuStep FollowsDiagram { world := (OtaService.startUpdate freshWorld .wifi 2 7).2 }
    [.receiveChunk [3], .receiveChunk [4], .tick, .finalizeDfu] := by
  decide +kernel

end TaktOS.Proof
