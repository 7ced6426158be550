import TaktOS.Lib.Run
import TaktOS.Proof.Operations

/-!
# The firmware cache as a transition system

A client calls the cache in any order it likes, so every statement about more than one
call is about runs of `cacheStep`, or of `sessionStep` where only the calls of an
update session are made. A step that does not return ends the run.
-/

namespace TaktOS.Proof

open Lib

variable {δ : Type}

/-- The two singletons a call works on. -/
structure CacheState (δ : Type) where
  cache : FirmwareCache
  storage : StorageManager δ

/-- The calls of an update session. -/
inductive SessionOp where
  | beginWrite (imageSize version : UInt32)
  | writeChunk (data : List UInt8)
  | finalizeWrite

/-- Every call on an initialised cache that changes anything, and `verify`. -/
inductive CacheOp where
  | session (op : SessionOp)
  | verify (slot : UInt8)
  | activateSlot (slot : UInt8)
  | rollback

def sessionStep (s : CacheState δ) : SessionOp → Option (CacheState δ)
  | .beginWrite imageSize version =>
    some { s with cache := (s.cache.beginWrite imageSize version).2 }
  | .writeChunk data =>
    (s.cache.writeChunk s.storage data).map fun t => { cache := t.2.1, storage := t.2.2 }
  | .finalizeWrite =>
    (s.cache.finalizeWrite s.storage).map fun t => { cache := t.2.1, storage := t.2.2 }

def cacheStep (s : CacheState δ) : CacheOp → Option (CacheState δ)
  | .session op => sessionStep s op
  | .verify slot => some { s with storage := (s.cache.verify s.storage slot).2 }
  | .activateSlot slot =>
    (s.cache.activateSlot s.storage slot).map fun t => { cache := t.2.1, storage := t.2.2 }
  | .rollback =>
    (s.cache.rollback s.storage).map fun t => { cache := t.2.1, storage := t.2.2 }

/-- A cache over the test's flash with content `m`, the calls the flash receives on record. -/
def watched (fc : FirmwareCache) (m : Nat → UInt8) :
    CacheState ((Nat → UInt8) × List FlashAccess) where
  cache := fc
  storage :=
    { target := .host, backend := some (memBackend 0x10000 4096).recorded, device := (m, []) }

/-! ## Reading a step back as the call it makes -/

variable {s s' : CacheState δ}

theorem writeChunk_step {data : List UInt8} (h : sessionStep s (.writeChunk data) = some s') :
    ∃ r, s.cache.writeChunk s.storage data = some (r, s'.cache, s'.storage) := by
  obtain ⟨⟨r, fc, sm⟩, hc, hs⟩ := Option.map_eq_some_iff.mp h
  exact ⟨r, by rw [hc, ← hs]⟩

theorem finalizeWrite_step (h : sessionStep s .finalizeWrite = some s') :
    ∃ ok, s.cache.finalizeWrite s.storage = some (ok, s'.cache, s'.storage) := by
  obtain ⟨⟨ok, fc, sm⟩, hc, hs⟩ := Option.map_eq_some_iff.mp h
  exact ⟨ok, by rw [hc, ← hs]⟩

theorem activateSlot_step {slot : UInt8} (h : cacheStep s (.activateSlot slot) = some s') :
    ∃ ok, s.cache.activateSlot s.storage slot = some (ok, s'.cache, s'.storage) := by
  obtain ⟨⟨ok, fc, sm⟩, hc, hs⟩ := Option.map_eq_some_iff.mp h
  exact ⟨ok, by rw [hc, ← hs]⟩

theorem rollback_step (h : cacheStep s .rollback = some s') :
    ∃ ok, s.cache.rollback s.storage = some (ok, s'.cache, s'.storage) := by
  obtain ⟨⟨ok, fc, sm⟩, hc, hs⟩ := Option.map_eq_some_iff.mp h
  exact ⟨ok, by rw [hc, ← hs]⟩

/-! ## What no step changes -/

theorem sessionStep_frame {op : SessionOp} (h : sessionStep s op = some s') :
    Frame s.cache s'.cache s.storage s'.storage := by
  cases op with
  | beginWrite imageSize version =>
    rw [← Option.some.inj h]
    exact ⟨beginWrite_slots _ _ _, s.storage.device, rfl⟩
  | writeChunk data =>
    obtain ⟨_, hc⟩ := writeChunk_step h
    exact writeChunk_frame hc
  | finalizeWrite =>
    obtain ⟨_, hc⟩ := finalizeWrite_step h
    exact finalizeWrite_frame hc

theorem cacheStep_frame {op : CacheOp} (h : cacheStep s op = some s') :
    Frame s.cache s'.cache s.storage s'.storage := by
  cases op with
  | session op => exact sessionStep_frame h
  | verify slot =>
    rw [← Option.some.inj h]
    exact ⟨SameSlots.refl _, verify_frame _ _ _⟩
  | activateSlot slot =>
    obtain ⟨_, hc⟩ := activateSlot_step h
    exact activateSlot_frame hc
  | rollback =>
    obtain ⟨_, hc⟩ := rollback_step h
    exact rollback_frame hc

/-- A session call leaves the choice of slot alone. -/
theorem sessionStep_activeSlot {op : SessionOp} (h : sessionStep s op = some s') :
    s'.cache.activeSlot = s.cache.activeSlot := by
  cases op with
  | beginWrite imageSize version =>
    rw [← Option.some.inj h]
    exact beginWrite_activeSlot s.cache imageSize version
  | writeChunk data =>
    obtain ⟨_, hc⟩ := writeChunk_step h
    exact writeChunk_activeSlot hc
  | finalizeWrite =>
    obtain ⟨_, hc⟩ := finalizeWrite_step h
    exact finalizeWrite_activeSlot hc

end TaktOS.Proof
