import TaktOS.Drivers.Platform
import TaktOS.Proof.CacheRuns

/-!
# What the cache's calls can do on the device

The device build differs from the host's in two calls: `activateSlot` tries to set the boot
partition before it marks the header, and `rollback` goes through it.
-/

namespace TaktOS.Proof

open Lib

variable {δ : Type}

/-! ## Runs on the device -/

/-- The calls on an initialised cache; `setBoot` is what setting a boot partition comes to. -/
inductive DeviceOp where
  | session (op : SessionOp)
  | verify (slot : UInt8)
  | activateSlot (slot : UInt8) (setBoot : EspTableEntry → Bool)
  | rollback (setBoot : EspTableEntry → Bool)

structure DeviceState (δ : Type) extends CacheState δ where
  /-- The partition the next boot starts. -/
  boot : Option EspTableEntry := none

def deviceStep (idf : EspIdf δ) (s : DeviceState δ) : DeviceOp → Option (DeviceState δ)
  | .session op => (sessionStep s.toCacheState op).map fun t => { s with toCacheState := t }
  | .verify slot => some { s with storage := (s.cache.verify s.storage slot).2 }
  | .activateSlot slot setBoot =>
    (s.cache.activateSlotEsp32 idf setBoot s.storage s.boot slot).map
      fun (_, cache, storage, boot) => { cache, storage, boot }
  | .rollback setBoot =>
    (s.cache.rollbackEsp32 idf setBoot s.storage s.boot).map
      fun (_, cache, storage, boot) => { cache, storage, boot }

/-- The device after `Platform::init`, on a storage nobody has initialised. -/
def deviceStarted (idf : EspIdf δ) (cache : FirmwareCache) (target : Target) (d : δ)
    (boot : Option EspTableEntry) : DeviceState δ :=
  let (cache, storage) := Platform.init idf cache { target, device := d }
  { cache, storage, boot }

/-! ## Activating -/

theorem markBootable_cases {fc fc' : FirmwareCache} {sm sm' : StorageManager δ} {slot : UInt8}
    (h : fc.markBootable sm slot = some (fc', sm')) :
    fc' = { fc with activeSlot := slot } ∧ ∃ k,
      (fc.getHeader sm slot {}).2.2.write (fc.slotOffset slot)
        (bootable (fc.getHeader sm slot {}).2.1).toBytes = some (k, sm') := by
  unfold FirmwareCache.markBootable at h
  dsimp only at h
  split at h
  · exact absurd h (by simp)
  · rename_i k sm₁ hw
    injection h with h; injection h with hfc hsm
    exact ⟨hfc.symm, k, by rw [← hsm]; exact hw⟩

/-- The ways a call of `activateSlot` returns on the device. -/
inductive ActivateOutcome (idf : EspIdf δ) (setBoot : EspTableEntry → Bool) (fc : FirmwareCache)
    (sm : StorageManager δ) (boot : Option EspTableEntry) (slot : UInt8) :
    Bool → FirmwareCache → StorageManager δ → Option EspTableEntry → Prop where
  | noSlot (hslot : slot > 1) : ActivateOutcome idf setBoot fc sm boot slot false fc sm boot
  | rejected (hslot : slot ≤ 1) (hv : (fc.verify sm slot).1 = false) :
      ActivateOutcome idf setBoot fc sm boot slot false fc (fc.verify sm slot).2 boot
  | bootSet (hslot : slot ≤ 1) (hv : (fc.verify sm slot).1 = true) {part : EspTableEntry}
      (hpart : FirmwareCache.slotPartition idf slot = some part) (hset : setBoot part = true) :
      ActivateOutcome idf setBoot fc sm boot slot true { fc with activeSlot := slot }
        (fc.verify sm slot).2 (some part)
  | marked (hslot : slot ≤ 1) (hv : (fc.verify sm slot).1 = true)
      (hnone : (FirmwareCache.slotPartition idf slot).filter setBoot = none) {k : Int}
      {sm' : StorageManager δ}
      (hw : (fc.getHeader (fc.verify sm slot).2 slot {}).2.2.write (fc.slotOffset slot)
        (bootable (fc.getHeader (fc.verify sm slot).2 slot {}).2.1).toBytes = some (k, sm')) :
      ActivateOutcome idf setBoot fc sm boot slot true { fc with activeSlot := slot } sm' boot

theorem activateSlotEsp32_outcome {idf : EspIdf δ} {setBoot : EspTableEntry → Bool}
    {fc fc' : FirmwareCache} {sm sm' : StorageManager δ} {boot boot' : Option EspTableEntry}
    {slot : UInt8} {ok : Bool}
    (h : fc.activateSlotEsp32 idf setBoot sm boot slot = some (ok, fc', sm', boot')) :
    ActivateOutcome idf setBoot fc sm boot slot ok fc' sm' boot' := by
  unfold FirmwareCache.activateSlotEsp32 at h
  split at h
  · rename_i hslot
    cases h
    exact .noSlot hslot
  · rename_i hslot
    have hle : slot ≤ 1 := UInt8.not_lt.mp hslot
    dsimp only at h
    cases hv : (fc.verify sm slot).1 with
    | false =>
      rw [hv] at h
      cases h
      exact .rejected hle hv
    | true =>
      rw [hv] at h
      simp only [Bool.not_true, Bool.false_eq_true, if_false] at h
      split at h
      · rename_i part hpart
        cases h
        obtain ⟨hfound, hset⟩ := Option.filter_eq_some_iff.mp hpart
        exact .bootSet hle hv hfound hset
      · rename_i hnone
        obtain ⟨⟨fc₁, sm₁⟩, hmark, hres⟩ := Option.map_eq_some_iff.mp h
        obtain ⟨hfc, k, hw⟩ := markBootable_cases hmark
        cases hres
        rw [hfc]
        exact .marked hle hv hnone hw

theorem rollbackEsp32_cases {idf : EspIdf δ} {setBoot : EspTableEntry → Bool}
    {fc fc' : FirmwareCache} {sm sm' : StorageManager δ} {boot boot' : Option EspTableEntry}
    {ok : Bool} (h : fc.rollbackEsp32 idf setBoot sm boot = some (ok, fc', sm', boot')) :
    (ok = false ∧ fc' = fc ∧ sm' = (fc.verify sm fc.inactiveSlot).2 ∧ boot' = boot)
      ∨ ActivateOutcome idf setBoot fc (fc.verify sm fc.inactiveSlot).2 boot fc.inactiveSlot
        ok fc' sm' boot' := by
  unfold FirmwareCache.rollbackEsp32 at h
  dsimp only at h
  split at h
  · cases h
    exact Or.inl ⟨rfl, rfl, rfl, rfl⟩
  · exact Or.inr (activateSlotEsp32_outcome h)

/-! ## What every step keeps -/

/-- The device predicate `P` survives every call of the backend. -/
structure AllKeep (b : FlashBackend δ) (P : δ → Prop) : Prop where
  read : ∀ d off buf, P d → P (b.read d off buf).2.2
  write : ∀ d off buf, P d → P (b.write d off buf).2
  erase : ∀ d off len, P d → P (b.erase d off len).2

/-- The storage differs in its device only, and that has `P`. -/
def After (P : δ → Prop) (sm sm' : StorageManager δ) : Prop :=
  ∃ d, sm' = { sm with device := d } ∧ P d

section Keeps

variable {P : δ → Prop} {b : FlashBackend δ} {sm sm' sm'' : StorageManager δ}

theorem After.trans (h : After P sm sm') (h' : After P sm' sm'') : After P sm sm'' := by
  obtain ⟨d, rfl, _⟩ := h
  exact h'

theorem After.backend (h : After P sm sm') : sm'.backend = sm.backend := by
  obtain ⟨d, rfl, _⟩ := h
  rfl

theorem After.device (h : After P sm sm') : P sm'.device := by
  obtain ⟨d, rfl, hd⟩ := h
  exact hd

theorem AllKeep.reads (hk : AllKeep b P) (hb : sm.backend = some b) : ReadKeeps sm P := by
  intro b' hb' d off buf hd
  rw [← Option.some.inj (hb.symm.trans hb')]
  exact hk.read d off buf hd

theorem AllKeep.after_write (hk : AllKeep b P) (hb : sm.backend = some b) {offset : UInt32}
    {buf : List UInt8} {r : Int} (h : sm.write offset buf = some (r, sm')) (hp : P sm.device) :
    After P sm sm' := by
  have hd := write_after hb (fun d off len => hk.erase d off len)
    (fun d => hk.write d offset buf) h hp
  obtain ⟨d, rfl⟩ := write_frame h
  exact ⟨d, rfl, hd⟩

theorem AllKeep.after_session (hk : AllKeep b P) {s s' : CacheState δ} {op : SessionOp}
    (hb : s.storage.backend = some b) (h : sessionStep s op = some s')
    (hp : P s.storage.device) : After P s.storage s'.storage := by
  cases op with
  | beginWrite imageSize version =>
    rw [← Option.some.inj h]
    exact ⟨_, rfl, hp⟩
  | writeChunk data =>
    obtain ⟨r, hc⟩ := writeChunk_step h
    rcases writeChunk_cases hc with ⟨_, _, _, hsm⟩ | ⟨_, k, hw, _⟩
    · rw [hsm]
      exact ⟨_, rfl, hp⟩
    · exact hk.after_write hb hw hp
  | finalizeWrite =>
    obtain ⟨ok, hc⟩ := finalizeWrite_step h
    rcases finalizeWrite_cases hc with ⟨_, _, _, hsm⟩ | ⟨_, _, k, sm₁, hw, _, hsm⟩
    · rw [hsm]
      exact ⟨_, rfl, hp⟩
    · have hafter := hk.after_write hb hw hp
      rw [hsm]
      exact hafter.trans (verify_after sm₁ (hk.reads (hafter.backend.trans hb)) hafter.device
        s.cache s.cache.inactiveSlot)

theorem AllKeep.after_activate (hk : AllKeep b P) (hb : sm.backend = some b)
    {idf : EspIdf δ} {setBoot : EspTableEntry → Bool} {fc fc' : FirmwareCache}
    {boot boot' : Option EspTableEntry} {slot : UInt8} {ok : Bool}
    (h : ActivateOutcome idf setBoot fc sm boot slot ok fc' sm' boot') (hp : P sm.device) :
    SameSlots fc fc' ∧ After P sm sm' := by
  have hverify : After P sm (fc.verify sm slot).2 := verify_after sm (hk.reads hb) hp fc slot
  cases h with
  | noSlot hslot => exact ⟨SameSlots.refl fc, _, rfl, hp⟩
  | rejected hslot hv => exact ⟨SameSlots.refl fc, hverify⟩
  | bootSet hslot hv hpart hset => exact ⟨⟨rfl, rfl, rfl⟩, hverify⟩
  | marked hslot hv hnone hw =>
    have hread : After P (fc.verify sm slot).2
        (fc.getHeader (fc.verify sm slot).2 slot {}).2.2 :=
      getHeader_after _ (hk.reads (hverify.backend.trans hb)) hverify.device fc slot {}
    have hlast := hverify.trans hread
    exact ⟨⟨rfl, rfl, rfl⟩,
      hlast.trans (hk.after_write (hlast.backend.trans hb) hw hlast.device)⟩

/-- **What the backend's calls keep, every call on the device keeps**, and no slot moves. -/
theorem deviceStep_keeps (hk : AllKeep b P) {idf : EspIdf δ} {s s' : DeviceState δ}
    {op : DeviceOp} (hb : s.storage.backend = some b) (h : deviceStep idf s op = some s')
    (hp : P s.storage.device) :
    SameSlots s.cache s'.cache ∧ After P s.storage s'.storage := by
  cases op with
  | session op =>
    obtain ⟨t, ht, rfl⟩ := Option.map_eq_some_iff.mp h
    exact ⟨(sessionStep_frame ht).slots, hk.after_session hb ht hp⟩
  | verify slot =>
    cases h
    exact ⟨SameSlots.refl _, verify_after s.storage (hk.reads hb) hp s.cache slot⟩
  | activateSlot slot setBoot =>
    obtain ⟨⟨ok, fc, sm, boot⟩, hc, rfl⟩ := Option.map_eq_some_iff.mp h
    exact hk.after_activate hb (activateSlotEsp32_outcome hc) hp
  | rollback setBoot =>
    obtain ⟨⟨ok, fc, sm, boot⟩, hc, rfl⟩ := Option.map_eq_some_iff.mp h
    have hverify : After P s.storage (s.cache.verify s.storage s.cache.inactiveSlot).2 :=
      verify_after s.storage (hk.reads hb) hp s.cache s.cache.inactiveSlot
    rcases rollbackEsp32_cases hc with ⟨_, hfc, hsm, _⟩ | hout
    · dsimp only
      rw [hfc, hsm]
      exact ⟨SameSlots.refl _, hverify⟩
    · obtain ⟨hslots, hafter⟩ :=
        hk.after_activate (hverify.backend.trans hb) hout hverify.device
      exact ⟨hslots, hverify.trans hafter⟩

end Keeps

end TaktOS.Proof
