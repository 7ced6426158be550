import TaktOS.Proof.BootRuns
import TaktOS.Proof.Verify

/-!
# What the bootloader starts

`jumpToFirmware` has one target on each platform, whatever the boot mode and whichever slot
was validated or requested: offset 0 on the host, and the next update partition, or else the
running one, on the device; if that cannot be set, the restart is into the partition there was.
And a boot that goes elsewhere may come back from there, to nothing that is defined. `SafeJump`
is when none of this does harm.
-/

namespace TaktOS.Proof

open Bootloader

variable {δ : Type}

/-! ## Where a jump leads -/

/-- The boot ended in a jump to firmware. -/
def Jumps : BootExit → Prop
  | .jumpToOffset _ => True
  | .jumpToPartition _ => True
  | _ => False

instance : ∀ exit, Decidable (Jumps exit)
  | .jumpToOffset _ => isTrue trivial
  | .jumpToPartition _ => isTrue trivial
  | .aborted => isFalse id
  | .recovery _ => isFalse id
  | .emergency => isFalse id
  | .undefined => isFalse id

/-- The image jumped to is the one in slot `slot`. -/
def JumpsInto (env : BootEnv δ) (slot : UInt8) (exit : BootExit) : Prop :=
  match env, exit with
  | .host cache _, .jumpToOffset off =>
    (cache.slotOffset slot).toNat ≤ off.toNat
      ∧ off.toNat < (cache.slotOffset slot).toNat + cache.slotSize.toNat
  | .esp32 _ ota, .jumpToPartition part => (if slot = 0 then ota.ota0 else ota.ota1) = some part
  | _, _ => False

instance (slot : UInt8) : ∀ (env : BootEnv δ) (exit : BootExit),
    Decidable (JumpsInto env slot exit)
  | .host _ _, .jumpToOffset _ => inferInstanceAs (Decidable (_ ∧ _))
  | .esp32 _ _, .jumpToPartition _ => inferInstanceAs (Decidable (_ = _))
  | .host _ _, .jumpToPartition _ => isFalse id
  | .host _ _, .aborted => isFalse id
  | .host _ _, .recovery _ => isFalse id
  | .host _ _, .emergency => isFalse id
  | .host _ _, .undefined => isFalse id
  | .esp32 _ _, .jumpToOffset _ => isFalse id
  | .esp32 _ _, .aborted => isFalse id
  | .esp32 _ _, .recovery _ => isFalse id
  | .esp32 _ _, .emergency => isFalse id
  | .esp32 _ _, .undefined => isFalse id

/--
**Only validated firmware is started**: a boot that jumps, jumps into a slot that
`validateFirmware` accepts in that moment, and for `OtaPending` into the slot on record. A boot
with an undefined end could jump anywhere.
-/
structure OnlyValidated (stored : BootConfig) (env : BootEnv δ) : Prop where
  defined : (entry stored env).exit ≠ .undefined
  validated : Jumps (entry stored env).exit →
    ∃ slot, slot ≤ 1 ∧ JumpsInto (entry stored env).env slot (entry stored env).exit
      ∧ (validateFirmware (entry stored env).env slot).1 = true
      ∧ ((entry stored env).mode = .otaPending → slot = (loaded stored).otaSlot)

/-- The one target there is lies in a slot that validates and, for a request, is the slot
requested. -/
def TargetValid (stored : BootConfig) (env : BootEnv δ) : Prop :=
  ∃ slot, slot ≤ 1 ∧ JumpsInto env slot (jumpToFirmware env 0)
    ∧ (validateFirmware env slot).1 = true
    ∧ ((loaded stored).mode = 2 → slot = (loaded stored).otaSlot)

/--
The boot gets to recovery or to the emergency console, and stays there; or it gets to the jump,
and there is nowhere to jump, or the target is valid.
-/
structure SafeJump (stored : BootConfig) (env : BootEnv δ) : Prop where
  stays : NeverReturns stored env
  target : ToRecovery stored env ∨ ToEmergency stored env ∨ ¬ Jumps (jumpToFirmware env 0)
    ∨ TargetValid stored env

/-! ## Validating changes nothing that matters -/

/-- The flash of the host build has a content: no backend, or a readable one. -/
def Steady : BootEnv δ → Prop
  | .host _ storage =>
    storage.backend = none ∨ ∃ b content, storage.backend = some b ∧ b.Readable content
  | .esp32 _ _ => True

/-- Two environments in which a boot validates and jumps alike. -/
structure SameBoot (env env' : BootEnv δ) : Prop where
  steady : Steady env'
  valid : ∀ slot, (validateFirmware env' slot).1 = (validateFirmware env slot).1
  jump : jumpToFirmware env' 0 = jumpToFirmware env 0
  into : ∀ slot exit, JumpsInto env' slot exit ↔ JumpsInto env slot exit

theorem SameBoot.refl {env : BootEnv δ} (h : Steady env) : SameBoot env env :=
  ⟨h, fun _ => rfl, rfl, fun _ _ => Iff.rfl⟩

theorem SameBoot.trans {env₁ env₂ env₃ : BootEnv δ} (h : SameBoot env₁ env₂)
    (h' : SameBoot env₂ env₃) : SameBoot env₁ env₃ :=
  ⟨h'.steady, fun slot => (h'.valid slot).trans (h.valid slot), h'.jump.trans h.jump,
    fun slot exit => (h'.into slot exit).trans (h.into slot exit)⟩

/-- Without a backend nothing verifies. -/
theorem verify_no_backend {sm : StorageManager δ} (hb : sm.backend = none) (fc : FirmwareCache)
    (slot : UInt8) : fc.verify sm slot = (false, sm) := by
  unfold FirmwareCache.verify FirmwareCache.getHeader StorageManager.read
  rw [hb]
  split
  · rfl
  · rfl

/-- Validating a slot leaves an environment that boots the same. -/
theorem sameBoot_validate {env : BootEnv δ} (h : Steady env) (slot : UInt8) :
    SameBoot env (validateFirmware env slot).2 := by
  cases env with
  | esp32 gpio0 ota =>
    have hsame : (validateFirmware (.esp32 gpio0 ota : BootEnv δ) slot).2 = .esp32 gpio0 ota := by
      unfold validateFirmware
      dsimp only
      split
      · rfl
      · split <;> rfl
    rw [hsame]
    exact SameBoot.refl h
  | host cache storage =>
    show SameBoot _ (.host cache (cache.verify storage slot).2)
    rcases h with hnone | ⟨b, content, hb, hr⟩
    · rw [verify_no_backend hnone]
      exact SameBoot.refl (Or.inl hnone)
    · obtain ⟨d, hd, hcont⟩ := verify_after storage
        (readKeeps_content hb hr (content storage.device)) rfl cache slot
      rw [hd]
      refine ⟨Or.inr ⟨b, content, hb, hr⟩, fun slot' => ?_, rfl,
        fun _ exit => by cases exit <;> exact Iff.rfl⟩
      show (cache.verify { storage with device := d } slot').1 = (cache.verify storage slot').1
      refine verify_congr storage { storage with device := d } hb hb hr fun _ => ?_
      dsimp only
      rw [hcont]

/-! ## The decision and the jump -/

/-- A boot leaves an environment that boots as the one it was given. -/
theorem sameBoot_entry (stored : BootConfig) {env : BootEnv δ} (h : Steady env) :
    SameBoot env (entry stored env).env := by
  have hA := sameBoot_validate h 0
  have hB := hA.trans (sameBoot_validate hA.steady 1)
  have hd := entry_decision stored env
  generalize (entry stored env).mode = mode, (entry stored env).env = env' at hd
  cases hd with
  | recovery => exact SameBoot.refl h
  | factoryReset => exact SameBoot.refl h
  | otaPending => exact SameBoot.refl h
  | slotA => exact hA
  | slotB => exact hB
  | emergency => exact hB

theorem not_jumps_enterRecovery (env : BootEnv δ) : ¬ Jumps (enterRecovery env) := by
  cases env with
  | host => exact id
  | esp32 gpio0 ota =>
    rw [enterRecovery]
    cases ota.recovery <;> exact id

theorem not_jumps_enterEmergency (env : BootEnv δ) : ¬ Jumps (enterEmergency env) := by
  cases env <;> exact id

/-- A boot that goes to firmware jumps where the environment it was given says. -/
theorem exit_of_jump {stored : BootConfig} {env : BootEnv δ} (h : Steady env)
    (hm : (entry stored env).mode = .normal ∨ (entry stored env).mode = .otaPending) :
    (entry stored env).exit = jumpToFirmware env 0 := by
  rw [entry_exit]
  rcases hm with hm | hm <;> rw [hm] <;> exact (sameBoot_entry stored h).jump

/-- A boot in any other mode does not jump. -/
theorem not_jumps_of_mode {stored : BootConfig} {env : BootEnv δ}
    (hm : (entry stored env).mode = .recovery ∨ (entry stored env).mode = .factoryReset
      ∨ (entry stored env).mode = .emergency) : ¬ Jumps (entry stored env).exit := by
  rw [entry_exit]
  rcases hm with hm | hm | hm <;> rw [hm]
  · exact not_jumps_enterRecovery _
  · exact not_jumps_enterRecovery _
  · exact not_jumps_enterEmergency _

/-- What is asked of a jump, in terms of what the boot was given. -/
theorem validated_iff_of_jump {stored : BootConfig} {env : BootEnv δ} (h : Steady env)
    (hm : (entry stored env).mode = .normal ∨ (entry stored env).mode = .otaPending)
    (hrequest : (entry stored env).mode = .otaPending ↔ (loaded stored).mode = 2) :
    OnlyValidated stored env ↔ NeverReturns stored env
      ∧ (¬ Jumps (jumpToFirmware env 0) ∨ TargetValid stored env) := by
  have hsame := sameBoot_entry stored h
  have hexit := exit_of_jump h hm
  rw [← exit_defined_iff, ← Decidable.imp_iff_not_or]
  constructor
  · intro hv
    refine ⟨hv.defined, fun hj => ?_⟩
    obtain ⟨slot, hslot, hin, hvalid, hreq⟩ := hv.validated (hexit ▸ hj)
    rw [hexit, hsame.into] at hin
    exact ⟨slot, hslot, hin, (hsame.valid slot) ▸ hvalid, fun h => hreq (hrequest.mpr h)⟩
  · rintro ⟨hdefined, hv⟩
    refine ⟨hdefined, fun hj => ?_⟩
    obtain ⟨slot, hslot, hin, hvalid, hreq⟩ := hv (hexit ▸ hj)
    refine ⟨slot, hslot, ?_, (hsame.valid slot).trans hvalid, fun h => hreq (hrequest.mp h)⟩
    rw [hexit, hsame.into]
    exact hin

/-- A boot that does not jump starts only validated firmware if its end is defined. -/
theorem onlyValidated_iff_of_not_jumps {stored : BootConfig} {env : BootEnv δ}
    (hj : ¬ Jumps (entry stored env).exit) :
    OnlyValidated stored env ↔ NeverReturns stored env := by
  rw [← exit_defined_iff]
  exact ⟨OnlyValidated.defined, fun h => ⟨h, fun hj' => absurd hj' hj⟩⟩

/-- What is asked of a boot, in terms of what it was given. -/
theorem onlyValidated_iff_safeJump {stored : BootConfig} {env : BootEnv δ} (h : Steady env) :
    OnlyValidated stored env ↔ SafeJump stored env := by
  have hsafe : SafeJump stored env ↔ NeverReturns stored env ∧ (ToRecovery stored env
      ∨ ToEmergency stored env ∨ ¬ Jumps (jumpToFirmware env 0) ∨ TargetValid stored env) :=
    ⟨fun h => ⟨h.stays, h.target⟩, fun h => ⟨h.1, h.2⟩⟩
  have hrequest := entry_mode_iff (Or.inl rfl) stored env
  rw [hsafe, toRecovery_iff, toEmergency_iff]
  cases hm : (entry stored env).mode with
  | recovery =>
    rw [onlyValidated_iff_of_not_jumps (not_jumps_of_mode (Or.inl hm))]
    simp
  | factoryReset =>
    rw [onlyValidated_iff_of_not_jumps (not_jumps_of_mode (Or.inr (Or.inl hm)))]
    simp
  | emergency =>
    rw [onlyValidated_iff_of_not_jumps (not_jumps_of_mode (Or.inr (Or.inr hm)))]
    simp
  | otaPending =>
    rw [validated_iff_of_jump h (Or.inr hm) (iff_of_true hm (hrequest.mp hm).2.2)]
    simp
  | normal =>
    -- a request on record would have been followed
    have hpin : ¬ (pinLow env = true ∨ 3 < ((loaded stored).bootCount.toNat + 1) % 256) :=
      fun hc => absurd (hm.symm.trans ((boot_recovery_iff stored env).mpr hc)) (by simp)
    rw [not_or, Bool.not_eq_true] at hpin
    have hmode : (loaded stored).mode ≠ 2 := fun hmode =>
      absurd (hm.symm.trans (hrequest.mpr ⟨hpin.1, hpin.2, hmode⟩)) (by simp)
    rw [validated_iff_of_jump h (Or.inl hm) (iff_of_false (by rw [hm]; simp) hmode)]
    simp

/--
**Exactly when a boot starts validated firmware only.** For every record, pin level and flash
with a content: a boot starts nothing but validated firmware, and for `OtaPending` the slot on
record, if and only if recovery and the emergency console do not return where it gets to them, and
the jump is not reached, has no target, or its one target lies in such a slot. The slot on record
is the one last requested, whatever else happened to the record since.
-/
theorem only_validated_iff {stored : BootConfig} {env : BootEnv δ} (h : Steady env) :
    (OnlyValidated stored env ↔ SafeJump stored env)
      ∧ ∀ (old : BootConfig) (slot : UInt8) (events : List (BootEvent δ)),
        (∀ slot', .requestOtaBoot slot' ∉ events) →
        stored = afterEvents (requestOtaBoot old slot) events →
          (loaded stored).otaSlot = slot := by
  refine ⟨onlyValidated_iff_safeJump h, fun old slot events hno hstored => ?_⟩
  rw [hstored, otaSlot_after events _ hno, loaded_request]

/-- A first slot at the very start of the flash, where the host build jumps. -/
def slotsFromZero : FirmwareCache where
  slotAOffset := 0
  slotBOffset := 0x4000
  slotSize := 0x4000

/-- With a whole image at offset 0, a normal boot starts validated firmware. -/
theorem only_validated_slotA :
    OnlyValidated (saveBootConfig { magic := kBootConfigMagic })
      (.host slotsFromZero
        { testStorage with device := withImage testStorage.device 0 0 [1] }) := by
  have hsteady : Steady (BootEnv.host slotsFromZero
      { testStorage with device := withImage testStorage.device 0 0 [1] }) :=
    Or.inr ⟨_, id, rfl, memBackend_readable _ _⟩
  refine (only_validated_iff hsteady).1.mpr ⟨⟨fun hrec => ?_, fun hemergency => ?_⟩, ?_⟩
  · exact absurd hrec (by unfold ToRecovery; decide)
  · exact absurd hemergency.2.2.1 (by decide)
  · exact Or.inr (Or.inr (Or.inr ⟨0, by decide, ⟨by decide, by decide⟩, by decide,
      fun hmode => absurd hmode (by decide)⟩))

/--
**A request for slot B starts slot A.** The image in slot B is whole and requested, slot A is
blank, and the jump goes to offset 0, the start of slot A.
-/
theorem ota_request_starts_blank_slotA :
    ¬ OnlyValidated (requestOtaBoot (saveBootConfig { magic := kBootConfigMagic }) 1)
      (.host slotsFromZero
        { testStorage with device := withImage testStorage.device 0x4000 1 [2] }) := by
  intro h
  obtain ⟨slot, _, hin, _, hslot⟩ := h.validated (by decide)
  rw [hslot (by decide)] at hin
  exact absurd hin (by decide)

end TaktOS.Proof
