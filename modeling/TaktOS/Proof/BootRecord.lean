import TaktOS.Boot.Bootloader

/-!
# What the boot record makes the bootloader do

Every function of the bootloader works on the record `loadBootConfig` hands it and ignores
whether it was intact, so everything is a function of `loaded`. A record with the wrong
magic is replaced by the default one; one with a wrong CRC is handed on as it is, and the
next save signs it.
-/

namespace TaktOS.Proof

open Bootloader

variable {δ : Type}

/-- The record the callers of `loadBootConfig` work with. -/
def loaded (stored : BootConfig) : BootConfig := (loadBootConfig stored).2

/-! ## Loading and saving -/

theorem loaded_of_magic {stored : BootConfig} (h : stored.magic = kBootConfigMagic) :
    loaded stored = { stored with crc32 := 0 } := by
  rw [loaded, loadBootConfig, if_neg (fun hc => hc h)]

theorem loaded_of_not_magic {stored : BootConfig} (h : stored.magic ≠ kBootConfigMagic) :
    loaded stored = { magic := kBootConfigMagic } := by
  rw [loaded, loadBootConfig, if_pos h]
  rfl

/-- What is loaded always carries the magic and no CRC. -/
theorem loaded_shape (stored : BootConfig) :
    (loaded stored).magic = kBootConfigMagic ∧ (loaded stored).crc32 = 0 := by
  by_cases h : stored.magic = kBootConfigMagic
  · rw [loaded_of_magic h]
    exact ⟨h, rfl⟩
  · rw [loaded_of_not_magic h]
    exact ⟨rfl, rfl⟩

/-- **What is saved is loaded back, intact.** -/
theorem load_save {config : BootConfig} (h : config.magic = kBootConfigMagic) :
    loadBootConfig (saveBootConfig config) = (true, { config with crc32 := 0 }) := by
  rw [loadBootConfig, if_neg (fun hc => hc h)]
  simp [saveBootConfig]

theorem loaded_save (config : BootConfig) (h : config.magic = kBootConfigMagic)
    (hcrc : config.crc32 = 0) : loaded (saveBootConfig config) = config := by
  rw [loaded, load_save h, ← hcrc]

/-- Two records saved alike are alike, their CRC fields apart. -/
theorem saveBootConfig_inj {config config' : BootConfig}
    (h : saveBootConfig config = saveBootConfig config') :
    config.mode = config'.mode ∧ config.bootCount = config'.bootCount
      ∧ config.otaSlot = config'.otaSlot ∧ config.padding = config'.padding := by
  simp only [saveBootConfig, BootConfig.mk.injEq] at h
  exact ⟨h.2.1, h.2.2.1, h.2.2.2.1, h.2.2.2.2.1⟩

/-! ## What each caller saves -/

/-- The record a boot counts itself in. -/
def counted (stored : BootConfig) : BootConfig :=
  { loaded stored with bootCount := (loaded stored).bootCount + 1 }

theorem entry_stored (stored : BootConfig) (env : BootEnv δ) :
    (entry stored env).stored = saveBootConfig (counted stored) := by
  unfold entry
  dsimp only
  split <;> rfl

theorem loaded_entry (stored : BootConfig) (env : BootEnv δ) :
    loaded (entry stored env).stored = counted stored := by
  rw [entry_stored]
  exact loaded_save _ (loaded_shape stored).1 (loaded_shape stored).2

theorem loaded_mark (stored : BootConfig) :
    loaded (markBootSuccessful stored) = { loaded stored with bootCount := 0, mode := 0 } :=
  loaded_save { loaded stored with bootCount := 0, mode := 0 }
    (loaded_shape stored).1 (loaded_shape stored).2

theorem loaded_request (stored : BootConfig) (slot : UInt8) :
    loaded (requestOtaBoot stored slot) = { loaded stored with mode := 2, otaSlot := slot } :=
  loaded_save { loaded stored with mode := 2, otaSlot := slot }
    (loaded_shape stored).1 (loaded_shape stored).2

/-! ## The decision -/

/-- Pin and counter leave the decision to the stored mode and the slots. -/
def FollowsRecord (stored : BootConfig) (env : BootEnv δ) : Prop :=
  pinLow env = false ∧ ¬ (loaded stored).bootCount > 3

/-- What is left once neither the pin, nor the counter, nor the stored mode decides. -/
def FollowsSlots (stored : BootConfig) (env : BootEnv δ) : Prop :=
  FollowsRecord stored env ∧ (loaded stored).mode ≠ 3 ∧ (loaded stored).mode ≠ 2

/-- Every way a boot mode is chosen, with the environment that validating leaves. -/
inductive Decision (stored : BootConfig) (env : BootEnv δ) : BootMode × BootEnv δ → Prop where
  | recovery (h : pinLow env = true ∨ (loaded stored).bootCount > 3) :
      Decision stored env (.recovery, env)
  | factoryReset (h : FollowsRecord stored env) (hmode : (loaded stored).mode = 3) :
      Decision stored env (.factoryReset, env)
  | otaPending (h : FollowsRecord stored env) (hmode : (loaded stored).mode = 2) :
      Decision stored env (.otaPending, env)
  | slotA (h : FollowsSlots stored env) (hA : (validateFirmware env 0).1 = true) :
      Decision stored env (.normal, (validateFirmware env 0).2)
  | slotB (h : FollowsSlots stored env) (hA : (validateFirmware env 0).1 = false)
      (hB : (validateFirmware (validateFirmware env 0).2 1).1 = true) :
      Decision stored env (.normal, (validateFirmware (validateFirmware env 0).2 1).2)
  | emergency (h : FollowsSlots stored env) (hA : (validateFirmware env 0).1 = false)
      (hB : (validateFirmware (validateFirmware env 0).2 1).1 = false) :
      Decision stored env (.emergency, (validateFirmware (validateFirmware env 0).2 1).2)

theorem determineBootMode_decision (stored : BootConfig) (env : BootEnv δ) :
    Decision stored env (determineBootMode stored env) := by
  unfold determineBootMode
  dsimp only
  -- one split for each test, in the source's order
  split
  · rename_i hpin
    exact .recovery (Or.inl hpin)
  · rename_i hpin
    split
    · rename_i hcount
      exact .recovery (Or.inr hcount)
    · rename_i hcount
      have h : FollowsRecord stored env := ⟨Bool.not_eq_true _ ▸ hpin, hcount⟩
      split
      · rename_i hmode
        exact .factoryReset h hmode
      · rename_i hfactory
        split
        · rename_i hmode
          exact .otaPending h hmode
        · rename_i hota
          split
          · rename_i hA
            exact .slotA ⟨h, hfactory, hota⟩ hA
          · rename_i hA
            split
            · rename_i hB
              exact .slotB ⟨h, hfactory, hota⟩ (Bool.not_eq_true _ ▸ hA) hB
            · rename_i hB
              exact .emergency ⟨h, hfactory, hota⟩ (Bool.not_eq_true _ ▸ hA)
                (Bool.not_eq_true _ ▸ hB)

/-- A record that decides does not decide for recovery. -/
theorem FollowsRecord.not_recovery {stored : BootConfig} {env : BootEnv δ}
    (h : FollowsRecord stored env) : ¬ (pinLow env = true ∨ (loaded stored).bootCount > 3) := by
  rintro (hp | hc)
  · exact absurd (h.1.symm.trans hp) (by simp)
  · exact h.2 hc

/-- Recovery is for a low pin or a high counter, and for nothing else. -/
theorem mode_recovery_iff (stored : BootConfig) (env : BootEnv δ) :
    (determineBootMode stored env).1 = .recovery
      ↔ pinLow env = true ∨ (loaded stored).bootCount > 3 := by
  have hd := determineBootMode_decision stored env
  generalize determineBootMode stored env = d at hd
  cases hd with
  | recovery h => simp [h]
  | factoryReset h _ => simp [h.not_recovery]
  | otaPending h _ => simp [h.not_recovery]
  | slotA h _ => simp [h.1.not_recovery]
  | slotB h _ _ => simp [h.1.not_recovery]
  | emergency h _ _ => simp [h.1.not_recovery]

/-- The stored mode is followed once pin and counter let it. -/
theorem mode_factoryReset_iff (stored : BootConfig) (env : BootEnv δ) :
    (determineBootMode stored env).1 = .factoryReset
      ↔ FollowsRecord stored env ∧ (loaded stored).mode = 3 := by
  have hd := determineBootMode_decision stored env
  generalize determineBootMode stored env = d at hd
  cases hd with
  | recovery h => simpa using fun hf => absurd h (FollowsRecord.not_recovery hf)
  | factoryReset h hmode => simp [h, hmode]
  | otaPending _ hmode => simp [hmode]
  | slotA h _ => simp [h.2.1]
  | slotB h _ _ => simp [h.2.1]
  | emergency h _ _ => simp [h.2.1]

theorem mode_otaPending_iff (stored : BootConfig) (env : BootEnv δ) :
    (determineBootMode stored env).1 = .otaPending
      ↔ FollowsRecord stored env ∧ (loaded stored).mode = 2 := by
  have hd := determineBootMode_decision stored env
  generalize determineBootMode stored env = d at hd
  cases hd with
  | recovery h => simpa using fun hf => absurd h (FollowsRecord.not_recovery hf)
  | factoryReset _ hmode => simp [hmode]
  | otaPending h hmode => simp [h, hmode]
  | slotA h _ => simp [h.2.2]
  | slotB h _ _ => simp [h.2.2]
  | emergency h _ _ => simp [h.2.2]

/-- `entry` acts on the decision it takes after counting itself. -/
theorem entry_determines (stored : BootConfig) (env : BootEnv δ) :
    determineBootMode (entry stored env).stored env
      = ((entry stored env).mode, (entry stored env).env) := by
  rw [entry_stored]
  unfold entry counted loaded
  dsimp only
  split <;> rename_i h <;> rw [h]

/-- The decision behind a boot. -/
theorem entry_decision (stored : BootConfig) (env : BootEnv δ) :
    Decision (entry stored env).stored env ((entry stored env).mode, (entry stored env).env) :=
  entry_determines stored env ▸ determineBootMode_decision _ _

theorem entry_mode (stored : BootConfig) (env : BootEnv δ) :
    (entry stored env).mode = (determineBootMode (entry stored env).stored env).1 := by
  rw [entry_determines]

/-- How a boot ends follows from its mode. -/
theorem entry_exit (stored : BootConfig) (env : BootEnv δ) :
    (entry stored env).exit = match (entry stored env).mode with
      | .normal => jumpToFirmware (entry stored env).env 0
      | .otaPending => jumpToFirmware (entry stored env).env 0
      | .recovery => enterRecovery (entry stored env).env
      | .factoryReset => enterRecovery (entry stored env).env
      | .emergency => enterEmergency (entry stored env).env := by
  unfold entry
  dsimp only
  split <;> simp

/-- NVS is erased by the factory reset branch alone. -/
theorem entry_nvsErased (stored : BootConfig) (env : BootEnv δ) :
    (entry stored env).nvsErased = true ↔ (entry stored env).mode = .factoryReset := by
  unfold entry
  dsimp only
  split <;> simp

end TaktOS.Proof
