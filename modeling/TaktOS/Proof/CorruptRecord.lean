import TaktOS.Proof.BootRecord

/-!
# A corrupt boot record

`loadBootConfig` tells its callers whether the record is intact, and none of them asks. A
record with the wrong magic is replaced, so it is treated as the default one; a record with
the right magic and the wrong CRC is used field by field.
-/

namespace TaktOS.Proof

open Bootloader

variable {δ : Type}

/-- The default record: mode `Normal`, nothing counted, slot 0. -/
def defaultRecord : BootConfig := saveBootConfig { magic := kBootConfigMagic }

/--
Every use of the record comes out as it does for the default record, and no branch it leads to
erases anything. What is done after an end that is undefined is not the record's doing: the
default record has such an end in the same environments.
-/
structure TreatedAsDefault (δ : Type) (stored : BootConfig) : Prop where
  determined : ∀ env : BootEnv δ,
    (determineBootMode stored env).1 = (determineBootMode defaultRecord env).1
  mode : ∀ env : BootEnv δ, (entry stored env).mode = (entry defaultRecord env).mode
  entered : ∀ env : BootEnv δ, (entry stored env).stored = (entry defaultRecord env).stored
  marked : markBootSuccessful stored = markBootSuccessful defaultRecord
  exit : ∀ env : BootEnv δ, (entry stored env).exit = (entry defaultRecord env).exit
  requested : ∀ slot, requestOtaBoot stored slot = requestOtaBoot defaultRecord slot
  keepsNvs : ∀ env : BootEnv δ, (entry stored env).nvsErased = false

/-- The record carries the wrong magic, or nothing but the default's fields. -/
def BlankOrReplaced (stored : BootConfig) : Prop :=
  stored.magic ≠ kBootConfigMagic
    ∨ stored.mode = 0 ∧ stored.bootCount = 0 ∧ stored.otaSlot = 0 ∧ stored.padding = 0

theorem loaded_default : loaded defaultRecord = { magic := kBootConfigMagic } :=
  loaded_save _ rfl rfl

theorem loaded_blankOrReplaced {stored : BootConfig} (h : BlankOrReplaced stored) :
    loaded stored = loaded defaultRecord := by
  rw [loaded_default]
  by_cases hm : stored.magic = kBootConfigMagic
  · obtain ⟨h1, h2, h3, h4⟩ := h.resolve_left (fun hc => hc hm)
    rw [loaded_of_magic hm, h1, h2, h3, h4, hm]
  · exact loaded_of_not_magic hm

theorem determineBootMode_congr {stored stored' : BootConfig} (h : loaded stored = loaded stored')
    (env : BootEnv δ) : determineBootMode stored env = determineBootMode stored' env := by
  unfold loaded at h
  unfold determineBootMode
  dsimp only
  rw [h]

theorem entry_congr {stored stored' : BootConfig} (h : loaded stored = loaded stored')
    (env : BootEnv δ) : entry stored env = entry stored' env := by
  unfold loaded at h
  unfold entry
  dsimp only
  rw [h]

theorem markBootSuccessful_congr {stored stored' : BootConfig}
    (h : loaded stored = loaded stored') : markBootSuccessful stored = markBootSuccessful stored' :=
  congrArg (fun c : BootConfig => saveBootConfig { c with bootCount := 0, mode := 0 }) h

theorem requestOtaBoot_congr {stored stored' : BootConfig} (h : loaded stored = loaded stored')
    (slot : UInt8) : requestOtaBoot stored slot = requestOtaBoot stored' slot :=
  congrArg (fun c : BootConfig => saveBootConfig { c with mode := 2, otaSlot := slot }) h

/-- The default record never resets anything. -/
theorem default_keepsNvs (env : BootEnv δ) : (entry defaultRecord env).nvsErased = false := by
  rw [← Bool.not_eq_true, entry_nvsErased, entry_mode, mode_factoryReset_iff, loaded_entry, counted,
    loaded_default]
  exact fun h => absurd h.2 (by decide)

/--
**A corrupt record is treated as the default one exactly when nothing in it says otherwise.**
Of all records, and so of those that `loadBootConfig` rejects, these lead every caller where the
default record does: those with the wrong magic, and those whose mode, counter, slot and padding
are all zero.
-/
theorem treated_as_default_iff (stored : BootConfig) :
    TreatedAsDefault δ stored ↔ BlankOrReplaced stored := by
  constructor
  · intro ht
    by_cases hm : stored.magic = kBootConfigMagic
    · -- what `entry` stores shows every field but the CRC
      have he := ht.entered (.esp32 true ⟨none, none, none, none, none, fun _ => none,
        fun _ => true, ⟨"factory", 0x10000⟩⟩)
      rw [entry_stored, entry_stored] at he
      obtain ⟨h1, h2, h3, h4⟩ := saveBootConfig_inj he
      rw [counted, counted, loaded_of_magic hm, loaded_default] at h1 h2 h3 h4
      exact Or.inr ⟨h1, (UInt8.add_left_inj 1).mp h2, h3, h4⟩
    · exact Or.inl hm
  · intro hb
    have hl := loaded_blankOrReplaced hb
    exact {
      determined := fun env => by rw [determineBootMode_congr hl env]
      mode := fun env => by rw [entry_congr hl env]
      entered := fun env => by rw [entry_congr hl env]
      exit := fun env => by rw [entry_congr hl env]
      marked := markBootSuccessful_congr hl
      requested := requestOtaBoot_congr hl
      keepsNvs := fun env => by rw [entry_congr hl env]; exact default_keepsNvs env }

/-- **A record with a wrong CRC can erase NVS.** -/
theorem corrupt_record_erases_nvs :
    (loadBootConfig { magic := kBootConfigMagic, mode := 3 }).1 = false
      ∧ ¬ TreatedAsDefault (Nat → UInt8) { magic := kBootConfigMagic, mode := 3 } := by
  refine ⟨by decide +kernel, fun h => ?_⟩
  have := h.keepsNvs (.host testCache testStorage)
  exact absurd this (by decide)

end TaktOS.Proof
