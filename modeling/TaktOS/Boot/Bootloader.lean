import TaktOS.Kernel.FirmwareCache

/-!
# The bootloader

`Bootloader` of `bootloader.hpp` and `bootloader.cpp`. The boot record lives in memory that
survives a reset and holds anything after power-up, so it is a record of raw bytes: `mode`
need not be one of the enumerators, and the byte the compiler pads the struct with is part of
what is stored and signed.

The functions that do not return, `entry` and what it ends in, return how they ended. They are
declared `[[noreturn]]`, and two of them return all the same: `enterRecovery` where there is no
recovery partition, and on the host, where `enterEmergency` returns too. Nothing is defined from
there on, and no code of `entry` stands behind the calls.
-/

namespace TaktOS

open Lib

/-- Boot mode selected by GPIO, RTC memory, or watchdog trigger. -/
inductive BootMode where
  | normal
  | recovery
  | otaPending
  | factoryReset
  | emergency
  deriving DecidableEq, Repr

/-- The enumerator's `uint8_t`. -/
def BootMode.toByte : BootMode → UInt8
  | .normal => 0
  | .recovery => 1
  | .otaPending => 2
  | .factoryReset => 3
  | .emergency => 4

/-- Boot decision stored in RTC_NOINIT_ATTR memory, 12 bytes. -/
structure BootConfig where
  magic : UInt32 := 0
  mode : UInt8 := 0
  bootCount : UInt8 := 0
  otaSlot : UInt8 := 0
  padding : UInt8 := 0
  crc32 : UInt32 := 0
  deriving DecidableEq, Repr

def kBootConfigMagic : UInt32 := 0xB007C0DE

/-- The bytes of the struct, as the compiler lays it out. -/
def BootConfig.toBytes (config : BootConfig) : List UInt8 :=
  leBytes config.magic ++ [config.mode, config.bootCount, config.otaSlot, config.padding]
    ++ leBytes config.crc32

/-- The struct that 12 bytes hold. -/
def BootConfig.ofBytes (bs : List UInt8) : BootConfig where
  magic := wordAt bs 0
  mode := bs.getD 4 0
  bootCount := bs.getD 5 0
  otaSlot := bs.getD 6 0
  padding := bs.getD 7 0
  crc32 := wordAt bs 8

@[simp] theorem BootConfig.length_toBytes (config : BootConfig) : config.toBytes.length = 12 := rfl

/-- **A record stored as bytes reads back as itself.** -/
@[simp] theorem BootConfig.ofBytes_toBytes (config : BootConfig) :
    BootConfig.ofBytes config.toBytes = config := by
  obtain ⟨magic, mode, bootCount, otaSlot, padding, crc32⟩ := config
  simp [BootConfig.ofBytes, BootConfig.toBytes, wordAt, leBytes]

/-! ## The flash the bootloader sees -/

/-- A partition of the ESP-IDF partition table. -/
structure EspPartition where
  label : String
  address : UInt32
  deriving DecidableEq, Repr

/-- What the `esp_ota` and `esp_partition` calls of the bootloader answer. -/
structure EspOta where
  /-- `esp_partition_find_first` for the labels `ota_0` and `ota_1`. -/
  ota0 : Option EspPartition
  ota1 : Option EspPartition
  /-- `esp_partition_find_first` for the label `recovery`. -/
  recovery : Option EspPartition
  nextUpdate : Option EspPartition
  running : Option EspPartition
  /-- The magic word of a partition's app description, where it can be read. -/
  description : EspPartition → Option UInt32
  /-- Whether `esp_ota_set_boot_partition` returns `ESP_OK`. -/
  setBoot : EspPartition → Bool
  /-- The boot partition as it stands: one that started the code that runs. -/
  boot : EspPartition

/-- `esp_ota_set_boot_partition`, its result dropped, and `esp_restart`: what is started. -/
def EspOta.restart (ota : EspOta) (part : EspPartition) : EspPartition :=
  if ota.setBoot part then part else ota.boot

/-- `ESP_APP_DESC_MAGIC_WORD` -/
def espAppDescMagicWord : UInt32 := 0xABCD5432

/-- What a boot finds besides the boot record. -/
inductive BootEnv (δ : Type) where
  | host (cache : FirmwareCache) (storage : StorageManager δ)
  /-- `gpio0` is the level of the boot pin, `true` for high. -/
  | esp32 (gpio0 : Bool) (ota : EspOta)

/-- How a boot ended. -/
inductive BootExit where
  /-- The host build prints the offset and exits. -/
  | jumpToOffset (flashOffset : UInt32)
  /-- `jumpToFirmware` restarts the device, and the partition is started. -/
  | jumpToPartition (part : EspPartition)
  /-- `jumpToFirmware` found no partition. -/
  | aborted
  /-- `enterRecovery` restarts the device, and the partition is started. -/
  | recovery (part : EspPartition)
  /-- The device waits for ever. -/
  | emergency
  /-- A `[[noreturn]]` function returned. -/
  | undefined
  deriving DecidableEq, Repr

namespace Bootloader

variable {δ : Type}

/-! ## The boot record -/

def crc32Bit (crc : UInt32) : UInt32 :=
  (crc >>> 1) ^^^ (if crc &&& 1 ≠ 0 then 0xEDB88320 else 0)

def crc32Config (data : List UInt8) : UInt32 :=
  data.foldl (fun crc b => Nat.repeat crc32Bit 8 (crc ^^^ b.toUInt32)) 0xFFFFFFFF ^^^ 0xFFFFFFFF

/-- Whether the stored record is intact, and what the caller works with either way. -/
def loadBootConfig (stored : BootConfig) : Bool × BootConfig :=
  if stored.magic ≠ kBootConfigMagic then
    (false, { magic := kBootConfigMagic, mode := BootMode.normal.toByte })
  else
    -- with a wrong CRC the fields are handed on all the same
    let config := { stored with crc32 := 0 }
    (crc32Config config.toBytes = stored.crc32, config)

/-- The record as it is stored. -/
def saveBootConfig (config : BootConfig) : BootConfig :=
  let cfg := { config with crc32 := 0 }
  { cfg with crc32 := crc32Config cfg.toBytes }

def markBootSuccessful (stored : BootConfig) : BootConfig :=
  let (_, config) := loadBootConfig stored
  saveBootConfig { config with bootCount := 0, mode := BootMode.normal.toByte }

def requestOtaBoot (stored : BootConfig) (slot : UInt8) : BootConfig :=
  let (_, config) := loadBootConfig stored
  saveBootConfig { config with mode := BootMode.otaPending.toByte, otaSlot := slot }

/-! ## Deciding -/

/-- The boot pin reads low. The host build does not look. -/
def pinLow : BootEnv δ → Bool
  | .host _ _ => false
  | .esp32 gpio0 _ => !gpio0

def validateFirmware (env : BootEnv δ) (slot : UInt8) : Bool × BootEnv δ :=
  match env with
  | .host cache storage =>
    let (ok, storage) := cache.verify storage slot
    (ok, .host cache storage)
  | .esp32 _ ota =>
    match (if slot = 0 then ota.ota0 else ota.ota1) with
    | none => (false, env)
    | some part =>
      match ota.description part with
      | none => (false, env)
      | some magicWord => (magicWord = espAppDescMagicWord, env)

def determineBootMode (stored : BootConfig) (env : BootEnv δ) : BootMode × BootEnv δ :=
  let (_, config) := loadBootConfig stored
  if pinLow env then (.recovery, env)
  else if config.bootCount > 3 then (.recovery, env)
  -- a stored mode `Recovery` is not looked for
  else if config.mode = BootMode.factoryReset.toByte then (.factoryReset, env)
  else if config.mode = BootMode.otaPending.toByte then (.otaPending, env)
  else
    let (valid0, env) := validateFirmware env 0
    if valid0 then (.normal, env)
    else
      let (valid1, env) := validateFirmware env 1
      if valid1 then (.normal, env) else (.emergency, env)

/-! ## Acting -/

/-- The device ignores the offset. -/
def jumpToFirmware (env : BootEnv δ) (flashOffset : UInt32) : BootExit :=
  match env with
  | .host _ _ => .jumpToOffset flashOffset
  | .esp32 _ ota =>
    match ota.nextUpdate with
    | some part => .jumpToPartition (ota.restart part)
    | none =>
      match ota.running with
      | some part => .jumpToPartition (ota.restart part)
      | none => .aborted

def enterRecovery : BootEnv δ → BootExit
  | .host _ _ => .undefined
  | .esp32 _ ota =>
    match ota.recovery with
    | some part => .recovery (ota.restart part)
    | none => .undefined

def enterEmergency : BootEnv δ → BootExit
  | .host _ _ => .undefined
  | .esp32 _ _ => .emergency

/-- What one boot decided and did. -/
structure Boot (δ : Type) where
  /-- The record it leaves. -/
  stored : BootConfig
  mode : BootMode
  /-- The branch taken called `eraseAll`. -/
  nvsErased : Bool := false
  exit : BootExit
  env : BootEnv δ

/-- `config.otaSlot == 0 ? 0 : 0` is the source's own target for `OtaPending`. -/
def entry (stored : BootConfig) (env : BootEnv δ) : Boot δ :=
  let (_, config) := loadBootConfig stored
  -- a `uint8_t`: 0 comes after 255
  let config := { config with bootCount := config.bootCount + 1 }
  let stored := saveBootConfig config
  match determineBootMode stored env with
  | (.normal, env) => { stored, mode := .normal, exit := jumpToFirmware env 0, env }
  | (.recovery, env) => { stored, mode := .recovery, exit := enterRecovery env, env }
  | (.factoryReset, env) =>
    { stored, mode := .factoryReset, nvsErased := true, exit := enterRecovery env, env }
  | (.otaPending, env) =>
    { stored, mode := .otaPending,
      exit := jumpToFirmware env (if config.otaSlot = 0 then 0 else 0), env }
  | (.emergency, env) => { stored, mode := .emergency, exit := enterEmergency env, env }

end Bootloader

end TaktOS
