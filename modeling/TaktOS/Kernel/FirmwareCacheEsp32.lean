import TaktOS.Drivers.EspIdf

/-!
# The firmware cache on the device

What `firmware_cache.cpp` does with `TAKT_ESP32` defined. `init` asks which partition runs and
`activateSlot` sets the boot partition; both go on to the header-based path where that gives
nothing. The boot partition is on record in flash of its own, so it is passed beside the
storage.
-/

namespace TaktOS

namespace FirmwareCache

variable {δ : Type}

/-- Every label but `ota_0` counts as slot 1. -/
def initEsp32 (idf : EspIdf δ) (fc : FirmwareCache) (sm : StorageManager δ)
    (slotAOffset slotBOffset slotSize : UInt32) : FirmwareCache × StorageManager δ :=
  match idf.running with
  | some running =>
    ({ fc with
      slotAOffset, slotBOffset, slotSize
      activeSlot := if running.label = "ota_0" then 0 else 1 }, sm)
  | none => fc.init sm slotAOffset slotBOffset slotSize

/-- The label of a slot's partition. -/
def slotLabel (slot : UInt8) : String := if slot = 0 then "ota_0" else "ota_1"

/-- The lookup asks for the subtype of `ota_0`, whichever the slot. -/
def slotPartition (idf : EspIdf δ) (slot : UInt8) : Option EspTableEntry :=
  idf.findFirst (some .app) (some espSubtypeAppOtaMin) (some (slotLabel slot))

/-- The end of `activateSlot`: the header is marked bootable, the slot active. -/
def markBootable (fc : FirmwareCache) (sm : StorageManager δ) (slot : UInt8) :
    Option (FirmwareCache × StorageManager δ) :=
  let (_, hdr, sm) := fc.getHeader sm slot {}
  let hdr := { hdr with flags := hdr.flags ||| 0x02 }
  match sm.write (fc.slotOffset slot) hdr.toBytes with
  | none => none
  | some (_, sm) => some ({ fc with activeSlot := slot }, sm)

/-- `setBoot` is the outcome of `esp_ota_set_boot_partition`, `boot` the boot partition. -/
def activateSlotEsp32 (idf : EspIdf δ) (setBoot : EspTableEntry → Bool) (fc : FirmwareCache)
    (sm : StorageManager δ) (boot : Option EspTableEntry) (slot : UInt8) :
    Option (Bool × FirmwareCache × StorageManager δ × Option EspTableEntry) :=
  if slot > 1 then some (false, fc, sm, boot)
  else
    let (ok, sm) := fc.verify sm slot
    if !ok then some (false, fc, sm, boot)
    else
      -- a partition that is not found, or not set, is not an error
      match (slotPartition idf slot).filter setBoot with
      | some part => some (true, { fc with activeSlot := slot }, sm, some part)
      | none => (fc.markBootable sm slot).map fun (fc, sm) => (true, fc, sm, boot)

def rollbackEsp32 (idf : EspIdf δ) (setBoot : EspTableEntry → Bool) (fc : FirmwareCache)
    (sm : StorageManager δ) (boot : Option EspTableEntry) :
    Option (Bool × FirmwareCache × StorageManager δ × Option EspTableEntry) :=
  let prev := fc.inactiveSlot
  let (ok, sm) := fc.verify sm prev
  if !ok then some (false, fc, sm, boot)
  else fc.activateSlotEsp32 idf setBoot sm boot prev

end FirmwareCache

/--
What the bootloader's calls find on this device; `setBoot` is the outcome of
`esp_ota_set_boot_partition`, `boot` the boot partition.
-/
def EspIdf.espOta {δ : Type} (idf : EspIdf δ) (setBoot : EspPartition → Bool)
    (boot : EspPartition) : EspOta where
  ota0 := (FirmwareCache.slotPartition idf 0).map (·.toEspPartition)
  ota1 := (FirmwareCache.slotPartition idf 1).map (·.toEspPartition)
  recovery := (idf.findFirst (some .app) (some espSubtypeAppTest) (some "recovery")).map
    (·.toEspPartition)
  nextUpdate := idf.nextUpdate.map (·.toEspPartition)
  running := idf.running.map (·.toEspPartition)
  description := idf.description
  setBoot
  boot

end TaktOS
