import TaktOS.Lib.LittleEndian
import TaktOS.Kernel.Crc32
import TaktOS.Kernel.Storage

/-!
# The dual-bank firmware cache

`FirmwareCache` of `firmware_cache.hpp` and `firmware_cache.cpp`, on its
header-based path: the host build, and the device build where the `esp_ota` calls
give no partition. Every operation takes the storage singleton it works on and
returns it with what the operation left in it; `none` is a storage write that does
not return.
-/

namespace TaktOS

open Lib

/-- Firmware image metadata, 24 bytes at the start of a slot. -/
structure FirmwareHeader where
  magic : UInt32 := 0
  version : UInt32 := 0
  size : UInt32 := 0
  crc32 : UInt32 := 0
  timestamp : UInt32 := 0
  slot : UInt8 := 0
  /-- bit0 = valid, bit1 = bootable, bit2 = pending_verify -/
  flags : UInt8 := 0
  reserved0 : UInt8 := 0
  reserved1 : UInt8 := 0
  deriving DecidableEq, Repr

namespace FirmwareHeader

/-- The bytes of the struct, as the compiler lays it out. -/
def toBytes (h : FirmwareHeader) : List UInt8 :=
  leBytes h.magic ++ leBytes h.version ++ leBytes h.size ++ leBytes h.crc32
    ++ leBytes h.timestamp ++ [h.slot, h.flags, h.reserved0, h.reserved1]

/-- The struct that a byte buffer holds. -/
def ofBytes (bs : List UInt8) : FirmwareHeader where
  magic := wordAt bs 0
  version := wordAt bs 4
  size := wordAt bs 8
  crc32 := wordAt bs 12
  timestamp := wordAt bs 16
  slot := bs.getD 20 0
  flags := bs.getD 21 0
  reserved0 := bs.getD 22 0
  reserved1 := bs.getD 23 0

/-- `flags & 0x01`. -/
def validFlag (h : FirmwareHeader) : Bool := h.flags &&& 0x01 ≠ 0

@[simp] theorem length_toBytes (h : FirmwareHeader) : h.toBytes.length = 24 := rfl

/-- **A header written to memory reads back as itself.** -/
@[simp] theorem ofBytes_toBytes (h : FirmwareHeader) : ofBytes h.toBytes = h := by
  obtain ⟨magic, version, size, crc32, timestamp, slot, flags, reserved0, reserved1⟩ := h
  simp [ofBytes, toBytes, wordAt, leBytes]

end FirmwareHeader

/-- `sizeof(FirmwareHeader)`. -/
def headerSize : Nat := 24

/-- 'TAKT' -/
def kFirmwareMagic : UInt32 := 0x54414B54

def kVerifyChunk : UInt32 := 4096

/-- One flash sector for metadata. -/
def kHeaderReserved : UInt32 := 4096

structure FirmwareCache where
  slotAOffset : UInt32 := 0
  slotBOffset : UInt32 := 0
  slotSize : UInt32 := 0
  activeSlot : UInt8 := 0
  writeOffset : UInt32 := 0
  writeCrc : UInt32 := 0
  writeImageSize : UInt32 := 0
  writeVersion : UInt32 := 0
  writing : Bool := false
  deriving DecidableEq, Repr

namespace FirmwareCache

variable {δ : Type}

/-- `slotOffset_[slot]`. -/
def slotOffset (fc : FirmwareCache) (slot : UInt8) : UInt32 :=
  if slot = 0 then fc.slotAOffset else fc.slotBOffset

def inactiveSlot (fc : FirmwareCache) : UInt8 := if fc.activeSlot = 0 then 1 else 0

/-- Read the header of a slot into `header`; whether it carries the magic. -/
def getHeader (fc : FirmwareCache) (sm : StorageManager δ) (slot : UInt8)
    (header : FirmwareHeader) : Bool × FirmwareHeader × StorageManager δ :=
  if slot > 1 then (false, header, sm)
  else
    let (r, buf, sm) := sm.read (fc.slotOffset slot) header.toBytes
    -- the buffer is the caller's struct: a failed read leaves in it what the backend put there
    let header := FirmwareHeader.ofBytes buf
    if r ≠ headerSize then (false, header, sm)
    else (header.magic = kFirmwareMagic, header, sm)

/-- Header-based slot selection; the source returns `true` on every path. -/
def init (fc : FirmwareCache) (sm : StorageManager δ) (slotAOffset slotBOffset slotSize : UInt32) :
    FirmwareCache × StorageManager δ :=
  let fc := { fc with slotAOffset, slotBOffset, slotSize }
  let (okA, hdrA, sm) := fc.getHeader sm 0 {}
  let validA := okA && hdrA.validFlag
  let (okB, hdrB, sm) := fc.getHeader sm 1 {}
  let validB := okB && hdrB.validFlag
  -- a flagged slot A wins, whatever slot B holds
  ({ fc with activeSlot := if validA then 0 else if validB then 1 else 0 }, sm)

def beginWrite (fc : FirmwareCache) (imageSize version : UInt32) : Bool × FirmwareCache :=
  -- a slot smaller than the reserve makes the difference wrap, and admits every size
  if imageSize > fc.slotSize - kHeaderReserved then (false, fc)
  else
    (true, { fc with
      writeOffset := kHeaderReserved
      writeCrc := Crc32.initial
      writeImageSize := imageSize
      writeVersion := version
      writing := true })

def writeChunk (fc : FirmwareCache) (sm : StorageManager δ) (data : List UInt8) :
    Option (Int × FirmwareCache × StorageManager δ) :=
  if !fc.writing then some (-1, fc, sm)
  else
    let slot := fc.inactiveSlot
    -- neither the slot's end nor the announced size is looked at
    let offset := fc.slotOffset slot + fc.writeOffset
    match sm.write offset data with
    | none => none
    | some (r, sm) =>
      if r < 0 then some (-1, fc, sm)
      else
        some (castInt data.length,
          { fc with
            writeCrc := Crc32.update fc.writeCrc data
            writeOffset := fc.writeOffset + UInt32.ofNat data.length }, sm)

/--
The chunk loop of `verify`: the running CRC at the end, or `none` after a failed read.
Every pass takes at least one byte off `remaining`, so `remaining` is fuel enough.
-/
def verifyLoop (sm : StorageManager δ) :
    Nat → UInt32 → UInt32 → UInt32 → Option UInt32 × StorageManager δ
  | 0, _, _, crc => (some crc, sm)
  | fuel + 1, remaining, offset, crc =>
    if remaining > 0 then
      let chunk := if remaining > kVerifyChunk then kVerifyChunk else remaining
      let (r, buf, sm) := sm.read offset (List.replicate chunk.toNat 0)
      if r ≠ chunk.toNat then (none, sm)
      else verifyLoop sm fuel (remaining - chunk) (offset + chunk) (Crc32.update crc buf)
    else (some crc, sm)

def verify (fc : FirmwareCache) (sm : StorageManager δ) (slot : UInt8) :
    Bool × StorageManager δ :=
  if slot > 1 then (false, sm)
  else
    let (ok, hdr, sm) := fc.getHeader sm slot {}
    if !ok then (false, sm)
    else if hdr.magic ≠ kFirmwareMagic || !hdr.validFlag then (false, sm)
    else
      match verifyLoop sm hdr.size.toNat hdr.size (fc.slotOffset slot + kHeaderReserved)
          Crc32.initial with
      | (none, sm) => (false, sm)
      | (some crc, sm) => (Crc32.finalize crc = hdr.crc32, sm)

/-- The header `finalizeWrite` builds for the session it closes. -/
def sessionHeader (fc : FirmwareCache) (slot : UInt8) : FirmwareHeader where
  magic := kFirmwareMagic
  version := fc.writeVersion
  size := fc.writeImageSize
  slot := slot
  crc32 := Crc32.finalize fc.writeCrc
  flags := 0x01

/-- The result of the header write is dropped, as in the source; only `verify` decides. -/
def finalizeWrite (fc : FirmwareCache) (sm : StorageManager δ) :
    Option (Bool × FirmwareCache × StorageManager δ) :=
  if !fc.writing then some (false, fc, sm)
  else
    let slot := fc.inactiveSlot
    match sm.write (fc.slotOffset slot) (fc.sessionHeader slot).toBytes with
    | none => none
    | some (_, sm) =>
      let fc := { fc with writing := false }
      let (ok, sm) := fc.verify sm slot
      some (ok, fc, sm)

def activateSlot (fc : FirmwareCache) (sm : StorageManager δ) (slot : UInt8) :
    Option (Bool × FirmwareCache × StorageManager δ) :=
  if slot > 1 then some (false, fc, sm)
  else
    let (ok, sm) := fc.verify sm slot
    if !ok then some (false, fc, sm)
    else
      let (_, hdr, sm) := fc.getHeader sm slot {}
      -- the bootable bit is all that flash ever learns of the switch
      let hdr := { hdr with flags := hdr.flags ||| 0x02 }
      match sm.write (fc.slotOffset slot) hdr.toBytes with
      | none => none
      | some (_, sm) => some (true, { fc with activeSlot := slot }, sm)

def rollback (fc : FirmwareCache) (sm : StorageManager δ) :
    Option (Bool × FirmwareCache × StorageManager δ) :=
  let prev := fc.inactiveSlot
  let (ok, sm) := fc.verify sm prev
  if !ok then some (false, fc, sm)
  else fc.activateSlot sm prev

end FirmwareCache

/-- Two slots of four sectors each on the test's flash, as `init` leaves a blank one. -/
def testCache : FirmwareCache where
  slotAOffset := 0x1000
  slotBOffset := 0x5000
  slotSize := 0x4000

example : ((({} : FirmwareCache).init testStorage 0x1000 0x5000 0x4000)).1 = testCache := by
  decide

/-- A flash with a finished image in the slot at `off`. -/
def withImage (m : Nat → UInt8) (off : Nat) (slot : UInt8) (data : List UInt8) : Nat → UInt8 :=
  let header : FirmwareHeader :=
    { magic := kFirmwareMagic, size := UInt32.ofNat data.length, crc32 := Crc32.compute data,
      slot := slot, flags := 0x01 }
  overlay (overlay m (off + kHeaderReserved.toNat) data) off header.toBytes

end TaktOS
