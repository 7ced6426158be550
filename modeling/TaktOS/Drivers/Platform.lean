import TaktOS.Kernel.FirmwareCacheEsp32

/-!
# Setting the storage up on the device

The partition backend of `flash_backend.cpp` and `Platform::init` of `platform.cpp`, with
`TAKT_ESP32` defined. The watchdog calls of `init` touch neither storage nor cache.
-/

namespace TaktOS

variable {δ : Type}

/-! ## The partition backend -/

/-- `partitionRead`; the sum is a `size_t` of the device. -/
def partitionRead (idf : EspIdf δ) (part : EspTableEntry) (d : δ) (offset : UInt32)
    (buf : List UInt8) : Int × List UInt8 × δ :=
  if Target.esp32.size (offset.toNat + buf.length) > part.size.toNat then (-1, buf, d)
  else
    let (ok, buf', d) := idf.read d part offset.toNat buf
    (if ok then castInt buf.length else -1, buf', d)

def partitionWrite (idf : EspIdf δ) (part : EspTableEntry) (d : δ) (offset : UInt32)
    (buf : List UInt8) : Int × δ :=
  if Target.esp32.size (offset.toNat + buf.length) > part.size.toNat then (-1, d)
  else
    let (ok, d) := idf.write d part offset.toNat buf
    (if ok then castInt buf.length else -1, d)

/-- The one call that leaves its bound to the ESP-IDF. -/
def partitionErase (idf : EspIdf δ) (part : EspTableEntry) (d : δ) (offset : UInt32)
    (len : Nat) : Int × δ :=
  let (ok, d) := idf.eraseRange d part offset.toNat len
  (if ok then 0 else -1, d)

/-- The backend of one partition, whose offsets all count from the partition's start. Only one
is made, so `g_storageCtx` is the partition the backend was made for. -/
def partitionBackend (idf : EspIdf δ) (part : EspTableEntry) : FlashBackend δ where
  read := partitionRead idf part
  write := partitionWrite idf part
  erase := partitionErase idf part
  totalSize := part.size
  sectorSize := 4096

def createPartitionBackend (idf : EspIdf δ) (label : String) : Option (FlashBackend δ) :=
  (idf.findFirst none none (some label)).map (partitionBackend idf)

def initStorageFromPartition (idf : EspIdf δ) (sm : StorageManager δ) (label : String) :
    Bool × StorageManager δ :=
  match createPartitionBackend idf label with
  | none => (false, sm)
  | some backend => (true, { sm with backend := some backend })

/-! ## Starting up -/

namespace Platform

/-- The slots get the places of their partitions in the flash. -/
def init (idf : EspIdf δ) (fc : FirmwareCache) (sm : StorageManager δ) :
    FirmwareCache × StorageManager δ :=
  let (_, sm) := initStorageFromPartition idf sm "storage"
  let ota0 := idf.findFirst (some .app) (some espSubtypeAppOta0) none
  let ota1 := idf.findFirst (some .app) (some espSubtypeAppOta1) none
  match ota0, ota1 with
  | some ota0, some ota1 => fc.initEsp32 idf sm ota0.address ota1.address ota0.size
  | _, _ => (fc, sm)

end Platform

end TaktOS
