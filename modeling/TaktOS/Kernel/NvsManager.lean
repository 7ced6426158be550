import TaktOS.Kernel.Crc32
import TaktOS.Kernel.Storage
import TaktOS.Lib.LittleEndian

/-!
# Key-value storage

`NvsManager` of `nvs_manager.hpp` and `nvs_manager.cpp`, the two builds apart. On the device it
keeps an entry as two blobs of ESP-IDF's NVS, the data under the key and an `NvsEntry` under the
key with `_meta` appended; the NVS calls are functions of the state of the partition. The host
build keeps one record in a map.

A C string is the list of its characters without the terminator. A buffer is the list of its
bytes, so its length is the caller's `maxLen`; an out parameter is passed in and returned.
-/

namespace TaktOS

open Lib

/-- A namespace or a key. -/
abbrev Name := List UInt8

/-- A string literal of the source. -/
def ascii (chars : List Char) : Name := chars.map fun c => UInt8.ofNat c.toNat

def metaSuffix : Name := ascii ['_', 'm', 'e', 't', 'a']

/-- `snprintf(metaKey, 40, "%s_meta", key)`. -/
def metaKey (key : Name) : Name := (key ++ metaSuffix).take 39

/-- `strstr` finds the needle. -/
def strstr (needle : Name) : Name → Bool
  | [] => needle.isEmpty
  | c :: cs => needle.isPrefixOf (c :: cs) || strstr needle cs

/-- The first `n` bytes, zeros where there are none. -/
def padTo (n : Nat) (bs : List UInt8) : List UInt8 := (bs ++ List.replicate n 0).take n

/-- NVS entry metadata with versioning and integrity, 40 bytes. -/
structure NvsEntry where
  /-- The 32 bytes of the field. -/
  key : List UInt8
  version : UInt16
  dataSize : UInt16
  crc32 : UInt32
  deriving DecidableEq, Repr

namespace NvsEntry

/-- The entry `writeEntry` makes; a long key is cut to 31 characters. -/
def make (key : Name) (data : List UInt8) (version : UInt16) : NvsEntry where
  key := padTo 32 (key.take 31)
  version := version
  dataSize := UInt16.ofNat data.length
  crc32 := Crc32.compute data

/-- The bytes of the struct, as the compiler lays it out. -/
def toBytes (e : NvsEntry) : List UInt8 :=
  e.key ++ leHalfBytes e.version ++ leHalfBytes e.dataSize ++ leBytes e.crc32

/-- A zeroed struct after a blob was read into it. -/
def ofBytes (bs : List UInt8) : NvsEntry where
  key := padTo 32 bs
  version := halfAt bs 32
  dataSize := halfAt bs 34
  crc32 := wordAt bs 36

end NvsEntry

/-- `sizeof(NvsEntry)`. -/
def nvsEntrySize : Nat := 40

def kBackupNs : Name := ascii ['t', 'a', 'k', 't', '_', 'b', 'a', 'k']

def kBackupMagicKey : Name := ascii ['_', 'b', 'a', 'k', '_', 'm', 'a', 'g', 'i', 'c']

def kBackupMagic : UInt32 := 0xBAAC0DE1

namespace NvsManager

/-- `namespace_` after `init` copied the name: 15 characters of it. -/
def namespaceOf (namespaceName : Name) : Name := namespaceName.take 15

/-- The name `init` takes when it is given none. -/
def defaultNamespace : Name := ascii ['t', 'a', 'k', 't']

end NvsManager

/-! ## The device -/

/-- What `nvs_flash_init` answers. -/
inductive NvsInit where
  | ok
  /-- `ESP_ERR_NVS_NO_FREE_PAGES` or `ESP_ERR_NVS_NEW_VERSION_FOUND` -/
  | mustErase
  | failed
  deriving DecidableEq, Repr

/--
The calls of ESP-IDF's NVS that the manager makes, on a partition with states in `σ`. A handle
is the namespace it was opened for. A result `false` or `none` is an error code.
-/
structure NvsFlash (σ : Type) where
  flashInit : σ → NvsInit × σ
  flashErase : σ → Bool × σ
  /-- `nvs_open` with `NVS_READONLY`. -/
  openReadOnly : σ → Name → Bool
  /-- `nvs_open` with `NVS_READWRITE`, which makes the namespace. -/
  openReadWrite : σ → Name → Bool × σ
  /-- `nvs_get_blob` into a buffer of the length given: the bytes put there. -/
  getBlob : σ → Name → Name → Nat → Option (List UInt8)
  /-- `nvs_get_blob` without a buffer. -/
  blobLength : σ → Name → Name → Option Nat
  getU32 : σ → Name → Name → Option UInt32
  setBlob : σ → Name → Name → List UInt8 → Bool × σ
  setU32 : σ → Name → Name → UInt32 → Bool × σ
  eraseKey : σ → Name → Name → Bool × σ
  commit : σ → Name → Bool × σ
  /-- The keys an iterator over the namespace goes through; none is `ESP_ERR_NVS_NOT_FOUND`. -/
  entries : σ → Name → List Name

namespace NvsManager.Esp32

variable {σ : Type} (nvs : NvsFlash σ) (ns : Name)

/-- The results of both blob writes are dropped. -/
def writeEntry (s : σ) (key : Name) (data : List UInt8) (version : UInt16) : Bool × σ :=
  let (ok, s) := nvs.openReadWrite s ns
  if !ok then (false, s)
  else
    let (_, s) := nvs.setBlob s ns (metaKey key) (NvsEntry.make key data version).toBytes
    let (_, s) := nvs.setBlob s ns key data
    nvs.commit s ns

/-- The result, the buffer and the version afterwards. -/
def readEntry (s : σ) (key : Name) (buf : List UInt8) (version : UInt16) :
    Bool × List UInt8 × UInt16 :=
  if !nvs.openReadOnly s ns then (false, buf, version)
  else
    match nvs.getBlob s ns (metaKey key) nvsEntrySize with
    | none => (false, buf, version)
    | some bytes =>
      let entry := NvsEntry.ofBytes bytes
      match nvs.getBlob s ns key buf.length with
      | none => (false, buf, version)
      | some data =>
        -- the buffer is filled before the CRC is looked at
        let buf := data ++ buf.drop data.length
        if Crc32.compute data ≠ entry.crc32 then (false, buf, version)
        else (true, buf, entry.version)

def setBlob (s : σ) (key : Name) (data : List UInt8) (version : UInt16) : Bool × σ :=
  writeEntry nvs ns s key data version

def getBlob (s : σ) (key : Name) (buf : List UInt8) (version : UInt16) :
    Int × List UInt8 × UInt16 :=
  if !nvs.openReadOnly s ns then (-1, buf, version)
  else
    match nvs.blobLength s ns key with
    | none => (-1, buf, version)
    | some len =>
      if len > buf.length then (-1, buf, version)
      else
        let (ok, buf, version) := readEntry nvs ns s key buf version
        if !ok then (-1, buf, version) else (castInt len, buf, version)

def setU8 (s : σ) (key : Name) (value : UInt8) (version : UInt16) : Bool × σ :=
  writeEntry nvs ns s key [value] version

def setU16 (s : σ) (key : Name) (value : UInt16) (version : UInt16) : Bool × σ :=
  writeEntry nvs ns s key (leHalfBytes value) version

def setU32 (s : σ) (key : Name) (value : UInt32) (version : UInt16) : Bool × σ :=
  writeEntry nvs ns s key (leBytes value) version

/-- The value's own bytes are the buffer. -/
def getU8 (s : σ) (key : Name) (value : UInt8) : Bool × UInt8 :=
  let (ok, buf, _) := readEntry nvs ns s key [value] 0
  (ok, buf.getD 0 0)

def getU16 (s : σ) (key : Name) (value : UInt16) : Bool × UInt16 :=
  let (ok, buf, _) := readEntry nvs ns s key (leHalfBytes value) 0
  (ok, halfAt buf 0)

def getU32 (s : σ) (key : Name) (value : UInt32) : Bool × UInt32 :=
  let (ok, buf, _) := readEntry nvs ns s key (leBytes value) 0
  (ok, wordAt buf 0)

/-- The terminator is stored. -/
def setString (s : σ) (key : Name) (value : List UInt8) (version : UInt16) : Bool × σ :=
  writeEntry nvs ns s key (value ++ [0]) version

def getString (s : σ) (key : Name) (buf : List UInt8) : Bool × List UInt8 :=
  let (ok, buf, _) := readEntry nvs ns s key buf 0
  (ok, buf)

def remove (s : σ) (key : Name) : Bool × σ :=
  let (ok, s) := nvs.openReadWrite s ns
  if !ok then (false, s)
  else
    let (_, s) := nvs.eraseKey s ns key
    let (_, s) := nvs.eraseKey s ns (metaKey key)
    let (_, s) := nvs.commit s ns
    (true, s)

def eraseAll (s : σ) : Bool × σ := nvs.flashErase s

/-- The body of `backup`'s loop. -/
def backupKey (s : σ) (key : Name) : σ :=
  if strstr metaSuffix key then s
  else
    match nvs.blobLength s ns key with
    | none => s
    | some len =>
      if len = 0 then s
      else
        match nvs.getBlob s ns key len with
        | none => s
        | some data =>
          -- whether the data matches its CRC is not asked
          let (_, s) := nvs.setBlob s kBackupNs key data
          match nvs.getBlob s ns (metaKey key) nvsEntrySize with
          | none => s
          | some bytes =>
            (nvs.setBlob s kBackupNs (metaKey key) (NvsEntry.ofBytes bytes).toBytes).2

def backup (s : σ) : Bool × σ :=
  if !nvs.openReadOnly s ns then (false, s)
  else
    let (ok, s) := nvs.openReadWrite s kBackupNs
    if !ok then (false, s)
    else
      match nvs.entries s ns with
      | [] => (false, s)
      | key :: keys =>
        let s := (key :: keys).foldl (backupKey nvs ns) s
        let (_, s) := nvs.setU32 s kBackupNs kBackupMagicKey kBackupMagic
        let (_, s) := nvs.commit s kBackupNs
        (true, s)

/-- The body of `restoreFromBackup`'s loop. -/
def restoreKey (s : σ) (key : Name) : σ :=
  if key = kBackupMagicKey then s
  else
    match nvs.blobLength s kBackupNs key with
    | none => s
    | some len =>
      if len = 0 then s
      else
        match nvs.getBlob s kBackupNs key len with
        | none => s
        | some data => (nvs.setBlob s ns key data).2

def restoreFromBackup (s : σ) : Bool × σ :=
  if !nvs.openReadOnly s kBackupNs then (false, s)
  else if nvs.getU32 s kBackupNs kBackupMagicKey ≠ some kBackupMagic then (false, s)
  else
    let (ok, s) := nvs.openReadWrite s ns
    if !ok then (false, s)
    else
      match nvs.entries s kBackupNs with
      | [] => (false, s)
      | key :: keys =>
        let s := (key :: keys).foldl (restoreKey nvs ns) s
        let (_, s) := nvs.commit s ns
        (true, s)

/-- The body of `verifyIntegrity`'s loop: whether it goes on, and `none` where it crashes. -/
def verifyKey (s : σ) (key : Name) : Option Bool :=
  if strstr metaSuffix key then some true
  else
    match nvs.getBlob s ns (metaKey key) nvsEntrySize with
    | none => some false
    | some bytes =>
      let entry := NvsEntry.ofBytes bytes
      if entry.dataSize = 0 then
        -- an empty vector's `data()` is null: `nvs_get_blob` answers the length of the blob, and
        -- the CRC is taken of as many bytes at the null pointer
        match nvs.blobLength s ns key with
        | none => some false
        | some len => if len = 0 then some (Crc32.compute [] = entry.crc32) else none
      else
        match nvs.getBlob s ns key entry.dataSize.toNat with
        | none => some false
        | some data => some (Crc32.compute data = entry.crc32)

/-- The loop ends at the first entry that fails. -/
def verifyKeys (s : σ) : List Name → Option Bool
  | [] => some true
  | key :: keys =>
    match verifyKey nvs ns s key with
    | some true => verifyKeys s keys
    | verdict => verdict

def verifyIntegrity (s : σ) : Option Bool :=
  if !nvs.openReadOnly s ns then some false
  else verifyKeys nvs ns s (nvs.entries s ns)

/-- The result of a restore is dropped; `none` where the check crashes. -/
def init (s : σ) (namespaceName : Name) : Option (Bool × Name × σ) :=
  let ns := namespaceOf namespaceName
  let (err, s) := nvs.flashInit s
  let (err, s) :=
    if err = .mustErase then
      let (_, s) := nvs.flashErase s
      nvs.flashInit s
    else (err, s)
  if err ≠ .ok then some (false, ns, s)
  else
    match verifyIntegrity nvs ns s with
    | none => none
    | some false => some (true, ns, (restoreFromBackup nvs ns s).2)
    | some true => some (true, ns, s)

end NvsManager.Esp32

/-! ## The host -/

structure HostNvsEntry where
  data : List UInt8
  version : UInt16 := 0
  crc32 : UInt32 := 0
  deriving DecidableEq, Repr

/-- `gHostNvs`, keyed by namespace, colon and key. -/
abbrev HostNvs := Name → Option HostNvsEntry

namespace NvsManager.Host

variable (ns : Name)

/-- `std::string(namespace_) + ":" + key`. -/
def composedKey (key : Name) : Name := ns ++ ascii [':'] ++ key

def writeEntry (s : HostNvs) (key : Name) (data : List UInt8) (version : UInt16) :
    Bool × HostNvs :=
  let entry : HostNvsEntry := { data, version, crc32 := Crc32.compute data }
  (true, fun k => if k = composedKey ns key then some entry else s k)

/-- The result, the buffer and the version afterwards. -/
def readEntry (s : HostNvs) (key : Name) (buf : List UInt8) (version : UInt16) :
    Bool × List UInt8 × UInt16 :=
  match s (composedKey ns key) with
  | none => (false, buf, version)
  | some entry =>
    if entry.data.length > buf.length then (false, buf, version)
    else
      let buf := entry.data ++ buf.drop entry.data.length
      if Crc32.compute entry.data ≠ entry.crc32 then (false, buf, version)
      else (true, buf, entry.version)

def setBlob (s : HostNvs) (key : Name) (data : List UInt8) (version : UInt16) : Bool × HostNvs :=
  writeEntry ns s key data version

/-- The host build has no `getBlob`. -/
def getBlob (_s : HostNvs) (_key : Name) (buf : List UInt8) (version : UInt16) :
    Int × List UInt8 × UInt16 := (-1, buf, version)

def setU8 (s : HostNvs) (key : Name) (value : UInt8) (version : UInt16) : Bool × HostNvs :=
  writeEntry ns s key [value] version

def setU16 (s : HostNvs) (key : Name) (value : UInt16) (version : UInt16) : Bool × HostNvs :=
  writeEntry ns s key (leHalfBytes value) version

def setU32 (s : HostNvs) (key : Name) (value : UInt32) (version : UInt16) : Bool × HostNvs :=
  writeEntry ns s key (leBytes value) version

def getU8 (s : HostNvs) (key : Name) (value : UInt8) : Bool × UInt8 :=
  let (ok, buf, _) := readEntry ns s key [value] 0
  (ok, buf.getD 0 0)

def getU16 (s : HostNvs) (key : Name) (value : UInt16) : Bool × UInt16 :=
  let (ok, buf, _) := readEntry ns s key (leHalfBytes value) 0
  (ok, halfAt buf 0)

def getU32 (s : HostNvs) (key : Name) (value : UInt32) : Bool × UInt32 :=
  let (ok, buf, _) := readEntry ns s key (leBytes value) 0
  (ok, wordAt buf 0)

def setString (s : HostNvs) (key : Name) (value : List UInt8) (version : UInt16) :
    Bool × HostNvs :=
  writeEntry ns s key (value ++ [0]) version

def getString (s : HostNvs) (key : Name) (buf : List UInt8) : Bool × List UInt8 :=
  let (ok, buf, _) := readEntry ns s key buf 0
  (ok, buf)

/-- Nothing is removed, and nothing erased. -/
def remove (s : HostNvs) (_key : Name) : Bool × HostNvs := (true, s)

def eraseAll (s : HostNvs) : Bool × HostNvs := (true, s)

/-- Nothing is copied, and nothing checked. -/
def backup (s : HostNvs) : Bool × HostNvs := (true, s)

def restoreFromBackup (s : HostNvs) : Bool × HostNvs := (true, s)

def verifyIntegrity (_s : HostNvs) : Bool := true

end NvsManager.Host

end TaktOS
