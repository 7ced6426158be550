import Mathlib.Algebra.Group.Nat.Defs
import TaktOS.Lib.ByteMap

/-!
# Raw flash storage

`StorageManager` of `storage_manager.hpp` and `storage_manager.cpp` over an opaque
`FlashBackend`. The backend's three `std::function`s close over a device; here
they are functions of the device's state, so a backend may fail, or behave
differently from one call to the next, in any way at all.

`uint32_t` values are `UInt32`. A `size_t` has the width of the build, so the sums
the source computes in `size_t` are reduced by `Target.size`.
-/

namespace TaktOS

open Lib

/-- The two builds the preprocessor selects between. -/
inductive Target where
  | host
  | esp32
  deriving DecidableEq, Repr

/-- Bits of a `size_t`. -/
def Target.sizeBits : Target → Nat
  | .host => 64
  | .esp32 => 32

/-- A number as a `size_t` holds it. -/
def Target.size (t : Target) (n : Nat) : Nat := n % 2 ^ t.sizeBits

/-- `static_cast<int>` of a `size_t`. -/
def castInt (n : Nat) : Int := Int.bmod n 4294967296

/-- What an erased flash byte reads as. -/
def erased : UInt8 := 0xFF

/--
Platform-specific flash operations over a device with states in `δ`.

`read` is handed the caller's buffer and returns its new contents. A backend with a
function missing is refused by `StorageManager::init`, so a stored one has all three.
-/
structure FlashBackend (δ : Type) where
  read : δ → UInt32 → List UInt8 → Int × List UInt8 × δ
  write : δ → UInt32 → List UInt8 → Int × δ
  erase : δ → UInt32 → Nat → Int × δ
  totalSize : UInt32 := 0
  sectorSize : UInt32 := 4096

/-- The storage singleton, with the device its backend drives. -/
structure StorageManager (δ : Type) where
  target : Target
  /-- `none` until `init` has been given a backend. -/
  backend : Option (FlashBackend δ) := none
  device : δ

namespace StorageManager

variable {δ : Type}

/-- Read into a buffer; the result code, the buffer afterwards, the storage afterwards. -/
def read (sm : StorageManager δ) (offset : UInt32) (buf : List UInt8) :
    Int × List UInt8 × StorageManager δ :=
  match sm.backend with
  | none => (-1, buf, sm)
  | some b =>
    -- the sum is a `size_t`, so on the device a long range wraps past the check
    if sm.target.size (offset.toNat + buf.length) > b.totalSize.toNat then (-1, buf, sm)
    else
      let (r, buf', d) := b.read sm.device offset buf
      (r, buf', { sm with device := d })

/--
The sector loop of `write`: `for (s = startSector; s <= endSector; ++s)`.

`s` is a `uint32_t`, so with `endSector` at the top of its range the comparison never
fails. `none` stands for that: the loop went through every value of `s` without ending.
-/
def eraseLoop (b : FlashBackend δ) (endSector : UInt32) : Nat → UInt32 → δ → Option (Bool × δ)
  | 0, _, _ => none
  | fuel + 1, s, d =>
    if s ≤ endSector then
      -- a product of two `uint32_t`s: a sector past the top of the flash wraps
      let (r, d') := b.erase d (s * b.sectorSize) b.sectorSize.toNat
      if r ≠ 0 then some (false, d') else eraseLoop b endSector fuel (s + 1) d'
    else some (true, d)

/-- `(offset + len - 1) / sector`, computed in `size_t` and stored in a `uint32_t`. -/
def endSector (t : Target) (offset : UInt32) (len : Nat) (sector : UInt32) : UInt32 :=
  UInt32.ofNat (t.size (t.size (offset.toNat + len) + (2 ^ t.sizeBits - 1)) / sector.toNat)

/--
Erase every sector the range touches, then write. `none` where the call does not
return: a zero sector size divides by zero, and the sector loop may never end.
-/
def write (sm : StorageManager δ) (offset : UInt32) (buf : List UInt8) :
    Option (Int × StorageManager δ) :=
  match sm.backend with
  | none => some (-1, sm)
  | some b =>
    if sm.target.size (offset.toNat + buf.length) > b.totalSize.toNat then some (-1, sm)
    else if b.sectorSize = 0 then none
    else
      let startSector := offset / b.sectorSize
      let endSector := endSector sm.target offset buf.length b.sectorSize
      match eraseLoop b endSector (2 ^ 32) startSector sm.device with
      | none => none
      -- the sectors before the one that failed stay erased
      | some (false, d) => some (-1, { sm with device := d })
      | some (true, d) =>
        let (r, d') := b.write d offset buf
        some (r, { sm with device := d' })

def eraseSector (sm : StorageManager δ) (offset : UInt32) : Int × StorageManager δ :=
  match sm.backend with
  | none => (-1, sm)
  | some b =>
    let (r, d) := b.erase sm.device offset b.sectorSize.toNat
    (r, { sm with device := d })

end StorageManager

/-! ## The test backend, and watching a backend -/

/-- `MemBackend` of the firmware cache test: an array of `kSize` bytes. -/
def memBackend (kSize sectorSize : UInt32) : FlashBackend (Nat → UInt8) where
  read mem off buf :=
    if off.toNat + buf.length > kSize.toNat then (-1, buf, mem)
    else (castInt buf.length, slice mem off.toNat buf.length, mem)
  write mem off buf :=
    if off.toNat + buf.length > kSize.toNat then (-1, mem)
    else (castInt buf.length, overlay mem off.toNat buf)
  erase mem off len :=
    if off.toNat + len > kSize.toNat then (-1, mem)
    else (0, fill mem off.toNat (off.toNat + len) erased)
  totalSize := kSize
  sectorSize := sectorSize

/-- A storage over that backend, its 64 KiB erased. -/
def testStorage : StorageManager (Nat → UInt8) where
  target := .host
  backend := some (memBackend 0x10000 4096)
  device := fun _ => erased

/-- One call a backend received. -/
inductive FlashAccess where
  | read (off len : Nat)
  | write (off len : Nat)
  | erase (off len : Nat)
  deriving DecidableEq, Repr

/-- The same backend, with the calls it receives on record, latest first. -/
def FlashBackend.recorded {δ : Type} (b : FlashBackend δ) :
    FlashBackend (δ × List FlashAccess) where
  read d off buf :=
    let (r, buf', d') := b.read d.1 off buf
    (r, buf', d', .read off.toNat buf.length :: d.2)
  write d off buf :=
    let (r, d') := b.write d.1 off buf
    (r, d', .write off.toNat buf.length :: d.2)
  erase d off len :=
    let (r, d') := b.erase d.1 off len
    (r, d', .erase off.toNat len :: d.2)
  totalSize := b.totalSize
  sectorSize := b.sectorSize

end TaktOS
