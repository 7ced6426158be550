import TaktOS.Lib.CString

/-!
# Named flash regions

`registerRegion` and `getRegion` of `storage_manager.hpp` and `storage_manager.cpp`. The table is
the only part of `StorageManager` that they touch, and no other method touches it. A name is given
by the bytes at its address.
-/

namespace TaktOS

open Lib

/-- Flash region descriptor for named partitions. -/
structure FlashRegion where
  offset : UInt32
  size : UInt32
  /-- The string in the entry's own `name`. -/
  label : List UInt8
  deriving DecidableEq, Repr

/-- `char name[32]`, which is all zeros until the entry is used. -/
structure NamedRegion where
  name : CBuffer 31 := .empty 31
  region : FlashRegion
  active : Bool := false

def kMaxRegions : Nat := 16

structure NamedRegions where
  /-- `regions_[0]` to `regions_[regionCount_ - 1]`; the rest of the array is not read. -/
  regions : List NamedRegion := []

namespace NamedRegions

/-- The last byte of the name is not copied to. -/
def registerRegion (t : NamedRegions) (name : List UInt8) (offset size : UInt32) :
    Bool × NamedRegions :=
  if t.regions.length ≥ kMaxRegions then (false, t)
  else
    let name := (CBuffer.empty 31).strncpy name
    let region := { offset, size, label := name.stringAt 0 }
    (true, { regions := t.regions ++ [{ name, region, active := true }] })

/-- The first entry whose name is that name, to its end. -/
def getRegion (t : NamedRegions) (name : List UInt8) : Option FlashRegion :=
  (t.regions.find? fun r => r.active && r.name.stringAt 0 == cstr name).map NamedRegion.region

end NamedRegions

end TaktOS
