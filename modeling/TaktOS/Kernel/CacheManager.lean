import TaktOS.Kernel.Storage

/-!
# The write-back cache over flash

`CacheManager` of `cache_manager.hpp` and `cache_manager.cpp`: up to 64 lines in a pool of the
caller's memory. Operations take the storage singleton and return it. `none` is a call that
does not return, or whose behaviour is not defined: a line size that is zero as a `uint32_t`
divides by zero, a line past the end of the pool is not the cache's memory, and a storage write
may not return.
-/

namespace TaktOS

open Lib

/-- LRU cache entry metadata. -/
structure CacheEntry where
  key : UInt32 := 0
  size : UInt32 := 0
  lastAccess : UInt32 := 0
  dirty : Bool := false
  valid : Bool := false
  deriving DecidableEq, Repr

def kMaxLines : Nat := 64

structure CacheManager where
  /-- The bytes at `pool_`, of which `poolSize_` are the cache's. -/
  pool : Nat → UInt8
  poolSize : Nat
  lineSize : Nat
  hits : UInt32 := 0
  misses : UInt32 := 0
  /-- `entries_[0]` to `entries_[entryCount_ - 1]`; the rest of the array is not read. -/
  entries : List CacheEntry := []

namespace CacheManager

variable {δ : Type}

/-- `flashOffset / static_cast<uint32_t>(lineSize_)`. -/
def lineKey (cm : CacheManager) (flashOffset : UInt32) : UInt32 :=
  flashOffset / UInt32.ofNat cm.lineSize

/-- Line `i` ends inside the pool. -/
def inPool (cm : CacheManager) (i : Nat) : Bool := (i + 1) * cm.lineSize ≤ cm.poolSize

/-- The pool bytes of line `i`. -/
def poolLine (cm : CacheManager) (i : Nat) : List UInt8 :=
  slice cm.pool (i * cm.lineSize) cm.lineSize

def findLine (cm : CacheManager) (flashOffset : UInt32) : Option Nat × CacheManager :=
  match cm.entries.findIdx? (fun e => e.valid && e.key == cm.lineKey flashOffset) with
  | some i =>
    let hits := cm.hits + 1
    (some i, { cm with
      hits
      entries := cm.entries.modify i fun e => { e with lastAccess := hits + cm.misses } })
  | none => (none, { cm with misses := cm.misses + 1 })

/-- The loop of `flush`, from line `i` on. -/
def flushLoop (cm : CacheManager) : Nat → List CacheEntry → StorageManager δ →
    Option (Int × List CacheEntry × StorageManager δ)
  | _, [], sm => some (0, [], sm)
  | i, e :: es, sm =>
    if e.valid && e.dirty then
      if !cm.inPool i then none
      else
        match sm.write (e.key * UInt32.ofNat cm.lineSize) (cm.poolLine i) with
        | none => none
        | some (r, sm) =>
          -- any code but 0 is an error, also the byte count
          if r ≠ 0 then some (-1, e :: es, sm)
          else
            match flushLoop cm (i + 1) es sm with
            | none => none
            | some (r, es, sm) => some (r, { e with dirty := false } :: es, sm)
    else
      match flushLoop cm (i + 1) es sm with
      | none => none
      | some (r, es, sm) => some (r, e :: es, sm)

def flush (cm : CacheManager) (sm : StorageManager δ) :
    Option (Int × CacheManager × StorageManager δ) :=
  match cm.flushLoop 0 cm.entries sm with
  | none => none
  | some (r, entries, sm) => some (r, { cm with entries }, sm)

/-- The search for the entry with the least `lastAccess`, from entry `i` on. -/
def lruLoop : List CacheEntry → Nat → Nat → UInt32 → Nat
  | [], _, lruIdx, _ => lruIdx
  | e :: es, i, lruIdx, lruAccess =>
    if e.lastAccess < lruAccess then lruLoop es (i + 1) i e.lastAccess
    else lruLoop es (i + 1) lruIdx lruAccess

/-- The entry that is evicted: the first of those accessed longest ago. -/
def lruIdx (cm : CacheManager) : Nat :=
  lruLoop (cm.entries.drop 1) 1 0 (cm.entries.getD 0 {}).lastAccess

/-- The line is not loaded here; a new one counts as never accessed. -/
def allocateLine (cm : CacheManager) (sm : StorageManager δ) (flashOffset : UInt32) :
    Option (Nat × CacheManager × StorageManager δ) :=
  let fresh : CacheEntry :=
    { key := cm.lineKey flashOffset, size := UInt32.ofNat cm.lineSize, valid := true }
  if cm.entries.length < kMaxLines then
    some (cm.entries.length, { cm with entries := cm.entries ++ [fresh] }, sm)
  else
    let lruIdx := cm.lruIdx
    if (cm.entries.getD lruIdx {}).dirty then
      -- the result of the flush is dropped: the line goes whether or not it was written
      match cm.flush sm with
      | none => none
      | some (_, cm, sm) => some (lruIdx, { cm with entries := cm.entries.set lruIdx fresh }, sm)
    else some (lruIdx, { cm with entries := cm.entries.set lruIdx fresh }, sm)

/-- How many of `len` bytes at an offset its line holds. -/
def copyLen (cm : CacheManager) (flashOffset : UInt32) (len : Nat) : Nat :=
  min len (cm.lineSize - flashOffset.toNat % cm.lineSize)

/-- The copy at the end of `read`, out of line `i`. -/
def copyOut (cm : CacheManager) (sm : StorageManager δ) (i : Nat) (flashOffset : UInt32)
    (buf : List UInt8) : Option (Int × List UInt8 × CacheManager × StorageManager δ) :=
  if !cm.inPool i then none
  else
    let n := cm.copyLen flashOffset buf.length
    some (castInt n,
      slice cm.pool (i * cm.lineSize + flashOffset.toNat % cm.lineSize) n ++ buf.drop n, cm, sm)

/-- Read into a buffer; the result code, the buffer, the cache and the storage afterwards. -/
def read (cm : CacheManager) (sm : StorageManager δ) (flashOffset : UInt32) (buf : List UInt8) :
    Option (Int × List UInt8 × CacheManager × StorageManager δ) :=
  if UInt32.ofNat cm.lineSize = 0 then none
  else
    match cm.findLine flashOffset with
    | (some i, cm) => cm.copyOut sm i flashOffset buf
    | (none, cm) =>
      match cm.allocateLine sm flashOffset with
      | none => none
      | some (i, cm, sm) =>
        if !cm.inPool i then none
        else
          let lineStart := cm.lineKey flashOffset * UInt32.ofNat cm.lineSize
          let (r, line, sm) := sm.read lineStart (cm.poolLine i)
          let cm := { cm with pool := overlay cm.pool (i * cm.lineSize) line }
          -- the line stays in the cache, also where its load is taken for an error
          if r ≠ 0 then some (-1, buf, cm, sm) else cm.copyOut sm i flashOffset buf

/-- The copy at the end of `write`, into line `i`. -/
def copyIn (cm : CacheManager) (sm : StorageManager δ) (i : Nat) (flashOffset : UInt32)
    (data : List UInt8) : Option (Int × CacheManager × StorageManager δ) :=
  if !cm.inPool i then none
  else
    let n := cm.copyLen flashOffset data.length
    some (castInt n,
      { cm with
        pool := overlay cm.pool (i * cm.lineSize + flashOffset.toNat % cm.lineSize) (data.take n)
        entries := cm.entries.modify i fun e => { e with dirty := true } }, sm)

/-- A line that is not cached is allocated and not loaded. -/
def write (cm : CacheManager) (sm : StorageManager δ) (flashOffset : UInt32)
    (data : List UInt8) : Option (Int × CacheManager × StorageManager δ) :=
  if UInt32.ofNat cm.lineSize = 0 then none
  else
    match cm.findLine flashOffset with
    | (some i, cm) => cm.copyIn sm i flashOffset data
    | (none, cm) =>
      match cm.allocateLine sm flashOffset with
      | none => none
      | some (i, cm, sm) => cm.copyIn sm i flashOffset data

/-- The entries are cleared as well, but none of them is read again. -/
def invalidate (cm : CacheManager) : CacheManager :=
  { cm with hits := 0, misses := 0, entries := [] }

end CacheManager

end TaktOS
