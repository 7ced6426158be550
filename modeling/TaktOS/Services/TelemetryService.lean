import TaktOS.Kernel.CacheManager
import TaktOS.Lib.LittleEndian

/-!
# The telemetry service

`TelemetryService` of `telemetry_service.hpp` and `telemetry_service.cpp`: up to 64 records in
RAM, flushed through a cache of the service's own with lines of 256 bytes. `none` is a call of
the cache that does not return. The uptime is an argument of the call that reads it.
-/

namespace TaktOS

open Lib

/-- 12 bytes. -/
structure TelemetryRecord where
  timestamp : UInt32
  sensorValue : UInt32
  relayState : UInt8
  reserved : Vector UInt8 3
  deriving DecidableEq

/-- The bytes of the struct, as the compiler lays it out. -/
def TelemetryRecord.toBytes (rec : TelemetryRecord) : List UInt8 :=
  leBytes rec.timestamp ++ leBytes rec.sensorValue ++ rec.relayState :: rec.reserved.toList

@[simp] theorem TelemetryRecord.length_toBytes (rec : TelemetryRecord) :
    rec.toBytes.length = 12 := by
  simp [toBytes, leBytes]

def kMaxRecords : Nat := 64

def kTelemetryFlashOffset : UInt32 := 0

structure TelemetryService where
  cache : CacheManager
  uploadIntervalMs : UInt32 := 60000
  lastUploadMs : UInt32 := 0
  flushPending : Bool := false
  /-- `buffer_[0]` to `buffer_[recordCount_ - 1]`. -/
  buffer : List TelemetryRecord := []

namespace TelemetryService

variable {δ : Type}

/-- The constructor. -/
def ofPool (cachePool : Nat → UInt8) (poolSize : Nat) : TelemetryService where
  cache := { pool := cachePool, poolSize, lineSize := 256 }

/-- The bytes of the records in the buffer. -/
def bufferBytes (t : TelemetryService) : List UInt8 := t.buffer.flatMap TelemetryRecord.toBytes

def hasWork (t : TelemetryService) : Bool := t.flushPending

def setUploadIntervalMs (t : TelemetryService) (ms : UInt32) : TelemetryService :=
  { t with uploadIntervalMs := ms }

/-- A record that finds the buffer full is dropped. -/
def record (t : TelemetryService) (rec : TelemetryRecord) : TelemetryService :=
  if t.buffer.length < kMaxRecords then
    { t with buffer := t.buffer ++ [rec], flushPending := true }
  else { t with flushPending := true }

/-- Both results are dropped: how many bytes the cache took, and whether they were flushed. -/
def flushToFlash (t : TelemetryService) (sm : StorageManager δ) :
    Option (TelemetryService × StorageManager δ) :=
  if t.buffer.isEmpty then some (t, sm)
  else
    match t.cache.write sm kTelemetryFlashOffset t.bufferBytes with
    | none => none
    | some (_, cache, sm) =>
      match cache.flush sm with
      | none => none
      | some (_, cache, sm) => some ({ t with cache, buffer := [] }, sm)

def uploadBatch (t : TelemetryService) (sm : StorageManager δ) :
    Option (TelemetryService × StorageManager δ) :=
  match t.flushToFlash sm with
  | none => none
  | some (t, sm) => some ({ t with flushPending := false }, sm)

/-- Milliseconds of uptime, as `tick` casts them. -/
def uptimeMs (uptimeUs : UInt64) : UInt32 := (uptimeUs / 1000).toUInt32

def tick (t : TelemetryService) (sm : StorageManager δ) (uptimeUs : UInt64) :
    Option (TelemetryService × StorageManager δ) :=
  let now := uptimeMs uptimeUs
  if t.flushPending && now - t.lastUploadMs ≥ t.uploadIntervalMs then
    match t.uploadBatch sm with
    | none => none
    | some (t, sm) => some ({ t with lastUploadMs := now }, sm)
  else some (t, sm)

def shutdown (t : TelemetryService) (sm : StorageManager δ) :
    Option (TelemetryService × StorageManager δ) := t.flushToFlash sm

end TelemetryService

end TaktOS
