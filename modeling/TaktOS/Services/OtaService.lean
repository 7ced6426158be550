import TaktOS.Recovery.RecoveryManager

/-!
# The OTA service

`OtaService` of `ota_service.hpp` and `ota_service.cpp`, a front to the recovery manager that
keeps totals of its own.
-/

namespace TaktOS

namespace OtaService

variable {δ : Type}

def startUpdate (w : World δ) (transport : OtaTransport) (imageSize version : UInt32) :
    Bool × World δ :=
  let w := w.setOta fun ota =>
    { ota with transport := transport, totalSize := imageSize, received := 0 }
  let ch := if transport = .ble then RecoveryChannel.ble else RecoveryChannel.wifi
  let (_, w) := RecoveryManager.init w ch
  let w := w.setRecovery fun r => { r with progressCb := .otaService }
  match w.cache.beginWrite imageSize version with
  -- a refused image leaves the new totals and the progress lambda in place
  | (false, cache) => (false, { w with cache })
  | (true, cache) =>
    let (_, w) := RecoveryManager.startDfuListener { w with cache }
    let w := w.setOta fun ota => { ota with active := true }
    (true, w.publish .otaStart imageSize transport.toUInt32)

/-- The chunk counts here on top of what the progress lambda copied over. -/
def feedChunk (w : World δ) (data : List UInt8) : Option (Int × World δ) :=
  if !w.ota.active then some (-1, w)
  else
    match RecoveryManager.receiveChunk w data with
    | none => none
    | some (n, w) =>
      if n > 0 then
        some (n, w.setOta fun ota => { ota with received := ota.received + UInt32.ofInt n })
      else some (n, w)

def completeUpdate (w : World δ) : Option (Bool × World δ) :=
  if !w.ota.active then some (false, w)
  else
    match RecoveryManager.finalizeDfu w with
    | none => none
    | some (false, w) =>
      let w := w.publish .otaFailed
      some (false, w.setOta fun ota => { ota with active := false })
    | some (true, w) => some (true, w.setOta fun ota => { ota with active := false })

def tick (w : World δ) : World δ :=
  if !w.ota.active then w else RecoveryManager.tick w

/-- The event is published whether or not the cache rolled back. -/
def rollback (w : World δ) : Option (Bool × World δ) :=
  let w := w.setOta fun ota => { ota with active := false }
  match w.cache.rollback w.storage with
  | none => none
  | some (ok, cache, storage) => some (ok, World.publish { w with cache, storage } .otaRollback)

def shutdown (w : World δ) : World δ :=
  RecoveryManager.abort (w.setOta fun ota => { ota with active := false })

end OtaService

end TaktOS
