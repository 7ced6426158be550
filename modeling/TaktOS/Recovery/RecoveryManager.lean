import TaktOS.Recovery.World

/-!
# Receiving and installing an image

`RecoveryManager` of `recovery_manager.hpp` and `recovery_manager.cpp`. `none` is a call that
does not return because a storage write in it does not.
-/

namespace TaktOS

namespace RecoveryManager

variable {δ : Type}

/-- The service's lambda copies the manager's totals over its own before it passes them on. -/
def notifyProgress (w : World δ) : World δ :=
  let rx := w.recovery.received
  let total := w.recovery.totalSize
  match w.recovery.progressCb with
  | .unset => w
  | .client =>
    { w with notices := .recoveryProgress rx total w.recovery.state :: w.notices }
  | .otaService =>
    let w := w.setOta fun ota => { ota with received := rx, totalSize := total }
    let w :=
      if w.ota.progressCb then { w with notices := .otaProgress rx total :: w.notices } else w
    w.publish .otaProgress rx total

def setState (w : World δ) (newState : DfuState) : World δ :=
  notifyProgress (w.setRecovery fun r => { r with state := newState })

/-- The transports are made anew, so none is active; the rest of the manager stays. -/
def init (w : World δ) (channel : RecoveryChannel) : Bool × World δ :=
  (true, w.setRecovery fun r =>
    { r with
      channel := channel, transports := true
      bleActive := false, wifiActive := false, uartActive := false })

def startDfuListener (w : World δ) : Bool × World δ :=
  -- the state moves on even where there is no transport to start
  let w := setState w .awaitingImage
  match w.recovery.channel with
  | .ble => (true, w.setRecovery fun r => { r with bleActive := true })
  | .wifi => (true, w.setRecovery fun r => { r with wifiActive := true })
  | .uart => (true, w.setRecovery fun r => { r with uartActive := true })
  | .none => (false, w)

def receiveChunk (w : World δ) (data : List UInt8) : Option (Int × World δ) :=
  if w.recovery.state ≠ .awaitingImage ∧ w.recovery.state ≠ .receiving then some (-1, w)
  else
    let w := if w.recovery.state = .awaitingImage then setState w .receiving else w
    match w.cache.writeChunk w.storage data with
    | none => none
    | some (written, cache, storage) =>
      let w := { w with cache, storage }
      if written > 0 then
        let w := w.setRecovery fun r =>
          { r with received := r.received + UInt32.ofInt written }
        let w := w.publish .otaProgress w.recovery.received w.recovery.totalSize
        some (written, notifyProgress w)
      else some (written, w)

def finalizeDfu (w : World δ) : Option (Bool × World δ) :=
  let w := setState w .verifying
  match w.cache.finalizeWrite w.storage with
  | none => none
  | some (false, cache, storage) =>
    let w := setState { w with cache, storage } .failed
    some (false, w.publish .otaFailed)
  | some (true, cache, storage) =>
    let w := setState { w with cache, storage } .installing
    -- nothing has switched yet: the inactive slot is the one just written
    let slot := w.cache.inactiveSlot
    match w.cache.activateSlot w.storage slot with
    | none => none
    | some (false, cache, storage) => some (false, setState { w with cache, storage } .failed)
    | some (true, cache, storage) =>
      let w := setState { w with cache, storage } .complete
      let w := w.publish .otaComplete
      some (true, { w with bootConfig := Bootloader.requestOtaBoot w.bootConfig slot })

def rollback (w : World δ) : Option (Bool × World δ) :=
  let w := setState w .rollingBack
  match w.cache.rollback w.storage with
  | none => none
  | some (false, cache, storage) => some (false, setState { w with cache, storage } .failed)
  | some (true, cache, storage) =>
    let w := setState { w with cache, storage } .complete
    some (true, w.publish .otaRollback)

/-- The UART transport has no `stop`. -/
def abort (w : World δ) : World δ :=
  let w := setState w .idle
  w.setRecovery fun r =>
    { r with
      received := 0, totalSize := 0
      bleActive := if r.transports then false else r.bleActive
      wifiActive := if r.transports then false else r.wifiActive }

/-- The UART transport's `tick` reads nothing. -/
def tick (w : World δ) : World δ := w

end RecoveryManager

end TaktOS
