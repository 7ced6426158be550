import TaktOS.Boot.Bootloader

/-!
# The singletons an update runs through

`RecoveryManager`, `OtaService`, the firmware cache with its storage, and the boot record. The
manager calls the service back through the lambda `startUpdate` hands it, so the two are parts
of one state. What reaches code outside, progress callbacks and published events, is put on
record, latest first; that code does not call back in.

This is the host build: every transport starts, and nothing restarts the device.
-/

namespace TaktOS

inductive RecoveryChannel where
  | none
  | ble
  | wifi
  | uart
  deriving DecidableEq, Repr

inductive DfuState where
  | idle
  | awaitingImage
  | receiving
  | verifying
  | installing
  | complete
  | failed
  | rollingBack
  deriving DecidableEq, Repr

/-- The events the update path publishes. -/
inductive Event where
  | otaStart
  | otaProgress
  | otaComplete
  | otaFailed
  | otaRollback
  deriving DecidableEq, Repr

/-- Who `RecoveryManager::progressCb_` belongs to. -/
inductive ProgressCb where
  | unset
  /-- The lambda of `OtaService::startUpdate`. -/
  | otaService
  | client
  deriving DecidableEq, Repr

inductive OtaTransport where
  | wifi
  | ble
  deriving DecidableEq, Repr

/-- The enumerator's `uint32_t`, as it is published. -/
def OtaTransport.toUInt32 : OtaTransport → UInt32
  | .wifi => 0
  | .ble => 1

structure RecoveryManager where
  state : DfuState := .idle
  channel : RecoveryChannel := .none
  received : UInt32 := 0
  totalSize : UInt32 := 0
  progressCb : ProgressCb := .unset
  /-- `init` has made the three transports. -/
  transports : Bool := false
  bleActive : Bool := false
  wifiActive : Bool := false
  uartActive : Bool := false
  deriving DecidableEq, Repr

structure OtaService where
  active : Bool := false
  transport : OtaTransport := .wifi
  /-- Whether a client has set `progressCb_`. -/
  progressCb : Bool := false
  received : UInt32 := 0
  totalSize : UInt32 := 0
  deriving DecidableEq, Repr

/-- What left the system. -/
inductive Notice where
  | published (event : Event) (param1 param2 : UInt32)
  /-- `OtaService::progressCb_` -/
  | otaProgress (received total : UInt32)
  /-- `RecoveryManager::progressCb_`, where it is a client's. -/
  | recoveryProgress (received total : UInt32) (state : DfuState)
  deriving DecidableEq, Repr

structure World (δ : Type) where
  cache : FirmwareCache
  storage : StorageManager δ
  /-- The boot record in RTC memory. -/
  bootConfig : BootConfig := {}
  recovery : RecoveryManager := {}
  ota : OtaService := {}
  notices : List Notice := []

namespace World

variable {δ : Type}

/-- `EventBus::publish`. -/
def publish (w : World δ) (event : Event) (param1 : UInt32 := 0) (param2 : UInt32 := 0) :
    World δ :=
  { w with notices := .published event param1 param2 :: w.notices }

def setRecovery (w : World δ) (f : RecoveryManager → RecoveryManager) : World δ :=
  { w with recovery := f w.recovery }

def setOta (w : World δ) (f : OtaService → OtaService) : World δ := { w with ota := f w.ota }

end World

end TaktOS
