import TaktOS.Lib.ByteMap
import TaktOS.Lib.Fields
import TaktOS.Lib.CString
import TaktOS.Lib.History
import TaktOS.Lib.LittleEndian
import TaktOS.Lib.LineCache
import TaktOS.Lib.Ring
import TaktOS.Lib.Run
import TaktOS.Lib.Sector
import TaktOS.Kernel.Crc32
import TaktOS.Kernel.Storage
import TaktOS.Kernel.FirmwareCache
import TaktOS.Kernel.CacheManager
import TaktOS.Kernel.NamedRegions
import TaktOS.Kernel.NvsManager
import TaktOS.Kernel.EventBus
import TaktOS.Kernel.Scheduler
import TaktOS.Kernel.Timer
import TaktOS.Boot.Bootloader
import TaktOS.Recovery.World
import TaktOS.Recovery.RecoveryManager
import TaktOS.Services.OtaService
import TaktOS.Services.TelemetryService
import TaktOS.Services.ConfigManager
import TaktOS.Middleware.ScriptEngineModule
import TaktOS.Middleware.MqttModule
import TaktOS.Middleware.ModbusModule
import TaktOS.Middleware.WiFiModule
import TaktOS.Middleware.UartModule
import TaktOS.Sdk.TaktSdk
import TaktOS.Drivers.EspIdf
import TaktOS.Drivers.Uart
import TaktOS.Kernel.FirmwareCacheEsp32
import TaktOS.Drivers.Platform
import TaktOS.Proof.FlashLaws
import TaktOS.Proof.Storage
import TaktOS.Proof.FallibleFlash
import TaktOS.Proof.Verify
import TaktOS.Proof.Operations
import TaktOS.Proof.ReliableFlash
import TaktOS.Proof.UpdateDelivery
import TaktOS.Proof.CacheRuns
import TaktOS.Proof.SlotConfinement
import TaktOS.Proof.SessionSlot
import TaktOS.Proof.SlotSwitch
import TaktOS.Proof.SlotSelection
import TaktOS.Proof.BootRecord
import TaktOS.Proof.CorruptRecord
import TaktOS.Proof.BootRuns
import TaktOS.Proof.BootJump
import TaktOS.Proof.BootAgreement
import TaktOS.Proof.DfuInstall
import TaktOS.Proof.DfuStates
import TaktOS.Proof.DfuReceive
import TaktOS.Proof.DfuIsolation
import TaktOS.Proof.WriteBackCache
import TaktOS.Proof.CacheFlush
import TaktOS.Proof.NvsAtomicity
import TaktOS.Proof.NvsReadBack
import TaktOS.Proof.NvsBackupLoss
import TaktOS.Proof.NvsCollisions
import TaktOS.Proof.NvsRestore
import TaktOS.Proof.NvsRecovery
import TaktOS.Proof.NvsBuilds
import TaktOS.Proof.EventSteps
import TaktOS.Proof.EventQueue
import TaktOS.Proof.EventDispatch
import TaktOS.Proof.EventDelivery
import TaktOS.Proof.EventHandles
import TaktOS.Proof.SchedulerSteps
import TaktOS.Proof.ModuleTicks
import TaktOS.Proof.ModuleShutdowns
import TaktOS.Proof.TaktOrder
import TaktOS.Proof.TimerSteps
import TaktOS.Proof.TimerRegistry
import TaktOS.Proof.TimerMoves
import TaktOS.Proof.TimerTimes
import TaktOS.Proof.TimerSlots
import TaktOS.Proof.SdkModules
import TaktOS.Proof.SdkEvents
import TaktOS.Proof.OtaProgress
import TaktOS.Proof.OtaOutcomes
import TaktOS.Proof.OtaRefused
import TaktOS.Proof.DeviceSteps
import TaktOS.Proof.PartitionAccess
import TaktOS.Proof.Activation
import TaktOS.Proof.TelemetryFlush
import TaktOS.Proof.RemoteConfig
import TaktOS.Proof.ScriptOrder
import TaktOS.Proof.MqttPending
import TaktOS.Proof.WiFiReconnect
import TaktOS.Proof.ModbusWrites
import TaktOS.Proof.ActivationFailures
import TaktOS.Proof.RollbackInvolution
import TaktOS.Proof.ImageLength
import TaktOS.Proof.SessionHeader
import TaktOS.Proof.EraseLoop
import TaktOS.Proof.ChunkRetry
import TaktOS.Proof.VerifyLoop
import TaktOS.Proof.VerifyReads
import TaktOS.Lib.ShiftRegister
import TaktOS.Lib.Tally
import TaktOS.Proof.RecordDamage
import TaktOS.Proof.WriteFrame
import TaktOS.Proof.AccessBounds
import TaktOS.Proof.CacheAccess
import TaktOS.Proof.CachePool
import TaktOS.Lib.LeftmostMin
import TaktOS.Proof.CacheLru
import TaktOS.Proof.CacheEviction
import TaktOS.Proof.CacheFills
import TaktOS.Proof.TimerSchedule
import TaktOS.Proof.TimerCallbacks
import TaktOS.Proof.NvsTyped
import TaktOS.Proof.ModbusResponses
import TaktOS.Proof.ModbusCrc
import TaktOS.Proof.CrcAgreement
import TaktOS.Proof.CrcBursts
import TaktOS.Proof.SchedulerStats
import TaktOS.Proof.SkipCounts
import TaktOS.Proof.CacheEntries
import TaktOS.Proof.SubscriptionCount
import TaktOS.Proof.UploadSpacing
import TaktOS.Proof.ModuleCapacity
import TaktOS.Proof.RegionMap
import TaktOS.Proof.UartReception
import TaktOS.Lib.Refinement
import TaktOS.Lib.TwoBanks
import TaktOS.Proof.ImageStore
import TaktOS.Proof.ImageRuns
import TaktOS.Proof.UpdateSystem
import TaktOS.Proof.PowerLoss
import TaktOS.Proof.UpdateArrival
import TaktOS.Lib.Weave
import TaktOS.Kernel.Kernel
import TaktOS.Proof.KernelSteps
import TaktOS.Proof.KernelStack
import TaktOS.Proof.KernelRuns
import TaktOS.Proof.KernelTimers
import TaktOS.Lib.Vault
import TaktOS.Proof.NvsSpaces
import TaktOS.Proof.NvsVault
import TaktOS.Proof.NvsRuns
import TaktOS.Middleware.WiFiConfig
import TaktOS.Proof.Credentials
import TaktOS.Lib.Frames
import TaktOS.Services.ModbusGateway
import TaktOS.Proof.ModbusLine
