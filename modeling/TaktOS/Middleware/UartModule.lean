import TaktOS.Drivers.Uart
import TaktOS.Lib.ByteMap

/-!
# The UART module

`UartModule` of `uart_module.hpp` and `uart_module.cpp`, the ESP32 build: at each tick it reads up
to a fixed number of bytes into a buffer of 256. What it asks of `Uart` and tells the event bus is
returned.
-/

namespace TaktOS

open Lib

/-- What left the module. -/
inductive UartNotice where
  /-- `Uart::read` into `rxBuf_` of up to `len` bytes, with those it put there. -/
  | read (len : UInt32) (stored : List UInt8)
  /-- `EventBus::publish(Event::UartDataReceived, count)` -/
  | received (count : UInt32)
  deriving DecidableEq, Repr

def kRxBufSize : Nat := 256

structure UartModule where
  port : Int := 0
  bytesPerTick : UInt32 := 16
  rxCount : UInt32 := 0
  /-- The bytes at `rxBuf_`, of which `kRxBufSize` are the buffer's. -/
  rxBuf : Nat → UInt8 := fun _ => 0

namespace UartModule

variable {ω : Type}

def bytesAvailable (m : UartModule) : UInt32 := m.rxCount

/-- A port that cannot be initialized is only logged. -/
def init (esp : EspUart ω) (m : UartModule) (u : Uart ω) : Bool × Uart ω :=
  let config : Uart.Config := { port := m.port, baudRate := 115200, txPin := 1, rxPin := 3 }
  (true, (u.init esp config).2)

def tick (esp : EspUart ω) (m : UartModule) (u : Uart ω) :
    UartModule × Uart ω × List UartNotice :=
  let (n, bytes, u) := u.read esp m.port m.bytesPerTick
  -- the error code -1 is cast as well
  let rxCount := UInt32.ofInt n
  ({ m with rxCount, rxBuf := overlay m.rxBuf 0 bytes }, u,
    .read m.bytesPerTick bytes :: if rxCount > 0 then [.received rxCount] else [])

end UartModule

end TaktOS
