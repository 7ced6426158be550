/-!
# Serial ports on the device

`Uart` of `platform.hpp` and `uart.cpp`, with `TAKT_ESP32` defined. `driver/uart.h` is not part of
the repository, so its calls are a parameter, `EspUart`, over a chip with states in `ω`. A `size_t`
is a `UInt32` on the device.
-/

namespace TaktOS

/-- The calls of `driver/uart.h`, for the port with that number. -/
structure EspUart (ω : Type) where
  /-- `uart_param_config` with a baud rate; whether it returned `ESP_OK`. -/
  paramConfig : ω → Int → UInt32 → Bool × ω
  /-- `uart_set_pin` with the two pins; whether it returned `ESP_OK`. -/
  setPin : ω → Int → Int → Int → Bool × ω
  /-- `uart_driver_install`; whether it returned `ESP_OK`. -/
  driverInstall : ω → Int → Bool × ω
  /-- `uart_read_bytes` without waiting, of up to so many bytes: its result, and the bytes that it
  put into the buffer. -/
  readBytes : ω → Int → UInt32 → Int × List UInt8 × ω

/-- A result of `uart_read_bytes` is -1 for an error, or the number of bytes read. -/
structure EspUart.Documented {ω : Type} (esp : EspUart ω) : Prop where
  count : ∀ chip port len, 0 ≤ (esp.readBytes chip port len).1 →
    (esp.readBytes chip port len).1 = (esp.readBytes chip port len).2.1.length
  bound : ∀ chip port len, 0 ≤ (esp.readBytes chip port len).1 →
    (esp.readBytes chip port len).2.1.length ≤ len.toNat

namespace Uart

def kMaxPorts : Nat := 3

/-- `Uart::Config` -/
structure Config where
  port : Int := 0
  baudRate : UInt32 := 115200
  txPin : Int := -1
  rxPin : Int := -1
  deriving DecidableEq, Repr

end Uart

/-- `installed`, next to the chip. -/
structure Uart (ω : Type) where
  installed : Vector Bool Uart.kMaxPorts := Vector.replicate _ false
  chip : ω

namespace Uart

variable {ω : Type}

/-- The port of a number, unless it is out of range. -/
def portOf (port : Int) : Option (Fin kMaxPorts) :=
  if h : port < 0 ∨ port ≥ kMaxPorts then none
  else some ⟨port.toNat, by omega⟩

/-- The port is one whose driver is installed. -/
def isInstalled (u : Uart ω) (port : Int) : Bool :=
  match portOf port with
  | none => false
  | some i => u.installed[i]

/-- A port that was installed once stays so. -/
def init (esp : EspUart ω) (u : Uart ω) (config : Config) : Bool × Uart ω :=
  match portOf config.port with
  | none => (false, u)
  | some i =>
    let (ok, chip) := esp.paramConfig u.chip config.port config.baudRate
    if !ok then (false, { u with chip })
    else
      let (ok, chip) :=
        if config.txPin ≥ 0 ∧ config.rxPin ≥ 0 then
          esp.setPin chip config.port config.txPin config.rxPin
        else (true, chip)
      if !ok then (false, { u with chip })
      else
        let (ok, chip) := esp.driverInstall chip config.port
        if !ok then (false, { u with chip })
        else (true, { installed := u.installed.set i true, chip })

/-- The result, and the bytes put into the buffer. -/
def read (esp : EspUart ω) (u : Uart ω) (port : Int) (len : UInt32) : Int × List UInt8 × Uart ω :=
  if !u.isInstalled port then (-1, [], u)
  else
    let (n, bytes, chip) := esp.readBytes u.chip port len
    (if n < 0 then -1 else n, bytes, { u with chip })

end Uart

end TaktOS
