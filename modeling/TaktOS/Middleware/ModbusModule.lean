/-!
# The Modbus master

`ModbusModule` of `modbus_module.hpp` and `modbus_module.cpp`: one request waits for the next
tick. What `Uart` answers comes with each call, and what reaches it, or the event bus, is returned.
-/

namespace TaktOS

/-- `ModbusModule::Mode` -/
inductive ModbusMode where
  | rtu
  | tcp
  deriving DecidableEq, Repr

/-- What left the module. -/
inductive ModbusNotice where
  /-- `Uart::write` with its result. -/
  | write (port : Int) (frame : List UInt8) (written : Int)
  /-- `EventBus::publish(Event::ModbusRequest, slave, addr)` -/
  | request (slave : UInt8) (addr : UInt16)
  deriving DecidableEq, Repr

structure ModbusModule where
  mode : ModbusMode := .rtu
  uartPort : Int := 1
  requestPending : Bool := false
  pendingSlave : UInt8 := 0
  pendingAddr : UInt16 := 0
  deriving DecidableEq, Repr

namespace ModbusModule

def hasWork (m : ModbusModule) : Bool := m.requestPending

/-- One round of `crc16`'s inner loop. -/
def crc16Bit (crc : UInt16) : UInt16 :=
  if crc &&& 1 = 1 then (crc >>> 1) ^^^ 0xA001 else crc >>> 1

def crc16 (data : List UInt8) : UInt16 :=
  data.foldl (fun crc b => Nat.repeat crc16Bit 8 (crc ^^^ b.toUInt16)) 0xFFFF

/-- The low byte of the CRC goes first. -/
def withCrc (frame : List UInt8) : List UInt8 :=
  frame ++ [(crc16 frame).toUInt8, (crc16 frame >>> 8).toUInt8]

/-- The request that `readHoldingRegister` sends. -/
def readFrame (slave : UInt8) (addr : UInt16) : List UInt8 :=
  withCrc [slave, 0x03, (addr >>> 8).toUInt8, addr.toUInt8, 0x00, 0x01]

/--
The result, the value afterwards and what left the module. `received` is what `Uart::read` puts
into the 7 bytes of the response, or `none` for a result of -1.
-/
def readHoldingRegister (m : ModbusModule) (written : Int) (received : Option (List UInt8))
    (slave : UInt8) (addr : UInt16) (value : UInt16) : Bool × UInt16 × List ModbusNotice :=
  match m.mode with
  | .tcp => (true, value, [.request slave addr])
  | .rtu =>
    let resp := (received.getD []).take 7
    -- neither the slave nor the function code nor the CRC of the response is looked at
    let value :=
      if resp.length ≥ 5 then (resp.getD 3 0).toUInt16 <<< 8 ||| (resp.getD 4 0).toUInt16
      else value
    (true, value, [.write m.uartPort (readFrame slave addr) written, .request slave addr])

/-- The value is dropped. -/
def writeCoil (m : ModbusModule) (slave : UInt8) (addr : UInt16) (_value : Bool) :
    Bool × ModbusModule :=
  (true, { m with pendingSlave := slave, pendingAddr := addr, requestPending := true })

def processRequest (m : ModbusModule) (written : Int) (received : Option (List UInt8)) :
    ModbusModule × List ModbusNotice :=
  let m := { m with requestPending := false }
  let (_, _, notices) := m.readHoldingRegister written received m.pendingSlave m.pendingAddr 0
  (m, notices)

def tick (m : ModbusModule) (written : Int) (received : Option (List UInt8)) :
    ModbusModule × List ModbusNotice :=
  if m.requestPending then m.processRequest written received else (m, [])

end ModbusModule

end TaktOS
