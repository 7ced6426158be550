import TaktOS.Middleware.ModbusModule

/-!
# The Modbus gateway

`ModbusGateway` of `modbus_gateway.hpp` and `modbus_gateway.cpp`: a takt asks slave 1 for one of
ten registers, by way of the module it was given. The value is dropped.
-/

namespace TaktOS

structure ModbusGateway where
  /-- Whether `modbus_` points to a module. -/
  modbus : Bool := false
  pollPending : Bool := true
  pollAddr : UInt16 := 0
  deriving DecidableEq, Repr

namespace ModbusGateway

def hasWork (g : ModbusGateway) : Bool := g.pollPending

def setModbusModule (g : ModbusGateway) (modbus : Bool) : ModbusGateway := { g with modbus }

/-- `m` is the module that `modbus_` points to; the gateway and what left the module. -/
def tick (g : ModbusGateway) (m : ModbusModule) (written : Int) (received : Option (List UInt8)) :
    ModbusGateway × List ModbusNotice :=
  if !g.pollPending || !g.modbus then (g, [])
  else
    let (_, _, notices) := m.readHoldingRegister written received 1 g.pollAddr 0
    -- the sum is an `int`
    ({ g with pollAddr := UInt16.ofNat ((g.pollAddr.toNat + 1) % 10) }, notices)

end ModbusGateway

end TaktOS
