import TaktOS.Lib.CString

/-!
# The MQTT client

`MqttModule` of `mqtt_module.hpp` and `mqtt_module.cpp`, the ESP32 build: one message waits in two
buffers until a tick. Whether there is a client (`gClient`) and what esp-mqtt answers come with
each call; what reaches it, and the event bus, is returned with the result. The broker's address
and subscriptions have no part in it.
-/

namespace TaktOS

open Lib

structure MqttModule where
  msgPending : Bool := false
  connected : Bool := false
  pendingTopic : CBuffer 63 := .empty 63
  pendingPayload : CBuffer 255 := .empty 255

/-- What left the module. -/
inductive MqttNotice where
  /-- `EventBus::publish(Event::MqttConnected)` -/
  | connected
  /-- `esp_mqtt_client_publish` -/
  | published (topic payload : List UInt8) (result : Int)
  deriving DecidableEq, Repr

namespace MqttModule

def hasWork (m : MqttModule) : Bool := m.msgPending

/-- `published` is what `esp_mqtt_client_publish` returns where it is called. -/
def publish (m : MqttModule) (client : Bool) (published : Int) (topic payload : List UInt8) :
    Bool × MqttModule × List MqttNotice :=
  if !client || !m.connected then
    (false,
      { m with
        pendingTopic := m.pendingTopic.strncpy topic
        pendingPayload := m.pendingPayload.strncpy payload
        msgPending := true },
      [])
  else (published ≥ 0, m, [.published (cstr topic) (cstr payload) published])

/-- The first part of `tick`: a client with an outbox is taken for connected. -/
def connect (m : MqttModule) (client : Bool) (outboxSize : Int) : MqttModule × List MqttNotice :=
  if client && outboxSize ≥ 0 && !m.connected then ({ m with connected := true }, [.connected])
  else (m, [])

/-- The topic is cleared whatever `publish` did. -/
def tick (m : MqttModule) (client : Bool) (outboxSize published : Int) :
    MqttModule × List MqttNotice :=
  let (m, notices) := m.connect client outboxSize
  if m.msgPending then
    let m := { m with msgPending := false }
    if m.pendingTopic.stringAt 0 ≠ [] then
      let (_, m, notices') :=
        m.publish client published (m.pendingTopic.stringAt 0) (m.pendingPayload.stringAt 0)
      ({ m with pendingTopic := m.pendingTopic.terminate 0 }, notices ++ notices')
    else (m, notices)
  else (m, notices)

def shutdown (m : MqttModule) : MqttModule := { m with connected := false }

end MqttModule

end TaktOS
