/-!
# The WiFi station

`WiFiModule` of `wifi_module.hpp` and `wifi_module.cpp`, the ESP32 build: three flags, written by
an event handler, a timer callback and `tick`. What esp-wifi answers comes with each call, and what
reaches it, or the event bus, is returned. The network's name and password have no part in it.
-/

namespace TaktOS

/-- The events `onWifiEvent` is registered for. -/
inductive WiFiEvent where
  /-- `WIFI_EVENT_STA_DISCONNECTED` -/
  | staDisconnected
  /-- `IP_EVENT_STA_GOT_IP` -/
  | staGotIp
  /-- Any other WiFi event. -/
  | other
  deriving DecidableEq, Repr

/-- What left the module. -/
inductive WiFiNotice where
  /-- `esp_wifi_connect` -/
  | connect
  /-- `EventBus::publish(Event::WiFiConnected)` -/
  | connected
  deriving DecidableEq, Repr

structure WiFiModule where
  connected : Bool := false
  reconnectPending : Bool := true
  eventPending : Bool := false
  initialized : Bool := false
  deriving DecidableEq, Repr

namespace WiFiModule

def hasWork (m : WiFiModule) : Bool := m.reconnectPending || m.eventPending

def isConnected (m : WiFiModule) : Bool := m.connected

/-- The reconnect timer runs from here on. -/
def init (m : WiFiModule) : Bool × WiFiModule := (true, { m with initialized := true })

/-- The callback of the reconnect timer. -/
def onTimeout (m : WiFiModule) : WiFiModule :=
  if !m.connected then { m with reconnectPending := true } else m

/-- `started` is whether `esp_wifi_connect` returns `ESP_OK`. -/
def connect (m : WiFiModule) (started : Bool) : Bool × List WiFiNotice :=
  if !m.initialized then (false, []) else (started, [.connect])

def processEvents (m : WiFiModule) : WiFiModule := { m with eventPending := false }

/-- The first part of `tick`. -/
def reconnect (m : WiFiModule) (started : Bool) : WiFiModule × List WiFiNotice :=
  if m.reconnectPending then
    let m := { m with reconnectPending := false }
    let (ok, notices) := m.connect started
    (if ok then { m with eventPending := true } else m, notices)
  else (m, [])

/-- `apInfo` is whether `esp_wifi_sta_get_ap_info` returns `ESP_OK`. -/
def tick (m : WiFiModule) (apInfo started : Bool) : WiFiModule × List WiFiNotice :=
  let (m, notices) := m.reconnect started
  let (m, notices) :=
    if apInfo && !m.connected then ({ m with connected := true }, notices ++ [.connected])
    else (m, notices)
  (if m.eventPending then m.processEvents else m, notices)

def onWifiEvent (m : WiFiModule) (event : WiFiEvent) (apInfo started : Bool) :
    WiFiModule × List WiFiNotice :=
  if event = .staDisconnected then m.tick apInfo started else (m, [])

def shutdown (m : WiFiModule) : WiFiModule := { m with connected := false }

end WiFiModule

end TaktOS
