import TaktOS.Services.ConfigManager

/-!
# The network's name and password

`WiFiConfig` of `wifi_module.hpp`, and the part of `WiFiModule::init` that fills it: what the NVS
has under two keys goes over what `setConfig` left, and the result is handed to esp-wifi.
-/

namespace TaktOS

open Lib

structure WiFiConfig where
  ssid : CBuffer 31 := (CBuffer.empty 31).strncpy (ascii ['T', 'A', 'K', 'T', '-', 'O', 'S'])
  password : CBuffer 63 := .empty 63

def kWiFiSsid : Name := ascii ['w', 'i', 'f', 'i', '_', 's', 's', 'i', 'd']

def kWiFiPass : Name := ascii ['w', 'i', 'f', 'i', '_', 'p', 'a', 's', 's']

namespace WiFiConfig

variable {σ : Type}

/-- What a failed `getString` left in the buffer is dropped. -/
def load (cfg : WiFiConfig) (nvs : NvsStrings σ) (s : σ) : WiFiConfig :=
  let (found, ssid) := nvs.getString s kWiFiSsid (List.replicate 32 0)
  let cfg := if found then { cfg with ssid := cfg.ssid.strncpy ssid } else cfg
  let (found, pass) := nvs.getString s kWiFiPass (List.replicate 64 0)
  if found then { cfg with password := cfg.password.strncpy pass } else cfg

/-- `wcfg.sta.ssid` and `wcfg.sta.password`, which have no terminator of their own. -/
def station (cfg : WiFiConfig) : List UInt8 × List UInt8 :=
  (padTo 32 (cfg.ssid.stringAt 0), padTo 64 (cfg.password.stringAt 0))

end WiFiConfig

end TaktOS
