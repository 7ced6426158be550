import TaktOS.Kernel.NvsManager
import TaktOS.Lib.CString

/-!
# The configuration manager

`ConfigManager` of `config_manager.hpp` and `config_manager.cpp`: one text waits in a buffer of
512 bytes for the next tick, which cuts it up in place and hands the pairs to the NVS. What
reaches code outside, the change callback and the event bus, is put on record, latest last; that
code does not call back in.
-/

namespace TaktOS

open Lib

/-- The calls of `NvsManager` that the module makes, on a store with states in `σ`. -/
structure NvsStrings (σ : Type) where
  setString : σ → Name → List UInt8 → Bool × σ
  getString : σ → Name → List UInt8 → Bool × List UInt8
  backup : σ → Bool × σ

/-- The device build; a call without a version takes 1. -/
def NvsStrings.esp32 {σ : Type} (nvs : NvsFlash σ) (ns : Name) : NvsStrings σ where
  setString s key value := NvsManager.Esp32.setString nvs ns s key value 1
  getString := NvsManager.Esp32.getString nvs ns
  backup := NvsManager.Esp32.backup nvs ns

/-- The host build. -/
def NvsStrings.host (ns : Name) : NvsStrings HostNvs where
  setString s key value := NvsManager.Host.setString ns s key value 1
  getString := NvsManager.Host.getString ns
  backup := NvsManager.Host.backup

/-- `;` -/
def kPairSeparator : UInt8 := 0x3B

/-- `=` -/
def kValueMark : UInt8 := 0x3D

structure ConfigManager where
  applyPending : Bool := false
  /-- Whether `changeCb_` is set. -/
  changeCb : Bool := false
  pendingJson : CBuffer 511 := .empty 511

/-- What left the module. -/
inductive ConfigNotice where
  /-- `changeCb_(key)` -/
  | changed (key : Name)
  /-- `EventBus::publish(Event::SystemReady)` -/
  | systemReady
  deriving DecidableEq, Repr

/-- The module and the store it writes to. -/
structure ConfigWorld (σ : Type) where
  config : ConfigManager := {}
  nvs : σ
  notices : List ConfigNotice := []

namespace ConfigManager

def hasWork (c : ConfigManager) : Bool := c.applyPending

def onChange (c : ConfigManager) (cb : Bool) : ConfigManager := { c with changeCb := cb }

/-- A text that waits already is overwritten. -/
def applyRemoteConfig (c : ConfigManager) (json : List UInt8) : ConfigManager :=
  { c with pendingJson := c.pendingJson.strncpy json, applyPending := true }

end ConfigManager

namespace ConfigWorld

variable {σ : Type} (nvs : NvsStrings σ)

def setString (w : ConfigWorld σ) (key : Name) (value : List UInt8) : Bool × ConfigWorld σ :=
  match nvs.setString w.nvs key value with
  | (false, s) => (false, { w with nvs := s })
  | (true, s) =>
    let w := { w with nvs := s }
    (true, if w.config.changeCb then { w with notices := w.notices ++ [.changed key] } else w)

def getString (w : ConfigWorld σ) (key : Name) (buf : List UInt8) : Bool × List UInt8 :=
  nvs.getString w.nvs key buf

def setPending (w : ConfigWorld σ) (buf : CBuffer 511) : ConfigWorld σ :=
  { w with config := { w.config with pendingJson := buf } }

/-- The body of `applyPending`'s loop; the result of the store is dropped. -/
def applyToken (w : ConfigWorld σ) (token : Nat) : ConfigWorld σ :=
  match w.config.pendingJson.strchr token kValueMark with
  | none => w
  | some eq =>
    let buf := w.config.pendingJson.terminate eq
    (setString nvs (setPending w buf) (buf.stringAt token) (buf.stringAt (eq + 1))).2

@[simp] theorem setString_config (w : ConfigWorld σ) (key : Name) (value : List UInt8) :
    (setString nvs w key value).2.config = w.config := by
  unfold setString
  split
  · rfl
  · dsimp only
    split <;> rfl

/-- The token's loop body writes inside the token. -/
theorem applyToken_stringAt (w : ConfigWorld σ) {token next : Nat}
    (h : token + (w.config.pendingJson.stringAt token).length ≤ next) :
    (applyToken nvs w token).config.pendingJson.stringAt next
      = w.config.pendingJson.stringAt next := by
  unfold applyToken
  split
  · rfl
  · rename_i eq heq
    obtain ⟨_, hlt⟩ := w.config.pendingJson.strchr_lt heq
    rw [setString_config]
    exact w.config.pendingJson.stringAt_terminate_of_lt (by omega)

/-- `applyPending`'s loop, from where `strtok_r` goes on. -/
def applyTokens (w : ConfigWorld σ) (p : Nat) : ConfigWorld σ :=
  match _h : w.config.pendingJson.strtokR kPairSeparator p with
  | none => w
  | some (token, buf, next) => applyTokens (applyToken nvs (setPending w buf) token) next
termination_by (w.config.pendingJson.stringAt p).length
decreasing_by
  obtain ⟨_, hnext, hlt⟩ := w.config.pendingJson.strtokR_some buf _h
  rw [applyToken_stringAt nvs (setPending w buf) hnext]
  exact hlt

def applyPending (w : ConfigWorld σ) : ConfigWorld σ :=
  let w := { w with config := { w.config with applyPending := false } }
  let w := applyTokens nvs w 0
  { w with notices := w.notices ++ [.systemReady] }

def tick (w : ConfigWorld σ) : ConfigWorld σ :=
  if w.config.applyPending then applyPending nvs w else w

def shutdown (w : ConfigWorld σ) : ConfigWorld σ := { w with nvs := (nvs.backup w.nvs).2 }

end ConfigWorld

end TaktOS
