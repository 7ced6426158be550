import TaktOS.Lib.Run
import TaktOS.Middleware.WiFiModule

/-!
# When a lost link is retried

`connected_` is set by the first tick that finds the station associated, and nothing in a running
module clears it. Up to then the reconnect timer sets its flag and the next tick connects. From
then on the module takes itself for connected and the timer does nothing, so a link that is lost
stays lost.
-/

namespace TaktOS.Proof

open Lib

/-! ## Runs next to the link -/

inductive WiFiOp where
  /-- The station is associated with its access point. -/
  | associated
  /-- The association is lost; `started` is for the tick of the handler. -/
  | disconnected (started : Bool)
  /-- The reconnect timer expires. -/
  | timeout
  /-- The scheduler comes to the module. -/
  | takt (started : Bool)

/-- The module with the state of the link and what a reader of the events would expect. -/
structure WiFiHistory where
  wifi : WiFiModule
  /-- Whether the station is associated, which `esp_wifi_sta_get_ap_info` answers by. -/
  link : Bool := false
  /-- Disconnected, and no tick has found the station associated since. -/
  lost : Bool := false
  /-- The timer expired with the link down, and no tick has come since. -/
  due : Bool := false
  /-- A tick was due to connect and did not. -/
  missed : Bool := false
  deriving DecidableEq

/-- What a tick that made `wifi` of the module leaves. -/
def WiFiHistory.ticked (s : WiFiHistory) (link lost : Bool) (wifi : WiFiModule)
    (notices : List WiFiNotice) : WiFiHistory where
  wifi := wifi
  link := link
  lost := lost
  due := false
  missed := s.missed || s.due && !notices.contains .connect

/-- A background module without work is passed over. -/
def wifiStep (s : WiFiHistory) : WiFiOp → Option WiFiHistory
  | .associated => some { s with wifi := (s.wifi.onWifiEvent .other true true).1, link := true }
  | .disconnected started =>
    let (wifi, notices) := s.wifi.onWifiEvent .staDisconnected false started
    some (s.ticked false true wifi notices)
  | .timeout => some { s with wifi := s.wifi.onTimeout, due := s.due || !s.link }
  | .takt started =>
    if s.wifi.hasWork then
      let (wifi, notices) := s.wifi.tick s.link started
      some (s.ticked s.link (s.lost && !s.link) wifi notices)
    else some s

/--
**A lost link is retried**: where the timer expired with the link down the module has work, every
tick that was due to connect did, and a lost link does not count as a connection.
-/
structure Retried (s : WiFiHistory) : Prop where
  pending : s.due = true → s.wifi.hasWork = true
  called : s.missed = false
  down : s.lost = true → s.wifi.isConnected = false

/-- In the state the step leaves. -/
def RetriedAfter (s : WiFiHistory) (op : WiFiOp) : Prop :=
  ∀ s', wifiStep s op = some s' → Retried s'

/-- A disconnect finds a module that has not found itself connected yet. -/
def NotYetConnected (s : WiFiHistory) : WiFiOp → Prop
  | .disconnected _ => s.wifi.isConnected = false
  | _ => True

/-! ## What a tick does -/

/-- **A tick connects where it is asked to**, and takes the link for what it is while it is up. -/
theorem tick_wifi (m : WiFiModule) (apInfo started : Bool) (hi : m.initialized = true) :
    (m.tick apInfo started).1
        = { m with connected := m.connected || apInfo, reconnectPending := false,
                   eventPending := false }
      ∧ (m.tick apInfo started).2.contains .connect = m.reconnectPending := by
  obtain ⟨connected, reconnect, event, initialized⟩ := m
  obtain rfl : initialized = true := hi
  cases connected <;> cases reconnect <;> cases event <;> cases apInfo <;> cases started <;>
    exact ⟨rfl, rfl⟩

/-! ## Steps -/

/-- The flags of a module whose disconnects all came before its first connection. -/
structure WiFiInv (s : WiFiHistory) : Prop where
  initialized : s.wifi.initialized = true
  /-- A link that the module takes for up is up. -/
  link : s.wifi.connected = true → s.link = true
  due : s.due = true → s.wifi.reconnectPending = true
  lost : s.lost = true → s.wifi.connected = false
  called : s.missed = false

theorem WiFiInv.retried {s : WiFiHistory} (hi : WiFiInv s) : Retried s :=
  ⟨fun h => by rw [WiFiModule.hasWork, hi.due h]; rfl, hi.called, hi.lost⟩

theorem ticked_inv {s : WiFiHistory} (hi : WiFiInv s) {link lost started : Bool}
    (hlink : s.wifi.connected = true → link = true)
    (hlost : lost = true → s.wifi.connected = false ∧ link = false) :
    WiFiInv (s.ticked link lost (s.wifi.tick link started).1 (s.wifi.tick link started).2) := by
  obtain ⟨htick, hconn⟩ := tick_wifi s.wifi link started hi.initialized
  rw [WiFiHistory.ticked, htick, hconn]
  refine ⟨hi.initialized, fun h => ?_, fun h => absurd h Bool.false_ne_true, fun h => ?_, ?_⟩
  · rcases (Bool.or_eq_true _ _).mp h with h | h
    · exact hlink h
    · exact h
  · obtain ⟨hc, hl⟩ := hlost h
    dsimp only
    rw [hc, hl]
    rfl
  · dsimp only
    rw [hi.called, Bool.false_or]
    cases hd : s.due with
    | false => rfl
    | true => rw [hi.due hd]; rfl

/-- **A step that meets the condition keeps the flags in order.** -/
theorem wifiStep_inv {s s' : WiFiHistory} {op : WiFiOp} (hi : WiFiInv s)
    (hc : NotYetConnected s op) (h : wifiStep s op = some s') : WiFiInv s' := by
  cases op with
  | associated =>
    obtain rfl := Option.some.inj h
    exact ⟨hi.initialized, fun _ => rfl, hi.due, hi.lost, hi.called⟩
  | disconnected started =>
    obtain rfl := Option.some.inj h
    have hdown : s.wifi.connected = false := hc
    exact ticked_inv hi (fun h => absurd h (by rw [hdown]; exact Bool.false_ne_true))
      fun _ => ⟨hdown, rfl⟩
  | timeout =>
    obtain rfl := Option.some.inj h
    have hsame : s.wifi.onTimeout.connected = s.wifi.connected
        ∧ s.wifi.onTimeout.initialized = s.wifi.initialized := by
      unfold WiFiModule.onTimeout
      split <;> exact ⟨rfl, rfl⟩
    refine ⟨hsame.2.trans hi.initialized, fun h => hi.link (hsame.1.symm.trans h), fun h => ?_,
      fun h => hsame.1.trans (hi.lost h), hi.called⟩
    unfold WiFiModule.onTimeout
    split
    · rfl
    · rename_i hconn
      -- a module that takes itself for connected has its link, so the timer asks for nothing
      have hlink : s.link = true := hi.link (by simpa using hconn)
      dsimp only at h
      rw [hlink, Bool.not_true, Bool.or_false] at h
      exact hi.due h
  | takt started =>
    rw [wifiStep] at h
    split at h
    · obtain rfl := Option.some.inj h
      refine ticked_inv hi hi.link fun hl => ?_
      obtain ⟨hlost, hlink⟩ := (Bool.and_eq_true _ _).mp hl
      exact ⟨hi.lost hlost, by simpa using hlink⟩
    · obtain rfl := Option.some.inj h
      exact hi

/-- A disconnect leaves `connected_` as it was. -/
theorem notYetConnected_of_retried {s : WiFiHistory} {op : WiFiOp} (hi : WiFiInv s)
    (h : RetriedAfter s op) : NotYetConnected s op := by
  cases op with
  | disconnected started =>
    have hdown : (s.wifi.tick false started).1.connected = false := (h _ rfl).down rfl
    rw [(tick_wifi s.wifi false started hi.initialized).1] at hdown
    exact (Bool.or_false _).symm.trans hdown
  | associated => trivial
  | timeout => trivial
  | takt started => trivial

/-! ## The theorem -/

/-- A module after its `init`. -/
def freshWiFi (link : Bool) : WiFiHistory where
  wifi := ({} : WiFiModule).init.2
  link := link

theorem freshWiFi_inv (link : Bool) : WiFiInv (freshWiFi link) :=
  ⟨rfl, fun h => absurd h Bool.false_ne_true, fun _ => rfl, fun _ => rfl, rfl⟩

/--
**A lost link is retried** in every state of a run exactly when every disconnect of the run comes
before a tick has found the station associated.
-/
theorem wifi_retried_iff (link : Bool) (ops : List WiFiOp) :
    Along wifiStep RetriedAfter (freshWiFi link) ops
      ↔ Along wifiStep NotYetConnected (freshWiFi link) ops :=
  along_iff_of_invariant WiFiInv
    (fun _ _ _ hi h hs => wifiStep_inv hi (notYetConnected_of_retried hi h) hs)
    (fun _ _ hi => ⟨notYetConnected_of_retried hi,
      fun h _ hs => (wifiStep_inv hi h hs).retried⟩) (freshWiFi_inv link)

/--
**The second outage.** The module connects, is associated and finds out; then the link is lost and
the timer expires, and the module still says connected and has nothing to do.
-/
theorem wifi_not_retried :
    (∃ t, run wifiStep (freshWiFi false)
        [.takt true, .associated, .timeout, .takt true, .disconnected true, .timeout] = some t
      ∧ t.link = false ∧ t.wifi.isConnected = true ∧ t.wifi.hasWork = false)
      ∧ ¬ Along wifiStep RetriedAfter (freshWiFi false)
        [.takt true, .associated, .timeout, .takt true, .disconnected true, .timeout] := by
  refine ⟨⟨_, rfl, rfl, rfl, rfl⟩, fun h => ?_⟩
  -- the disconnect is the fifth step
  have hfifth := (h.2 _ rfl).2 _ rfl |>.2 _ rfl |>.2 _ rfl |>.1
  exact absurd ((hfifth _ rfl).down rfl) (by decide)

end TaktOS.Proof
