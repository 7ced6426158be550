import TaktOS.Proof.DfuIsolation

/-!
# What a refused update leaves behind

`startUpdate` sets the service's totals, makes the manager's transports anew and replaces its
progress callback before it asks the cache whether the image fits. The answer is no part of
what is undone, so a refused update changes nothing only where all of that was in place.
-/

namespace TaktOS.Proof

open Lib

variable {δ : Type}

/-- The channel `startUpdate` makes of a transport. -/
def channelOf (transport : OtaTransport) : RecoveryChannel :=
  if transport = .ble then .ble else .wifi

/-- The image is larger than the slot after its reserve. -/
def TooLarge (fc : FirmwareCache) (imageSize : UInt32) : Prop :=
  imageSize > fc.slotSize - kHeaderReserved

instance (fc : FirmwareCache) (imageSize : UInt32) : Decidable (TooLarge fc imageSize) :=
  inferInstanceAs (Decidable (_ > _))

/-- The service and the manager as they are when the cache is asked. -/
def prepared (w : World δ) (transport : OtaTransport) (imageSize : UInt32) : World δ :=
  { w with
    ota := { w.ota with transport, totalSize := imageSize, received := 0 }
    recovery := { w.recovery with
      channel := channelOf transport, transports := true, bleActive := false
      wifiActive := false, uartActive := false, progressCb := .otaService } }

/-- An image that is too large is refused with everything prepared for it, and no other is. -/
theorem startUpdate_refused_iff {w w' : World δ} {transport : OtaTransport}
    {imageSize version : UInt32} :
    OtaService.startUpdate w transport imageSize version = (false, w')
      ↔ TooLarge w.cache imageSize ∧ w' = prepared w transport imageSize := by
  unfold OtaService.startUpdate
  dsimp only [World.setOta, World.setRecovery, RecoveryManager.init]
  rcases beginWrite_cases w.cache imageSize version with ⟨hlarge, hb⟩ | ⟨hfits, hb⟩
  · rw [hb]
    constructor
    · intro h
      exact ⟨hlarge, (congrArg Prod.snd h).symm⟩
    · rintro ⟨_, rfl⟩
      rfl
  · rw [hb]
    refine iff_of_false (fun h => ?_) (fun h => absurd hfits (UInt32.not_le.mpr h.1))
    exact absurd (congrArg Prod.fst h) (by simp)

/-! ## Refusals in a run -/

/-- **A refused update changes nothing**: service, manager and cache are as they were. -/
def RefusedUnchanged (w : World δ) : WorldOp → Prop
  | .startUpdate transport imageSize version =>
    ∀ w', OtaService.startUpdate w transport imageSize version = (false, w') →
      w'.ota = w.ota ∧ w'.recovery = w.recovery ∧ w'.cache = w.cache
  | _ => True

/-- What the update sets before the cache is asked is so already. -/
structure InPlace (w : World δ) (transport : OtaTransport) (imageSize : UInt32) : Prop where
  via : w.ota.transport = transport
  totalSize : w.ota.totalSize = imageSize
  received : w.ota.received = 0
  channel : w.recovery.channel = channelOf transport
  progressCb : w.recovery.progressCb = .otaService
  transports : w.recovery.transports = true
  stopped : w.recovery.bleActive = false ∧ w.recovery.wifiActive = false
    ∧ w.recovery.uartActive = false

/-- An update that is too large finds in place what it sets. -/
def RefusedInPlace (w : World δ) : WorldOp → Prop
  | .startUpdate transport imageSize _ =>
    TooLarge w.cache imageSize → InPlace w transport imageSize
  | _ => True

/-- Preparing changes nothing if and only if all of it is in place. -/
theorem prepared_eq_iff (w : World δ) (transport : OtaTransport) (imageSize : UInt32) :
    ((prepared w transport imageSize).ota = w.ota
      ∧ (prepared w transport imageSize).recovery = w.recovery)
      ↔ InPlace w transport imageSize := by
  constructor
  · rintro ⟨hota, hrec⟩
    exact {
      via := (congrArg OtaService.transport hota).symm
      totalSize := (congrArg OtaService.totalSize hota).symm
      received := (congrArg OtaService.received hota).symm
      channel := (congrArg RecoveryManager.channel hrec).symm
      progressCb := (congrArg RecoveryManager.progressCb hrec).symm
      transports := (congrArg RecoveryManager.transports hrec).symm
      stopped := ⟨(congrArg RecoveryManager.bleActive hrec).symm,
        (congrArg RecoveryManager.wifiActive hrec).symm,
        (congrArg RecoveryManager.uartActive hrec).symm⟩ }
  · intro h
    obtain ⟨hble, hwifi, huart⟩ := h.stopped
    constructor
    · calc (prepared w transport imageSize).ota
          = { w.ota with
              transport := w.ota.transport, totalSize := w.ota.totalSize
              received := w.ota.received } := by
            rw [h.via, h.totalSize, h.received]; rfl
        _ = w.ota := rfl
    · calc (prepared w transport imageSize).recovery
          = { w.recovery with
              channel := w.recovery.channel, transports := w.recovery.transports
              bleActive := w.recovery.bleActive, wifiActive := w.recovery.wifiActive
              uartActive := w.recovery.uartActive
              progressCb := w.recovery.progressCb } := by
            rw [h.channel, h.transports, hble, hwifi, huart, h.progressCb]; rfl
        _ = w.recovery := rfl

theorem refusedUnchanged_iff (w : World δ) (op : WorldOp) :
    RefusedUnchanged w op ↔ RefusedInPlace w op := by
  unfold RefusedUnchanged RefusedInPlace
  cases op with
  | startUpdate transport imageSize version =>
    constructor
    · intro h hlarge
      obtain ⟨hota, hrec, _⟩ := h _ (startUpdate_refused_iff.mpr ⟨hlarge, rfl⟩)
      exact (prepared_eq_iff w transport imageSize).mp ⟨hota, hrec⟩
    · rintro h w' hcall
      obtain ⟨hlarge, rfl⟩ := startUpdate_refused_iff.mp hcall
      obtain ⟨hota, hrec⟩ := (prepared_eq_iff w transport imageSize).mpr (h hlarge)
      exact ⟨hota, hrec, rfl⟩
  | _ => exact Iff.rfl

/--
**A refused update changes nothing if and only if there was nothing left to prepare.** In every
run of the calls on service and manager, from any state and over any backend: each `startUpdate`
that returns false leaves service, manager and cache as they were if and only if it found there,
already, its own transport, size and channel, a counter of 0, its progress lambda, and
transports none of which is active. A session in progress is no exception.
-/
theorem refused_unchanged_iff (w : World δ) (ops : List WorldOp) :
    Along worldStep RefusedUnchanged w ops ↔ Along worldStep RefusedInPlace w ops :=
  along_iff_of_invariant (fun _ => True) (fun _ _ _ _ _ _ => trivial)
    (fun w op _ => refusedUnchanged_iff w op) trivial

/--
**A refused update stops the transport of the one in progress**, and its size replaces the
other's.
-/
theorem refused_mid_session :
    ∃ w w', run worldStep freshWorld [.startUpdate .wifi 2 7, .feedChunk [3]] = some w
      ∧ OtaService.startUpdate w .ble 0x10000 8 = (false, w')
      ∧ (w.ota.active, w.recovery.channel, w.recovery.wifiActive) = (true, .wifi, true)
      ∧ (w'.ota.active, w'.recovery.channel, w'.recovery.wifiActive) = (true, .ble, false)
      ∧ w'.ota.totalSize = 0x10000
      ∧ ¬ Along worldStep RefusedUnchanged freshWorld
        [.startUpdate .wifi 2 7, .feedChunk [3], .startUpdate .ble 0x10000 8] := by
  have hbefore : (run worldStep freshWorld [.startUpdate .wifi 2 7, .feedChunk [3]]).map
      (fun w => ((w.ota.active, w.recovery.channel, w.recovery.wifiActive), w.cache.slotSize))
      = some ((true, .wifi, true), 0x4000) := by decide
  obtain ⟨w, hw, hstate⟩ := Option.map_eq_some_iff.mp hbefore
  simp only [Prod.mk.injEq] at hstate
  obtain ⟨⟨hactive, hchannel, hwifi⟩, hsize⟩ := hstate
  have hrefused : OtaService.startUpdate w .ble 0x10000 8 = (false, prepared w .ble 0x10000) :=
    startUpdate_refused_iff.mpr ⟨by rw [TooLarge, hsize]; decide, rfl⟩
  refine ⟨w, _, hw, hrefused, by rw [hactive, hchannel, hwifi], ?_, rfl, fun halong => ?_⟩
  · show (w.ota.active, RecoveryChannel.ble, false) = _
    rw [hactive]
  · have hlast := along_last [WorldOp.startUpdate .wifi 2 7, .feedChunk [3]] halong hw
    have hsame : RecoveryChannel.ble = w.recovery.channel :=
      congrArg RecoveryManager.channel (hlast _ hrefused).2.1
    rw [hchannel] at hsame
    exact absurd hsame (by decide)

end TaktOS.Proof
