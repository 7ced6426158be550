import TaktOS.Proof.DfuInstall
import TaktOS.Proof.UpdateDelivery

/-!
# Receiving needs a session somebody opened

A listening manager hands each chunk to the cache, so receiving an image is what the cache
makes of its chunks. The manager never opens the session the cache needs: only the OTA
service does. A recovery application, which has no OTA service, refuses every chunk.
-/

namespace TaktOS.Proof

open Lib

variable {δ : Type}

/-! ## What `receiveChunk` can do -/

/-- The states chunks are taken in. -/
def Listening (w : World δ) : Prop :=
  w.recovery.state = .awaitingImage ∨ w.recovery.state = .receiving

/-- A call in any other state does nothing; a listening manager asks the cache. -/
theorem receiveChunk_cases {w w' : World δ} {data : List UInt8} {n : Int}
    (h : RecoveryManager.receiveChunk w data = some (n, w')) :
    (¬ Listening w ∧ n = -1 ∧ w' = w)
      ∨ (Listening w ∧ w.cache.writeChunk w.storage data = some (n, w'.cache, w'.storage)
        ∧ w'.recovery.state = .receiving ∧ w'.bootConfig = w.bootConfig) := by
  by_cases hl : Listening w
  · rw [receiveChunk_listening hl] at h
    obtain ⟨⟨written, cache, storage⟩, hwr, hres⟩ := Option.map_eq_some_iff.mp h
    cases hres
    refine Or.inr ⟨hl, ?_, ?_, afterChunk_bootConfig ..⟩
    · rw [afterChunk_cache, afterChunk_storage]
      exact hwr
    · rw [afterChunk_recovery hl]
  · rw [receiveChunk_deaf hl] at h
    cases h
    exact Or.inl ⟨hl, rfl, rfl⟩

/-- The call returns as soon as the cache's does. -/
theorem receiveChunk_returns {w : World δ} {data : List UInt8} (hl : Listening w)
    (hwr : (w.cache.writeChunk w.storage data).isSome = true) :
    (RecoveryManager.receiveChunk w data).isSome = true := by
  rw [receiveChunk_listening hl, Option.isSome_map]
  exact hwr

/-! ## Receiving an image -/

/-- Hand the chunks to the manager one by one, collecting what each call returns. -/
def receiveChunks (w : World δ) : List (List UInt8) → Option (List Int × World δ)
  | [] => some ([], w)
  | c :: cs =>
    match RecoveryManager.receiveChunk w c with
    | none => none
    | some (n, w) =>
      match receiveChunks w cs with
      | none => none
      | some (ns, w) => some (n :: ns, w)

/-- **What a listening manager makes of an image is what the cache makes of its chunks.** -/
theorem receiveChunks_eq_writeChunks : ∀ {chunks : List (List UInt8)} {w : World δ},
    Listening w → ∀ {ns : List Int} {fc : FirmwareCache} {sm : StorageManager δ},
    writeChunks w.cache w.storage chunks = some (ns, fc, sm) →
    ∃ w', receiveChunks w chunks = some (ns, w') ∧ w'.cache = fc ∧ w'.storage = sm
      ∧ Listening w' ∧ (chunks ≠ [] → w'.recovery.state = .receiving) := by
  intro chunks
  induction chunks with
  | nil =>
    intro w hl ns fc sm h
    rw [writeChunks] at h
    injection h with h; injection h with hns h; injection h with hfc hsm
    exact ⟨w, by rw [receiveChunks, hns], hfc, hsm, hl, fun hne => absurd rfl hne⟩
  | cons c cs ih =>
    intro w hl ns fc sm h
    rw [writeChunks] at h
    split at h
    · exact absurd h (by simp)
    · rename_i r fc₁ sm₁ hc
      split at h
      · exact absurd h (by simp)
      · rename_i rs fc₂ sm₂ hcs
        injection h with h; injection h with hns h; injection h with hfc hsm
        subst hns hfc hsm
        obtain ⟨⟨n, w₁⟩, hrecv⟩ := Option.isSome_iff_exists.mp
          (receiveChunk_returns hl (by rw [hc]; rfl))
        rcases receiveChunk_cases hrecv with ⟨hnot, _⟩ | ⟨_, hwr, hstate, _⟩
        · exact absurd hl hnot
        · rw [hc] at hwr
          injection hwr with hwr; injection hwr with hr hwr; injection hwr with hfc₁ hsm₁
          rw [hfc₁, hsm₁] at hcs
          obtain ⟨w', hrun, hcache, hstore, hl', hlast⟩ := ih (Or.inr hstate) hcs
          refine ⟨w', ?_, hcache, hstore, hl', fun _ => ?_⟩
          · rw [receiveChunks, hrecv]
            dsimp only
            rw [hrun, hr]
          · cases cs with
            | nil =>
              rw [receiveChunks] at hrun
              injection hrun with hrun; injection hrun with _ hrun
              rw [← hrun]
              exact hstate
            | cons d ds => exact hlast (by simp)

/-- Without a session the cache refuses every chunk and stays as it is. -/
theorem writeChunks_closed {fc : FirmwareCache} (h : fc.writing = false)
    (sm : StorageManager δ) : ∀ chunks : List (List UInt8),
    writeChunks fc sm chunks = some (chunks.map (fun _ => -1), fc, sm) := by
  intro chunks
  induction chunks with
  | nil => rfl
  | cons c cs ih =>
    rw [writeChunks, writeChunk_closed h]
    dsimp only
    rw [ih]
    rfl

/-! ## A recovery application -/

/-- The system as a recovery application starts: the cache configured or left as it is made. -/
structure FreshlyStarted (w : World δ) : Prop where
  idle : w.recovery.state = .idle
  cache : w.cache = {} ∨ ∃ (sm : StorageManager δ) (slotA slotB size : UInt32),
    w.cache = (({} : FirmwareCache).init sm slotA slotB size).1

/-- A cache nobody has begun to write with has no session. -/
theorem FreshlyStarted.closed {w : World δ} (h : FreshlyStarted w) : w.cache.writing = false := by
  rcases h.cache with hc | ⟨sm, slotA, slotB, size, hc⟩
  · rw [hc]
  · rw [hc]
    rfl

/-- The manager after the calls a recovery application makes. -/
def listeningOn (w : World δ) (channel : RecoveryChannel) : World δ :=
  (RecoveryManager.startDfuListener (RecoveryManager.init w channel).2).2

theorem listeningOn_cache (w : World δ) (channel : RecoveryChannel) :
    (listeningOn w channel).cache = w.cache := by
  unfold listeningOn RecoveryManager.startDfuListener
  dsimp only
  split <;> exact setState_cache _ _

theorem listeningOn_state (w : World δ) (channel : RecoveryChannel) :
    (listeningOn w channel).recovery.state = .awaitingImage := by
  unfold listeningOn RecoveryManager.startDfuListener
  dsimp only
  split <;> simp [World.setRecovery]

/--
**The image is received**: every chunk returns its length, the state moves on, and
`finalizeDfu` installs the image in the slot that was inactive.
-/
def ReceivedAlone (content : δ → Nat → UInt8) (w : World δ) (channel : RecoveryChannel)
    (chunks : List (List UInt8)) : Prop :=
  ∃ w₁ w₂, (listeningOn w channel).recovery.state = .awaitingImage
    ∧ receiveChunks (listeningOn w channel) chunks
        = some (chunks.map (fun c => (c.length : Int)), w₁)
    ∧ (chunks ≠ [] → w₁.recovery.state = .receiving)
    ∧ RecoveryManager.finalizeDfu w₁ = some (true, w₂)
    ∧ slice (content w₂.storage.device) ((w.cache.slotOffset w.cache.inactiveSlot).toNat + 4096)
        chunks.flatten.length = chunks.flatten

/-- Without a session the manager takes nothing, and nothing is written. -/
theorem receiveChunks_closed {w : World δ} (h : w.cache.writing = false)
    (channel : RecoveryChannel) (chunks : List (List UInt8)) :
    ∃ w', receiveChunks (listeningOn w channel) chunks = some (chunks.map (fun _ => -1), w')
      ∧ w'.cache = w.cache ∧ w'.storage = (listeningOn w channel).storage := by
  have hcache := listeningOn_cache w channel
  have hclosed : (listeningOn w channel).cache.writing = false := by rw [hcache]; exact h
  obtain ⟨w', hrun, hfc, hsm, _⟩ := receiveChunks_eq_writeChunks
    (Or.inl (listeningOn_state w channel))
    (writeChunks_closed hclosed (listeningOn w channel).storage chunks)
  exact ⟨w', hrun, hfc.trans hcache, hsm⟩

/-- Without a session `finalizeDfu` fails. -/
theorem finalizeDfu_closed {w w' : World δ} {ok : Bool} (h : w.cache.writing = false)
    (hfin : RecoveryManager.finalizeDfu w = some (ok, w')) : ok = false := by
  have hw : w.cache.finalizeWrite w.storage = some (false, w.cache, w.storage) := by
    simp [FirmwareCache.finalizeWrite, h]
  cases finalizeDfu_outcome hfin with
  | rejected => rfl
  | notActivated => rfl
  | installed hfin' =>
    rw [hw] at hfin'
    cases hfin'

/-- A manager whose cache has no session does not receive an image. -/
theorem not_receivedAlone_of_closed (content : δ → Nat → UInt8) {w : World δ}
    (h : w.cache.writing = false) (channel : RecoveryChannel) (chunks : List (List UInt8)) :
    ¬ ReceivedAlone content w channel chunks := by
  rintro ⟨w₁, w₂, _, hrun, _, hfin, _⟩
  obtain ⟨w', hrun', hcache, _⟩ := receiveChunks_closed h channel chunks
  rw [hrun'] at hrun
  injection hrun with hrun; injection hrun with _ hw
  have hclosed : w₁.cache.writing = false := by rw [← hw, hcache]; exact h
  exact absurd (finalizeDfu_closed hclosed hfin) (by simp)

/--
**A recovery application receives nothing.** Over any backend, on every channel and for every
split of every image, the empty one included: the calls it makes open no session, so no image
is received.
-/
theorem recovery_application_receives_nothing (content : δ → Nat → UInt8) {w : World δ}
    (h : FreshlyStarted w) (channel : RecoveryChannel) (chunks : List (List UInt8)) :
    ¬ ReceivedAlone content w channel chunks :=
  not_receivedAlone_of_closed content h.closed channel chunks

theorem freshWorld_started : FreshlyStarted freshWorld where
  idle := rfl
  cache := Or.inr ⟨testStorage, 0x1000, 0x5000, 0x4000, by decide⟩

/-- The repository's recovery application, offered one sector over WiFi. -/
theorem recovery_app_receives_nothing :
    ¬ ReceivedAlone id freshWorld .wifi [List.replicate 4096 0xAB] :=
  recovery_application_receives_nothing id freshWorld_started .wifi _

/--
**One sector into a slot of four is refused**: the flash is reliable and the image fits, but
the call returns -1.
-/
theorem sector_refused_alone :
    (memBackend 0x10000 4096).Reliable id ∧ Layout testCache (memBackend 0x10000 4096)
      ∧ FreshlyStarted freshWorld
      ∧ (receiveChunks (listeningOn freshWorld .wifi) [List.replicate 4096 0xAB]).map
          (fun t => t.1) = some [-1]
      ∧ ¬ ReceivedAlone id freshWorld .wifi [List.replicate 4096 0xAB] := by
  refine ⟨testFlash_reliable, testCache_layout rfl rfl, freshWorld_started, ?_,
    not_receivedAlone_of_closed id rfl .wifi _⟩
  obtain ⟨w', hrun, _⟩ := receiveChunks_closed (w := freshWorld) rfl .wifi
    [List.replicate 4096 0xAB]
  rw [hrun]
  rfl

end TaktOS.Proof
