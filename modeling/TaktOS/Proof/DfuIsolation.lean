import TaktOS.Proof.DfuReceive

/-!
# Whether DFU sessions are isolated

The manager holds the state, the cache the session: an abort resets the one and leaves the
other open, and starting the listener again resets neither the running CRC nor the write
offset. `DfuHistory` remembers what neither component does: which bytes the cache took, and
since when. The bytes an installed image covers are those of the cache's session, so sessions
are isolated as long as nobody listens again on a session that is not new.
-/

namespace TaktOS.Proof

open Lib

variable {δ : Type}

/-! ## Runs that remember what was taken -/

instance (w : World δ) : Decidable (Listening w) := inferInstanceAs (Decidable (_ ∨ _))

/-- The cache takes the chunk into flash. -/
def takes (w : World δ) (data : List UInt8) : Bool :=
  match w.storage.write (chunkOffset w.cache) data with
  | some (k, _) => decide (Listening w) && w.cache.writing && decide (0 ≤ k)
  | none => false

/-- The system, with the bytes the cache took since three events. -/
structure DfuHistory (δ : Type) where
  world : World δ
  /-- Since the listener was last started. -/
  listened : List UInt8 := []
  /-- Since the cache last opened a session. -/
  session : List UInt8 := []
  /-- Since the cache last opened a session, or an abort after that. -/
  fresh : List UInt8 := []
  /-- There was an abort since the cache last opened a session. -/
  aborted : Bool := false

namespace DfuHistory

def take (s : DfuHistory δ) (data : List UInt8) : DfuHistory δ :=
  { s with
    listened := s.listened ++ data, session := s.session ++ data, fresh := s.fresh ++ data }

/-- What a call adds to the history. -/
def record (s : DfuHistory δ) : WorldOp → DfuHistory δ
  | .startUpdate _ imageSize version =>
    -- a session opens, and the listener starts, only if the size is accepted
    if (s.world.cache.beginWrite imageSize version).1 then { world := s.world } else s
  | .startDfuListener => { s with listened := [] }
  | .feedChunk data => if s.world.ota.active && takes s.world data then s.take data else s
  | .receiveChunk data => if takes s.world data then s.take data else s
  | .abort => { s with fresh := [], aborted := true }
  | .shutdown => { s with fresh := [], aborted := true }
  | _ => s

end DfuHistory

def historyStep (s : DfuHistory δ) (op : WorldOp) : Option (DfuHistory δ) :=
  (worldStep s.world op).map fun w => { s.record op with world := w }

/-- The header of the active slot gives the CRC and the length of these bytes. -/
def Covers (content : δ → Nat → UInt8) (w : World δ) (bytes : List UInt8) : Prop :=
  (storedHeader (content w.storage.device) (w.cache.slotOffset w.cache.activeSlot)).crc32
      = Crc32.compute bytes
    ∧ (storedHeader (content w.storage.device)
        (w.cache.slotOffset w.cache.activeSlot)).size.toNat = bytes.length

instance (content : δ → Nat → UInt8) (w : World δ) (bytes : List UInt8) :
    Decidable (Covers content w bytes) := inferInstanceAs (Decidable (_ ∧ _))

/-- If this returned true, the image covers what was taken since the listener started, and
nothing from before an abort or from another session. -/
def InstallsOwn (content : δ → Nat → UInt8) (s : DfuHistory δ) :
    Option (Bool × World δ) → Prop
  | some (true, w') => Covers content w' s.listened ∧ Covers content w' s.fresh
  | _ => True

/-- **The call respects the sessions.** -/
def Isolated (content : δ → Nat → UInt8) (s : DfuHistory δ) : WorldOp → Prop
  | .feedChunk data => s.aborted = true → ¬ (s.world.ota.active && takes s.world data) = true
  | .receiveChunk data => s.aborted = true → ¬ takes s.world data = true
  | .finalizeDfu => InstallsOwn content s (RecoveryManager.finalizeDfu s.world)
  | .completeUpdate => InstallsOwn content s (OtaService.completeUpdate s.world)
  | _ => True

instance (content : δ → Nat → UInt8) (s : DfuHistory δ) (r : Option (Bool × World δ)) :
    Decidable (InstallsOwn content s r) := by
  unfold InstallsOwn
  split <;> infer_instance

instance (content : δ → Nat → UInt8) (s : DfuHistory δ) (op : WorldOp) :
    Decidable (Isolated content s op) := by
  unfold Isolated
  split <;> infer_instance

/-! ## The condition -/

/-- The write succeeds, if it returns. -/
def Succeeds (r : Option (Int × StorageManager δ)) : Prop :=
  match r with
  | some (k, _) => 0 ≤ k
  | none => True

instance (r : Option (Int × StorageManager δ)) : Decidable (Succeeds r) := by
  unfold Succeeds
  split <;> infer_instance

/-- The header write that closes the cache's session. -/
def headerWrite (w : World δ) : Option (Int × StorageManager δ) :=
  w.storage.write (w.cache.slotOffset w.cache.inactiveSlot)
    (w.cache.sessionHeader w.cache.inactiveSlot).toBytes

/-- The header write of the activation that follows it, on the storage `verify` leaves. -/
def bootableWrite (fc : FirmwareCache) (sm : StorageManager δ) (slot : UInt8) :
    Option (Int × StorageManager δ) :=
  let (_, hdr, sm) := fc.getHeader (fc.verify sm slot).2 slot {}
  sm.write (fc.slotOffset slot) (bootable hdr).toBytes

/--
Closing the session leaves no image that verifies; or the two header writes succeed, nothing
was taken before an abort, and as many bytes were taken as the session announced.
-/
def ClosesOwn (b : FlashBackend δ) (content : δ → Nat → UInt8) (s : DfuHistory δ) : Prop :=
  let fc := s.world.cache
  match headerWrite s.world with
  | none => True
  | some (k, sm) =>
    Verifies b.totalSize.toNat (content sm.device) (fc.slotOffset fc.inactiveSlot) →
      0 ≤ k
        ∧ Succeeds (bootableWrite (closed fc) (fc.verify sm fc.inactiveSlot).2 fc.inactiveSlot)
        ∧ (s.aborted = true → s.session = [])
        ∧ s.session.length = fc.writeImageSize.toNat

instance (b : FlashBackend δ) (content : δ → Nat → UInt8) (s : DfuHistory δ) :
    Decidable (ClosesOwn b content s) := by
  unfold ClosesOwn
  dsimp only
  split <;> infer_instance

/-- The listener starts on no session that is not new, and no foreign one is finalized. -/
def OwnSession (b : FlashBackend δ) (content : δ → Nat → UInt8) (s : DfuHistory δ) :
    WorldOp → Prop
  | .startDfuListener =>
    s.world.cache.writing = true → s.session = [] ∧ s.aborted = false
  | .finalizeDfu => s.world.cache.writing = true → ClosesOwn b content s
  | .completeUpdate =>
    s.world.ota.active = true → s.world.cache.writing = true → ClosesOwn b content s
  | _ => True

instance (b : FlashBackend δ) (content : δ → Nat → UInt8) (s : DfuHistory δ) (op : WorldOp) :
    Decidable (OwnSession b content s op) := by
  unfold OwnSession
  split <;> infer_instance

/-! ## What the calls do to the cache's session -/

/-- The session is as it was, and the manager did not start to listen. -/
structure SameSession (w w' : World δ) : Prop where
  backend : w'.storage.backend = w.storage.backend
  writing : w'.cache.writing = w.cache.writing
  writeCrc : w'.cache.writeCrc = w.cache.writeCrc
  listening : Listening w' → Listening w

theorem SameSession.refl (w : World δ) : SameSession w w := ⟨rfl, rfl, rfl, id⟩

/-- Neither an activation nor a rollback of the cache touches its session. -/
theorem activateSlot_session {fc fc' : FirmwareCache} {sm sm' : StorageManager δ} {slot : UInt8}
    {ok : Bool} (h : fc.activateSlot sm slot = some (ok, fc', sm')) :
    fc'.writing = fc.writing ∧ fc'.writeCrc = fc.writeCrc := by
  rcases activateSlot_cases h with ⟨_, _, hfc, _⟩ | ⟨_, _, _, hfc, _⟩ | ⟨_, _, _, hfc, _⟩
    <;> rw [hfc] <;> exact ⟨rfl, rfl⟩

theorem rollback_session {fc fc' : FirmwareCache} {sm sm' : StorageManager δ}
    {ok : Bool} (h : fc.rollback sm = some (ok, fc', sm')) :
    fc'.writing = fc.writing ∧ fc'.writeCrc = fc.writeCrc := by
  rcases rollback_cases h with ⟨_, _, hfc, _⟩ | ⟨_, hact⟩
  · rw [hfc]
    exact ⟨rfl, rfl⟩
  · exact activateSlot_session hact

theorem recoveryRollback_session {w w' : World δ} {ok : Bool}
    (h : RecoveryManager.rollback w = some (ok, w')) : SameSession w w' := by
  obtain ⟨cache, storage, hroll, rfl⟩ := managerRollback_cases h
  obtain ⟨hw, hcrc⟩ := rollback_session hroll
  have hframe := (rollback_frame hroll).backend
  cases ok with
  | false =>
    exact ⟨by simpa using hframe, by simpa using hw, by simpa using hcrc, by simp [Listening]⟩
  | true =>
    exact ⟨by simpa [World.publish] using hframe, by simpa [World.publish] using hw,
      by simpa [World.publish] using hcrc, by simp [Listening, World.publish]⟩

theorem otaRollback_session {w w' : World δ} {ok : Bool}
    (h : OtaService.rollback w = some (ok, w')) : SameSession w w' := by
  obtain ⟨cache, storage, hroll, rfl⟩ := serviceRollback_cases h
  obtain ⟨hw, hcrc⟩ := rollback_session hroll
  exact ⟨(rollback_frame hroll).backend, hw, hcrc, id⟩

/-- The manager listens no more after an abort; the session stays. -/
theorem abort_session (w : World δ) :
    SameSession w (RecoveryManager.abort w) ∧ ¬ Listening (RecoveryManager.abort w) := by
  have hnot : ¬ Listening (RecoveryManager.abort w) := by
    simp [Listening, RecoveryManager.abort, World.setRecovery]
  refine ⟨⟨?_, ?_, ?_, fun hl => absurd hl hnot⟩, hnot⟩ <;>
    simp [RecoveryManager.abort, World.setRecovery]

/-- Finalizing leaves no session, whatever it returns. -/
theorem finalizeDfu_closes {w w' : World δ} {ok : Bool}
    (h : RecoveryManager.finalizeDfu w = some (ok, w')) :
    w'.storage.backend = w.storage.backend ∧ w'.cache.writing = false := by
  have hclosed : ∀ {fc fc' : FirmwareCache} {sm sm' : StorageManager δ} {ok : Bool},
      fc.finalizeWrite sm = some (ok, fc', sm') → fc'.writing = false := by
    intro fc fc' sm sm' ok hfin
    rcases finalizeWrite_cases hfin with ⟨hw, _, hfc, _⟩ | ⟨_, hfc, _⟩
    · rw [hfc]; exact hw
    · rw [hfc]; rfl
  cases finalizeDfu_outcome h with
  | rejected hfin => exact ⟨(finalizeWrite_frame hfin).backend, hclosed hfin⟩
  | notActivated hfin hact =>
    exact ⟨((finalizeWrite_frame hfin).trans (activateSlot_frame hact)).backend,
      (activateSlot_session hact).1.trans (hclosed hfin)⟩
  | installed hfin hact =>
    exact ⟨((finalizeWrite_frame hfin).trans (activateSlot_frame hact)).backend,
      (activateSlot_session hact).1.trans (hclosed hfin)⟩

/-- The service passes a finalization on, or does nothing. -/
theorem completeUpdate_cases {w w' : World δ} {ok : Bool}
    (h : OtaService.completeUpdate w = some (ok, w')) :
    (w.ota.active = false ∧ ok = false ∧ w' = w)
      ∨ (w.ota.active = true ∧ ∃ w₁, RecoveryManager.finalizeDfu w = some (ok, w₁)
        ∧ w'.cache = w₁.cache ∧ w'.storage = w₁.storage ∧ w'.recovery = w₁.recovery) := by
  unfold OtaService.completeUpdate at h
  cases ha : w.ota.active with
  | false =>
    simp only [ha, Bool.not_false, if_true] at h
    injection h with h; injection h with hok h
    exact Or.inl ⟨rfl, hok.symm, h.symm⟩
  | true =>
    simp only [ha, Bool.not_true, Bool.false_eq_true, if_false] at h
    refine Or.inr ⟨rfl, ?_⟩
    split at h
    · exact absurd h (by simp)
    · rename_i w₁ hfin
      injection h with h; injection h with hok h
      exact ⟨w₁, hok ▸ hfin, by rw [← h]; rfl, by rw [← h]; rfl, by rw [← h]; rfl⟩
    · rename_i w₁ hfin
      injection h with h; injection h with hok h
      exact ⟨w₁, hok ▸ hfin, by rw [← h]; rfl, by rw [← h]; rfl, by rw [← h]; rfl⟩

/-- A chunk is taken, or the session stays as it is. -/
theorem receiveChunk_session {w w' : World δ} {data : List UInt8} {n : Int}
    (h : RecoveryManager.receiveChunk w data = some (n, w')) :
    (takes w data = true ∧ Listening w ∧ w.cache.writing = true
        ∧ w'.storage.backend = w.storage.backend ∧ w'.cache = accepted w.cache data)
      ∨ (takes w data = false ∧ SameSession w w') := by
  rcases receiveChunk_cases h with ⟨hnot, _, hw⟩ | ⟨hl, hwr, hstate, _⟩
  · refine Or.inr ⟨?_, hw ▸ SameSession.refl w⟩
    unfold takes
    split <;> simp [hnot]
  · have hback := (writeChunk_frame hwr).backend
    rcases writeChunk_cases hwr with ⟨hclosed, _, hfc, _⟩ | ⟨hopen, k, hs, ⟨hk, _, hfc⟩
      | ⟨hk, _, hfc⟩⟩
    · refine Or.inr ⟨?_, hback, by rw [hfc], by rw [hfc], fun _ => hl⟩
      unfold takes
      split <;> simp [hclosed]
    · exact Or.inr ⟨by simp [takes, hs, hk], hback, by rw [hfc], by rw [hfc], fun _ => hl⟩
    · exact Or.inl ⟨by simp [takes, hs, hk, hl, hopen], hl, hopen, hback, hfc⟩

/-- The service passes a chunk on, or does nothing. -/
theorem feedChunk_cases {w w' : World δ} {data : List UInt8} {n : Int}
    (h : OtaService.feedChunk w data = some (n, w')) :
    (w.ota.active = false ∧ w' = w)
      ∨ (w.ota.active = true ∧ ∃ w₁, RecoveryManager.receiveChunk w data = some (n, w₁)
        ∧ w'.cache = w₁.cache ∧ w'.storage = w₁.storage ∧ w'.recovery = w₁.recovery) := by
  unfold OtaService.feedChunk at h
  cases ha : w.ota.active with
  | false =>
    simp only [ha, Bool.not_false, if_true] at h
    injection h with h; injection h with _ h
    exact Or.inl ⟨rfl, h.symm⟩
  | true =>
    simp only [ha, Bool.not_true, Bool.false_eq_true, if_false] at h
    refine Or.inr ⟨rfl, ?_⟩
    split at h
    · exact absurd h (by simp)
    · rename_i k w₁ hrecv
      -- the service's own totals are all that a chunk that counts adds
      split at h
      · injection h with h; injection h with hn h
        subst hn h
        exact ⟨w₁, hrecv, rfl, rfl, rfl⟩
      · injection h with h; injection h with hn h
        subst hn h
        exact ⟨w₁, hrecv, rfl, rfl, rfl⟩

/-! ## The invariant -/

/-- The cache's session, in terms of the history. -/
structure Traced (s : DfuHistory δ) : Prop where
  writeCrc : s.world.cache.writeCrc = Crc32.update Crc32.initial s.session
  listened : s.listened = s.session
  fresh : s.aborted = false → s.fresh = s.session
  /-- An aborted session has taken nothing since, and will not. -/
  aborted : s.aborted = true → s.fresh = [] ∧ ¬ Listening s.world

structure HistoryInv (b : FlashBackend δ) (s : DfuHistory δ) : Prop where
  backend : s.world.storage.backend = some b
  traced : s.world.cache.writing = true → Traced s

variable {b : FlashBackend δ} {content : δ → Nat → UInt8} {s s' : DfuHistory δ}

/-- A call that leaves the session alone, and the history. -/
theorem HistoryInv.same (hi : HistoryInv b s) {w' : World δ} (h : SameSession s.world w') :
    HistoryInv b { s with world := w' } := by
  refine ⟨h.backend.trans hi.backend, fun hw => ?_⟩
  have ht := hi.traced (h.writing.symm.trans hw)
  exact ⟨h.writeCrc.trans ht.writeCrc, ht.listened, ht.fresh,
    fun ha => ⟨(ht.aborted ha).1, fun hl => (ht.aborted ha).2 (h.listening hl)⟩⟩

theorem HistoryInv.closed (hi : HistoryInv b s) {w' : World δ}
    (hb : w'.storage.backend = s.world.storage.backend) (hw : w'.cache.writing = false) :
    HistoryInv b { s with world := w' } :=
  ⟨hb.trans hi.backend, fun hopen => absurd (hw.symm.trans hopen) (by simp)⟩

/-- A chunk taken is added to the session; an aborted one would not have been listening. -/
theorem HistoryInv.took (hi : HistoryInv b s) {w' : World δ} {data : List UInt8}
    (hl : Listening s.world) (hw : s.world.cache.writing = true)
    (hb : w'.storage.backend = s.world.storage.backend)
    (hfc : w'.cache = accepted s.world.cache data) :
    HistoryInv b { s.take data with world := w' } := by
  have ht := hi.traced hw
  have hna : s.aborted = false := by
    cases ha : s.aborted with
    | false => rfl
    | true => exact absurd hl (ht.aborted ha).2
  refine ⟨hb.trans hi.backend, fun _ => ⟨?_, ?_, ?_, ?_⟩⟩
  · show w'.cache.writeCrc = Crc32.update Crc32.initial (s.session ++ data)
    rw [hfc, Crc32.update_append, ← ht.writeCrc]
    rfl
  · exact congrArg (fun bytes => bytes ++ data) ht.listened
  · exact fun _ => congrArg (fun bytes => bytes ++ data) (ht.fresh hna)
  · exact fun ha => absurd (hna.symm.trans ha) (by simp)

/-- After an abort the session has nothing of its own, and nobody listens. -/
theorem HistoryInv.abort (hi : HistoryInv b s) {w' : World δ} (h : SameSession s.world w')
    (hnot : ¬ Listening w') :
    HistoryInv b { s with world := w', fresh := [], aborted := true } := by
  refine ⟨h.backend.trans hi.backend, fun hw => ?_⟩
  have ht := hi.traced (h.writing.symm.trans hw)
  exact ⟨h.writeCrc.trans ht.writeCrc, ht.listened, fun ha => absurd ha (by simp),
    fun _ => ⟨rfl, hnot⟩⟩

theorem startDfuListener_session (w : World δ) :
    (RecoveryManager.startDfuListener w).2.cache = w.cache
      ∧ (RecoveryManager.startDfuListener w).2.storage = w.storage := by
  unfold RecoveryManager.startDfuListener
  dsimp only
  split <;> exact ⟨setState_cache _ _, setState_storage _ _⟩

/-- A refused update leaves the session; an accepted one opens a new one. -/
theorem startUpdate_session (w : World δ) (transport : OtaTransport)
    (imageSize version : UInt32) :
    ((w.cache.beginWrite imageSize version).1 = false
        ∧ SameSession w (OtaService.startUpdate w transport imageSize version).2)
      ∨ ((w.cache.beginWrite imageSize version).1 = true
        ∧ (OtaService.startUpdate w transport imageSize version).2.cache
          = opened w.cache imageSize version
        ∧ (OtaService.startUpdate w transport imageSize version).2.storage = w.storage) := by
  unfold OtaService.startUpdate
  dsimp only
  rcases beginWrite_cases w.cache imageSize version with ⟨_, hb⟩ | ⟨_, hb⟩
  · refine Or.inl ⟨by rw [hb], ?_⟩
    simp only [World.setOta, World.setRecovery, RecoveryManager.init, hb]
    exact ⟨rfl, rfl, rfl, id⟩
  · refine Or.inr ⟨by rw [hb], ?_⟩
    simp only [World.setOta, World.setRecovery, RecoveryManager.init, hb]
    exact startDfuListener_session _

/-- **Every call keeps the invariant**, if the listener starts on new sessions only. -/
theorem historyInv_step {op : WorldOp} (hi : HistoryInv b s) (hc : OwnSession b content s op)
    (h : historyStep s op = some s') : HistoryInv b s' := by
  obtain ⟨w', hw, rfl⟩ := Option.map_eq_some_iff.mp h
  cases op with
  | startUpdate transport imageSize version =>
    cases hw
    rcases startUpdate_session s.world transport imageSize version with
      ⟨hno, hsame⟩ | ⟨hyes, hcache, hstore⟩
    · simp only [DfuHistory.record, hno, Bool.false_eq_true, if_false]
      exact hi.same hsame
    · simp only [DfuHistory.record, hyes, if_true]
      refine ⟨by rw [hstore]; exact hi.backend, fun _ => ⟨?_, rfl, fun _ => rfl, ?_⟩⟩
      · rw [hcache]
        rfl
      · exact fun ha => absurd ha (by simp)
  | feedChunk data =>
    obtain ⟨⟨n, w₁⟩, hcall, rfl⟩ := Option.map_eq_some_iff.mp hw
    rcases feedChunk_cases hcall with ⟨hina, hw₁⟩ | ⟨hact, w₂, hrecv, hcache, hstore, hrec⟩
    · simp only [DfuHistory.record, hina, Bool.false_and, Bool.false_eq_true, if_false]
      exact hi.same (hw₁ ▸ SameSession.refl _)
    · rcases receiveChunk_session hrecv with ⟨ht, hl, hopen, hb, hfc⟩ | ⟨ht, hsame⟩
      · simp only [DfuHistory.record, hact, ht, Bool.and_self, if_true]
        exact hi.took hl hopen (by rw [hstore]; exact hb) (hcache.trans hfc)
      · simp only [DfuHistory.record, hact, ht, Bool.and_false, Bool.false_eq_true, if_false]
        refine hi.same ⟨by rw [hstore]; exact hsame.backend, by rw [hcache]; exact hsame.writing,
          by rw [hcache]; exact hsame.writeCrc, fun hl => hsame.listening ?_⟩
        unfold Listening at hl ⊢
        rwa [hrec] at hl
  | completeUpdate =>
    obtain ⟨⟨ok, w₁⟩, hcall, rfl⟩ := Option.map_eq_some_iff.mp hw
    rcases completeUpdate_cases hcall with ⟨_, _, hw₁⟩ | ⟨_, w₂, hfin, hcache, hstore, _⟩
    · exact hi.same (hw₁ ▸ SameSession.refl _)
    · obtain ⟨hb, hclosed⟩ := finalizeDfu_closes hfin
      exact hi.closed (by rw [hstore]; exact hb) (by rw [hcache]; exact hclosed)
  | otaRollback =>
    obtain ⟨⟨ok, w₁⟩, hcall, rfl⟩ := Option.map_eq_some_iff.mp hw
    exact hi.same (otaRollback_session hcall)
  | shutdown =>
    cases hw
    obtain ⟨hsame, hnot⟩ := abort_session (s.world.setOta fun ota => { ota with active := false })
    exact hi.abort ⟨hsame.backend, hsame.writing, hsame.writeCrc, fun hl => absurd hl hnot⟩ hnot
  | recoveryInit channel =>
    cases hw
    exact hi.same ⟨rfl, rfl, rfl, id⟩
  | startDfuListener =>
    cases hw
    obtain ⟨hcache, hstore⟩ := startDfuListener_session s.world
    refine ⟨by dsimp only; rw [hstore]; exact hi.backend, fun hopen => ?_⟩
    dsimp only at hopen
    rw [hcache] at hopen
    obtain ⟨hnew, hna⟩ := hc hopen
    have ht := hi.traced hopen
    refine ⟨?_, hnew.symm, fun _ => ht.fresh hna, fun ha => absurd (hna.symm.trans ha) (by simp)⟩
    dsimp only [DfuHistory.record]
    rw [hcache]
    exact ht.writeCrc
  | receiveChunk data =>
    obtain ⟨⟨n, w₁⟩, hcall, rfl⟩ := Option.map_eq_some_iff.mp hw
    rcases receiveChunk_session hcall with ⟨ht, hl, hopen, hb, hfc⟩ | ⟨ht, hsame⟩
    · simp only [DfuHistory.record, ht, if_true]
      exact hi.took hl hopen hb hfc
    · simp only [DfuHistory.record, ht, Bool.false_eq_true, if_false]
      exact hi.same hsame
  | finalizeDfu =>
    obtain ⟨⟨ok, w₁⟩, hcall, rfl⟩ := Option.map_eq_some_iff.mp hw
    obtain ⟨hb, hclosed⟩ := finalizeDfu_closes hcall
    exact hi.closed hb hclosed
  | recoveryRollback =>
    obtain ⟨⟨ok, w₁⟩, hcall, rfl⟩ := Option.map_eq_some_iff.mp hw
    exact hi.same (recoveryRollback_session hcall)
  | abort =>
    cases hw
    obtain ⟨hsame, hnot⟩ := abort_session s.world
    exact hi.abort hsame hnot
  | tick =>
    cases hw
    dsimp only [DfuHistory.record]
    rw [tick_eq]
    exact hi
  | markBootSuccessful =>
    cases hw
    exact hi.same ⟨rfl, rfl, rfl, id⟩

/-! ## What an installed image covers -/

/-- A header write that succeeds stores the header. -/
theorem storedHeader_of_write (hr : b.Truthful content) {sm sm' : StorageManager δ}
    (hb : sm.backend = some b) {off : UInt32} {hdr : FirmwareHeader} {k : Int}
    (h : sm.write off hdr.toBytes = some (k, sm')) (hk : 0 ≤ k) :
    storedHeader (content sm'.device) off = hdr := by
  have hslice := write_stored hb hr h hk
  rw [FirmwareHeader.length_toBytes] at hslice
  rw [storedHeader, show headerSize = 24 from rfl, hslice, FirmwareHeader.ofBytes_toBytes]

/-- The header written back by an activation is the one stored, marked bootable. -/
theorem storedHeader_of_activation (hr : b.Truthful content) {fc fc' : FirmwareCache}
    {sm sm' : StorageManager δ} (hb : sm.backend = some b) {slot : UInt8}
    (h : fc.activateSlot sm slot = some (true, fc', sm'))
    (hk : Succeeds (bootableWrite fc sm slot)) :
    fc' = { fc with activeSlot := slot }
      ∧ storedHeader (content sm'.device) (fc.slotOffset slot)
        = bootable (storedHeader (content sm.device) (fc.slotOffset slot)) := by
  rcases activateSlot_cases h with ⟨_, hok, _⟩ | ⟨_, _, hok, _⟩ | ⟨hle, hv, _, hfc, k, hwr⟩
  · exact absurd hok (by simp)
  · exact absurd hok (by simp)
  · rw [show bootableWrite fc sm slot = some (k, sm') from hwr] at hk
    obtain ⟨d, hd, hcont⟩ := verify_after sm
      (readKeeps_content hb hr.toReadable (content sm.device)) rfl fc slot
    have hin := ((verify_iff sm hb hr.toReadable fc hle).mp hv).1.1
    rw [hd] at hwr
    obtain ⟨d', hd', _⟩ := getHeader_after { sm with device := d }
      (readKeeps_content hb hr.toReadable (content sm.device)) hcont fc slot {}
    have hread := getHeader_header { sm with device := d } hb hr.toReadable fc hle {} hin
    rw [hread, hd', hcont] at hwr
    have hbackend : { sm with device := d' }.backend = some b := hb
    exact ⟨hfc, storedHeader_of_write hr hbackend hwr hk⟩

/-- **What is installed covers the session**, and nothing of it was aborted. -/
theorem finalizeDfu_covers (hr : b.Truthful content) (hi : HistoryInv b s)
    (hc : s.world.cache.writing = true → ClosesOwn b content s) {w' : World δ}
    (h : RecoveryManager.finalizeDfu s.world = some (true, w')) :
    Covers content w' s.listened ∧ Covers content w' s.fresh := by
  cases finalizeDfu_outcome h with
  | installed hfin hact =>
    rcases finalizeWrite_cases hfin with ⟨_, hok, _⟩ | ⟨hw, hfc, k, sm₁, hwr, hok, hsm⟩
    · exact absurd hok (by simp)
    · have ht := hi.traced hw
      obtain ⟨d₁, hd₁⟩ := write_frame hwr
      have hb₁ : sm₁.backend = some b := by rw [hd₁]; exact hi.backend
      have hver := (verify_iff sm₁ hb₁ hr.toReadable s.world.cache (inactiveSlot_le _)).mp hok.symm
      have hclose := hc hw
      unfold ClosesOwn at hclose
      rw [show headerWrite s.world = some (k, sm₁) from hwr] at hclose
      obtain ⟨hk, hsucc, hab, hlen⟩ := hclose hver
      -- between the two header writes the flash is only read
      obtain ⟨d₂, hd₂, hcont⟩ := verify_after sm₁
        (readKeeps_content hb₁ hr.toReadable (content sm₁.device)) rfl s.world.cache
        s.world.cache.inactiveSlot
      rw [hfc, hsm] at hact
      have hb₂ : (s.world.cache.verify sm₁ s.world.cache.inactiveSlot).2.backend = some b := by
        rw [hd₂]; exact hb₁
      obtain ⟨hcache, hstored⟩ := storedHeader_of_activation hr hb₂ hact hsucc
      have hhdr : storedHeader (content w'.storage.device) (w'.cache.slotOffset w'.cache.activeSlot)
          = bootable (s.world.cache.sessionHeader s.world.cache.inactiveSlot) := by
        rw [hcache]
        refine hstored.trans (congrArg bootable ?_)
        rw [hd₂]
        dsimp only
        rw [hcont]
        exact storedHeader_of_write hr hi.backend hwr hk
      have hcov : Covers content w' s.session := by
        unfold Covers
        rw [hhdr]
        exact ⟨congrArg Crc32.finalize ht.writeCrc, hlen.symm⟩
      refine ⟨ht.listened ▸ hcov, ?_⟩
      cases ha : s.aborted with
      | false => rw [ht.fresh ha]; exact hcov
      | true => rw [(ht.aborted ha).1, ← hab ha]; exact hcov

/-- A call made on the session it belongs to respects it. -/
theorem isolated_of_inv {op : WorldOp} (hr : b.Truthful content) (hi : HistoryInv b s)
    (hc : OwnSession b content s op) : Isolated content s op := by
  -- only an open session takes anything, and an aborted one has nobody listening
  have hnone : ∀ data, s.aborted = true → takes s.world data = false := by
    intro data ha
    unfold takes
    split
    · cases hw : s.world.cache.writing with
      | false => simp
      | true => simp [((hi.traced hw).aborted ha).2]
    · rfl
  cases op with
  | feedChunk data =>
    intro ha ht
    rw [hnone data ha, Bool.and_false] at ht
    exact absurd ht (by simp)
  | receiveChunk data =>
    intro ha ht
    rw [hnone data ha] at ht
    exact absurd ht (by simp)
  | finalizeDfu =>
    show InstallsOwn content s (RecoveryManager.finalizeDfu s.world)
    unfold InstallsOwn
    split
    · rename_i w' hfin
      exact finalizeDfu_covers hr hi hc hfin
    · trivial
  | completeUpdate =>
    show InstallsOwn content s (OtaService.completeUpdate s.world)
    unfold InstallsOwn
    split
    · rename_i w' hcall
      rcases completeUpdate_cases hcall with ⟨_, hok, _⟩ | ⟨hact, w₁, hfin, hcache, hstore, _⟩
      · exact absurd hok (by simp)
      · have hcov := finalizeDfu_covers hr hi (hc hact) hfin
        unfold Covers at hcov ⊢
        rw [hcache, hstore]
        exact hcov
    · trivial
  | _ => trivial

/-! ## The theorem -/

/--
**DFU sessions are isolated unless the listener starts on an old one.** Over any backend whose
reads deliver the content and whose successful writes are stored, from any system with no open
session: in a run in which the listener is not started directly on an open session that took
bytes or was aborted, and finalizing finds no image that verifies unless its header writes
succeed, it took as many bytes as announced and none before an abort, every image installed
covers exactly what was taken since the listener started, and after an abort nothing is taken
until a session is opened.
-/
theorem sessions_isolated (hr : b.Truthful content) {ops : List WorldOp}
    (hb : s.world.storage.backend = some b) (hw : s.world.cache.writing = false)
    (hc : Along historyStep (OwnSession b content) s ops) :
    Along historyStep (Isolated content) s ops :=
  along_of_invariant (HistoryInv b) (fun _ _ _ hi hc h => historyInv_step hi hc h)
    (fun _ _ hi hc => isolated_of_inv hr hi hc)
    ⟨hb, fun h => absurd (hw.symm.trans h) (by simp)⟩ hc

/-- An update, aborted and sent again, is isolated. -/
theorem sessions_isolated_resent :
    Along historyStep (Isolated id) { world := freshWorld }
      [.startUpdate .wifi 2 7, .feedChunk [3, 4], .abort, .startUpdate .ble 2 8,
        .startDfuListener, .receiveChunk [5, 6], .completeUpdate] :=
  sessions_isolated (memBackend_truthful 0x10000 4096) rfl rfl (by decide +kernel)

/--
**Listening again after an abort continues the aborted session**: the chunk is taken into flash,
and the image installed covers the byte from before the abort as well.
-/
theorem aborted_session_continued :
    ¬ Along historyStep (Isolated id) { world := freshWorld }
        [.startUpdate .wifi 2 7, .feedChunk [0xFF], .abort, .startDfuListener,
          .receiveChunk [4]]
      ∧ ∃ s, run historyStep { world := freshWorld }
          [.startUpdate .wifi 2 7, .feedChunk [0xFF], .abort, .startDfuListener,
            .receiveChunk [4]] = some s
        ∧ s.listened = [4] ∧ ¬ Isolated id s .finalizeDfu := by
  refine ⟨by decide, ?_⟩
  have hend : (run historyStep { world := freshWorld }
      [.startUpdate .wifi 2 7, .feedChunk [0xFF], .abort, .startDfuListener,
        .receiveChunk [4]]).map (fun s => (s.listened, decide (Isolated id s .finalizeDfu)))
      = some ([4], false) := by decide +kernel
  obtain ⟨s, hs, hres⟩ := Option.map_eq_some_iff.mp hend
  simp only [Prod.mk.injEq, decide_eq_false_iff_not] at hres
  exact ⟨s, hs, hres.1, hres.2⟩

end TaktOS.Proof
