import TaktOS.Proof.DfuIsolation

/-!
# What an update session reports of its progress

The manager counts the bytes and the service copies the manager's counter, then adds the
chunk once more. The manager's total is set by nobody, its counter is cleared only by an
abort, and each chunk is announced by both of them.
-/

namespace TaktOS.Proof

open Lib

variable {δ : Type}

/-! ## Sessions and their reports -/

/-- The bytes of a chunk that the cache takes into flash. -/
def bytesTaken (w : World δ) (data : List UInt8) : Nat :=
  if w.ota.active && takes w data then data.length else 0

/-- A session of the service, with the bytes that were taken in it. -/
structure UpdateSession (δ : Type) where
  world : World δ
  accepted : Nat := 0

def feedStep (s : UpdateSession δ) (data : List UInt8) : Option (UpdateSession δ) :=
  (OtaService.feedChunk s.world data).map fun (_, w) =>
    { world := w, accepted := s.accepted + bytesTaken s.world data }

/-- What progress callbacks and events report: bytes received, and of how many. -/
def reports (ns : List Notice) : List (UInt32 × UInt32) :=
  ns.filterMap fun
    | .published .otaProgress rx total => some (rx, total)
    | .otaProgress rx total => some (rx, total)
    | _ => none

/-- The `OtaProgress` events among the notices. -/
def progressEvents (ns : List Notice) : Nat :=
  ns.countP fun
    | .published .otaProgress _ _ => true
    | _ => false

/--
**The progress is accounted exactly** from `w` to `w'`: both counters are at `now`, every report
gives the number at its time of `imageSize`, and a chunk with bytes is announced once.
-/
structure Accounted (imageSize : UInt32) (w w' : World δ) (before now : Nat) : Prop where
  manager : w'.recovery.received.toNat = now
  service : w'.ota.received.toNat = now
  reported : ∃ new, w'.notices = new ++ w.notices
    ∧ (∀ r ∈ reports new, (r.1.toNat = before ∨ r.1.toNat = now) ∧ r.2 = imageSize)
    ∧ (before < now → progressEvents new = 1)

/-- If feeding the chunk returns, the progress is accounted exactly. -/
def ChunkAccounted (imageSize : UInt32) (s : UpdateSession δ) (data : List UInt8) : Prop :=
  ∀ s', feedStep s data = some s' →
    Accounted imageSize s.world s'.world s.accepted s'.accepted

/-- **The session that `startUpdate` opened, from `w₀` to `w₁`, is accounted exactly.** -/
def SessionAccounted (imageSize : UInt32) (w₀ w₁ : World δ) (chunks : List (List UInt8)) :
    Prop :=
  Accounted imageSize w₀ w₁ 0 0
    ∧ Along feedStep (ChunkAccounted imageSize) { world := w₁ } chunks

/-! ## What the progress lambda does -/

/-- The notices of one call of the service's lambda. -/
def progressNotices (cb : Bool) (rx total : UInt32) : List Notice :=
  .published .otaProgress rx total :: if cb then [.otaProgress rx total] else []

theorem reports_progressNotices (cb : Bool) (rx total : UInt32) {r : UInt32 × UInt32} :
    r ∈ reports (progressNotices cb rx total) ↔ r = (rx, total) := by
  cases cb <;> simp [progressNotices, reports]

/-- The lambda copies the manager's totals and reports them. -/
theorem notifyProgress_session {w : World δ} (hcb : w.recovery.progressCb = .otaService) :
    RecoveryManager.notifyProgress w
      = { w with
          ota := { w.ota with
            received := w.recovery.received, totalSize := w.recovery.totalSize }
          notices := progressNotices w.ota.progressCb w.recovery.received w.recovery.totalSize
            ++ w.notices } := by
  unfold RecoveryManager.notifyProgress
  simp only [World.setOta, hcb]
  by_cases hset : w.ota.progressCb = true <;>
    simp [hset, World.publish, progressNotices]

theorem setState_session {w : World δ} (hcb : w.recovery.progressCb = .otaService)
    (s : DfuState) :
    RecoveryManager.setState w s
      = { w with
          recovery := { w.recovery with state := s }
          ota := { w.ota with
            received := w.recovery.received, totalSize := w.recovery.totalSize }
          notices := progressNotices w.ota.progressCb w.recovery.received w.recovery.totalSize
            ++ w.notices } :=
  notifyProgress_session (w := w.setRecovery fun r => { r with state := s }) hcb

/-! ## What opening a session does -/

/-- The service has a session open, and the manager and the cache are in it. -/
structure InSession (w : World δ) : Prop where
  active : w.ota.active = true
  callback : w.recovery.progressCb = .otaService
  listening : Listening w
  writing : w.cache.writing = true

/-- The lambda undoes the reset of the service's counter; the manager's totals stay. -/
theorem startUpdate_opens {w₀ w₁ : World δ} {transport : OtaTransport}
    {imageSize version : UInt32}
    (h : OtaService.startUpdate w₀ transport imageSize version = (true, w₁)) :
    InSession w₁ ∧ w₁.recovery.received = w₀.recovery.received
      ∧ w₁.recovery.totalSize = w₀.recovery.totalSize
      ∧ w₁.ota.received = w₀.recovery.received
      ∧ w₁.notices = .published .otaStart imageSize transport.toUInt32
        :: (progressNotices w₀.ota.progressCb w₀.recovery.received w₀.recovery.totalSize
          ++ w₀.notices) := by
  unfold OtaService.startUpdate at h
  dsimp only [World.setOta, World.setRecovery, RecoveryManager.init] at h
  rcases beginWrite_cases w₀.cache imageSize version with ⟨_, hb⟩ | ⟨_, hb⟩
  · rw [hb] at h
    exact absurd (congrArg Prod.fst h) (by simp)
  · rw [hb] at h
    dsimp only at h
    injection h with _ h
    -- both channels a transport is mapped to have a transport to start
    cases transport <;>
    · simp only [reduceCtorEq, if_true, if_false, RecoveryManager.startDfuListener,
        setState_session, World.setRecovery, World.publish] at h
      subst h
      exact ⟨⟨rfl, rfl, Or.inl rfl, rfl⟩, rfl, rfl, rfl, rfl⟩

/-! ## What feeding a chunk does -/

/-- Moving on to `Receiving` is reported with the totals of before the chunk. -/
theorem receiving_progress {w : World δ} (hs : InSession w)
    (hsync : w.ota.received = w.recovery.received) :
    (receiving w).ota.active = true ∧ (receiving w).ota.received = w.recovery.received
      ∧ ∃ new, (receiving w).notices = new ++ w.notices
        ∧ ∀ r ∈ reports new, r = (w.recovery.received, w.recovery.totalSize) := by
  unfold receiving
  split
  · rw [setState_session hs.callback]
    exact ⟨hs.active, rfl, _, rfl, fun r hr => (reports_progressNotices _ _ _).mp hr⟩
  · exact ⟨hs.active, hsync, [], rfl, fun r hr => by cases hr⟩

/-- A chunk that counts is added to the manager's counter once and to the service's twice, and
both of them announce it. -/
theorem feedChunk_progress {w w' : World δ} {data : List UInt8} {n : Int} (hs : InSession w)
    (hsync : w.ota.received = w.recovery.received)
    (h : OtaService.feedChunk w data = some (n, w')) :
    w.cache.writeChunk w.storage data = some (n, w'.cache, w'.storage)
      ∧ w'.ota.active = true ∧ w'.recovery.progressCb = .otaService ∧ Listening w'
      ∧ w'.recovery.totalSize = w.recovery.totalSize
      ∧ ∃ new, w'.notices = new ++ w.notices
        ∧ ((n ≤ 0 ∧ w'.recovery.received = w.recovery.received
            ∧ w'.ota.received = w.recovery.received
            ∧ ∀ r ∈ reports new, r = (w.recovery.received, w.recovery.totalSize))
          ∨ (0 < n ∧ w'.recovery.received = w.recovery.received + UInt32.ofInt n
            ∧ w'.ota.received = w'.recovery.received + UInt32.ofInt n
            ∧ 1 < progressEvents new)) := by
  obtain ⟨hact, hota, opening, hopening, hreports⟩ := receiving_progress hs hsync
  have hrec := receiving_recovery hs.listening
  unfold OtaService.feedChunk at h
  rw [if_neg (by rw [hs.active]; simp), receiveChunk_listening hs.listening] at h
  cases hwr : w.cache.writeChunk w.storage data with
  | none => rw [hwr] at h; exact absurd h (by simp)
  | some p =>
    obtain ⟨k, cache, storage⟩ := p
    rw [hwr] at h
    dsimp only [Option.map_some, afterChunk] at h
    by_cases hk : k > 0
    · -- the chunk counts
      simp only [if_pos hk] at h
      injection h with h; injection h with hn h
      subst hn
      have hcb : (receiving w).recovery.progressCb = .otaService := by
        rw [hrec]
        exact hs.callback
      simp only [World.setRecovery, World.publish] at h
      rw [notifyProgress_session (by exact hcb)] at h
      simp only [World.setOta, hrec, hopening] at h
      subst h
      refine ⟨rfl, hact, hs.callback, Or.inr rfl, rfl, _,
        (List.append_assoc _ (_ :: opening) _).symm, Or.inr ⟨hk, rfl, rfl, ?_⟩⟩
      -- the manager's event lies under the lambda's
      cases (receiving w).ota.progressCb <;> simp [progressNotices, progressEvents]
    · simp only [if_neg hk] at h
      injection h with h; injection h with hn h
      subst hn h
      refine ⟨rfl, hact, by rw [hrec]; exact hs.callback, Or.inr (by rw [hrec]),
        by rw [hrec], opening, hopening, Or.inl ⟨by omega, by rw [hrec], hota, hreports⟩⟩

/-- A chunk of which nothing is taken does not count. -/
theorem not_counted {w : World δ} {data : List UInt8} {n : Int} {fc : FirmwareCache}
    {sm : StorageManager δ} (hs : InSession w) (hnone : bytesTaken w data = 0)
    (hwr : w.cache.writeChunk w.storage data = some (n, fc, sm)) : n ≤ 0 := by
  rcases writeChunk_cases hwr with ⟨_, hn, _⟩ | ⟨_, k, hk, ⟨_, hn, _⟩ | ⟨hpos, hn, _⟩⟩
  · omega
  · omega
  · have htakes : takes w data = true := by
      simp [takes, hk, hs.listening, hs.writing, hpos]
    simp only [bytesTaken, hs.active, htakes, Bool.and_self, if_true] at hnone
    rw [hn, hnone]
    decide

/-- Feeding a chunk that is taken returns. -/
theorem feedStep_returns {s : UpdateSession δ} {data : List UInt8} (hs : InSession s.world)
    (hsome : 0 < bytesTaken s.world data) : ∃ s', feedStep s data = some s' := by
  have htakes : takes s.world data = true := by
    cases ht : takes s.world data with
    | true => rfl
    | false => simp [bytesTaken, ht] at hsome
  unfold takes at htakes
  split at htakes
  · rename_i k sm hwrite
    obtain ⟨⟨n, w'⟩, hrecv⟩ := Option.isSome_iff_exists.mp
      (receiveChunk_returns hs.listening (by rw [writeChunk_open hs.writing hwrite]; rfl))
    unfold feedStep OtaService.feedChunk
    rw [if_neg (by rw [hs.active]; simp), hrecv]
    dsimp only
    split <;> exact ⟨_, rfl⟩
  · exact absurd htakes (by simp)

/-! ## The theorem -/

/-- The session so far: nothing was taken and both counters say so, of the announced size. -/
structure NothingTaken (imageSize : UInt32) (s : UpdateSession δ) : Prop where
  session : InSession s.world
  manager : s.world.recovery.received = 0
  service : s.world.ota.received = 0
  total : s.world.recovery.totalSize = imageSize
  accepted : s.accepted = 0

/-- **A chunk is accounted exactly if and only if nothing of it is taken.** -/
theorem chunkAccounted_iff {imageSize : UInt32} {s : UpdateSession δ}
    (hi : NothingTaken imageSize s) (data : List UInt8) :
    ChunkAccounted imageSize s data ↔ bytesTaken s.world data = 0 := by
  have hsync : s.world.ota.received = s.world.recovery.received := by
    rw [hi.service, hi.manager]
  constructor
  · intro hacc
    rcases Nat.eq_zero_or_pos (bytesTaken s.world data) with hnone | hsome
    · exact hnone
    · obtain ⟨s', hstep⟩ := feedStep_returns hi.session hsome
      obtain ⟨hman, _, new, hnew, _, honce⟩ := hacc s' hstep
      obtain ⟨⟨n, w'⟩, hcall, rfl⟩ := Option.map_eq_some_iff.mp hstep
      obtain ⟨_, _, _, _, _, new', hnew', hcase⟩ := feedChunk_progress hi.session hsync hcall
      rcases hcase with ⟨_, hstays, _⟩ | ⟨_, _, _, htwice⟩
      · -- bytes in flash that the counter misses
        simp only [hstays, hi.manager, hi.accepted] at hman
        exact absurd hman (by simp; omega)
      · rw [List.append_cancel_right (hnew'.symm.trans hnew)] at htwice
        have := honce (by dsimp only; omega)
        omega
  · rintro hnone s' hstep
    obtain ⟨⟨n, w'⟩, hcall, rfl⟩ := Option.map_eq_some_iff.mp hstep
    obtain ⟨hwr, _, _, _, _, new, hnew, hcase⟩ := feedChunk_progress hi.session hsync hcall
    have hn := not_counted hi.session hnone hwr
    rcases hcase with ⟨_, hman, hser, hrep⟩ | ⟨hpos, _⟩
    · rw [hi.manager] at hman hser hrep
      refine ⟨?_, ?_, new, hnew, ?_, ?_⟩
      · simp [hman, hi.accepted, hnone]
      · simp [hser, hi.accepted, hnone]
      · intro r hr
        rw [hrep r hr]
        exact ⟨Or.inl hi.accepted.symm, hi.total⟩
      · simp [hnone]
    · omega

/-- A chunk of which nothing is taken leaves the session as it is. -/
theorem NothingTaken.step {imageSize : UInt32} {s s' : UpdateSession δ} {data : List UInt8}
    (hi : NothingTaken imageSize s) (hnone : bytesTaken s.world data = 0)
    (h : feedStep s data = some s') : NothingTaken imageSize s' := by
  have hsync : s.world.ota.received = s.world.recovery.received := by
    rw [hi.service, hi.manager]
  obtain ⟨⟨n, w'⟩, hcall, rfl⟩ := Option.map_eq_some_iff.mp h
  obtain ⟨hwr, hact, hcb, hl, htotal, new, _, hcase⟩ :=
    feedChunk_progress hi.session hsync hcall
  have hn := not_counted hi.session hnone hwr
  have hwriting : w'.cache.writing = true := by
    rcases writeChunk_cases hwr with ⟨_, _, hfc, _⟩ | ⟨_, _, _, ⟨_, _, hfc⟩ | ⟨_, _, hfc⟩⟩
      <;> rw [hfc]
    · exact hi.session.writing
    · exact hi.session.writing
    · exact hi.session.writing
  rcases hcase with ⟨_, hman, hser, _⟩ | ⟨hpos, _⟩
  · exact ⟨⟨hact, hcb, hl, hwriting⟩, hman.trans hi.manager, hser.trans hi.manager,
      htotal.trans hi.total, by simp [hi.accepted, hnone]⟩
  · omega

/-- Opening a session is accounted exactly when the manager's totals were right already. -/
theorem opening_accounted_iff {w₀ w₁ : World δ} {transport : OtaTransport}
    {imageSize version : UInt32}
    (h : OtaService.startUpdate w₀ transport imageSize version = (true, w₁)) :
    Accounted imageSize w₀ w₁ 0 0
      ↔ w₀.recovery.totalSize = imageSize ∧ w₀.recovery.received = 0 := by
  obtain ⟨_, hman, _, hser, hnotices⟩ := startUpdate_opens h
  constructor
  · rintro ⟨hzero, _, new, hnew, hreports, _⟩
    rw [hman] at hzero
    refine ⟨?_, UInt32.toNat_inj.mp hzero⟩
    rw [hnotices, ← List.cons_append] at hnew
    rw [← List.append_cancel_right hnew] at hreports
    refine (hreports (w₀.recovery.received, w₀.recovery.totalSize) ?_).2
    exact (reports_progressNotices _ _ _).mpr rfl
  · rintro ⟨htotal, hzero⟩
    refine ⟨by rw [hman, hzero]; rfl, by rw [hser, hzero]; rfl, _,
      hnotices.trans (List.cons_append ..).symm, fun r hr => ?_,
      fun hlt => absurd hlt (by simp)⟩
    rw [(reports_progressNotices _ _ _).mp hr, hzero]
    exact ⟨Or.inl rfl, htotal⟩

/-- **When a session's progress is accounted exactly**, from any state it is opened in. -/
theorem sessionAccounted_iff {w₀ w₁ : World δ} {transport : OtaTransport}
    {imageSize version : UInt32}
    (h : OtaService.startUpdate w₀ transport imageSize version = (true, w₁))
    (chunks : List (List UInt8)) :
    SessionAccounted imageSize w₀ w₁ chunks
      ↔ (w₀.recovery.totalSize = imageSize ∧ w₀.recovery.received = 0)
        ∧ Along feedStep (fun s data => bytesTaken s.world data = 0) { world := w₁ } chunks := by
  obtain ⟨hs, hman, htotal, hser, _⟩ := startUpdate_opens h
  refine (and_congr_left' (opening_accounted_iff h)).trans (and_congr_right fun hstart => ?_)
  refine along_iff_of_invariant (NothingTaken imageSize)
    (fun s data s' hi hacc hstep => hi.step ((chunkAccounted_iff hi data).mp hacc) hstep)
    (fun s data hi => chunkAccounted_iff hi data) ?_
  exact ⟨hs, hman.trans hstart.2, hser.trans hstart.2, htotal.trans hstart.1, rfl⟩

/-! ## The manager's total in every run -/

theorem receiveChunk_totalSize {w w' : World δ} {data : List UInt8} {n : Int}
    (h : RecoveryManager.receiveChunk w data = some (n, w')) :
    w'.recovery.totalSize = w.recovery.totalSize := by
  by_cases hl : Listening w
  · rw [receiveChunk_listening hl] at h
    obtain ⟨⟨written, cache, storage⟩, _, hres⟩ := Option.map_eq_some_iff.mp h
    cases hres
    rw [afterChunk_recovery hl]
  · rw [receiveChunk_deaf hl] at h
    cases h
    rfl

theorem finalizeDfu_totalSize {w w' : World δ} {ok : Bool}
    (h : RecoveryManager.finalizeDfu w = some (ok, w')) :
    w'.recovery.totalSize = w.recovery.totalSize := by
  cases finalizeDfu_outcome h with
  | rejected _ hrec => rw [hrec]
  | notActivated _ _ hrec => rw [hrec]
  | installed _ _ hrec => rw [hrec]

theorem startDfuListener_totalSize (w : World δ) :
    (RecoveryManager.startDfuListener w).2.recovery.totalSize = w.recovery.totalSize := by
  unfold RecoveryManager.startDfuListener
  dsimp only
  split <;> simp [World.setRecovery]

theorem startUpdate_totalSize (w : World δ) (transport : OtaTransport)
    (imageSize version : UInt32) :
    (OtaService.startUpdate w transport imageSize version).2.recovery.totalSize
      = w.recovery.totalSize := by
  unfold OtaService.startUpdate
  dsimp only
  split
  · rfl
  · exact startDfuListener_totalSize _

theorem rollback_totalSize {w w' : World δ} {ok : Bool}
    (h : RecoveryManager.rollback w = some (ok, w')) :
    w'.recovery.totalSize = w.recovery.totalSize := by
  obtain ⟨cache, storage, -, rfl⟩ := managerRollback_cases h
  cases ok with
  | false => simp
  | true => simp [World.publish]

theorem otaRollback_recovery {w w' : World δ} {ok : Bool}
    (h : OtaService.rollback w = some (ok, w')) : w'.recovery = w.recovery := by
  obtain ⟨cache, storage, -, rfl⟩ := serviceRollback_cases h
  rfl

/-- **No call gives the manager a total**: it is kept, or cleared. -/
theorem worldStep_totalSize {w w' : World δ} {op : WorldOp} (hz : w.recovery.totalSize = 0)
    (h : worldStep w op = some w') : w'.recovery.totalSize = 0 := by
  cases op with
  | startUpdate transport imageSize version =>
    cases h
    exact (startUpdate_totalSize w transport imageSize version).trans hz
  | feedChunk data =>
    obtain ⟨⟨n, w₁⟩, hc, rfl⟩ := Option.map_eq_some_iff.mp h
    rcases feedChunk_cases hc with ⟨_, hw⟩ | ⟨_, w₂, hrecv, _, _, hrec⟩
    · rw [hw]; exact hz
    · rw [hrec, receiveChunk_totalSize hrecv]; exact hz
  | completeUpdate =>
    obtain ⟨⟨ok, w₁⟩, hc, rfl⟩ := Option.map_eq_some_iff.mp h
    rcases completeUpdate_cases hc with ⟨_, _, hw⟩ | ⟨_, w₂, hfin, _, _, hrec⟩
    · rw [hw]; exact hz
    · rw [hrec, finalizeDfu_totalSize hfin]; exact hz
  | otaRollback =>
    obtain ⟨⟨ok, w₁⟩, hc, rfl⟩ := Option.map_eq_some_iff.mp h
    rw [otaRollback_recovery hc]
    exact hz
  | shutdown => cases h; rfl
  | recoveryInit channel => cases h; exact hz
  | startDfuListener => cases h; exact (startDfuListener_totalSize w).trans hz
  | receiveChunk data =>
    obtain ⟨⟨n, w₁⟩, hc, rfl⟩ := Option.map_eq_some_iff.mp h
    exact (receiveChunk_totalSize hc).trans hz
  | finalizeDfu =>
    obtain ⟨⟨ok, w₁⟩, hc, rfl⟩ := Option.map_eq_some_iff.mp h
    exact (finalizeDfu_totalSize hc).trans hz
  | recoveryRollback =>
    obtain ⟨⟨ok, w₁⟩, hc, rfl⟩ := Option.map_eq_some_iff.mp h
    exact (rollback_totalSize hc).trans hz
  | abort => cases h; rfl
  | tick => cases h; rw [tick_eq]; exact hz
  | markBootSuccessful => cases h; exact hz

/-! ## The theorem over runs -/

/--
**Progress is accounted exactly in sessions without bytes only.** In every run from a start of
the manager, over any backend, for every session that opens: the progress is accounted exactly
if and only if the image announced is empty, the manager's counter was 0 before, and nothing
is taken of any chunk.
-/
theorem progress_accounted_iff {w w₀ w₁ : World δ} {ops : List WorldOp}
    {transport : OtaTransport} {imageSize version : UInt32} (hfresh : w.recovery = {})
    (hrun : run worldStep w ops = some w₀)
    (h : OtaService.startUpdate w₀ transport imageSize version = (true, w₁))
    (chunks : List (List UInt8)) :
    SessionAccounted imageSize w₀ w₁ chunks
      ↔ imageSize = 0 ∧ w₀.recovery.received = 0
        ∧ Along feedStep (fun s data => bytesTaken s.world data = 0) { world := w₁ } chunks := by
  have htotal : w₀.recovery.totalSize = 0 :=
    run_preserves (fun w => w.recovery.totalSize = 0)
      (fun _ _ _ hz hs => worldStep_totalSize hz hs) (by rw [hfresh]) hrun
  rw [sessionAccounted_iff h, htotal, and_assoc, eq_comm (a := (0 : UInt32))]

/-- A session for an empty image, fed an empty chunk, is accounted exactly. -/
theorem empty_session_accounted : ∃ w₁, SessionAccounted 0 freshWorld w₁ [[]] := by
  have hrun : run worldStep freshWorld [] = some freshWorld := rfl
  have h : OtaService.startUpdate freshWorld .wifi 0 7
      = (true, (OtaService.startUpdate freshWorld .wifi 0 7).2) := by
    refine Prod.ext ?_ rfl
    decide
  refine ⟨_, (progress_accounted_iff rfl hrun h [[]]).mpr ⟨rfl, rfl, ?_⟩⟩
  decide

/-- **Two bytes are counted as four**, by the service; the manager reports them of 0. -/
theorem chunk_counted_twice :
    ∃ w₁ s, OtaService.startUpdate freshWorld .wifi 2 7 = (true, w₁)
      ∧ feedStep { world := w₁ } [3, 4] = some s
      ∧ (s.accepted, s.world.recovery.received, s.world.ota.received) = (2, 2, 4)
      ∧ s.world.recovery.totalSize = 0 ∧ progressEvents s.world.notices = 4
      ∧ ¬ SessionAccounted 2 freshWorld w₁ [[3, 4]] := by
  have hstart : (OtaService.startUpdate freshWorld .wifi 2 7).1 = true := by decide
  have hfeed : (feedStep { world := (OtaService.startUpdate freshWorld .wifi 2 7).2 } [3, 4]).map
      (fun s => ((s.accepted, s.world.recovery.received, s.world.ota.received),
        s.world.recovery.totalSize, progressEvents s.world.notices))
      = some ((2, 2, 4), 0, 4) := by decide
  obtain ⟨s, hs, hcounts⟩ := Option.map_eq_some_iff.mp hfeed
  simp only [Prod.mk.injEq] at hcounts
  obtain ⟨⟨hacc, hman, hser⟩, htotal, hevents⟩ := hcounts
  refine ⟨_, s, Prod.ext hstart rfl, hs, by rw [hacc, hman, hser], htotal, hevents, ?_⟩
  rintro ⟨_, halong⟩
  have := (halong.1 s hs).service
  rw [hser, hacc] at this
  exact absurd this (by decide)

end TaktOS.Proof
