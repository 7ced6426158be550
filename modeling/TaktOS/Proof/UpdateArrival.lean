import TaktOS.Proof.OtaProgress
import TaktOS.Proof.UpdateSystem

/-!
# An update arrives

`UpdateSystem` has what the update path keeps. Here is what it gets done. Whatever the calls so far
have left, sessions half sent, aborted or failed, an update that the service starts, feeds and
completes is installed and requested of the bootloader. As long as nothing more is fed or
finalized after that, both images stay and every rollback succeeds.
-/

namespace TaktOS.Proof

open Lib Bootloader

variable {δ : Type} {b : FlashBackend δ} {content : δ → Nat → UInt8}

/-- Feed the chunks to the service one by one, collecting what each call returns. -/
def feedChunks (w : World δ) : List (List UInt8) → Option (List Int × World δ)
  | [] => some ([], w)
  | c :: cs =>
    match OtaService.feedChunk w c with
    | none => none
    | some (n, w) =>
      match feedChunks w cs with
      | none => none
      | some (ns, w) => some (n :: ns, w)

/-- The calls that write an image, or its header. -/
def WorldOp.uploads : WorldOp → Bool
  | .feedChunk _ | .receiveChunk _ | .completeUpdate | .finalizeDfu => true
  | _ => false

/-- A rollback, by the service or the manager, succeeds. -/
def RollbackSucceeds (w : World δ) : WorldOp → Prop
  | .otaRollback => ∃ w', OtaService.rollback w = some (true, w')
  | .recoveryRollback => ∃ w', RecoveryManager.rollback w = some (true, w')
  | _ => True

/-! ## An update in progress -/

/-- The service is in an update and the manager listens. -/
structure Taking (w : World δ) : Prop where
  active : w.ota.active = true
  listening : Listening w

theorem notifyProgress_active (w : World δ) :
    (RecoveryManager.notifyProgress w).ota.active = w.ota.active := by
  unfold RecoveryManager.notifyProgress
  dsimp only
  split
  · rfl
  · rfl
  · split <;> rfl

/-- The service that opens a session takes chunks. -/
theorem startUpdate_taking {w : World δ} (transport : OtaTransport) {imageSize version : UInt32}
    {fc : FirmwareCache} (hb : w.cache.beginWrite imageSize version = (true, fc)) :
    ∃ w', OtaService.startUpdate w transport imageSize version = (true, w')
      ∧ cacheOf w' = { cache := fc, storage := w.storage } ∧ Kept w w' ∧ Taking w' := by
  have hopen : (w.cache.beginWrite imageSize version).1 = true := by rw [hb]
  have hok : (OtaService.startUpdate w transport imageSize version).1 = true := by
    unfold OtaService.startUpdate
    simp only [World.setOta, World.setRecovery, RecoveryManager.init, hb]
  have hcall : OtaService.startUpdate w transport imageSize version
      = (true, (OtaService.startUpdate w transport imageSize version).2) :=
    Prod.ext hok rfl
  refine ⟨_, hcall, ?_, startUpdate_kept w transport imageSize version, ?_⟩
  · rcases startUpdate_session w transport imageSize version with ⟨hno, -⟩ | ⟨-, hcache, hstore⟩
    · exact absurd (hno.symm.trans hopen) (by decide)
    · have hfc : fc = opened w.cache imageSize version := by
        rw [← beginWrite_opened hopen, hb]
      rw [cacheOf, hcache, hstore, hfc]
  · exact ⟨(startUpdate_opens hcall).1.active, (startUpdate_opens hcall).1.listening⟩

/-- A chunk goes to the cache, and the next one will. -/
theorem feedChunk_taking {w : World δ} (ht : Taking w) {data : List UInt8} {n : Int}
    {fc : FirmwareCache} {sm : StorageManager δ}
    (hwr : w.cache.writeChunk w.storage data = some (n, fc, sm)) :
    ∃ w', OtaService.feedChunk w data = some (n, w')
      ∧ cacheOf w' = { cache := fc, storage := sm } ∧ Kept w w' ∧ Taking w' := by
  have hrecv : RecoveryManager.receiveChunk w data = some (n, afterChunk w n fc sm) := by
    rw [receiveChunk_listening ht.listening, hwr]
    rfl
  have hafter : Taking (afterChunk w n fc sm) := by
    refine ⟨?_, ?_⟩
    · have hactive : (receiving w).ota.active = true := by
        unfold receiving
        split
        · exact (notifyProgress_active _).trans ht.active
        · exact ht.active
      unfold afterChunk
      dsimp only
      split
      · exact (notifyProgress_active _).trans hactive
      · exact hactive
    · unfold Listening
      rw [afterChunk_recovery ht.listening]
      exact .inr rfl
  have hcache : cacheOf (afterChunk w n fc sm) = { cache := fc, storage := sm } := by
    rw [cacheOf, afterChunk_cache, afterChunk_storage]
  obtain ⟨w', hfeed, hsame⟩ : ∃ w', OtaService.feedChunk w data = some (n, w')
      ∧ (w' = afterChunk w n fc sm ∨ ∃ ota, w' = { afterChunk w n fc sm with ota }
        ∧ ota.active = (afterChunk w n fc sm).ota.active) := by
    unfold OtaService.feedChunk
    rw [if_neg (by rw [ht.active]; simp), hrecv]
    dsimp only
    split
    · exact ⟨_, rfl, .inr ⟨_, rfl, rfl⟩⟩
    · exact ⟨_, rfl, .inl rfl⟩
  refine ⟨w', hfeed, ?_, feedChunk_kept hfeed, ?_⟩
  · rcases hsame with rfl | ⟨ota, rfl, -⟩
    · exact hcache
    · exact hcache
  · rcases hsame with rfl | ⟨ota, rfl, hota⟩
    · exact hafter
    · exact ⟨hota.trans hafter.active, hafter.listening⟩

/-- A session that verifies is installed. -/
theorem completeUpdate_taking {w : World δ} (ht : Taking w) {fc fc' : FirmwareCache}
    {sm sm' : StorageManager δ} (hfin : w.cache.finalizeWrite w.storage = some (true, fc, sm))
    (hact : fc.activateSlot sm fc.inactiveSlot = some (true, fc', sm')) :
    ∃ w', OtaService.completeUpdate w = some (true, w')
      ∧ cacheOf w' = { cache := fc', storage := sm' }
      ∧ w'.bootConfig = requestOtaBoot w.bootConfig fc.inactiveSlot
      ∧ w'.recovery.state = .complete := by
  unfold OtaService.completeUpdate RecoveryManager.finalizeDfu
  rw [if_neg (by rw [ht.active]; simp)]
  dsimp only
  rw [setState_cache, setState_storage, hfin]
  dsimp only
  rw [setState_cache, setState_storage]
  dsimp only
  rw [hact]
  refine ⟨_, rfl, ?_, ?_, ?_⟩
  · simp [cacheOf, World.setOta, World.publish]
  · simp [World.setOta, World.publish]
  · simp [World.setOta, World.publish]

/-! ## From the calls of the cache to those of the service -/

/-- A history of the cache whose first call succeeded. -/
theorem history_first {s s' : CacheState δ} {op : PowerOp} {ops : List PowerOp}
    {h : List (PowerOp × (Bool × Bank))} (hh : history imageStep s (op :: ops) = some (h, s'))
    (hok : ∀ x ∈ h, x.2.1 = true) :
    ∃ s₁ h', storeCall s op = some (true, s₁) ∧ history imageStep s₁ ops = some (h', s')
      ∧ ∀ x ∈ h', x.2.1 = true := by
  obtain ⟨answer, s₁, h', hstep, hrest, rfl⟩ := history_cons_some hh
  obtain ⟨⟨ok, s₂⟩, hcall, heq⟩ := Option.map_eq_some_iff.mp hstep
  obtain ⟨rfl, rfl⟩ := Prod.mk.inj heq
  obtain rfl : ok = true := hok _ List.mem_cons_self
  exact ⟨s₂, h', hcall, hrest, fun x hx => hok x (List.mem_cons_of_mem _ hx)⟩

/-- Chunks that the cache takes are fed. -/
theorem feedChunks_taking : ∀ {chunks : List (List UInt8)} {w : World δ} {rest : List PowerOp}
    {h : List (PowerOp × (Bool × Bank))} {s' : CacheState δ}, Taking w →
    history imageStep (cacheOf w)
      (chunks.map (fun data => .call (.session (.writeChunk data))) ++ rest) = some (h, s') →
    (∀ x ∈ h, x.2.1 = true) →
    ∃ w' h', feedChunks w chunks = some (chunks.map (fun c => (c.length : Int)), w')
      ∧ Kept w w' ∧ Taking w' ∧ history imageStep (cacheOf w') rest = some (h', s')
      ∧ ∀ x ∈ h', x.2.1 = true := by
  intro chunks
  induction chunks with
  | nil => exact fun ht hh hok => ⟨_, _, rfl, ⟨rfl, rfl⟩, ht, hh, hok⟩
  | cons data chunks ih =>
    intro w rest h s' ht hh hok
    obtain ⟨s₁, h₁, hcall, hrest, hok₁⟩ := history_first hh hok
    obtain ⟨⟨n, fc, sm⟩, hwr, heq⟩ := Option.map_eq_some_iff.mp hcall
    obtain ⟨hn, rfl⟩ := Prod.mk.inj heq
    obtain ⟨w₁, hfeed, hcache, hkept, ht₁⟩ := feedChunk_taking ht hwr
    rw [← hcache] at hrest
    obtain ⟨w', h', hfeeds, hkept', ht', hlast, hok'⟩ := ih ht₁ hrest hok₁
    refine ⟨w', h', ?_, ⟨hkept'.1.trans hkept.1, hkept'.2.trans hkept.2⟩, ht', hlast, hok'⟩
    rw [feedChunks, hfeed]
    dsimp only
    rw [hfeeds]
    dsimp only
    have hlen : n = (data.length : Int) := of_decide_eq_true hn
    rw [hlen]
    rfl

/-- What the cache takes as an installation the service gets through. -/
theorem update_installs {w : World δ} (transport : OtaTransport) {imageSize version : UInt32}
    {chunks : List (List UInt8)} {h : List (PowerOp × (Bool × Bank))} {s' : CacheState δ}
    (hh : history imageStep (cacheOf w) (installCalls w.cache imageSize version chunks)
      = some (h, s')) (hok : ∀ x ∈ h, x.2.1 = true) :
    ∃ w₁ w₂ w₃, OtaService.startUpdate w transport imageSize version = (true, w₁)
      ∧ feedChunks w₁ chunks = some (chunks.map (fun c => (c.length : Int)), w₂)
      ∧ OtaService.completeUpdate w₂ = some (true, w₃) ∧ Installed w w₃ ∧ cacheOf w₃ = s' := by
  obtain ⟨s₁, h₁, hbegin, hrest, hok₁⟩ := history_first hh hok
  obtain ⟨hopen, hstore⟩ := storeCall_beginWrite hbegin
  obtain ⟨w₁, hstart, hcache₁, hkept₁, ht₁⟩ := startUpdate_taking transport hopen
  have hs₁ : s₁ = cacheOf w₁ := by
    rw [hcache₁]
    obtain ⟨cache, storage⟩ := s₁
    exact congrArg (CacheState.mk cache) hstore
  rw [hs₁] at hrest
  obtain ⟨w₂, h₂, hfeeds, hkept₂, ht₂, hrest₂, hok₂⟩ := feedChunks_taking ht₁ hrest hok₁
  obtain ⟨s₃, h₃, hcall₃, hrest₃, hok₃⟩ := history_first hrest₂ hok₂
  obtain ⟨⟨ok, fc, sm⟩, hfin, heq⟩ := Option.map_eq_some_iff.mp hcall₃
  obtain ⟨rfl, rfl⟩ := Prod.mk.inj heq
  obtain ⟨s₄, h₄, hcall₄, hrest₄, -⟩ := history_first hrest₃ hok₃
  obtain ⟨⟨ok', fc', sm'⟩, hact, heq⟩ := Option.map_eq_some_iff.mp hcall₄
  obtain ⟨rfl, rfl⟩ := Prod.mk.inj heq
  obtain ⟨-, rfl⟩ := Prod.mk.inj (Option.some.inj hrest₄)
  -- the slot has been the inactive one all along
  have hslot : fc.inactiveSlot = w.cache.inactiveSlot := by
    refine inactiveSlot_congr ?_
    exact (finalizeWrite_activeSlot hfin).trans (hkept₂.2.trans hkept₁.2)
  dsimp only at hact
  rw [← hslot] at hact
  obtain ⟨w₃, hdone, hcache₃, hboot, hstate⟩ := completeUpdate_taking ht₂ hfin hact
  rw [hkept₂.1, hkept₁.1, hslot] at hboot
  refine ⟨w₁, w₂, w₃, hstart, hfeeds, hdone, ?_, hcache₃⟩
  have hactive : w₃.cache.activeSlot = fc.inactiveSlot := by
    rw [show w₃.cache = fc' from congrArg CacheState.cache hcache₃]
    exact activateSlot_activeSlot hact
  have hload := load_request w.bootConfig w.cache.inactiveSlot
  rw [← hboot] at hload
  exact {
    activeSlot := hactive.trans hslot
    intact := by rw [hload]
    mode := by rw [hload]
    otaSlot := by rw [hload]
    bootCount := by rw [hload]; rfl
    state := hstate }

/-! ## What follows -/

/-- A call of the cache that takes no part in an upload, where both slots hold an image. -/
theorem quiet_call (hr : b.Reliable content) {s : CacheState δ} {t : TwoBanks UInt32 UInt8}
    (h : Represents b content s t) (hboth : t.Both) {op : CacheOp}
    (hop : (purpose (.call op)).uploads = false) (hfits : Fits b s (.call op)) :
    ∃ ok s' t', storeCall s (.call op) = some (ok, s') ∧ Represents b content s' t'
      ∧ t'.content = t.content ∧ SameSlots s.cache s'.cache
      ∧ ((purpose (.call op)).chooses = true → ok = true) := by
  obtain ⟨⟨ok, act⟩, s', t', hstep, hspec, hrep, hslots⟩ := imageStep_allowed hr h hfits
  obtain ⟨⟨ok', s₁⟩, hcall, heq⟩ := Option.map_eq_some_iff.mp hstep
  obtain ⟨hanswer, rfl⟩ := Prod.mk.inj heq
  obtain ⟨rfl, -⟩ := Prod.mk.inj hanswer
  obtain ⟨hkeep, hchoose⟩ := TwoBanks.both_stay (.cons hspec (.nil _))
    (fun x hx => by rw [List.mem_singleton.mp hx]; exact hop) hboth
  exact ⟨_, s₁, t', hcall, hrep, hkeep, hslots, hchoose _ (List.mem_singleton.mpr rfl)⟩

/-- The flash holds what those banks do, in slots that are where they were. -/
structure Stored (b : FlashBackend δ) (content : δ → Nat → UInt8) (fc : FirmwareCache)
    (banks : Bank → BankContent UInt32 UInt8) (w : World δ) : Prop where
  holds : ∃ t, Represents b content (cacheOf w) t ∧ t.content = banks
  slots : SameSlots fc w.cache

section Later

variable {w w' : World δ} {fc : FirmwareCache} {banks : Bank → BankContent UInt32 UInt8}

theorem Stored.congr (h : Stored b content fc banks w) (hsame : cacheOf w' = cacheOf w) :
    Stored b content fc banks w' where
  holds := by rw [hsame]; exact h.holds
  slots := by
    rw [show w'.cache = w.cache from congrArg CacheState.cache hsame]
    exact h.slots

theorem Stored.call (hr : b.Reliable content) (h : Stored b content fc banks w)
    (hboth : ∀ x, (banks x).isImage = true) (op : CacheOp)
    (hop : (purpose (.call op)).uploads = false)
    (hfits : Fits b (cacheOf w) (.call op)) :
    ∃ ok s', storeCall (cacheOf w) (.call op) = some (ok, s')
      ∧ (∀ w', cacheOf w' = s' → Stored b content fc banks w')
      ∧ ((purpose (.call op)).chooses = true → ok = true) := by
  obtain ⟨t, hrep, rfl⟩ := h.holds
  obtain ⟨ok, s', t', hcall, hrep', hkeep, hslots, hchoose⟩ := quiet_call hr hrep hboth hop hfits
  refine ⟨ok, s', hcall, fun w' hw' => ?_, hchoose⟩
  subst hw'
  exact ⟨⟨t', hrep', hkeep⟩, h.slots.trans hslots⟩

theorem startUpdate_cacheOf (w : World δ) (transport : OtaTransport) (imageSize version : UInt32) :
    cacheOf (OtaService.startUpdate w transport imageSize version).2
      = { cacheOf w with cache := (w.cache.beginWrite imageSize version).2 } := by
  rcases startUpdate_session w transport imageSize version with ⟨hno, -⟩ | ⟨hyes, hcache, hstore⟩
  · unfold OtaService.startUpdate
    dsimp only [World.setOta, World.setRecovery, RecoveryManager.init]
    split
    · rename_i cache hb
      rw [hb]
      rfl
    · rename_i cache hb
      exact absurd (hno.symm.trans (congrArg Prod.fst hb)) (by simp)
  · rw [cacheOf, hcache, hstore, beginWrite_opened hyes]
    rfl

/-- A call that takes no part in an upload returns, and a rollback succeeds. -/
theorem quiet_step (hr : b.Reliable content) (h : Stored b content fc banks w)
    (hboth : ∀ x, (banks x).isImage = true) {op : WorldOp} (hop : op.uploads = false) :
    RollbackSucceeds w op ∧ ∃ w', worldStep w op = some w' ∧ Stored b content fc banks w' := by
  obtain ⟨ok, s', hback, hkeep, hok⟩ := h.call hr hboth .rollback rfl trivial
  obtain ⟨⟨ok', cache, storage⟩, hcache, heq⟩ := Option.map_eq_some_iff.mp hback
  obtain ⟨rfl, rfl⟩ := Prod.mk.inj heq
  obtain rfl : ok' = true := hok rfl
  have hroll : w.cache.rollback w.storage = some (true, cache, storage) := hcache
  cases op with
  | startUpdate transport imageSize version =>
    obtain ⟨ok, s', hcall, hkeep', -⟩ := h.call hr hboth
      (.session (.beginWrite imageSize version)) rfl trivial
    refine ⟨trivial, _, rfl, hkeep' _ ?_⟩
    obtain ⟨-, rfl⟩ := Prod.mk.inj (Option.some.inj hcall)
    exact startUpdate_cacheOf w transport imageSize version
  | otaRollback =>
    have hcall : OtaService.rollback w
        = some (true, World.publish { w.setOta (fun ota => { ota with active := false }) with
            cache, storage } .otaRollback) := by
      unfold OtaService.rollback
      dsimp only [World.setOta]
      rw [hroll]
    exact ⟨⟨_, hcall⟩, _, by rw [worldStep, hcall]; rfl, hkeep _ rfl⟩
  | recoveryRollback =>
    obtain ⟨w', hcall, hcache⟩ : ∃ w', RecoveryManager.rollback w = some (true, w')
        ∧ cacheOf w' = { cache := cache, storage := storage } := by
      unfold RecoveryManager.rollback
      dsimp only
      rw [setState_cache, setState_storage, hroll]
      refine ⟨_, rfl, ?_⟩
      simp [cacheOf, World.publish]
    exact ⟨⟨w', hcall⟩, w', by rw [worldStep, hcall]; rfl, hkeep _ hcache⟩
  | shutdown =>
    refine ⟨trivial, _, rfl, h.congr ?_⟩
    simp [cacheOf, OtaService.shutdown, RecoveryManager.abort, World.setOta, World.setRecovery]
  | recoveryInit channel => exact ⟨trivial, _, rfl, h.congr rfl⟩
  | startDfuListener =>
    refine ⟨trivial, _, rfl, h.congr ?_⟩
    rw [cacheOf, (startDfuListener_session w).1, (startDfuListener_session w).2]
    rfl
  | abort =>
    refine ⟨trivial, _, rfl, h.congr ?_⟩
    simp [cacheOf, RecoveryManager.abort, World.setRecovery]
  | tick => exact ⟨trivial, _, rfl, h.congr (by rw [tick_eq])⟩
  | markBootSuccessful => exact ⟨trivial, _, rfl, h.congr rfl⟩
  | feedChunk data => exact absurd hop (by simp [WorldOp.uploads])
  | receiveChunk data => exact absurd hop (by simp [WorldOp.uploads])
  | completeUpdate => exact absurd hop (by simp [WorldOp.uploads])
  | finalizeDfu => exact absurd hop (by simp [WorldOp.uploads])

end Later

/-! ## The theorem -/

/--
**An update arrives.** Over a reliable flash, after any run of calls on the service and the manager
in which the chunks fit, from a state in which the active slot verifies: an image that fits the
free slot, sent in chunks that start on sectors, is taken by the service chunk by chunk, completed,
made the active one and requested of the bootloader. After that, through any calls that neither
feed nor finalize, both images stay in their slots byte for byte, and every rollback succeeds.
-/
theorem update_arrives (hr : b.Reliable content) {w w₀ : World δ} (hs : Sited b (cacheOf w))
    (hfit : ImagesFit b.totalSize.toNat (content w.storage.device) w.cache)
    (hact : w.cache.activeSlot ≤ 1) (hw : w.cache.writing = false)
    (hv : (w.cache.verify w.storage w.cache.activeSlot).1 = true) {before : List WorldOp}
    (hbefore : Along worldStep (ChunkFits b) w before) (h₀ : run worldStep w before = some w₀)
    (transport : OtaTransport) (imageSize version : UInt32) (chunks : List (List UInt8))
    (hsum : chunks.flatten.length = imageSize.toNat)
    (hceil : blockCeil b.sectorSize.toNat (4096 + imageSize.toNat) ≤ w₀.cache.slotSize.toNat)
    (hlen : ∀ c ∈ chunks, c.length < 2147483648)
    (hstart : ∀ p ∈ pieceStarts 0 chunks, b.sectorSize.toNat ∣ p) {later : List WorldOp}
    (hlater : ∀ op ∈ later, op.uploads = false) :
    ∃ w₁ w₂ w₃ w₄, OtaService.startUpdate w₀ transport imageSize version = (true, w₁)
      ∧ feedChunks w₁ chunks = some (chunks.map (fun c => (c.length : Int)), w₂)
      ∧ OtaService.completeUpdate w₂ = some (true, w₃) ∧ Installed w₀ w₃
      ∧ run worldStep w₃ later = some w₄ ∧ Along worldStep RollbackSucceeds w₃ later
      ∧ contentOf b.totalSize.toNat (content w₄.storage.device)
          (w₀.cache.slotOffset w₀.cache.inactiveSlot) = .image ⟨version, chunks.flatten⟩
      ∧ contentOf b.totalSize.toNat (content w₄.storage.device)
          (w₀.cache.slotOffset w₀.cache.activeSlot)
        = .image (imageAt (content w₀.storage.device)
            (w₀.cache.slotOffset w₀.cache.activeSlot)) := by
  have hstored : InOrder b content (cacheOf w) :=
    ⟨_, storeOf_represents hs hfit hact hw,
      ((storeOf_represents hs hfit hact hw).sound_iff hr.toReadable).mpr hv⟩
  obtain ⟨t, hrep, hsound⟩ := run_invariant (fun w => InOrder b content (cacheOf w))
    (fun w op w' hi hp hstep => by
      obtain ⟨w₁, hstep₁, hi₁⟩ := worldStep_inOrder hr hi hp
      obtain rfl : w₁ = w' := Option.some.inj (hstep₁.symm.trans hstep)
      exact hi₁) hstored hbefore h₀
  have hv₀ := (hrep.sound_iff hr.toReadable).mp hsound
  obtain ⟨h₁, h₂, s', t₁, t', hrun, hfirst, hnone, hrest, hrep', hslots, hoks, -, hnew, hold⟩ :=
    install_allowed hr hrep imageSize version chunks hv₀ hsum hceil hlen hstart [] (by simp)
  obtain rfl : h₂ = [] := List.map_eq_nil_iff.mp hnone
  cases hrest
  rw [List.append_nil, List.append_nil] at hrun
  obtain ⟨w₁, w₂, w₃, hopen, hfeeds, hdone, hinstalled, hcache⟩ :=
    update_installs transport hrun hoks
  have hstored₃ : Stored b content w₀.cache t₁.content w₃ :=
    ⟨⟨t₁, by rw [hcache]; exact hrep', rfl⟩, by
      rw [show w₃.cache = s'.cache from congrArg CacheState.cache hcache]
      exact hslots⟩
  have hboth : ∀ x, (t₁.content x).isImage = true := by
    intro x
    rcases Bank.eq_or_other t.active x with rfl | rfl
    · rw [hold]
      rfl
    · rw [hnew]
      rfl
  have hquiet : Along worldStep (fun _ op => op.uploads = false) w₃ later :=
    along_of_forall fun op hop _ => hlater op hop
  obtain ⟨w₄, hlast, hstored₄⟩ := run_returns_along (Stored b content w₀.cache t₁.content)
    (fun w op hi hp => (quiet_step hr hi hboth hp).2) hstored₃ hquiet
  have hrolls : Along worldStep RollbackSucceeds w₃ later :=
    along_of_invariant (Stored b content w₀.cache t₁.content)
      (fun w op w' hi hp hstep => by
        obtain ⟨-, w₁, hstep₁, hi₁⟩ := quiet_step hr hi hboth hp
        obtain rfl : w₁ = w' := Option.some.inj (hstep₁.symm.trans hstep)
        exact hi₁)
      (fun w op hi hp => (quiet_step hr hi hboth hp).1) hstored₃ hquiet
  refine ⟨w₁, w₂, w₃, w₄, hopen, hfeeds, hdone, hinstalled, hlast, hrolls, ?_, ?_⟩
  · obtain ⟨t₄, hrep₄, hcont⟩ := hstored₄.holds
    have hbank := hrep₄.banks t.active.other
    rw [hcont, hnew] at hbank
    rw [show w₀.cache.inactiveSlot = _ from hrep.free, ← hstored₄.slots.slotOffset]
    exact hbank.symm
  · obtain ⟨t₄, hrep₄, hcont⟩ := hstored₄.holds
    have hbank := hrep₄.banks t.active
    rw [hcont, hold] at hbank
    refine Eq.trans ?_ hbank.symm
    rw [show w₀.cache.activeSlot = _ from hrep.active, ← hstored₄.slots.slotOffset]
    rfl

/-- Slot A is running, and an update was aborted after its first chunk. -/
def abortedUpdate : List WorldOp := [.startUpdate .wifi 3 1, .feedChunk [1], .abort]

/-- A sector and two bytes come in; back, another update that is started only, and back again. -/
theorem update_arrives_after_abort :
    ∃ w₀ w₁ w₂ w₃ w₄, run worldStep runningSlotA abortedUpdate = some w₀
      ∧ OtaService.startUpdate w₀ .ble 4098 2 = (true, w₁)
      ∧ feedChunks w₁ [List.replicate 4096 1, [2, 3]] = some ([4096, 2], w₂)
      ∧ OtaService.completeUpdate w₂ = some (true, w₃) ∧ Installed w₀ w₃
      ∧ run worldStep w₃ [.recoveryRollback, .startUpdate .wifi 2 3, .otaRollback] = some w₄
      ∧ contentOf 0x10000 w₄.storage.device (w₀.cache.slotOffset w₀.cache.inactiveSlot)
        = .image ⟨2, List.replicate 4096 1 ++ [2, 3]⟩ := by
  have hfits : Along worldStep (ChunkFits (memBackend 0x10000 4096)) runningSlotA
      abortedUpdate := by decide +kernel
  have hend : (run worldStep runningSlotA abortedUpdate).map (fun w => w.cache.slotSize)
      = some 0x4000 := by decide +kernel
  obtain ⟨w₀, h₀, hsize⟩ := Option.map_eq_some_iff.mp hend
  have himages : ImagesFit 0x10000 (id runningSlotA.storage.device) runningSlotA.cache := by
    intro slot hslot
    rcases le_one_cases hslot with rfl | rfl <;> decide
  have hsited : Sited (memBackend 0x10000 4096) (cacheOf runningSlotA) := testCache_sited _
  have hlater : ∀ op ∈ [WorldOp.recoveryRollback, .startUpdate .wifi 2 3, .otaRollback],
      op.uploads = false := by decide
  obtain ⟨w₁, w₂, w₃, w₄, hopen, hfeeds, hdone, hinstalled, hlast, -, hnew, -⟩ :=
    update_arrives testFlash_reliable hsited himages (by decide) rfl (by decide) hfits h₀ .ble
      4098 2 [List.replicate 4096 1, [2, 3]] (by decide +kernel) (by rw [hsize]; decide)
      (by decide +kernel) (by decide +kernel) hlater
  rw [show [List.replicate 4096 1, [2, 3]].map (fun c => ((c : List UInt8).length : Int))
    = [4096, 2] by decide +kernel] at hfeeds
  exact ⟨w₀, w₁, w₂, w₃, w₄, h₀, hopen, hfeeds, hdone, hinstalled, hlast, hnew⟩

end TaktOS.Proof
