import TaktOS.Lib.Run
import TaktOS.Proof.Storage
import TaktOS.Services.TelemetryService

/-!
# What a telemetry flush leaves in flash

A flush makes one call of `CacheManager::write`, which takes what fits the line of 256 bytes,
and every batch goes to the same offset. So a flush keeps a batch of at most 21 records, once.
-/

namespace TaktOS.Proof

open Lib

variable {δ : Type}

/-! ## Runs next to the batches flushed -/

inductive TelemetryOp where
  | record (rec : TelemetryRecord)
  | tick (uptimeUs : UInt64)
  | shutdown
  | setUploadIntervalMs (ms : UInt32)

def TelemetryOp.call (t : TelemetryService) (sm : StorageManager δ) :
    TelemetryOp → Option (TelemetryService × StorageManager δ)
  | .record rec => some (t.record rec, sm)
  | .tick uptimeUs => t.tick sm uptimeUs
  | .shutdown => t.shutdown sm
  | .setUploadIntervalMs ms => some (t.setUploadIntervalMs ms, sm)

/-- The bytes of a batch that was flushed, and the address they were flushed to. -/
structure FlushedBatch where
  offset : Nat
  bytes : List UInt8
  deriving DecidableEq

/-- The batch of a call that emptied the buffer. -/
def emptied (t t' : TelemetryService) : List FlushedBatch :=
  if t'.buffer.isEmpty && !t.buffer.isEmpty then
    [{ offset := kTelemetryFlashOffset.toNat, bytes := t.bufferBytes }]
  else []

/-- The service and its storage, with the batches flushed so far. -/
structure TelemetryHistory (δ : Type) where
  service : TelemetryService
  storage : StorageManager δ
  batches : List FlushedBatch := []

def telemetryStep (s : TelemetryHistory δ) (op : TelemetryOp) : Option (TelemetryHistory δ) :=
  (op.call s.service s.storage).map fun (service, storage) =>
    { service, storage, batches := s.batches ++ emptied s.service service }

/-- Two batches share no byte of flash. -/
def FlushedBatch.Apart (x y : FlushedBatch) : Prop :=
  x.offset + x.bytes.length ≤ y.offset ∨ y.offset + y.bytes.length ≤ x.offset

/-- **No telemetry is lost**: every batch is in flash in full, and no later one lies over it. -/
def NotLost (content : δ → Nat → UInt8) (s : TelemetryHistory δ) : Prop :=
  (∀ x ∈ s.batches, slice (content s.storage.device) x.offset x.bytes.length = x.bytes)
    ∧ s.batches.Pairwise FlushedBatch.Apart

/-- The call flushes records. -/
def flushes (t : TelemetryService) : TelemetryOp → Bool
  | .tick uptimeUs =>
    !t.buffer.isEmpty && (t.flushPending
      && TelemetryService.uptimeMs uptimeUs - t.lastUploadMs ≥ t.uploadIntervalMs)
  | .shutdown => !t.buffer.isEmpty
  | _ => false

/-- What lies behind a batch's first line is what flash holds there with the line written. -/
def RestInPlace (S : Nat) (m : Nat → UInt8) (bytes : List UInt8) : Prop :=
  ∀ i (h : i < bytes.length), 256 ≤ i →
    bytes[i] = if i < blockCeil S 256 then erased else m i

/-- Up to 21 records fit the first line. -/
theorem restInPlace_of_fits {S : Nat} {m : Nat → UInt8} {bytes : List UInt8}
    (h : bytes.length ≤ 256) : RestInPlace S m bytes :=
  fun _ hi hge => absurd (Nat.lt_of_lt_of_le hi h) (Nat.not_lt.mpr hge)

/-- A flush is the first one, of a batch that fits a line or happens to be there behind it. -/
def FlushKeeps (content : δ → Nat → UInt8) (b : FlashBackend δ) (s : TelemetryHistory δ)
    (op : TelemetryOp) : Prop :=
  flushes s.service op = true → s.batches = []
    ∧ RestInPlace b.sectorSize.toNat (content s.storage.device) s.service.bufferBytes

/-! ## What a flush does -/

/-- The cache of the service holds no line but the first. -/
def OneLine (cm : CacheManager) : Prop :=
  cm.lineSize = 256 ∧ (cm.entries = [] ∨ ∃ e, cm.entries = [e] ∧ e.valid = true ∧ e.key = 0)

/-- The first line is in the cache and is to be written. -/
def DirtyLine (cm : CacheManager) : Prop :=
  cm.lineSize = 256 ∧ cm.inPool 0 = true
    ∧ ∃ e, cm.entries = [e] ∧ e.valid = true ∧ e.key = 0 ∧ e.dirty = true

theorem DirtyLine.oneLine {cm : CacheManager} (h : DirtyLine cm) : OneLine cm := by
  obtain ⟨hline, _, e, hent, hv, hkey, _⟩ := h
  exact ⟨hline, .inr ⟨e, hent, hv, hkey⟩⟩

theorem lineKey_zero {cm : CacheManager} (h : cm.lineSize = 256) : cm.lineKey 0 = 0 := by
  rw [CacheManager.lineKey, h]
  decide

/-- Storing at the start of the first line. -/
theorem copyIn_oneLine {cm cm' : CacheManager} {sm sm' : StorageManager δ} {data : List UInt8}
    {e : CacheEntry} {r : Int} (hline : cm.lineSize = 256) (hent : cm.entries = [e])
    (hv : e.valid = true) (hkey : e.key = 0)
    (h : cm.copyIn sm 0 0 data = some (r, cm', sm')) :
    sm' = sm ∧ DirtyLine cm'
      ∧ ∀ i (hi : i < data.length), i < 256 → cm'.pool i = data[i] := by
  rw [CacheManager.copyIn] at h
  split at h
  · exact absurd h (by simp)
  · rename_i hpool
    injection h with h; injection h with _ h; injection h with hcm hsm
    subst hcm
    refine ⟨hsm.symm, ⟨hline, by simpa [CacheManager.inPool] using hpool, ?_⟩, ?_⟩
    · exact ⟨{ e with dirty := true }, by simp [hent], hv, hkey, rfl⟩
    · intro i hi hi'
      have htake : i < (data.take (cm.copyLen 0 data.length)).length := by
        rw [List.length_take, CacheManager.copyLen, hline]
        simp
        omega
      have hstore : overlay cm.pool 0 (data.take (cm.copyLen 0 data.length)) (0 + i)
          = (data.take (cm.copyLen 0 data.length))[i] := overlay_of_mem htake
      simpa using hstore

/-- The first line is found, or the cache is empty. -/
theorem findLine_oneLine {cm : CacheManager} (hi : OneLine cm) :
    (∃ cm₁, cm.findLine kTelemetryFlashOffset = (none, cm₁) ∧ cm₁.lineSize = 256
        ∧ cm₁.poolSize = cm.poolSize ∧ cm₁.entries = [])
      ∨ ∃ cm₁ e, cm.findLine kTelemetryFlashOffset = (some 0, cm₁) ∧ cm₁.lineSize = 256
        ∧ cm₁.poolSize = cm.poolSize ∧ cm₁.entries = [e] ∧ e.valid = true ∧ e.key = 0 := by
  obtain ⟨hline, hent | ⟨e, hent, hv, he⟩⟩ := hi
  · exact .inl ⟨{ cm with misses := cm.misses + 1 }, by simp [CacheManager.findLine, hent],
      hline, rfl, hent⟩
  · have hkey : cm.lineKey kTelemetryFlashOffset = 0 := lineKey_zero hline
    have hfind : cm.entries.findIdx? (fun e => e.valid && e.key == cm.lineKey
        kTelemetryFlashOffset) = some 0 := by
      rw [hkey, hent]
      simp [hv, he]
    let used : CacheEntry := { e with lastAccess := cm.hits + 1 + cm.misses }
    refine .inr ⟨{ cm with hits := cm.hits + 1, entries := [used] }, used, ?_, hline, rfl, rfl,
      hv, he⟩
    rw [CacheManager.findLine, hfind]
    simp [hent, used]

theorem allocateLine_empty {cm : CacheManager} (hent : cm.entries = []) (sm : StorageManager δ)
    (flashOffset : UInt32) :
    cm.allocateLine sm flashOffset
      = some (0, { cm with
          entries := [{ key := cm.lineKey flashOffset, size := UInt32.ofNat cm.lineSize,
                        valid := true }] }, sm) := by
  rw [CacheManager.allocateLine, hent]
  rfl

/-- A write of the service goes to the first line, whether or not it is in the cache. -/
theorem write_oneLine {cm cm' : CacheManager} {sm sm' : StorageManager δ} {data : List UInt8}
    {r : Int} (hi : OneLine cm)
    (h : cm.write sm kTelemetryFlashOffset data = some (r, cm', sm')) :
    sm' = sm ∧ DirtyLine cm'
      ∧ ∀ i (hi : i < data.length), i < 256 → cm'.pool i = data[i] := by
  rw [CacheManager.write, if_neg (by rw [hi.1]; decide)] at h
  rcases findLine_oneLine hi with ⟨cm₁, hfind, hline, _, hent⟩
    | ⟨cm₁, e, hfind, hline, _, hent, hv, hkey⟩
  · -- the line enters an empty cache
    rw [hfind] at h
    dsimp only at h
    rw [allocateLine_empty hent] at h
    refine copyIn_oneLine ?_ rfl rfl (lineKey_zero hline) h
    exact hline
  · rw [hfind] at h
    exact copyIn_oneLine hline hent hv hkey h

section Reliable

variable {b : FlashBackend δ} {content : δ → Nat → UInt8}

/-- The first line is programmed, and stays in the cache as it was. -/
theorem flush_dirtyLine (hr : b.Reliable content) (hS : 0 < b.sectorSize.toNat)
    (htotal : 256 ≤ b.totalSize.toNat) {cm : CacheManager} {sm : StorageManager δ}
    (hb : sm.backend = some b) (hd : DirtyLine cm) :
    ∃ d, cm.flush sm = some (-1, cm, { sm with device := d })
      ∧ content d = program b.sectorSize.toNat erased (content sm.device) 0 (cm.poolLine 0) := by
  obtain ⟨hline, hpool, e, hent, hv, hkey, hdirty⟩ := hd
  have hlen : (cm.poolLine 0).length = 256 := by rw [CacheManager.poolLine, length_slice, hline]
  obtain ⟨d, hwr, hcont⟩ := write_reliable sm hb hr hS 0 (cm.poolLine 0)
    (by rw [hlen]; decide) (by rw [hlen]; simpa using htotal)
  have hoff : e.key * UInt32.ofNat cm.lineSize = 0 := by rw [hkey, UInt32.zero_mul]
  -- the byte count is taken for an error, but the line is written
  have hloop : cm.flushLoop 0 [e] sm = some (-1, [e], { sm with device := d }) := by
    rw [CacheManager.flushLoop, if_pos (by rw [hv, hdirty]; rfl), if_neg (by rw [hpool]; decide),
      hoff, hwr, hlen]
    rfl
  refine ⟨d, ?_, hcont⟩
  rw [CacheManager.flush, hent, hloop]
  dsimp only
  rw [← hent]

/-- **A flush programs one line**, which starts with the bytes of the buffer. -/
theorem flushToFlash_reliable (hr : b.Reliable content) (hS : 0 < b.sectorSize.toNat)
    (htotal : 256 ≤ b.totalSize.toNat) {t t' : TelemetryService} {sm sm' : StorageManager δ}
    (hb : sm.backend = some b) (hi : OneLine t.cache) (hne : t.buffer.isEmpty = false)
    (h : t.flushToFlash sm = some (t', sm')) :
    t'.buffer = [] ∧ OneLine t'.cache ∧ ∃ d cells, sm' = { sm with device := d }
      ∧ cells.length = 256
      ∧ (∀ i (h : i < t.bufferBytes.length) (h' : i < cells.length),
        cells[i] = t.bufferBytes[i])
      ∧ content d = program b.sectorSize.toNat erased (content sm.device) 0 cells := by
  rw [TelemetryService.flushToFlash, if_neg (by rw [hne]; decide)] at h
  split at h
  · exact absurd h (by simp)
  · rename_i r cm sm₁ hwrite
    obtain ⟨hsm, hdirty, hstore⟩ := write_oneLine hi hwrite
    rw [hsm] at h
    obtain ⟨d, hflush, hcont⟩ := flush_dirtyLine hr hS htotal hb hdirty
    rw [hflush] at h
    injection h with h; injection h with ht hsm'
    rw [← ht, ← hsm']
    have hlen : (cm.poolLine 0).length = 256 := by
      rw [CacheManager.poolLine, length_slice, hdirty.1]
    refine ⟨rfl, hdirty.oneLine, d, cm.poolLine 0, rfl, hlen, fun i hi hi' => ?_, hcont⟩
    have hget : (cm.poolLine 0)[i]? = some (cm.pool i) := by
      rw [CacheManager.poolLine, getElem?_slice, hdirty.1, if_pos (by omega)]
      simp
    rw [List.getElem?_eq_getElem hi'] at hget
    rw [Option.some.inj hget, hstore i hi (by omega)]

/-- A batch is in flash with its first line exactly when the rest of it happens to be. -/
theorem batch_kept_iff (hS : 0 < b.sectorSize.toNat) {m : Nat → UInt8} {cells bytes : List UInt8}
    (hlen : cells.length = 256)
    (hcells : ∀ i (h : i < bytes.length) (h' : i < cells.length), cells[i] = bytes[i]) :
    slice (program b.sectorSize.toNat erased m 0 cells) 0 bytes.length = bytes
      ↔ RestInPlace b.sectorSize.toNat m bytes := by
  have hcell : ∀ i (h : i < bytes.length), program b.sectorSize.toNat erased m 0 cells (0 + i)
      = if h' : i < cells.length then cells[i]
        else if i < blockCeil b.sectorSize.toNat 256 then erased else m i := by
    intro i _
    split
    · exact program_data ‹_›
    · rename_i hout
      split
      · rw [Nat.zero_add]
        exact program_above (by omega) (by rw [hlen, Nat.zero_add]; assumption)
      · rename_i hsec
        rw [Nat.zero_add]
        exact program_outside (.inr (by rw [hlen, Nat.zero_add]; omega)) hS
  rw [slice_eq_iff]
  constructor
  · intro h i hi hout
    rw [← h i hi, hcell i hi, dif_neg (by omega)]
  · intro h i hi
    rw [hcell i hi]
    split
    · exact hcells i hi ‹_›
    · exact (h i hi (by omega)).symm

/-! ## Calls and runs -/

theorem emptied_none {t t' : TelemetryService} (h : t'.buffer = t.buffer ∨ t'.buffer ≠ []) :
    emptied t t' = [] := by
  unfold emptied
  rcases h with h | h
  · simp [h]
  · simp [h]

/-- A call flushes a buffer with records, or leaves the cache and the storage as they are. -/
theorem telemetryCall_cases {op : TelemetryOp} {t t' : TelemetryService}
    {sm sm' : StorageManager δ} (h : op.call t sm = some (t', sm')) :
    (flushes t op = true ∧ t.buffer.isEmpty = false ∧ ∃ t₁, t.flushToFlash sm = some (t₁, sm')
        ∧ t'.cache = t₁.cache ∧ t'.buffer = t₁.buffer)
      ∨ (flushes t op = false ∧ sm' = sm ∧ t'.cache = t.cache ∧ emptied t t' = []) := by
  cases op with
  | record rec =>
    injection h with h; injection h with ht hsm
    rw [← ht]
    refine .inr ⟨rfl, hsm.symm, ?_, emptied_none ?_⟩
    · unfold TelemetryService.record
      split <;> rfl
    · unfold TelemetryService.record
      split
      · exact .inr (by simp)
      · exact .inl rfl
  | setUploadIntervalMs ms =>
    injection h with h; injection h with ht hsm
    exact .inr ⟨rfl, hsm.symm, by rw [← ht]; rfl, emptied_none (.inl (by rw [← ht]; rfl))⟩
  | shutdown =>
    cases he : t.buffer.isEmpty with
    | true =>
      rw [TelemetryOp.call, TelemetryService.shutdown, TelemetryService.flushToFlash,
        if_pos he] at h
      injection h with h; injection h with ht hsm
      exact .inr ⟨by simp [flushes, he], hsm.symm, by rw [ht], emptied_none (.inl (by rw [ht]))⟩
    | false => exact .inl ⟨by simp [flushes, he], rfl, t', h, rfl, rfl⟩
  | tick uptimeUs =>
    rw [TelemetryOp.call, TelemetryService.tick] at h
    split at h
    · rename_i hdue
      rw [TelemetryService.uploadBatch] at h
      cases he : t.buffer.isEmpty with
      | true =>
        rw [TelemetryService.flushToFlash, if_pos he] at h
        injection h with h; injection h with ht hsm
        refine .inr ⟨by simp [flushes, he], hsm.symm, by rw [← ht], emptied_none (.inl ?_)⟩
        rw [← ht]
      | false =>
        cases hflush : t.flushToFlash sm with
        | none => rw [hflush] at h; exact absurd h (by simp)
        | some p =>
          obtain ⟨t₁, sm₁⟩ := p
          rw [hflush] at h
          injection h with h; injection h with ht hsm
          refine .inl ⟨?_, rfl, t₁, by rw [hsm], by rw [← ht], by rw [← ht]⟩
          rw [flushes, he, hdue]
          rfl
    · rename_i hdue
      injection h with h; injection h with ht hsm
      refine .inr ⟨?_, hsm.symm, by rw [ht], emptied_none (.inl (by rw [ht]))⟩
      rw [flushes, Bool.eq_false_iff.mpr hdue, Bool.and_false]

/-- The cache holds no line but the first, and every batch went there. -/
structure TelemetryInv (b : FlashBackend δ) (s : TelemetryHistory δ) : Prop where
  cache : OneLine s.service.cache
  backend : s.storage.backend = some b
  batches : ∀ x ∈ s.batches, x.offset = 0 ∧ x.bytes ≠ []

/-- **What one call does**: nothing to flash, or one batch more and one line programmed. -/
theorem telemetryStep_cases (hr : b.Reliable content) (hS : 0 < b.sectorSize.toNat)
    (htotal : 256 ≤ b.totalSize.toNat) {s s' : TelemetryHistory δ} {op : TelemetryOp}
    (hi : TelemetryInv b s) (h : telemetryStep s op = some s') :
    TelemetryInv b s'
      ∧ ((flushes s.service op = false ∧ s'.batches = s.batches ∧ s'.storage = s.storage)
        ∨ (flushes s.service op = true
          ∧ s'.batches = s.batches ++ [{ offset := 0, bytes := s.service.bufferBytes }]
          ∧ s.service.bufferBytes ≠ []
          ∧ (slice (content s'.storage.device) 0 s.service.bufferBytes.length
                = s.service.bufferBytes
              ↔ RestInPlace b.sectorSize.toNat (content s.storage.device)
                  s.service.bufferBytes))) := by
  obtain ⟨⟨t, sm⟩, hcall, rfl⟩ := Option.map_eq_some_iff.mp h
  rcases telemetryCall_cases hcall with ⟨hflush, hne, t₁, hrun, hcache, hbuf⟩
    | ⟨hflush, hsm, hcache, hemp⟩
  · obtain ⟨hempty, hone, d, line, hd, hlen, hline, hcont⟩ :=
      flushToFlash_reliable hr hS htotal hi.backend hi.cache hne hrun
    have hbytes : s.service.bufferBytes ≠ [] := by
      intro hnil
      have hsome : s.service.buffer ≠ [] := by simpa using hne
      obtain ⟨rec, rest, hcons⟩ := List.exists_cons_of_ne_nil hsome
      have hlen := congrArg List.length hnil
      simp [TelemetryService.bufferBytes, hcons] at hlen
    have hbatch : emptied s.service t
        = [{ offset := 0, bytes := s.service.bufferBytes }] := by
      rw [emptied, hbuf, hempty, hne]
      rfl
    refine ⟨⟨by rw [hcache]; exact hone, by rw [hd]; exact hi.backend, ?_⟩, .inr ⟨hflush, ?_,
      hbytes, ?_⟩⟩
    · intro x hx
      dsimp only at hx
      rw [hbatch] at hx
      rcases List.mem_append.mp hx with hx | hx
      · exact hi.batches x hx
      · rw [List.mem_singleton.mp hx]
        exact ⟨rfl, hbytes⟩
    · dsimp only
      rw [hbatch]
    · dsimp only
      rw [hd, hcont]
      exact batch_kept_iff hS hlen hline
  · refine ⟨⟨by rw [hcache]; exact hi.cache, by rw [hsm]; exact hi.backend, ?_⟩,
      .inl ⟨hflush, ?_, hsm⟩⟩
    · dsimp only
      rw [hemp, List.append_nil]
      exact hi.batches
    · dsimp only
      rw [hemp, List.append_nil]

/-- Two batches flushed are not apart, so one of which nothing is lost is the first. -/
theorem first_batch {s s' : TelemetryHistory δ} (hi : TelemetryInv b s)
    {bytes : List UInt8} (hbytes : bytes ≠ [])
    (hbatches : s'.batches = s.batches ++ [{ offset := 0, bytes }])
    (hn : NotLost content s') : s.batches = [] := by
  rw [List.eq_nil_iff_forall_not_mem]
  intro x hx
  rw [NotLost, hbatches] at hn
  have hapart := (List.pairwise_append.mp hn.2).2.2 x hx _ (List.mem_singleton.mpr rfl)
  obtain ⟨hoff, hne⟩ := hi.batches x hx
  have hx0 := List.length_pos_iff.mpr hne
  have hs0 := List.length_pos_iff.mpr hbytes
  rw [FlushedBatch.Apart, hoff] at hapart
  dsimp only at hapart
  omega

/-- A call that loses nothing is one before which nothing was lost. -/
theorem notLost_back (hr : b.Reliable content) (hS : 0 < b.sectorSize.toNat)
    (htotal : 256 ≤ b.totalSize.toNat) {s s' : TelemetryHistory δ} {op : TelemetryOp}
    (hi : TelemetryInv b s) (h : telemetryStep s op = some s') (hn : NotLost content s') :
    NotLost content s := by
  obtain ⟨_, ⟨_, hbatches, hsm⟩ | ⟨_, hbatches, hbytes, _⟩⟩ :=
    telemetryStep_cases hr hS htotal hi h
  · rw [NotLost, ← hbatches, ← hsm]
    exact hn
  · rw [NotLost, first_batch hi hbytes hbatches hn]
    exact ⟨fun x hx => absurd hx (by simp), List.Pairwise.nil⟩

/-- Nothing is lost in one more call exactly when its flush keeps what it flushes. -/
theorem notLost_step_iff (hr : b.Reliable content) (hS : 0 < b.sectorSize.toNat)
    (htotal : 256 ≤ b.totalSize.toNat) {s s' : TelemetryHistory δ} {op : TelemetryOp}
    (hi : TelemetryInv b s) (hn : NotLost content s) (h : telemetryStep s op = some s') :
    FlushKeeps content b s op ↔ NotLost content s' := by
  obtain ⟨_, ⟨hflush, hbatches, hsm⟩ | ⟨hflush, hbatches, hbytes, hiff⟩⟩ :=
    telemetryStep_cases hr hS htotal hi h
  · rw [NotLost, hbatches, hsm]
    exact ⟨fun _ => hn, fun _ hf => absurd (hflush ▸ hf) (by simp)⟩
  · constructor
    · intro hk
      obtain ⟨hnone, hrest⟩ := hk hflush
      rw [NotLost, hbatches, hnone, List.nil_append]
      refine ⟨fun x hx => ?_, List.pairwise_singleton _ _⟩
      rw [List.mem_singleton.mp hx]
      exact hiff.mpr hrest
    · intro hn' _
      refine ⟨first_batch hi hbytes hbatches hn', hiff.mp (hn'.1 { offset := 0, bytes := _ } ?_)⟩
      rw [hbatches]
      exact List.mem_append_right _ (List.mem_singleton.mpr rfl)

end Reliable

/-! ## Every call returns -/

theorem write_returns {cm : CacheManager} (hi : OneLine cm) (hpool : 256 ≤ cm.poolSize)
    (sm : StorageManager δ) (data : List UInt8) :
    ∃ r cm', cm.write sm kTelemetryFlashOffset data = some (r, cm', sm)
      ∧ cm'.poolSize = cm.poolSize := by
  rw [CacheManager.write, if_neg (by rw [hi.1]; decide)]
  rcases findLine_oneLine hi with ⟨cm₁, hfind, hline, hsize, hent⟩
    | ⟨cm₁, e, hfind, hline, hsize, hent, _⟩
  · rw [hfind]
    dsimp only
    rw [allocateLine_empty hent]
    dsimp only
    rw [CacheManager.copyIn, if_neg (by simp [CacheManager.inPool, hline, hsize, hpool])]
    exact ⟨_, _, rfl, hsize⟩
  · rw [hfind]
    dsimp only
    rw [CacheManager.copyIn, if_neg (by simp [CacheManager.inPool, hline, hsize, hpool])]
    exact ⟨_, _, rfl, hsize⟩

section Reliable

variable {b : FlashBackend δ} {content : δ → Nat → UInt8}

theorem flushToFlash_returns (hr : b.Reliable content) (hS : 0 < b.sectorSize.toNat)
    (htotal : 256 ≤ b.totalSize.toNat) {t : TelemetryService} {sm : StorageManager δ}
    (hb : sm.backend = some b) (hi : OneLine t.cache) (hpool : 256 ≤ t.cache.poolSize) :
    ∃ t' sm', t.flushToFlash sm = some (t', sm') ∧ t'.cache.poolSize = t.cache.poolSize := by
  rw [TelemetryService.flushToFlash]
  split
  · exact ⟨t, sm, rfl, rfl⟩
  · obtain ⟨r, cm, hwrite, hsize⟩ := write_returns hi hpool sm t.bufferBytes
    obtain ⟨_, hdirty, _⟩ := write_oneLine hi hwrite
    obtain ⟨d, hflush, _⟩ := flush_dirtyLine hr hS htotal hb hdirty
    rw [hwrite]
    dsimp only
    rw [hflush]
    exact ⟨_, _, rfl, hsize⟩

/-- Where the pool holds a line, every call returns. -/
theorem telemetryStep_returns (hr : b.Reliable content) (hS : 0 < b.sectorSize.toNat)
    (htotal : 256 ≤ b.totalSize.toNat) {s : TelemetryHistory δ} (hi : TelemetryInv b s)
    (hpool : 256 ≤ s.service.cache.poolSize) (op : TelemetryOp) :
    ∃ s', telemetryStep s op = some s' ∧ 256 ≤ s'.service.cache.poolSize := by
  have hcall : ∃ t sm, op.call s.service s.storage = some (t, sm)
      ∧ t.cache.poolSize = s.service.cache.poolSize := by
    obtain ⟨t, sm, hflush, hsize⟩ :=
      flushToFlash_returns hr hS htotal hi.backend hi.cache hpool
    cases op with
    | record rec =>
      refine ⟨_, _, rfl, ?_⟩
      unfold TelemetryService.record
      split <;> rfl
    | setUploadIntervalMs ms => exact ⟨_, _, rfl, rfl⟩
    | shutdown => exact ⟨t, sm, hflush, hsize⟩
    | tick uptimeUs =>
      rw [TelemetryOp.call, TelemetryService.tick]
      split
      · rw [TelemetryService.uploadBatch, hflush]
        exact ⟨_, _, rfl, hsize⟩
      · exact ⟨_, _, rfl, rfl⟩
  obtain ⟨t, sm, hcall, hsize⟩ := hcall
  exact ⟨_, by rw [telemetryStep, hcall]; rfl, by dsimp only; omega⟩

/-! ## The theorem -/

/-- A service that has flushed nothing, over any memory for its cache. -/
def freshTelemetry (cachePool : Nat → UInt8) (poolSize : Nat) (sm : StorageManager δ) :
    TelemetryHistory δ where
  service := TelemetryService.ofPool cachePool poolSize
  storage := sm

theorem freshTelemetry_inv (cachePool : Nat → UInt8) (poolSize : Nat) {sm : StorageManager δ}
    (hb : sm.backend = some b) : TelemetryInv b (freshTelemetry cachePool poolSize sm) where
  cache := ⟨rfl, .inl rfl⟩
  backend := hb
  batches := fun x hx => absurd hx (by simp [freshTelemetry])

/--
**Telemetry is kept by one flush of one line.** In every run of the service over a reliable
backend, nothing is lost exactly when every flush is the first one and its batch fits a line (or
what does not happens to be what flash holds behind it). Every call of such a run returns, where
the pool holds a line.
-/
theorem telemetry_kept_iff (hr : b.Reliable content) (hS : 0 < b.sectorSize.toNat)
    (htotal : 256 ≤ b.totalSize.toNat) (cachePool : Nat → UInt8) (poolSize : Nat)
    {sm : StorageManager δ} (hb : sm.backend = some b) (ops : List TelemetryOp) :
    (256 ≤ poolSize →
        ∃ t, run telemetryStep (freshTelemetry cachePool poolSize sm) ops = some t)
      ∧ ∀ t, run telemetryStep (freshTelemetry cachePool poolSize sm) ops = some t →
        (NotLost content t
          ↔ Along telemetryStep (FlushKeeps content b) (freshTelemetry cachePool poolSize sm)
              ops) := by
  have hi := freshTelemetry_inv cachePool poolSize hb
  refine ⟨fun hpool => ?_, fun t h => ?_⟩
  · obtain ⟨t, ht, _⟩ := run_returns
      (fun s => TelemetryInv b s ∧ 256 ≤ s.service.cache.poolSize)
      (fun s op hi => by
        obtain ⟨s', hstep, hpool'⟩ := telemetryStep_returns hr hS htotal hi.1 hi.2 op
        exact ⟨s', hstep, (telemetryStep_cases hr hS htotal hi.1 hstep).1, hpool'⟩)
      ops ⟨hi, hpool⟩
    exact ⟨t, ht⟩
  · exact run_iff_along (TelemetryInv b) (NotLost content)
      (fun _ _ _ hi hs => (telemetryStep_cases hr hS htotal hi hs).1)
      (fun _ _ _ hi hs hn => notLost_back hr hS htotal hi hs hn)
      (fun _ _ _ hi hn hs => notLost_step_iff hr hS htotal hi hn hs) hi
      ⟨fun x hx => absurd hx (by simp [freshTelemetry]), List.Pairwise.nil⟩ h

end Reliable

/-- One record, flushed once. -/
theorem telemetry_kept_one_record :
    ∃ t, run telemetryStep (freshTelemetry (fun _ => 0) 256 testStorage)
        [.record ⟨1, 20, 0, .replicate 3 0⟩, .shutdown] = some t ∧ NotLost id t := by
  obtain ⟨hreturns, hiff⟩ := telemetry_kept_iff testFlash_reliable (by decide) (by decide)
    (fun _ => 0) 256 (show testStorage.backend = _ from rfl)
    [.record ⟨1, 20, 0, .replicate 3 0⟩, .shutdown]
  obtain ⟨t, ht⟩ := hreturns (Nat.le_refl _)
  refine ⟨t, ht, (hiff t ht).mpr (.cons rfl (fun h => absurd h (by decide)) ?_)⟩
  exact ⟨fun _ => ⟨rfl, restInPlace_of_fits (by decide)⟩, fun _ _ => trivial⟩

/-- Which of the batches flushed flash still holds. -/
def batchesInFlash (content : δ → Nat → UInt8) (t : TelemetryHistory δ) : List Bool :=
  t.batches.map fun x =>
    decide (slice (content t.storage.device) x.offset x.bytes.length = x.bytes)

theorem not_notLost {content : δ → Nat → UInt8} {t : TelemetryHistory δ}
    (h : false ∈ batchesInFlash content t) : ¬ NotLost content t := by
  intro hn
  obtain ⟨x, hx, hfalse⟩ := List.mem_map.mp h
  exact of_decide_eq_false hfalse (hn.1 x hx)

/-- The batches of which flash holds another byte in place of byte `i`. -/
theorem not_notLost_of_byte {content : δ → Nat → UInt8} {t : TelemetryHistory δ} {i : Nat}
    (h : true ∈ t.batches.map fun x => decide (i < x.bytes.length ∧
      content t.storage.device (x.offset + i) ≠ x.bytes.getD i 0)) : ¬ NotLost content t := by
  intro hn
  obtain ⟨x, hx, htrue⟩ := List.mem_map.mp h
  obtain ⟨hi, hne⟩ := of_decide_eq_true htrue
  have hbyte : (slice (content t.storage.device) x.offset x.bytes.length)[i]?
      = some (content t.storage.device (x.offset + i)) := by
    rw [getElem?_slice, if_pos hi]
  rw [hn.1 x hx] at hbyte
  exact hne (by rw [List.getD_eq_getElem?_getD, hbyte, Option.getD_some])

/--
**The 22nd record is cut off, and the second batch lies over the first**: of a batch of 22
records 256 bytes are written, and of two batches flash holds the later.
-/
theorem telemetry_lost :
    (∃ t, run telemetryStep (freshTelemetry (fun _ => 0) 256 testStorage)
        (List.replicate 22 (.record ⟨1, 20, 0, .replicate 3 0⟩) ++ [.shutdown]) = some t
      ∧ ¬ NotLost id t)
      ∧ ∃ t, run telemetryStep (freshTelemetry (fun _ => 0) 256 testStorage)
          [.record ⟨1, 20, 0, .replicate 3 0⟩, .shutdown,
            .record ⟨2, 30, 0, .replicate 3 0⟩, .shutdown] = some t
        ∧ ¬ NotLost id t := by
  have hlong : (run telemetryStep (freshTelemetry (fun _ => 0) 256 testStorage)
      (List.replicate 22 (.record ⟨1, 20, 0, .replicate 3 0⟩) ++ [.shutdown])).map
        (fun t => t.batches.map fun x => decide (256 < x.bytes.length ∧
          id t.storage.device (x.offset + 256) ≠ x.bytes.getD 256 0)) = some [true] := by
    decide +kernel
  have htwo : (run telemetryStep (freshTelemetry (fun _ => 0) 256 testStorage)
      [.record ⟨1, 20, 0, .replicate 3 0⟩, .shutdown,
        .record ⟨2, 30, 0, .replicate 3 0⟩, .shutdown]).map (batchesInFlash id)
      = some [false, true] := by decide +kernel
  obtain ⟨t, ht, hlost⟩ := Option.map_eq_some_iff.mp hlong
  obtain ⟨t', ht', hlost'⟩ := Option.map_eq_some_iff.mp htwo
  exact ⟨⟨t, ht, not_notLost_of_byte (by rw [hlost]; exact List.mem_cons_self)⟩,
    t', ht', not_notLost (by rw [hlost']; exact List.mem_cons_self)⟩

end TaktOS.Proof
