import TaktOS.Proof.CacheAccess
import TaktOS.Proof.CacheFlush

/-!
# What becomes of a dirty line that is evicted

The eviction of a dirty line flushes the cache and does not look at the result. The flush stops at
the first dirty line, since its count is taken for an error: so the line that goes has been written
if it is that one and its write succeeds, and otherwise only what the flash held of it before is
left.
-/

namespace TaktOS.Proof

open Lib

variable {δ : Type} {b : FlashBackend δ} {content : δ → Nat → UInt8}

/-! ## Runs -/

/-- The cache and the flash behind it. -/
structure CachedFlash (δ : Type) where
  cache : CacheManager
  storage : StorageManager δ

def cachedStep (s : CachedFlash δ) (op : CacheManagerCall) : Option (CachedFlash δ) :=
  (op.run s.cache s.storage).map fun (_, cache, storage) => { cache, storage }

/-- Where the line at `i` belongs in the flash. -/
def linePlace (cm : CacheManager) (i : Nat) : UInt32 :=
  (cm.entries.getD i {}).key * UInt32.ofNat cm.lineSize

/-- The flash holds the bytes of the line at `i`. -/
def OnFlash (content : δ → Nat → UInt8) (cm : CacheManager) (i : Nat) (d : δ) : Prop :=
  slice (content d) (linePlace cm i).toNat cm.lineSize = cm.poolLine i

instance (content : δ → Nat → UInt8) (cm : CacheManager) (i : Nat) (d : δ) :
    Decidable (OnFlash content cm i d) := inferInstanceAs (Decidable (_ = _))

/-- An access to the offset takes the place of a dirty line. -/
def EvictsDirty (cm : CacheManager) (flashOffset : UInt32) : Prop :=
  Evicts cm flashOffset ∧ (cm.entries.getD cm.lruIdx {}).dirty = true

instance (cm : CacheManager) (flashOffset : UInt32) : Decidable (EvictsDirty cm flashOffset) :=
  inferInstanceAs (Decidable (_ ∧ _))

/--
**No unsaved line is dropped**: when a dirty line is replaced the flash holds its bytes, or the
call fails and the line is still there.
-/
def KeepsUnsaved (content : δ → Nat → UInt8) (s : CachedFlash δ) (op : CacheManagerCall) : Prop :=
  ∀ flashOffset ∈ op.offset, EvictsDirty s.cache flashOffset →
    (∀ t ∈ (s.cache.findLine flashOffset).2.allocateLine s.storage flashOffset,
      OnFlash content s.cache s.cache.lruIdx t.2.2.device)
    ∨ ∃ t ∈ op.run s.cache s.storage, t.1 < 0
      ∧ t.2.1.entries[s.cache.lruIdx]? = s.cache.entries[s.cache.lruIdx]?
      ∧ t.2.1.poolLine s.cache.lruIdx = s.cache.poolLine s.cache.lruIdx

instance (content : δ → Nat → UInt8) (s : CachedFlash δ) (op : CacheManagerCall) :
    Decidable (KeepsUnsaved content s op) :=
  Option.decidableForallMem op.offset

/-- No sector of line `j` has a byte of line `i`. -/
def SectorsApart (S : Nat) (cm : CacheManager) (j i : Nat) : Prop :=
  blockCeil S ((linePlace cm j).toNat + cm.lineSize) ≤ (linePlace cm i).toNat
    ∨ (linePlace cm i).toNat + cm.lineSize ≤ blockFloor S (linePlace cm j).toNat
      ∧ blockCeil S ((linePlace cm j).toNat + cm.lineSize) < 4294967296

instance (S : Nat) (cm : CacheManager) (j i : Nat) : Decidable (SectorsApart S cm j i) :=
  inferInstanceAs (Decidable (_ ∨ _))

/--
A dirty line that goes is the first dirty one and its write succeeds; or the flash holds its bytes
already, and none in a sector of the first dirty line.
-/
def VictimSafe (content : δ → Nat → UInt8) (S : Nat) (s : CachedFlash δ) (op : CacheManagerCall) :
    Prop :=
  ∀ flashOffset ∈ op.offset, EvictsDirty s.cache flashOffset →
    ∀ j ∈ firstDirty s.cache.entries,
      (j = s.cache.lruIdx
        ∧ ∀ t ∈ s.storage.write (linePlace s.cache j) (s.cache.poolLine j), 0 ≤ t.1)
      ∨ (OnFlash content s.cache s.cache.lruIdx s.storage.device
        ∧ SectorsApart S s.cache j s.cache.lruIdx)

instance (content : δ → Nat → UInt8) (S : Nat) (s : CachedFlash δ) (op : CacheManagerCall) :
    Decidable (VictimSafe content S s op) :=
  Option.decidableForallMem op.offset

/-! ## The invariant -/

structure CachedInv (b : FlashBackend δ) (s : CachedFlash δ) : Prop where
  backend : s.storage.backend = some b
  valid : AllValid s.cache
  undivided : UInt32.ofNat s.cache.lineSize = 0 → s.cache.entries = []

variable {s s' : CachedFlash δ} {op : CacheManagerCall}

theorem cachedInv_step (hi : CachedInv b s) (h : cachedStep s op = some s') : CachedInv b s' := by
  obtain ⟨⟨r, cm, sm⟩, hrun, rfl⟩ := Option.map_eq_some_iff.mp h
  cases ho : op.offset with
  | none =>
    rcases CacheManagerCall.offset_none ho with rfl | rfl
    · have hsame := flush_sameMarks hrun
      refine ⟨(flush_backend hrun).trans hi.backend, hsame.valid hi.valid, fun hzero => ?_⟩
      rw [hsame.lineSize] at hzero
      exact List.eq_nil_of_length_eq_zero (by rw [hsame.length, hi.undivided hzero]; rfl)
    · injection hrun with hrun; injection hrun with _ hrun; injection hrun with hcm hsm
      rw [← hcm, ← hsm]
      exact ⟨hi.backend, fun _ he => absurd he List.not_mem_nil, fun _ => rfl⟩
  | some flashOffset =>
    obtain ⟨hsize, hback, hcases⟩ := access_cases ho hrun
    rcases hcases with ⟨i, cm₁, hfind, hmarks⟩ | ⟨cm₁, i, cm₂, sm₂, hfind, halloc, hmarks⟩
    · obtain ⟨hsame, -⟩ := findLine_found hi.valid hfind
      refine ⟨hback.trans hi.backend, hmarks.valid (hsame.valid hi.valid), fun hzero => ?_⟩
      rw [hmarks.lineSize, hsame.lineSize] at hzero
      exact absurd hzero hsize
    · obtain rfl := findLine_miss hfind
      have hv : AllValid { s.cache with misses := s.cache.misses + 1 } := hi.valid
      refine ⟨hback.trans hi.backend, hmarks.valid (allocateLine_valid hv halloc), fun hzero => ?_⟩
      have hline : cm₂.lineSize = s.cache.lineSize := by
        rcases allocateLine_cases halloc with ⟨_, _, _, rfl⟩ | ⟨_, _, cm₃, hsame, _, rfl⟩
        · rfl
        · exact hsame.lineSize
      rw [hmarks.lineSize, hline] at hzero
      exact absurd hzero hsize

/-! ## What the flush leaves of the line -/

/-- A write changes nothing of a range that has no byte in a sector of it. -/
theorem write_apart (hf : b.Framed content) {sm sm' : StorageManager δ}
    (hb : sm.backend = some b) {offset : UInt32} {buf : List UInt8} (hlen : 0 < buf.length)
    {r : Int} (h : sm.write offset buf = some (r, sm')) {lo len : Nat} (hlo : lo < 4294967296)
    (hapart : blockCeil b.sectorSize.toNat (offset.toNat + buf.length) ≤ lo
      ∨ lo + len ≤ blockFloor b.sectorSize.toNat offset.toNat
        ∧ blockCeil b.sectorSize.toNat (offset.toNat + buf.length) < 4294967296) :
    slice (content sm'.device) lo len = slice (content sm.device) lo len := by
  by_cases hcheck : sm.target.size (offset.toNat + buf.length) ≤ b.totalSize.toNat
  · have hS := sector_pos_of_write hb hcheck h
    rcases hapart with hbelow | ⟨habove, hsmall⟩
    · have hkept := write_keeps hb (hf.keeps 0 lo (content sm.device)) hS hlo
        (fun _ => ⟨by omega, fun a _ ha => ⟨Nat.zero_le _, by omega⟩⟩) h (fun _ _ => rfl)
      exact slice_congr fun a h1 _ => hkept a (Or.inr h1)
    · have hkept := write_keeps hb (hf.keeps (lo + len)
        (blockCeil b.sectorSize.toNat (offset.toNat + buf.length)) (content sm.device)) hS hsmall
        (fun _ => ⟨by omega, fun a ha ha' => ⟨by omega, ha'⟩⟩) h (fun _ _ => rfl)
      exact slice_congr fun a _ h2 => hkept a (Or.inl h2)
  · rw [write_refused hb (by omega)] at h
    injection h with h; injection h with _ h
    rw [← h]

/-- **The flush of the eviction saves the line** under the condition. -/
theorem CachedInv.keepsUnsaved (hf : b.Framed content) (ht : b.Truthful content) (hcode : b.Counts)
    (hi : CachedInv b s) (hsafe : VictimSafe content b.sectorSize.toNat s op) :
    KeepsUnsaved content s op := by
  intro flashOffset ho hev
  left
  rintro ⟨i, cm, sm⟩ halloc
  have hfull := hev.1.2
  have hsize : UInt32.ofNat s.cache.lineSize ≠ 0 := fun hzero => by
    rw [hi.undivided hzero] at hfull
    exact absurd hfull (by decide)
  have hline : 0 < s.cache.lineSize :=
    Nat.pos_of_ne_zero fun hzero => hsize (by rw [hzero]; rfl)
  have hlt : s.cache.lruIdx < s.cache.entries.length :=
    lruIdx_lt (Nat.lt_of_lt_of_le (by decide) hfull)
  have hvictim : s.cache.entries.getD s.cache.lruIdx {} ∈ s.cache.entries := by
    rw [List.getD_eq_getElem?_getD, List.getElem?_eq_getElem hlt]
    exact List.getElem_mem hlt
  obtain ⟨j, hj⟩ := exists_firstDirty ⟨_, hvictim, hi.valid _ hvictim, hev.2⟩
  -- the cache that flushes has the same lines
  rcases hfind : s.cache.findLine flashOffset with ⟨_ | k, cm₁⟩
  · obtain rfl := findLine_miss hfind
    rw [hfind] at halloc
    rcases allocateLine_cases halloc with ⟨hroom, _⟩ | ⟨_, rfl, cm₂, _, ⟨hclean, _⟩ | hflush, _⟩
    · exact absurd hroom (Nat.not_lt.mpr hfull)
    · exact absurd (hev.2.symm.trans hclean) (by simp)
    · obtain ⟨_, r, hflush⟩ := hflush
      have hmissed : UInt32.ofNat { s.cache with misses := s.cache.misses + 1 }.lineSize ≠ 0 :=
        hsize
      obtain ⟨_, r', hw⟩ := flush_stops hmissed hi.backend hcode hj hflush
      have hwrite : s.storage.write (linePlace s.cache j) (s.cache.poolLine j) = some (r', sm) := hw
      rcases hsafe flashOffset ho hev j hj with ⟨rfl, hok⟩ | ⟨hold, hapart⟩
      · have hstored := write_stored hi.backend ht hwrite (hok _ hwrite)
        rw [length_poolLine] at hstored
        exact hstored
      · refine (write_apart hf hi.backend (by rw [length_poolLine]; exact hline) hwrite
          (linePlace s.cache s.cache.lruIdx).toNat_lt ?_).trans hold
        rw [length_poolLine]
        exact hapart
  · exact absurd (by rw [Cached, hfind]; rfl) hev.1.1

/-! ## The theorem -/

/-- `CacheManager(pool, poolSize, lineSize)` in front of a storage. -/
def freshCached (pool : Nat → UInt8) (poolSize lineSize : Nat) (sm : StorageManager δ) :
    CachedFlash δ where
  cache := { pool, poolSize, lineSize }
  storage := sm

/--
**When evictions drop no unsaved data.** For every cache over a backend whose operations may fail:
in every run in which each dirty line that goes is the first dirty one and its write succeeds, or
was on flash before and is in no sector of the first dirty one, the flash holds the bytes of each
dirty line when it is replaced.
-/
theorem evictions_keep_unsaved (hf : b.Framed content) (ht : b.Truthful content)
    (hcode : b.Counts) {sm : StorageManager δ} (hb : sm.backend = some b) (pool : Nat → UInt8)
    (poolSize lineSize : Nat) {ops : List CacheManagerCall}
    (hsafe : Along cachedStep (VictimSafe content b.sectorSize.toNat)
      (freshCached pool poolSize lineSize sm) ops) :
    Along cachedStep (KeepsUnsaved content) (freshCached pool poolSize lineSize sm) ops :=
  along_of_invariant (CachedInv b) (fun _ _ _ hi _ h => cachedInv_step hi h)
    (fun _ _ hi hsafe => hi.keepsUnsaved hf ht hcode hsafe)
    ⟨hb, fun _ he => absurd he List.not_mem_nil, fun _ => rfl⟩ hsafe

/-- Writes to line 0, line 1 and so on, up to line `n - 1`. -/
def lineWrites (n : Nat) : List CacheManagerCall :=
  (List.range n).map fun i => .write (UInt32.ofNat (16 * i)) [1]

/-- The first of 64 dirty lines goes, and is written. -/
theorem first_line_saved :
    Along cachedStep (KeepsUnsaved id) (freshCached (fun _ => 0) 1024 16 testStorage)
      (lineWrites 65) :=
  evictions_keep_unsaved (memBackend_framed 0x10000 4096) (memBackend_truthful 0x10000 4096)
    (memBackend_counts 0x10000 4096) rfl _ _ _ (by decide +kernel)

/--
**The second of 64 dirty lines goes**, since line 0 was written again: the flush writes line 0 and
stops, and line 1 is lost on a flash that never fails.
-/
theorem second_line_lost :
    (memBackend 0x10000 4096).Reliable id
      ∧ ¬ Along cachedStep (KeepsUnsaved id) (freshCached (fun _ => 0) 1024 16 testStorage)
        (lineWrites 64 ++ [.write 0 [2], .write 1024 [3]]) :=
  ⟨testFlash_reliable, by decide +kernel⟩

end TaktOS.Proof
