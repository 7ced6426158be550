import TaktOS.Proof.CacheAccess

/-!
# A line that could not be loaded

A read that misses enters the line as valid and loads it afterwards. Where the load fails the read
says so, but nothing takes the entry back: the next read of the line finds it, and answers with the
pool bytes of the line that was there before.
-/

namespace TaktOS.Proof

open Lib

variable {δ : Type}

/-- A read of the offset misses, and the line it allocates in the pool cannot be loaded. -/
def FillFails (cm : CacheManager) (sm : StorageManager δ) (flashOffset : UInt32) : Prop :=
  UInt32.ofNat cm.lineSize ≠ 0 ∧ ¬ Cached cm flashOffset
    ∧ ∃ t ∈ (cm.findLine flashOffset).2.allocateLine sm flashOffset,
      t.2.1.inPool t.1 = true
        ∧ (t.2.2.read (cm.lineKey flashOffset * UInt32.ofNat cm.lineSize)
          (t.2.1.poolLine t.1)).1 ≠ 0

/-- Every read in the line is answered with bytes of the pool, and the flash is not asked. -/
def AnsweredFromPool (cm : CacheManager) (flashOffset : UInt32) : Prop :=
  ∀ {ε : Type} (sm : StorageManager ε) (next : UInt32) (buf : List UInt8),
    cm.lineKey next = cm.lineKey flashOffset → ∃ i, (cm.findLine next).1 = some i
      ∧ cm.read sm next buf = some (castInt (cm.copyLen next buf.length),
        slice cm.pool (i * cm.lineSize + next.toNat % cm.lineSize) (cm.copyLen next buf.length)
          ++ buf.drop (cm.copyLen next buf.length), (cm.findLine next).2, sm)

/-! ## The entry of the line -/

/-- The line that was allocated is the entry's. -/
theorem allocateLine_entry {cm cm' : CacheManager} {sm sm' : StorageManager δ}
    {flashOffset : UInt32} {i : Nat} (h : cm.allocateLine sm flashOffset = some (i, cm', sm')) :
    cm'.entries[i]? = some (freshEntry cm flashOffset) ∧ cm'.lineSize = cm.lineSize
      ∧ cm'.poolSize = cm.poolSize := by
  rcases allocateLine_cases h with ⟨_, rfl, _, rfl⟩ | ⟨hfull, rfl, cm₁, hsame, _, rfl⟩
  · exact ⟨by simp, rfl, rfl⟩
  · have hlt : cm.lruIdx < cm₁.entries.length := by
      rw [hsame.length]
      exact lruIdx_lt (Nat.lt_of_lt_of_le (by decide) hfull)
    exact ⟨List.getElem?_set_self hlt, hsame.lineSize, hsame.poolSize⟩

/-- An entry with the key of the offset is found, or one before it. -/
theorem findLine_of_entry {cm : CacheManager} {flashOffset : UInt32} {i : Nat} {e : CacheEntry}
    (he : cm.entries[i]? = some e) (hv : e.valid = true) (hk : e.key = cm.lineKey flashOffset) :
    ∃ j, (cm.findLine flashOffset).1 = some j ∧ j ≤ i := by
  obtain ⟨hi, hget⟩ := List.getElem?_eq_some_iff.mp he
  have hp : (cm.entries[i].valid && cm.entries[i].key == cm.lineKey flashOffset) = true := by
    simp [hget, hv, hk]
  unfold CacheManager.findLine
  cases hfind : cm.entries.findIdx? (fun e => e.valid && e.key == cm.lineKey flashOffset) with
  | none =>
    have hno := List.findIdx?_eq_none_iff.mp hfind _ (List.getElem_mem hi)
    rw [hp] at hno
    exact absurd hno (by simp)
  | some j =>
    refine ⟨j, rfl, Nat.le_of_not_lt fun hlt => ?_⟩
    obtain ⟨_, _, hbefore⟩ := List.findIdx?_eq_some_iff_getElem.mp hfind
    exact hbefore i hlt hp

/-- A line that is found in the pool is copied out of it. -/
theorem read_found {cm : CacheManager} (hsize : UInt32.ofNat cm.lineSize ≠ 0) {i : Nat}
    {flashOffset : UInt32} (hfind : (cm.findLine flashOffset).1 = some i)
    (hpool : cm.inPool i = true) (sm : StorageManager δ) (buf : List UInt8) :
    cm.read sm flashOffset buf = some (castInt (cm.copyLen flashOffset buf.length),
      slice cm.pool (i * cm.lineSize + flashOffset.toNat % cm.lineSize)
          (cm.copyLen flashOffset buf.length)
        ++ buf.drop (cm.copyLen flashOffset buf.length), (cm.findLine flashOffset).2, sm) := by
  rcases hline : cm.findLine flashOffset with ⟨found, cm₁⟩
  obtain rfl : found = some i := by rw [← hfind, hline]
  obtain ⟨_, rfl⟩ := findLine_hit hline
  have hin : ¬ (!cm.inPool i) = true := by
    rw [hpool]
    decide
  rw [CacheManager.read, if_neg hsize, hline]
  exact if_neg hin

/-- A valid line in the pool answers, whatever its bytes are. -/
theorem answered_of_entry {cm : CacheManager} {flashOffset : UInt32} {i : Nat} {e : CacheEntry}
    (hsize : UInt32.ofNat cm.lineSize ≠ 0) (he : cm.entries[i]? = some e) (hv : e.valid = true)
    (hk : e.key = cm.lineKey flashOffset) (hpool : cm.inPool i = true) :
    Cached cm flashOffset ∧ AnsweredFromPool cm flashOffset := by
  constructor
  · obtain ⟨j, hj, _⟩ := findLine_of_entry he hv hk
    rw [Cached, hj]
    rfl
  · intro ε sm next buf hnext
    obtain ⟨j, hj, hle⟩ := findLine_of_entry he hv (hk.trans hnext.symm)
    have hmul := Nat.mul_le_mul_right cm.lineSize (Nat.succ_le_succ hle)
    have hpool' : cm.inPool j = true :=
      decide_eq_true (Nat.le_trans hmul (of_decide_eq_true hpool))
    exact ⟨j, hj, read_found hsize hj hpool' sm buf⟩

/-! ## The theorem -/

/--
**A line that could not be loaded stays in the cache.** Whatever the cache held and however the
flash fails: the read returns -1, the line is found afterwards, and from then on it is read out of
the pool as if it had been loaded.
-/
theorem failed_fill_stays_cached {cm : CacheManager} {sm : StorageManager δ} {flashOffset : UInt32}
    (h : FillFails cm sm flashOffset) (buf : List UInt8) :
    ∃ cm' sm', cm.read sm flashOffset buf = some (-1, buf, cm', sm') ∧ Cached cm' flashOffset
      ∧ AnsweredFromPool cm' flashOffset := by
  obtain ⟨hsize, hmiss, ⟨i, cm₂, sm₂⟩, halloc, hpool, hload⟩ := h
  rcases hline : cm.findLine flashOffset with ⟨_ | j, cm₁⟩
  case some =>
    rw [Cached, hline] at hmiss
    exact absurd rfl hmiss
  rw [hline] at halloc
  have halloc : cm₁.allocateLine sm flashOffset = some (i, cm₂, sm₂) := halloc
  obtain ⟨hentry, hls, _⟩ := allocateLine_entry halloc
  rw [findLine_miss hline] at hentry hls
  have hls : cm₂.lineSize = cm.lineSize := hls
  have hkey : cm₂.lineKey flashOffset = cm.lineKey flashOffset := by
    rw [CacheManager.lineKey, CacheManager.lineKey, hls]
  have hin : ¬ (!cm₂.inPool i) = true := by
    rw [show cm₂.inPool i = true from hpool]
    decide
  have hbad : (sm₂.read (cm₂.lineKey flashOffset * UInt32.ofNat cm₂.lineSize)
      (cm₂.poolLine i)).1 ≠ 0 := by
    rw [hkey, hls]
    exact hload
  have hread : cm.read sm flashOffset buf = some (-1, buf,
      { cm₂ with
        pool := overlay cm₂.pool (i * cm₂.lineSize)
          (sm₂.read (cm₂.lineKey flashOffset * UInt32.ofNat cm₂.lineSize) (cm₂.poolLine i)).2.1 },
      (sm₂.read (cm₂.lineKey flashOffset * UInt32.ofNat cm₂.lineSize)
        (cm₂.poolLine i)).2.2) := by
    rw [CacheManager.read, if_neg hsize, hline]
    dsimp only
    rw [halloc]
    dsimp only
    rw [if_neg hin, if_pos hbad]
  -- the load changes the pool only, and the entry is found as it was made
  exact ⟨_, _, hread, answered_of_entry (by rw [← hls] at hsize; exact hsize) hentry rfl
    hkey.symm hpool⟩

/-- A flash of 64 KiB that cannot be read. -/
def unreadable : StorageManager (Nat → UInt8) :=
  { testStorage with
    backend := some { memBackend 0x10000 4096 with read := fun mem _ buf => (-1, buf, mem) } }

/-- A cache of two lines of 16 bytes, with 7 in its memory. -/
def sevens : CacheManager := { pool := fun _ => 7, poolSize := 32, lineSize := 16 }

theorem fill_fails_stays_cached : ∃ cm' sm',
    sevens.read unreadable 0x20 [0] = some (-1, [0], cm', sm') ∧ Cached cm' 0x20
      ∧ AnsweredFromPool cm' 0x20 :=
  failed_fill_stays_cached ⟨by decide, by decide, (0, _, _), rfl, by decide, by decide⟩ [0]

/-- **The next read returns 1, and 7**, which was never on the flash. -/
theorem stale_byte_read :
    ∃ cm' sm', sevens.read unreadable 0x20 [0] = some (-1, [0], cm', sm') ∧ Cached cm' 0x20
      ∧ (cm'.read sm' 0x20 [0]).map (fun t => (t.1, t.2.1)) = some (1, [7])
      ∧ testStorage.device 0x20 ≠ 7 := by
  refine ⟨_, _, rfl, ?_, ?_, ?_⟩
  · decide
  · decide
  · decide

end TaktOS.Proof
