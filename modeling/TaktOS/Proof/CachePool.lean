import TaktOS.Proof.CacheAccess

/-!
# The cache lines and the pool

A line takes the next place until there are 64 of them, and nothing compares their number with the
pool. Without an eviction every line that was accessed since the last `invalidate` has a place of
its own, so the lines leave the pool with the first one for which it has no room.
-/

namespace TaktOS.Proof

open Lib

variable {δ : Type}

/-! ## The lines a call uses -/

/-- The lines that `flush` writes back, from line `i` on, up to where it stops. -/
def flushedLines (cm : CacheManager) : Nat → List CacheEntry → StorageManager δ → List Nat
  | _, [], _ => []
  | i, e :: es, sm =>
    if e.valid && e.dirty then
      i :: match sm.write (e.key * UInt32.ofNat cm.lineSize) (cm.poolLine i) with
        | none => []
        | some (r, sm) => if r ≠ 0 then [] else flushedLines cm (i + 1) es sm
    else flushedLines cm (i + 1) es sm

/-- The lines that an access writes back to make room, and the line it fills or reads. -/
def accessedLines (cm : CacheManager) (sm : StorageManager δ) (flashOffset : UInt32) : List Nat :=
  -- the key comes first, and with it the division
  if UInt32.ofNat cm.lineSize = 0 then []
  else
    match cm.findLine flashOffset with
    | (some i, _) => [i]
    | (none, cm) =>
      (if kMaxLines ≤ cm.entries.length ∧ (cm.entries.getD cm.lruIdx {}).dirty then
        flushedLines cm 0 cm.entries sm else [])
        ++ match cm.allocateLine sm flashOffset with
          | none => []
          | some (i, _, _) => [i]

def usedLines (cm : CacheManager) (sm : StorageManager δ) : CacheManagerCall → List Nat
  | .read flashOffset _ => accessedLines cm sm flashOffset
  | .write flashOffset _ => accessedLines cm sm flashOffset
  | .flush => flushedLines cm 0 cm.entries sm
  | .invalidate => []

theorem usedLines_access {cm : CacheManager} {sm : StorageManager δ} {op : CacheManagerCall}
    {flashOffset : UInt32} (ho : op.offset = some flashOffset) :
    usedLines cm sm op = accessedLines cm sm flashOffset := by
  rcases CacheManagerCall.offset_some ho with ⟨buf, rfl⟩ | ⟨data, rfl⟩
  · rfl
  · rfl

/-- Only lines there are are written back. -/
theorem flushedLines_lt {cm : CacheManager} : ∀ {es : List CacheEntry} {i j : Nat}
    {sm : StorageManager δ}, j ∈ flushedLines cm i es sm → j < i + es.length := by
  intro es
  induction es with
  | nil => intro i j sm h; exact absurd h List.not_mem_nil
  | cons e es ih =>
    intro i j sm h
    rw [flushedLines] at h
    rw [List.length_cons]
    split at h
    · rcases List.mem_cons.mp h with rfl | h
      · omega
      · split at h
        · exact absurd h List.not_mem_nil
        · split at h
          · exact absurd h List.not_mem_nil
          · have := ih h
            omega
    · have := ih h
      omega

/-! ## Runs -/

/-- The cache with the lines accessed since the last `invalidate`, each of them once. -/
structure PoolHistory (δ : Type) where
  cache : CacheManager
  storage : StorageManager δ
  lines : List Nat := []

namespace PoolHistory

/-- The lines after an access to the offset. -/
def seeing (s : PoolHistory δ) (flashOffset : UInt32) : List Nat :=
  let k := (s.cache.lineKey flashOffset).toNat
  if k ∈ s.lines then s.lines else s.lines ++ [k]

/-- The lines after a call. -/
def after (s : PoolHistory δ) : CacheManagerCall → List Nat
  | .read flashOffset _ => s.seeing flashOffset
  | .write flashOffset _ => s.seeing flashOffset
  | .flush => s.lines
  | .invalidate => []

end PoolHistory

def poolStep (s : PoolHistory δ) (op : CacheManagerCall) : Option (PoolHistory δ) :=
  (op.run s.cache s.storage).map fun (_, cache, storage) =>
    { cache, storage, lines := s.after op }

/-- **Every line that is used ends inside the pool.** -/
def LinesInPool (s : PoolHistory δ) (op : CacheManagerCall) : Prop :=
  ∀ i ∈ usedLines s.cache s.storage op, (i + 1) * s.cache.lineSize ≤ s.cache.poolSize

instance (s : PoolHistory δ) (op : CacheManagerCall) : Decidable (LinesInPool s op) :=
  inferInstanceAs (Decidable (∀ i ∈ usedLines s.cache s.storage op, _))

/-- A line that was not accessed before has room behind the others, if there are fewer than 64. -/
def NewLineFits (s : PoolHistory δ) (op : CacheManagerCall) : Prop :=
  ∀ flashOffset ∈ op.offset, (s.cache.lineKey flashOffset).toNat ∉ s.lines →
    s.lines.length < kMaxLines → (s.lines.length + 1) * s.cache.lineSize ≤ s.cache.poolSize

instance (s : PoolHistory δ) (op : CacheManagerCall) : Decidable (NewLineFits s op) :=
  -- by the one offset there is, not by a search through all 2 ^ 32
  Option.decidableForallMem op.offset

/-! ## The invariant -/

/-- There are as many lines as were accessed, up to 64, and they are in the pool. -/
structure PoolInv (s : PoolHistory δ) : Prop where
  first : s.cache.lineSize ≤ s.cache.poolSize
  undivided : UInt32.ofNat s.cache.lineSize = 0 → s.lines = []
  valid : AllValid s.cache
  length : s.cache.entries.length = min s.lines.length kMaxLines
  fits : s.cache.entries.length * s.cache.lineSize ≤ s.cache.poolSize
  accessed : ∀ k ∈ cachedKeys s.cache, k ∈ s.lines
  cached : s.lines.length ≤ kMaxLines → ∀ k ∈ s.lines, k ∈ cachedKeys s.cache

variable {s s' : PoolHistory δ} {op : CacheManagerCall}

theorem PoolInv.line_in_pool (hi : PoolInv s) {i : Nat} (h : i < s.cache.entries.length) :
    (i + 1) * s.cache.lineSize ≤ s.cache.poolSize :=
  Nat.le_trans (Nat.mul_le_mul_right _ h) hi.fits

/-- A line for which there is still a place was not accessed before. -/
theorem PoolInv.not_accessed (hi : PoolInv s) {k : Nat} (hk : k ∉ cachedKeys s.cache)
    (hroom : s.cache.entries.length < kMaxLines) :
    k ∉ s.lines ∧ s.lines.length = s.cache.entries.length := by
  have hlen := hi.length
  exact ⟨fun hmem => hk (hi.cached (by omega) k hmem), by omega⟩

/-- The lines a call uses are those there are, and the new one. -/
theorem PoolInv.uses_iff (hi : PoolInv s) : NewLineFits s op ↔ LinesInPool s op := by
  have hflushed : ∀ {cm : CacheManager} {i : Nat}, cm.entries.length = s.cache.entries.length →
      i ∈ flushedLines cm 0 cm.entries s.storage →
      (i + 1) * s.cache.lineSize ≤ s.cache.poolSize := fun hlen hmem =>
    hi.line_in_pool (by have := flushedLines_lt hmem; omega)
  cases ho : op.offset with
  | none =>
    constructor
    · intro _ i hmem
      rcases CacheManagerCall.offset_none ho with rfl | rfl
      · exact hflushed rfl hmem
      · exact absurd hmem List.not_mem_nil
    · intro _ off hoff
      rw [ho] at hoff
      exact absurd hoff (by simp)
  | some flashOffset =>
    rw [LinesInPool, usedLines_access ho]
    have hnew : NewLineFits s op ↔ ((s.cache.lineKey flashOffset).toNat ∉ s.lines →
        s.lines.length < kMaxLines →
          (s.lines.length + 1) * s.cache.lineSize ≤ s.cache.poolSize) := by
      rw [NewLineFits, ho]
      exact ⟨fun h => h _ rfl, fun h off hoff => by rw [← Option.some.inj hoff]; exact h⟩
    rw [hnew, accessedLines]
    split
    · -- no access gets past the division, so there is no line yet
      rename_i hzero
      refine ⟨fun _ i hmem => absurd hmem List.not_mem_nil, fun _ _ _ => ?_⟩
      rw [hi.undivided hzero, List.length_nil, Nat.zero_add, Nat.one_mul]
      exact hi.first
    · rcases findLine_cases hi.valid flashOffset with ⟨i, cm, hfind, _, hslot⟩
        | ⟨cm, hfind, hsame, hmiss⟩
      · rw [hfind]
        obtain ⟨hlt, _⟩ := List.getElem?_eq_some_iff.mp hslot
        rw [cachedKeys, List.length_map] at hlt
        constructor
        · intro _ j hmem
          rw [List.mem_singleton.mp hmem]
          exact hi.line_in_pool hlt
        · exact fun _ hnot => absurd (hi.accessed _ (List.mem_of_getElem? hslot)) hnot
      · rw [hfind]
        dsimp only
        rcases Nat.lt_or_ge s.cache.entries.length kMaxLines with hroom | hfull
        · -- a new place, behind the others
          obtain ⟨hnot, hlen⟩ := hi.not_accessed hmiss hroom
          have halloc : ∃ cm', cm.allocateLine s.storage flashOffset
              = some (s.cache.entries.length, cm', s.storage) := by
            rw [CacheManager.allocateLine, if_pos (by rw [hsame.length]; exact hroom),
              hsame.length]
            exact ⟨_, rfl⟩
          obtain ⟨cm', halloc⟩ := halloc
          rw [if_neg (by rw [hsame.length]; exact fun h => Nat.not_le.mpr hroom h.1), halloc]
          dsimp only
          rw [List.nil_append, hlen]
          constructor
          · intro h j hmem
            rw [List.mem_singleton.mp hmem]
            exact h hnot hroom
          · intro h _ _
            exact h _ (List.mem_singleton_self _)
        · have hlen := hi.length
          refine ⟨fun _ i hmem => ?_, fun _ _ hlt => absurd hlt (by omega)⟩
          rcases List.mem_append.mp hmem with hmem | hmem
          · split at hmem
            · exact hflushed hsame.length hmem
            · exact absurd hmem List.not_mem_nil
          · split at hmem
            · exact absurd hmem List.not_mem_nil
            · rename_i j cm' sm' halloc
              rw [List.mem_singleton.mp hmem]
              have hpos : 0 < cm.entries.length := by
                rw [hsame.length]
                exact Nat.lt_of_lt_of_le (by decide) hfull
              rcases allocateLine_cases halloc with ⟨hroom, _⟩ | ⟨_, hj, _⟩
              · exact absurd hroom (by rw [hsame.length]; omega)
              · refine hi.line_in_pool ?_
                rw [hj, ← hsame.length]
                exact lruIdx_lt hpos

/-- A cache without lines, of which none was accessed. -/
theorem PoolInv.empty {cm : CacheManager} (hle : cm.lineSize ≤ cm.poolSize)
    (hnone : cm.entries = []) (sm : StorageManager δ) :
    PoolInv { cache := cm, storage := sm, lines := [] } where
  first := hle
  undivided := fun _ => rfl
  valid := fun e he => by rw [hnone] at he; exact absurd he List.not_mem_nil
  length := by rw [hnone]; rfl
  fits := by rw [hnone, List.length_nil, Nat.zero_mul]; exact Nat.zero_le _
  accessed := fun k hk => by rw [cachedKeys, hnone] at hk; exact absurd hk List.not_mem_nil
  cached := fun _ _ hk => absurd hk List.not_mem_nil

/-- The same lines are accessed with another cache that has them. -/
theorem PoolInv.same (hi : PoolInv s) {cm : CacheManager} {sm : StorageManager δ}
    (hpool : cm.poolSize = s.cache.poolSize) (hsize : cm.lineSize = s.cache.lineSize)
    (hlen : cm.entries.length = s.cache.entries.length) (hkeys : cachedKeys cm = cachedKeys s.cache)
    (hv : AllValid cm) : PoolInv { s with cache := cm, storage := sm } where
  first := by rw [hpool, hsize]; exact hi.first
  undivided := fun h => hi.undivided (by rw [← hsize]; exact h)
  valid := hv
  length := hlen.trans hi.length
  fits := by rw [hpool, hsize, hlen]; exact hi.fits
  accessed := fun k hk => hi.accessed k (by rw [← hkeys]; exact hk)
  cached := fun h k hk => by rw [hkeys]; exact hi.cached h k hk

theorem PoolHistory.mem_seeing {flashOffset : UInt32} {k : Nat} :
    k ∈ s.seeing flashOffset ↔ k ∈ s.lines ∨ k = (s.cache.lineKey flashOffset).toNat := by
  unfold PoolHistory.seeing
  dsimp only
  split
  · rename_i hmem
    exact ⟨.inl, fun h => h.elim id fun hk => hk ▸ hmem⟩
  · rw [List.mem_append, List.mem_singleton]

/-- A line that was allocated is one of the lines, and of those that were accessed. -/
theorem PoolInv.allocated (hi : PoolInv s) {flashOffset : UInt32}
    (hsize : UInt32.ofNat s.cache.lineSize ≠ 0) (ho : op.offset = some flashOffset)
    (hfit : NewLineFits s op) {cm₁ cm₂ cm : CacheManager} {i : Nat} {sm₂ sm : StorageManager δ}
    (hsame : SameLines s.cache cm₁)
    (hmiss : (s.cache.lineKey flashOffset).toNat ∉ cachedKeys s.cache)
    (halloc : cm₁.allocateLine s.storage flashOffset = some (i, cm₂, sm₂))
    (hmarks : SameMarks cm₂ cm) :
    PoolInv { cache := cm, storage := sm, lines := s.seeing flashOffset } := by
  have hkey : (freshEntry cm₁ flashOffset).key.toNat = (s.cache.lineKey flashOffset).toNat :=
    congrArg UInt32.toNat (hsame.lineKey flashOffset)
  have hlen := hi.length
  have hvalid := hmarks.valid (allocateLine_valid (hsame.valid hi.valid) halloc)
  rcases allocateLine_cases halloc with ⟨hroom, rfl, rfl, rfl⟩
    | ⟨hfull, rfl, cm₃, hsame₃, _, rfl⟩
  · -- behind the others: it was not accessed before
    rw [hsame.length] at hroom
    obtain ⟨hnot, hlines⟩ := hi.not_accessed hmiss hroom
    have hkeys : cachedKeys cm = cachedKeys s.cache ++ [(s.cache.lineKey flashOffset).toNat] := by
      rw [hmarks.keys, ← hsame.keys, ← hkey, cachedKeys, List.map_append]
      rfl
    have hlength : cm.entries.length = s.cache.entries.length + 1 := by
      rw [hmarks.length, List.length_append, hsame.length, List.length_singleton]
    have hsee : s.seeing flashOffset = s.lines ++ [(s.cache.lineKey flashOffset).toNat] :=
      if_neg hnot
    have hline : cm.lineSize = s.cache.lineSize := hmarks.lineSize.trans hsame.lineSize
    have hpool : cm.poolSize = s.cache.poolSize := hmarks.poolSize.trans hsame.poolSize
    refine ⟨?_, ?_, ?_, ?_, ?_, ?_, ?_⟩
    · rw [hpool, hline]
      exact hi.first
    · intro hzero
      rw [hline] at hzero
      exact absurd hzero hsize
    · exact hvalid
    · rw [hsee, hlength, List.length_append, List.length_singleton]
      omega
    · rw [hpool, hline, hlength, ← hlines]
      exact hfit flashOffset ho hnot (by omega)
    · intro k hk
      rw [hkeys] at hk
      rw [PoolHistory.mem_seeing]
      rcases List.mem_append.mp hk with hmem | hnew
      · exact .inl (hi.accessed k hmem)
      · exact .inr (List.mem_singleton.mp hnew)
    · intro _ k hk
      rw [hsee] at hk
      rw [hkeys]
      rcases List.mem_append.mp hk with hmem | hnew
      · exact List.mem_append_left _ (hi.cached (by omega) k hmem)
      · exact List.mem_append_right _ hnew
  · -- in the place of another: there are more lines than places
    have hkeys : cachedKeys cm
        = (cachedKeys s.cache).set cm₁.lruIdx (s.cache.lineKey flashOffset).toNat := by
      rw [hmarks.keys, cachedKeys, List.map_set, hkey, ← hsame.keys, ← hsame₃.keys]
      rfl
    have hlength : cm.entries.length = s.cache.entries.length := by
      rw [hmarks.length, List.length_set, hsame₃.length, hsame.length]
    have hline : cm.lineSize = s.cache.lineSize :=
      hmarks.lineSize.trans (hsame₃.lineSize.trans hsame.lineSize)
    have hpool : cm.poolSize = s.cache.poolSize :=
      hmarks.poolSize.trans (hsame₃.poolSize.trans hsame.poolSize)
    rw [hsame.length] at hfull
    have hmore : kMaxLines < (s.seeing flashOffset).length := by
      unfold PoolHistory.seeing
      dsimp only
      split
      · rename_i hmem
        exact Nat.lt_of_not_le fun hle => hmiss (hi.cached hle _ hmem)
      · rw [List.length_append, List.length_singleton]
        omega
    refine ⟨?_, ?_, ?_, ?_, ?_, ?_, fun hle => absurd hle (Nat.not_le.mpr hmore)⟩
    · rw [hpool, hline]
      exact hi.first
    · intro hzero
      rw [hline] at hzero
      exact absurd hzero hsize
    · exact hvalid
    · show cm.entries.length = min (s.seeing flashOffset).length kMaxLines
      rw [hlength]
      omega
    · rw [hpool, hline, hlength]
      exact hi.fits
    · intro k hk
      rw [hkeys] at hk
      rw [PoolHistory.mem_seeing]
      rcases List.mem_or_eq_of_mem_set hk with hmem | heq
      · exact .inl (hi.accessed k hmem)
      · exact .inr heq

/-- **Every call keeps the invariant**, if a new line has room. -/
theorem poolInv_step (hi : PoolInv s) (hfit : NewLineFits s op) (h : poolStep s op = some s') :
    PoolInv s' := by
  obtain ⟨⟨r, cm, sm⟩, hrun, rfl⟩ := Option.map_eq_some_iff.mp h
  cases ho : op.offset with
  | none =>
    rcases CacheManagerCall.offset_none ho with rfl | rfl
    · have hsame := flush_sameMarks hrun
      exact hi.same hsame.poolSize hsame.lineSize hsame.length hsame.keys (hsame.valid hi.valid)
    · injection hrun with hrun; injection hrun with _ hrun; injection hrun with hcm _
      rw [← hcm]
      exact .empty (show s.cache.invalidate.lineSize ≤ s.cache.invalidate.poolSize from hi.first)
        rfl sm
  | some flashOffset =>
    have hafter : s.after op = s.seeing flashOffset := by
      rcases CacheManagerCall.offset_some ho with ⟨buf, rfl⟩ | ⟨data, rfl⟩
      · rfl
      · rfl
    dsimp only
    rw [hafter]
    obtain ⟨hsize, _, ⟨i, cm₁, hfind, hmarks⟩ | ⟨cm₁, i, cm₂, sm₂, hfind, halloc, hmarks⟩⟩ :=
      access_cases ho hrun
    · obtain ⟨hsame, hslot⟩ := findLine_found hi.valid hfind
      have hsee : s.seeing flashOffset = s.lines :=
        if_pos (hi.accessed _ (List.mem_of_getElem? hslot))
      rw [hsee]
      exact hi.same (hmarks.poolSize.trans hsame.poolSize) (hmarks.lineSize.trans hsame.lineSize)
        (hmarks.length.trans hsame.length) (hmarks.keys.trans hsame.keys)
        (hmarks.valid (hsame.valid hi.valid))
    · obtain ⟨hsame, hmiss⟩ := findLine_missed hi.valid hfind
      exact hi.allocated hsize ho hfit hsame hmiss halloc hmarks

/-! ## The theorem -/

/-- `CacheManager(pool, poolSize, lineSize)` before the first call. -/
def freshPool (pool : Nat → UInt8) (poolSize lineSize : Nat) (sm : StorageManager δ) :
    PoolHistory δ where
  cache := { pool, poolSize, lineSize }
  storage := sm

/--
**When the lines stay in the pool.** For every pool that has room for one line, over any storage,
and every sequence of calls: the lines that are filled, read and written back end inside the pool
exactly if, whenever fewer than 64 lines were accessed since the last `invalidate`, a line that
was not among them still has room behind them.
-/
theorem lines_in_pool_iff (pool : Nat → UInt8) {poolSize lineSize : Nat}
    (hle : lineSize ≤ poolSize) (sm : StorageManager δ) (ops : List CacheManagerCall) :
    Along poolStep LinesInPool (freshPool pool poolSize lineSize sm) ops
      ↔ Along poolStep NewLineFits (freshPool pool poolSize lineSize sm) ops :=
  (along_iff_of_invariant PoolInv (fun _ _ _ hi hfit h => poolInv_step hi hfit h)
    (fun _ _ hi => hi.uses_iff) (.empty hle rfl sm)).symm

/-- Two lines in a pool for two, and again after an `invalidate`. -/
theorem lines_in_pool_two :
    Along poolStep LinesInPool (freshPool (fun _ => 0) 512 256 testStorage)
      [.write 0 [1], .write 256 [2], .read 10 [0], .flush, .invalidate, .write 512 [3],
        .write 768 [4]] :=
  (lines_in_pool_iff (fun _ => 0) (by decide) testStorage _).mpr (by decide +kernel)

/--
**The 33rd line of a pool for 32** is at the end of the pool: nothing stops the writes of 33
lines of 256 bytes to a pool of 8192.
-/
theorem line_outside_pool :
    256 ≤ 8192
      ∧ ¬ Along poolStep LinesInPool (freshPool (fun _ => 0) 8192 256 testStorage)
        ((List.range 33).map fun i => .write (UInt32.ofNat (256 * i)) [1]) := by
  decide

end TaktOS.Proof
