import Mathlib.Order.Nat
import TaktOS.Lib.LeftmostMin
import TaktOS.Proof.CacheAccess

/-!
# Which line is evicted

A hit leaves the number of the access in the entry, the allocation of a line leaves 0. So the least
stamp is that of the line accessed longest ago only among lines that were found again since they
entered; a line that was not comes before all of them, and of several the first place.
-/

namespace TaktOS.Proof

open Lib

variable {δ : Type}

/-! ## The scan -/

theorem lruLoop_leftmost : ∀ {es : List CacheEntry} {xs : List Nat} {lruIdx : Nat}
    {lruAccess : UInt32}, LeftmostMin xs lruIdx lruAccess.toNat →
    ∃ x, LeftmostMin (xs ++ es.map fun e => e.lastAccess.toNat)
      (CacheManager.lruLoop es xs.length lruIdx lruAccess) x := by
  intro es
  induction es with
  | nil => intro xs lruIdx lruAccess h; exact ⟨_, by rw [List.map_nil, List.append_nil]; exact h⟩
  | cons e es ih =>
    intro xs lruIdx lruAccess h
    rw [CacheManager.lruLoop, List.map_cons, List.append_cons]
    have hlen : xs.length + 1 = (xs ++ [e.lastAccess.toNat]).length := by
      rw [List.length_append, List.length_singleton]
    rw [hlen]
    split
    · rename_i hlt
      exact ih (h.concat_lt (UInt32.lt_iff_toNat_lt.mp hlt))
    · rename_i hge
      exact ih (h.concat_ge (Nat.le_of_not_lt fun hlt => hge (UInt32.lt_iff_toNat_lt.mpr hlt)))

/-- **The entry that is evicted has the least stamp**, and is the first that has. -/
theorem lruIdx_leftmost {cm : CacheManager} (h : 0 < cm.entries.length) :
    ∃ x, LeftmostMin (cm.entries.map fun e => e.lastAccess.toNat) cm.lruIdx x := by
  unfold CacheManager.lruIdx
  cases hes : cm.entries with
  | nil => rw [hes] at h; exact absurd h (Nat.lt_irrefl 0)
  | cons e es => exact @lruLoop_leftmost es _ _ _ (.singleton e.lastAccess.toNat)

/-! ## Runs -/

/-- When a line was accessed last, and whether it was found again since it entered. -/
structure LineUse where
  last : Nat := 0
  hit : Bool := false
  deriving DecidableEq

/-- The cache with the accesses since the last `invalidate`: how many there were, and of the line
at each place the last one. -/
structure LruHistory (δ : Type) where
  cache : CacheManager
  storage : StorageManager δ
  accesses : Nat := 0
  uses : List LineUse := []

namespace LruHistory

/-- The lines after an access to the offset. -/
def accessing (s : LruHistory δ) (flashOffset : UInt32) : List LineUse :=
  let now := s.accesses + 1
  match (s.cache.findLine flashOffset).1 with
  | some i => s.uses.set i { last := now, hit := true }
  | none =>
    if s.cache.entries.length < kMaxLines then s.uses ++ [{ last := now, hit := false }]
    else s.uses.set s.cache.lruIdx { last := now, hit := false }

end LruHistory

def lruStep (s : LruHistory δ) (op : CacheManagerCall) : Option (LruHistory δ) :=
  (op.run s.cache s.storage).map fun (_, cache, storage) =>
    match op with
    | .read flashOffset _ =>
      { cache, storage, accesses := s.accesses + 1, uses := s.accessing flashOffset }
    | .write flashOffset _ =>
      { cache, storage, accesses := s.accesses + 1, uses := s.accessing flashOffset }
    | .flush => { s with cache, storage }
    | .invalidate => { cache, storage }

/-- No line was last accessed before the one at `i`. -/
def Oldest (uses : List LineUse) (i : Nat) : Prop := ∀ u ∈ uses, (uses.getD i {}).last ≤ u.last

instance (uses : List LineUse) (i : Nat) : Decidable (Oldest uses i) :=
  inferInstanceAs (Decidable (∀ u ∈ uses, _))

/-- **The line that is replaced is the one accessed longest ago.** -/
def EvictsOldest (s : LruHistory δ) (op : CacheManagerCall) : Prop :=
  ∀ flashOffset ∈ op.offset, Evicts s.cache flashOffset → s.accesses < 4294967296 →
    Oldest s.uses s.cache.lruIdx

instance (s : LruHistory δ) (op : CacheManagerCall) : Decidable (EvictsOldest s op) :=
  Option.decidableForallMem op.offset

/-- If a line was not found again since it entered, the first such line is the one accessed longest
ago. -/
def UnhitOldest (s : LruHistory δ) (op : CacheManagerCall) : Prop :=
  ∀ flashOffset ∈ op.offset, Evicts s.cache flashOffset → s.accesses < 4294967296 →
    ∀ i ∈ s.uses.findIdx? fun u => !u.hit, Oldest s.uses i

instance (s : LruHistory δ) (op : CacheManagerCall) : Decidable (UnhitOldest s op) :=
  Option.decidableForallMem op.offset

/-! ## The stamps -/

/-- What a line's entry has for its last access. -/
def LineUse.stamp (u : LineUse) : UInt32 := if u.hit then UInt32.ofNat u.last else 0

/-- The counters together count the accesses, and the entries have the stamps. -/
structure LruInv (s : LruHistory δ) : Prop where
  count : s.cache.hits + s.cache.misses = UInt32.ofNat s.accesses
  stamps : s.cache.entries.map (fun e => e.lastAccess) = s.uses.map LineUse.stamp
  times : ∀ u ∈ s.uses, 0 < u.last ∧ u.last ≤ s.accesses

variable {s s' : LruHistory δ} {op : CacheManagerCall}

theorem LruInv.length (hi : LruInv s) : s.cache.entries.length = s.uses.length := by
  have := congrArg List.length hi.stamps
  rwa [List.length_map, List.length_map] at this

theorem SameMarks.stamps {cm cm' : CacheManager} (h : SameMarks cm cm') :
    cm'.entries.map (fun e => e.lastAccess) = cm.entries.map fun e => e.lastAccess :=
  h.map (fun p => p.2.2) fun _ => rfl

/-- Below 2 ^ 32 accesses a stamp is the number of the last one, or 0. -/
theorem LruInv.stamps_toNat (hi : LruInv s) (h : s.accesses < 4294967296) :
    (s.cache.entries.map fun e => e.lastAccess.toNat)
      = s.uses.map fun u => if u.hit then u.last else 0 := by
  have hmap : (s.cache.entries.map fun e => e.lastAccess.toNat)
      = (s.cache.entries.map fun e => e.lastAccess).map UInt32.toNat := by
    rw [List.map_map]
    rfl
  rw [hmap, hi.stamps, List.map_map]
  refine List.map_congr_left fun u hu => ?_
  have hle := (hi.times u hu).2
  show u.stamp.toNat = _
  unfold LineUse.stamp
  split
  · rw [UInt32.toNat_ofNat']
    exact Nat.mod_eq_of_lt (by omega)
  · rfl

/-- **The first line that was not found again goes**, and without one the oldest line. -/
theorem LruInv.evicts_iff (hi : LruInv s) : EvictsOldest s op ↔ UnhitOldest s op := by
  have hkey : ∀ flashOffset, Evicts s.cache flashOffset → s.accesses < 4294967296 →
      (Oldest s.uses s.cache.lruIdx ↔ ∀ i ∈ s.uses.findIdx? fun u => !u.hit, Oldest s.uses i) := by
    intro flashOffset hev hsmall
    obtain ⟨x, hmin⟩ := lruIdx_leftmost (Nat.lt_of_lt_of_le (by decide) hev.2)
    rw [hi.stamps_toNat hsmall] at hmin
    cases hfind : s.uses.findIdx? fun u => !u.hit with
    | none =>
      refine ⟨fun _ i h => absurd h (by simp), fun _ u hu => ?_⟩
      have hhit : ∀ u ∈ s.uses, u.hit = true := fun u hu => by
        have := List.findIdx?_eq_none_iff.mp hfind u hu
        simpa using this
      have hentry := hmin.entry
      rw [List.getElem?_map] at hentry
      obtain ⟨v, hv, hvx⟩ := Option.map_eq_some_iff.mp hentry
      have hle := hmin.least _ (List.mem_map_of_mem hu)
      rw [← hvx, if_pos (hhit u hu), if_pos (hhit v (List.mem_of_getElem? hv))] at hle
      rw [List.getD_eq_getElem?_getD, hv]
      exact hle
    | some i =>
      obtain ⟨hlt, hunhit, hbefore⟩ := List.findIdx?_eq_some_iff_getElem.mp hfind
      have hfirst : LeftmostMin (s.uses.map fun u => if u.hit then u.last else 0) i 0 := by
        refine ⟨?_, fun _ _ => Nat.zero_le _, fun {j y} hj hy => ?_⟩
        · rw [List.getElem?_map, List.getElem?_eq_getElem hlt, Option.map_some,
            if_neg (by simpa using hunhit)]
        · have hjlt : j < s.uses.length := Nat.lt_trans hj hlt
          rw [List.getElem?_map, List.getElem?_eq_getElem hjlt, Option.map_some] at hy
          rw [← Option.some.inj hy, if_pos (by simpa using hbefore j hj)]
          exact (hi.times _ (List.getElem_mem hjlt)).1
      rw [hmin.unique hfirst]
      exact ⟨fun h j hj => by rw [← Option.some.inj hj]; exact h, fun h => h i rfl⟩
  exact ⟨fun h off ho hev hsmall => (hkey off hev hsmall).mp (h off ho hev hsmall),
    fun h off ho hev hsmall => (hkey off hev hsmall).mpr (h off ho hev hsmall)⟩

/-! ## The invariant -/

/-- The accesses to the lines are as recent as the last access. -/
theorem times_set {uses : List LineUse} {n : Nat} (h : ∀ u ∈ uses, 0 < u.last ∧ u.last ≤ n)
    (i : Nat) (hit : Bool) :
    ∀ u ∈ uses.set i { last := n + 1, hit := hit }, 0 < u.last ∧ u.last ≤ n + 1 := by
  intro u hu
  rcases List.mem_or_eq_of_mem_set hu with hmem | rfl
  · have := h u hmem
    omega
  · exact ⟨Nat.succ_pos n, Nat.le_refl _⟩

theorem ofNat_succ (n : Nat) : UInt32.ofNat (n + 1) = UInt32.ofNat n + 1 := UInt32.ofNat_add n 1

/-- An access counts once, and leaves the stamp of its line. -/
theorem LruInv.access (hi : LruInv s) {flashOffset : UInt32} (ho : op.offset = some flashOffset)
    {r : Int} {cm : CacheManager} {sm : StorageManager δ}
    (h : op.run s.cache s.storage = some (r, cm, sm)) :
    LruInv { cache := cm, storage := sm, accesses := s.accesses + 1
             uses := s.accessing flashOffset } := by
  have hcount : s.cache.hits + 1 + s.cache.misses = UInt32.ofNat (s.accesses + 1) := by
    rw [ofNat_succ, ← hi.count, UInt32.add_assoc, UInt32.add_comm 1, ← UInt32.add_assoc]
  obtain ⟨_, _, ⟨i, cm₁, hfind, hsame⟩ | ⟨cm₁, i, cm₂, sm₂, hfind, halloc, hsame⟩⟩ :=
    access_cases ho h
  · have huses : s.accessing flashOffset
        = s.uses.set i { last := s.accesses + 1, hit := true } := by
      rw [LruHistory.accessing, hfind]
    obtain ⟨_, rfl⟩ := findLine_hit hfind
    have hset : (s.cache.entries.modify i fun e =>
          { e with lastAccess := s.cache.hits + 1 + s.cache.misses }).map (fun e => e.lastAccess)
        = (s.cache.entries.map fun e => e.lastAccess).set i
            (s.cache.hits + 1 + s.cache.misses) := map_modify_const (by intro e; rfl) _ _
    rw [huses]
    refine ⟨?_, ?_, times_set hi.times i true⟩
    · show cm.hits + cm.misses = _
      rw [hsame.hits, hsame.misses]
      exact hcount
    · show cm.entries.map _ = _
      rw [hsame.stamps, List.map_set, ← hi.stamps]
      exact hset.trans (by rw [hcount]; rfl)
  · obtain rfl := findLine_miss hfind
    have hmissed : s.cache.hits + (s.cache.misses + 1) = UInt32.ofNat (s.accesses + 1) := by
      rw [← hcount, UInt32.add_comm s.cache.misses, ← UInt32.add_assoc]
    have huses : s.accessing flashOffset
        = if s.cache.entries.length < kMaxLines
          then s.uses ++ [{ last := s.accesses + 1, hit := false }]
          else s.uses.set s.cache.lruIdx { last := s.accesses + 1, hit := false } := by
      rw [LruHistory.accessing, hfind]
    rw [huses]
    rcases allocateLine_cases halloc with ⟨hroom, _, _, rfl⟩ | ⟨hfull, rfl, cm₃, hsame₃, _, rfl⟩
    · rw [if_pos hroom]
      refine ⟨?_, ?_, fun u hu => ?_⟩
      · show cm.hits + cm.misses = _
        rw [hsame.hits, hsame.misses]
        exact hmissed
      · show cm.entries.map _ = _
        rw [hsame.stamps, List.map_append, List.map_append, ← hi.stamps]
        rfl
      · rcases List.mem_append.mp hu with hmem | hnew
        · have := hi.times u hmem
          show 0 < u.last ∧ u.last ≤ s.accesses + 1
          omega
        · rw [List.mem_singleton.mp hnew]
          exact ⟨Nat.succ_pos _, Nat.le_refl _⟩
    · rw [if_neg (Nat.not_lt.mpr hfull)]
      refine ⟨?_, ?_, times_set hi.times _ false⟩
      · show cm.hits + cm.misses = _
        rw [hsame.hits, hsame.misses]
        exact (congr (congrArg HAdd.hAdd hsame₃.hits) hsame₃.misses).trans hmissed
      · show cm.entries.map _ = _
        rw [hsame.stamps, List.map_set, List.map_set, hsame₃.stamps, ← hi.stamps]
        rfl

/-- **Every call keeps the invariant.** -/
theorem lruInv_step (hi : LruInv s) (h : lruStep s op = some s') : LruInv s' := by
  obtain ⟨⟨r, cm, sm⟩, hrun, rfl⟩ := Option.map_eq_some_iff.mp h
  cases op with
  | read flashOffset buf =>
    exact hi.access (show (CacheManagerCall.read flashOffset buf).offset = _ from rfl) hrun
  | write flashOffset data =>
    exact hi.access (show (CacheManagerCall.write flashOffset data).offset = _ from rfl) hrun
  | flush =>
    have hsame := flush_sameMarks hrun
    refine ⟨?_, hsame.stamps.trans hi.stamps, hi.times⟩
    show cm.hits + cm.misses = _
    rw [hsame.hits, hsame.misses]
    exact hi.count
  | invalidate =>
    injection hrun with hrun; injection hrun with _ hrun; injection hrun with hcm _
    rw [← hcm]
    exact ⟨rfl, rfl, fun _ hu => absurd hu List.not_mem_nil⟩

/-! ## The theorem -/

/-- `CacheManager(pool, poolSize, lineSize)` before the first call. -/
def freshLru (pool : Nat → UInt8) (poolSize lineSize : Nat) (sm : StorageManager δ) :
    LruHistory δ where
  cache := { pool, poolSize, lineSize }
  storage := sm

/--
**When evictions are least recently used.** For every cache over any storage, and every sequence of
calls: with fewer than 2 ^ 32 accesses since the last `invalidate`, each eviction takes the line
accessed longest ago exactly if at each eviction either every line was found again since it entered,
or the first that was not is the one accessed longest ago.
-/
theorem evictions_lru_iff (pool : Nat → UInt8) (poolSize lineSize : Nat) (sm : StorageManager δ)
    (ops : List CacheManagerCall) :
    Along lruStep EvictsOldest (freshLru pool poolSize lineSize sm) ops
      ↔ Along lruStep UnhitOldest (freshLru pool poolSize lineSize sm) ops :=
  along_iff_of_invariant LruInv (fun _ _ _ hi _ h => lruInv_step hi h) (fun _ _ hi => hi.evicts_iff)
    ⟨rfl, rfl, fun _ hu => absurd hu List.not_mem_nil⟩

/--
**One line after the other**: with 64 lines in the cache the 65th write evicts the first line, and
the 66th the line that the 65th write has just brought in.
-/
theorem last_line_evicted :
    Along lruStep EvictsOldest (freshLru (fun _ => 0) 1024 16 testStorage)
        ((List.range 65).map fun i => .write (UInt32.ofNat (16 * i)) [1])
      ∧ ¬ Along lruStep EvictsOldest (freshLru (fun _ => 0) 1024 16 testStorage)
        ((List.range 66).map fun i => .write (UInt32.ofNat (16 * i)) [1]) := by
  decide +kernel

end TaktOS.Proof
