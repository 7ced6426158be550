import TaktOS.Kernel.CacheManager
import TaktOS.Lib.History
import TaktOS.Lib.LineCache
import TaktOS.Lib.Run
import TaktOS.Proof.FlashLaws
import TaktOS.Proof.Storage

/-!
# What reads through the write-back cache deliver

`CacheManager::read` takes every code of `StorageManager::read` but 0 for an error, and a read
that succeeds returns the byte count, so a read that misses fails. A write that misses allocates
its line without loading it. What is left is a cache for what was written: a read delivers the
flat array where the line is cached and the bytes were written since it entered.
-/

namespace TaktOS.Proof

open Lib

variable {δ : Type}

/-! ## Runs next to a flat array -/

inductive CacheCall where
  | read (flashOffset : UInt32) (buf : List UInt8)
  | write (flashOffset : UInt32) (data : List UInt8)
  | flush

/-- The cache, the flat array it should look like, and the addresses written to since their
line last entered the cache. -/
structure FlatHistory (δ : Type) where
  cache : CacheManager
  storage : StorageManager δ
  flat : Nat → UInt8
  known : Nat → Bool := fun _ => false

/-- The line of an offset is in the cache. -/
def Cached (cm : CacheManager) (flashOffset : UInt32) : Prop :=
  (cm.findLine flashOffset).1.isSome = true

instance (cm : CacheManager) (flashOffset : UInt32) : Decidable (Cached cm flashOffset) :=
  inferInstanceAs (Decidable (_ = true))

namespace FlatHistory

/-- What is known once the line of an offset is in the cache. -/
def enter (s : FlatHistory δ) (flashOffset : UInt32) : Nat → Bool :=
  if Cached s.cache flashOffset then s.known
  else
    let lineStart := (s.cache.lineKey flashOffset).toNat * s.cache.lineSize
    fill s.known lineStart (lineStart + s.cache.lineSize) false

end FlatHistory

def flatStep (s : FlatHistory δ) : CacheCall → Option (FlatHistory δ)
  | .read flashOffset buf =>
    (s.cache.read s.storage flashOffset buf).map fun (_, _, cache, storage) =>
      { s with cache, storage, known := s.enter flashOffset }
  | .write flashOffset data =>
    (s.cache.write s.storage flashOffset data).map fun (_, cache, storage) =>
      -- the prefix the line has room for
      let n := s.cache.copyLen flashOffset data.length
      { cache, storage
        flat := overlay s.flat flashOffset.toNat (data.take n)
        known := fill (s.enter flashOffset) flashOffset.toNat (flashOffset.toNat + n) true }
  | .flush =>
    (s.cache.flush s.storage).map fun (_, cache, storage) => { s with cache, storage }

/-- **The read delivers the flat array**, up to the end of its line. -/
def Transparent (s : FlatHistory δ) : CacheCall → Prop
  | .read flashOffset buf =>
    let n := min buf.length (s.cache.lineSize - flashOffset.toNat % s.cache.lineSize)
    (s.cache.read s.storage flashOffset buf).map (fun t => (t.1, t.2.1))
      = some ((n : Int), slice s.flat flashOffset.toNat n ++ buf.drop n)
  | _ => True

instance (s : FlatHistory δ) (call : CacheCall) : Decidable (Transparent s call) := by
  unfold Transparent
  split <;> infer_instance

/-- The line is cached, each byte delivered was written since it entered, and their number
fits an `int`. -/
def ReadsWritten (s : FlatHistory δ) : CacheCall → Prop
  | .read flashOffset buf =>
    Cached s.cache flashOffset
      ∧ (∀ i, i < s.cache.copyLen flashOffset buf.length →
        s.known (flashOffset.toNat + i) = true)
      ∧ s.cache.copyLen flashOffset buf.length < 2147483648
  | _ => True

instance (s : FlatHistory δ) (call : CacheCall) : Decidable (ReadsWritten s call) := by
  unfold ReadsWritten
  split <;> infer_instance

/-! ## What the operations do to the lines -/

/-- What of an entry decides whether it is found. -/
def shape (e : CacheEntry) : UInt32 × Bool := (e.key, e.valid)

/-- The same lines at the same places, with the same bytes. -/
structure SameLines (cm cm' : CacheManager) : Prop where
  pool : cm'.pool = cm.pool
  poolSize : cm'.poolSize = cm.poolSize
  lineSize : cm'.lineSize = cm.lineSize
  shapes : cm'.entries.map shape = cm.entries.map shape

/-- The keys of the cached lines. -/
def cachedKeys (cm : CacheManager) : List Nat := cm.entries.map fun e => e.key.toNat

def AllValid (cm : CacheManager) : Prop := ∀ e ∈ cm.entries, e.valid = true

theorem SameLines.keys {cm cm' : CacheManager} (h : SameLines cm cm') :
    cachedKeys cm' = cachedKeys cm := by
  have hmap : ∀ es : List CacheEntry,
      es.map (fun e => e.key.toNat) = (es.map shape).map fun p => p.1.toNat := by
    intro es
    rw [List.map_map]
    rfl
  unfold cachedKeys
  rw [hmap, hmap, h.shapes]

theorem SameLines.valid {cm cm' : CacheManager} (h : SameLines cm cm') (hv : AllValid cm) :
    AllValid cm' := by
  intro e he
  have hmem : shape e ∈ cm.entries.map shape := by
    rw [← h.shapes]
    exact List.mem_map_of_mem he
  obtain ⟨e₀, he₀, heq⟩ := List.mem_map.mp hmem
  exact (congrArg (fun p => p.2) heq).symm.trans (hv e₀ he₀)

theorem SameLines.length {cm cm' : CacheManager} (h : SameLines cm cm') :
    cm'.entries.length = cm.entries.length := by
  have := congrArg List.length h.shapes
  rwa [List.length_map, List.length_map] at this

/-- The keys of the lines go by their size alone. -/
theorem SameLines.lineKey {cm cm' : CacheManager} (h : SameLines cm cm') (flashOffset : UInt32) :
    cm'.lineKey flashOffset = cm.lineKey flashOffset := by
  rw [CacheManager.lineKey, CacheManager.lineKey, h.lineSize]

/-- A line is found at its place, or it is not cached. -/
theorem findLine_cases {cm : CacheManager} (hv : AllValid cm) (flashOffset : UInt32) :
    (∃ i cm', cm.findLine flashOffset = (some i, cm') ∧ SameLines cm cm'
        ∧ (cachedKeys cm)[i]? = some (cm.lineKey flashOffset).toNat)
      ∨ (∃ cm', cm.findLine flashOffset = (none, cm') ∧ SameLines cm cm'
        ∧ (cm.lineKey flashOffset).toNat ∉ cachedKeys cm) := by
  unfold CacheManager.findLine
  split
  · rename_i i hfind
    obtain ⟨hi, hp, _⟩ := List.findIdx?_eq_some_iff_getElem.mp hfind
    rw [Bool.and_eq_true, beq_iff_eq] at hp
    refine Or.inl ⟨i, _, rfl, ⟨rfl, rfl, rfl, ?_⟩, ?_⟩
    · exact map_modify_same
        (g := fun e : CacheEntry => { e with lastAccess := cm.hits + 1 + cm.misses })
        (fun _ => rfl) _ _
    rw [cachedKeys, List.getElem?_map, List.getElem?_eq_getElem hi, ← hp.2]
    rfl
  · rename_i hfind
    refine Or.inr ⟨_, rfl, ⟨rfl, rfl, rfl, rfl⟩, fun hmem => ?_⟩
    obtain ⟨e, he, hkey⟩ := List.mem_map.mp hmem
    have hno := List.findIdx?_eq_none_iff.mp hfind e he
    rw [hv e he, UInt32.toNat_inj.mp hkey] at hno
    simp at hno

/-- The line that was found is the one at its place. -/
theorem findLine_found {cm cm' : CacheManager} (hv : AllValid cm) {flashOffset : UInt32} {i : Nat}
    (h : cm.findLine flashOffset = (some i, cm')) :
    SameLines cm cm' ∧ (cachedKeys cm)[i]? = some (cm.lineKey flashOffset).toNat := by
  rcases findLine_cases hv flashOffset with ⟨j, cm₁, hfind, hsame, hslot⟩ | ⟨cm₁, hfind, -, -⟩
  · obtain ⟨hi, rfl⟩ := Prod.mk.inj (h.symm.trans hfind)
    rw [Option.some.inj hi]
    exact ⟨hsame, hslot⟩
  · exact absurd (Prod.mk.inj (h.symm.trans hfind)).1 (by simp)

theorem findLine_missed {cm cm' : CacheManager} (hv : AllValid cm) {flashOffset : UInt32}
    (h : cm.findLine flashOffset = (none, cm')) :
    SameLines cm cm' ∧ (cm.lineKey flashOffset).toNat ∉ cachedKeys cm := by
  rcases findLine_cases hv flashOffset with ⟨j, cm₁, hfind, -, -⟩ | ⟨cm₁, hfind, hsame, hmiss⟩
  · exact absurd (Prod.mk.inj (h.symm.trans hfind)).1 (by simp)
  · obtain ⟨-, rfl⟩ := Prod.mk.inj (h.symm.trans hfind)
    exact ⟨hsame, hmiss⟩

/-- A flush marks lines clean and does nothing else to the entries. -/
theorem flushLoop_map {α : Type} {f : CacheEntry → α} (hf : ∀ e, f { e with dirty := false } = f e)
    {cm : CacheManager} : ∀ {es es' : List CacheEntry} {i : Nat}
    {sm sm' : StorageManager δ} {r : Int},
    cm.flushLoop i es sm = some (r, es', sm') → es'.map f = es.map f := by
  intro es
  -- on the entries, in the loop's order
  induction es with
  | nil =>
    intro es' i sm sm' r h
    injection h with h; injection h with _ h; injection h with h _
    rw [← h]
  | cons e es ih =>
    intro es' i sm sm' r h
    rw [CacheManager.flushLoop] at h
    split at h
    · split at h
      · exact absurd h (by simp)
      · split at h
        · exact absurd h (by simp)
        · split at h
          · injection h with h; injection h with _ h; injection h with h _
            rw [← h]
          · split at h
            · exact absurd h (by simp)
            · rename_i hrest
              injection h with h; injection h with _ h; injection h with h _
              rw [← h, List.map_cons, List.map_cons, ih hrest, hf]
    · split at h
      · exact absurd h (by simp)
      · rename_i hrest
        injection h with h; injection h with _ h; injection h with h _
        rw [← h, List.map_cons, List.map_cons, ih hrest]

theorem flush_sameLines {cm cm' : CacheManager} {sm sm' : StorageManager δ} {r : Int}
    (h : cm.flush sm = some (r, cm', sm')) : SameLines cm cm' := by
  unfold CacheManager.flush at h
  split at h
  · exact absurd h (by simp)
  · rename_i hloop
    injection h with h; injection h with _ h; injection h with h _
    rw [← h]
    exact ⟨rfl, rfl, rfl, flushLoop_map (fun _ => rfl) hloop⟩

/-- The entry evicted is one of the entries. -/
theorem lruLoop_lt : ∀ {es : List CacheEntry} {i lruIdx : Nat} {lruAccess : UInt32},
    lruIdx < i → CacheManager.lruLoop es i lruIdx lruAccess < i + es.length := by
  intro es
  induction es with
  | nil => intro i lruIdx lruAccess h; exact h
  | cons e es ih =>
    intro i lruIdx lruAccess h
    rw [CacheManager.lruLoop, List.length_cons]
    split
    · have hrest := @ih (i + 1) i e.lastAccess (Nat.lt_succ_self i)
      omega
    · have hrest := @ih (i + 1) lruIdx lruAccess (Nat.lt_succ_of_lt h)
      omega

/-- The line that goes next is one of the lines. -/
theorem lruIdx_lt {cm : CacheManager} (h : 0 < cm.entries.length) :
    cm.lruIdx < cm.entries.length := by
  have hloop := @lruLoop_lt (cm.entries.drop 1) 1 0 (cm.entries.getD 0 {}).lastAccess Nat.one_pos
  rw [List.length_drop] at hloop
  unfold CacheManager.lruIdx
  omega

/-- The same pool, and the lines of `cm` but for a new one at `i`. -/
structure Entered (cm cm' : CacheManager) (i k : Nat) : Prop where
  pool : cm'.pool = cm.pool
  poolSize : cm'.poolSize = cm.poolSize
  lineSize : cm'.lineSize = cm.lineSize
  valid : AllValid cm'
  length : cm'.entries.length ≤ kMaxLines
  slot : (cachedKeys cm')[i]? = some k
  keys : cachedKeys cm' = cachedKeys cm ++ [k] ∨ cachedKeys cm' = (cachedKeys cm).set i k

/-- Evicting the line at `i` for a new one. -/
theorem entered_evict {cm cm' : CacheManager} (h : SameLines cm cm') (hv : AllValid cm)
    (hlen : cm.entries.length ≤ kMaxLines) {i : Nat} (hi : i < cm.entries.length)
    {e : CacheEntry} (he : e.valid = true) :
    Entered cm { cm' with entries := cm'.entries.set i e } i e.key.toNat := by
  have hkeys : cachedKeys { cm' with entries := cm'.entries.set i e }
      = (cachedKeys cm).set i e.key.toNat := by
    rw [cachedKeys, List.map_set, ← h.keys]
    rfl
  refine ⟨h.pool, h.poolSize, h.lineSize, ?_, ?_, ?_, Or.inr hkeys⟩
  · intro e' he'
    rcases List.mem_or_eq_of_mem_set he' with hmem | heq
    · exact h.valid hv e' hmem
    · rw [heq]; exact he
  · show (cm'.entries.set i e).length ≤ kMaxLines
    rw [List.length_set, h.length]
    exact hlen
  · have hlt : i < (cachedKeys cm).length := by rw [cachedKeys, List.length_map]; exact hi
    rw [hkeys, List.getElem?_set_self hlt]

theorem allocateLine_entered {cm cm' : CacheManager} {sm sm' : StorageManager δ}
    {flashOffset : UInt32} {i : Nat} (hv : AllValid cm) (hlen : cm.entries.length ≤ kMaxLines)
    (h : cm.allocateLine sm flashOffset = some (i, cm', sm')) :
    Entered cm cm' i (cm.lineKey flashOffset).toNat := by
  unfold CacheManager.allocateLine at h
  dsimp only at h
  split at h
  · rename_i hroom
    injection h with h; injection h with hi h; injection h with h _
    rw [← h, ← hi]
    have hkeys : cachedKeys { cm with entries := cm.entries ++ [
          { key := cm.lineKey flashOffset, size := UInt32.ofNat cm.lineSize, valid := true }] }
        = cachedKeys cm ++ [(cm.lineKey flashOffset).toNat] := by
      rw [cachedKeys, List.map_append]
      rfl
    refine ⟨rfl, rfl, rfl, ?_, ?_, ?_, Or.inl hkeys⟩
    · intro e he
      rcases List.mem_append.mp he with hmem | hnew
      · exact hv e hmem
      · rw [List.mem_singleton.mp hnew]
    · show (cm.entries ++ [_]).length ≤ kMaxLines
      rw [List.length_append, List.length_singleton]
      exact hroom
    · have hle : (cachedKeys cm).length ≤ cm.entries.length :=
        Nat.le_of_eq (by rw [cachedKeys, List.length_map])
      rw [hkeys, List.getElem?_append_right hle, cachedKeys, List.length_map, Nat.sub_self]
      rfl
  · -- the pool is full: some entry is evicted, with or without a flush
    rename_i hfull
    have hlru : cm.lruIdx < cm.entries.length := by
      unfold kMaxLines at hfull
      exact lruIdx_lt (by omega)
    split at h
    · split at h
      · exact absurd h (by simp)
      · rename_i hflush
        injection h with h; injection h with hi h; injection h with h _
        rw [← h, ← hi]
        exact entered_evict (flush_sameLines hflush) hv hlen hlru
          (e := { key := _, size := _ , valid := true }) rfl
    · injection h with h; injection h with hi h; injection h with h _
      rw [← h, ← hi]
      exact entered_evict ⟨rfl, rfl, rfl, rfl⟩ hv hlen hlru
        (e := { key := _, size := _ , valid := true }) rfl

/-! ## The invariant -/

/-- The lines are in the pool, and what is known of them is there. -/
structure FlatInv (s : FlatHistory δ) : Prop where
  pos : 0 < s.cache.lineSize
  small : s.cache.lineSize < 4294967296
  fits : kMaxLines * s.cache.lineSize ≤ s.cache.poolSize
  valid : AllValid s.cache
  length : s.cache.entries.length ≤ kMaxLines
  coherent : Coherent s.cache.lineSize (cachedKeys s.cache) s.cache.pool s.flat s.known

theorem lineKey_toNat {cm : CacheManager} (h : cm.lineSize < 4294967296) (flashOffset : UInt32) :
    (cm.lineKey flashOffset).toNat = flashOffset.toNat / cm.lineSize := by
  rw [CacheManager.lineKey, UInt32.toNat_div, UInt32.toNat_ofNat', Nat.mod_eq_of_lt h]

theorem lineSize_ne_zero {cm : CacheManager} (hpos : 0 < cm.lineSize)
    (h : cm.lineSize < 4294967296) : UInt32.ofNat cm.lineSize ≠ 0 := by
  intro hc
  have := congrArg UInt32.toNat hc
  rw [UInt32.toNat_ofNat', Nat.mod_eq_of_lt h] at this
  exact absurd this (Nat.ne_of_gt hpos)

/-- An offset is in its line, at its offset in the line. -/
theorem lineKey_mul_add {cm : CacheManager} (h : cm.lineSize < 4294967296)
    (flashOffset : UInt32) :
    (cm.lineKey flashOffset).toNat * cm.lineSize + flashOffset.toNat % cm.lineSize
      = flashOffset.toNat := by
  rw [lineKey_toNat h]
  exact Nat.div_add_mod' flashOffset.toNat cm.lineSize

theorem copyLen_le (cm : CacheManager) (flashOffset : UInt32) (len : Nat) :
    cm.copyLen flashOffset len ≤ len
      ∧ cm.copyLen flashOffset len ≤ cm.lineSize - flashOffset.toNat % cm.lineSize :=
  ⟨Nat.min_le_left _ _, Nat.min_le_right _ _⟩

/-- A cached line is inside the pool. -/
theorem inPool_of_slot {cm : CacheManager} (hfits : kMaxLines * cm.lineSize ≤ cm.poolSize)
    (hlen : cm.entries.length ≤ kMaxLines) {i k : Nat} (h : (cachedKeys cm)[i]? = some k) :
    cm.inPool i = true := by
  obtain ⟨hlt, _⟩ := List.getElem?_eq_some_iff.mp h
  rw [cachedKeys, List.length_map] at hlt
  have hle : (i + 1) * cm.lineSize ≤ kMaxLines * cm.lineSize :=
    Nat.mul_le_mul_right _ (Nat.le_trans (Nat.succ_le_of_lt hlt) hlen)
  exact decide_eq_true (Nat.le_trans hle hfits)

/-- Copying into the line of an offset stores into the flat array. -/
theorem copyIn_inv {cm cm' : CacheManager} {sm sm' : StorageManager δ} {i : Nat}
    {flashOffset : UInt32} {data : List UInt8} {r : Int} {flat : Nat → UInt8} {known : Nat → Bool}
    (hi : FlatInv { cache := cm, storage := sm, flat, known })
    (hslot : (cachedKeys cm)[i]? = some (cm.lineKey flashOffset).toNat)
    (h : cm.copyIn sm i flashOffset data = some (r, cm', sm')) :
    FlatInv { cache := cm', storage := sm'
              flat := overlay flat flashOffset.toNat
                (data.take (cm.copyLen flashOffset data.length))
              known := fill known flashOffset.toNat
                (flashOffset.toNat + cm.copyLen flashOffset data.length) true } := by
  unfold CacheManager.copyIn at h
  rw [inPool_of_slot hi.fits hi.length hslot] at h
  injection h with h; injection h with _ h; injection h with h _
  obtain ⟨hn, hroom⟩ := copyLen_le cm flashOffset data.length
  have hmod : flashOffset.toNat % cm.lineSize < cm.lineSize := Nat.mod_lt _ hi.pos
  have hlen : (data.take (cm.copyLen flashOffset data.length)).length
      = cm.copyLen flashOffset data.length := by
    rw [List.length_take]
    exact Nat.min_eq_left hn
  have hstored : flashOffset.toNat % cm.lineSize
      + (data.take (cm.copyLen flashOffset data.length)).length ≤ cm.lineSize := by
    omega
  have hstore := hi.coherent.store hslot hstored
  dsimp only at hstore
  rw [lineKey_mul_add hi.small, hlen] at hstore
  have hsame : (cm.entries.modify i fun e => { e with dirty := true }).map shape
      = cm.entries.map shape :=
    map_modify_same (g := fun e : CacheEntry => { e with dirty := true }) (fun _ => rfl) _ _
  have hlines : SameLines cm { cm with entries := cm.entries.modify i fun e =>
      { e with dirty := true } } := ⟨rfl, rfl, rfl, hsame⟩
  rw [← h]
  refine ⟨hi.pos, hi.small, hi.fits, hlines.valid hi.valid, ?_, ?_⟩
  · exact Nat.le_trans (Nat.le_of_eq hlines.length) hi.length
  · rw [← hlines.keys] at hstore
    exact hstore

/-- A hit leaves the lines, and nothing is forgotten. -/
theorem FlatInv.sameLines {s : FlatHistory δ} (hi : FlatInv s) {cm : CacheManager}
    (h : SameLines s.cache cm) (sm : StorageManager δ) :
    FlatInv { s with cache := cm, storage := sm } := by
  obtain ⟨hpos, hsmall, hfits, hv, hlen, hco⟩ := hi
  refine ⟨?_, ?_, ?_, h.valid hv, Nat.le_trans (Nat.le_of_eq h.length) hlen, ?_⟩
  · exact Nat.lt_of_lt_of_eq hpos h.lineSize.symm
  · exact Nat.lt_of_le_of_lt (Nat.le_of_eq h.lineSize) hsmall
  · show kMaxLines * cm.lineSize ≤ cm.poolSize
    rw [h.lineSize, h.poolSize]
    exact hfits
  · show Coherent cm.lineSize (cachedKeys cm) cm.pool s.flat s.known
    rw [h.lineSize, h.keys, h.pool]
    exact hco

/-- A line that enters is known nothing of. -/
theorem FlatInv.entered {s : FlatHistory δ} (hi : FlatInv s) {cm : CacheManager} {i k : Nat}
    (h : Entered s.cache cm i k) (hk : k ∉ cachedKeys s.cache) (sm : StorageManager δ) :
    FlatInv { s with
      cache := cm, storage := sm
      known := fill s.known (k * s.cache.lineSize) (k * s.cache.lineSize + s.cache.lineSize)
        false } := by
  obtain ⟨hpos, hsmall, hfits, hv, hlen, hco⟩ := hi
  refine ⟨?_, ?_, ?_, h.valid, h.length, ?_⟩
  · exact Nat.lt_of_lt_of_eq hpos h.lineSize.symm
  · exact Nat.lt_of_le_of_lt (Nat.le_of_eq h.lineSize) hsmall
  · show kMaxLines * cm.lineSize ≤ cm.poolSize
    rw [h.lineSize, h.poolSize]
    exact hfits
  · show Coherent cm.lineSize (cachedKeys cm) cm.pool s.flat _
    rw [h.lineSize, h.pool]
    rcases h.keys with hnew | hevict
    · rw [hnew]
      exact hco.enter_new hk
    · rw [hevict]
      exact hco.enter_evict hk i

/-- What a read of a cached line does. -/
theorem read_cached {s : FlatHistory δ} (hi : FlatInv s) {flashOffset : UInt32}
    (hc : Cached s.cache flashOffset) (buf : List UInt8) :
    ∃ i cm, SameLines s.cache cm
      ∧ (cachedKeys s.cache)[i]? = some (s.cache.lineKey flashOffset).toNat
      ∧ s.cache.read s.storage flashOffset buf
        = some (castInt (s.cache.copyLen flashOffset buf.length),
            slice s.cache.pool (i * s.cache.lineSize + flashOffset.toNat % s.cache.lineSize)
                (s.cache.copyLen flashOffset buf.length)
              ++ buf.drop (s.cache.copyLen flashOffset buf.length), cm, s.storage) := by
  rcases findLine_cases hi.valid flashOffset with ⟨i, cm, hfind, hsame, hslot⟩
    | ⟨cm, hfind, _⟩
  · refine ⟨i, cm, hsame, hslot, ?_⟩
    have hin : cm.inPool i = true := by
      rw [CacheManager.inPool, hsame.lineSize, hsame.poolSize]
      exact inPool_of_slot hi.fits hi.length hslot
    rw [CacheManager.read, if_neg (lineSize_ne_zero hi.pos hi.small), hfind]
    dsimp only
    rw [CacheManager.copyOut, hin]
    simp only [Bool.not_true, Bool.false_eq_true, if_false, CacheManager.copyLen, hsame.pool,
      hsame.lineSize]
  · rw [Cached, hfind] at hc
    exact absurd hc (by simp)

/-- **Every call keeps the invariant**, a read if it finds its line. -/
theorem flatInv_step {s s' : FlatHistory δ} {call : CacheCall} (hi : FlatInv s)
    (hc : ReadsWritten s call) (h : flatStep s call = some s') : FlatInv s' := by
  cases call with
  | read flashOffset buf =>
    obtain ⟨⟨r, out, cm, sm⟩, hread, rfl⟩ := Option.map_eq_some_iff.mp h
    obtain ⟨i, cm₁, hsame, _, hread₁⟩ := read_cached hi hc.1 buf
    rw [hread] at hread₁
    injection hread₁ with hread₁; injection hread₁ with _ hread₁
    injection hread₁ with _ hread₁; injection hread₁ with hcm _
    have hknown : s.enter flashOffset = s.known := if_pos hc.1
    rw [hknown, hcm]
    exact hi.sameLines hsame sm
  | write flashOffset data =>
    obtain ⟨⟨r, cm, sm⟩, hwrite, rfl⟩ := Option.map_eq_some_iff.mp h
    rw [CacheManager.write, if_neg (lineSize_ne_zero hi.pos hi.small)] at hwrite
    rcases findLine_cases hi.valid flashOffset with ⟨i, cm₁, hfind, hsame, hslot⟩
      | ⟨cm₁, hfind, hsame, hmiss⟩
    · -- a hit stores into the line found
      rw [hfind] at hwrite
      have hknown : s.enter flashOffset = s.known := if_pos (by rw [Cached, hfind]; rfl)
      rw [← hsame.keys, CacheManager.lineKey, ← hsame.lineSize] at hslot
      have hres := copyIn_inv (hi.sameLines hsame s.storage) hslot hwrite
      rw [CacheManager.copyLen, hsame.lineSize] at hres
      rw [hknown]
      exact hres
    · -- a miss stores into the line that enters, of which nothing is known before
      rw [hfind] at hwrite
      dsimp only at hwrite
      split at hwrite
      · exact absurd hwrite (by simp)
      · rename_i i cm₂ sm₂ halloc
        have hi₁ := hi.sameLines hsame s.storage
        have hent := allocateLine_entered hi₁.valid hi₁.length halloc
        have hkey := congrArg UInt32.toNat (hsame.lineKey flashOffset)
        have hi₂ := hi₁.entered hent (by dsimp only; rw [hsame.keys, hkey]; exact hmiss) sm₂
        have hslot := hent.slot
        rw [CacheManager.lineKey, ← hent.lineSize] at hslot
        have hres := copyIn_inv hi₂ hslot hwrite
        dsimp only at hres
        rw [CacheManager.copyLen, hent.lineSize, hsame.lineSize, hkey] at hres
        have hknown : s.enter flashOffset
            = fill s.known ((s.cache.lineKey flashOffset).toNat * s.cache.lineSize)
              ((s.cache.lineKey flashOffset).toNat * s.cache.lineSize + s.cache.lineSize)
              false := if_neg (by rw [Cached, hfind]; simp)
        rw [hknown]
        exact hres
  | flush =>
    obtain ⟨⟨r, cm, sm⟩, hflush, rfl⟩ := Option.map_eq_some_iff.mp h
    exact hi.sameLines (flush_sameLines hflush) sm

/-- A read of cached bytes that were written delivers the flat array. -/
theorem transparent_of_inv {s : FlatHistory δ} {call : CacheCall} (hi : FlatInv s)
    (hc : ReadsWritten s call) : Transparent s call := by
  cases call with
  | read flashOffset buf =>
    obtain ⟨hcached, hknown, hint⟩ := hc
    obtain ⟨i, cm, _, hslot, hread⟩ := read_cached hi hcached buf
    obtain ⟨_, hroom⟩ := copyLen_le s.cache flashOffset buf.length
    have hline := lineKey_mul_add hi.small flashOffset
    have hbytes : slice s.cache.pool
          (i * s.cache.lineSize + flashOffset.toNat % s.cache.lineSize)
          (s.cache.copyLen flashOffset buf.length)
        = slice s.flat flashOffset.toNat (s.cache.copyLen flashOffset buf.length) := by
      refine slice_shift fun j hj => ?_
      have hj' : flashOffset.toNat % s.cache.lineSize + j < s.cache.lineSize := by omega
      have haddr : (s.cache.lineKey flashOffset).toNat * s.cache.lineSize
          + (flashOffset.toNat % s.cache.lineSize + j) = flashOffset.toNat + j := by omega
      have hcell := hi.coherent.cells hslot hj' (by rw [haddr]; exact hknown j hj)
      rw [haddr, ← Nat.add_assoc] at hcell
      exact hcell
    show (s.cache.read s.storage flashOffset buf).map (fun t => (t.1, t.2.1)) = _
    rw [hread, hbytes, castInt_of_lt hint]
    rfl
  | write flashOffset data => trivial
  | flush => trivial

/-! ## A miss fails -/

theorem flushLoop_backend {cm : CacheManager} : ∀ {es es' : List CacheEntry} {i : Nat}
    {sm sm' : StorageManager δ} {r : Int},
    cm.flushLoop i es sm = some (r, es', sm') → sm'.backend = sm.backend := by
  intro es
  induction es with
  | nil =>
    intro es' i sm sm' r h
    injection h with h; injection h with _ h; injection h with _ h
    rw [← h]
  | cons e es ih =>
    intro es' i sm sm' r h
    rw [CacheManager.flushLoop] at h
    split at h
    · split at h
      · exact absurd h (by simp)
      · split at h
        · exact absurd h (by simp)
        · rename_i hw
          obtain ⟨d, rfl⟩ := write_frame hw
          split at h
          · injection h with h; injection h with _ h; injection h with _ h
            rw [← h]
          · split at h
            · exact absurd h (by simp)
            · rename_i hloop
              injection h with h; injection h with _ h; injection h with _ h
              rw [← h, ih hloop]
    · split at h
      · exact absurd h (by simp)
      · rename_i hloop
        injection h with h; injection h with _ h; injection h with _ h
        rw [← h, ih hloop]

theorem flush_backend {cm cm' : CacheManager} {sm sm' : StorageManager δ} {r : Int}
    (h : cm.flush sm = some (r, cm', sm')) : sm'.backend = sm.backend := by
  unfold CacheManager.flush at h
  split at h
  · exact absurd h (by simp)
  · rename_i hloop
    injection h with h; injection h with _ h; injection h with _ h
    rw [← h, flushLoop_backend hloop]

theorem allocateLine_backend {cm cm' : CacheManager} {sm sm' : StorageManager δ}
    {flashOffset : UInt32} {i : Nat} (h : cm.allocateLine sm flashOffset = some (i, cm', sm')) :
    sm'.backend = sm.backend := by
  unfold CacheManager.allocateLine at h
  dsimp only at h
  split at h
  · injection h with h; injection h with _ h; injection h with _ h
    rw [← h]
  · split at h
    · split at h
      · exact absurd h (by simp)
      · rename_i hflush
        injection h with h; injection h with _ h; injection h with _ h
        rw [← h, flush_backend hflush]
    · injection h with h; injection h with _ h; injection h with _ h
      rw [← h]

/-- A count that is not 0 in 32 bits is none as an `int`. -/
theorem castInt_ne_zero {n : Nat} (h : UInt32.ofNat n ≠ 0) : castInt n ≠ 0 := by
  have hmod : n % 4294967296 ≠ 0 := fun hc => h (UInt32.toNat_inj.mp hc)
  unfold castInt
  rw [Int.bmod_def]
  omega

theorem length_poolLine (cm : CacheManager) (i : Nat) : (cm.poolLine i).length = cm.lineSize :=
  length_slice _ _ _

/-- A read of some bytes never reports 0. -/
theorem read_ne_zero {b : FlashBackend δ} {content : δ → Nat → UInt8} {sm : StorageManager δ}
    (hb : sm.backend = some b) (hr : b.Readable content) (offset : UInt32) {buf : List UInt8}
    (hlen : UInt32.ofNat buf.length ≠ 0) : (sm.read offset buf).1 ≠ 0 := by
  rw [StorageManager.read, hb]
  dsimp only
  split
  · exact show (-1 : Int) ≠ 0 by decide
  · -- inside the flash the count, past its end a negative code
    by_cases hin : offset.toNat + buf.length ≤ b.totalSize.toNat
    · exact fun h => castInt_ne_zero hlen ((hr.code _ offset buf hin).symm.trans h)
    · exact Int.ne_of_lt (hr.fail _ offset buf (by omega))

/-- **A read that misses fails**: the byte count its load reports is taken for an error. -/
theorem not_transparent_of_miss {b : FlashBackend δ} {content : δ → Nat → UInt8}
    (hr : b.Readable content) {s : FlatHistory δ} (hi : FlatInv s)
    (hb : s.storage.backend = some b) {flashOffset : UInt32}
    (hmiss : ¬ Cached s.cache flashOffset) (buf : List UInt8) :
    ¬ Transparent s (.read flashOffset buf) := by
  intro ht
  have ht' : (s.cache.read s.storage flashOffset buf).map (fun t => (t.1, t.2.1)) = _ := ht
  obtain ⟨⟨r, out, cm, sm⟩, hread, hres⟩ := Option.map_eq_some_iff.mp ht'
  have hr0 : r = ((min buf.length
      (s.cache.lineSize - flashOffset.toNat % s.cache.lineSize) : Nat) : Int) :=
    congrArg (fun p => p.1) hres
  rw [CacheManager.read, if_neg (lineSize_ne_zero hi.pos hi.small)] at hread
  rcases findLine_cases hi.valid flashOffset with ⟨i, cm₁, hfind, _⟩ | ⟨cm₁, hfind, hsame, _⟩
  · exact hmiss (by rw [Cached, hfind]; rfl)
  · rw [hfind] at hread
    dsimp only at hread
    split at hread
    · exact absurd hread (by simp)
    · rename_i i cm₂ sm₂ halloc
      have hlen : cm₁.entries.length ≤ kMaxLines :=
        Nat.le_trans (Nat.le_of_eq hsame.length) hi.length
      have hent := allocateLine_entered (hsame.valid hi.valid) hlen halloc
      have hcode : ∀ offset, (sm₂.read offset (cm₂.poolLine i)).1 ≠ 0 := fun offset =>
        read_ne_zero ((allocateLine_backend halloc).trans hb) hr offset (by
          rw [length_poolLine, hent.lineSize, hsame.lineSize]
          exact lineSize_ne_zero hi.pos hi.small)
      split at hread
      · exact absurd hread (by simp)
      · rw [if_pos (hcode _)] at hread
        injection hread with hread; injection hread with hneg _
        omega

/-! ## The theorem -/

/-- `CacheManager(pool, poolSize, lineSize)`, next to what the flash holds. -/
def freshCache (pool : Nat → UInt8) (poolSize lineSize : Nat) (content : δ → Nat → UInt8)
    (sm : StorageManager δ) : FlatHistory δ where
  cache := { pool, poolSize, lineSize }
  storage := sm
  flat := content sm.device

theorem freshCache_inv {pool : Nat → UInt8} {poolSize lineSize : Nat} (hpos : 0 < lineSize)
    (hsmall : lineSize < 4294967296) (hpool : kMaxLines * lineSize ≤ poolSize)
    (content : δ → Nat → UInt8) (sm : StorageManager δ) :
    FlatInv (freshCache pool poolSize lineSize content sm) where
  pos := hpos
  small := hsmall
  fits := hpool
  valid := fun _ h => absurd h (by simp [freshCache])
  length := Nat.zero_le _
  coherent := Coherent.empty _ _ _ _

/--
**The cache is transparent for what was written and not evicted since.** For every cache whose
pool holds 64 lines, over any backend: in a run whose reads find their line in the cache and ask
for bytes written since it entered, each read delivers those bytes of the flat array, however
many lines were evicted in between.
-/
theorem reads_transparent {pool : Nat → UInt8} {poolSize lineSize : Nat} (hpos : 0 < lineSize)
    (hsmall : lineSize < 4294967296) (hpool : kMaxLines * lineSize ≤ poolSize)
    (content : δ → Nat → UInt8) (sm : StorageManager δ) {calls : List CacheCall}
    (hc : Along flatStep ReadsWritten (freshCache pool poolSize lineSize content sm) calls) :
    Along flatStep Transparent (freshCache pool poolSize lineSize content sm) calls :=
  along_of_invariant FlatInv (fun _ _ _ hi hc h => flatInv_step hi hc h)
    (fun _ _ hi hc => transparent_of_inv hi hc) (freshCache_inv hpos hsmall hpool content sm) hc

/-- Two lines written and read back, the second after a flush. -/
theorem reads_transparent_two_lines :
    Along flatStep Transparent (freshCache (fun _ => 0) 0x4000 256 id testStorage)
      [.write 10 [1, 2, 3], .write 255 [4, 5], .read 11 [0, 0], .flush, .write 300 [6],
        .read 300 [0], .read 255 [0, 0]] :=
  reads_transparent (by decide) (by decide) (by decide) id testStorage (by decide +kernel)

/--
**A read of what is on flash fails**: the first read through a fresh cache misses, loads its
line, and returns -1, since the 256 bytes the storage reports are not 0.
-/
theorem first_read_fails :
    kMaxLines * 256 ≤ 0x4000
      ∧ ¬ Along flatStep Transparent (freshCache (fun _ => 0) 0x4000 256 id testStorage)
          [.read 0 [0, 0, 0, 0]] := by
  decide +kernel

end TaktOS.Proof
