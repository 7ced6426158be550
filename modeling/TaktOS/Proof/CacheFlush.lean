import TaktOS.Proof.WriteBackCache

/-!
# Flushing the write-back cache

`flush` takes every code of `StorageManager::write` but 0 for an error and stops, and a write
that succeeds returns the byte count. So it reports failure as soon as there is a dirty line,
and there is one after every write.
-/

namespace TaktOS.Proof

open Lib

variable {δ : Type} {b : FlashBackend δ}

/-- **The flush makes the writes durable**: it reports success, leaves no line dirty, and the
flash holds what was written, and nothing else has changed. -/
def FlushDurable (content : δ → Nat → UInt8) (s : FlatHistory δ)
    (writes : List (UInt32 × List UInt8)) : Prop :=
  ∃ s' cm sm, run flatStep s (writes.map fun w => .write w.1 w.2) = some s'
    ∧ s'.cache.flush s'.storage = some (0, cm, sm)
    ∧ (∀ e ∈ cm.entries, e.dirty = false)
    ∧ content sm.device = s'.flat

/-! ## A dirty line makes the flush fail -/

/-- Writing a line never returns 0. -/
theorem write_ne_zero {sm sm' : StorageManager δ} (hb : sm.backend = some b)
    (hcode : b.Counts) {offset : UInt32} {buf : List UInt8} {r : Int}
    (hlen : UInt32.ofNat buf.length ≠ 0)
    (h : sm.write offset buf = some (r, sm')) : r ≠ 0 := by
  rw [StorageManager.write, hb] at h
  dsimp only at h
  split at h
  · injection h with h; injection h with hr _
    rw [← hr]
    decide
  · split at h
    · exact absurd h (by simp)
    · split at h
      · exact absurd h (by simp)
      · injection h with h; injection h with hr _
        rw [← hr]
        decide
      · rename_i d _
        injection h with h; injection h with hr _
        rw [← hr]
        rcases hcode d offset buf with hcount | hneg
        · rw [hcount]
          exact castInt_ne_zero hlen
        · exact Int.ne_of_lt hneg

/-- The first line that a flush writes. -/
def firstDirty (es : List CacheEntry) : Option Nat := es.findIdx? fun e => e.valid && e.dirty

/-- The loop stops at the first dirty line, once it has written it. -/
theorem flushLoop_stops {cm : CacheManager} (hsize : UInt32.ofNat cm.lineSize ≠ 0)
    {sm : StorageManager δ} (hb : sm.backend = some b) (hcode : b.Counts) :
    ∀ {es es' : List CacheEntry} {i j : Nat} {sm' : StorageManager δ} {r : Int},
    firstDirty es = some j → cm.flushLoop i es sm = some (r, es', sm') →
    r = -1 ∧ ∃ r', sm.write ((es.getD j {}).key * UInt32.ofNat cm.lineSize)
      (cm.poolLine (i + j)) = some (r', sm') := by
  intro es
  induction es with
  | nil => intro es' i j sm' r hj; exact absurd hj (by simp [firstDirty])
  | cons e es ih =>
    intro es' i j sm' r hj h
    rw [firstDirty, List.findIdx?_cons] at hj
    rw [CacheManager.flushLoop] at h
    split at h
    · -- this is the line
      rename_i hdirty
      rw [if_pos hdirty] at hj
      obtain rfl : 0 = j := Option.some.inj hj
      split at h
      · exact absurd h (by simp)
      · split at h
        · exact absurd h (by simp)
        · rename_i hw
          have hne := write_ne_zero hb hcode (by rw [length_poolLine]; exact hsize) hw
          rw [if_pos hne] at h
          injection h with h; injection h with hr h; injection h with _ h
          rw [← h]
          exact ⟨hr.symm, _, hw⟩
    · rename_i hclean
      rw [if_neg hclean] at hj
      obtain ⟨k, hk, rfl⟩ := Option.map_eq_some_iff.mp hj
      split at h
      · exact absurd h (by simp)
      · rename_i hloop
        injection h with h; injection h with hr h; injection h with _ h
        rw [← hr, ← h, show i + (k + 1) = i + 1 + k by omega]
        exact ih hk hloop

/-- **A flush writes the first dirty line and fails.** -/
theorem flush_stops {cm cm' : CacheManager} (hsize : UInt32.ofNat cm.lineSize ≠ 0)
    {sm sm' : StorageManager δ} (hb : sm.backend = some b) (hcode : b.Counts) {r : Int} {j : Nat}
    (hj : firstDirty cm.entries = some j) (h : cm.flush sm = some (r, cm', sm')) :
    r = -1 ∧ ∃ r', sm.write ((cm.entries.getD j {}).key * UInt32.ofNat cm.lineSize)
      (cm.poolLine j) = some (r', sm') := by
  unfold CacheManager.flush at h
  split at h
  · exact absurd h (by simp)
  · rename_i hloop
    injection h with h; injection h with hr h; injection h with _ h
    have hstop := flushLoop_stops hsize hb hcode hj hloop
    rw [hr, h, Nat.zero_add] at hstop
    exact hstop

theorem exists_firstDirty {es : List CacheEntry}
    (h : ∃ e ∈ es, e.valid = true ∧ e.dirty = true) : ∃ j, firstDirty es = some j := by
  obtain ⟨e, he, hv, hd⟩ := h
  cases hj : firstDirty es with
  | some j => exact ⟨j, rfl⟩
  | none =>
    have := List.findIdx?_eq_none_iff.mp hj e he
    rw [hv, hd] at this
    exact absurd this (by simp)

/-! ## Every write leaves a dirty line -/

theorem copyIn_dirty {cm cm' : CacheManager} {sm sm' : StorageManager δ} {i k : Nat}
    {flashOffset : UInt32} {data : List UInt8} {r : Int} (hv : AllValid cm)
    (hslot : (cachedKeys cm)[i]? = some k)
    (h : cm.copyIn sm i flashOffset data = some (r, cm', sm')) :
    (∃ e ∈ cm'.entries, e.valid = true ∧ e.dirty = true) ∧ sm' = sm := by
  unfold CacheManager.copyIn at h
  split at h
  · exact absurd h (by simp)
  · injection h with h; injection h with _ h; injection h with h hsm
    obtain ⟨hlt, _⟩ := List.getElem?_eq_some_iff.mp hslot
    rw [cachedKeys, List.length_map] at hlt
    rw [← h]
    have hvi : cm.entries[i].valid = true := hv _ (List.getElem_mem hlt)
    refine ⟨⟨{ cm.entries[i] with dirty := true }, ?_, hvi, rfl⟩, hsm.symm⟩
    refine List.mem_of_getElem? (i := i) ?_
    rw [List.getElem?_modify, List.getElem?_eq_getElem hlt]
    simp

/-- After a write some line is dirty. -/
theorem write_dirty {s s' : FlatHistory δ} (hi : FlatInv s) {flashOffset : UInt32}
    {data : List UInt8} (h : flatStep s (.write flashOffset data) = some s') :
    (∃ e ∈ s'.cache.entries, e.valid = true ∧ e.dirty = true)
      ∧ s'.storage.backend = s.storage.backend := by
  obtain ⟨⟨r, cm, sm⟩, hwrite, rfl⟩ := Option.map_eq_some_iff.mp h
  rw [CacheManager.write, if_neg (lineSize_ne_zero hi.pos hi.small)] at hwrite
  rcases findLine_cases hi.valid flashOffset with ⟨i, cm₁, hfind, hsame, hslot⟩
    | ⟨cm₁, hfind, hsame, _⟩
  · rw [hfind] at hwrite
    rw [← hsame.keys] at hslot
    obtain ⟨hdirty, hsm⟩ := copyIn_dirty (hsame.valid hi.valid) hslot hwrite
    exact ⟨hdirty, congrArg StorageManager.backend hsm⟩
  · rw [hfind] at hwrite
    dsimp only at hwrite
    split at hwrite
    · exact absurd hwrite (by simp)
    · rename_i halloc
      have hlen : cm₁.entries.length ≤ kMaxLines :=
        Nat.le_trans (Nat.le_of_eq hsame.length) hi.length
      have hent := allocateLine_entered (hsame.valid hi.valid) hlen halloc
      obtain ⟨hdirty, hsm⟩ := copyIn_dirty hent.valid hent.slot hwrite
      exact ⟨hdirty, (congrArg StorageManager.backend hsm).trans (allocateLine_backend halloc)⟩

/-- After writes some line is dirty. -/
theorem writes_dirty : ∀ {writes : List (UInt32 × List UInt8)} {s s' : FlatHistory δ},
    FlatInv s → writes ≠ [] → run flatStep s (writes.map fun w => .write w.1 w.2) = some s' →
    FlatInv s' ∧ (∃ e ∈ s'.cache.entries, e.valid = true ∧ e.dirty = true)
      ∧ s'.storage.backend = s.storage.backend := by
  intro writes
  induction writes with
  | nil => intro s s' _ hne; exact absurd rfl hne
  | cons w ws ih =>
    intro s s' hi _ h
    obtain ⟨s₁, hstep, hrest⟩ := run_cons_some h
    have hwritten : ReadsWritten s (.write w.1 w.2) := trivial
    have hi₁ : FlatInv s₁ := flatInv_step hi hwritten hstep
    obtain ⟨hdirty, hback⟩ := write_dirty hi hstep
    cases ws with
    | nil =>
      rw [List.map_nil, run] at hrest
      rw [← Option.some.inj hrest]
      exact ⟨hi₁, hdirty, hback⟩
    | cons w' ws =>
      obtain ⟨hi', hdirty', hback'⟩ := ih hi₁ (by simp) hrest
      exact ⟨hi', hdirty', hback'.trans hback⟩

/-! ## The theorem -/

/--
**A flush makes writes durable only where there are none.** For every cache whose pool holds 64
lines, over any backend whose writes report their length or a negative code, and every sequence
of writes: after the first write no flush reports success.
-/
theorem flush_durable_iff {pool : Nat → UInt8} {poolSize lineSize : Nat} (hpos : 0 < lineSize)
    (hsmall : lineSize < 4294967296) (hpool : kMaxLines * lineSize ≤ poolSize)
    (content : δ → Nat → UInt8) {sm : StorageManager δ} (hb : sm.backend = some b)
    (hcode : b.Counts) (writes : List (UInt32 × List UInt8)) :
    FlushDurable content (freshCache pool poolSize lineSize content sm) writes
      ↔ writes = [] := by
  have hi : FlatInv (freshCache pool poolSize lineSize content sm) :=
    freshCache_inv hpos hsmall hpool content sm
  constructor
  · rintro ⟨s', cm, sm', hrun, hflush, _⟩
    by_cases hne : writes = []
    · exact hne
    · obtain ⟨hi', hdirty, hback⟩ := writes_dirty hi hne hrun
      obtain ⟨j, hj⟩ := exists_firstDirty hdirty
      obtain ⟨hfail, _⟩ := flush_stops (lineSize_ne_zero hi'.pos hi'.small) (hback.trans hb)
        hcode hj hflush
      exact absurd hfail (by decide)
  · rintro rfl
    exact ⟨_, _, _, rfl, rfl, fun _ h => absurd h (by simp), rfl⟩

/-- A cache nothing was written to is flushed. -/
theorem flush_durable_no_writes :
    FlushDurable id (freshCache (fun _ => 0) 0x4000 256 id testStorage) [] :=
  (flush_durable_iff (by decide) (by decide) (by decide) id rfl
    (memBackend_counts 0x10000 4096) []).mpr rfl

/--
**One byte written is not flushed**: the line reaches the flash, the flush reports -1, and the
line stays dirty.
-/
theorem one_write_not_flushed :
    (memBackend 0x10000 4096).Reliable id
      ∧ ¬ FlushDurable id (freshCache (fun _ => 0) 0x4000 256 id testStorage) [(0, [1])] := by
  refine ⟨testFlash_reliable, ?_⟩
  rintro ⟨s', cm, sm, hrun, hflush, _⟩
  have hresult : (run flatStep (freshCache (fun _ => 0) 0x4000 256 id testStorage)
      [.write 0 [1]]).bind (fun s => (s.cache.flush s.storage).map fun t => t.1)
      = some (-1) := by decide +kernel
  rw [show run flatStep (freshCache (fun _ => 0) 0x4000 256 id testStorage) [.write 0 [1]]
    = some s' from hrun] at hresult
  simp [hflush] at hresult

end TaktOS.Proof
