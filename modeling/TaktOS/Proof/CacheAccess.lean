import TaktOS.Proof.WriteBackCache

/-!
# One call to the cache, taken apart

A read or a write finds its line or allocates one; what comes after that moves bytes and marks the
line dirty. So where lines are, and which is the next to go, is decided by the finding and the
allocating alone.
-/

namespace TaktOS.Proof

open Lib

variable {δ : Type}

/-! ## The calls -/

inductive CacheManagerCall where
  | read (flashOffset : UInt32) (buf : List UInt8)
  | write (flashOffset : UInt32) (data : List UInt8)
  | flush
  | invalidate

namespace CacheManagerCall

/-- The offset that is accessed. -/
def offset : CacheManagerCall → Option UInt32
  | read flashOffset _ => some flashOffset
  | write flashOffset _ => some flashOffset
  | flush => none
  | invalidate => none

/-- The result code, the cache and the storage afterwards. -/
def run (cm : CacheManager) (sm : StorageManager δ) :
    CacheManagerCall → Option (Int × CacheManager × StorageManager δ)
  | read flashOffset buf =>
    (cm.read sm flashOffset buf).map fun t => (t.1, t.2.2.1, t.2.2.2)
  | write flashOffset data => cm.write sm flashOffset data
  | flush => cm.flush sm
  | invalidate => some (0, cm.invalidate, sm)

theorem offset_none {op : CacheManagerCall} (h : op.offset = none) :
    op = .flush ∨ op = .invalidate := by
  cases op with
  | read off buf => exact absurd h (by simp [offset])
  | write off data => exact absurd h (by simp [offset])
  | flush => exact .inl rfl
  | invalidate => exact .inr rfl

theorem offset_some {op : CacheManagerCall} {flashOffset : UInt32}
    (h : op.offset = some flashOffset) :
    (∃ buf, op = .read flashOffset buf) ∨ ∃ data, op = .write flashOffset data := by
  cases op with
  | read off buf => exact .inl ⟨buf, by rw [Option.some.inj h]⟩
  | write off data => exact .inr ⟨data, by rw [Option.some.inj h]⟩
  | flush => exact absurd h (by simp [offset])
  | invalidate => exact absurd h (by simp [offset])

end CacheManagerCall

/-- An access to the offset takes the place of another line. -/
def Evicts (cm : CacheManager) (flashOffset : UInt32) : Prop :=
  ¬ Cached cm flashOffset ∧ kMaxLines ≤ cm.entries.length

instance (cm : CacheManager) (flashOffset : UInt32) : Decidable (Evicts cm flashOffset) :=
  inferInstanceAs (Decidable (_ ∧ _))

/-! ## What stays the same -/

/-- What of an entry decides where its line is and when it goes. -/
def mark (e : CacheEntry) : UInt32 × Bool × UInt32 := (e.key, e.valid, e.lastAccess)

/-- The same lines at the same places, last accessed at the same times. -/
structure SameMarks (cm cm' : CacheManager) : Prop where
  poolSize : cm'.poolSize = cm.poolSize
  lineSize : cm'.lineSize = cm.lineSize
  hits : cm'.hits = cm.hits
  misses : cm'.misses = cm.misses
  marks : cm'.entries.map mark = cm.entries.map mark

theorem SameMarks.refl (cm : CacheManager) : SameMarks cm cm := ⟨rfl, rfl, rfl, rfl, rfl⟩

/-- What a mark shows is the same. -/
theorem SameMarks.map {α : Type} {cm cm' : CacheManager} (h : SameMarks cm cm')
    {f : CacheEntry → α} (g : UInt32 × Bool × UInt32 → α) (hf : ∀ e, f e = g (mark e)) :
    cm'.entries.map f = cm.entries.map f := by
  have hmap : ∀ es : List CacheEntry, es.map f = (es.map mark).map g := by
    intro es
    rw [List.map_map]
    exact List.map_congr_left fun e _ => hf e
  rw [hmap, hmap, h.marks]

theorem SameMarks.length {cm cm' : CacheManager} (h : SameMarks cm cm') :
    cm'.entries.length = cm.entries.length := by
  have := congrArg List.length h.marks
  rwa [List.length_map, List.length_map] at this

theorem SameMarks.keys {cm cm' : CacheManager} (h : SameMarks cm cm') :
    cachedKeys cm' = cachedKeys cm := h.map (fun p => p.1.toNat) fun _ => rfl

theorem SameMarks.valid {cm cm' : CacheManager} (h : SameMarks cm cm') (hv : AllValid cm) :
    AllValid cm' := by
  intro e he
  have hmem : e.valid ∈ cm.entries.map fun e => e.valid := by
    rw [← h.map (f := fun e => e.valid) (fun p => p.2.1) fun _ => rfl]
    exact List.mem_map_of_mem he
  obtain ⟨e₀, he₀, heq⟩ := List.mem_map.mp hmem
  exact heq.symm.trans (hv e₀ he₀)

theorem flush_sameMarks {cm cm' : CacheManager} {sm sm' : StorageManager δ} {r : Int}
    (h : cm.flush sm = some (r, cm', sm')) : SameMarks cm cm' := by
  unfold CacheManager.flush at h
  split at h
  · exact absurd h (by simp)
  · rename_i hloop
    injection h with h; injection h with _ h; injection h with h _
    rw [← h]
    exact ⟨rfl, rfl, rfl, rfl, flushLoop_map (fun _ => rfl) hloop⟩

/-! ## Finding and allocating -/

theorem findLine_hit {cm cm₁ : CacheManager} {flashOffset : UInt32} {i : Nat}
    (h : cm.findLine flashOffset = (some i, cm₁)) :
    i < cm.entries.length ∧ cm₁ = { cm with
      hits := cm.hits + 1
      entries := cm.entries.modify i fun e =>
        { e with lastAccess := cm.hits + 1 + cm.misses } } := by
  unfold CacheManager.findLine at h
  split at h
  · rename_i j hfind
    obtain ⟨hj, _⟩ := List.findIdx?_eq_some_iff_getElem.mp hfind
    injection h with hi h
    injection hi with hi
    rw [← hi, ← h]
    exact ⟨hj, rfl⟩
  · injection h with hi _
    exact absurd hi (by simp)

theorem findLine_miss {cm cm₁ : CacheManager} {flashOffset : UInt32}
    (h : cm.findLine flashOffset = (none, cm₁)) : cm₁ = { cm with misses := cm.misses + 1 } := by
  unfold CacheManager.findLine at h
  split at h
  · injection h with hi _
    exact absurd hi (by simp)
  · injection h with _ h
    exact h.symm

/-- The entry of a line that was allocated. -/
def freshEntry (cm : CacheManager) (flashOffset : UInt32) : CacheEntry :=
  { key := cm.lineKey flashOffset, size := UInt32.ofNat cm.lineSize, valid := true }

/-- A line is allocated behind the others, or in the place of one, which was flushed if it was
dirty. -/
theorem allocateLine_cases {cm cm' : CacheManager} {sm sm' : StorageManager δ}
    {flashOffset : UInt32} {i : Nat} (h : cm.allocateLine sm flashOffset = some (i, cm', sm')) :
    (cm.entries.length < kMaxLines ∧ i = cm.entries.length ∧ sm' = sm
        ∧ cm' = { cm with entries := cm.entries ++ [freshEntry cm flashOffset] })
      ∨ (kMaxLines ≤ cm.entries.length ∧ i = cm.lruIdx ∧ ∃ cm₁, SameMarks cm cm₁
        ∧ (((cm.entries.getD i {}).dirty = false ∧ cm₁ = cm ∧ sm' = sm)
          ∨ ((cm.entries.getD i {}).dirty = true ∧ ∃ r, cm.flush sm = some (r, cm₁, sm')))
        ∧ cm' = { cm₁ with entries := cm₁.entries.set i (freshEntry cm flashOffset) }) := by
  unfold CacheManager.allocateLine at h
  dsimp only at h
  split at h
  · rename_i hroom
    injection h with h; injection h with hi h; injection h with h hsm
    exact Or.inl ⟨hroom, hi.symm, hsm.symm, h.symm⟩
  · rename_i hfull
    right
    split at h
    · rename_i hdirty
      split at h
      · exact absurd h (by simp)
      · rename_i r cm₁ sm₁ hflush
        injection h with h; injection h with hi h; injection h with h hsm
        rw [← hi, ← hsm]
        exact ⟨Nat.le_of_not_lt hfull, rfl, cm₁, flush_sameMarks hflush,
          Or.inr ⟨hdirty, r, hflush⟩, h.symm⟩
    · rename_i hclean
      injection h with h; injection h with hi h; injection h with h hsm
      rw [← hi]
      exact ⟨Nat.le_of_not_lt hfull, rfl, cm, .refl cm,
        Or.inl ⟨by simpa using hclean, rfl, hsm.symm⟩, h.symm⟩

theorem allocateLine_valid {cm cm' : CacheManager} {sm sm' : StorageManager δ}
    {flashOffset : UInt32} {i : Nat} (hv : AllValid cm)
    (h : cm.allocateLine sm flashOffset = some (i, cm', sm')) : AllValid cm' := by
  rcases allocateLine_cases h with ⟨_, _, _, rfl⟩ | ⟨_, _, cm₁, hsame, _, rfl⟩
  · intro e he
    rcases List.mem_append.mp he with hmem | hnew
    · exact hv e hmem
    · rw [List.mem_singleton.mp hnew]
      rfl
  · intro e he
    rcases List.mem_or_eq_of_mem_set he with hmem | heq
    · exact hsame.valid hv e hmem
    · rw [heq]
      rfl

/-! ## A whole call -/

theorem copyOut_same {cm cm' : CacheManager} {sm sm' : StorageManager δ} {i : Nat}
    {flashOffset : UInt32} {buf out : List UInt8} {r : Int}
    (h : cm.copyOut sm i flashOffset buf = some (r, out, cm', sm')) : cm' = cm ∧ sm' = sm := by
  unfold CacheManager.copyOut at h
  split at h
  · exact absurd h (by simp)
  · have h := Option.some.inj h
    exact ⟨(congrArg (fun t => t.2.2.1) h).symm, (congrArg (fun t => t.2.2.2) h).symm⟩

theorem copyIn_same {cm cm' : CacheManager} {sm sm' : StorageManager δ} {i : Nat}
    {flashOffset : UInt32} {data : List UInt8} {r : Int}
    (h : cm.copyIn sm i flashOffset data = some (r, cm', sm')) :
    SameMarks cm cm' ∧ sm' = sm := by
  unfold CacheManager.copyIn at h
  split at h
  · exact absurd h (by simp)
  · injection h with h; injection h with _ h; injection h with h hsm
    rw [← h]
    exact ⟨⟨rfl, rfl, rfl, rfl, map_modify_same (by intro e; rfl) _ _⟩, hsm.symm⟩

theorem storageRead_backend (sm : StorageManager δ) (offset : UInt32) (buf : List UInt8) :
    (sm.read offset buf).2.2.backend = sm.backend := by
  unfold StorageManager.read
  split
  · rfl
  · split
    · rfl
    · rfl

/-- **An access finds its line or allocates it**, and moves no line after that. -/
theorem access_cases {cm cm' : CacheManager} {sm sm' : StorageManager δ} {op : CacheManagerCall}
    {flashOffset : UInt32} {r : Int} (ho : op.offset = some flashOffset)
    (h : op.run cm sm = some (r, cm', sm')) :
    UInt32.ofNat cm.lineSize ≠ 0 ∧ sm'.backend = sm.backend
      ∧ ((∃ i cm₁, cm.findLine flashOffset = (some i, cm₁) ∧ SameMarks cm₁ cm')
        ∨ ∃ cm₁ i cm₂ sm₂, cm.findLine flashOffset = (none, cm₁)
          ∧ cm₁.allocateLine sm flashOffset = some (i, cm₂, sm₂) ∧ SameMarks cm₂ cm') := by
  cases op with
  | read off buf =>
    injection ho with ho
    subst ho
    obtain ⟨⟨r₁, out, cm₁, sm₁⟩, hread, heq⟩ := Option.map_eq_some_iff.mp h
    obtain ⟨rfl, rfl, rfl⟩ : r₁ = r ∧ cm₁ = cm' ∧ sm₁ = sm' := by simpa using heq
    unfold CacheManager.read at hread
    split at hread
    · exact absurd hread (by simp)
    · rename_i hsize
      refine ⟨hsize, ?_⟩
      rcases hfind : cm.findLine off with ⟨_ | i, cm₂⟩
      · rw [hfind] at hread
        dsimp only at hread
        split at hread
        · exact absurd hread (by simp)
        · rename_i i cm₃ sm₃ halloc
          have hback := allocateLine_backend halloc
          split at hread
          · exact absurd hread (by simp)
          · -- the load changes the pool
            split at hread
            · injection hread with hread; injection hread with _ hread
              injection hread with _ hread; injection hread with hcm hsm
              rw [← hcm, ← hsm, storageRead_backend]
              exact ⟨hback, Or.inr ⟨cm₂, i, cm₃, sm₃, rfl, halloc, rfl, rfl, rfl, rfl, rfl⟩⟩
            · obtain ⟨rfl, rfl⟩ := copyOut_same hread
              rw [storageRead_backend]
              exact ⟨hback, Or.inr ⟨cm₂, i, cm₃, sm₃, rfl, halloc, rfl, rfl, rfl, rfl, rfl⟩⟩
      · rw [hfind] at hread
        obtain ⟨rfl, rfl⟩ := copyOut_same hread
        exact ⟨rfl, Or.inl ⟨i, cm₁, rfl, .refl cm₁⟩⟩
  | write off data =>
    injection ho with ho
    subst ho
    have hwrite : cm.write sm off data = some (r, cm', sm') := h
    unfold CacheManager.write at hwrite
    split at hwrite
    · exact absurd hwrite (by simp)
    · rename_i hsize
      refine ⟨hsize, ?_⟩
      rcases hfind : cm.findLine off with ⟨_ | i, cm₁⟩
      · rw [hfind] at hwrite
        dsimp only at hwrite
        split at hwrite
        · exact absurd hwrite (by simp)
        · rename_i i cm₂ sm₂ halloc
          obtain ⟨hsame, rfl⟩ := copyIn_same hwrite
          exact ⟨allocateLine_backend halloc, Or.inr ⟨cm₁, i, cm₂, sm', rfl, halloc, hsame⟩⟩
      · rw [hfind] at hwrite
        obtain ⟨hsame, rfl⟩ := copyIn_same hwrite
        exact ⟨rfl, Or.inl ⟨i, cm₁, rfl, hsame⟩⟩
  | flush => exact absurd ho (by simp [CacheManagerCall.offset])
  | invalidate => exact absurd ho (by simp [CacheManagerCall.offset])

end TaktOS.Proof
