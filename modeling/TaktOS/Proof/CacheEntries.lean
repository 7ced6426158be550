import TaktOS.Proof.CacheAccess

/-!
# The entries of the cache

A line gets an entry in one place only, after its key was not found, and what goes for it is an
entry or nothing. So however the flash fails, and whatever it holds at each call, no two entries
have one key. The line that `findLine` stops at is the only one it could have stopped at.
-/

namespace TaktOS.Proof

open Lib

variable {δ : Type}

/-- A call to the cache, with the storage as the call finds it. -/
def entriesStep (cm : CacheManager) (call : CacheManagerCall × StorageManager δ) :
    Option CacheManager :=
  (call.1.run cm call.2).map fun t => t.2.1

/-- The entry at `i` is valid and has the key of the address. -/
def HeldAt (cm : CacheManager) (i : Nat) (address : UInt32) : Prop :=
  ∃ e, cm.entries[i]? = some e ∧ e.valid = true ∧ e.key = cm.lineKey address

/-- **The entries in use**: at most 64, all of them valid, no two with one key. -/
structure EntriesLaw (cm : CacheManager) : Prop where
  count : cm.entries.length ≤ kMaxLines
  valid : AllValid cm
  distinct : (cachedKeys cm).Nodup

variable {cm cm' : CacheManager}

theorem EntriesLaw.empty (h : cm.entries = []) : EntriesLaw cm := by
  refine ⟨?_, ?_, ?_⟩
  · rw [h]; exact Nat.zero_le _
  · intro e he; rw [h] at he; exact absurd he List.not_mem_nil
  · rw [cachedKeys, h]; exact List.nodup_nil

theorem EntriesLaw.sameLines (hl : EntriesLaw cm) (h : SameLines cm cm') : EntriesLaw cm' :=
  ⟨h.length ▸ hl.count, h.valid hl.valid, h.keys ▸ hl.distinct⟩

theorem EntriesLaw.sameMarks (hl : EntriesLaw cm) (h : SameMarks cm cm') : EntriesLaw cm' :=
  ⟨h.length ▸ hl.count, h.valid hl.valid, h.keys ▸ hl.distinct⟩

/-- A line whose key no entry has takes a new entry, or that of another line. -/
theorem EntriesLaw.entered (hl : EntriesLaw cm) {i k : Nat} (h : Entered cm cm' i k)
    (hk : k ∉ cachedKeys cm) : EntriesLaw cm' := by
  refine ⟨h.length, h.valid, ?_⟩
  rcases h.keys with hnew | hevict
  · rw [hnew, List.nodup_append]
    refine ⟨hl.distinct, List.nodup_singleton k, fun a ha b hb hab => ?_⟩
    rw [List.mem_singleton.mp hb] at hab
    exact hk (hab ▸ ha)
  · rw [hevict]
    exact hl.distinct.set hk

/-- **Every call keeps the law**, whatever it returns. -/
theorem entriesLaw_step {call : CacheManagerCall × StorageManager δ} (hl : EntriesLaw cm)
    (h : entriesStep cm call = some cm') : EntriesLaw cm' := by
  obtain ⟨op, sm⟩ := call
  obtain ⟨⟨r, cm₁, sm₁⟩, hrun, rfl⟩ := Option.map_eq_some_iff.mp h
  cases ho : op.offset with
  | none =>
    rcases CacheManagerCall.offset_none ho with rfl | rfl
    · exact hl.sameMarks (flush_sameMarks hrun)
    · injection hrun with hrun; injection hrun with _ hrun; injection hrun with hcm _
      rw [← hcm]
      exact .empty rfl
  | some flashOffset =>
    obtain ⟨-, -, ⟨i, cm₂, hfind, hmarks⟩ | ⟨cm₂, i, cm₃, sm₃, hfind, halloc, hmarks⟩⟩ :=
      access_cases ho hrun
    · obtain ⟨hsame, -⟩ := findLine_found hl.valid hfind
      exact (hl.sameLines hsame).sameMarks hmarks
    · -- the key that is allocated is the one that was not found
      obtain ⟨hsame, hmiss⟩ := findLine_missed hl.valid hfind
      have hl₂ := hl.sameLines hsame
      have hentered := allocateLine_entered hl₂.valid hl₂.count halloc
      have hnew : (cm₂.lineKey flashOffset).toNat ∉ cachedKeys cm₂ := by
        rw [hsame.lineKey, hsame.keys]
        exact hmiss
      exact (hl₂.entered hentered hnew).sameMarks hmarks

/-- An address is held by one entry at most. -/
theorem EntriesLaw.held_unique (hl : EntriesLaw cm) {address : UInt32} {i j : Nat}
    (hi : HeldAt cm i address) (hj : HeldAt cm j address) : i = j := by
  have hkey : ∀ {n : Nat}, HeldAt cm n address →
      (cachedKeys cm)[n]? = some (cm.lineKey address).toNat := by
    rintro n ⟨e, he, -, hk⟩
    rw [cachedKeys, List.getElem?_map, he, ← hk]
    rfl
  have hlt := (List.getElem?_eq_some_iff.mp (hkey hi)).1
  exact (List.getElem?_inj hlt hl.distinct).mp ((hkey hi).trans (hkey hj).symm)

/-- **The first match is the only one.** -/
theorem EntriesLaw.findLine_iff (hl : EntriesLaw cm) (flashOffset : UInt32) (i : Nat) :
    (cm.findLine flashOffset).1 = some i ↔ HeldAt cm i flashOffset := by
  have hfound : ∀ {n : Nat}, (cachedKeys cm)[n]? = some (cm.lineKey flashOffset).toNat →
      HeldAt cm n flashOffset := by
    intro n hn
    rw [cachedKeys, List.getElem?_map, Option.map_eq_some_iff] at hn
    obtain ⟨e, he, hk⟩ := hn
    exact ⟨e, he, hl.valid e (List.mem_of_getElem? he), UInt32.toNat_inj.mp hk⟩
  rcases findLine_cases hl.valid flashOffset with ⟨j, cm₁, hfind, -, hslot⟩
    | ⟨cm₁, hfind, -, hmiss⟩
  · rw [hfind]
    constructor
    · intro h
      exact Option.some.inj h ▸ hfound hslot
    · intro h
      exact congrArg some (hl.held_unique (hfound hslot) h)
  · rw [hfind]
    constructor
    · intro h
      exact absurd h (by simp)
    · rintro ⟨e, he, -, hk⟩
      exact absurd (hk ▸ List.mem_map_of_mem (List.mem_of_getElem? he)) hmiss

/--
**The cache representation invariant.** After any calls, with the storage in any state at each of
them, the entries in use are at most 64, valid and with different keys; an address is held by at
most one of them, and that is the one `findLine` finds.
-/
theorem entries_distinct {pool : Nat → UInt8} {poolSize lineSize : Nat}
    {calls : List (CacheManagerCall × StorageManager δ)}
    (h : run entriesStep { pool, poolSize, lineSize } calls = some cm) :
    EntriesLaw cm ∧ (∀ address i j, HeldAt cm i address → HeldAt cm j address → i = j) ∧
      ∀ flashOffset i, (cm.findLine flashOffset).1 = some i ↔ HeldAt cm i flashOffset := by
  have hl : EntriesLaw cm :=
    run_preserves EntriesLaw (fun _ _ _ hl hs => entriesLaw_step hl hs) (.empty rfl) h
  exact ⟨hl, fun _ _ _ => hl.held_unique, hl.findLine_iff⟩

/-- A line is written and another read, and none reaches the flash that there is not. -/
def callsWithoutFlash : List (CacheManagerCall × StorageManager Unit) :=
  [.write 3 [7], .flush, .read 20 [0], .read 30 [0]].map fun call =>
    (call, { target := .host, device := () })

/-- The line that was not loaded has an entry, next to the one that was not flushed. -/
theorem entries_distinct_no_flash : ∃ cm,
    run entriesStep { pool := fun _ => 0, poolSize := 32, lineSize := 16 } callsWithoutFlash
        = some cm ∧
      EntriesLaw cm ∧ (∀ address i j, HeldAt cm i address → HeldAt cm j address → i = j) ∧
      ∀ flashOffset i, (cm.findLine flashOffset).1 = some i ↔ HeldAt cm i flashOffset := by
  have hsome : (run entriesStep { pool := fun _ => 0, poolSize := 32, lineSize := 16 }
      callsWithoutFlash).isSome = true := by decide
  obtain ⟨cm, hrun⟩ := Option.isSome_iff_exists.mp hsome
  exact ⟨cm, hrun, entries_distinct hrun⟩

end TaktOS.Proof
