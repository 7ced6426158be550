import TaktOS.Kernel.NamedRegions
import TaktOS.Lib.Run

/-!
# Named regions as a map

A name is cut to 31 characters when it is registered and compared whole when it is looked up, and
the first entry with the name is the one that is found. So a longer name is not found at all, and
the others are found with what was registered first under a name that is the same once it is cut.

What is found under a name does not change any more, since the table only grows at its end. It is
decided at the registration whether it is what was registered.
-/

namespace TaktOS.Proof

open Lib

/-- A call of `registerRegion`. -/
structure Registration where
  name : List UInt8
  offset : UInt32
  size : UInt32

/-- The name as a C string. -/
def Registration.text (c : Registration) : List UInt8 := cstr c.name

/-- The table, with the calls that returned true. -/
structure RegionHistory where
  table : NamedRegions := {}
  accepted : List Registration := []

def regionStep (s : RegionHistory) (c : Registration) : Option RegionHistory :=
  let (ok, table) := s.table.registerRegion c.name c.offset c.size
  some { table, accepted := if ok then s.accepted ++ [c] else s.accepted }

/-- Under the name the table has what the call registered. -/
def Finds (s : RegionHistory) (c : Registration) : Prop :=
  ∀ name, cstr name = c.text →
    ∃ r, s.table.getRegion name = some r ∧ r.offset = c.offset ∧ r.size = c.size

/-- **The regions are a map at the call**: if it is accepted, what it registers is found under its
name, until the name is registered again. -/
def KeepsMap (s : RegionHistory) (c : Registration) : Prop :=
  ∀ s', regionStep s c = some s' → s'.accepted = s.accepted ++ [c] →
    ∀ calls t, run regionStep s' calls = some t →
      (∀ c' ∈ t.accepted.drop s'.accepted.length, c'.text ≠ c.text) → Finds t c

/-- If there is room, the name is not cut, and the first call accepted before for a name that is it
once cut, if there is one, was for the same region. -/
def NameUnused (s : RegionHistory) (c : Registration) : Prop :=
  s.accepted.length < kMaxRegions → c.text.length ≤ 31 ∧
    ∀ b, s.accepted.find? (fun b => b.text.take 31 == c.text) = some b →
      b.offset = c.offset ∧ b.size = c.size

/-! ## The table and the calls -/

/-- The entry that a call makes. -/
def entryOf (c : Registration) : NamedRegion :=
  let name := (CBuffer.empty 31).strncpy c.name
  let region := { offset := c.offset, size := c.size, label := name.stringAt 0 }
  { name, region, active := true }

/-- The entries are those of the calls that returned true. -/
def RegionLaw (s : RegionHistory) : Prop := s.table.regions = s.accepted.map entryOf

theorem registerRegion_cases (s : RegionHistory) (c : Registration) :
    (s.table.regions.length < kMaxRegions ∧ regionStep s c = some
        { table := { regions := s.table.regions ++ [entryOf c] }
          accepted := s.accepted ++ [c] }) ∨
      kMaxRegions ≤ s.table.regions.length ∧ regionStep s c = some s := by
  by_cases hfull : s.table.regions.length ≥ kMaxRegions
  · refine .inr ⟨hfull, ?_⟩
    rw [regionStep, NamedRegions.registerRegion, if_pos hfull]
    rfl
  · refine .inl ⟨Nat.lt_of_not_le hfull, ?_⟩
    rw [regionStep, NamedRegions.registerRegion, if_neg hfull]
    rfl

theorem regionLaw_step {s s' : RegionHistory} {c : Registration} (hl : RegionLaw s)
    (h : regionStep s c = some s') : RegionLaw s' := by
  rcases registerRegion_cases s c with ⟨-, heq⟩ | ⟨-, heq⟩
  · obtain rfl := Option.some.inj (heq.symm.trans h)
    show s.table.regions ++ [entryOf c] = (s.accepted ++ [c]).map entryOf
    rw [List.map_append, ← hl]
    rfl
  · obtain rfl := Option.some.inj (heq.symm.trans h)
    exact hl

/-- **A lookup finds the first call whose name, once cut, is the name.** -/
theorem RegionLaw.getRegion {s : RegionHistory} (hl : RegionLaw s) (name : List UInt8) :
    s.table.getRegion name =
      (s.accepted.find? fun c => c.text.take 31 == cstr name).map fun c => (entryOf c).region := by
  rw [NamedRegions.getRegion, hl, List.find?_map, Option.map_map]
  have hkey : ((fun r : NamedRegion => r.active && r.name.stringAt 0 == cstr name) ∘ entryOf) =
      fun c => c.text.take 31 == cstr name := by
    funext c
    rw [Function.comp_apply, entryOf]
    dsimp only
    rw [CBuffer.stringAt_strncpy, Bool.true_and, Registration.text]
  rw [hkey]
  rfl

/-- What was accepted stays in front. -/
theorem accepted_prefix {s t : RegionHistory} {calls : List Registration}
    (h : run regionStep s calls = some t) : s.accepted <+: t.accepted := by
  refine run_preserves (fun t => s.accepted <+: t.accepted) (fun t c t' hp ht => ?_)
    (List.prefix_refl _) h
  rcases registerRegion_cases t c with ⟨-, heq⟩ | ⟨-, heq⟩
  · obtain rfl := Option.some.inj (heq.symm.trans ht)
    exact hp.trans (List.prefix_append _ _)
  · obtain rfl := Option.some.inj (heq.symm.trans ht)
    exact hp

/-! ## When they are a map -/

/-- What a call registers is found when its name is whole and nothing else is found before it. -/
theorem RegionLaw.finds_iff {s : RegionHistory} (hl : RegionLaw s) (c : Registration) :
    Finds s c ↔ ∃ b, s.accepted.find? (fun b => b.text.take 31 == c.text) = some b ∧
      b.offset = c.offset ∧ b.size = c.size := by
  constructor
  · intro h
    obtain ⟨r, hget, hoff, hsize⟩ := h c.name rfl
    rw [hl.getRegion] at hget
    obtain ⟨b, hb, rfl⟩ := Option.map_eq_some_iff.mp hget
    exact ⟨b, hb, hoff, hsize⟩
  · rintro ⟨b, hb, hoff, hsize⟩ name hname
    refine ⟨(entryOf b).region, ?_, hoff, hsize⟩
    rw [hl.getRegion, hname, hb]
    rfl

theorem keepsMap_iff {s : RegionHistory} (hl : RegionLaw s) (c : Registration) :
    KeepsMap s c ↔ NameUnused s c := by
  have hlen : s.table.regions.length = s.accepted.length := by rw [hl, List.length_map]
  constructor
  · intro h hroom
    rcases registerRegion_cases s c with ⟨-, heq⟩ | ⟨hfull, -⟩
    · -- with no further call, what is found is decided by the calls so far
      have hfound := h _ heq rfl [] _ rfl (by simp)
      obtain ⟨b, hb, hoff, hsize⟩ := ((regionLaw_step hl heq).finds_iff c).mp hfound
      have hname : b.text.take 31 = c.text := by simpa using List.find?_some hb
      refine ⟨?_, fun b' hb' => ?_⟩
      · rw [← hname, List.length_take]
        exact Nat.min_le_left _ _
      · rw [List.find?_append, hb'] at hb
        obtain rfl := Option.some.inj hb
        exact ⟨hoff, hsize⟩
    · rw [hlen] at hfull
      exact absurd hroom (Nat.not_lt.mpr hfull)
  · intro h s' hs' hacc calls t ht _
    have hroom : s.accepted.length < kMaxRegions := by
      rcases registerRegion_cases s c with ⟨hroom, -⟩ | ⟨-, heq⟩
      · rwa [hlen] at hroom
      · -- a refused call is not among the accepted ones
        obtain rfl := Option.some.inj (heq.symm.trans hs')
        exact absurd (congrArg List.length hacc) (by simp)
    obtain ⟨hshort, hbefore⟩ := h hroom
    have hlt : RegionLaw t :=
      run_preserves RegionLaw (fun _ _ _ hl hs => regionLaw_step hl hs) (regionLaw_step hl hs') ht
    obtain ⟨later, hlater⟩ := accepted_prefix ht
    rw [hlt.finds_iff, ← hlater, hacc, List.append_assoc, List.find?_append]
    cases hfind : s.accepted.find? fun b => b.text.take 31 == c.text with
    | some b => exact ⟨b, rfl, hbefore b hfind⟩
    | none =>
      have hself : (c.text.take 31 == c.text) = true := by
        rw [List.take_of_length_le hshort]
        exact beq_self_eq_true _
      refine ⟨c, ?_, rfl, rfl⟩
      rw [Option.none_or, List.singleton_append]
      exact List.find?_cons_of_pos hself

/--
**When named regions are a map.** In a sequence of registrations every one that is accepted is found
under its name until the name is registered again, exactly if each of them has a name of at most 31
characters, and none before it has a name that is the same once cut, or the first that has is for
the same offset and size.
-/
theorem regions_map_iff (calls : List Registration) :
    Along regionStep KeepsMap {} calls ↔ Along regionStep NameUnused {} calls :=
  along_iff_of_invariant RegionLaw (fun _ _ _ hl _ hs => regionLaw_step hl hs)
    (fun _ c hl => keepsMap_iff hl c) rfl

/-- "config" for the first 4 KiB, and then for the next. -/
def configMoved : List Registration :=
  [⟨[99, 111, 110, 102, 105, 103], 0, 4096⟩, ⟨[99, 111, 110, 102, 105, 103], 4096, 4096⟩]

/-- **The region that is found is the first one.** -/
theorem region_stale : ¬Along regionStep KeepsMap {} configMoved := by
  intro h
  obtain ⟨r, hget, hoff, -⟩ := h.2 _ rfl |>.1 _ rfl rfl [] _ rfl (by simp) _ rfl
  have hfirst : r.offset = 0 := by
    have := congrArg (Option.map FlashRegion.offset) hget
    exact Option.some.inj (this.symm.trans (by decide))
  exact absurd (hfirst.symm.trans hoff) (by decide)

end TaktOS.Proof
