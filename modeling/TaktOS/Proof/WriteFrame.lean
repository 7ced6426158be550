import TaktOS.Proof.EraseLoop

/-!
# What a write leaves of its neighbours

The erase before the write takes whole sectors, so a write keeps the bytes next to its range only
where they are blank already. Without a range there is no last sector, and the loop runs off the
end of the flash.
-/

namespace TaktOS.Proof

open Lib

variable {δ : Type} {b : FlashBackend δ}

/-- The write succeeds, its range holds the buffer, and the rest of the flash is as it was. -/
structure ChangesOnlyRange (content : δ → Nat → UInt8) (total : Nat) (sm : StorageManager δ)
    (offset : UInt32) (buf : List UInt8) (d : δ) : Prop where
  returns : sm.write offset buf = some (castInt buf.length, { sm with device := d })
  inside : offset.toNat + buf.length ≤ total
  stored : slice (content d) offset.toNat buf.length = buf
  frame : ∀ a, a < total → a < offset.toNat ∨ offset.toNat + buf.length ≤ a →
    content d a = content sm.device a

/-- The bytes outside the range that share a sector with it. -/
def Neighbour (S off len a : Nat) : Prop :=
  blockFloor S off ≤ a ∧ a < off ∨ off + len ≤ a ∧ a < blockCeil S (off + len)

/-- A neighbour is blank afterwards. -/
theorem program_neighbour {α : Type} {S off a : Nat} {v : α} {m : Nat → α} {xs : List α}
    (hS : 0 < S) (h : Neighbour S off xs.length a) : program S v m off xs a = v := by
  rcases h with ⟨hfloor, hlt⟩ | ⟨hge, hceil⟩
  · exact program_below hlt hfloor hS
  · exact program_above hge hceil

/-- Where neither the range nor a neighbour is, nothing changes. -/
theorem program_far {α : Type} {S off a : Nat} {v : α} {m : Nat → α} {xs : List α} (hS : 0 < S)
    (hout : a < off ∨ off + xs.length ≤ a) (h : ¬ Neighbour S off xs.length a) :
    program S v m off xs a = m a := by
  unfold Neighbour at h
  exact program_outside (by omega) hS

/-- No write of nothing at the start of the flash succeeds. -/
theorem empty_write_at_zero (hbd : b.Bounded) {sm : StorageManager δ} (hb : sm.backend = some b)
    (hS : 0 < b.sectorSize.toNat) {offset : UInt32} {buf : List UInt8}
    (h0 : offset.toNat + buf.length = 0) {r : Int} {sm' : StorageManager δ}
    (h : sm.write offset buf = some (r, sm')) : r = -1 := by
  have hsize : sm.target.size (offset.toNat + buf.length) = 0 := by
    rw [h0]
    exact Nat.zero_mod _
  have hlast := endSector_of_zero_ge sm.target hS offset buf.length hsize
  have htot := b.totalSize.toNat_lt
  have hfirst : (offset / b.sectorSize).toNat = 0 := by
    rw [UInt32.toNat_div, show offset.toNat = 0 by omega, Nat.zero_div]
  rw [write_loop sm hb hS (by rw [hsize]; exact Nat.zero_le _)] at h
  obtain ⟨ok, d, hloop, ⟨_, hr, _⟩ | ⟨rfl, _, _⟩⟩ := afterErase_cases h
  · exact hr
  · have hin := eraseLoop_inside hbd hS _ (by rw [hfirst]; exact Nat.zero_le _)
      (by rw [hfirst, Nat.zero_mul]; decide) hloop
    omega

/--
**When a write changes only its range.** Over a backend whose operations succeed, a write the
bounds check lets through puts its bytes where it was told to and keeps the rest of the flash
exactly when the flash has a sector size, the range is not the empty one at 0, it ends in the
flash, and every neighbour of it is blank.
-/
theorem write_changes_range_iff {content : δ → Nat → UInt8} (hr : b.Reliable content)
    {sm : StorageManager δ} (hb : sm.backend = some b) (offset : UInt32) (buf : List UInt8)
    (hbd : offset.toNat + buf.length = 0 → b.Bounded)
    (hcheck : sm.target.size (offset.toNat + buf.length) ≤ b.totalSize.toNat) :
    (∃ d, ChangesOnlyRange content b.totalSize.toNat sm offset buf d)
      ↔ 0 < b.sectorSize.toNat ∧ 0 < offset.toNat + buf.length
        ∧ offset.toNat + buf.length ≤ b.totalSize.toNat
        ∧ ∀ a, a < b.totalSize.toNat →
          Neighbour b.sectorSize.toNat offset.toNat buf.length a →
          content sm.device a = erased := by
  constructor
  · rintro ⟨d, hd⟩
    have hS := sector_pos_of_write hb hcheck hd.returns
    have h0 : 0 < offset.toNat + buf.length := by
      refine Nat.pos_of_ne_zero fun h0 => ?_
      have hcode := empty_write_at_zero (hbd h0) hb hS h0 hd.returns
      rw [castInt_of_lt (by omega)] at hcode
      omega
    refine ⟨hS, h0, hd.inside, fun a ha hnb => ?_⟩
    obtain ⟨d', hw, hcont⟩ := write_reliable sm hb hr hS offset buf h0 hd.inside
    obtain rfl : d = d' :=
      congrArg (fun w => w.2.device) (Option.some.inj (hd.returns.symm.trans hw))
    have hout : a < offset.toNat ∨ offset.toNat + buf.length ≤ a := by
      rcases hnb with ⟨_, hlt⟩ | ⟨hge, _⟩
      · exact Or.inl hlt
      · exact Or.inr hge
    rw [← hd.frame a ha hout, hcont]
    exact program_neighbour hS hnb
  · rintro ⟨hS, h0, hin, hblank⟩
    obtain ⟨d, hw, hcont⟩ := write_reliable sm hb hr hS offset buf h0 hin
    refine ⟨d, hw, hin, ?_, fun a ha hout => ?_⟩
    · rw [hcont]
      exact slice_program
    · rw [hcont]
      by_cases hnb : Neighbour b.sectorSize.toNat offset.toNat buf.length a
      · exact (program_neighbour hS hnb).trans (hblank a ha hnb).symm
      · exact program_far hS hout hnb

/-- A byte in the middle of a blank sector. -/
theorem write_changes_one_byte :
    ∃ d, ChangesOnlyRange id 0x10000 testStorage 0x1800 [1] d :=
  (write_changes_range_iff testFlash_reliable (show testStorage.backend = _ from rfl) 0x1800 [1]
    (fun _ => memBackend_bounded _ _) (by decide)).mpr
    ⟨by decide, by decide, by decide, fun _ _ _ => rfl⟩

/-- **A byte in the middle of a sector that is in use**, and its neighbour is gone. -/
theorem write_blanks_neighbour :
    (∃ d, ({ testStorage with device := fun _ => 7 } : StorageManager (Nat → UInt8)).write
        0x1800 [1] = some (1, { testStorage with device := d })
          ∧ d 0x1800 = 1 ∧ d 0x1801 = 0xFF)
      ∧ ¬ ∃ d, ChangesOnlyRange id 0x10000 { testStorage with device := fun _ => 7 } 0x1800 [1]
        d := by
  obtain ⟨d, hw, hcont⟩ := write_reliable { testStorage with device := fun _ => 7 } rfl
    testFlash_reliable (by decide) 0x1800 [1] (by decide) (by decide)
  have hgone : d 0x1801 = 0xFF := by
    rw [show d = _ from hcont]
    exact program_neighbour (by decide) (Or.inr ⟨by decide, by decide⟩)
  refine ⟨⟨d, hw, ?_, hgone⟩, ?_⟩
  · rw [show d = _ from hcont]
    exact program_data (i := 0) (by decide)
  · rintro ⟨d', hd'⟩
    have hsame : d' = d :=
      congrArg (fun w => w.2.device) (Option.some.inj (hd'.returns.symm.trans hw))
    have hkept := hd'.frame 0x1801 (by decide) (by decide)
    rw [hsame] at hkept
    exact absurd (hgone.symm.trans hkept) (by decide)

end TaktOS.Proof
