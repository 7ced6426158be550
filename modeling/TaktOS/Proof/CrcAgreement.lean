import TaktOS.Proof.RecordDamage

/-!
# The two CRC-32s are one

Both are the same shift register. The boot record's shifts it bit by bit; the shared one looks eight
shifts of the low byte up in a table and moves the rest down. The table is built by whichever call
comes first, so what is proved of a call holds after any calls.
-/

namespace TaktOS.Proof

open Lib Crc32
open Bootloader (crc32Bit crc32Config)

/-! ## A byte at a time -/

theorem tableStep_eq (c : UInt32) : tableStep c = crc32Bit c := by
  have hand : (c &&& 1).toNat = c.toNat % 2 := (UInt32.toNat_and c 1).trans (Nat.and_one_is_mod _)
  unfold tableStep crc32Bit
  by_cases h : c &&& 1 = 1
  · rw [if_pos h, if_pos (by rw [h]; decide)]
  · have hzero : c &&& 1 = 0 := by
      rw [← UInt32.toNat_inj, hand] at h ⊢
      have h : ¬ c.toNat % 2 = 1 := h
      exact Nat.mod_two_ne_one.mp h
    rw [if_neg h, if_neg (by rw [hzero]; decide)]
    exact (UInt32.xor_zero).symm

/-- An entry of the table is eight shifts. -/
theorem table_toBitVec (i : UInt32) :
    (table i).toBitVec = Nat.repeat (lfsrStep crcPoly) 8 i.toBitVec := by
  rw [← repeat_crc32Bit]
  simp only [table, tableStep_eq]
  rfl

theorem and_255_toBitVec (x : UInt32) : (x &&& 0xFF).toBitVec = lowBits 8 x.toBitVec := by
  apply BitVec.eq_of_toNat_eq
  have hmask : (x &&& 0xFF).toNat = x.toNat % 256 :=
    (UInt32.toNat_and x 0xFF).trans (Nat.and_two_pow_sub_one_eq_mod x.toNat 8)
  rw [show (x &&& 0xFF).toBitVec.toNat = _ from hmask, lowBits, BitVec.toNat_setWidth,
    BitVec.toNat_setWidth]
  exact (Nat.mod_eq_of_lt (Nat.lt_trans (Nat.mod_lt _ (by decide)) (by decide))).symm

/-- **The table's byte step is eight shifts** of the register with the byte laid over it. -/
theorem updateByte_toBitVec (crc : UInt32) (b : UInt8) :
    (updateByte crc b).toBitVec = feed crcPoly 8 crc.toBitVec (crcSymbol b) := by
  have hbyte : crcSymbol b >>> 8 = 0#32 := by
    apply BitVec.eq_of_toNat_eq
    rw [BitVec.toNat_ushiftRight, Nat.shiftRight_eq_div_pow]
    exact Nat.div_eq_of_lt (crcSymbol_lt b)
  have hhigh : (crc >>> 8).toBitVec = (crc.toBitVec ^^^ crcSymbol b) >>> 8 := by
    rw [BitVec.ushiftRight_xor_distrib, hbyte, BitVec.xor_zero]
    rfl
  rw [feed, repeat_lowBits, updateByte, UInt32.toBitVec_xor, table_toBitVec, and_255_toBitVec,
    hhigh]
  rfl

theorem update_toBitVec (data : List UInt8) : ∀ crc : UInt32,
    (update crc data).toBitVec = feedAll crcPoly 8 crc.toBitVec (data.map crcSymbol) := by
  induction data with
  | nil => exact fun _ => rfl
  | cons b bs ih =>
    intro crc
    rw [update, List.foldl_cons, ← update, ih, updateByte_toBitVec]
    rfl

/-- **The two implementations give one CRC.** -/
theorem compute_eq_crc32Config (data : List UInt8) : compute data = crc32Config data := by
  have hloop : update initial data
      = data.foldl (fun crc b => Nat.repeat crc32Bit 8 (crc ^^^ b.toUInt32)) 0xFFFFFFFF := by
    apply UInt32.toBitVec_inj.mp
    rw [update_toBitVec, crcLoop_toBitVec]
    rfl
  rw [compute, finalize, hloop, crc32Config]

/-! ## The table -/

/-- A table that was built has the entries. -/
def Built (t : LazyTable) : Prop :=
  t.tableInit = true → ∀ i : Fin 256, t.entries i = table (UInt32.ofNat i.val)

/-- The loop of `initTable`, over any of the indices, fills their entries. -/
theorem fill_entries (is : List (Fin 256)) (j : Fin 256) : ∀ entries : Fin 256 → UInt32,
    j ∈ is ∨ entries j = table (UInt32.ofNat j.val) →
    is.foldl (fun entries i j => if j = i then table (UInt32.ofNat i.val) else entries j) entries j
      = table (UInt32.ofNat j.val) := by
  induction is with
  | nil => exact fun _ h => h.resolve_left (by simp)
  | cons i is ih =>
    intro entries h
    rw [List.foldl_cons]
    refine ih _ ?_
    by_cases hji : j = i
    · exact .inr (by rw [if_pos hji, hji])
    · rw [if_neg hji]
      exact h.imp_left fun hmem => (List.mem_cons.mp hmem).resolve_left hji

theorem initTable_built {t : LazyTable} (h : Built t) :
    t.initTable.tableInit = true ∧ Built t.initTable := by
  rw [LazyTable.initTable]
  split
  · rename_i hinit
    exact ⟨hinit, h⟩
  · refine ⟨rfl, fun _ i => ?_⟩
    dsimp only
    rw [fill_entries _ _ _ (.inl (List.mem_finRange i))]

/-- **Whichever call builds the table**, an update is the one without it. -/
theorem lazy_update_eq {t : LazyTable} (h : Built t) (crc : UInt32) (data : List UInt8) :
    (t.update crc data).1 = update crc data ∧ Built (t.update crc data).2 := by
  obtain ⟨hinit, hbuilt⟩ := initTable_built h
  refine ⟨?_, hbuilt⟩
  have hbyte : (fun crc b => t.initTable.entries (LazyTable.index crc b) ^^^ (crc >>> 8))
      = updateByte := by
    funext crc b
    rw [hbuilt hinit, LazyTable.index, UInt32.ofNat_toNat, updateByte]
  rw [LazyTable.update, hbyte, update]

/-- The table after calls of `update`, of which `compute` is one. -/
def tableAfter (calls : List (UInt32 × List UInt8)) : LazyTable :=
  calls.foldl (fun t call => (t.update call.1 call.2).2) {}

theorem tableAfter_built (calls : List (UInt32 × List UInt8)) : Built (tableAfter calls) := by
  have hall : ∀ t : LazyTable, Built t →
      Built (calls.foldl (fun t call => (t.update call.1 call.2).2) t) := by
    induction calls with
    | nil => exact fun _ h => h
    | cons call calls ih => exact fun t h => ih _ (lazy_update_eq h call.1 call.2).2
  exact hall {} (fun h => absurd h (by decide))

/-! ## The theorem -/

/-- `update` over the pieces of a string, one call a piece. -/
def updatePieces (t : LazyTable) (crc : UInt32) (pieces : List (List UInt8)) :
    UInt32 × LazyTable :=
  pieces.foldl (fun (crc, t) piece => t.update crc piece) (crc, t)

theorem updatePieces_eq (pieces : List (List UInt8)) : ∀ {t : LazyTable} (crc : UInt32),
    Built t → (updatePieces t crc pieces).1 = update crc pieces.flatten := by
  induction pieces with
  | nil => exact fun _ _ => rfl
  | cons piece pieces ih =>
    intro t crc h
    obtain ⟨hcrc, hbuilt⟩ := lazy_update_eq h crc piece
    rw [List.flatten_cons, update_append, ← hcrc]
    exact ih _ hbuilt

/--
**The CRC-32s agree and compose**: after any calls, the table-driven `compute` is the bitwise
`crc32Config`, and a string taken in any pieces has the CRC of the whole.
-/
theorem crcs_agree (calls : List (UInt32 × List UInt8)) :
    (∀ data, ((tableAfter calls).compute data).1 = crc32Config data)
      ∧ ∀ pieces, finalize (updatePieces (tableAfter calls) initial pieces).1
        = ((tableAfter calls).compute pieces.flatten).1 := by
  have hbuilt := tableAfter_built calls
  have hcompute : ∀ data, ((tableAfter calls).compute data).1 = compute data := by
    intro data
    rw [LazyTable.compute, compute, ← (lazy_update_eq hbuilt initial data).1]
  refine ⟨fun data => ?_, fun pieces => ?_⟩
  · rw [hcompute, compute_eq_crc32Config]
  · rw [hcompute, updatePieces_eq pieces initial hbuilt, compute]

end TaktOS.Proof
