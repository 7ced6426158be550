import TaktOS.Lib.ShiftRegister
import TaktOS.Proof.BootRecord

/-!
# Damage to the boot record

The CRC of the boot record is a shift register of 32 bits with a polynomial that has its top bit,
so no change of up to four bytes in a row goes unnoticed. The record is loaded from its 12 bytes,
whatever they are.
-/

namespace TaktOS.Proof

open Lib Bootloader

/-! ## The CRC as a shift register -/

/-- The reflected IEEE polynomial. -/
def crcPoly : BitVec 32 := 0xEDB88320#32

/-- A byte as the low end of the register. -/
def crcSymbol (b : UInt8) : BitVec 32 := b.toUInt32.toBitVec

theorem crcSymbol_lt (b : UInt8) : (crcSymbol b).toNat < 2 ^ 8 := by
  have := b.toNat_lt
  have hb : (crcSymbol b).toNat = b.toNat := UInt8.toNat_toUInt32 b
  omega

theorem crcSymbol_injective : Function.Injective crcSymbol := by
  intro a b h
  have hnat : b.toUInt32.toNat = a.toUInt32.toNat := congrArg BitVec.toNat h.symm
  rw [UInt8.toNat_toUInt32, UInt8.toNat_toUInt32] at hnat
  exact UInt8.toNat_inj.mp hnat.symm

theorem and_one_ne_zero (c : UInt32) : (c &&& 1 ≠ 0) ↔ c.toBitVec.getLsbD 0 = true := by
  have hand : (c &&& 1).toNat = c.toNat % 2 := (UInt32.toNat_and c 1).trans (Nat.and_one_is_mod _)
  have hbit : c.toBitVec.getLsbD 0 = decide (c.toNat % 2 = 1) := Nat.testBit_zero _
  have hzero : c &&& 1 = 0 ↔ c.toNat % 2 = 0 := by
    rw [← UInt32.toNat_inj, hand]
    rfl
  rw [hbit, decide_eq_true_iff, ne_eq, hzero]
  omega

theorem crc32Bit_toBitVec (c : UInt32) :
    (crc32Bit c).toBitVec = lfsrStep crcPoly c.toBitVec := by
  unfold crc32Bit lfsrStep
  by_cases h : c &&& 1 ≠ 0
  · rw [if_pos h, if_pos ((and_one_ne_zero c).mp h)]
    rfl
  · rw [if_neg h, if_neg (fun hc => h ((and_one_ne_zero c).mpr hc))]
    rfl

theorem repeat_crc32Bit (n : Nat) (c : UInt32) :
    (Nat.repeat crc32Bit n c).toBitVec = Nat.repeat (lfsrStep crcPoly) n c.toBitVec :=
  repeat_bits crc32Bit_toBitVec n c

/-- The byte loop feeds the bytes through the register. -/
theorem crcLoop_toBitVec (data : List UInt8) (crc : UInt32) :
    (data.foldl (fun crc b => Nat.repeat crc32Bit 8 (crc ^^^ b.toUInt32)) crc).toBitVec
      = feedAll crcPoly 8 crc.toBitVec (data.map crcSymbol) :=
  foldl_bits (fun c b => repeat_crc32Bit 8 (c ^^^ b.toUInt32)) data crc

/-- **Up to four bytes in a row do not change without the CRC.** -/
theorem crc32Config_burst {pre mid mid' post : List UInt8} (hlen : mid'.length = mid.length)
    (h4 : mid.length ≤ 4)
    (h : crc32Config (pre ++ mid ++ post) = crc32Config (pre ++ mid' ++ post)) : mid = mid' := by
  have hstate := congrArg UInt32.toBitVec ((UInt32.xor_left_inj 0xFFFFFFFF).mp h)
  rw [crcLoop_toBitVec, crcLoop_toBitVec] at hstate
  exact feedAll_burst_map (show crcPoly.msb = true by decide) crcSymbol_injective crcSymbol_lt hlen
    (by omega) hstate

/-! ## The 12 bytes of the record -/

/-- The record that 12 bytes make has these bytes, the CRC field its last four. -/
theorem ofBytes_twelve {bs : List UInt8} (h : bs.length = 12) :
    { BootConfig.ofBytes bs with crc32 := 0 }.toBytes = bs.take 8 ++ [0, 0, 0, 0]
      ∧ leBytes (BootConfig.ofBytes bs).crc32 = bs.drop 8 := by
  match bs, h with
  | [b0, b1, b2, b3, b4, b5, b6, b7, b8, b9, b10, b11], _ =>
    exact ⟨congrArg (fun m => m ++ [b4, b5, b6, b7] ++ leBytes 0) (leBytes_leWord b0 b1 b2 b3),
      leBytes_leWord b8 b9 b10 b11⟩

/-- A record is intact only if its last four bytes are the CRC of the others. -/
theorem crc_of_intact {bs : List UInt8} (hlen : bs.length = 12)
    (h : (loadBootConfig (BootConfig.ofBytes bs)).1 = true) :
    leBytes (crc32Config (bs.take 8 ++ [0, 0, 0, 0])) = bs.drop 8 := by
  obtain ⟨hfields, hcrc⟩ := ofBytes_twelve hlen
  unfold loadBootConfig at h
  split at h
  · exact absurd h (by simp)
  · rw [← hfields, ← hcrc, of_decide_eq_true h]

/-- Bytes in a row, at most four and none of the CRC field, are changed. -/
def DamagedFields (record damaged : List UInt8) : Prop :=
  ∃ pre mid mid' post, record = pre ++ mid ++ post ∧ damaged = pre ++ mid' ++ post
    ∧ mid'.length = mid.length ∧ mid.length ≤ 4 ∧ pre.length + mid.length ≤ 8

/-- The CRC field is changed, and nothing else. -/
def DamagedCrc (record damaged : List UInt8) : Prop :=
  ∃ pre field field', record = pre ++ field ∧ damaged = pre ++ field' ∧ pre.length = 8
    ∧ field'.length = field.length

/-- What is changed in the fields shows in the CRC. -/
theorem damagedFields_eq {record damaged : List UInt8} (hlen : record.length = 12)
    (hd : DamagedFields record damaged)
    (hr : (loadBootConfig (BootConfig.ofBytes record)).1 = true)
    (h : (loadBootConfig (BootConfig.ofBytes damaged)).1 = true) : damaged = record := by
  obtain ⟨pre, mid, mid', post, rfl, rfl, hmid, h4, hpos⟩ := hd
  have htake : ∀ xs : List UInt8, xs.length = mid.length →
      (pre ++ xs ++ post).take 8 = pre ++ xs ++ post.take (8 - (pre.length + mid.length)) := by
    intro xs hxs
    rw [List.take_append, List.length_append, hxs]
    rw [List.take_of_length_le (by rw [List.length_append, hxs]; exact hpos)]
  have hdrop : ∀ xs : List UInt8, xs.length = mid.length →
      (pre ++ xs ++ post).drop 8 = post.drop (8 - (pre.length + mid.length)) := by
    intro xs hxs
    rw [List.drop_append, List.length_append, hxs,
      List.drop_of_length_le (by rw [List.length_append, hxs]; exact hpos), List.nil_append]
  have hlen' : (pre ++ mid' ++ post).length = 12 := by
    rw [← hlen]
    simp only [List.length_append, hmid]
  have hcrc := crc_of_intact hlen hr
  have hcrc' := crc_of_intact hlen' h
  rw [htake mid rfl, hdrop mid rfl, List.append_assoc] at hcrc
  rw [htake mid' hmid, hdrop mid' hmid, List.append_assoc] at hcrc'
  rw [crc32Config_burst hmid h4 (leBytes_inj (hcrc.trans hcrc'.symm))]

/-- What is changed in the CRC field shows against the rest. -/
theorem damagedCrc_eq {record damaged : List UInt8} (hlen : record.length = 12)
    (hd : DamagedCrc record damaged)
    (hr : (loadBootConfig (BootConfig.ofBytes record)).1 = true)
    (h : (loadBootConfig (BootConfig.ofBytes damaged)).1 = true) : damaged = record := by
  obtain ⟨pre, field, field', rfl, rfl, hpre, hfield⟩ := hd
  have hlen' : (pre ++ field').length = 12 := by
    rw [← hlen, List.length_append, List.length_append, hfield]
  have hcrc := crc_of_intact hlen hr
  have hcrc' := crc_of_intact hlen' h
  rw [← hpre, List.take_left, List.drop_left] at hcrc hcrc'
  rw [← hcrc, ← hcrc']

/-! ## The theorem -/

/--
**The boot record comes back, and damage to it is noticed.** Every record with the right magic is
loaded as it was saved; with up to four bytes in a row of its fields changed, or any of its CRC
field, it is not taken for intact.
-/
theorem boot_record_guarded {config : BootConfig} (h : config.magic = kBootConfigMagic) :
    loadBootConfig (BootConfig.ofBytes (saveBootConfig config).toBytes)
        = (true, { config with crc32 := 0 })
      ∧ ∀ damaged, damaged ≠ (saveBootConfig config).toBytes →
        DamagedFields (saveBootConfig config).toBytes damaged
          ∨ DamagedCrc (saveBootConfig config).toBytes damaged →
        (loadBootConfig (BootConfig.ofBytes damaged)).1 = false := by
  have hload : loadBootConfig (BootConfig.ofBytes (saveBootConfig config).toBytes)
      = (true, { config with crc32 := 0 }) := by
    rw [BootConfig.ofBytes_toBytes]
    exact load_save h
  refine ⟨hload, fun damaged hne hd => Bool.eq_false_iff.mpr fun hok => hne ?_⟩
  have hintact : (loadBootConfig (BootConfig.ofBytes (saveBootConfig config).toBytes)).1
      = true := by
    rw [hload]
  rcases hd with hd | hd
  · exact damagedFields_eq (BootConfig.length_toBytes _) hd hintact hok
  · exact damagedCrc_eq (BootConfig.length_toBytes _) hd hintact hok

/-- A default record, and one with its counter and its slot byte flipped. -/
theorem boot_record_guarded_default :
    (loadBootConfig (BootConfig.ofBytes
        (saveBootConfig { magic := kBootConfigMagic, bootCount := 3 }).toBytes)).1 = true
      ∧ (loadBootConfig (BootConfig.ofBytes
        (([0xDE, 0xC0, 0x07, 0xB0, 0] ++ [0, 1] ++ [0]) ++
          (saveBootConfig { magic := kBootConfigMagic, bootCount := 3 }).toBytes.drop 8))).1
        = false := by
  have hmagic : ({ magic := kBootConfigMagic, bootCount := 3 } : BootConfig).magic
      = kBootConfigMagic := rfl
  obtain ⟨hload, hdamage⟩ := boot_record_guarded hmagic
  refine ⟨by rw [hload], hdamage _ (by decide) (Or.inl ?_)⟩
  exact ⟨[0xDE, 0xC0, 0x07, 0xB0, 0], [3, 0], [0, 1],
    0 :: (saveBootConfig { magic := kBootConfigMagic, bootCount := 3 }).toBytes.drop 8,
    by decide +kernel, by simp, rfl, by decide, by decide⟩

end TaktOS.Proof
