import TaktOS.Lib.ShiftRegister
import TaktOS.Middleware.ModbusModule

/-!
# The residue of a Modbus frame

`crc16` is a shift register of 16 bits. A frame ends with the register itself, its low byte first:
the first of the two bytes takes the low half out and moves the high half down, the second takes
that out, so nothing is left. A damaged frame that left nothing too would be a burst of two bytes
that goes unnoticed.
-/

namespace TaktOS.Proof

open Lib ModbusModule

/-- The reflected polynomial of Modbus. -/
def modbusPoly : BitVec 16 := 0xA001#16

/-- A byte as the low end of the register. -/
def modbusSymbol (b : UInt8) : BitVec 16 := b.toUInt16.toBitVec

theorem modbusSymbol_lt (b : UInt8) : (modbusSymbol b).toNat < 2 ^ 8 := by
  have := b.toNat_lt
  have hb : (modbusSymbol b).toNat = b.toNat := UInt8.toNat_toUInt16 b
  omega

theorem modbusSymbol_injective : Function.Injective modbusSymbol := by
  intro a b h
  have hnat : a.toUInt16.toNat = b.toUInt16.toNat := congrArg BitVec.toNat h
  rw [UInt8.toNat_toUInt16, UInt8.toNat_toUInt16] at hnat
  exact UInt8.toNat_inj.mp hnat

theorem modbusSymbol_low (c : UInt16) : modbusSymbol c.toUInt8 = lowBits 8 c.toBitVec := rfl

/-! ## The CRC as a shift register -/

theorem and_one_eq_one (c : UInt16) : c &&& 1 = 1 ↔ c.toBitVec.getLsbD 0 = true := by
  have hand : (c &&& 1).toNat = c.toNat % 2 := (UInt16.toNat_and c 1).trans (Nat.and_one_is_mod _)
  have hbit : c.toBitVec.getLsbD 0 = decide (c.toNat % 2 = 1) := Nat.testBit_zero _
  rw [hbit, decide_eq_true_iff, ← UInt16.toNat_inj, hand]
  exact Iff.rfl

theorem crc16Bit_toBitVec (c : UInt16) :
    (crc16Bit c).toBitVec = lfsrStep modbusPoly c.toBitVec := by
  unfold crc16Bit lfsrStep
  by_cases h : c &&& 1 = 1
  · rw [if_pos h, if_pos ((and_one_eq_one c).mp h)]
    rfl
  · rw [if_neg h, if_neg (fun hc => h ((and_one_eq_one c).mpr hc)), BitVec.xor_zero]
    rfl

theorem repeat_crc16Bit (n : Nat) (c : UInt16) :
    (Nat.repeat crc16Bit n c).toBitVec = Nat.repeat (lfsrStep modbusPoly) n c.toBitVec :=
  repeat_bits crc16Bit_toBitVec n c

/-- The byte loop feeds the bytes through the register. -/
theorem crc16_toBitVec (data : List UInt8) :
    (crc16 data).toBitVec = feedAll modbusPoly 8 0xFFFF#16 (data.map modbusSymbol) :=
  foldl_bits (fun c b => repeat_crc16Bit 8 (c ^^^ b.toUInt16)) data 0xFFFF

/-! ## The residue -/

/-- **A frame with its CRC leaves the register empty.** -/
theorem crc16_withCrc (d : List UInt8) : crc16 (withCrc d) = 0 := by
  apply UInt16.toBitVec_inj.mp
  rw [crc16_toBitVec, withCrc, List.map_append, feedAll_append, ← crc16_toBitVec]
  generalize crc16 d = c
  rw [List.map_cons, List.map_cons, List.map_nil, modbusSymbol_low, modbusSymbol_low]
  -- the low byte of the register, and then the byte that was above it
  calc feed modbusPoly 8 (feed modbusPoly 8 c.toBitVec (lowBits 8 c.toBitVec))
        (lowBits 8 (c >>> 8).toBitVec)
      = feed modbusPoly 8 (c.toBitVec >>> 8) (lowBits 8 (c.toBitVec >>> 8)) := by
        rw [feed_lowBits]
        rfl
    _ = c.toBitVec >>> 8 >>> 8 := feed_lowBits _
    _ = 0#16 := by
      rw [← BitVec.shiftRight_add]
      exact BitVec.ushiftRight_eq_zero (Nat.le_refl 16)

/-- **Two bytes in a row do not change without the CRC.** -/
theorem crc16_burst {pre mid mid' post : List UInt8} (hlen : mid'.length = mid.length)
    (h2 : mid.length ≤ 2)
    (h : crc16 (pre ++ mid ++ post) = crc16 (pre ++ mid' ++ post)) : mid = mid' := by
  have hstate := congrArg UInt16.toBitVec h
  rw [crc16_toBitVec, crc16_toBitVec] at hstate
  exact feedAll_burst_map (show modbusPoly.msb = true by decide) modbusSymbol_injective
    modbusSymbol_lt hlen (by omega) hstate

/-! ## The theorem -/

/-- Bytes in a row, two at most, are others. -/
def DamagedPair (frame damaged : List UInt8) : Prop :=
  ∃ pre mid mid' post, frame = pre ++ mid ++ post ∧ damaged = pre ++ mid' ++ post
    ∧ mid'.length = mid.length ∧ mid.length ≤ 2 ∧ mid' ≠ mid

/--
**The residue check of a receiver** passes on whatever is sent with its CRC, among it every
request for a register, and fails when two bytes in a row are damaged.
-/
theorem residue_check (d : List UInt8) :
    crc16 (withCrc d) = 0 ∧ (∀ damaged, DamagedPair (withCrc d) damaged → crc16 damaged ≠ 0)
      ∧ ∀ slave addr, (readFrame slave addr).length = 8 ∧ crc16 (readFrame slave addr) = 0 := by
  refine ⟨crc16_withCrc d, ?_, fun slave addr => ⟨rfl, crc16_withCrc _⟩⟩
  rintro damaged ⟨pre, mid, mid', post, hframe, rfl, hlen, h2, hne⟩ hzero
  have hsame : crc16 (pre ++ mid ++ post) = crc16 (pre ++ mid' ++ post) := by
    rw [← hframe, crc16_withCrc, hzero]
  exact hne (crc16_burst hlen h2 hsame).symm

/-- The request for register 0 of slave 1. -/
example : readFrame 1 0 = [0x01, 0x03, 0x00, 0x00, 0x00, 0x01, 0x84, 0x0A] := by decide +kernel

end TaktOS.Proof
