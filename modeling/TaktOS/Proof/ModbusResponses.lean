import TaktOS.Middleware.ModbusModule

/-!
# What is taken for a response

A response to a read of one register is seven bytes: the slave and the function again, the count 2,
the register and the CRC of those five. `readHoldingRegister` looks at none of them. It takes
bytes 3 and 4 for the register when there are five bytes, and returns true when there are none.
-/

namespace TaktOS.Proof

open ModbusModule

/-- The response of the slave with the register in the two bytes. -/
def responseFrame (slave hi lo : UInt8) : List UInt8 := withCrc [slave, 0x03, 0x02, hi, lo]

/-- The bytes are a response of the slave. -/
def WellFormed (slave : UInt8) (bytes : List UInt8) : Prop :=
  ∃ hi lo, bytes = responseFrame slave hi lo

/-- A register is sent with its high byte first. -/
def registerOf (hi lo : UInt8) : UInt16 := UInt16.ofNat (256 * hi.toNat + lo.toNat)

/-- What `Uart::read` puts into the response. -/
def responseBytes (received : Option (List UInt8)) : List UInt8 := (received.getD []).take 7

/-- The result and the value afterwards are those of a read that looks at the response. -/
structure Validated (slave : UInt8) (bytes : List UInt8) (before : UInt16) (ok : Bool)
    (after : UInt16) : Prop where
  accepted : ∀ hi lo, bytes = responseFrame slave hi lo → ok = true ∧ after = registerOf hi lo
  refused : ¬ WellFormed slave bytes → ok = false ∧ after = before

theorem register_eq (hi lo : UInt8) : hi.toUInt16 <<< 8 ||| lo.toUInt16 = registerOf hi lo := by
  apply UInt16.toNat_inj.mp
  have hhi := hi.toNat_lt
  have hlo := lo.toNat_lt
  have hshift : (hi.toUInt16 <<< 8).toNat = hi.toNat <<< 8 := by
    rw [UInt16.toNat_shiftLeft, UInt8.toNat_toUInt16, show (8 : UInt16).toNat % 16 = 8 from rfl]
    exact Nat.mod_eq_of_lt (by rw [Nat.shiftLeft_eq]; omega)
  rw [UInt16.toNat_or, hshift, UInt8.toNat_toUInt16, ← Nat.shiftLeft_add_eq_or_of_lt hlo,
    Nat.shiftLeft_eq, registerOf, UInt16.toNat_ofNat']
  omega

/-- Whatever was received, the read succeeds. -/
theorem readHoldingRegister_ok (m : ModbusModule) (written : Int) (received : Option (List UInt8))
    (slave : UInt8) (addr value : UInt16) :
    (m.readHoldingRegister written received slave addr value).1 = true := by
  rw [readHoldingRegister]
  cases m.mode <;> rfl

/-- The value is bytes 3 and 4 of what was received, if there are as many. -/
theorem readHoldingRegister_value {m : ModbusModule} (hmode : m.mode = .rtu) (written : Int)
    (received : Option (List UInt8)) (slave : UInt8) (addr value : UInt16) :
    (m.readHoldingRegister written received slave addr value).2.1 =
      if (responseBytes received).length ≥ 5
      then registerOf ((responseBytes received).getD 3 0) ((responseBytes received).getD 4 0)
      else value := by
  rw [readHoldingRegister, hmode]
  simp only [register_eq]
  rfl

/--
**Responses are validated** exactly when there is nothing to refuse: the bytes that the UART
returns are a well-formed response of the slave.
-/
theorem responses_validated_iff {m : ModbusModule} (hmode : m.mode = .rtu) (written : Int)
    (received : Option (List UInt8)) (slave : UInt8) (addr value : UInt16) :
    Validated slave (responseBytes received) value
        (m.readHoldingRegister written received slave addr value).1
        (m.readHoldingRegister written received slave addr value).2.1
      ↔ WellFormed slave (responseBytes received) := by
  constructor
  · intro h
    refine Classical.byContradiction fun hbad => ?_
    have hfalse := (h.refused hbad).1
    rw [readHoldingRegister_ok] at hfalse
    exact Bool.noConfusion hfalse
  · intro hwell
    refine ⟨fun hi lo hbytes => ⟨readHoldingRegister_ok .., ?_⟩, fun hbad => absurd hwell hbad⟩
    rw [readHoldingRegister_value hmode, hbytes]
    rfl

/-- Slave 1 answers with 0x0102. -/
theorem response_validated :
    Validated 1 (responseBytes (some (responseFrame 1 0x01 0x02))) 0
      (({} : ModbusModule).readHoldingRegister 8 (some (responseFrame 1 0x01 0x02)) 1 0 0).1
      (({} : ModbusModule).readHoldingRegister 8 (some (responseFrame 1 0x01 0x02)) 1 0 0).2.1 :=
  (responses_validated_iff rfl 8 _ 1 0 0).mpr ⟨0x01, 0x02, rfl⟩

/-- **An exception response is taken for a register**, which is then the CRC; no response at all is
a success too. -/
theorem exception_taken_for_register :
    (({} : ModbusModule).readHoldingRegister 8 (some (withCrc [1, 0x83, 0x02])) 1 0 0).1 = true
      ∧ (({} : ModbusModule).readHoldingRegister 8 (some (withCrc [1, 0x83, 0x02])) 1 0 0).2.1
        = 0xC0F1
      ∧ ¬ Validated 1 (responseBytes (some (withCrc [1, 0x83, 0x02]))) 0
        (({} : ModbusModule).readHoldingRegister 8 (some (withCrc [1, 0x83, 0x02])) 1 0 0).1
        (({} : ModbusModule).readHoldingRegister 8 (some (withCrc [1, 0x83, 0x02])) 1 0 0).2.1
      ∧ (({} : ModbusModule).readHoldingRegister 8 none 1 0 0).1 = true := by
  refine ⟨rfl, by decide +kernel, fun h => ?_, rfl⟩
  obtain ⟨hi, lo, hframe⟩ : WellFormed 1 (responseBytes (some (withCrc [1, 0x83, 0x02]))) :=
    Classical.byContradiction fun hbad => Bool.noConfusion (h.refused hbad).1
  exact absurd (congrArg List.length hframe) (by simp [responseBytes, responseFrame, withCrc])

end TaktOS.Proof
