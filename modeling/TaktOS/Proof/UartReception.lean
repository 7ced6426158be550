import TaktOS.Lib.Run
import TaktOS.Middleware.UartModule

/-!
# What the UART module receives

`tick` takes the result of `Uart::read` for a count and the number it was built with for a length.
The result is -1 for a port that is not installed, which `init` only warns of, and as a `size_t`
that is 2 ^ 32 - 1 bytes. The length is not compared with the buffer. Without these two the count is
that of the bytes put into the buffer.
-/

namespace TaktOS.Proof

open TaktOS Lib

variable {ω : Type} {esp : EspUart ω}

/-! ## A tick -/

/-- How many bytes were asked for. -/
def requests (notices : List UartNotice) : List UInt32 :=
  notices.filterMap fun
    | .read len _ => some len
    | .received _ => none

/-- The bytes put into the buffer. -/
def storedBytes (notices : List UartNotice) : List UInt8 :=
  notices.flatMap fun
    | .read _ stored => stored
    | .received _ => []

/-- The counts of the events. -/
def receivedCounts (notices : List UartNotice) : List Nat :=
  notices.filterMap fun
    | .read _ _ => none
    | .received count => some count.toNat

/-- **Reception is bounded and truthful**: what is available is what was put into the buffer, no
byte behind the buffer was asked for, and bytes were announced if there were any, with their
number. -/
structure Truthful (m : UartModule) (notices : List UartNotice) : Prop where
  count : m.bytesAvailable.toNat = (storedBytes notices).length
  bound : m.bytesAvailable.toNat ≤ kRxBufSize
  requested : ∀ len ∈ requests notices, len.toNat ≤ kRxBufSize
  announced : receivedCounts notices =
    if (storedBytes notices).length = 0 then [] else [(storedBytes notices).length]

/-- Up to 256 bytes are asked for, of a port whose driver is installed and reports no error. -/
structure CanReceive (esp : EspUart ω) (m : UartModule) (u : Uart ω) : Prop where
  fits : m.bytesPerTick.toNat ≤ kRxBufSize
  installed : u.isInstalled m.port = true
  succeeds : 0 ≤ (esp.readBytes u.chip m.port m.bytesPerTick).1

theorem read_installed {u : Uart ω} {port : Int} {len : UInt32} (hport : u.isInstalled port = true)
    (hok : 0 ≤ (esp.readBytes u.chip port len).1) :
    (u.read esp port len).1 = (esp.readBytes u.chip port len).1 ∧
      (u.read esp port len).2.1 = (esp.readBytes u.chip port len).2.1 := by
  rw [Uart.read, if_neg (by simp [hport])]
  exact ⟨if_neg (Int.not_lt.mpr hok), rfl⟩

/-- Everything else is the one error code. -/
theorem read_error {u : Uart ω} {port : Int} {len : UInt32}
    (h : u.isInstalled port = true → (esp.readBytes u.chip port len).1 < 0) :
    (u.read esp port len).1 = -1 := by
  rw [Uart.read]
  split
  · rfl
  · rename_i hport
    exact if_pos (h (by simpa using hport))

/-- **An error is 2 ^ 32 - 1 bytes.** -/
theorem not_truthful_of_error {m : UartModule} {u : Uart ω}
    (h : (u.read esp m.port m.bytesPerTick).1 = -1) :
    ¬Truthful (m.tick esp u).1 (m.tick esp u).2.2 := by
  intro ht
  have hcount : (m.tick esp u).1.bytesAvailable =
      UInt32.ofInt (u.read esp m.port m.bytesPerTick).1 := rfl
  have hbound := ht.bound
  rw [hcount, h] at hbound
  exact absurd hbound (by decide)

theorem toNat_ofInt_natCast {n : Nat} (h : n < 4294967296) : (UInt32.ofInt n).toNat = n := by
  rw [UInt32.ofInt, UInt32.toNat_ofNat']
  omega

theorem tick_truthful_iff (hd : esp.Documented) (m : UartModule) (u : Uart ω) :
    Truthful (m.tick esp u).1 (m.tick esp u).2.2 ↔ CanReceive esp m u := by
  constructor
  · intro h
    have hok : ∀ hbad : u.isInstalled m.port = true →
        (esp.readBytes u.chip m.port m.bytesPerTick).1 < 0, False := fun hbad =>
      not_truthful_of_error (read_error hbad) h
    refine ⟨h.requested _ List.mem_cons_self, ?_, ?_⟩
    · exact Classical.byContradiction fun hport => hok fun hin => absurd hin hport
    · exact Int.not_lt.mp fun hneg => hok fun _ => hneg
  · rintro ⟨hfits, hport, hok⟩
    obtain ⟨hn, hbytes⟩ := read_installed hport hok
    have hcount := hd.count _ _ _ hok
    have hle : (u.read esp m.port m.bytesPerTick).2.1.length ≤ kRxBufSize := by
      rw [hbytes]
      exact Nat.le_trans (hd.bound _ _ _ hok) hfits
    rw [← hn, ← hbytes] at hcount
    have hlt : (u.read esp m.port m.bytesPerTick).2.1.length < 4294967296 :=
      Nat.lt_of_le_of_lt hle (by decide)
    -- the count and the notices, with the length of the bytes for the result
    have havail : (m.tick esp u).1.bytesAvailable.toNat =
        (u.read esp m.port m.bytesPerTick).2.1.length := by
      show (UInt32.ofInt (u.read esp m.port m.bytesPerTick).1).toNat = _
      rw [hcount, toNat_ofInt_natCast hlt]
    have hnotices : (m.tick esp u).2.2 =
        .read m.bytesPerTick (u.read esp m.port m.bytesPerTick).2.1 ::
          if (m.tick esp u).1.bytesAvailable > 0 then
            [.received (m.tick esp u).1.bytesAvailable] else [] := rfl
    generalize (u.read esp m.port m.bytesPerTick).2.1 = bytes at *
    have hstored : storedBytes (m.tick esp u).2.2 = bytes := by
      rw [hnotices]
      split <;> simp [storedBytes]
    refine ⟨?_, ?_, fun len hlen => ?_, ?_⟩
    · rw [havail, hstored]
    · rw [havail]
      exact hle
    · rw [hnotices] at hlen
      have hreq : len = m.bytesPerTick := by
        revert hlen
        split <;> simp [requests]
      exact hreq ▸ hfits
    · rw [hstored, hnotices]
      split
      · rename_i hpos
        have hne : bytes.length ≠ 0 := by
          rw [← havail]
          exact Nat.ne_of_gt (UInt32.lt_iff_toNat_lt.mp hpos)
        simp [receivedCounts, havail, hne]
      · rename_i hzero
        have hnil : bytes.length = 0 := by
          rw [← havail]
          exact Nat.eq_zero_of_not_pos fun hp => hzero (UInt32.lt_iff_toNat_lt.mpr hp)
        simp [receivedCounts, hnil]

/-! ## Runs -/

/-- The module and the ports. -/
structure UartSys (ω : Type) where
  module : UartModule
  uart : Uart ω

inductive UartAct (ω : Type) where
  | init
  | tick
  /-- Something else happens to the ports. -/
  | other (uart : Uart ω)

def uartStep (esp : EspUart ω) (s : UartSys ω) : UartAct ω → Option (UartSys ω)
  | .init => some { s with uart := (s.module.init esp s.uart).2 }
  | .tick =>
    let (module, uart, _) := s.module.tick esp s.uart
    some { module, uart }
  | .other uart => some { s with uart }

def TickTruthful (esp : EspUart ω) (s : UartSys ω) : UartAct ω → Prop
  | .tick => Truthful (s.module.tick esp s.uart).1 (s.module.tick esp s.uart).2.2
  | _ => True

def TickCanReceive (esp : EspUart ω) (s : UartSys ω) : UartAct ω → Prop
  | .tick => CanReceive esp s.module s.uart
  | _ => True

/-- A failed `init` installs nothing. -/
theorem init_failed {u : Uart ω} {config : Uart.Config} (h : (u.init esp config).1 = false) :
    (u.init esp config).2.installed = u.installed := by
  rw [Uart.init] at h ⊢
  rcases hport : Uart.portOf config.port with _ | i
  · rfl
  rcases hparam : esp.paramConfig u.chip config.port config.baudRate with ⟨_ | _, chip₁⟩
  · simp only [Bool.not_false, if_true]
  -- the pins are set, or left as they are
  rcases hpins : (if config.txPin ≥ 0 ∧ config.rxPin ≥ 0 then
    esp.setPin chip₁ config.port config.txPin config.rxPin else (true, chip₁)) with ⟨_ | _, chip₂⟩
  · simp only [hpins, Bool.not_true, Bool.false_eq_true, if_false, Bool.not_false, if_true]
  rcases hdriver : esp.driverInstall chip₂ config.port with ⟨_ | _, chip₃⟩
  · simp only [hpins, hdriver, Bool.not_true, Bool.false_eq_true, if_false, Bool.not_false, if_true]
  · simp only [hport, hparam, hpins, hdriver, Bool.not_true, Bool.false_eq_true, if_false] at h
    exact absurd h (by decide)

/-- **In stub mode no tick is truthful**: `init` failed for a port that was not installed before. -/
theorem stub_mode_not_truthful (m : UartModule) {u : Uart ω} (hport : u.isInstalled m.port = false)
    (h : (u.init esp { port := m.port, baudRate := 115200, txPin := 1, rxPin := 3 }).1 = false) :
    ¬Truthful (m.tick esp (m.init esp u).2).1 (m.tick esp (m.init esp u).2).2.2 := by
  refine not_truthful_of_error (read_error fun hin => ?_)
  have hsame : (m.init esp u).2.isInstalled m.port = u.isInstalled m.port := by
    rw [Uart.isInstalled, Uart.isInstalled, UartModule.init, init_failed h]
  exact absurd (hin.symm.trans (hsame.trans hport)) (by decide)

/--
**When reception is truthful.** In every run of a module for any port, built for any number of
bytes, with anything else happening on the ports, each tick is truthful exactly if at each the
number is at most 256, the port's driver is installed and `uart_read_bytes` reports no error.
-/
theorem reception_truthful_iff (hd : esp.Documented) (port : Int) (bytesPerTick : UInt32)
    (u : Uart ω) (acts : List (UartAct ω)) :
    Along (uartStep esp) (TickTruthful esp) { module := { port, bytesPerTick }, uart := u } acts ↔
      Along (uartStep esp) (TickCanReceive esp) { module := { port, bytesPerTick }, uart := u }
        acts := by
  refine along_iff_of_invariant (fun _ => True) (fun _ _ _ _ _ _ => trivial) (fun s a _ => ?_)
    trivial
  cases a with
  | tick => exact tick_truthful_iff hd s.module s.uart
  | init | other => exact Iff.rfl

/-- A chip whose calls succeed, with the bytes that have arrived at any of its ports. -/
def fifoUart : EspUart (List UInt8) where
  paramConfig fifo _ _ := (true, fifo)
  setPin fifo _ _ _ := (true, fifo)
  driverInstall fifo _ := (true, fifo)
  readBytes fifo _ len := ((fifo.take len.toNat).length, fifo.take len.toNat, fifo.drop len.toNat)

theorem fifoUart_documented : fifoUart.Documented where
  count _ _ _ _ := rfl
  bound fifo _ len _ := List.length_take_le len.toNat fifo

/-- Three bytes are received in two ticks, and none in the third. -/
theorem reception_truthful_fifo :
    Along (uartStep fifoUart) (TickTruthful fifoUart)
      { module := { port := 0, bytesPerTick := 2 }, uart := { chip := [104, 105, 33] } }
      [.init, .tick, .tick, .tick] := by
  refine (reception_truthful_iff fifoUart_documented 0 2 _ _).mpr ⟨trivial, ?_⟩
  rintro _ ⟨⟩
  refine ⟨⟨by decide, by decide, by decide⟩, ?_⟩
  rintro _ ⟨⟩
  refine ⟨⟨by decide, by decide, by decide⟩, ?_⟩
  rintro _ ⟨⟩
  exact ⟨⟨by decide, by decide, by decide⟩, fun _ _ => trivial⟩

/-- A chip whose driver cannot be installed. -/
def deadUart : EspUart Unit where
  paramConfig _ _ _ := (true, ())
  setPin _ _ _ _ := (true, ())
  driverInstall _ _ := (false, ())
  readBytes _ _ _ := (-1, [], ())

theorem deadUart_documented : deadUart.Documented := by
  have hneg : ¬(0 : Int) ≤ -1 := by decide
  exact ⟨fun _ _ _ h => absurd h hneg, fun _ _ _ h => absurd h hneg⟩

/-- **A tick after a failed `init` makes 2 ^ 32 - 1 bytes available.** -/
theorem stub_mode_announces :
    deadUart.Documented ∧
      ¬Along (uartStep deadUart) (TickTruthful deadUart)
        { module := { port := 0, bytesPerTick := 16 }, uart := { chip := () } } [.init, .tick] := by
  refine ⟨deadUart_documented, fun h => ?_⟩
  exact stub_mode_not_truthful _ (by decide) (by decide) (h.2 _ rfl).1

end TaktOS.Proof
