import TaktOS.Lib.Frames
import TaktOS.Proof.ModbusCrc
import TaktOS.Proof.ModbusResponses
import TaktOS.Proof.ModbusWrites
import TaktOS.Services.ModbusGateway

/-!
# What is on the Modbus line

The gateway's polls, the requests that coil writes become and the reads of clients share one UART.
Whatever the order they come in, the line has one frame for each request that the event bus was
told of, and a slave that cuts the line into frames and checks their CRC hears these requests, less
those whose frame was damaged.
-/

namespace TaktOS.Proof

open Lib ModbusModule

/-! ## The module and the gateway on one line -/

/-- A request as the event bus is told of it. -/
abbrev ModbusRequest : Type := UInt8 × UInt16

inductive LineOp where
  | writeCoil (slave : UInt8) (addr : UInt16) (value : Bool)
  | readHoldingRegister (slave : UInt8) (addr : UInt16) (value : UInt16) (written : Int)
      (received : Option (List UInt8))
  /-- The scheduler comes to the module. -/
  | tick (written : Int) (received : Option (List UInt8))
  /-- The scheduler comes to the gateway. -/
  | tickGateway (written : Int) (received : Option (List UInt8))
  | setModbusModule (modbus : Bool)

/-- The two with what went out of the UART and to the event bus, and the gateway's share. -/
structure ModbusLine where
  modbus : ModbusModule
  gateway : ModbusGateway := {}
  line : List UInt8 := []
  published : List ModbusRequest := []
  polled : List UInt16 := []

/-- The bytes that left the UART: `Uart::write` reports how many. -/
def bytesIn (notices : List ModbusNotice) : List UInt8 :=
  notices.flatMap fun
    | .write _ frame written => frame.take written.toNat
    | .request _ _ => []

def requestsIn (notices : List ModbusNotice) : List ModbusRequest :=
  notices.filterMap fun
    | .write _ _ _ => none
    | .request slave addr => some (slave, addr)

def ModbusLine.took (s : ModbusLine) (notices : List ModbusNotice) : ModbusLine :=
  { s with
    line := s.line ++ bytesIn notices
    published := s.published ++ requestsIn notices }

def lineStep (s : ModbusLine) : LineOp → Option ModbusLine
  | .writeCoil slave addr value => some { s with modbus := (s.modbus.writeCoil slave addr value).2 }
  | .readHoldingRegister slave addr value written received =>
    some (s.took (s.modbus.readHoldingRegister written received slave addr value).2.2)
  | .tick written received =>
    let (modbus, notices) := s.modbus.tick written received
    some ({ s with modbus }.took notices)
  | .tickGateway written received =>
    let (gateway, notices) := s.gateway.tick s.modbus written received
    some ({ s with gateway, polled := s.polled ++ (requestsIn notices).map Prod.snd }.took notices)
  | .setModbusModule modbus => some { s with gateway := s.gateway.setModbusModule modbus }

/-- The UART takes every frame whole. -/
def LineOp.whole : LineOp → Prop
  | .readHoldingRegister _ _ _ written _ | .tick written _ | .tickGateway written _ => written = 8
  | .writeCoil _ _ _ | .setModbusModule _ => True

/-! ## Frames and requests -/

/-- The frame of a request. -/
def frameOf (r : ModbusRequest) : List UInt8 := readFrame r.1 r.2

/-- A slave's reading of a frame: a read of one register with nothing left in the CRC. -/
def requestOf (frame : List UInt8) : Option ModbusRequest :=
  match frame with
  | [slave, 0x03, hi, lo, 0x00, 0x01, _, _] =>
    if crc16 frame = 0 then some (slave, registerOf hi lo) else none
  | _ => none

theorem registerOf_bytes (addr : UInt16) :
    registerOf (addr >>> 8).toUInt8 addr.toUInt8 = addr := by
  apply UInt16.toNat_inj.mp
  have hlt := addr.toNat_lt
  have hhi : (addr >>> 8).toUInt8.toNat = addr.toNat / 256 := by
    rw [UInt16.toNat_toUInt8, UInt16.toNat_shiftRight]
    simp only [UInt16.reduceToNat, Nat.reduceMod, Nat.shiftRight_eq_div_pow]
    omega
  rw [registerOf, hhi, UInt16.toNat_toUInt8, UInt16.toNat_ofNat']
  omega

theorem requestOf_frameOf (r : ModbusRequest) : requestOf (frameOf r) = some r := by
  have hcrc : crc16 (frameOf r) = 0 := crc16_withCrc _
  have hframe : requestOf (frameOf r)
      = if crc16 (frameOf r) = 0
        then some (r.1, registerOf (r.2 >>> 8).toUInt8 r.2.toUInt8) else none := rfl
  rw [hframe, if_pos hcrc, registerOf_bytes]

/-- A frame that is damaged in two bytes in a row is not taken for any request. -/
theorem requestOf_damaged (r : ModbusRequest) (f : List UInt8) (h : DamagedPair (frameOf r) f) :
    f.length = 8 ∧ f ≠ frameOf r ∧ requestOf f = none := by
  obtain ⟨pre, mid, mid', post, hframe, rfl, hlen, h2, hne⟩ := h
  have hcrc : crc16 (pre ++ mid' ++ post) ≠ 0 := by
    intro hzero
    have hsame : crc16 (pre ++ mid ++ post) = crc16 (pre ++ mid' ++ post) := by
      rw [← hframe, hzero]
      exact crc16_withCrc _
    exact hne (crc16_burst hlen h2 hsame).symm
  refine ⟨?_, fun he => ?_, ?_⟩
  · have hframe8 : (pre ++ mid ++ post).length = 8 := by rw [← hframe]; rfl
    simp only [List.length_append] at hframe8 ⊢
    omega
  · rw [hframe] at he
    simp only [List.append_cancel_right_eq, List.append_cancel_left_eq] at he
    exact hne he
  · unfold requestOf
    split
    · rw [if_neg hcrc]
    · rfl

/-! ## Steps -/

/-- One frame for each request, and polls of the ten registers in turn. -/
structure LineInv (s : ModbusLine) : Prop where
  mode : s.modbus.mode = .rtu
  line : s.line = (s.published.map frameOf).flatten
  polled : s.polled = (List.range s.polled.length).map fun i => UInt16.ofNat (i % 10)
  next : s.gateway.pollAddr = UInt16.ofNat (s.polled.length % 10)
  polls : (s.polled.map fun addr => ((1 : UInt8), addr)).Sublist s.published

/-- What a read of a register sends and tells. -/
theorem read_notices {m : ModbusModule} (hmode : m.mode = .rtu) (received : Option (List UInt8))
    (slave : UInt8) (addr value : UInt16) :
    bytesIn (m.readHoldingRegister 8 received slave addr value).2.2 = frameOf (slave, addr)
      ∧ requestsIn (m.readHoldingRegister 8 received slave addr value).2.2 = [(slave, addr)] := by
  rw [readHoldingRegister, hmode]
  exact ⟨rfl, rfl⟩

/-- One more request. -/
theorem LineInv.took {s : ModbusLine} (h : LineInv s) {notices : List ModbusNotice}
    {r : ModbusRequest} (hbytes : bytesIn notices = frameOf r)
    (hrequest : requestsIn notices = [r]) :
    LineInv (s.took notices) where
  mode := h.mode
  line := by
    rw [ModbusLine.took, hbytes, hrequest, h.line]
    simp
  polled := h.polled
  next := h.next
  polls := h.polls.trans (List.sublist_append_left _ _)

/-- One more poll. -/
theorem LineInv.poll {s : ModbusLine} (h : LineInv s) {notices : List ModbusNotice}
    (hbytes : bytesIn notices = frameOf (1, s.gateway.pollAddr))
    (hrequest : requestsIn notices = [(1, s.gateway.pollAddr)]) :
    LineInv ({ s with
      gateway := { s.gateway with
        pollAddr := UInt16.ofNat ((s.gateway.pollAddr.toNat + 1) % 10) }
      polled := s.polled ++ (requestsIn notices).map Prod.snd }.took notices) where
  mode := h.mode
  line := by
    rw [ModbusLine.took, hbytes, hrequest, h.line]
    simp
  polled := by
    rw [ModbusLine.took, hrequest, h.next]
    simp only [List.map_cons, List.map_nil, List.length_append, List.length_singleton,
      List.range_succ, List.map_append]
    rw [← h.polled]
  next := by
    rw [ModbusLine.took, hrequest, h.next]
    simp only [List.map_cons, List.map_nil, List.length_append, List.length_singleton]
    rw [UInt16.toNat_ofNat_of_lt' (Nat.lt_trans (Nat.mod_lt _ (by decide)) (by decide)),
      Nat.mod_add_mod]
  polls := by
    rw [ModbusLine.took, hrequest]
    simp only [List.map_append, List.map_cons, List.map_nil]
    exact h.polls.append (List.Sublist.refl _)

/-- Nothing left the module. -/
theorem LineInv.nothing {s : ModbusLine} (h : LineInv s) : LineInv (s.took []) where
  mode := h.mode
  line := (List.append_nil _).trans (h.line.trans (by rw [ModbusLine.took, requestsIn]; simp))
  polled := h.polled
  next := h.next
  polls := h.polls.trans (List.sublist_append_left _ _)

theorem gatewayTick_cases (g : ModbusGateway) (m : ModbusModule) (written : Int)
    (received : Option (List UInt8)) :
    g.tick m written received = (g, [])
      ∨ g.tick m written received
        = ({ g with pollAddr := UInt16.ofNat ((g.pollAddr.toNat + 1) % 10) },
          (m.readHoldingRegister written received 1 g.pollAddr 0).2.2) := by
  unfold ModbusGateway.tick
  split
  · exact Or.inl rfl
  · exact Or.inr rfl

theorem lineStep_total (s : ModbusLine) (op : LineOp) : ∃ s', lineStep s op = some s' := by
  cases op <;> exact ⟨_, rfl⟩

theorem lineStep_inv {s s' : ModbusLine} {op : LineOp} (h : LineInv s) (hop : op.whole)
    (hs : lineStep s op = some s') : LineInv s' := by
  cases op with
  | writeCoil slave addr value =>
    obtain rfl := Option.some.inj hs
    exact ⟨h.mode, h.line, h.polled, h.next, h.polls⟩
  | setModbusModule modbus =>
    obtain rfl := Option.some.inj hs
    exact ⟨h.mode, h.line, h.polled, h.next, h.polls⟩
  | readHoldingRegister slave addr value written received =>
    obtain rfl : written = 8 := hop
    obtain rfl := Option.some.inj hs
    obtain ⟨hbytes, hrequest⟩ := read_notices h.mode received slave addr value
    exact h.took hbytes hrequest
  | tick written received =>
    obtain rfl : written = 8 := hop
    rw [lineStep] at hs
    cases hp : s.modbus.requestPending with
    | true =>
      obtain ⟨hmodbus, hnotices⟩ := modbusTick_pending hp 8 received
      dsimp only at hs
      rw [hmodbus, hnotices, if_pos h.mode] at hs
      obtain rfl := Option.some.inj hs
      have hcleared : LineInv { s with modbus := { s.modbus with requestPending := false } } :=
        ⟨h.mode, h.line, h.polled, h.next, h.polls⟩
      exact hcleared.took (r := (s.modbus.pendingSlave, s.modbus.pendingAddr)) rfl rfl
    | false =>
      dsimp only at hs
      rw [modbusTick_idle hp] at hs
      obtain rfl := Option.some.inj hs
      exact h.nothing
  | tickGateway written received =>
    obtain rfl : written = 8 := hop
    rw [lineStep] at hs
    rcases gatewayTick_cases s.gateway s.modbus 8 received with htick | htick
    · rw [htick] at hs
      obtain rfl := Option.some.inj hs
      have hnone : s.polled ++ (requestsIn []).map Prod.snd = s.polled := List.append_nil _
      rw [hnone]
      exact h.nothing
    · rw [htick] at hs
      obtain rfl := Option.some.inj hs
      obtain ⟨hbytes, hrequest⟩ := read_notices h.mode received 1 s.gateway.pollAddr 0
      exact h.poll hbytes hrequest

/-! ## The theorem -/

/--
**A slave hears what was asked.** In every run, in whatever order coil writes, reads and takts come:
the line carries one frame for each request that the event bus is told of, in that order, and the
gateway's polls among them go through the ten registers in turn. A slave that cuts what it hears
into frames and checks their CRC has the requests whose frame came through and no other, whichever
frames were damaged in two bytes in a row.
-/
theorem modbus_line (uartPort : Int) {ops : List LineOp} (hops : ∀ op ∈ ops, op.whole) :
    ∃ s, run lineStep { modbus := { mode := .rtu, uartPort } } ops = some s
      ∧ s.line = (s.published.map frameOf).flatten
      ∧ (s.polled = (List.range s.polled.length).map fun i => UInt16.ofNat (i % 10))
      ∧ (s.polled.map fun addr => ((1 : UInt8), addr)).Sublist s.published
      ∧ ∀ heard, List.Forall₂ (Heard frameOf DamagedPair) s.published heard →
        receive 8 requestOf heard.flatten = (s.published.zip heard).filterMap fun x =>
          if x.2 = frameOf x.1 then some x.1 else none := by
  have hstep : ∀ s (op : LineOp), LineInv s → op.whole →
      ∃ s', lineStep s op = some s' ∧ LineInv s' :=
    fun s op h hop => by
      obtain ⟨s', hs⟩ := lineStep_total s op
      exact ⟨s', hs, lineStep_inv h hop hs⟩
  have hfresh : LineInv { modbus := { mode := .rtu, uartPort } } :=
    ⟨rfl, rfl, rfl, rfl, List.Sublist.refl _⟩
  obtain ⟨s, hrun, hi⟩ := run_returns_along _ hstep hfresh
    (along_of_forall fun op hop _ => hops op hop)
  exact ⟨s, hrun, hi.line, hi.polled, hi.polls, fun heard hheard =>
    receive_noisy (n := 8) (by decide) (fun _ => rfl) requestOf_frameOf requestOf_damaged hheard⟩

/-- A poll, a coil write that becomes a read, and another poll. -/
def pollAndWrite : List LineOp :=
  [.setModbusModule true, .tickGateway 8 none, .writeCoil 2 5 true, .tick 8 none,
    .tickGateway 8 none]

/-- The read with two of its bytes damaged. -/
def damagedRead : List UInt8 := [0x02, 0x03, 0x00, 0xFF, 0xFF, 0x01] ++ (frameOf (2, 5)).drop 6

theorem modbus_line_one_damaged :
    ∃ s, run lineStep { modbus := {} } pollAndWrite = some s
      ∧ s.published = [(1, 0), (2, 5), (1, 1)]
      ∧ receive 8 requestOf [frameOf (1, 0), damagedRead, frameOf (1, 1)].flatten
        = [(1, 0), (1, 1)] := by
  have hwhole : ∀ op ∈ pollAndWrite, op.whole := by simp [pollAndWrite, LineOp.whole]
  obtain ⟨s, hrun, -, -, -, hheard⟩ := modbus_line 1 hwhole
  have hpublished : (run lineStep { modbus := {} } pollAndWrite).map ModbusLine.published
      = some [(1, 0), (2, 5), (1, 1)] := by decide +kernel
  obtain ⟨s', hrun', hs'⟩ := Option.map_eq_some_iff.mp hpublished
  obtain rfl : s = s' := Option.some.inj (hrun.symm.trans hrun')
  rw [hs'] at hheard
  have hdamaged : DamagedPair (frameOf (2, 5)) damagedRead :=
    ⟨[0x02, 0x03, 0x00], [0x05, 0x00], [0xFF, 0xFF], 0x01 :: (frameOf (2, 5)).drop 6, rfl, rfl,
      rfl, by decide, by decide⟩
  have hlist := hheard [frameOf (1, 0), damagedRead, frameOf (1, 1)]
    (.cons (Or.inl rfl) (.cons (Or.inr hdamaged) (.cons (Or.inl rfl) .nil)))
  exact ⟨s, hrun, hs', hlist.trans (by decide +kernel)⟩

end TaktOS.Proof
