import TaktOS.Lib.Run
import TaktOS.Middleware.ModbusModule

/-!
# What becomes of a coil write

A write leaves its slave and address in the one request slot, and a tick makes a read of a holding
register of them. No frame that leaves the module writes a coil, so a run keeps its writes only as
long as no tick has answered one.
-/

namespace TaktOS.Proof

open Lib ModbusModule

/-! ## Runs next to the writes accepted -/

inductive ModbusOp where
  | writeCoil (slave : UInt8) (addr : UInt16) (value : Bool)
  | tick (written : Int) (received : Option (List UInt8))

structure CoilWrite where
  slave : UInt8
  addr : UInt16
  value : Bool
  deriving DecidableEq

/-- The write-single-coil request that a write asks for. -/
def CoilWrite.frame (x : CoilWrite) : List UInt8 :=
  withCrc [x.slave, 0x05, (x.addr >>> 8).toUInt8, x.addr.toUInt8, if x.value then 0xFF else 0x00,
    0x00]

/-- The frames that went out in full. -/
def transmittedIn (notices : List ModbusNotice) : List (List UInt8) :=
  notices.filterMap fun
    | .write _ frame written => if written = frame.length then some frame else none
    | .request _ _ => none

/-- The module with the writes it accepted and the frames it transmitted. -/
structure ModbusHistory where
  modbus : ModbusModule
  /-- Accepted since the last tick. -/
  waiting : List CoilWrite := []
  /-- Accepted before the last tick. -/
  answered : List CoilWrite := []
  /-- Accepted, and replaced in the slot by a later write. -/
  overwritten : List CoilWrite := []
  transmitted : List (List UInt8) := []

def modbusStep (s : ModbusHistory) : ModbusOp → Option ModbusHistory
  | .writeCoil slave addr value =>
    let (ok, modbus) := s.modbus.writeCoil slave addr value
    some { s with
      modbus
      waiting := if ok then s.waiting ++ [⟨slave, addr, value⟩] else s.waiting
      -- the slot has the last write that waits
      overwritten := if s.modbus.requestPending then s.overwritten ++ s.waiting.getLast?.toList
        else s.overwritten }
  | .tick written received =>
    let ticked := s.modbus.tick written received
    some { s with
      modbus := ticked.1
      waiting := []
      answered := s.answered ++ s.waiting
      transmitted := s.transmitted ++ transmittedIn ticked.2 }

/-- **Accepted writes are transmitted**: one frame for each, in the order of the calls, and none is
overwritten. -/
structure WritesTransmitted (s : ModbusHistory) : Prop where
  frames : s.transmitted = s.answered.map CoilWrite.frame
  kept : s.overwritten = []

/-- No write waits when the call comes. -/
def NoWriteWaiting (s : ModbusHistory) (_op : ModbusOp) : Prop := s.waiting = []

/-! ## What a tick transmits -/

/-- A tick with a request waiting. -/
theorem modbusTick_pending {m : ModbusModule} (h : m.requestPending = true) (written : Int)
    (received : Option (List UInt8)) :
    (m.tick written received).1 = { m with requestPending := false }
      ∧ (m.tick written received).2
        = (if m.mode = .rtu then
            [.write m.uartPort (readFrame m.pendingSlave m.pendingAddr) written] else [])
          ++ [.request m.pendingSlave m.pendingAddr] := by
  obtain ⟨mode, port, pending, slave, addr⟩ := m
  obtain rfl : pending = true := h
  cases mode <;> exact ⟨rfl, rfl⟩

theorem modbusTick_idle {m : ModbusModule} (h : m.requestPending = false) (written : Int)
    (received : Option (List UInt8)) : m.tick written received = (m, []) := by
  rw [ModbusModule.tick, if_neg (by rw [h]; exact Bool.false_ne_true)]

/-- **A tick reads.** Whatever it transmits has the function code of a register read. -/
theorem transmittedIn_tick (m : ModbusModule) (written : Int) (received : Option (List UInt8)) :
    ∀ frame ∈ transmittedIn (m.tick written received).2, frame[1]? = some 0x03 := by
  intro frame hf
  cases hp : m.requestPending with
  | false =>
    rw [modbusTick_idle hp] at hf
    exact absurd hf List.not_mem_nil
  | true =>
    rw [(modbusTick_pending hp written received).2] at hf
    obtain ⟨notice, hn, hframe⟩ := List.mem_filterMap.mp hf
    rcases List.mem_append.mp hn with hn | hn
    · split at hn
      · obtain rfl := List.mem_singleton.mp hn
        dsimp only at hframe
        split at hframe
        · exact Option.some.inj hframe ▸ rfl
        · exact absurd hframe (by simp)
      · exact absurd hn List.not_mem_nil
    · obtain rfl := List.mem_singleton.mp hn
      exact absurd hframe (by simp)

theorem coilFrame_code (x : CoilWrite) : x.frame[1]? = some 0x05 := rfl

/-! ## Steps -/

structure ModbusInv (s : ModbusHistory) : Prop where
  pending : s.modbus.requestPending = !s.waiting.isEmpty
  reads : ∀ frame ∈ s.transmitted, frame[1]? = some 0x03
  /-- Only a write makes the module transmit. -/
  silent : s.answered = [] → s.transmitted = []

theorem modbusStep_inv {s s' : ModbusHistory} {op : ModbusOp} (hi : ModbusInv s)
    (h : modbusStep s op = some s') : ModbusInv s' := by
  cases op with
  | writeCoil slave addr value =>
    obtain rfl := Option.some.inj h
    exact ⟨by simp, hi.reads, hi.silent⟩
  | tick written received =>
    obtain rfl := Option.some.inj h
    refine ⟨?_, fun frame hf => ?_, fun ha => ?_⟩
    · cases hp : s.modbus.requestPending with
      | false => rw [modbusTick_idle hp]; exact hp
      | true => rw [(modbusTick_pending hp written received).1]; rfl
    · rcases List.mem_append.mp hf with hold | hnew
      · exact hi.reads frame hold
      · exact transmittedIn_tick s.modbus written received frame hnew
    · obtain ⟨hans, hwait⟩ := List.append_eq_nil_iff.mp ha
      have hp : s.modbus.requestPending = false := by rw [hi.pending, hwait]; rfl
      dsimp only
      rw [hi.silent hans, modbusTick_idle hp]
      rfl

/-- No write has been answered, and none overwritten. -/
def NoneDue (s : ModbusHistory) : Prop := s.answered = [] ∧ s.overwritten = []

/-- No write is transmitted, so all are only where none was due. -/
theorem writesTransmitted_iff {s : ModbusHistory} (hi : ModbusInv s) :
    WritesTransmitted s ↔ NoneDue s := by
  constructor
  · rintro ⟨hframes, hkept⟩
    refine ⟨?_, hkept⟩
    cases ha : s.answered with
    | nil => rfl
    | cons x xs =>
      have hmem : x.frame ∈ s.transmitted := by
        rw [hframes, ha]
        exact List.mem_cons_self
      exact absurd ((hi.reads _ hmem).symm.trans (coilFrame_code x)) (by decide)
  · rintro ⟨ha, hkept⟩
    exact ⟨by rw [ha, hi.silent ha, List.map_nil], hkept⟩

/-- A tick answers the writes that wait, and a write replaces the last of them. -/
theorem noneDue_step {s s' : ModbusHistory} {op : ModbusOp} (hi : ModbusInv s)
    (h : modbusStep s op = some s') : NoneDue s' ↔ NoneDue s ∧ NoWriteWaiting s op := by
  unfold NoneDue NoWriteWaiting
  cases op with
  | writeCoil slave addr value =>
    obtain rfl := Option.some.inj h
    dsimp only
    rw [hi.pending]
    cases hw : s.waiting with
    | nil => simp
    | cons x xs => simp [List.getLast?_cons]
  | tick written received =>
    obtain rfl := Option.some.inj h
    dsimp only
    rw [List.append_eq_nil_iff, and_right_comm]

/-! ## The theorem -/

theorem modbusStep_total (s : ModbusHistory) (op : ModbusOp) : ∃ s', modbusStep s op = some s' := by
  cases op <;> exact ⟨_, rfl⟩

theorem freshModbus_inv (mode : ModbusMode) (uartPort : Int) :
    ModbusInv { modbus := { mode, uartPort } } :=
  ⟨rfl, fun _ h => absurd h List.not_mem_nil, fun _ => rfl⟩

/--
**Accepted coil writes are transmitted**, and none is overwritten, in exactly the runs in which no
call comes after a write, whatever the UART answers.
-/
theorem coil_writes_transmitted_iff (uartPort : Int) (ops : List ModbusOp) :
    ∃ t, run modbusStep { modbus := { mode := .rtu, uartPort } } ops = some t
      ∧ (WritesTransmitted t
        ↔ Along modbusStep NoWriteWaiting { modbus := { mode := .rtu, uartPort } } ops) := by
  have hi := freshModbus_inv .rtu uartPort
  obtain ⟨t, ht, -⟩ := run_returns ModbusInv
    (fun s op hi => (modbusStep_total s op).imp fun _ h => ⟨h, modbusStep_inv hi h⟩) ops hi
  refine ⟨t, ht, run_iff_along ModbusInv WritesTransmitted (fun _ _ _ => modbusStep_inv) ?_ ?_ hi
    ⟨rfl, rfl⟩ ht⟩
  · intro s op s' hi h hw
    rw [writesTransmitted_iff (modbusStep_inv hi h), noneDue_step hi h] at hw
    exact (writesTransmitted_iff hi).mpr hw.1
  · intro s op s' hi hw h
    rw [writesTransmitted_iff (modbusStep_inv hi h), noneDue_step hi h]
    exact (and_iff_right ((writesTransmitted_iff hi).mp hw)).symm

/--
**A write becomes a read, and of two writes one is left.** Switching coil 5 of slave 1 on sends
the request for register 5, and of two writes before a tick the first is overwritten, and only the
second sends anything.
-/
theorem coil_write_not_transmitted :
    (∃ t, run modbusStep { modbus := {} } [.writeCoil 1 5 true, .tick 8 none] = some t
      ∧ t.transmitted = [[0x01, 0x03, 0x00, 0x05, 0x00, 0x01, 0x94, 0x0B]]
      ∧ ¬ WritesTransmitted t)
      ∧ ∃ t, run modbusStep { modbus := {} }
          [.writeCoil 1 5 true, .writeCoil 2 6 false, .tick 8 none] = some t
        ∧ t.overwritten = [⟨1, 5, true⟩] ∧ t.transmitted.length = 1 ∧ ¬ WritesTransmitted t := by
  have hone : (run modbusStep { modbus := {} } [.writeCoil 1 5 true, .tick 8 none]).map
      (fun t => (t.transmitted, t.answered))
        = some ([[0x01, 0x03, 0x00, 0x05, 0x00, 0x01, 0x94, 0x0B]], [⟨1, 5, true⟩]) := by
    decide +kernel
  have htwo : (run modbusStep { modbus := {} }
      [.writeCoil 1 5 true, .writeCoil 2 6 false, .tick 8 none]).map
        (fun t => (t.transmitted.length, t.overwritten)) = some (1, [⟨1, 5, true⟩]) := by decide
  obtain ⟨t, ht, hlog⟩ := Option.map_eq_some_iff.mp hone
  obtain ⟨t', ht', hlog'⟩ := Option.map_eq_some_iff.mp htwo
  obtain ⟨hsent, hans⟩ := Prod.mk.inj hlog
  obtain ⟨hsent', hover⟩ := Prod.mk.inj hlog'
  refine ⟨⟨t, ht, hsent, fun h => ?_⟩, t', ht', hover, hsent', fun h => ?_⟩
  · have hframes := h.frames
    rw [hsent, hans] at hframes
    exact absurd hframes (by decide)
  · have hkept := h.kept
    rw [hover] at hkept
    exact absurd hkept (by decide)

end TaktOS.Proof
