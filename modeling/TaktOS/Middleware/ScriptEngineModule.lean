import TaktOS.Lib.Ring

/-!
# The script engine

`ScriptEngineModule` of `script_engine_module.hpp` and `script_engine_module.cpp`: a queue of 64
instructions that a tick executes until none is left. All that becomes of an instruction is that it
was executed.
-/

namespace TaktOS

structure Instruction where
  opcode : UInt32
  operand : UInt32
  deriving DecidableEq, Repr

def kQueueSize : Nat := 64

/-- The counters stay in range by construction. -/
structure ScriptEngineModule where
  queue : Vector Instruction kQueueSize := Vector.replicate _ ⟨0, 0⟩
  queueHead : Nat := 0
  queueTail : Nat := 0
  queueCount : Nat := 0
  workPending : Bool := false
  head_lt : queueHead < kQueueSize := by decide
  tail_lt : queueTail < kQueueSize := by decide

namespace ScriptEngineModule

def init (m : ScriptEngineModule) : Bool × ScriptEngineModule := (true, m)

def hasWork (m : ScriptEngineModule) : Bool := m.workPending

/-- An instruction that finds the queue full is dropped. -/
def enqueueInstruction (m : ScriptEngineModule) (opcode operand : UInt32) : ScriptEngineModule :=
  if m.queueCount ≥ kQueueSize then m
  else
    { m with
      queue := m.queue.set m.queueTail ⟨opcode, operand⟩ m.tail_lt
      queueTail := (m.queueTail + 1) % kQueueSize
      tail_lt := Nat.mod_lt _ (by decide)
      queueCount := m.queueCount + 1
      workPending := true }

/-- The instruction that was executed; `none` is a result of false. -/
def executeNextInstruction (m : ScriptEngineModule) : Option (Instruction × ScriptEngineModule) :=
  if m.queueCount = 0 then none
  else
    some (m.queue.get ⟨m.queueHead, m.head_lt⟩,
      { m with
        queueHead := (m.queueHead + 1) % kQueueSize
        head_lt := Nat.mod_lt _ (by decide)
        queueCount := m.queueCount - 1
        workPending := if m.queueCount - 1 = 0 then false else m.workPending })

theorem executeNextInstruction_lt {m m' : ScriptEngineModule} {instr : Instruction}
    (h : m.executeNextInstruction = some (instr, m')) : m'.queueCount < m.queueCount := by
  rw [executeNextInstruction] at h
  split at h
  · exact absurd h (by simp)
  · rename_i hcount
    injection h with h; injection h with _ hm
    rw [← hm]
    exact Nat.sub_lt (Nat.pos_of_ne_zero hcount) Nat.one_pos

/-- The instructions that were executed, in that order. -/
def tick (m : ScriptEngineModule) : List Instruction × ScriptEngineModule :=
  if m.hasWork then
    match _h : m.executeNextInstruction with
    | none => ([], m)
    | some (instr, m') =>
      let (executed, m') := tick m'
      (instr :: executed, m')
  else ([], m)
termination_by m.queueCount
decreasing_by exact executeNextInstruction_lt _h

/-- Head and tail stay where they are. -/
def shutdown (m : ScriptEngineModule) : ScriptEngineModule :=
  { m with queueCount := 0, workPending := false }

end ScriptEngineModule

end TaktOS
