import TaktOS.Lib.History
import TaktOS.Lib.Run
import TaktOS.Middleware.ScriptEngineModule

/-!
# Which instructions a script engine executes

A shutdown empties the queue by its count alone, so head and tail stay as far apart as there were
instructions in it. From then on what is read is that far behind what is written, counted round
the queue. The queue is a queue again where the instructions dropped so far fill whole rounds.
-/

namespace TaktOS.Proof

open Lib

/-! ## Runs next to the calls that were accepted -/

inductive ScriptOp where
  | enqueueInstruction (opcode operand : UInt32)
  | tick
  | shutdown
  | init

/--
The engine with what it was given and what it made of it. An accepted call is named by its place
among the accepted ones.
-/
structure ScriptHistory where
  engine : ScriptEngineModule := {}
  accepted : List Instruction := []
  /-- The call whose instruction a slot holds. -/
  origin : Vector (Option Nat) kQueueSize := Vector.replicate _ none
  /-- The instructions executed, each with the call that put it in its slot. -/
  executed : List (Instruction × Option Nat) := []
  /-- The accepted calls whose instructions are neither executed nor dropped. -/
  pending : List Nat := []
  /-- The calls whose instructions the ticks had to execute. -/
  due : List Nat := []
  /-- How many instructions shutdowns dropped. -/
  dropped : Nat := 0

instance : NeZero kQueueSize := ⟨by decide⟩

/-- A tick reads as many slots as it executes instructions, from the head on. -/
def scriptStep (s : ScriptHistory) : ScriptOp → Option ScriptHistory
  | .enqueueInstruction opcode operand =>
    if s.engine.queueCount < kQueueSize then
      some { s with
        engine := s.engine.enqueueInstruction opcode operand
        accepted := s.accepted ++ [⟨opcode, operand⟩]
        origin := s.origin.set s.engine.queueTail (some s.accepted.length) s.engine.tail_lt
        pending := s.pending ++ [s.accepted.length] }
    else some { s with engine := s.engine.enqueueInstruction opcode operand }
  | .tick =>
    let (instrs, engine) := s.engine.tick
    some { s with
      engine
      executed := s.executed
        ++ instrs.zip (Ring.contents s.origin s.engine.queueHead instrs.length)
      due := s.due ++ s.pending
      pending := [] }
  | .shutdown =>
    some { s with
      engine := s.engine.shutdown, dropped := s.dropped + s.pending.length, pending := [] }
  | .init => some { s with engine := s.engine.init.2 }

/--
**Instructions are executed in order, once**: those executed are the accepted ones that no
shutdown dropped, each from its own call.
-/
structure ExecutedInOrder (s : ScriptHistory) : Prop where
  calls : s.executed.map Prod.snd = s.due.map some
  instructions : s.executed.map (some ∘ Prod.fst) = s.due.map (s.accepted[·]?)

/-- A tick that finds instructions does so after whole rounds of dropped ones. -/
def WholeRounds (s : ScriptHistory) : ScriptOp → Prop
  | .tick => s.pending = [] ∨ s.dropped % kQueueSize = 0
  | _ => True

/-! ## What a tick executes -/

/-- **A tick executes what the slots from the head on hold**, and leaves the queue empty. -/
theorem tick_spec (m : ScriptEngineModule) (hw : m.workPending = decide (0 < m.queueCount)) :
    m.tick.1 = Ring.contents m.queue m.queueHead m.queueCount
      ∧ m.tick.2 = { m with
          queueHead := (m.queueHead + m.queueCount) % kQueueSize
          head_lt := Nat.mod_lt _ (by decide)
          queueCount := 0
          workPending := false } := by
  induction hn : m.queueCount generalizing m with
  | zero =>
    rw [hn] at hw
    have hwork : m.hasWork = false := hw
    rw [ScriptEngineModule.tick, if_neg (by rw [hwork]; exact Bool.false_ne_true)]
    refine ⟨rfl, ?_⟩
    obtain ⟨queue, head, tail, count, work, hh, ht⟩ := m
    obtain rfl : count = 0 := hn
    obtain rfl : work = false := hw
    simp [Nat.mod_eq_of_lt hh]
  | succ n ih =>
    have hwork : m.hasWork = true := by
      rw [ScriptEngineModule.hasWork, hw, hn]
      rfl
    rw [ScriptEngineModule.tick, if_pos hwork]
    split
    · rename_i hnone
      rw [ScriptEngineModule.executeNextInstruction, if_neg (by omega)] at hnone
      exact absurd hnone (by simp)
    · rename_i instr m' hexec
      rw [ScriptEngineModule.executeNextInstruction, if_neg (by omega)] at hexec
      injection hexec with hexec; injection hexec with hinstr hm
      have hw' : m'.workPending = decide (0 < m'.queueCount) := by
        rw [← hm]
        dsimp only
        rw [hw, hn]
        cases n <;> rfl
      obtain ⟨hinstrs, htick⟩ := ih m' hw' (by rw [← hm]; dsimp only; omega)
      change instr :: m'.tick.1 = _ ∧ m'.tick.2 = _
      rw [hinstrs, htick, ← hm, ← hinstr]
      refine ⟨(Ring.contents_pop m.queue m.head_lt n).symm, ?_⟩
      have hhead : ((m.queueHead + 1) % kQueueSize + n) % kQueueSize
          = (m.queueHead + (n + 1)) % kQueueSize := by
        rw [Nat.mod_add_mod, Nat.add_assoc, Nat.add_comm 1 n]
      simp only [hhead]

/-! ## The queue that the counters describe -/

/-- Where the head would be if shutdowns moved it. -/
def ScriptHistory.front (s : ScriptHistory) : Nat :=
  (s.engine.queueHead + s.dropped) % kQueueSize

/--
Head, tail and count agree up to the instructions dropped, and walking round from there one meets
the calls that are pending.
-/
structure ScriptInv (s : ScriptHistory) : Prop where
  work : s.engine.workPending = decide (0 < s.engine.queueCount)
  placed : Ring.Placed kQueueSize s.front s.engine.queueTail s.engine.queueCount
  waiting : Ring.contents s.origin s.front s.engine.queueCount = s.pending.map some
  /-- A slot holds the instruction of its call. -/
  slots : ∀ (i : Fin kQueueSize) (a : Nat), s.origin[i] = some a →
    s.accepted[a]? = some s.engine.queue[i]
  /-- No two slots were filled by one call. -/
  distinct : ∀ (i j : Fin kQueueSize) (a : Nat), s.origin[i] = some a → s.origin[j] = some a →
    i = j
  /-- What was executed is the instruction of the call it came from. -/
  executed : ∀ x ∈ s.executed, ∀ a, x.2 = some a → s.accepted[a]? = some x.1
  count : s.executed.length = s.due.length

theorem ScriptInv.length_pending {s : ScriptHistory} (hi : ScriptInv s) :
    s.pending.length = s.engine.queueCount := by
  have h := congrArg List.length hi.waiting
  rw [Ring.contents_length, List.length_map] at h
  exact h.symm

theorem fresh_inv : ScriptInv {} where
  work := rfl
  placed := Ring.placed_empty (by decide)
  waiting := rfl
  slots i a h := by simp at h
  distinct i j a h := by simp at h
  executed x hx := absurd hx (by simp)
  count := rfl

/-- An accepted call fills the slot at the tail. -/
theorem enqueue_inv {s : ScriptHistory} (hi : ScriptInv s) (opcode operand : UInt32)
    (hroom : s.engine.queueCount < kQueueSize) :
    ScriptInv { s with
      engine := s.engine.enqueueInstruction opcode operand
      accepted := s.accepted ++ [⟨opcode, operand⟩]
      origin := s.origin.set s.engine.queueTail (some s.accepted.length) s.engine.tail_lt
      pending := s.pending ++ [s.accepted.length] } := by
  rw [ScriptEngineModule.enqueueInstruction, if_neg (Nat.not_le.mpr hroom)]
  have hnew : ∀ (i : Fin kQueueSize) (a : Nat), s.origin[i] = some a → a < s.accepted.length :=
    fun i a h => lt_of_getElem? (hi.slots i a h)
  have hslot : ∀ i : Fin kQueueSize,
      (s.origin.set s.engine.queueTail (some s.accepted.length) s.engine.tail_lt)[i]
        = if s.engine.queueTail = i then some s.accepted.length else s.origin[i] :=
    fun i => Vector.getElem_set s.engine.tail_lt i.isLt
  refine ⟨?_, hi.placed.push hroom, ?_, ?_, ?_, ?_, hi.count⟩
  · simp
  · rw [List.map_append, ← hi.waiting]
    exact Ring.contents_push _ hi.placed hroom s.engine.tail_lt
  · intro i a h
    dsimp only at h ⊢
    rw [hslot] at h
    have hqueue : (s.engine.queue.set s.engine.queueTail ⟨opcode, operand⟩ s.engine.tail_lt)[i]
        = if s.engine.queueTail = i then ⟨opcode, operand⟩ else s.engine.queue[i] :=
      Vector.getElem_set s.engine.tail_lt i.isLt
    rw [hqueue]
    split at h
    · rename_i htail
      rw [if_pos htail, ← Option.some.inj h, List.getElem?_concat_length]
    · rename_i htail
      rw [if_neg htail]
      exact getElem?_concat_of (hi.slots i a h)
  · intro i j a h h'
    dsimp only at h h'
    rw [hslot] at h h'
    split at h <;> split at h'
    · rename_i hti htj
      exact Fin.ext (hti.symm.trans htj)
    · exact absurd (hnew j a h') (by have := Option.some.inj h; omega)
    · exact absurd (hnew i a h) (by have := Option.some.inj h'; omega)
    · exact hi.distinct i j a h h'
  · exact fun x hx a ha => getElem?_concat_of (hi.executed x hx a ha)

/-- What a tick of a run adds to what was executed. -/
theorem tick_executed {s : ScriptHistory} (hi : ScriptInv s) :
    s.engine.tick.1.zip (Ring.contents s.origin s.engine.queueHead s.engine.tick.1.length)
      = (Ring.contents s.engine.queue s.engine.queueHead s.engine.queueCount).zip
          (Ring.contents s.origin s.engine.queueHead s.engine.queueCount) := by
  rw [(tick_spec s.engine hi.work).1, Ring.contents_length]

/-- What is read from a slot is the instruction of the slot's call. -/
theorem mem_zip_contents {s : ScriptHistory} (hi : ScriptInv s) {head count : Nat}
    {x : Instruction × Option Nat}
    (hx : x ∈ (Ring.contents s.engine.queue head count).zip (Ring.contents s.origin head count))
    {a : Nat} (ha : x.2 = some a) : s.accepted[a]? = some x.1 := by
  rw [Ring.contents, Ring.contents, List.zip_map'] at hx
  obtain ⟨k, -, rfl⟩ := List.mem_map.mp hx
  exact hi.slots _ a ha

theorem scriptStep_inv {s s' : ScriptHistory} {op : ScriptOp} (hi : ScriptInv s)
    (h : scriptStep s op = some s') : ScriptInv s' := by
  cases op with
  | enqueueInstruction opcode operand =>
    rw [scriptStep] at h
    split at h
    · rename_i hroom
      obtain rfl := Option.some.inj h
      exact enqueue_inv hi opcode operand hroom
    · rename_i hfull
      obtain rfl := Option.some.inj h
      rw [ScriptEngineModule.enqueueInstruction, if_pos (Nat.le_of_not_lt hfull)]
      exact hi
  | tick =>
    obtain rfl := Option.some.inj h
    rw [tick_executed hi, (tick_spec s.engine hi.work).2]
    refine ⟨rfl, ?_, rfl, hi.slots, hi.distinct, ?_, ?_⟩
    · have hplaced := hi.placed
      refine ⟨Nat.zero_le _, hplaced.tail_eq.trans ?_⟩
      simp only [ScriptHistory.front, kQueueSize]
      omega
    · intro x hx a ha
      rcases List.mem_append.mp hx with hold | hnew
      · exact hi.executed x hold a ha
      · exact mem_zip_contents hi hnew ha
    · simp [hi.count, hi.length_pending]
  | shutdown =>
    obtain rfl := Option.some.inj h
    refine ⟨rfl, ?_, rfl, hi.slots, hi.distinct, hi.executed, hi.count⟩
    have hplaced := hi.placed
    refine ⟨Nat.zero_le _, hplaced.tail_eq.trans ?_⟩
    rw [hi.length_pending]
    simp only [ScriptHistory.front, ScriptEngineModule.shutdown, kQueueSize]
    omega
  | init =>
    obtain rfl := Option.some.inj h
    exact hi

/-! ## Which calls the executed instructions come from -/

/-- The calls executed are the calls due. -/
def CallsInOrder (s : ScriptHistory) : Prop := s.executed.map Prod.snd = s.due.map some

/-- The instructions follow the calls. -/
theorem executedInOrder_iff {s : ScriptHistory} (hi : ScriptInv s) :
    ExecutedInOrder s ↔ CallsInOrder s := by
  refine ⟨fun h => h.calls, fun h => ⟨h, ?_⟩⟩
  calc s.executed.map (some ∘ Prod.fst)
      = s.executed.map fun x => x.2.bind (s.accepted[·]?) := by
        refine List.map_congr_left fun x hx => ?_
        have hmem : x.2 ∈ s.due.map some := h ▸ List.mem_map_of_mem hx
        obtain ⟨a, -, ha⟩ := List.mem_map.mp hmem
        rw [← ha, Option.bind_some, hi.executed x hx a ha.symm]
        rfl
    _ = (s.executed.map Prod.snd).map fun c => c.bind (s.accepted[·]?) := by
        rw [List.map_map]
        rfl
    _ = s.due.map (s.accepted[·]?) := by
        rw [h, List.map_map]
        rfl

/-- **The calls of a tick**: the pending ones exactly after whole rounds. -/
theorem contents_origin_iff {s : ScriptHistory} (hi : ScriptInv s) :
    Ring.contents s.origin s.engine.queueHead s.engine.queueCount = s.pending.map some
      ↔ s.pending = [] ∨ s.dropped % kQueueSize = 0 := by
  constructor
  · intro h
    cases hp : s.pending with
    | nil => exact .inl rfl
    | cons a rest =>
      right
      obtain ⟨n, hn⟩ : ∃ n, s.engine.queueCount = n + 1 :=
        ⟨rest.length, by rw [← hi.length_pending, hp, List.length_cons]⟩
      have hfront : s.front < kQueueSize := Nat.mod_lt _ (by decide)
      have hwait := hi.waiting
      rw [hn, Ring.contents_pop _ hfront, hp, List.map_cons] at hwait
      rw [hn, Ring.contents_pop _ s.engine.head_lt, hp, List.map_cons] at h
      -- the slot at the head holds the first pending call, and only one slot does
      have hslot : (⟨s.engine.queueHead, s.engine.head_lt⟩ : Fin kQueueSize) = ⟨s.front, hfront⟩ :=
        hi.distinct _ _ a (List.cons.inj h).1 (List.cons.inj hwait).1
      have heq : s.engine.queueHead = (s.engine.queueHead + s.dropped) % kQueueSize :=
        congrArg Fin.val hslot
      have hlt := s.engine.head_lt
      simp only [kQueueSize] at *
      omega
  · rintro (hp | hd)
    · have hcount : s.engine.queueCount = 0 := by rw [← hi.length_pending, hp]; rfl
      rw [hcount, hp]
      rfl
    · have hfront : s.front = s.engine.queueHead := by
        rw [ScriptHistory.front, Nat.add_mod, hd, Nat.add_zero, Nat.mod_mod,
          Nat.mod_eq_of_lt s.engine.head_lt]
      rw [← hi.waiting, hfront]

/-- The calls executed after a tick. -/
theorem tick_calls_executed {s : ScriptHistory} (hi : ScriptInv s) :
    (s.executed ++ s.engine.tick.1.zip
        (Ring.contents s.origin s.engine.queueHead s.engine.tick.1.length)).map Prod.snd
      = s.executed.map Prod.snd
        ++ Ring.contents s.origin s.engine.queueHead s.engine.queueCount := by
  rw [tick_executed hi, List.map_append, List.map_snd_zip (by simp)]

theorem callsInOrder_back {s s' : ScriptHistory} {op : ScriptOp} (hi : ScriptInv s)
    (h : scriptStep s op = some s') (hc : CallsInOrder s') : CallsInOrder s := by
  cases op with
  | enqueueInstruction opcode operand =>
    rw [scriptStep] at h
    split at h <;> (obtain rfl := Option.some.inj h; exact hc)
  | tick =>
    obtain rfl := Option.some.inj h
    have hc' := (tick_calls_executed hi).symm.trans hc
    rw [List.map_append] at hc'
    exact List.append_inj_left hc' (by rw [List.length_map, List.length_map, hi.count])
  | shutdown => obtain rfl := Option.some.inj h; exact hc
  | init => obtain rfl := Option.some.inj h; exact hc

theorem callsInOrder_step_iff {s s' : ScriptHistory} {op : ScriptOp} (hi : ScriptInv s)
    (hc : CallsInOrder s) (h : scriptStep s op = some s') :
    WholeRounds s op ↔ CallsInOrder s' := by
  cases op with
  | enqueueInstruction opcode operand =>
    rw [scriptStep] at h
    split at h <;> (obtain rfl := Option.some.inj h; exact ⟨fun _ => hc, fun _ => trivial⟩)
  | tick =>
    obtain rfl := Option.some.inj h
    rw [WholeRounds, ← contents_origin_iff hi, CallsInOrder]
    dsimp only
    rw [tick_calls_executed hi, List.map_append, hc, List.append_cancel_left_eq]
  | shutdown => obtain rfl := Option.some.inj h; exact ⟨fun _ => hc, fun _ => trivial⟩
  | init => obtain rfl := Option.some.inj h; exact ⟨fun _ => hc, fun _ => trivial⟩

/-! ## The theorem -/

theorem scriptStep_total (s : ScriptHistory) (op : ScriptOp) : ∃ s', scriptStep s op = some s' := by
  cases op with
  | enqueueInstruction opcode operand =>
    rw [scriptStep]
    split <;> exact ⟨_, rfl⟩
  | tick => exact ⟨_, rfl⟩
  | shutdown => exact ⟨_, rfl⟩
  | init => exact ⟨_, rfl⟩

/--
**Script instructions are executed in order, once**, exactly in the runs where every tick that
finds instructions comes after shutdowns that dropped a multiple of 64 of them.
-/
theorem script_executed_in_order_iff (ops : List ScriptOp) :
    ∃ t, run scriptStep {} ops = some t
      ∧ (ExecutedInOrder t ↔ Along scriptStep WholeRounds {} ops) := by
  obtain ⟨t, ht, hi⟩ := run_returns ScriptInv
    (fun s op hi => (scriptStep_total s op).imp fun _ h => ⟨h, scriptStep_inv hi h⟩) ops fresh_inv
  refine ⟨t, ht, (executedInOrder_iff hi).trans ?_⟩
  exact run_iff_along ScriptInv CallsInOrder (fun _ _ _ => scriptStep_inv)
    (fun _ _ _ => callsInOrder_back) (fun _ _ _ => callsInOrder_step_iff) fresh_inv rfl ht

/--
**A shutdown with one instruction pending, and the next start executes it**: opcode 1 from before
the shutdown runs, opcode 2 enqueued after it does not.
-/
theorem script_stale_instruction :
    ∃ t, run scriptStep {}
        [.enqueueInstruction 1 10, .shutdown, .init, .enqueueInstruction 2 20, .tick] = some t
      ∧ t.executed = [(⟨1, 10⟩, some 0)] ∧ t.due = [1] ∧ ¬ ExecutedInOrder t := by
  have hrun : (run scriptStep {}
      [.enqueueInstruction 1 10, .shutdown, .init, .enqueueInstruction 2 20, .tick]).map
        (fun t => (t.executed, t.due)) = some ([(⟨1, 10⟩, some 0)], [1]) := by decide +kernel
  obtain ⟨t, ht, hlog⟩ := Option.map_eq_some_iff.mp hrun
  have hexec : t.executed = [(⟨1, 10⟩, some 0)] := congrArg Prod.fst hlog
  have hdue : t.due = [1] := congrArg Prod.snd hlog
  refine ⟨t, ht, hexec, hdue, fun h => ?_⟩
  have hcalls := h.calls
  rw [hexec, hdue] at hcalls
  exact absurd hcalls (by decide)

end TaktOS.Proof
