import TaktOS.Proof.EventQueue

/-!
# How much one `dispatchQueued` does

The loop of `dispatchQueued` runs until the queue is empty, and a callback may put events
into it. What a call dispatches is what was queued when it started and everything accepted
until it returns; so it is the deferred delivery of the header exactly when nothing is
accepted while it runs.

`InCall` is the shape of the stack while a call is in progress, with the number of tests its
delivery still has to make. The tests to come are a potential that only an accepted event
raises, which bounds the call and shows why nothing bounds it otherwise.
-/

namespace TaktOS.Proof

open TaktOS EventBus Lib

variable {κ υ : Type}

/-- Tests the loops of a call make for one event: each slot, the end of the table, the queue. -/
abbrev testsPerEvent : Nat := kMaxEventSubscribers + 2

/-- The step is a test of the loops of the call begun on a stack of `depth` frames. -/
def ownTest (depth : Nat) (e : Exec κ υ) : Act κ υ → Nat
  | .advance => if e.stack.length ≤ depth + 2 then 1 else 0
  | _ => 0

/-- How many tests the loops of the call make in a run; those of calls in callbacks apart. -/
def ownTests (depth : Nat) : Exec κ υ → List (Act κ υ) → Nat
  | _, [] => 0
  | e, a :: as =>
    ownTest depth e a +
      match e.step a with
      | none => 0
      | some e' => ownTests depth e' as

/-! ## The stack during a call -/

/-- A stack inside a `dispatchQueued` called on `base`, and the tests its delivery has left. -/
inductive InCall (base : List Frame) : List Frame → Nat → Prop
  | between : InCall base (.draining :: base) 0
  | scanning (call : Nat) (data : EventData) (i : Nat) (hi : i ≤ kMaxEventSubscribers) :
      InCall base (.scanning call data i :: .draining :: base) (kMaxEventSubscribers + 1 - i)
  | callback (above : List Frame) (call : Nat) (data : EventData) (i : Nat)
      (hi : i < kMaxEventSubscribers) :
      InCall base (above ++ .running call data i :: .draining :: base) (kMaxEventSubscribers - i)

theorem InCall.length_lt {base stack : List Frame} {r : Nat} (h : InCall base stack r) :
    base.length < stack.length := by
  cases h <;> simp only [List.length_append, List.length_cons] <;> omega

/-- Nothing below a running callback changes until it returns. -/
theorem effect_above {e e' : Exec κ υ} {a : Act κ υ} (h : Effect e a e') {above tail : List Frame}
    {call : Nat} {data : EventData} {i : Nat}
    (hs : e.stack = above ++ .running call data i :: tail) :
    (∃ above', e'.stack = above' ++ .running call data i :: tail) ∨
      a = .ret ∧ e'.stack = .scanning call data (i + 1) :: tail := by
  -- an innermost frame other than the callback's is above it
  have htop : ∀ {f : Frame} {rest : List Frame}, e.stack = f :: rest →
      f ≠ .running call data i → ∃ above', rest = above' ++ .running call data i :: tail := by
    intro f rest hf hne
    cases above with
    | nil => exact absurd (List.cons.inj (hf.symm.trans hs)).1 hne
    | cons g above' => exact ⟨above', (List.cons.inj (hf.symm.trans hs)).2⟩
  cases h with
  | idle | subscribed | removed | accepted => exact .inl ⟨above, hs⟩
  | published op hc d => exact .inl ⟨_ :: above, congrArg (List.cons _) hs⟩
  | draining => exact .inl ⟨_ :: above, congrArg (List.cons _) hs⟩
  | returned c d j rest hf =>
    cases above with
    | nil =>
      obtain ⟨hfr, hr⟩ := List.cons.inj (hf.symm.trans hs)
      obtain ⟨rfl, rfl, rfl⟩ := Frame.running.inj hfr
      exact .inr ⟨rfl, by rw [hr]⟩
    | cons g above' =>
      have hr : rest = above' ++ .running call data i :: tail :=
        (List.cons.inj (hf.symm.trans hs)).2
      exact .inl ⟨.scanning c d (j + 1) :: above', by simp [hr]⟩
  | dequeued rest hf =>
    obtain ⟨above', rfl⟩ := htop hf (by simp)
    exact .inl ⟨_ :: .draining :: above', rfl⟩
  | drained rest hf => exact .inl (htop hf (by simp))
  | invoked c d j rest hf | passed c d j rest hf =>
    obtain ⟨above', rfl⟩ := htop hf (by simp)
    exact .inl ⟨_ :: above', rfl⟩
  | finished c d j rest hf => exact .inl (htop hf (by simp))

/-! ## The potential -/

/-- The queue grows by no more than is accepted. -/
theorem effect_load {e e' : Exec κ υ} {a : Act κ υ} (h : Effect e a e') :
    e'.bus.queueCount + (acceptedEvents e.log).length ≤
      e.bus.queueCount + (acceptedEvents e'.log).length := by
  cases h with
  | idle | draining | returned | drained => exact Nat.le_refl _
  | subscribed | removed | published | invoked | passed | finished =>
    simp [acceptedEvents_append, acceptedEntry, fillSlot, clearSlot, Exec.dispatch]
  | accepted op hc data bus hq =>
    have hn : bus.queueCount = e.bus.queueCount + 1 := by
      rw [enqueue, if_neg (by have := enqueue_true hq; omega)] at hq
      exact (Prod.mk.inj hq).2 ▸ rfl
    simp [acceptedEvents_append, acceptedEntry, hn]
    omega
  | dequeued =>
    simp [acceptedEvents_append, acceptedEntry, Exec.dispatch, dequeue]

/-- The tests a call has yet to make, the next test of the queue included. -/
def testsLeft (e : Exec κ υ) (r : Nat) : Nat := r + testsPerEvent * e.bus.queueCount + 1

/-- With the queue's loop in control the step is its test. -/
theorem draining_effect {e e' : Exec κ υ} {a : Act κ υ} {rest : List Frame}
    (h : Effect e a e') (hs : e.stack = .draining :: rest) :
    a = .advance ∧ acceptedEvents e'.log = acceptedEvents e.log ∧
      (e'.bus.queueCount + 1 = e.bus.queueCount ∧
          (∃ data, e'.stack = .scanning e.log.length data 0 :: .draining :: rest) ∨
        e.bus.queueCount = 0 ∧ e'.bus.queueCount = 0 ∧ e'.stack = rest) := by
  cases h with
  | idle op hc | subscribed op hc | removed op hc | published op hc | accepted op hc
  | draining op hc => simp [Exec.clientActs, hs] at hc
  | dequeued rest' hf hn =>
    obtain ⟨-, rfl⟩ := List.cons.inj (hf.symm.trans hs)
    refine ⟨rfl, by simp [acceptedEvents_append, acceptedEntry, Exec.dispatch], .inl ⟨?_, _, rfl⟩⟩
    simp only [Exec.dispatch, dequeue]
    omega
  | drained rest' hf hn =>
    obtain ⟨-, rfl⟩ := List.cons.inj (hf.symm.trans hs)
    exact ⟨rfl, rfl, .inr ⟨hn, hn, rfl⟩⟩
  | returned c d j rest' hf | invoked c d j rest' hf | passed c d j rest' hf
  | finished c d j rest' hf => exact absurd (List.cons.inj (hf.symm.trans hs)).1 (by simp)

/-- With a delivery's loop in control the step is its test. -/
theorem scanning_effect {e e' : Exec κ υ} {a : Act κ υ} {call i : Nat} {data : EventData}
    {rest : List Frame} (h : Effect e a e') (hs : e.stack = .scanning call data i :: rest) :
    a = .advance ∧ acceptedEvents e'.log = acceptedEvents e.log ∧ e'.bus = e.bus ∧
      (i < kMaxEventSubscribers ∧
          (e'.stack = .running call data i :: rest ∨
            e'.stack = .scanning call data (i + 1) :: rest) ∨
        kMaxEventSubscribers ≤ i ∧ e'.stack = rest) := by
  cases h with
  | idle op hc | subscribed op hc | removed op hc | published op hc | accepted op hc
  | draining op hc => simp [Exec.clientActs, hs] at hc
  | dequeued rest' hf | drained rest' hf | returned c d j rest' hf =>
    exact absurd (List.cons.inj (hf.symm.trans hs)).1 (by simp)
  | invoked c d j rest' hf =>
    obtain ⟨hfr, rfl⟩ := List.cons.inj (hf.symm.trans hs)
    obtain ⟨rfl, rfl, rfl⟩ := Frame.scanning.inj hfr
    exact ⟨rfl, by simp [acceptedEvents_append, acceptedEntry], rfl, .inl ⟨j.isLt, .inl rfl⟩⟩
  | passed c d j rest' hf =>
    obtain ⟨hfr, rfl⟩ := List.cons.inj (hf.symm.trans hs)
    obtain ⟨rfl, rfl, rfl⟩ := Frame.scanning.inj hfr
    exact ⟨rfl, by simp [acceptedEvents_append, acceptedEntry], rfl, .inl ⟨j.isLt, .inr rfl⟩⟩
  | finished c d j rest' hf hj =>
    obtain ⟨hfr, rfl⟩ := List.cons.inj (hf.symm.trans hs)
    obtain ⟨rfl, rfl, rfl⟩ := Frame.scanning.inj hfr
    exact ⟨rfl, by simp [acceptedEvents_append, acceptedEntry], rfl, .inr ⟨hj, rfl⟩⟩

/-- What runs in a callback of the call, or deeper, is no test of the call itself. -/
theorem ownTest_callback {e e' : Exec κ υ} {a : Act κ υ} {above base : List Frame}
    {call i : Nat} {data : EventData} (h : Effect e a e')
    (hs : e.stack = above ++ .running call data i :: .draining :: base) :
    ownTest base.length e a = 0 := by
  cases a with
  | call op => rfl
  | ret => rfl
  | advance =>
    rw [ownTest, if_neg]
    intro hle
    have hnil : above = [] := by
      rw [hs] at hle
      simp only [List.length_append, List.length_cons] at hle
      exact List.length_eq_zero_iff.mp (by omega)
    subst hnil
    -- the callback is innermost, so no loop is in control
    cases h with
    | dequeued rest' hf | drained rest' hf | invoked c d j rest' hf | passed c d j rest' hf
    | finished c d j rest' hf => exact absurd (List.cons.inj (hf.symm.trans hs)).1 (by simp)

/-- **A test of the call uses up one of those left; only an accepted event adds to them.** -/
theorem InCall.step {base : List Frame} {e e' : Exec κ υ} {a : Act κ υ} {r : Nat}
    (hin : InCall base e.stack r) (h : Effect e a e') :
    (∃ r', InCall base e'.stack r' ∧
        ownTest base.length e a + testsLeft e' r' +
            testsPerEvent * (acceptedEvents e.log).length ≤
          testsLeft e r + testsPerEvent * (acceptedEvents e'.log).length) ∨
      e'.stack = base ∧ e'.bus.queueCount = 0 ∧ ownTest base.length e a ≤ testsLeft e r ∧
        acceptedEvents e'.log = acceptedEvents e.log := by
  have hload := effect_load h
  have hown : ownTest base.length e a ≤ 1 := by
    cases a with
    | advance => rw [ownTest]; split <;> omega
    | call | ret => exact Nat.zero_le 1
  generalize hs : e.stack = stack at hin
  cases hin with
  | between =>
    obtain ⟨-, hacc, ⟨hq, data, hst⟩ | ⟨-, hq, hst⟩⟩ := draining_effect h hs
    · rw [hst]
      refine .inl ⟨_, .scanning _ data 0 (Nat.zero_le _), ?_⟩
      rw [hacc]
      simp only [testsLeft, testsPerEvent, kMaxEventSubscribers]
      omega
    · exact .inr ⟨hst, hq, by rw [testsLeft]; omega, hacc⟩
  | scanning call data i hi =>
    obtain ⟨-, hacc, hb, ⟨hlt, hst | hst⟩ | ⟨hge, hst⟩⟩ := scanning_effect h hs
    · rw [hst]
      refine .inl ⟨_, .callback [] call data i hlt, ?_⟩
      rw [hacc, testsLeft, testsLeft, hb]
      omega
    · rw [hst]
      refine .inl ⟨_, .scanning call data (i + 1) hlt, ?_⟩
      rw [hacc, testsLeft, testsLeft, hb]
      omega
    · rw [hst]
      refine .inl ⟨_, .between, ?_⟩
      rw [hacc, testsLeft, testsLeft, hb]
      omega
  | callback above call data i hi =>
    have hzero := ownTest_callback h hs
    rcases effect_above h hs with ⟨above', hst⟩ | ⟨-, hst⟩
    · rw [hst]
      refine .inl ⟨_, .callback above' call data i hi, ?_⟩
      simp only [testsLeft, testsPerEvent, kMaxEventSubscribers] at hi ⊢
      omega
    · rw [hst]
      refine .inl ⟨_, .scanning call data (i + 1) hi, ?_⟩
      simp only [testsLeft, testsPerEvent, kMaxEventSubscribers] at hi ⊢
      omega
/-! ## A run of a call -/

/-- **The tests a call makes in a run are bounded by what it finds and what is accepted.** -/
theorem InCall.run {base : List Frame} {acts : List (Act κ υ)} :
    ∀ {e e' : Exec κ υ} {r : Nat}, InCall base e.stack r →
      Along Exec.step (fun s _ => base.length < s.stack.length) e acts →
      Lib.run Exec.step e acts = some e' →
      ownTests base.length e acts + testsPerEvent * (acceptedEvents e.log).length ≤
          testsLeft e r + testsPerEvent * (acceptedEvents e'.log).length ∧
        ((∃ r', InCall base e'.stack r') ∨ e'.stack = base ∧ e'.bus.queueCount = 0) := by
  induction acts with
  | nil =>
    intro e e' r hin _ hr
    rw [Lib.run] at hr
    rw [← Option.some.inj hr, ownTests]
    exact ⟨by omega, .inl ⟨r, hin⟩⟩
  | cons a as ih =>
    intro e e' r hin hal hr
    obtain ⟨s, hs, hr'⟩ := run_cons_some hr
    rw [ownTests, hs]
    dsimp only
    rcases hin.step (step_effect hs) with ⟨r', hin', hle⟩ | ⟨hst, hq, hle, hacc⟩
    · obtain ⟨hle', hend⟩ := ih hin' (hal.2 s hs) hr'
      refine ⟨?_, hend⟩
      omega
    · -- the call has returned, so the run of it ends here
      cases as with
      | nil =>
        rw [Lib.run] at hr'
        rw [← Option.some.inj hr', ownTests, hacc]
        exact ⟨by omega, .inr ⟨hst, hq⟩⟩
      | cons b bs =>
        have hlt : base.length < s.stack.length := (hal.2 s hs).1
        rw [hst] at hlt
        exact absurd hlt (Nat.lt_irrefl _)

/-- What the log says has happened since an earlier state. -/
def since (e₀ e : Exec κ υ) : List (Entry κ υ) := e.log.drop e₀.log.length

theorem effect_log {e e' : Exec κ υ} {a : Act κ υ} (h : Effect e a e') : e.log <+: e'.log := by
  cases h with
  | idle | draining | returned | drained => exact List.prefix_refl _
  | subscribed | removed | published | accepted | dequeued | invoked | passed | finished =>
    exact List.prefix_append _ _

theorem run_log {e e' : Exec κ υ} {acts : List (Act κ υ)} (h : run Exec.step e acts = some e') :
    e'.log = e.log ++ since e e' := by
  have hp : e.log <+: e'.log := run_preserves (fun s => e.log <+: s.log)
    (fun _ _ _ hi hs => hi.trans (effect_log (step_effect hs))) (List.prefix_refl _) h
  rw [since]
  obtain ⟨new, hn⟩ := hp
  rw [← hn, List.drop_left]

/-- Over any run the events dispatched come from the queue and from what was accepted. -/
theorem run_fifo {e e' : Exec κ υ} {acts : List (Act κ υ)} (hq : QueueLaw e)
    (h : run Exec.step e acts = some e') :
    pending e.bus ++ acceptedEvents (since e e') =
      dispatchedEvents (since e e') ++ pending e'.bus := by
  have hfifo := (run_queueLaw hq h).fifo
  rw [run_log h, acceptedEvents, dispatchedEvents, List.filterMap_append, List.filterMap_append,
    ← acceptedEvents, ← acceptedEvents, ← dispatchedEvents, ← dispatchedEvents, hq.fifo,
    List.append_assoc, List.append_assoc] at hfifo
  exact List.append_cancel_left hfifo

/-! ## Callbacks that return -/

/--
The call of `dispatchQueued` on a stack of `depth` frames, when `body` says what a callback
does until it returns: up to `turns` turns, each a test of a loop or a whole callback.
-/
def play (body : Exec κ υ → List (Act κ υ)) (depth : Nat) : Nat → Exec κ υ → Option (Exec κ υ)
  | 0, e => some e
  | turns + 1, e =>
    if e.stack.length ≤ depth then some e
    else
      match if e.clientActs then run Exec.step e (body e) else e.step .advance with
      | none => none
      | some e' => play body depth turns e'

/-- Every callback that the call begun in `e₁` invokes returns, with nothing accepted. -/
def CallbacksReturn (base : List Frame) (e₁ : Exec κ υ) (body : Exec κ υ → List (Act κ υ)) : Prop :=
  ∀ (acts : List (Act κ υ)) (e : Exec κ υ) (call : Nat) (data : EventData) (i : Nat),
    run Exec.step e₁ acts = some e → e.stack = .running call data i :: .draining :: base →
    ∃ e', run Exec.step e (body e) = some e' ∧
      e'.stack = .scanning call data (i + 1) :: .draining :: base ∧
      acceptedEvents e'.log = acceptedEvents e.log

/-- A stack at a turn of the call, and the turns its delivery may still take. -/
inductive AtTurn (base : List Frame) : List Frame → Nat → Prop
  | between : AtTurn base (.draining :: base) 0
  | scanning (call : Nat) (data : EventData) (i : Nat) (hi : i ≤ kMaxEventSubscribers) :
      AtTurn base (.scanning call data i :: .draining :: base)
        (2 * (kMaxEventSubscribers + 1 - i))
  | callback (call : Nat) (data : EventData) (i : Nat) (hi : i < kMaxEventSubscribers) :
      AtTurn base (.running call data i :: .draining :: base)
        (2 * (kMaxEventSubscribers + 1 - i) - 1)

theorem AtTurn.length_lt {base stack : List Frame} {r : Nat} (h : AtTurn base stack r) :
    base.length < stack.length := by
  cases h <;> simp only [List.length_cons] <;> omega

theorem run_load {e e' : Exec κ υ} {acts : List (Act κ υ)} (h : run Exec.step e acts = some e')
    (hacc : acceptedEvents e'.log = acceptedEvents e.log) :
    e'.bus.queueCount ≤ e.bus.queueCount := by
  have hle := run_preserves (fun s => s.bus.queueCount + (acceptedEvents e.log).length ≤
      e.bus.queueCount + (acceptedEvents s.log).length)
    (fun _ _ _ hi hs => by have := effect_load (step_effect hs); omega) (Nat.le_refl _) h
  rw [hacc] at hle
  omega

/-- The turns a call may still take. -/
def turnsLeft (e : Exec κ υ) (r : Nat) : Nat := r + 2 * testsPerEvent * e.bus.queueCount + 1

/-- The outcome of a turn: the call has returned, or it has fewer turns left. -/
structure TurnEnds (base : List Frame) (e₁ e e' : Exec κ υ) (left : Nat) : Prop where
  reached : ∃ acts, run Exec.step e₁ acts = some e'
  accepted : acceptedEvents e'.log = acceptedEvents e.log
  next : (e'.stack = base ∧ e'.bus.queueCount = 0) ∨
    ∃ r, AtTurn base e'.stack r ∧ turnsLeft e' r < left

theorem advance_turn {base : List Frame} {e₁ e : Exec κ υ} {acts : List (Act κ υ)}
    {body : Exec κ υ → List (Act κ υ)} {left : Nat} (hr : run Exec.step e₁ acts = some e)
    (hc : e.clientActs = false) {e' : Exec κ υ} (hs : e.step .advance = some e')
    (hacc : acceptedEvents e'.log = acceptedEvents e.log)
    (hnext : (e'.stack = base ∧ e'.bus.queueCount = 0) ∨
      ∃ r, AtTurn base e'.stack r ∧ turnsLeft e' r < left) :
    ∃ e', (if e.clientActs then run Exec.step e (body e) else e.step .advance) = some e' ∧
      TurnEnds base e₁ e e' left := by
  refine ⟨e', by rw [hc]; exact hs, ⟨acts ++ [.advance], ?_⟩, hacc, hnext⟩
  rw [run_append hr, run, hs]
  rfl

/-- **Each turn uses up one of those left.** -/
theorem AtTurn.step {base : List Frame} {e₁ e : Exec κ υ} {acts : List (Act κ υ)}
    {body : Exec κ υ → List (Act κ υ)} {r : Nat} (hbody : CallbacksReturn base e₁ body)
    (hr : run Exec.step e₁ acts = some e) (hat : AtTurn base e.stack r) :
    ∃ e', (if e.clientActs then run Exec.step e (body e) else e.step .advance) = some e' ∧
      TurnEnds base e₁ e e' (turnsLeft e r) := by
  generalize hst : e.stack = stack at hat
  cases hat with
  | between =>
    have hc : e.clientActs = false := by rw [Exec.clientActs, hst]
    have hs : e.step .advance = some (e.drain base) := by rw [Exec.step, hst]
    obtain ⟨-, hacc, ⟨hq, data, hst'⟩ | ⟨-, hq, hst'⟩⟩ := draining_effect (step_effect hs) hst
    · refine advance_turn hr hc hs hacc (.inr ?_)
      rw [hst']
      refine ⟨_, .scanning _ data 0 (Nat.zero_le _), ?_⟩
      simp only [turnsLeft, testsPerEvent, kMaxEventSubscribers]
      omega
    · exact advance_turn hr hc hs hacc (.inl ⟨hst', hq⟩)
  | scanning call data i hi =>
    have hc : e.clientActs = false := by rw [Exec.clientActs, hst]
    have hs : e.step .advance = some (e.scan call data i (.draining :: base)) := by
      rw [Exec.step, hst]
    obtain ⟨-, hacc, hb, ⟨hlt, hst' | hst'⟩ | ⟨hge, hst'⟩⟩ := scanning_effect (step_effect hs) hst
    · refine advance_turn hr hc hs hacc (.inr ?_)
      rw [hst']
      refine ⟨_, .callback call data i hlt, ?_⟩
      simp only [turnsLeft, testsPerEvent, kMaxEventSubscribers, hb] at hlt ⊢
      omega
    · refine advance_turn hr hc hs hacc (.inr ?_)
      rw [hst']
      refine ⟨_, .scanning call data (i + 1) hlt, ?_⟩
      simp only [turnsLeft, testsPerEvent, kMaxEventSubscribers, hb] at hlt ⊢
      omega
    · refine advance_turn hr hc hs hacc (.inr ?_)
      rw [hst']
      refine ⟨_, .between, ?_⟩
      simp only [turnsLeft, testsPerEvent, kMaxEventSubscribers, hb] at hi ⊢
      omega
  | callback call data i hi =>
    have hc : e.clientActs = true := by rw [Exec.clientActs, hst]
    obtain ⟨e', hrun, hst', hacc⟩ := hbody acts e call data i hr hst
    have hq := run_load hrun hacc
    refine ⟨e', by rw [hc]; exact hrun, ⟨acts ++ body e, by rw [run_append hr, hrun]⟩, hacc,
      .inr ?_⟩
    rw [hst']
    refine ⟨_, .scanning call data (i + 1) hi, ?_⟩
    simp only [turnsLeft, testsPerEvent, kMaxEventSubscribers] at hi ⊢
    omega

/-- **A call whose callbacks return, with nothing accepted, returns.** -/
theorem play_returns {base : List Frame} {e₁ : Exec κ υ} {body : Exec κ υ → List (Act κ υ)}
    (hbody : CallbacksReturn base e₁ body) (turns : Nat) :
    ∀ {e : Exec κ υ} {acts : List (Act κ υ)} {r : Nat}, run Exec.step e₁ acts = some e →
      AtTurn base e.stack r → turnsLeft e r ≤ turns →
      ∃ e' acts', play body base.length turns e = some e' ∧
        run Exec.step e₁ acts' = some e' ∧ e'.stack = base ∧ e'.bus.queueCount = 0 ∧
        acceptedEvents e'.log = acceptedEvents e.log := by
  induction turns with
  | zero => intro e acts r _ _ hle; rw [turnsLeft] at hle; omega
  | succ turns ih =>
    intro e acts r hr hat hle
    obtain ⟨e', hturn, ⟨acts', hr'⟩, hacc, hnext⟩ := hat.step hbody hr
    have hlt := hat.length_lt
    rw [play, if_neg (by omega), hturn]
    rcases hnext with ⟨hst, hq⟩ | ⟨r', hat', hlt'⟩
    · refine ⟨e', acts', ?_, hr', hst, hq, hacc⟩
      cases turns with
      | zero => rfl
      | succ n => dsimp only; rw [play, if_pos (Nat.le_of_eq (congrArg _ hst))]
    · obtain ⟨e'', acts'', hp, hr'', hst, hq, hacc'⟩ := ih hr' hat' (by omega)
      exact ⟨e'', acts'', hp, hr'', hst, hq, hacc'.trans hacc⟩

/-! ## Deferred delivery -/

/-- From `e₀` to `e` the queue of `e₀` was dispatched, and what was accepted since is queued. -/
structure Deferred (e₀ e : Exec κ υ) : Prop where
  dispatched : dispatchedEvents (since e₀ e) = pending e₀.bus
  kept : pending e.bus = acceptedEvents (since e₀ e)

theorem pending_eq_nil {bus : EventBus κ υ} (h : bus.queueCount = 0) : pending bus = [] := by
  rw [pending, h, Ring.contents_zero]

theorem deferred_iff {e₀ e : Exec κ υ} (hend : e.bus.queueCount = 0)
    (hfifo : pending e₀.bus ++ acceptedEvents (since e₀ e) =
      dispatchedEvents (since e₀ e) ++ pending e.bus) :
    Deferred e₀ e ↔ acceptedEvents (since e₀ e) = [] := by
  rw [pending_eq_nil hend, List.append_nil] at hfifo
  constructor
  · intro h; rw [← h.kept, pending_eq_nil hend]
  · intro h
    rw [h, List.append_nil] at hfifo
    exact ⟨hfifo.symm, by rw [pending_eq_nil hend, h]⟩

/-- Calling `dispatchQueued` touches neither the queue nor the log. -/
theorem dispatchQueued_call {e₀ e₁ : Exec κ υ} (h : e₀.step (.call .dispatchQueued) = some e₁) :
    e₁ = { e₀ with stack := .draining :: e₀.stack } := by
  rw [Exec.step] at h
  split at h
  · exact (Option.some.inj h).symm
  · exact absurd h (by simp)

/--
**A call of `dispatchQueued` is deferred delivery exactly when nothing is accepted while it
runs.** A finished call delivers the queue it found and keeps the rest just then; one in
which nothing is accepted makes no more tests than the queue it found allows; and one whose
callbacks all return, accepting nothing, returns.
-/
theorem dispatchQueued_deferred_iff {acts₀ : List (Act κ υ)} {e₀ e₁ : Exec κ υ}
    (h₀ : run Exec.step {} acts₀ = some e₀)
    (hcall : e₀.step (.call .dispatchQueued) = some e₁) :
    (∀ (acts : List (Act κ υ)) (e : Exec κ υ),
      Along Exec.step (fun s _ => e₀.stack.length < s.stack.length) e₁ acts →
      run Exec.step e₁ acts = some e →
        (e.stack = e₀.stack → (Deferred e₀ e ↔ acceptedEvents (since e₀ e) = [])) ∧
        (acceptedEvents (since e₀ e) = [] →
          dispatchedEvents (since e₀ e) ++ pending e.bus = pending e₀.bus ∧
          ownTests e₀.stack.length e₁ acts ≤ testsPerEvent * (pending e₀.bus).length + 1)) ∧
    ∀ body, CallbacksReturn e₀.stack e₁ body →
      ∃ turns e, play body e₀.stack.length turns e₁ = some e ∧ e.stack = e₀.stack ∧
        Deferred e₀ e := by
  have hq₀ : QueueLaw e₀ := run_queueLaw fresh_queueLaw h₀
  have he₁ := dispatchQueued_call hcall
  -- the state after the call has the queue and the log of the state before it
  have hsince : ∀ e, since e₁ e = since e₀ e := fun e => by rw [since, since, he₁]
  have hpend : pending e₁.bus = pending e₀.bus := by rw [he₁]
  have hq₁ : QueueLaw e₁ := effect_queueLaw (step_effect hcall) hq₀
  have hfifo : ∀ {acts e}, run Exec.step e₁ acts = some e →
      pending e₀.bus ++ acceptedEvents (since e₀ e) =
        dispatchedEvents (since e₀ e) ++ pending e.bus := by
    intro acts e hr
    have h := run_fifo hq₁ hr
    rwa [hsince, hpend] at h
  constructor
  · intro acts e hal hr
    have hin : InCall e₀.stack e₁.stack 0 := by rw [he₁]; exact .between
    obtain ⟨hle, hend⟩ := hin.run hal hr
    constructor
    · intro hst
      rcases hend with ⟨r, hin'⟩ | ⟨-, hz⟩
      · have hlt := hin'.length_lt
        rw [hst] at hlt
        exact absurd hlt (Nat.lt_irrefl _)
      · exact deferred_iff hz (hfifo hr)
    · intro hnil
      refine ⟨by rw [← hfifo hr, hnil, List.append_nil], ?_⟩
      have hlog : acceptedEvents e.log = acceptedEvents e₁.log := by
        rw [run_log hr, hsince, acceptedEvents, List.filterMap_append, ← acceptedEvents,
          ← acceptedEvents, hnil, List.append_nil]
      have hcount : e₁.bus.queueCount = (pending e₀.bus).length := by
        rw [he₁, pending, Ring.contents_length]
      rw [hlog, testsLeft, hcount] at hle
      omega
  · intro body hbody
    have hat : AtTurn e₀.stack e₁.stack 0 := by rw [he₁]; exact .between
    have hr₀ : run Exec.step e₁ [] = some e₁ := rfl
    obtain ⟨e, acts, hp, hr, hst, hz, hacc⟩ :=
      play_returns hbody (turnsLeft e₁ 0) hr₀ hat (Nat.le_refl _)
    refine ⟨_, e, hp, hst, (deferred_iff hz (hfifo hr)).mpr ?_⟩
    rw [run_log hr, hsince, acceptedEvents, List.filterMap_append] at hacc
    exact List.append_cancel_left (hacc.trans (List.append_nil _).symm)

/-- Callbacks that return at once do return. -/
theorem callbacksReturn_ret (base : List Frame) (e₁ : Exec κ υ) :
    CallbacksReturn base e₁ fun _ => [.ret] := by
  intro acts e call data i _ hs
  refine ⟨{ e with stack := .scanning call data (i + 1) :: .draining :: base }, ?_, rfl, rfl⟩
  simp [run, Exec.step, hs]

/-- One event for one subscriber, whose callback returns at once. -/
theorem dispatchQueued_deferred_one : ∃ e₀ e₁ : Exec Nat Nat,
    run Exec.step {} [.call (.subscribe 5 (some 7) none), .call (.enqueue { id := 5 })] = some e₀ ∧
    e₀.step (.call .dispatchQueued) = some e₁ ∧
    ∃ turns e, play (fun _ => [.ret]) 0 turns e₁ = some e ∧ Deferred e₀ e := by
  have h₀ : run Exec.step ({} : Exec Nat Nat)
      [.call (.subscribe 5 (some 7) none), .call (.enqueue { id := 5 })] = some _ := rfl
  obtain ⟨turns, e, hp, -, hd⟩ :=
    (dispatchQueued_deferred_iff h₀ rfl).2 _ (callbacksReturn_ret _ _)
  exact ⟨_, _, h₀, rfl, turns, e, hp, hd⟩

/-! ## A call that does not return -/

/-- A run from one state to another in which the call on a stack of `depth` frames goes on. -/
def Goes (depth : Nat) (e e' : Exec κ υ) : Prop :=
  ∃ acts, run Exec.step e acts = some e' ∧
    Along Exec.step (fun s _ => depth < s.stack.length) e acts

theorem Goes.one {depth : Nat} {e e' : Exec κ υ} {a : Act κ υ} (hs : e.step a = some e')
    (hd : depth < e.stack.length) : Goes depth e e' :=
  ⟨[a], by rw [run, hs]; rfl, ⟨hd, fun _ _ => trivial⟩⟩

theorem Goes.trans {depth : Nat} {e e' e'' : Exec κ υ} (h : Goes depth e e')
    (h' : Goes depth e' e'') : Goes depth e e'' := by
  obtain ⟨acts, hr, hal⟩ := h
  obtain ⟨acts', hr', hal'⟩ := h'
  exact ⟨acts ++ acts', by rw [run_append hr, hr'], hal.append hr hal'⟩

/-- A delivery goes past slots that are not active and returns. -/
theorem scan_inactive {depth : Nat} {below : List Frame} (hd : depth ≤ below.length) (n : Nat) :
    ∀ {e : Exec κ υ} {call i : Nat} {data : EventData},
      e.stack = .scanning call data i :: below → kMaxEventSubscribers - i ≤ n →
      (∀ j : Slot, i ≤ j.val → (e.bus.subscription j).active = false) →
      ∃ e', Goes depth e e' ∧ e'.stack = below ∧ e'.bus = e.bus ∧
        dispatchedEvents e'.log = dispatchedEvents e.log := by
  have hlt : ∀ {e : Exec κ υ} {f : Frame}, e.stack = f :: below → depth < e.stack.length := by
    intro e f hs
    rw [hs, List.length_cons]
    omega
  -- at the end of the table the delivery returns
  have hfin : ∀ {e : Exec κ υ} {call i : Nat} {data : EventData},
      e.stack = .scanning call data i :: below → kMaxEventSubscribers ≤ i →
      ∃ e', Goes depth e e' ∧ e'.stack = below ∧ e'.bus = e.bus ∧
        dispatchedEvents e'.log = dispatchedEvents e.log := by
    intro e call i data hs hi
    have hstep : e.step .advance =
        some { e with stack := below, log := e.log ++ [.finished call] } := by
      rw [Exec.step, hs]
      dsimp only
      rw [Exec.scan, dif_neg (by omega)]
    exact ⟨_, .one hstep (hlt hs), rfl, rfl, by simp [dispatchedEvents_append, dequeuedEntry]⟩
  induction n with
  | zero => intro e call i data hs hn _; exact hfin hs (by omega)
  | succ n ih =>
    intro e call i data hs hn hidle
    rcases Nat.lt_or_ge i kMaxEventSubscribers with hi | hi
    · have ha : (e.bus.subscription ⟨i, hi⟩).active = false := hidle ⟨i, hi⟩ (Nat.le_refl i)
      have hstep : e.step .advance = some { e with
          stack := .scanning call data (i + 1) :: below
          log := e.log ++ [.passed call ⟨i, hi⟩] } := by
        rw [Exec.step, hs]
        dsimp only
        rw [Exec.scan, dif_pos hi]
        simp only [ha, Bool.false_and]
      obtain ⟨e', hgo, hst, hb, hd'⟩ := ih (e := { e with
          stack := .scanning call data (i + 1) :: below
          log := e.log ++ [.passed call ⟨i, hi⟩] }) rfl (by omega) fun j hj => hidle j (by omega)
      refine ⟨e', (Goes.one hstep (hlt hs)).trans hgo, hst, hb, ?_⟩
      rw [hd', dispatchedEvents_append]
      simp [dequeuedEntry]
    · exact hfin hs hi

/-- One event queued, slot 0 alone subscribed to it, and the call about to test the queue. -/
structure Feeding (data : EventData) (e : Exec κ υ) : Prop where
  law : QueueLaw e
  queued : pending e.bus = [data]
  first : ∃ callback userData,
    e.bus.subscription 0 =
      { event := data.id, callback := some callback, userData, active := true }
  rest : ∀ i : Slot, 1 ≤ i.val → (e.bus.subscription i).active = false
  stack : e.stack = [.draining]

/-- **A callback that puts its event back leaves the call where it began, one event on.** -/
theorem feeding_cycle {data : EventData} {e : Exec κ υ} (h : Feeding data e) :
    ∃ e', Goes 0 e e' ∧ Feeding data e' ∧
      (dispatchedEvents e'.log).length = (dispatchedEvents e.log).length + 1 := by
  obtain ⟨callback, userData, hfirst⟩ := h.first
  have hn : 0 < e.bus.queueCount := by
    have hlen := congrArg List.length h.queued
    rw [pending, Ring.contents_length] at hlen
    exact hlen ▸ Nat.zero_lt_one
  obtain ⟨-, hpop⟩ := dequeue_spec h.law.placed hn
  rw [h.queued] at hpop
  obtain ⟨hdata, hempty⟩ := List.cons.inj hpop
  let e₁ := { e with bus := e.bus.dequeue.2 }.dispatch data true [.draining]
  have h₁ : e.step .advance = some e₁ := by
    rw [Exec.step, h.stack]
    dsimp only
    rw [Exec.drain, if_pos hn]
    exact congrArg (fun d => some (Exec.dispatch _ d true _)) hdata.symm
  let e₂ : Exec κ υ := { e₁ with
    stack := [.running e.log.length data 0, .draining]
    log := e₁.log ++ [.invoked e.log.length 0 (e.owner 0) callback userData] }
  have h₂ : e₁.step .advance = some e₂ := by
    have hs : e.bus.dequeue.2.subscription 0 =
      { event := data.id, callback := some callback, userData, active := true } := hfirst
    simp [e₁, e₂, Exec.step, Exec.scan, Exec.dispatch, hs]
  have hlaw₁ : QueueLaw e₁ := effect_queueLaw (step_effect h₁) h.law
  have hlaw₂ : QueueLaw e₂ := effect_queueLaw (step_effect h₂) hlaw₁
  -- the queue is empty now, so the event is accepted
  have hroom : e₂.bus.queueCount < kEventQueueDepth := by
    have hlen := congrArg List.length hempty
    rw [pending, Ring.contents_length] at hlen
    exact hlen ▸ (by decide)
  obtain ⟨hok, -, hpush⟩ := enqueue_room data hlaw₂.placed hroom
  let e₃ : Exec κ υ := { e₂ with
    bus := (e₂.bus.enqueue data).2
    log := e₂.log ++ [.accepted data] }
  have h₃ : e₂.step (.call (.enqueue data)) = some e₃ := by
    rw [Exec.step, if_pos (show e₂.clientActs = true from rfl), Exec.call]
    cases hq : e₂.bus.enqueue data with
    | mk ok bus =>
      rw [hq] at hok
      simp only [e₃, hq, show ok = true from hok]
  let e₄ : Exec κ υ := { e₃ with stack := [.scanning e.log.length data 1, .draining] }
  have h₄ : e₃.step .ret = some e₄ := rfl
  have hlaw₃ : QueueLaw e₃ := effect_queueLaw (step_effect h₃) hlaw₂
  have hlaw₄ : QueueLaw e₄ := effect_queueLaw (step_effect h₄) hlaw₃
  have htable : e₄.bus.subscription = e.bus.subscription := by
    simp only [e₄, e₃, e₂, e₁, enqueue, if_neg (Nat.not_le.mpr hroom)]
    rfl
  have hs₄ : e₄.stack = .scanning e.log.length data 1 :: [.draining] := rfl
  obtain ⟨e₅, hgo, hst, hb, hd⟩ := scan_inactive (Nat.zero_le _) 31 hs₄ (Nat.le_refl _)
    fun j hj => by rw [htable]; exact h.rest j hj
  have hgoes : Goes 0 e e₅ :=
    (Goes.one h₁ (by simp [h.stack])).trans <| (Goes.one h₂ (by simp [e₁, Exec.dispatch])).trans <|
      (Goes.one h₃ (by simp [e₂])).trans <| (Goes.one h₄ (by simp [e₃, e₂])).trans hgo
  refine ⟨e₅, hgoes, ⟨?_, ?_, ?_, ?_, hst⟩, ?_⟩
  · obtain ⟨acts, hr, -⟩ := hgo
    exact run_queueLaw hlaw₄ hr
  · rw [hb]
    exact hpush.trans (congrArg (· ++ [data]) hempty.symm)
  · rw [hb, htable]
    exact h.first
  · rw [hb, htable]
    exact h.rest
  · rw [hd]
    simp [e₄, e₃, e₂, e₁, Exec.dispatch, dispatchedEvents, List.filterMap_append, dequeuedEntry]

/-- **Such a call has no end**: it dispatches any number of events and has not returned. -/
theorem dispatchQueued_endless {data : EventData} {e : Exec κ υ} (h : Feeding data e) (n : Nat) :
    ∃ e', Goes 0 e e' ∧ Feeding data e' ∧
      (dispatchedEvents e'.log).length = (dispatchedEvents e.log).length + n := by
  induction n with
  | zero => exact ⟨e, ⟨[], rfl, trivial⟩, h, rfl⟩
  | succ n ih =>
    obtain ⟨e', hgo, hf, hd⟩ := ih
    obtain ⟨e'', hgo', hf', hd'⟩ := feeding_cycle hf
    exact ⟨e'', hgo.trans hgo', hf', by omega⟩

/--
One event queued for one subscriber, whose callback enqueues it again each time: the call
dispatches more than the one event, any number of them, and has not returned after any.
-/
theorem dispatchQueued_cascades : ∃ e₀ e₁ : Exec Nat Nat,
    run Exec.step {} [.call (.subscribe 5 (some 7) none), .call (.enqueue { id := 5 })] = some e₀ ∧
    e₀.step (.call .dispatchQueued) = some e₁ ∧ pending e₀.bus = [{ id := 5 }] ∧
    ∀ n, ∃ e, Goes e₀.stack.length e₁ e ∧ e₀.stack.length < e.stack.length ∧
      (dispatchedEvents e.log).length = n := by
  have h₀ : run Exec.step ({} : Exec Nat Nat)
      [.call (.subscribe 5 (some 7) none), .call (.enqueue { id := 5 })] = some _ := rfl
  have hf : Feeding { id := 5 } (Exec.call (run Exec.step ({} : Exec Nat Nat)
      [.call (.subscribe 5 (some 7) none), .call (.enqueue { id := 5 })] |>.getD {})
        .dispatchQueued) := by
    refine ⟨?_, by decide, ⟨7, none, by decide⟩, by decide, rfl⟩
    exact effect_queueLaw (call_effect rfl _) (run_queueLaw fresh_queueLaw h₀)
  refine ⟨_, _, h₀, rfl, by decide, fun n => ?_⟩
  obtain ⟨e, hgo, hf', hd⟩ := dispatchQueued_endless hf n
  refine ⟨e, hgo, ?_, ?_⟩
  · rw [hf'.stack]
    decide
  · exact hd.trans (Nat.zero_add n)

end TaktOS.Proof
