import TaktOS.Proof.TimerRegistry

/-!
# Moves of a timer

A move takes the handle from the source and leaves the slot as it is, so the source is
registered without a handle: its destructor clears nothing, and the slot refers to a timer
that is gone. The next tick call that comes to the slot is undefined.
-/

namespace TaktOS.Proof

open TaktOS TimerManager Lib

variable {τ κ : Type}

/-- Move construction and move assignment. -/
inductive Move where
  | construct
  | assign

def Move.op (dst src : τ) (left : Option κ) : Move → Op τ κ
  | .construct => .moveConstruct dst src left
  | .assign => .moveAssign dst src left

/-- Whether there is a timer to move to is what tells the two apart. -/
def Move.Ready (s : Sys τ κ) (dst : τ) : Move → Prop
  | .construct => s.heap dst = none
  | .assign => s.heap dst ≠ none

def renameOp (f : τ → τ) : Op τ κ → Op τ κ
  | .construct t intervalMs repeat_ => .construct (f t) intervalMs repeat_
  | .destroy t => .destroy (f t)
  | .moveConstruct dst src left => .moveConstruct (f dst) (f src) left
  | .moveAssign dst src left => .moveAssign (f dst) (f src) left
  | .setInterval t intervalMs => .setInterval (f t) intervalMs
  | .setRepeat t repeat_ => .setRepeat (f t) repeat_
  | .onTimeout t callback => .onTimeout (f t) callback
  | .control o t => .control o (f t)
  | .tick deltaMs => .tick deltaMs

def rename (f : τ → τ) : Act τ κ → Act τ κ
  | .call op => .call (renameOp f op)
  | .ret => .ret
  | .advance => .advance

/-- The timers that a client names. -/
def named : Act τ κ → List τ
  | .call (.construct t ..) | .call (.destroy t) | .call (.setInterval t _)
  | .call (.setRepeat t _) | .call (.onTimeout t _) | .call (.control _ t) => [t]
  | .call (.moveConstruct dst src _) | .call (.moveAssign dst src _) => [dst, src]
  | .call (.tick _) | .ret | .advance => []

section Steps

variable [DecidableEq τ] {s s' r r' : Sys τ κ}

/-- From `s'` on `dst` fires as `src` does from `s` on, in the same tick calls. -/
def SameFirings (s s' : Sys τ κ) (src dst : τ) : Prop :=
  ∀ acts r, (∀ a ∈ acts, dst ∉ named a) → run Sys.step s acts = some r →
    ∃ r', run Sys.step s' (acts.map (rename fun u => if u = src then dst else u)) = some r' ∧
      firings dst (r'.log.drop s'.log.length) = firings src (r.log.drop s.log.length)

/-- `s'` is what a move of `src` to `dst` should make of `s`. -/
structure TransparentMove (s s' : Sys τ κ) (src dst : τ) : Prop where
  unreferred : ∀ i, s'.manager.slot i ≠ some src
  same : SameFirings s s' src dst

/-! ## The slot after the move -/

theorem unregisterTimer_stale {m : TimerManager τ} {heap : Heap τ κ} {t : τ} {timer : Timer κ}
    (h : timer.handle = 0xFFFF) : m.unregisterTimer heap t timer = (m, heap) := by
  rw [unregisterTimer, h]
  exact if_neg fun hlt => absurd hlt.1 (by decide)

theorem unregisterTimer_other {m : TimerManager τ} {heap : Heap τ κ} {t u : τ}
    {timer : Timer κ} {i : Nat} (hi : m.slot i = some u) (hne : u ≠ t) :
    (m.unregisterTimer heap t timer).1.slot i = some u := by
  rw [unregisterTimer]
  dsimp only
  split
  · rename_i hreg
    have hslot := slot_setSlot m hreg.1 i none
    have hne' : i ≠ timer.handle.toNat := by
      rintro rfl
      exact hne (Option.some.inj (hi.symm.trans hreg.2))
    rw [if_neg hne'] at hslot
    exact hslot.trans hi
  · exact hi

/-- The slot of a timer whose destructor does not find it. -/
structure Dangling (i : Nat) (t : τ) (s : Sys τ κ) : Prop where
  slot : s.manager.slot i = some t
  gone : s.heap t = none

theorem dangling_of_move {mv : Move} {dst src : τ} (left : Option κ) {timer : Timer κ} {i : Nat}
    (hc : s.clientActs) (hsrc : s.heap src = some timer) (hi : s.manager.slot i = some src)
    (hne : dst ≠ src) (hready : mv.Ready s dst) :
    ∃ s', run Sys.step s [.call (mv.op dst src left), .call (.destroy src)] = some s' ∧
      Dangling i src s' ∧ s'.stack = s.stack ∧ s'.log = s.log := by
  have hmoved : ∃ s₁, s.step (.call (mv.op dst src left)) = some s₁ ∧
      s₁.manager.slot i = some src ∧ s₁.heap src = some (Sys.moved timer left) ∧
      s₁.stack = s.stack ∧ s₁.log = s.log := by
    cases mv with
    | construct =>
      have hdst : s.heap dst = none := hready
      rw [Move.op, Sys.step, if_pos hc, Sys.call, hdst, hsrc]
      exact ⟨_, rfl, hi, Heap.set_self .., rfl, rfl⟩
    | assign =>
      obtain ⟨x, hdst⟩ := Option.ne_none_iff_exists'.mp (show s.heap dst ≠ none from hready)
      rw [Move.op, Sys.step, if_pos hc, Sys.call, hdst, hsrc]
      dsimp only
      rw [if_neg hne]
      exact ⟨_, rfl, unregisterTimer_other hi hne.symm, Heap.set_self .., rfl, rfl⟩
  obtain ⟨s₁, hs₁, hi₁, hsrc₁, hstack, hlog⟩ := hmoved
  have hc₁ : s₁.clientActs := by rw [Sys.clientActs, hstack]; exact hc
  have hdestroy : s₁.step (.call (.destroy src)) =
      some { s₁ with heap := s₁.heap.set src none } := by
    rw [Sys.step, if_pos hc₁, Sys.call, hsrc₁]
    dsimp only
    rw [unregisterTimer_stale rfl]
  refine ⟨{ s₁ with heap := s₁.heap.set src none }, ?_, ⟨hi₁, Heap.set_self ..⟩, hstack, hlog⟩
  rw [run, hs₁]
  dsimp only
  rw [run, hdestroy]
  rfl

/-! ## Later tick calls -/

/-- The loop goes on: no client acts. -/
def Looping : Act τ κ → Prop
  | .ret | .advance => True
  | .call _ => False

def isAdvance : Act τ κ → Bool
  | .advance => true
  | _ => false

/-- No loop gets past a slot whose timer is gone. -/
theorem dangling_step {i : Nat} {t : τ} {f : Frame τ} {rest : List (Frame τ)}
    (hd : Dangling i t r) (hf : r.stack = f :: rest) (hi : frameNext f ≤ i) {a : Act τ κ}
    (ha : Looping a) (h : r.step a = some r') :
    Dangling i t r' ∧ ∃ f', r'.stack = f' :: rest ∧ frameNext f' ≤ i ∧
      frameNext f' = frameNext f + if isAdvance a then 1 else 0 := by
  have hother : ∀ {u x}, r.heap u = some x → t ≠ u := by
    rintro u x hu rfl
    exact absurd (hd.gone.symm.trans hu) (by simp)
  have hlive : ∀ {u x j}, r.heap u = some x → r.manager.slot j = some u → j ≠ i := by
    rintro u x j hu hj rfl
    exact hother hu (Option.some.inj (hd.slot.symm.trans hj))
  cases timer_step_effect h with
  | constructed | destroyed | moveConstructed | moveAssigned | selfAssigned | intervalSet
  | repeatSet | timeoutSet | registered | controlled | ticked => exact ha.elim
  | returned c deltaMs j u n rest' timer hs hu =>
    obtain ⟨rfl, rfl⟩ := List.cons.inj (hf.symm.trans hs)
    exact ⟨⟨hd.slot, (Heap.set_other _ _ (hother hu)).trans hd.gone⟩,
      .scanning c deltaMs (j + 1), rfl, hi, rfl⟩
  | passed c deltaMs j rest' hs hj hn =>
    obtain ⟨rfl, rfl⟩ := List.cons.inj (hf.symm.trans hs)
    have hne : j ≠ i := by
      rintro rfl
      exact absurd (hn.symm.trans hd.slot) (by simp)
    exact ⟨⟨hd.slot, hd.gone⟩, .scanning c deltaMs (j + 1), rfl, Nat.lt_of_le_of_ne hi hne, rfl⟩
  | advanced c deltaMs j rest' u timer hs hj hu hdue =>
    obtain ⟨rfl, rfl⟩ := List.cons.inj (hf.symm.trans hs)
    exact ⟨⟨hd.slot, (Heap.set_other _ _ (hother hu)).trans hd.gone⟩,
      .scanning c deltaMs (j + 1), rfl, Nat.lt_of_le_of_ne hi (hlive hu hj), rfl⟩
  | fired c deltaMs j rest' u timer hs hj hu hdue hcb =>
    obtain ⟨rfl, rfl⟩ := List.cons.inj (hf.symm.trans hs)
    exact ⟨⟨hd.slot, (Heap.set_other _ _ (hother hu)).trans hd.gone⟩,
      .calling c deltaMs j u _, rfl, Nat.lt_of_le_of_ne hi (hlive hu hj), rfl⟩
  | firedSilent c deltaMs j rest' u timer hs hj hu hdue hcb =>
    obtain ⟨rfl, rfl⟩ := List.cons.inj (hf.symm.trans hs)
    exact ⟨⟨hd.slot, (Heap.set_other _ _ (hother hu)).trans hd.gone⟩,
      .scanning c deltaMs (j + 1), rfl, Nat.lt_of_le_of_ne hi (hlive hu hj), rfl⟩
  | finished c deltaMs j rest' hs hj =>
    obtain ⟨rfl, rfl⟩ := List.cons.inj (hf.symm.trans hs)
    exact absurd (Nat.lt_of_lt_of_le (slot_lt hd.slot) hj) (Nat.not_lt_of_le hi)

theorem dangling_run {i : Nat} {t : τ} {acts : List (Act τ κ)} (ha : ∀ a ∈ acts, Looping a) :
    ∀ {r : Sys τ κ} {f : Frame τ} {rest : List (Frame τ)}, Dangling i t r →
      r.stack = f :: rest → frameNext f ≤ i → run Sys.step r acts = some r' →
      frameNext f + acts.countP isAdvance ≤ i := by
  induction acts with
  | nil => intro r f rest _ _ hi _; exact hi
  | cons a acts ih =>
    intro r f rest hd hf hi hr
    obtain ⟨r₁, hs, hr⟩ := run_cons_some hr
    obtain ⟨hd₁, f₁, hf₁, hi₁, hnext⟩ := dangling_step hd hf hi (ha a List.mem_cons_self) hs
    have hle := ih (fun b hb => ha b (List.mem_cons_of_mem _ hb)) hd₁ hf₁ hi₁ hr
    rw [List.countP_cons]
    omega

/-- The loop has a turn at a slot that is null or refers to a timer. -/
theorem advance_defined {c i : Nat} {deltaMs : UInt32} {rest : List (Frame τ)}
    (hs : s.stack = .scanning c deltaMs i :: rest)
    (hlive : ∀ t, s.manager.slot i = some t → s.heap t ≠ none) :
    ∃ s', s.step .advance = some s' := by
  rw [Sys.step, hs]
  dsimp only
  rw [Sys.scan]
  split
  · split
    · exact ⟨_, rfl⟩
    · rename_i t ht
      split
      · rename_i hn; exact absurd hn (hlive t ht)
      · dsimp only
        split
        · exact ⟨_, rfl⟩
        · split <;> exact ⟨_, rfl⟩
  · exact ⟨_, rfl⟩

theorem ret_defined {c i n : Nat} {deltaMs : UInt32} {t : τ} {rest : List (Frame τ)}
    {timer : Timer κ} (hs : s.stack = .calling c deltaMs i t n :: rest)
    (ht : s.heap t = some timer) :
    ∃ s', s.step .ret = some s' ∧ s'.stack = .scanning c deltaMs (i + 1) :: rest := by
  rw [Sys.step, Sys.ret, hs]
  dsimp only
  rw [ht]
  exact ⟨_, rfl, rfl⟩

/-- A loop over timers that all exist gets past its slot, if no client acts. -/
theorem pass_slot (hr : Registry s) {c i : Nat} {deltaMs : UInt32} {rest : List (Frame τ)}
    (hs : s.stack = .scanning c deltaMs i :: rest) (hi : i < kMaxTimers) :
    ∃ acts s', (∀ a ∈ acts, Looping a) ∧ acts.countP isAdvance = 1 ∧
      run Sys.step s acts = some s' ∧ s'.stack = .scanning c deltaMs (i + 1) :: rest ∧
      Registry s' := by
  obtain ⟨s₁, hs₁⟩ := advance_defined hs fun t ht => by
    obtain ⟨timer, hheap, -⟩ := hr.live i t ht
    rw [hheap]
    simp
  have hr₁ : Registry s₁ := registry_step (a := .advance) hr trivial trivial hs₁
  have hone : s₁.stack = .scanning c deltaMs (i + 1) :: rest → ∃ acts s',
      (∀ a ∈ acts, Looping a) ∧ acts.countP isAdvance = 1 ∧ run Sys.step s acts = some s' ∧
      s'.stack = .scanning c deltaMs (i + 1) :: rest ∧ Registry s' := fun h =>
    ⟨[.advance], s₁, by simp [Looping], rfl, by rw [run, hs₁]; rfl, h, hr₁⟩
  cases timer_step_effect hs₁ with
  | passed c' deltaMs' j rest' hs' hj hn =>
    cases hs.symm.trans hs'
    exact hone rfl
  | advanced c' deltaMs' j rest' u timer hs' hj hu hdue =>
    cases hs.symm.trans hs'
    exact hone rfl
  | fired c' deltaMs' j rest' u timer hs' hj hu hdue hcb =>
    cases hs.symm.trans hs'
    -- the callback returns at once
    obtain ⟨s₂, hs₂, hstack⟩ := ret_defined (s := { s with
      heap := s.heap.set u (some (timer.tick deltaMs).1)
      stack := .calling c deltaMs i u (firings u s.log).length :: rest
      log := s.log ++ [.advanced c u, .fired c u] }) rfl (Heap.set_self ..)
    refine ⟨[.advance, .ret], s₂, by simp [Looping], rfl, ?_, hstack,
      registry_step (a := .ret) hr₁ trivial trivial hs₂⟩
    rw [run, hs₁]
    dsimp only
    rw [run, hs₂]
    rfl
  | firedSilent c' deltaMs' j rest' u timer hs' hj hu hdue hcb =>
    cases hs.symm.trans hs'
    exact hone rfl
  | finished c' deltaMs' j rest' hs' hj =>
    cases hs.symm.trans hs'
    exact absurd hi (Nat.not_lt_of_le hj)

theorem pass_slots (hr : Registry s) {c : Nat} {deltaMs : UInt32} {rest : List (Frame τ)}
    (hs : s.stack = .scanning c deltaMs 0 :: rest) {i : Nat} (hi : i ≤ kMaxTimers) :
    ∃ acts s', (∀ a ∈ acts, Looping a) ∧ acts.countP isAdvance = i ∧
      run Sys.step s acts = some s' ∧ s'.stack = .scanning c deltaMs i :: rest ∧ Registry s' := by
  induction i with
  | zero => exact ⟨[], s, by simp, rfl, rfl, hs, hr⟩
  | succ i ih =>
    obtain ⟨acts, s₁, ha, hcount, hrun, hs₁, hr₁⟩ := ih (Nat.le_of_succ_le hi)
    obtain ⟨acts', s₂, ha', hcount', hrun', hs₂, hr₂⟩ := pass_slot hr₁ hs₁ hi
    refine ⟨acts ++ acts', s₂, fun a hmem => ?_, ?_, ?_, hs₂, hr₂⟩
    · exact (List.mem_append.mp hmem).elim (ha a) (ha' a)
    · rw [List.countP_append, hcount, hcount']
    · rw [run_append hrun]; exact hrun'

/-- A tick call that returns when the timer has not been moved is undefined when it has. -/
theorem not_sameFirings {i : Nat} {src dst : τ} (hr : Registry s) (hc : s.clientActs)
    (hi : i < kMaxTimers) (hd : Dangling i src s') (hstack : s'.stack = s.stack) :
    ¬SameFirings s s' src dst := by
  intro hsame
  have hc' : s'.clientActs := by rw [Sys.clientActs, hstack]; exact hc
  have htick : ∀ x : Sys τ κ, x.clientActs → ∃ x₁, x.step (.call (.tick 0)) = some x₁ ∧
      x₁.stack = .scanning x.ticks 0 0 :: x.stack ∧ x₁.manager = x.manager ∧ x₁.heap = x.heap := by
    intro x hx
    rw [Sys.step, if_pos hx, Sys.call]
    exact ⟨_, rfl, rfl, rfl, rfl⟩
  obtain ⟨s₁, hs₁, hstack₁, -, -⟩ := htick s hc
  obtain ⟨s₁', hs₁', hstack₁', hm', hh'⟩ := htick s' hc'
  have hr₁ : Registry s₁ := registry_step (a := .call (.tick 0)) hr trivial trivial hs₁
  obtain ⟨acts, s₂, ha, hcount, hrun, -, -⟩ := pass_slots hr₁ hstack₁ (Nat.succ_le_of_lt hi)
  have hlooping : ∀ a ∈ acts, named a = [] ∧
      rename (fun u => if u = src then dst else u) a = a := by
    intro a hmem
    have hl := ha a hmem
    cases a with
    | call op => exact hl.elim
    | ret => exact ⟨rfl, rfl⟩
    | advance => exact ⟨rfl, rfl⟩
  obtain ⟨s₂', hrun', -⟩ := hsame (.call (.tick 0) :: acts) s₂
    (fun a hmem => by
      rcases List.mem_cons.mp hmem with rfl | hmem
      · simp [named]
      · rw [(hlooping a hmem).1]; simp)
    (by rw [run, hs₁]; exact hrun)
  rw [List.map_cons, List.map_congr_left fun a hmem => (hlooping a hmem).2, List.map_id'] at hrun'
  obtain ⟨x, hx, hrun'⟩ := run_cons_some hrun'
  obtain rfl : s₁' = x := Option.some.inj (hs₁'.symm.trans hx)
  have hle := dangling_run ha ⟨by rw [hm']; exact hd.slot, by rw [hh']; exact hd.gone⟩ hstack₁'
    (Nat.zero_le i) hrun'
  rw [hcount] at hle
  exact absurd hle (by simp [frameNext])

/-- **No move of a registered timer is transparent.** -/
theorem move_not_transparent {mv : Move} {dst src : τ} {left : Option κ} {timer : Timer κ}
    {i : Nat} (hc : s.clientActs) (hsrc : s.heap src = some timer)
    (hi : s.manager.slot i = some src) (hne : dst ≠ src) (hready : mv.Ready s dst) :
    ∃ s', run Sys.step s [.call (mv.op dst src left), .call (.destroy src)] = some s' ∧
      ¬TransparentMove s s' src dst ∧ s'.manager.slot i = some src ∧ s'.heap src = none ∧
      (Registry s → ¬SameFirings s s' src dst) := by
  obtain ⟨s', hrun, hd, hstack, -⟩ := dangling_of_move left hc hsrc hi hne hready
  exact ⟨s', hrun, fun h => h.unreferred i hd.slot, hd.slot, hd.gone,
    fun hr => not_sameFirings hr hc (slot_lt hi) hd hstack⟩

end Steps

/-- A one-shot timer of ten milliseconds that is registered and started. -/
def oneTimer : Sys Nat Unit where
  manager := { timers := fun i => if i.val = 0 then some 0 else none, activeCount := 1 }
  heap := fun t => if t = 0 then
      some { handle := 0, intervalMs := 10, active := true, callback := some () }
    else none

theorem oneTimer_move_not_transparent :
    ∃ s', run Sys.step oneTimer [.call (.moveConstruct 1 0 none), .call (.destroy 0)] = some s' ∧
      ¬TransparentMove oneTimer s' 0 1 := by
  obtain ⟨s', hrun, hnot, -⟩ :=
    @move_not_transparent Nat Unit _ oneTimer .construct 1 0 none _ 0 rfl rfl rfl (by decide) rfl
  exact ⟨s', hrun, hnot⟩

/-- The timer fires in the next tick of ten milliseconds; after the move that tick is undefined. -/
theorem moved_timer_undefined :
    ∃ s, run Sys.step {} [.call (.construct 0 10 false), .call (.onTimeout 0 (some ())),
        .call (.control .start 0)] = some s ∧ s.manager.slot 0 = some 0 ∧
      (∃ r, run Sys.step s [.call (.tick 10), .advance] = some r ∧ firings 0 r.log = [0]) ∧
      ∃ s' : Sys Nat Unit, run Sys.step s [.call (.moveConstruct 1 0 none), .call (.destroy 0)]
          = some s' ∧ ¬TransparentMove s s' 0 1 ∧
        run Sys.step s' [.call (.tick 10), .advance] = none :=
  ⟨_, rfl, rfl, ⟨_, rfl, rfl⟩, _, rfl, fun h => h.unreferred 0 rfl, rfl⟩

end TaktOS.Proof
