import TaktOS.Proof.KernelSteps
import TaktOS.Proof.EventQueue

/-!
# The kernel's call stack

The stacks of the four parts are one call stack, in which every frame stands on one that called
it. `Above` says which frames can stand on which; it is what a step needs to know of the calls it
returns to, and it holds at any depth to which client code calls back.
-/

namespace TaktOS.Proof

open TaktOS Kernel Lib

variable {μ ω κ υ τ ξ : Type}

/-- A frame of any of the parts. -/
inductive AnyFrame (τ : Type) where
  | kernel (f : Kernel.Frame)
  | scheduler (f : Scheduler.Frame)
  | bus (f : EventBus.Frame)
  | timers (f : TimerManager.Frame τ)

namespace AnyFrame

def part : AnyFrame τ → Part
  | .kernel _ => .kernel
  | .scheduler _ => .scheduler
  | .bus _ => .bus
  | .timers _ => .timers

/-- What the frame dispatches, if it is of `dispatch`. -/
def dispatching : AnyFrame τ → Option EventData
  | .bus (.scanning _ data _) | .bus (.running _ data _) => some data
  | _ => none

/-- The frame is of `runTakt`. -/
def isTakt : AnyFrame τ → Bool
  | .scheduler .requested => false
  | .scheduler _ => true
  | _ => false

/-- Client code is running on the frame. -/
def isClient : AnyFrame τ → Bool
  | .scheduler (.ticking ..) | .bus (.running ..) | .timers (.calling ..) => true
  | _ => false

/-- The frame is of `runTakt`, in `dispatchQueued`. -/
def inEvents : AnyFrame τ → Bool
  | .scheduler (.events _) => true
  | _ => false

end AnyFrame

/-- The first frame can stand on the second. -/
def Above (upper : AnyFrame τ) : AnyFrame τ → Prop
  | .kernel .booting => upper.dispatching = some { id := .SystemBoot }
  | .kernel .announcing => upper.dispatching = some { id := .SystemReady }
  | .kernel .looping => upper.isTakt
  | .scheduler (.timers _) => upper.part = .timers
  | .scheduler (.events _) => upper = .bus .draining
  | .scheduler .overrun => ∃ data, upper.dispatching = some data ∧ data.id = .TaktOverrun
  | .scheduler .requested => upper.dispatching = some { id := .SystemShutdown }
  | .bus .draining => upper.dispatching ≠ none
  | .scheduler (.ticking ..) | .bus (.running ..) | .timers (.calling ..) => True
  | .scheduler (.scanning ..) | .bus (.scanning ..) | .timers (.scanning ..) => False

theorem above_client {upper lower : AnyFrame τ} (h : lower.isClient) : Above upper lower := by
  cases lower with
  | kernel f => exact absurd h (by simp [AnyFrame.isClient])
  | scheduler f => cases f <;> trivial
  | bus f => cases f <;> trivial
  | timers f => cases f <;> trivial

/-- A frame can stand where one of the same call can, unless that is about to drain the queue. -/
theorem above_turn (f f' : AnyFrame τ) (hpart : f'.part = f.part)
    (hd : f'.dispatching = f.dispatching) (ht : f.isTakt → f'.isTakt)
    (hdrain : f ≠ .bus .draining) {g : AnyFrame τ} (h : Above f g) : Above f' g := by
  cases g with
  | kernel k =>
    cases k with
    | booting => exact hd.trans h
    | announcing => exact hd.trans h
    | looping => exact ht h
  | scheduler k =>
    cases k with
    | timers => exact hpart.trans h
    | events => exact absurd h hdrain
    | overrun => exact h.imp fun data hdata => ⟨hd.trans hdata.1, hdata.2⟩
    | requested => exact hd.trans h
    | ticking => trivial
    | scanning => exact h
  | bus k =>
    cases k with
    | draining => exact fun hn => h (hd.symm.trans hn)
    | running => trivial
    | scanning => exact h
  | timers k =>
    cases k with
    | calling => trivial
    | scanning => exact h

/-- Only a frame of `dispatchQueued` stands on a scheduler that waits for it. -/
theorem above_events {f g : AnyFrame τ} (h : Above f g) (hg : g.inEvents) :
    f = .bus .draining := by
  cases g with
  | scheduler k => cases k <;> first | exact h | exact absurd hg (by simp [AnyFrame.inEvents])
  | _ => exact absurd hg (by simp [AnyFrame.inEvents])

theorem inEvents_not_client {f : AnyFrame τ} (h : f.isClient) : f.inEvents = false := by
  cases f with
  | scheduler k => cases k <;> first | rfl | exact absurd h (by simp [AnyFrame.isClient])
  | _ => rfl

/-- The frames of one part. -/
def partStack (s : Sys μ ω κ υ τ ξ) : Part → List (AnyFrame τ)
  | .kernel => s.stack.map .kernel
  | .scheduler => s.sched.stack.map .scheduler
  | .bus => s.bus.stack.map .bus
  | .timers => s.timers.stack.map .timers

/-- The frames `fs` are those of the parts, woven as `control` tells. -/
abbrev Frames (s : Sys μ ω κ υ τ ξ) (fs : List (AnyFrame τ)) : Prop :=
  Woven AnyFrame.part (partStack s) s.control fs

/--
The call stack: every frame on one that called it, and where the scheduler is about to go on
after `dispatchQueued`, nothing queued.
-/
structure CallStack (s : Sys μ ω κ υ τ ξ) (fs : List (AnyFrame τ)) : Prop where
  frames : Frames s fs
  nested : fs.IsChain Above
  drained : ∀ f ∈ fs.head?, f.inEvents → s.bus.bus.queueCount = 0

/-- What a step makes of the call stack, in a state with that queue after it. -/
inductive Moved (queueCount : Nat) : List (AnyFrame τ) → List (AnyFrame τ) → Prop
  | stay (fs : List (AnyFrame τ)) (hc : ∀ f ∈ fs.head?, f.isClient) : Moved queueCount fs fs
  | push (f : AnyFrame τ) (fs : List (AnyFrame τ)) (hf : f.inEvents = false)
      (habove : ∀ g ∈ fs.head?, Above f g) : Moved queueCount fs (f :: fs)
  | turn (f f' : AnyFrame τ) (fs : List (AnyFrame τ)) (hf : f'.inEvents = false)
      (habove : ∀ g, Above f g → Above f' g) : Moved queueCount (f :: fs) (f' :: fs)
  | pop (f : AnyFrame τ) (fs : List (AnyFrame τ)) (hdrained : f = .bus .draining → queueCount = 0) :
      Moved queueCount (f :: fs) fs

theorem Moved.callStack {s s' : Sys μ ω κ υ τ ξ} {fs fs' : List (AnyFrame τ)} (h : CallStack s fs)
    (hmoved : Moved s'.bus.bus.queueCount fs fs') (hframes : Frames s' fs') :
    CallStack s' fs' := by
  refine ⟨hframes, ?_, ?_⟩
  · cases hmoved with
    | stay => exact h.nested
    | push f fs hf habove => exact List.isChain_cons.mpr ⟨habove, h.nested⟩
    | turn f f' fs hf habove => exact isChain_turn h.nested habove
    | pop => exact h.nested.tail
  · intro g hg he
    cases hmoved with
    | stay fs hc => exact absurd he (by rw [inEvents_not_client (hc g hg)]; decide)
    | push f fs hf habove =>
      obtain rfl : f = g := by simpa using hg
      exact absurd he (by rw [hf]; decide)
    | turn f f' fs hf habove =>
      obtain rfl : f' = g := by simpa using hg
      exact absurd he (by rw [hf]; decide)
    | pop f fs hdrained =>
      exact hdrained (above_events ((List.isChain_cons.mp h.nested).1 g hg) he)

/-- A client acts where there is no frame or its code runs on the innermost. -/
theorem clientActs_iff {s : Sys μ ω κ υ τ ξ} {fs : List (AnyFrame τ)} (h : Frames s fs) :
    s.clientActs = true ↔ ∀ f ∈ fs.head?, f.isClient := by
  cases fs with
  | nil =>
    have hctl : s.control = [] := h.control_eq
    simp [Sys.clientActs, hctl]
  | cons f below =>
    have hctl : s.control = f.part :: below.map AnyFrame.part := h.control_eq
    have hstack := h.stack_eq f.part
    rw [List.filter_cons_of_pos (by simp)] at hstack
    have hiff : (∀ g ∈ (f :: below).head?, g.isClient) ↔ f.isClient := by simp
    rw [hiff]
    cases f with
    | kernel k => simp [Sys.clientActs, hctl, AnyFrame.part, AnyFrame.isClient]
    | scheduler k =>
      obtain ⟨_, _, hs, hk, -⟩ := List.map_eq_cons_iff.mp hstack
      cases hk
      cases k <;> simp [Sys.clientActs, hctl, hs, AnyFrame.part, AnyFrame.isClient]
    | bus k =>
      obtain ⟨_, _, hs, hk, -⟩ := List.map_eq_cons_iff.mp hstack
      cases hk
      cases k <;> simp [Sys.clientActs, EventBus.Exec.clientActs, hctl, hs, AnyFrame.part,
        AnyFrame.isClient]
    | timers k =>
      obtain ⟨_, _, hs, hk, -⟩ := List.map_eq_cons_iff.mp hstack
      cases hk
      cases k <;> simp [Sys.clientActs, TimerManager.Sys.clientActs, hctl, hs, AnyFrame.part,
        AnyFrame.isClient]

/-! ## The step of one part -/

/-- Only that part's stack changes, and the call stack with it. -/
structure StepOf (p : Part) (s s' : Sys μ ω κ υ τ ξ) : Prop where
  other : ∀ q, q ≠ p → partStack s' q = partStack s q
  control : s'.control = resize p (partStack s p).length (partStack s' p).length s.control

section StepOf

variable {p : Part} {s s' : Sys μ ω κ υ τ ξ} {fs : List (AnyFrame τ)}

theorem StepOf.stay (h : StepOf p s s') (hf : Frames s fs)
    (hs : partStack s' p = partStack s p) : Frames s' fs := by
  rw [Frames, h.control]
  exact Woven.stay h.other hf hs

theorem StepOf.push {f : AnyFrame τ} (h : StepOf p s s') (hf : Frames s fs) (hp : f.part = p)
    (hs : partStack s' p = f :: partStack s p) : Frames s' (f :: fs) := by
  rw [Frames, h.control]
  exact Woven.push h.other hf hp hs

theorem StepOf.turn {f g : AnyFrame τ} {rest : List (AnyFrame τ)} (h : StepOf p s s')
    (hf : Frames s (f :: fs)) (hp : f.part = p) (hp' : g.part = p)
    (hs : partStack s p = f :: rest) (hs' : partStack s' p = g :: rest) :
    Frames s' (g :: fs) := by
  rw [Frames, h.control]
  exact Woven.turn h.other hf hp hp' hs hs'

theorem StepOf.pop {f : AnyFrame τ} (h : StepOf p s s') (hf : Frames s (f :: fs))
    (hp : f.part = p) (hs : partStack s p = f :: partStack s' p) : Frames s' fs := by
  rw [Frames, h.control]
  exact Woven.pop h.other hf hp hs

/-- A call goes on, on the frame it has. -/
theorem StepOf.turned {f : AnyFrame τ} (f' : AnyFrame τ) {rest : List (AnyFrame τ)}
    (queueCount : Nat) (h : StepOf p s s') (hf : Frames s (f :: fs))
    (hparts : f.part = p ∧ f'.part = p) (hs : partStack s p = f :: rest)
    (hs' : partStack s' p = f' :: rest) (hd : f'.dispatching = f.dispatching)
    (ht : f.isTakt → f'.isTakt) (hdrain : f ≠ .bus .draining) (hev : f'.inEvents = false) :
    ∃ fs', Moved queueCount (f :: fs) fs' ∧ Frames s' fs' :=
  ⟨f' :: fs,
    .turn f f' fs hev fun _ => above_turn f f' (hparts.2.trans hparts.1.symm) hd ht hdrain,
    h.turn hf hparts.1 hparts.2 hs hs'⟩

end StepOf

variable {s : Sys μ ω κ υ τ ξ} {fs : List (AnyFrame τ)}

theorem stepOf_bus (s : Sys μ ω κ υ τ ξ) (bus : EventBus.Exec κ υ) :
    StepOf .bus s (withBus s bus) where
  other q hq := by cases q <;> first | rfl | exact absurd rfl hq
  control := by simp [partStack, withBus]

theorem stepOf_timers (s : Sys μ ω κ υ τ ξ) (timers : TimerManager.Sys τ ξ) :
    StepOf .timers s (withTimers s timers) where
  other q hq := by cases q <;> first | rfl | exact absurd rfl hq
  control := by simp [partStack, withTimers]

theorem stepOf_sched (s : Sys μ ω κ υ τ ξ) (sched : Scheduler.Sys μ ω) :
    StepOf .scheduler s (withSched s sched) where
  other q hq := by cases q <;> first | rfl | exact absurd rfl hq
  control := by simp [partStack, withSched]

/-- The innermost frame, where it is of a part whose stack is known. -/
theorem frames_top {p : Part} {f : AnyFrame τ} {rest : List (AnyFrame τ)} (h : Frames s fs)
    (hctl : s.control.head? = some p) (hs : partStack s p = f :: rest) : ∃ below, fs = f :: below :=
  h.top hctl hs

/-! ## The bus -/

theorem bus_call_moved (h : Frames s fs) (hc : ∀ f ∈ fs.head?, f.isClient)
    {op : EventBus.Op κ υ} {bus : EventBus.Exec κ υ} (heff : Effect s.bus (.call op) bus) :
    ∃ fs', Moved bus.bus.queueCount fs fs' ∧ Frames (withBus s bus) fs' := by
  have hstep := stepOf_bus s bus
  cases heff with
  | idle => exact ⟨fs, .stay fs hc, hstep.stay h rfl⟩
  | subscribed => exact ⟨fs, .stay fs hc, hstep.stay h rfl⟩
  | removed => exact ⟨fs, .stay fs hc, hstep.stay h rfl⟩
  | accepted => exact ⟨fs, .stay fs hc, hstep.stay h rfl⟩
  | published op hb data =>
    exact ⟨_, .push _ fs rfl fun g hg => above_client (hc g hg), hstep.push h rfl rfl⟩
  | draining op hb =>
    exact ⟨_, .push _ fs rfl fun g hg => above_client (hc g hg), hstep.push h rfl rfl⟩

theorem bus_ret_moved (h : Frames s fs) (hctl : s.control.head? = some .bus)
    {bus : EventBus.Exec κ υ} (heff : Effect s.bus .ret bus) :
    ∃ fs', Moved bus.bus.queueCount fs fs' ∧ Frames (withBus s bus) fs' := by
  have hstep := stepOf_bus s bus
  cases heff with
  | returned call data i rest hs =>
    have hst : partStack s .bus = .bus (.running call data i) :: rest.map .bus :=
      congrArg (List.map AnyFrame.bus) hs
    obtain ⟨below, rfl⟩ := frames_top h hctl hst
    exact hstep.turned (.bus (.scanning call data (i + 1))) _ h ⟨rfl, rfl⟩ hst rfl rfl id (by simp)
      rfl

theorem bus_advance_moved (h : Frames s fs) (hctl : s.control.head? = some .bus)
    {bus : EventBus.Exec κ υ} (heff : Effect s.bus .advance bus) :
    ∃ fs', Moved bus.bus.queueCount fs fs' ∧ Frames (withBus s bus) fs' := by
  have hstep := stepOf_bus s bus
  have htop : ∀ {f rest}, s.bus.stack = f :: rest →
      partStack s .bus = .bus f :: rest.map .bus ∧ ∃ below, fs = .bus f :: below := by
    intro f rest hs
    have hst : partStack s .bus = .bus f :: rest.map .bus := congrArg (List.map AnyFrame.bus) hs
    exact ⟨hst, frames_top h hctl hst⟩
  cases heff with
  | dequeued rest hs hn =>
    obtain ⟨hst, below, rfl⟩ := htop hs
    refine ⟨_, .push _ _ rfl ?_, hstep.push h rfl (by rw [hst]; rfl)⟩
    intro g hg
    obtain rfl : AnyFrame.bus .draining = g := by simpa using hg
    exact Option.some_ne_none _
  | drained rest hs hn =>
    obtain ⟨hst, below, rfl⟩ := htop hs
    exact ⟨below, .pop _ below fun _ => hn, hstep.pop h rfl hst⟩
  | invoked call data i rest hs =>
    obtain ⟨hst, below, rfl⟩ := htop hs
    exact hstep.turned (.bus (.running call data i)) _ h ⟨rfl, rfl⟩ hst rfl rfl id (by simp) rfl
  | passed call data i rest hs =>
    obtain ⟨hst, below, rfl⟩ := htop hs
    exact hstep.turned (.bus (.scanning call data (i.val + 1))) _ h ⟨rfl, rfl⟩ hst rfl rfl id
      (by simp) rfl
  | finished call data i rest hs =>
    obtain ⟨hst, below, rfl⟩ := htop hs
    exact ⟨below, .pop _ below fun hd => absurd hd (by simp), hstep.pop h rfl hst⟩

/-! ## The timers -/

section Timers

variable [DecidableEq τ]

theorem timers_call_moved (h : Frames s fs) (hc : ∀ f ∈ fs.head?, f.isClient)
    {op : TimerManager.Op τ ξ} {timers : TimerManager.Sys τ ξ}
    (heff : TimerEffect s.timers (.call op) timers) :
    ∃ fs', Moved s.bus.bus.queueCount fs fs' ∧ Frames (withTimers s timers) fs' := by
  have hstep := stepOf_timers s timers
  have hstay : timers.stack = s.timers.stack →
      ∃ fs', Moved s.bus.bus.queueCount fs fs' ∧ Frames (withTimers s timers) fs' :=
    fun hst => ⟨fs, .stay fs hc, hstep.stay h (congrArg (List.map AnyFrame.timers) hst)⟩
  cases heff with
  | ticked deltaMs =>
    exact ⟨_, .push _ fs rfl fun g hg => above_client (hc g hg), hstep.push h rfl rfl⟩
  | _ => exact hstay rfl

theorem timers_ret_moved (h : Frames s fs) (hctl : s.control.head? = some .timers)
    {timers : TimerManager.Sys τ ξ} (heff : TimerEffect s.timers .ret timers) :
    ∃ fs', Moved s.bus.bus.queueCount fs fs' ∧ Frames (withTimers s timers) fs' := by
  have hstep := stepOf_timers s timers
  cases heff with
  | returned c deltaMs i t n rest timer hs =>
    have hst : partStack s .timers = .timers (.calling c deltaMs i t n) :: rest.map .timers :=
      congrArg (List.map AnyFrame.timers) hs
    obtain ⟨below, rfl⟩ := frames_top h hctl hst
    exact hstep.turned (.timers (.scanning c deltaMs (i + 1))) _ h ⟨rfl, rfl⟩ hst rfl rfl id
      (by simp) rfl

theorem timers_advance_moved (h : Frames s fs) (hctl : s.control.head? = some .timers)
    {timers : TimerManager.Sys τ ξ} (heff : TimerEffect s.timers .advance timers) :
    ∃ fs', Moved s.bus.bus.queueCount fs fs' ∧ Frames (withTimers s timers) fs' := by
  have hstep := stepOf_timers s timers
  have hturn : ∀ {c deltaMs i rest f'}, s.timers.stack = .scanning c deltaMs i :: rest →
      timers.stack = f' :: rest →
      ∃ fs', Moved s.bus.bus.queueCount fs fs' ∧ Frames (withTimers s timers) fs' := by
    intro c deltaMs i rest f' hs hs'
    have hst : partStack s .timers = .timers (.scanning c deltaMs i) :: rest.map .timers :=
      congrArg (List.map AnyFrame.timers) hs
    obtain ⟨below, rfl⟩ := frames_top h hctl hst
    exact hstep.turned (.timers f') _ h ⟨rfl, rfl⟩ hst (congrArg (List.map AnyFrame.timers) hs') rfl
      id (by simp) rfl
  cases heff with
  | passed c deltaMs i rest hs => exact hturn hs rfl
  | advanced c deltaMs i rest t timer hs => exact hturn hs rfl
  | fired c deltaMs i rest t timer hs => exact hturn hs rfl
  | firedSilent c deltaMs i rest t timer hs => exact hturn hs rfl
  | finished c deltaMs i rest hs =>
    have hst : partStack s .timers = .timers (.scanning c deltaMs i) :: rest.map .timers :=
      congrArg (List.map AnyFrame.timers) hs
    obtain ⟨below, rfl⟩ := frames_top h hctl hst
    exact ⟨below, .pop _ below fun hd => absurd hd (by simp), hstep.pop h rfl hst⟩

end Timers

/-! ## The scheduler -/

/-- The scheduler takes a step: its caller is client code, or the loop of the kernel for a takt, or
it goes on where it is in control. -/
inductive SchedTop (s : Sys μ ω κ υ τ ξ) (fs : List (AnyFrame τ)) : Scheduler.Act μ ω → Prop
  | call (op : Scheduler.Op μ) (world : ω) (now : UInt64)
      (hc : ∀ f ∈ fs.head?, f.isClient ∨ op = .runTakt ∧ f = .kernel .looping) :
      SchedTop s fs (.call op world now)
  | ret (world : ω) (now : UInt64) (hctl : s.control.head? = some .scheduler) :
      SchedTop s fs (.ret world now)
  | advance (now : UInt64) (hctl : s.control.head? = some .scheduler) :
      SchedTop s fs (.advance now)

theorem SchedTop.client {op : Scheduler.Op μ} {world : ω} {now : UInt64}
    (h : SchedTop s fs (.call op world now)) (hop : op ≠ .runTakt) :
    ∀ f ∈ fs.head?, f.isClient := by
  cases h with
  | call _ _ _ hc => exact fun f hf => (hc f hf).resolve_right fun hr => hop hr.1

theorem SchedTop.control {b : Scheduler.Act μ ω} (h : SchedTop s fs b)
    (hb : ∀ op world now, b ≠ .call op world now) : s.control.head? = some .scheduler := by
  cases h with
  | call op world now => exact absurd rfl (hb op world now)
  | ret _ _ hctl => exact hctl
  | advance _ hctl => exact hctl

section Scheduler

variable {m : IModule μ ω}

/-- A step of the scheduler that ends in no call of another part. -/
theorem sched_moved (h : Frames s fs) {b : Scheduler.Act μ ω} (htop : SchedTop s fs b)
    {sched : Scheduler.Sys μ ω} (heff : SchedEffect m s.sched b sched)
    (hin : Inward (Sys.callee s.sched sched)) :
    ∃ fs', Moved s.bus.bus.queueCount fs fs' ∧ Frames (withSched s sched) fs' := by
  have hstep := stepOf_sched s sched
  have hstay : sched.stack = s.sched.stack → (∀ f ∈ fs.head?, f.isClient) →
      ∃ fs', Moved s.bus.bus.queueCount fs fs' ∧ Frames (withSched s sched) fs' :=
    fun hst hc => ⟨fs, .stay fs hc, hstep.stay h (congrArg (List.map AnyFrame.scheduler) hst)⟩
  have hinside : ∀ {f rest}, s.sched.stack = f :: rest →
      (∀ op world now, b ≠ .call op world now) →
      partStack s .scheduler = .scheduler f :: rest.map .scheduler
        ∧ ∃ below, fs = .scheduler f :: below := by
    intro f rest hs hb
    have hst : partStack s .scheduler = .scheduler f :: rest.map .scheduler :=
      congrArg (List.map AnyFrame.scheduler) hs
    exact ⟨hst, frames_top h (htop.control hb) hst⟩
  have hturn : ∀ {f f' rest}, s.sched.stack = f :: rest → sched.stack = f' :: rest →
      (∀ op world now, b ≠ .call op world now) → f' ≠ .requested →
      (AnyFrame.scheduler (τ := τ) f').inEvents = false →
      ∃ fs', Moved s.bus.bus.queueCount fs fs' ∧ Frames (withSched s sched) fs' := by
    intro f f' rest hs hs' hb hf' hev
    obtain ⟨hst, below, rfl⟩ := hinside hs hb
    refine hstep.turned (.scheduler f') _ h ⟨rfl, rfl⟩ hst
      (congrArg (List.map AnyFrame.scheduler) hs') rfl (fun _ => ?_) (by simp) hev
    cases f' <;> first | rfl | exact absurd rfl hf'
  have hpop : ∀ {f rest}, s.sched.stack = f :: rest → sched.stack = rest →
      (∀ op world now, b ≠ .call op world now) →
      ∃ fs', Moved s.bus.bus.queueCount fs fs' ∧ Frames (withSched s sched) fs' := by
    intro f rest hs hs' hb
    obtain ⟨hst, below, rfl⟩ := hinside hs hb
    refine ⟨below, .pop _ below fun hd => absurd hd (by simp), hstep.pop h rfl ?_⟩
    rw [hst, ← hs']
    rfl
  have hcallee : ∀ {calls}, sched.log = s.sched.log ++ calls →
      Inward (calls.getLast?) := fun hl => callee_append hl ▸ hin
  cases heff with
  | quiet op world now hc hq _ _ _ hst =>
    refine hstay hst (htop.client ?_)
    rintro rfl
    exact hq
  | registered => exact hstay rfl (htop.client (by simp))
  | removed => exact hstay rfl (htop.client (by simp))
  | initAll => exact hstay rfl (htop.client (by simp))
  | runTakt => exact absurd (hcallee rfl) id
  | shutdownAll => exact hstay rfl (htop.client (by simp))
  | requestShutdown => exact absurd (hcallee rfl) id
  | timersDone => exact absurd (hcallee rfl) id
  | eventsDone world now taktStart rest hs => exact hturn hs rfl (by simp) (by simp) rfl
  | tickDone world now taktStart modStart id rest hs => exact hturn hs rfl (by simp) (by simp) rfl
  | overrunDone world now rest hs => exact hpop hs rfl (by simp)
  | requestDone world now rest hs => exact hpop hs rfl (by simp)
  | tick now taktStart id rest hs => exact hturn hs rfl (by simp) (by simp) rfl
  | skip now taktStart id rest hs => exact hturn hs rfl (by simp) (by simp) rfl
  | overrun => exact absurd (hcallee rfl) id
  | taktDone now taktStart id rest hs => exact hpop hs rfl (by simp)

/-- A frame that calls another part, with the frame of that on it. -/
theorem callStack_called {s : Sys μ ω κ υ τ ξ} {f g : AnyFrame τ} {below : List (AnyFrame τ)}
    (hframes : Frames s (f :: g :: below)) (hnested : (g :: below).IsChain Above)
    (hf : f.inEvents = false) (habove : Above f g) : CallStack s (f :: g :: below) := by
  refine ⟨hframes, List.isChain_cons.mpr ⟨?_, hnested⟩, ?_⟩
  · intro y hy
    obtain rfl : g = y := by simpa using hy
    exact habove
  · intro y hy he
    obtain rfl : f = y := by simpa using hy
    exact absurd he (by rw [hf]; decide)

theorem stepOf_published (s : Sys μ ω κ υ τ ξ) (id : EventBus.Event) (param1 param2 : UInt32) :
    StepOf .bus s (withPublished s id param1 param2) where
  other q hq := by cases q <;> first | rfl | exact absurd rfl hq
  control := by simp [partStack, withPublished, resize, EventBus.Exec.dispatch]

theorem stepOf_tick (s : Sys μ ω κ υ τ ξ) (deltaMs : UInt32) :
    StepOf .timers s (withTick s deltaMs) where
  other q hq := by cases q <;> first | rfl | exact absurd rfl hq
  control := by simp [partStack, withTick, resize]

theorem stepOf_draining (s : Sys μ ω κ υ τ ξ) : StepOf .bus s (withDraining s) where
  other q hq := by cases q <;> first | rfl | exact absurd rfl hq
  control := by simp [partStack, withDraining, resize]

/-- A frame on which an event is published. -/
theorem callStack_published {s : Sys μ ω κ υ τ ξ} {g : AnyFrame τ} {below : List (AnyFrame τ)}
    (hframes : Frames s (g :: below)) (hnested : (g :: below).IsChain Above)
    (id : EventBus.Event) (param1 param2 : UInt32)
    (habove : Above (.bus (.scanning s.bus.log.length { id, param1, param2 } 0)) g) :
    ∃ fs', CallStack (withPublished s id param1 param2) fs' :=
  ⟨_, callStack_called ((stepOf_published s id param1 param2).push hframes rfl rfl) hnested rfl
    habove⟩

/-- Every step of the scheduler keeps the call stack. -/
theorem sched_callStack (h : CallStack s fs) {b : Scheduler.Act μ ω} (htop : SchedTop s fs b)
    {s' : Sys μ ω κ υ τ ξ} (hturn : SchedTurn m s b s') : ∃ fs', CallStack s' fs' := by
  cases hturn with
  | inward sched hs hin =>
    obtain ⟨fs', hmoved, hframes⟩ := sched_moved h.frames htop (sys_step_effect hs) hin
    exact ⟨fs', hmoved.callStack h hframes⟩
  | takt sched _ world now ha hsched hc =>
    subst ha hsched
    have hframes := (stepOf_sched s { s.sched with
      world
      stack := .timers now :: s.sched.stack
      log := s.sched.log ++ [.timers s.sched.sched.taktPeriodMs] }).push
        (f := .scheduler (.timers now)) h.frames rfl rfl
    refine ⟨_, callStack_called ((stepOf_tick _ _).push hframes rfl rfl)
      (List.isChain_cons.mpr ⟨fun g hg => ?_, h.nested⟩) rfl rfl⟩
    cases htop with
    | call _ _ _ hcall =>
      rcases hcall g hg with hg' | ⟨-, rfl⟩
      · exact above_client hg'
      · rfl
  | timersDone sched _ world now taktStart rest ha hs hsched hc =>
    subst ha hsched
    have hst : partStack s .scheduler = .scheduler (.timers taktStart) :: rest.map .scheduler :=
      congrArg (List.map AnyFrame.scheduler) hs
    obtain ⟨below, rfl⟩ := frames_top h.frames (htop.control (by simp)) hst
    have hframes := (stepOf_sched s { s.sched with
      world
      stack := .events taktStart :: rest
      log := s.sched.log ++ [.events] }).turn (g := .scheduler (.events taktStart)) h.frames rfl
        rfl hst rfl
    have hnested : (AnyFrame.scheduler (.events taktStart) :: below).IsChain Above :=
      isChain_turn h.nested fun _ => above_turn (.scheduler (.timers taktStart))
        (.scheduler (.events taktStart)) rfl rfl (fun _ => rfl) (by simp)
    exact ⟨_, callStack_called ((stepOf_draining _).push hframes rfl rfl) hnested rfl rfl⟩
  | overrun sched _ now taktStart id rest ha hs elapsedUs budgetUs hsched hc =>
    subst ha hsched
    have hst : partStack s .scheduler =
        .scheduler (.scanning taktStart id) :: rest.map .scheduler :=
      congrArg (List.map AnyFrame.scheduler) hs
    obtain ⟨below, rfl⟩ := frames_top h.frames (htop.control (by simp)) hst
    have hframes := (stepOf_sched s { s.sched with
      sched := s.sched.sched.endTakt (now - taktStart)
      stack := .overrun :: rest
      log := s.sched.log ++ [.overrun elapsedUs budgetUs] }).turn (g := .scheduler .overrun)
        h.frames rfl rfl hst rfl
    have hnested : (AnyFrame.scheduler .overrun :: below).IsChain Above :=
      isChain_turn h.nested fun _ => above_turn (.scheduler (.scanning taktStart id))
        (.scheduler .overrun) rfl rfl (fun _ => rfl) (by simp)
    exact callStack_published hframes hnested _ _ _ ⟨_, rfl, rfl⟩
  | requested sched _ world now ha hsched hc =>
    subst ha hsched
    have hframes := (stepOf_sched s { s.sched with
      world
      stack := .requested :: s.sched.stack
      log := s.sched.log ++ [.shutdownEvent] }).push (f := .scheduler .requested) h.frames rfl rfl
    have hclient := htop.client (by simp)
    exact callStack_published hframes
      (List.isChain_cons.mpr ⟨fun g hg => above_client (hclient g hg), h.nested⟩) _ _ _ rfl

end Scheduler

/-! ## The kernel -/

theorem stepOf_push (s : Sys μ ω κ υ τ ξ) (f : Kernel.Frame) : StepOf .kernel s (s.push f) where
  other q hq := by cases q <;> first | rfl | exact absurd rfl hq
  control := by simp [partStack, Sys.push, resize]

theorem frames_push (h : Frames s fs) (f : Kernel.Frame) : Frames (s.push f) (.kernel f :: fs) :=
  (stepOf_push s f).push h rfl rfl

/-- The kernel's innermost frame, where it is in control. -/
theorem frames_kernel {f : Kernel.Frame} {rest : List Kernel.Frame} (h : Frames s fs)
    (hctl : s.control.head? = some .kernel) (hs : s.stack = f :: rest) :
    partStack s .kernel = .kernel f :: rest.map .kernel ∧ ∃ below, fs = .kernel f :: below := by
  have hst : partStack s .kernel = .kernel f :: rest.map .kernel :=
    congrArg (List.map AnyFrame.kernel) hs
  exact ⟨hst, frames_top h hctl hst⟩

/-- The kernel's innermost frame is popped, whatever the scheduler did meanwhile. -/
theorem stepOf_kernelPop {f : Kernel.Frame} {rest : List Kernel.Frame} (hs : s.stack = f :: rest)
    (sched : Scheduler.Sys μ ω) (hst : sched.stack = s.sched.stack) (running : Bool) :
    StepOf .kernel s { s with sched, running, stack := rest, control := s.control.tail } where
  other q hq := by
    cases q with
    | kernel => exact absurd rfl hq
    | scheduler => exact congrArg (List.map AnyFrame.scheduler) hst
    | bus => rfl
    | timers => rfl
  control := by simp [partStack, hs, resize]

theorem callStack_kernelPop {f : Kernel.Frame} {rest : List Kernel.Frame} (h : CallStack s fs)
    (hctl : s.control.head? = some .kernel) (hs : s.stack = f :: rest)
    (sched : Scheduler.Sys μ ω) (hst : sched.stack = s.sched.stack) (running : Bool) :
    ∃ fs', CallStack { s with sched, running, stack := rest, control := s.control.tail } fs' := by
  obtain ⟨hk, below, rfl⟩ := frames_kernel h.frames hctl hs
  exact ⟨below, Moved.callStack h (.pop _ below fun hd => absurd hd (by simp))
    ((stepOf_kernelPop hs sched hst running).pop h.frames rfl hk)⟩

theorem schedActs_top (h : Frames s fs) {a : Kernel.Act μ ω κ υ τ ξ} {b : Scheduler.Act μ ω}
    (hacts : SchedActs s a b) : SchedTop s fs b := by
  cases hacts with
  | call op world now hc =>
    exact .call op world now fun f hf => .inl ((clientActs_iff h).mp hc f hf)
  | ret world now taktStart modStart id rest hctl hs => exact .ret world now hctl
  | goesOn world now b hctl hn hb =>
    rcases hb with rfl | rfl
    · exact .ret world now hctl
    · exact .advance now hctl

/-- The kernel before anything has been called. -/
def freshKernel (sched : Scheduler μ) (world : ω) : Sys μ ω κ υ τ ξ := { sched := { sched, world } }

theorem freshKernel_callStack (sched : Scheduler μ) (world : ω) :
    CallStack (freshKernel (κ := κ) (υ := υ) (τ := τ) (ξ := ξ) sched world) [] where
  frames := woven_nil fun p => by cases p <;> rfl
  nested := .nil
  drained f hf := absurd hf (by simp)

section Kernel

variable [DecidableEq τ] {m : IModule μ ω}

/-- **Every step of the kernel keeps the call stack.** -/
theorem kernel_callStack (h : CallStack s fs) {a : Kernel.Act μ ω κ υ τ ξ} {s' : Sys μ ω κ υ τ ξ}
    (heff : KernelEffect m s a s') : ∃ fs', CallStack s' fs' := by
  cases heff with
  | scheduler _ b hacts shutdown s' hturn =>
    have h' : CallStack { s with shutdown } fs := ⟨h.frames, h.nested, h.drained⟩
    have htop : SchedTop { s with shutdown } fs b := by
      cases schedActs_top h.frames hacts with
      | call op world now hc => exact .call op world now hc
      | ret world now hctl => exact .ret world now hctl
      | advance now hctl => exact .advance now hctl
    exact sched_callStack h' htop hturn
  | requestDone world now rest hs hctl s' hturn =>
    obtain ⟨fs', h'⟩ := sched_callStack h (.ret world now hctl) hturn
    exact ⟨fs', h'.frames, h'.nested, h'.drained⟩
  | bus _ b hacts bus hbus =>
    have hmoved : ∃ fs', Moved bus.bus.queueCount fs fs' ∧ Frames (withBus s bus) fs' := by
      cases hacts with
      | call op world now hc =>
        exact bus_call_moved h.frames ((clientActs_iff h.frames).mp hc) (step_effect hbus)
      | ret world now hctl => exact bus_ret_moved h.frames hctl (step_effect hbus)
      | goesOn world now hctl => exact bus_advance_moved h.frames hctl (step_effect hbus)
    obtain ⟨fs', hm, hf⟩ := hmoved
    exact ⟨fs', hm.callStack h hf⟩
  | timers _ b hacts timers htimers =>
    have hmoved : ∃ fs', Moved s.bus.bus.queueCount fs fs' ∧ Frames (withTimers s timers) fs' := by
      cases hacts with
      | call op world now hc =>
        exact timers_call_moved h.frames ((clientActs_iff h.frames).mp hc)
          (timer_step_effect htimers)
      | ret world now hctl => exact timers_ret_moved h.frames hctl (timer_step_effect htimers)
      | goesOn world now hctl =>
        exact timers_advance_moved h.frames hctl (timer_step_effect htimers)
    obtain ⟨fs', hm, hf⟩ := hmoved
    exact ⟨fs', hm.callStack h hf⟩
  | boot world now hc hb =>
    have hclient := (clientActs_iff h.frames).mp hc
    exact callStack_published (frames_push h.frames .booting)
      (List.isChain_cons.mpr ⟨fun g hg => above_client (hclient g hg), h.nested⟩) _ _ _ rfl
  | runRefused => exact ⟨fs, h⟩
  | run world now hc hr =>
    have hclient := (clientActs_iff h.frames).mp hc
    exact ⟨_, Moved.callStack h (.push _ fs rfl fun g hg => above_client (hclient g hg))
      (frames_push h.frames .looping)⟩
  | initialized world now rest hs hctl sched heff hst hin hok hb =>
    obtain ⟨hk, below, rfl⟩ := frames_kernel h.frames hctl hs
    have hstep : StepOf .kernel s { s with sched, stack := .announcing :: rest } := by
      refine ⟨fun q hq => ?_, by simp [partStack, hs, resize]⟩
      cases q with
      | kernel => exact absurd rfl hq
      | scheduler => exact congrArg (List.map AnyFrame.scheduler) hst
      | bus => rfl
      | timers => rfl
    have hnested : (AnyFrame.kernel .announcing :: below).IsChain Above :=
      isChain_turn h.nested fun _ => above_turn (.kernel .booting) (.kernel .announcing) rfl rfl
        (fun hd => hd) (by simp)
    exact callStack_published (hstep.turn h.frames rfl rfl hk rfl) hnested _ _ _ rfl
  | initFailed world now rest hs hctl sched heff hst hin =>
    exact callStack_kernelPop h hctl hs sched hst s.running
  | announced world now rest hs hctl => exact callStack_kernelPop h hctl hs s.sched rfl true
  | nextTakt world now rest hs hctl s' hturn =>
    obtain ⟨hk, below, rfl⟩ := frames_kernel h.frames hctl hs
    refine sched_callStack h (.call .runTakt world now fun f hf => .inr ⟨rfl, ?_⟩) hturn
    simpa using hf.symm

/-- In every state of every run the frames are one call stack. -/
theorem kernel_run_callStack {sched : Scheduler μ} {world : ω}
    {acts : List (Kernel.Act μ ω κ υ τ ξ)} {s : Sys μ ω κ υ τ ξ}
    (h : run (Sys.step m) (freshKernel sched world) acts = some s) : ∃ fs, CallStack s fs :=
  run_preserves (fun s => ∃ fs, CallStack s fs)
    (fun _ _ _ hi hs => hi.elim fun _ hcs => kernel_callStack hcs (kernel_step_effect hs))
    ⟨[], freshKernel_callStack sched world⟩ h

end Kernel

end TaktOS.Proof
