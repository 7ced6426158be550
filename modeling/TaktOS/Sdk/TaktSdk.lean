import TaktOS.Kernel.EventBus
import TaktOS.Kernel.Scheduler

/-!
# The SDK

`takt_register_module`, `takt_subscribe` and `takt_publish` of `takt_sdk.h` and `takt_sdk.cpp`.
A C function is an address in `φ`, a `void*` of a client a value in `γ`.

The adapter and the event context are `static` locals: there is one of each, initialized by the
first call that comes to it.
-/

namespace TaktOS

namespace Sdk

inductive TaktModuleType where
  | static
  | dynamic
  | background
  deriving DecidableEq, Repr

/-- `takt_module_t`. -/
structure TaktModule (φ γ : Type) where
  name : Option String := none
  type : TaktModuleType := .static
  init : Option φ := none
  tick : Option φ := none
  shutdown : Option φ := none
  hasWork : Option φ := none
  budgetUs : UInt32 := 0
  ctx : γ
  deriving DecidableEq

/-- What a method of the adapter does: return what a C function does, or a value of its own. -/
inductive Outcome (φ γ β : Type) where
  | calls (f : φ) (ctx : γ)
  | returns (b : β)
  deriving DecidableEq

/-- The methods of a module that the scheduler goes by. -/
structure Methods (φ γ : Type) where
  init : Outcome φ γ Bool
  tick : Outcome φ γ Unit
  shutdown : Outcome φ γ Unit
  hasWork : Outcome φ γ Bool
  budgetUs : UInt32
  deriving DecidableEq

variable {φ γ μ : Type}

/-! ## Modules -/

namespace SdkModuleAdapter

def init (desc : TaktModule φ γ) : Outcome φ γ Bool :=
  match desc.init with
  | some f => .calls f desc.ctx
  | none => .returns true

def tick (desc : TaktModule φ γ) : Outcome φ γ Unit :=
  match desc.tick with
  | some f => .calls f desc.ctx
  | none => .returns ()

def shutdown (desc : TaktModule φ γ) : Outcome φ γ Unit :=
  match desc.shutdown with
  | some f => .calls f desc.ctx
  | none => .returns ()

def name (desc : TaktModule φ γ) : String := desc.name.getD "SdkModule"

def type (desc : TaktModule φ γ) : ModuleType :=
  match desc.type with
  | .dynamic => .dynamic
  | .background => .background
  | .static => .static

def hasWork (desc : TaktModule φ γ) : Outcome φ γ Bool :=
  match desc.hasWork with
  | some f => .calls f desc.ctx
  | none => .returns true

def methods (desc : TaktModule φ γ) : Methods φ γ where
  init := init desc
  tick := tick desc
  shutdown := shutdown desc
  hasWork := hasWork desc
  budgetUs := desc.budgetUs

end SdkModuleAdapter

/-- A module of the scheduler: the adapter or one of the kernel's own. -/
inductive Module (μ : Type) where
  | adapter
  | other (module : μ)
  deriving DecidableEq

/-- The scheduler and the static adapter, with the descriptor it was made of. -/
structure Registrar (μ φ γ : Type) where
  adapter : Option (TaktModule φ γ) := none
  sched : Scheduler (Module μ) := {}

namespace Registrar

def taktRegisterModule (s : Registrar μ φ γ) :
    Option (TaktModule φ γ) → Int × Registrar μ φ γ
  | none => (-1, s)
  | some desc =>
    let (id, sched) := s.sched.registerModule (some .adapter)
    ((id.toNat : Int), { adapter := some (s.adapter.getD desc), sched })

/-- The methods of the module of an entry, by those of the kernel's own modules. -/
def methods (s : Registrar μ φ γ) (others : μ → Methods φ γ) :
    Module μ → Option (Methods φ γ)
  | .adapter => s.adapter.map SdkModuleAdapter.methods
  | .other module => some (others module)

end Registrar

/-! ## Events -/

/-- `EventCtx`, where the callback and the user data may be null. -/
structure EventCtx (φ γ : Type) where
  cb : Option φ
  user : Option γ
  deriving DecidableEq

/-- A callback that the bus holds: `sdkEventBridge` or one of another client. -/
inductive BusCallback (κ : Type) where
  | bridge
  | other (callback : κ)
  deriving DecidableEq

/-- User data that the bus holds: the static context or another pointer. -/
inductive BusUser (υ : Type) where
  | eventCtx
  | other (user : υ)
  deriving DecidableEq

/-- A call of a C callback. -/
structure EventCall (φ γ : Type) where
  cb : φ
  event : EventBus.Event
  p1 : UInt32
  p2 : UInt32
  user : Option γ
  deriving DecidableEq

variable {κ υ : Type}

/-- The call that the bridge makes. It is given to the bus with the static context alone. -/
def sdkEventBridge (ctx : Option (EventCtx φ γ)) (data : EventData) :
    Option (BusUser υ) → Option (EventCall φ γ)
  | some .eventCtx =>
    match ctx with
    | some { cb := some cb, user } =>
      some { cb, event := data.id, p1 := data.param1, p2 := data.param2, user }
    | _ => none
  | _ => none

/-- The bus and the static context. -/
structure Subscriber (κ υ φ γ : Type) where
  ctx : Option (EventCtx φ γ) := none
  bus : EventBus (BusCallback κ) (BusUser υ) := {}

namespace Subscriber

def taktSubscribe (s : Subscriber κ υ φ γ) (event : EventBus.Event) (cb : Option φ)
    (user : Option γ) : Int × Subscriber κ υ φ γ :=
  let (handle, bus) := s.bus.subscribe event (some .bridge) (some .eventCtx)
  (handle, { ctx := some (s.ctx.getD { cb, user }), bus })

end Subscriber

/-- `takt_publish`, as a call of the bus. -/
def taktPublish (event : EventBus.Event) (p1 p2 : UInt32) :
    EventBus.Op (BusCallback κ) (BusUser υ) :=
  .publish { id := event, param1 := p1, param2 := p2 }

end Sdk

end TaktOS
