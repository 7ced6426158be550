import TaktOS.Lib.Run
import TaktOS.Middleware.MqttModule

/-!
# What becomes of a deferred message

A publish that finds no connection leaves its message in the two buffers, over the one that was
there. The next tick takes it out for good: it hands it to esp-mqtt once, if it can, and clears
the topic. So a message survives until it was published exactly when it stays alone and the next
tick publishes it.
-/

namespace TaktOS.Proof

open Lib

/-! ## Runs next to the messages owed -/

inductive MqttOp where
  | publish (topic payload : List UInt8) (published : Int)
  | tick (outboxSize published : Int)

structure MqttMessage where
  topic : List UInt8
  payload : List UInt8
  deriving DecidableEq

/-- The message of a call, as the C strings it was given. -/
def MqttMessage.of (topic payload : List UInt8) : MqttMessage := ⟨cstr topic, cstr payload⟩

/-- The part of a message that the buffers take. -/
def MqttMessage.cut (x : MqttMessage) : MqttMessage := ⟨x.topic.take 63, x.payload.take 255⟩

/-- A message that fits the buffers. -/
def MqttMessage.Fits (x : MqttMessage) : Prop := x.topic.length ≤ 63 ∧ x.payload.length ≤ 255

instance (x : MqttMessage) : Decidable x.Fits :=
  inferInstanceAs (Decidable (x.topic.length ≤ 63 ∧ x.payload.length ≤ 255))

/-- The message was handed to esp-mqtt and accepted there. -/
def MqttMessage.sentBy (x : MqttMessage) (notices : List MqttNotice) : Bool :=
  notices.any fun
    | .published topic payload result => topic = x.topic && payload = x.payload && result ≥ 0
    | _ => false

/-- The module with the messages that it deferred and has not published yet. -/
structure MqttHistory where
  mqtt : MqttModule
  owed : List MqttMessage := []

def mqttStep (client : Bool) (s : MqttHistory) : MqttOp → Option MqttHistory
  | .publish topic payload published =>
    let (_, mqtt, notices) := s.mqtt.publish client published topic payload
    let x := MqttMessage.of topic payload
    let deferred := if (!client || !s.mqtt.connected) && decide x.Fits then [x] else []
    some { mqtt, owed := (s.owed ++ deferred).filter (!·.sentBy notices) }
  | .tick outboxSize published =>
    let (mqtt, notices) := s.mqtt.tick client outboxSize published
    some { mqtt, owed := s.owed.filter (!·.sentBy notices) }

/-- What the buffers hold. -/
def stored (m : MqttModule) : MqttMessage :=
  ⟨m.pendingTopic.stringAt 0, m.pendingPayload.stringAt 0⟩

/-- **No deferred message is lost**: it is in the buffers, and they count as a message. -/
def NoneLost (s : MqttHistory) : Prop :=
  ∀ x ∈ s.owed, s.mqtt.msgPending = true ∧ stored s.mqtt = x

/-- In the state the call leaves. -/
def NoneLostAfter (client : Bool) (s : MqttHistory) (op : MqttOp) : Prop :=
  ∀ s', mqttStep client s op = some s' → NoneLost s'

/--
A message is deferred over no other one, and a tick with a message owed finds a topic and a
connection, and esp-mqtt accepts the message.
-/
def KeepsMessage (client : Bool) (s : MqttHistory) : MqttOp → Prop
  | .publish topic payload _ =>
    (client = true ∧ s.mqtt.connected = true)
      ∨ ∀ x ∈ s.owed, x = (MqttMessage.of topic payload).cut
  | .tick outboxSize published =>
    ∀ x ∈ s.owed, x.topic ≠ [] ∧ client = true ∧ (s.mqtt.connected = true ∨ 0 ≤ outboxSize)
      ∧ 0 ≤ published

/-! ## What a call does to the buffers -/

theorem stored_deferred (m : MqttModule) (topic payload : List UInt8) (work : Bool) :
    stored { m with
        pendingTopic := m.pendingTopic.strncpy topic
        pendingPayload := m.pendingPayload.strncpy payload
        msgPending := work }
      = (MqttMessage.of topic payload).cut := by
  rw [stored, CBuffer.stringAt_strncpy, CBuffer.stringAt_strncpy]
  rfl

theorem MqttMessage.cut_of_fits {x : MqttMessage} (h : x.Fits) : x.cut = x := by
  rw [cut, List.take_of_length_le h.1, List.take_of_length_le h.2]

theorem filter_sentBy_nil (xs : List MqttMessage) : xs.filter (!·.sentBy []) = xs :=
  List.filter_eq_self.mpr fun _ _ => rfl

/-- A publish without a connection. -/
theorem publish_deferred_iff {client : Bool} {s : MqttHistory} {topic payload : List UInt8}
    {published : Int} (hd : (!client || !s.mqtt.connected) = true) :
    NoneLostAfter client s (.publish topic payload published)
      ↔ ∀ x ∈ s.owed, x = (MqttMessage.of topic payload).cut := by
  rw [NoneLostAfter, mqttStep, MqttModule.publish, if_pos hd, hd]
  dsimp only
  rw [filter_sentBy_nil, Bool.true_and]
  constructor
  · intro h x hx
    obtain ⟨_, hx'⟩ := h _ rfl x (List.mem_append_left _ hx)
    rw [← hx', stored_deferred]
  · intro h s' hs x hx
    obtain rfl := Option.some.inj hs
    refine ⟨rfl, (stored_deferred s.mqtt topic payload true).trans ?_⟩
    rcases List.mem_append.mp hx with hold | hnew
    · exact (h x hold).symm
    · split at hnew
      · rename_i hfits
        rw [List.mem_singleton.mp hnew]
        exact MqttMessage.cut_of_fits (of_decide_eq_true hfits)
      · exact absurd hnew List.not_mem_nil

/-- A publish over a connection leaves the buffers alone. -/
theorem publish_connected {client : Bool} {s : MqttHistory} {topic payload : List UInt8}
    {published : Int} (hk : NoneLost s) (hd : (!client || !s.mqtt.connected) = false) :
    NoneLostAfter client s (.publish topic payload published) := by
  rw [NoneLostAfter, mqttStep, MqttModule.publish, if_neg (by rw [hd]; exact Bool.false_ne_true),
    hd]
  intro s' hs x hx
  obtain rfl := Option.some.inj hs
  rw [Bool.false_and, if_neg Bool.false_ne_true, List.append_nil] at hx
  exact hk x (List.mem_filter.mp hx).1

theorem connect_spec (m : MqttModule) (client : Bool) (outboxSize : Int) :
    (m.connect client outboxSize).1
        = { m with connected := m.connected || client && decide (0 ≤ outboxSize) }
      ∧ ∀ x : MqttMessage, x.sentBy (m.connect client outboxSize).2 = false := by
  obtain ⟨work, connected, topic, payload⟩ := m
  rw [MqttModule.connect]
  cases connected <;> cases client <;> by_cases h : 0 ≤ outboxSize <;> simp [h, MqttMessage.sentBy]

/-- Whether a tick with a message hands it to esp-mqtt, and has it accepted. -/
def delivers (client : Bool) (m : MqttModule) (outboxSize published : Int) : Prop :=
  client = true ∧ (m.connected = true ∨ 0 ≤ outboxSize) ∧ 0 ≤ published

theorem sentBy_append {x : MqttMessage} {ns ns' : List MqttNotice} (h : x.sentBy ns = false) :
    x.sentBy (ns ++ ns') = x.sentBy ns' := by
  rw [MqttMessage.sentBy, List.any_append]
  exact (congrArg (· || _) h).trans (Bool.false_or _)

/-- Ended at its first character, a topic is empty. -/
theorem stringAt_terminate_zero {n : Nat} (b : CBuffer n) : (b.terminate 0).stringAt 0 = [] :=
  (b.stringAt_terminate (p := 0) (k := 0) (Nat.zero_le _)).trans List.take_zero

/-- **A tick takes a message out of the buffers**, and esp-mqtt has it or nobody has. -/
theorem tick_message (client : Bool) (outboxSize published : Int) {m : MqttModule}
    (hp : m.msgPending = true) (ht : m.pendingTopic.stringAt 0 ≠ []) :
    (stored (m.tick client outboxSize published).1).topic = []
      ∧ ∀ x : MqttMessage, x.sentBy (m.tick client outboxSize published).2 = true
        ↔ x = stored m ∧ delivers client m outboxSize published := by
  obtain ⟨hconn, hsent⟩ := connect_spec m client outboxSize
  rw [MqttModule.tick]
  dsimp only
  rw [hconn, if_pos hp, if_pos ht, MqttModule.publish]
  dsimp only
  split
  · -- no connection: the message is deferred once more, and its topic cleared
    rename_i hd
    refine ⟨stringAt_terminate_zero _, fun x => ?_⟩
    rw [List.append_nil, hsent]
    refine ⟨fun h => absurd h Bool.false_ne_true, fun ⟨_, hc, ho, _⟩ => ?_⟩
    rcases ho with ho | ho <;> simp [hc, ho] at hd
  · rename_i hd
    have hd' : client = true ∧ (m.connected = true ∨ 0 ≤ outboxSize) := by
      simp only [Bool.or_eq_true, Bool.not_eq_true', not_or, Bool.not_eq_false,
        Bool.and_eq_true, decide_eq_true_eq] at hd
      exact ⟨hd.1, hd.2.imp_right And.right⟩
    refine ⟨stringAt_terminate_zero _, fun x => ?_⟩
    have htopic : cstr (m.pendingTopic.stringAt 0) = m.pendingTopic.stringAt 0 :=
      cstr_of_ne_zero cstr_ne_zero
    have hpayload : cstr (m.pendingPayload.stringAt 0) = m.pendingPayload.stringAt 0 :=
      cstr_of_ne_zero cstr_ne_zero
    rw [sentBy_append (hsent x), htopic, hpayload, delivers, stored]
    obtain ⟨topic, payload⟩ := x
    simp only [MqttMessage.sentBy, List.any_cons, List.any_nil, Bool.or_false, Bool.and_eq_true,
      decide_eq_true_eq, MqttMessage.mk.injEq, hd', true_and]
    exact ⟨fun ⟨⟨h, h'⟩, hr⟩ => ⟨⟨h.symm, h'.symm⟩, hr⟩,
      fun ⟨⟨h, h'⟩, hr⟩ => ⟨⟨h.symm, h'.symm⟩, hr⟩⟩

/-- Without a topic a tick drops what it finds. -/
theorem tick_no_topic (client : Bool) (outboxSize published : Int) {m : MqttModule}
    (hp : m.msgPending = true) (ht : m.pendingTopic.stringAt 0 = []) :
    (m.tick client outboxSize published).1.msgPending = false
      ∧ ∀ x : MqttMessage, x.sentBy (m.tick client outboxSize published).2 = false := by
  obtain ⟨hconn, hsent⟩ := connect_spec m client outboxSize
  rw [MqttModule.tick]
  dsimp only
  rw [hconn, if_pos hp, if_neg (by simpa using ht)]
  exact ⟨rfl, hsent⟩

/-! ## Steps -/

theorem tick_iff {client : Bool} {s : MqttHistory} (hk : NoneLost s) (outboxSize published : Int) :
    NoneLostAfter client s (.tick outboxSize published)
      ↔ KeepsMessage client s (.tick outboxSize published) := by
  have hafter : NoneLostAfter client s (.tick outboxSize published)
      ↔ ∀ x ∈ s.owed, x.sentBy (s.mqtt.tick client outboxSize published).2 = false →
          (s.mqtt.tick client outboxSize published).1.msgPending = true
            ∧ stored (s.mqtt.tick client outboxSize published).1 = x := by
    rw [NoneLostAfter, mqttStep]
    simp only [Option.some.injEq, forall_eq', NoneLost, List.mem_filter, Bool.not_eq_true',
      and_imp]
  rw [hafter, KeepsMessage]
  constructor
  · intro h x hx
    obtain ⟨hp, hx'⟩ := hk x hx
    have htopic : x.topic = s.mqtt.pendingTopic.stringAt 0 := by rw [← hx']; rfl
    by_cases ht : s.mqtt.pendingTopic.stringAt 0 = []
    · obtain ⟨hwork, hsent⟩ := tick_no_topic client outboxSize published hp ht
      exact absurd (h x hx (hsent x)).1 (by rw [hwork]; exact Bool.false_ne_true)
    · obtain ⟨hcleared, hsent⟩ := tick_message client outboxSize published hp ht
      by_cases hs : x.sentBy (s.mqtt.tick client outboxSize published).2 = true
      · exact ⟨htopic ▸ ht, ((hsent x).mp hs).2⟩
      · -- the topic is gone, so the message is not there any more
        have hgone := (h x hx (Bool.eq_false_iff.mpr hs)).2
        rw [hgone, htopic] at hcleared
        exact absurd hcleared ht
  · intro h x hx hs
    obtain ⟨hp, hx'⟩ := hk x hx
    obtain ⟨htopic, hdel⟩ := h x hx
    have ht : s.mqtt.pendingTopic.stringAt 0 ≠ [] := by rw [← hx'] at htopic; exact htopic
    rw [((tick_message client outboxSize published hp ht).2 x).mpr ⟨hx'.symm, hdel⟩] at hs
    exact absurd hs.symm Bool.false_ne_true

/-- **When a call loses no message.** -/
theorem noneLostAfter_iff {client : Bool} {s : MqttHistory} (hk : NoneLost s) (op : MqttOp) :
    NoneLostAfter client s op ↔ KeepsMessage client s op := by
  cases op with
  | tick outboxSize published => exact tick_iff hk outboxSize published
  | publish topic payload published =>
    rw [KeepsMessage]
    by_cases hd : (!client || !s.mqtt.connected) = true
    · rw [publish_deferred_iff hd, or_iff_right]
      rintro ⟨hc, hm⟩
      simp [hc, hm] at hd
    · refine iff_of_true (publish_connected hk (Bool.eq_false_iff.mpr hd)) (.inl ?_)
      simpa using hd

/-! ## The theorem -/

/--
**No deferred message is lost** in any state of a run exactly when, along it, no message is
deferred over another one and every tick that finds a message delivers it.
-/
theorem deferred_kept_iff (client : Bool) (mqtt : MqttModule) (ops : List MqttOp) :
    Along (mqttStep client) (NoneLostAfter client) { mqtt } ops
      ↔ Along (mqttStep client) (KeepsMessage client) { mqtt } ops :=
  along_iff_of_invariant NoneLost (fun _ _ s' _ h hs => h s' hs)
    (fun _ op hk => noneLostAfter_iff hk op) fun _ hx => absurd hx List.not_mem_nil

/-- Whether a message that is owed is not in the buffers. -/
def loses (s : MqttHistory) : Bool :=
  s.owed.any fun x => !(s.mqtt.msgPending && decide (stored s.mqtt = x))

theorem not_along_of_loses {client : Bool} {mqtt : MqttModule} {ops : List MqttOp}
    (h : (run (mqttStep client) { mqtt } ops).map loses = some true) :
    ¬ Along (mqttStep client) (NoneLostAfter client) { mqtt } ops := by
  intro hal
  obtain ⟨t, ht, hl⟩ := Option.map_eq_some_iff.mp h
  have hk : NoneLost t := run_invariant NoneLost (fun _ _ s' _ h hs => h s' hs)
    (fun _ hx => absurd hx List.not_mem_nil) hal ht
  obtain ⟨x, hx, hgone⟩ := List.any_eq_true.mp hl
  simp [hk x hx] at hgone

/--
**A refused message is gone, and so is the first of two.** A tick hands esp-mqtt the message it
refuses, and of two messages deferred before a tick the buffers hold the second.
-/
theorem deferred_lost :
    ¬ Along (mqttStep true) (NoneLostAfter true) { mqtt := {} }
        [.publish [0x74] [0x31] 0, .tick 0 (-1)]
      ∧ ¬ Along (mqttStep true) (NoneLostAfter true) { mqtt := {} }
        [.publish [0x74] [0x31] 0, .publish [0x74] [0x32] 0] :=
  ⟨not_along_of_loses (by decide), not_along_of_loses (by decide)⟩

end TaktOS.Proof
