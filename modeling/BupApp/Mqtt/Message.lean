/-
# BupApp.Mqtt.Message -- messages and the C structures inside them

A message keeps its topic, payload and properties, and beside them the structure the C library is
given, with pointers into them.  Copies and moves set the pointer to the payload anew.  The
properties they leave out: the copy has none, and its C structure points to those of its source.
-/
import BupApp.Lib.Objects
import BupApp.Lib.Text

namespace BupApp.Mqtt

open BupApp.Lib BupApp.Lib.Text BupApp.Lib.Transition

/-! ## Buffers -/

/-- A text in memory (`buffer_ref::blob`), which is never changed and which several buffers share. -/
structure Blob where
  addr : Nat
  text : List Char
  deriving DecidableEq

abbrev BufferRef := Option Blob

def BufferRef.isEmpty : BufferRef → Bool
  | none => true
  | some b => b.text.isEmpty

/-- `string_ref(string())`, in new memory. -/
def emptyRef (addr : Nat) : BufferRef := some ⟨addr, []⟩

/-- `(int)` of a size. -/
def intOfSize (n : Nat) : Int := (BitVec.ofNat 32 n).toInt

def toInt (b : Bool) : Int := if b then 1 else 0

/-- A length and a pointer to that many characters, in the C library's structures. -/
structure CData where
  len : Int
  data : Option Blob
  deriving DecidableEq

/-- What `message::set_payload` and `connect_options::set_password` store. -/
def CData.ofRef (b : BufferRef) : CData :=
  match b with
  | none => ⟨0, none⟩
  | some blob => if blob.text.isEmpty then ⟨0, none⟩ else ⟨intOfSize blob.text.length, blob⟩

/-- What is there to be read. -/
def CData.bytes (d : CData) : List Char :=
  match d.data with
  | none => []
  | some blob => blob.text.take d.len.toNat

/-- What of a buffer the C library reads by its length. -/
def BufferRef.bytes : BufferRef → List Char
  | none => []
  | some blob => blob.text.take (intOfSize blob.text.length).toNat

theorem CData.bytes_ofRef (b : BufferRef) : (CData.ofRef b).bytes = b.bytes := by
  cases b with
  | none => rfl
  | some blob =>
      obtain ⟨addr, text⟩ := blob
      cases text with
      | nil => simp [CData.ofRef, CData.bytes, BufferRef.bytes]
      | cons c text => rfl

/-- The text pointed to is in memory, kept by an owner, or there is no pointer. -/
def CData.Valid (held : Blob → Prop) (d : CData) : Prop := ∀ blob ∈ d.data, held blob

theorem CData.valid_ofRef {held : Blob → Prop} {b : BufferRef} (h : ∀ blob ∈ b, held blob) :
    (CData.ofRef b).Valid held := by
  intro blob hblob
  cases b with
  | none => cases hblob
  | some blob' =>
      simp only [CData.ofRef] at hblob
      split at hblob
      · cases hblob
      · exact h blob hblob

/-- `MQTTProperties`: their number and the memory they are in.  What they say is not modelled. -/
structure MQTTProperties where
  count : Nat
  array : Option Nat
  deriving DecidableEq

def MQTTProperties.none : MQTTProperties := ⟨0, Option.none⟩

/-- `MQTTProperties_copy` is the C library's: what it makes of properties in new memory at an
address. -/
abbrev PropertiesCopy := MQTTProperties → Nat → MQTTProperties

/-! ## Messages -/

/-- `MQTTAsync_message`. -/
structure MQTTAsyncMessage where
  payload : CData
  qos : Int
  retained : Int
  dup : Int
  properties : MQTTProperties
  deriving DecidableEq

/-- `MQTTAsync_message_initializer`. -/
def MQTTAsyncMessage.initializer : MQTTAsyncMessage where
  payload := ⟨0, none⟩
  qos := 0
  retained := 0
  dup := 0
  properties := .none

/-- `props` is the C structure inside `properties`. -/
structure Message where
  msg : MQTTAsyncMessage
  topic : BufferRef
  payload : BufferRef
  props : MQTTProperties
  deriving DecidableEq

/-- The constructors: the default one, those with a payload, and the one for what the C library
delivers, which copies the payload to `textAt` and the properties to `propsAt`. -/
inductive MessageArgs where
  | default
  | make (topic payload : BufferRef) (qos : Int) (retained : Bool)
  | received (topic : BufferRef) (msg : MQTTAsyncMessage) (textAt propsAt : Nat)

inductive MessageCall where
  | setTopic (topic : BufferRef) (textAt : Nat)
  | clearPayload
  | setPayload (payload : BufferRef)
  | setQos (qos : Int)
  | setRetained (retained : Bool)
  | setProperties (props : MQTTProperties) (propsAt : Nat)

namespace Message

def default : Message := ⟨.initializer, none, none, .none⟩

def getTopic (m : Message) : List Char := (m.topic.map (·.text)).getD []

def setPayload (m : Message) (payload : BufferRef) : Message :=
  { m with msg := { m.msg with payload := CData.ofRef payload }, payload := payload }

/-- `validate_qos` lets these pass. -/
def ValidQos (qos : Int) : Prop := 0 ≤ qos ∧ qos ≤ 2

instance (qos : Int) : Decidable (ValidQos qos) := inferInstanceAs (Decidable (_ ∧ _))

def setRetained (m : Message) (retained : Bool) : Message :=
  { m with msg := { m.msg with retained := toInt retained } }

/-- A constructor whose `set_qos` throws makes no message. -/
def construct (copyProps : PropertiesCopy) : MessageArgs → Option Message
  | .default => some default
  | .make topic payload qos retained =>
      if ValidQos qos then
        let m := { default with topic := topic }.setPayload payload
        some ({ m with msg := { m.msg with qos := qos } }.setRetained retained)
      else none
  | .received topic msg textAt propsAt =>
      let props := copyProps msg.properties propsAt
      let m : Message := ⟨{ msg with properties := props }, topic, none, props⟩
      some (m.setPayload (some ⟨textAt, msg.payload.bytes⟩))

def copy (other : Message) : Message :=
  (Message.mk other.msg other.topic none .none).setPayload other.payload

/-- What is left of a message that has been moved. -/
def left (m : Message) : Message :=
  { m with msg := { m.msg with payload := ⟨0, none⟩ }, topic := none, payload := none }

def assign (m rhs : Message) : Message :=
  { m with msg := rhs.msg, topic := rhs.topic }.setPayload rhs.payload

/-- `set_topic` asks whether there has been a topic, not whether it is given one. -/
def setTopic (m : Message) (topic : BufferRef) (textAt : Nat) : Message :=
  { m with topic := if m.topic.isSome then topic else emptyRef textAt }

/-- A `set_qos` that throws has changed nothing. -/
def call (copyProps : PropertiesCopy) (m : Message) : MessageCall → Message
  | .setTopic topic textAt => m.setTopic topic textAt
  | .clearPayload => { m with msg := { m.msg with payload := ⟨0, none⟩ }, payload := none }
  | .setPayload payload => m.setPayload payload
  | .setQos qos => if ValidQos qos then { m with msg := { m.msg with qos := qos } } else m
  | .setRetained retained => m.setRetained retained
  | .setProperties props propsAt =>
      let props := copyProps props propsAt
      { m with msg := { m.msg with properties := props }, props := props }

/-- The assignments do nothing where both sides are one message. -/
def cls (copyProps : PropertiesCopy) :
    Objects.ObjectClass Message MessageArgs MessageCall Unit where
  construct := fun _ k => construct copyProps k
  copy := fun _ _ other => other.copy
  move := fun _ _ other => (other.copy, other.left)
  assign := fun _ a b m rhs => if b ≠ a then m.assign rhs else m
  moveAssign := fun _ a b m rhs => if b ≠ a then (m.assign rhs, rhs.left) else (m, m)
  call := fun _ c m => m.call copyProps c

end Message

/-! ## What a message hands to the C library -/

/-- What the program has a message say. -/
structure MessageValue where
  topic : Option (List Char)
  payload : List Char
  qos : Int
  retained : Int
  dup : Int
  deriving DecidableEq

def MessageArgs.value : MessageArgs → Option MessageValue
  | .default => some ⟨none, [], 0, 0, 0⟩
  | .make topic payload qos retained =>
      if Message.ValidQos qos then
        some ⟨topic.map (·.text), payload.bytes, qos, toInt retained, 0⟩
      else none
  | .received topic msg textAt _ =>
      some ⟨topic.map (·.text), BufferRef.bytes (some ⟨textAt, msg.payload.bytes⟩), msg.qos,
        msg.retained, msg.dup⟩

def MessageValue.call (m : MessageCall) (v : MessageValue) : MessageValue :=
  match m with
  | .setTopic topic _ =>
      { v with topic := if v.topic.isSome then topic.map (·.text) else some [] }
  | .clearPayload => { v with payload := [] }
  | .setPayload payload => { v with payload := payload.bytes }
  | .setQos qos => if Message.ValidQos qos then { v with qos := qos } else v
  | .setRetained retained => { v with retained := toInt retained }
  | .setProperties _ _ => v

namespace Message

/-- The members say what the value says, and the pointer to the payload is to the message's own. -/
structure HasValue (m : Message) (v : MessageValue) : Prop where
  topic : m.topic.map (·.text) = v.topic
  data : m.msg.payload = CData.ofRef m.payload
  payload : m.payload.bytes = v.payload
  qos : m.msg.qos = v.qos
  retained : m.msg.retained = v.retained
  dup : m.msg.dup = v.dup

theorem HasValue.construct (copyProps : PropertiesCopy) (k : MessageArgs) :
    Option.Rel HasValue (construct copyProps k) k.value := by
  cases k with
  | default => exact .some ⟨rfl, rfl, rfl, rfl, rfl, rfl⟩
  | make topic payload qos retained =>
      by_cases hqos : ValidQos qos
      · simp only [Message.construct, MessageArgs.value, if_pos hqos]
        exact .some ⟨rfl, rfl, rfl, rfl, rfl, rfl⟩
      · simp only [Message.construct, MessageArgs.value, if_neg hqos]
        exact .none
  | received topic msg textAt propsAt => exact .some ⟨rfl, rfl, rfl, rfl, rfl, rfl⟩

theorem HasValue.copy {m : Message} {v : MessageValue} (h : HasValue m v) : HasValue m.copy v :=
  ⟨h.topic, rfl, h.payload, h.qos, h.retained, h.dup⟩

theorem HasValue.assign {rhs : Message} {v : MessageValue} (h : HasValue rhs v) (m : Message) :
    HasValue (m.assign rhs) v :=
  ⟨h.topic, rfl, h.payload, h.qos, h.retained, h.dup⟩

theorem HasValue.setTopic {m : Message} {v : MessageValue} (h : HasValue m v) (topic : BufferRef)
    (textAt : Nat) : HasValue (m.setTopic topic textAt) (v.call (.setTopic topic textAt)) := by
  refine ⟨?_, h.data, h.payload, h.qos, h.retained, h.dup⟩
  have hsome : m.topic.isSome = v.topic.isSome := by rw [← h.topic, Option.isSome_map]
  simp only [Message.setTopic, MessageValue.call, hsome]
  split
  · rfl
  · rfl

theorem HasValue.call {m : Message} {v : MessageValue} (h : HasValue m v)
    (copyProps : PropertiesCopy) (c : MessageCall) :
    HasValue (m.call copyProps c) (v.call c) := by
  cases c with
  | setTopic topic textAt => exact h.setTopic topic textAt
  | clearPayload => exact ⟨h.topic, rfl, rfl, h.qos, h.retained, h.dup⟩
  | setPayload payload => exact ⟨h.topic, rfl, rfl, h.qos, h.retained, h.dup⟩
  | setQos qos =>
      by_cases hqos : ValidQos qos
      · simp only [Message.call, MessageValue.call, if_pos hqos]
        exact ⟨h.topic, h.data, h.payload, rfl, h.retained, h.dup⟩
      · simpa only [Message.call, MessageValue.call, if_neg hqos] using h
  | setRetained retained => exact ⟨h.topic, h.data, h.payload, h.qos, rfl, h.dup⟩
  | setProperties props propsAt =>
      exact ⟨h.topic, h.data, h.payload, h.qos, h.retained, h.dup⟩

theorem hasValues (copyProps : PropertiesCopy) :
    Objects.HasValues (cls copyProps) MessageArgs.value MessageValue.call (fun _ => HasValue) where
  construct := fun _ k => HasValue.construct copyProps k
  copy := fun _ _ _ _ _ _ h => h.copy
  move := fun _ _ _ _ _ _ h => h.copy
  assign := by
    intro _ a b m rhs v hab h
    simp only [cls, if_pos hab.symm]
    exact h.assign m
  assignSelf := by
    intro _ a m v h
    simpa only [cls, ne_eq, not_true, if_false] using h
  moveAssign := by
    intro _ a b m rhs v hab h
    simp only [cls, if_pos hab.symm]
    exact h.assign m
  moveAssignSelf := by
    intro _ a m v h
    simpa only [cls, ne_eq, not_true, if_false] using h
  call := fun _ c _ _ h => h.call copyProps c

/-- Some message that is alive keeps the text in memory. -/
def Held (s : Objects.Store Message) (blob : Blob) : Prop :=
  ∃ a, ∃ m ∈ s a, blob ∈ m.topic ∨ blob ∈ m.payload

/-- `MQTTAsync_sendMessage(cli_, msg->get_topic().c_str(), &msg->msg_, ..)` reads the value, and only
memory that is there.  Of the topic it reads what stands before the first NUL. -/
structure Hands (s : Objects.Store Message) (m : Message) (v : MessageValue) : Prop where
  topic : m.getTopic = v.topic.getD []
  valid : m.msg.payload.Valid (Held s)
  payload : m.msg.payload.bytes = v.payload
  qos : m.msg.qos = v.qos
  retained : m.msg.retained = v.retained
  dup : m.msg.dup = v.dup

theorem HasValue.hands {s : Objects.Store Message} {a : Nat} {m : Message} {v : MessageValue}
    (h : HasValue m v) (ha : s a = some m) : Hands s m v where
  topic := by rw [getTopic, h.topic]
  valid := by
    rw [h.data]
    exact CData.valid_ofRef fun blob hblob => ⟨a, m, ha, Or.inr hblob⟩
  payload := by rw [h.data, CData.bytes_ofRef, h.payload]
  qos := h.qos
  retained := h.retained
  dup := h.dup

/-! ## Properties -/

/-- The C structure has the message's own properties. -/
def OwnsProperties (m : Message) : Prop := m.msg.properties = m.props

/-- A copy has no properties of its own, and an assignment leaves those of its target alone. -/
theorem keepsExactly (copyProps : PropertiesCopy) : Objects.KeepsExactly (cls copyProps)
    (fun _ => OwnsProperties) (fun other => other.props = .none)
    (fun m rhs => rhs.props = m.props) where
  construct := by
    intro _ k m hm
    cases k with
    | default => obtain rfl := Option.some.inj hm; rfl
    | make topic payload qos retained =>
        simp only [cls, Message.construct, Option.mem_def] at hm
        split at hm
        · obtain rfl := Option.some.inj hm; rfl
        · cases hm
    | received topic msg textAt propsAt => obtain rfl := Option.some.inj hm; rfl
  copy := by
    intro _ a b m _ h
    rw [← (show m.msg.properties = m.props from h)]
    exact Iff.rfl
  move := by
    intro _ a b m _ h
    refine ⟨?_, h⟩
    rw [← (show m.msg.properties = m.props from h)]
    exact Iff.rfl
  assign := by
    intro _ a b m rhs hab _ h
    simp only [cls, if_pos hab.symm]
    rw [← (show rhs.msg.properties = rhs.props from h)]
    exact Iff.rfl
  assignSelf := by
    intro _ a m h
    simpa only [cls, ne_eq, not_true, if_false] using h
  moveAssign := by
    intro _ a b m rhs hab _ h
    simp only [cls, if_pos hab.symm]
    refine ⟨?_, h⟩
    rw [← (show rhs.msg.properties = rhs.props from h)]
    exact Iff.rfl
  moveAssignSelf := by
    intro _ a m h
    simpa only [cls, ne_eq, not_true, if_false] using h
  call := by
    intro _ c m h
    cases c with
    | setTopic topic textAt => exact h
    | clearPayload => exact h
    | setPayload payload => exact h
    | setQos qos =>
        simp only [cls, Message.call]
        split
        · exact h
        · exact h
    | setRetained retained => exact h
    | setProperties props propsAt => rfl

/-- No memory is asked for where there are no properties. -/
def newArray : PropertiesCopy := fun p addr => if p.count = 0 then .none else ⟨p.count, some addr⟩

/-- A delivered message with a property is copied, and the copy sent when the first one is gone. -/
def resent : List (Objects.Label MessageArgs MessageCall Unit) :=
  [.construct 0 (.received (some ⟨1, "ann".toList⟩)
      ⟨⟨3, some ⟨2, "~/a".toList⟩⟩, 1, 0, 0, ⟨1, some 3⟩⟩ 4 5),
    .copy () 1 0, .destroy 0]

end Message

end BupApp.Mqtt
