/-
# BupApp.Mqtt.ConnectOptions -- the options of a connection and the C structure inside them

Connect options keep a will, a user name and a password, properties, a token and a list of servers,
and beside them the structure that `connect` hands to the C library, with pointers into all of
these.  `connect` takes them by value, so what the C library reads is what a copy made of them.

A copy, a move and an assignment set the pointers to the will, the user name and the password anew.
Those to the properties, the servers and the token they take over as they are, without what these
point to.  The options for TLS are left out.
-/
import BupApp.Mqtt.Message
import BupApp.Mqtt.Token

namespace BupApp.Mqtt

open BupApp.Lib BupApp.Lib.Text BupApp.Lib.Transition
open BupApp.Mqtt.Message (newArray)

/-! ## Wills -/

/-- `MQTTAsync_willOptions`. -/
structure MQTTAsyncWillOptions where
  topicName : Option Blob
  payload : CData
  qos : Int
  retained : Int
  deriving DecidableEq

structure WillOptions where
  opts : MQTTAsyncWillOptions
  topic : BufferRef
  payload : BufferRef
  props : MQTTProperties
  deriving DecidableEq

/-- Where `set_topic` and `set_payload` make an empty text when they are given none. -/
structure EmptyAt where
  topic : Nat
  payload : Nat

namespace WillOptions

def setTopic (w : WillOptions) (top : BufferRef) (textAt : Nat) : WillOptions :=
  let topic := if top.isSome then top else emptyRef textAt
  { w with topic := topic, opts := { w.opts with topicName := topic } }

/-- For a will the pointer to the payload is never null. -/
def setPayload (w : WillOptions) (msg : BufferRef) (textAt : Nat) : WillOptions :=
  let payload := if msg.isSome then msg else emptyRef textAt
  let size := (payload.map (·.text.length)).getD 0
  { w with
    payload := payload
    opts := { w.opts with payload := ⟨intOfSize size, payload⟩ } }

/-- `will_options()`; the payload of the C structure is that of its initializer. -/
def default (textAt : Nat) : WillOptions :=
  WillOptions.setTopic ⟨⟨none, ⟨0, none⟩, 0, 0⟩, none, none, .none⟩ (emptyRef textAt) textAt

def make (topic payload : BufferRef) (qos : Int) (retained : Bool) (e : EmptyAt) : WillOptions :=
  (WillOptions.setTopic ⟨⟨none, ⟨0, none⟩, qos, toInt retained⟩, none, none, .none⟩ topic e.topic)
    |>.setPayload payload e.payload

/-- `will_options(const message&)` makes new texts of the topic and the payload, empty ones for a
message without them. -/
def ofMessage (m : Message) (e : EmptyAt) : WillOptions :=
  make (some ⟨e.topic, m.getTopic⟩) (some ⟨e.payload, (m.payload.map (·.text)).getD []⟩) m.msg.qos
    (m.msg.retained ≠ 0) e

/-- The copy and the move constructor: the properties are left out. -/
def copy (opt : WillOptions) (e : EmptyAt) : WillOptions :=
  (WillOptions.setTopic ⟨opt.opts, none, none, .none⟩ opt.topic e.topic)
    |>.setPayload opt.payload e.payload

/-- The assignment of another will: the properties stay those of the target. -/
def assign (w rhs : WillOptions) (e : EmptyAt) : WillOptions :=
  ({ w with opts := rhs.opts }.setTopic rhs.topic e.topic).setPayload rhs.payload e.payload

end WillOptions

/-! ## Connect options -/

/-- `string_collection`: a list of texts and the array of pointers to them, in one object. -/
structure StringCollection where
  addr : Nat
  coll : List (List Char)
  deriving DecidableEq

/-- What of `MQTTAsync_connectOptions` is not a pointer.  `v5Callbacks` tells which two of the four
callbacks are set, if any. -/
structure ConnectScalars where
  keepAliveInterval : Int
  cleansession : Int
  maxInflight : Int
  connectTimeout : Int
  MQTTVersion : Int
  automaticReconnect : Int
  minRetryInterval : Int
  maxRetryInterval : Int
  cleanstart : Int
  v5Callbacks : Option Bool
  deriving DecidableEq

/-- `MQTTAsync_connectOptions`.  A pointer to a member of connect options is the address of these. -/
structure MQTTAsyncConnectOptions where
  scalars : ConnectScalars
  will : Option Nat
  willProperties : Option Nat
  username : Option Blob
  binarypwd : CData
  context : Option Nat
  serverURIcount : Int
  serverURIs : Option StringCollection
  connectProperties : Option Nat
  deriving DecidableEq

structure ConnectOptions where
  opts : MQTTAsyncConnectOptions
  will : WillOptions
  userName : BufferRef
  password : BufferRef
  tok : Option Nat
  serverURIs : Option StringCollection
  props : MQTTProperties
  deriving DecidableEq

/-- The constructors: `connect_options()`, and the one with a user name and a password. -/
inductive ConnectArgs where
  | default (textAt : Nat)
  | user (userName password : BufferRef) (textAt : Nat)

/-- The setters of plain values. -/
inductive ScalarCall where
  | setKeepAliveInterval (n : Int)
  | setConnectTimeout (n : Int)
  | setMaxInflight (n : Int)
  | setCleanSession (cleanSession : Bool)
  | setCleanStart (cleanStart : Bool)
  | setAutomaticReconnect (on : Bool)
  | setRetryIntervals (minRetryInterval maxRetryInterval : Int)
  | setMqttVersion (mqttVersion : Int)

inductive ConnectCall where
  | scalar (c : ScalarCall)
  | setUserName (userName : BufferRef)
  | setPassword (password : BufferRef)
  | setWill (will : WillOptions) (e : EmptyAt)
  | setWillMessage (msg : Option Message) (e : EmptyAt)
  | setToken (tok : Option Nat)
  | setServers (serverURIs : Option StringCollection)
  | setProperties (props : MQTTProperties) (propsAt : Nat)

namespace ConnectScalars

def call (o : ConnectScalars) : ScalarCall → ConnectScalars
  | .setKeepAliveInterval n => { o with keepAliveInterval := n }
  | .setConnectTimeout n => { o with connectTimeout := n }
  | .setMaxInflight n => { o with maxInflight := n }
  | .setCleanSession cleanSession => { o with cleansession := toInt cleanSession }
  | .setCleanStart cleanStart => { o with cleanstart := toInt cleanStart }
  | .setAutomaticReconnect on => { o with automaticReconnect := toInt on }
  | .setRetryIntervals minRetryInterval maxRetryInterval =>
      { o with
        automaticReconnect := toInt true
        minRetryInterval := minRetryInterval
        maxRetryInterval := maxRetryInterval }
  | .setMqttVersion mqttVersion =>
      if mqttVersion < MQTTVERSION_5 then
        { o with MQTTVersion := mqttVersion, cleanstart := 0 }
      else { o with MQTTVersion := mqttVersion, cleansession := 0 }

/-- The callbacks that `set_token` chooses. -/
def setToken (o : ConnectScalars) (tok : Option Nat) : ConnectScalars :=
  { o with v5Callbacks := tok.map fun _ => decide ¬ o.MQTTVersion < MQTTVERSION_5 }

end ConnectScalars

namespace ConnectOptions

/-- `c_str`: no pointer to an empty text. -/
def cString (sr : BufferRef) : Option Blob := if sr.isEmpty then none else sr

/-- `DFLT_C_STRUCT`: the C library's initializer has the plain values `dflt` and no pointers. -/
def default (dflt : ConnectScalars) (textAt : Nat) : ConnectOptions where
  opts := ⟨dflt, none, none, none, ⟨0, none⟩, none, 0, none, none⟩
  will := .default textAt
  userName := none
  password := none
  tok := none
  serverURIs := none
  props := .none

def setUserName (o : ConnectOptions) (userName : BufferRef) : ConnectOptions :=
  { o with userName := userName, opts := { o.opts with username := cString userName } }

def setPassword (o : ConnectOptions) (password : BufferRef) : ConnectOptions :=
  { o with password := password, opts := { o.opts with binarypwd := CData.ofRef password } }

/-- What `set_will` does once the will is stored; `a` is the address of the options. -/
def pointToWill (a : Nat) (o : ConnectOptions) : ConnectOptions :=
  { o with opts := { o.opts with
      will := some a
      willProperties := if o.will.props.count = 0 then none else some a } }

/-- `set_will` of a will that is not the options' own. -/
def setWill (a : Nat) (o : ConnectOptions) (will : WillOptions) (e : EmptyAt) : ConnectOptions :=
  pointToWill a { o with will := o.will.assign will e }

def setToken (o : ConnectOptions) (tok : Option Nat) : ConnectOptions :=
  { o with
    tok := tok
    opts := { o.opts with context := tok, scalars := o.opts.scalars.setToken tok } }

def serverCount (serverURIs : Option StringCollection) : Int :=
  (serverURIs.map fun c => intOfSize c.coll.length).getD 0

def setServers (o : ConnectOptions) (serverURIs : Option StringCollection) : ConnectOptions :=
  { o with
    serverURIs := serverURIs
    opts := { o.opts with
      serverURIcount := serverCount serverURIs
      serverURIs := serverURIs } }

def setProperties (copyProps : PropertiesCopy) (a : Nat) (o : ConnectOptions)
    (props : MQTTProperties) (propsAt : Nat) : ConnectOptions :=
  { o with props := copyProps props propsAt, opts := { o.opts with connectProperties := some a } }

def construct (dflt : ConnectScalars) : ConnectArgs → ConnectOptions
  | .default textAt => default dflt textAt
  | .user userName password textAt =>
      ((default dflt textAt).setUserName userName).setPassword password

def copyWill (e : EmptyAt) (a : Nat) (o opt : ConnectOptions) : ConnectOptions :=
  if o.opts.will.isSome then setWill a o opt.will e else o

/-- What the copy constructor and both assignments do after the C structure has been copied. -/
def setAll (e : EmptyAt) (a : Nat) (o opt : ConnectOptions) : ConnectOptions :=
  ((copyWill e a o opt).setUserName opt.userName).setPassword opt.password

/-- The copy constructor; members that it does not name are default. -/
def copy (e : EmptyAt) (a : Nat) (opt : ConnectOptions) : ConnectOptions :=
  setAll e a ⟨opt.opts, .default e.topic, none, none, none, none, .none⟩ opt

/-- The move constructor points to the will and to its properties, be there any or not. -/
def moveWill (a : Nat) (o : ConnectOptions) : ConnectOptions :=
  if o.opts.will.isSome then
    { o with opts := { o.opts with will := some a, willProperties := some a } }
  else o

/-- The move constructor. -/
def moved (e : EmptyAt) (a : Nat) (opt : ConnectOptions) : ConnectOptions :=
  let o := moveWill a ⟨opt.opts, opt.will.copy e, none, none, none, none, .none⟩
  (o.setUserName opt.userName).setPassword opt.password

/-- What is left of options that have been moved by the constructor. -/
def leftByMove (opt : ConnectOptions) : ConnectOptions :=
  { opt with
    will := { opt.will with topic := none, payload := none }
    userName := none
    password := none }

def assign (e : EmptyAt) (a : Nat) (o opt : ConnectOptions) : ConnectOptions :=
  setAll e a { o with opts := opt.opts } opt

/-- `set_will(std::move(opt.will_))` copies the will, so that only two texts are gone. -/
def leftByAssign (opt : ConnectOptions) : ConnectOptions :=
  { opt with userName := none, password := none }

/-- Options assigned to themselves: the will is not assigned to itself. -/
def assignSelf (a : Nat) (o : ConnectOptions) : ConnectOptions :=
  let o := if o.opts.will.isSome then pointToWill a o else o
  (o.setUserName o.userName).setPassword o.password

def call (copyProps : PropertiesCopy) (a : Nat) (o : ConnectOptions) :
    ConnectCall → ConnectOptions
  | .scalar c => { o with opts := { o.opts with scalars := o.opts.scalars.call c } }
  | .setUserName userName => o.setUserName userName
  | .setPassword password => o.setPassword password
  | .setWill will e => setWill a o will e
  | .setWillMessage none _ => o
  | .setWillMessage (some msg) e => setWill a o (.ofMessage msg e) e
  | .setToken tok => o.setToken tok
  | .setServers serverURIs => o.setServers serverURIs
  | .setProperties props propsAt => setProperties copyProps a o props propsAt

def cls (dflt : ConnectScalars) (copyProps : PropertiesCopy) :
    Objects.ObjectClass ConnectOptions ConnectArgs ConnectCall EmptyAt where
  construct := fun _ k => some (construct dflt k)
  copy := copy
  move := fun e a opt => (moved e a opt, opt.leftByMove)
  assign := fun e a b o opt => if a = b then assignSelf a o else assign e a o opt
  moveAssign := fun e a b o opt =>
    if a = b then (assignSelf a o, o) else (assign e a o opt, opt.leftByAssign)
  call := fun a c o => call copyProps a o c

end ConnectOptions

/-! ## What `connect` hands to the C library -/

structure WillValue where
  topic : List Char
  payload : List Char
  qos : Int
  retained : Int
  deriving DecidableEq

/-- What the program has connect options say.  Texts without a length end at their first NUL. -/
structure ConnectValue where
  scalars : ConnectScalars
  will : Option WillValue
  userName : Option (List Char)
  password : List Char
  deriving DecidableEq

def WillOptions.value (w : WillOptions) : WillValue where
  topic := cStr ((w.topic.map (·.text)).getD [])
  payload := w.payload.bytes
  qos := w.opts.qos
  retained := w.opts.retained

namespace ConnectValue

def userNameOf (sr : BufferRef) : Option (List Char) :=
  (ConnectOptions.cString sr).map fun blob => cStr blob.text

def construct (dflt : ConnectScalars) : ConnectArgs → ConnectValue
  | .default _ => ⟨dflt, none, none, []⟩
  | .user userName password _ => ⟨dflt, none, userNameOf userName, password.bytes⟩

def call (c : ConnectCall) (v : ConnectValue) : ConnectValue :=
  match c with
  | .scalar c => { v with scalars := v.scalars.call c }
  | .setUserName userName => { v with userName := userNameOf userName }
  | .setPassword password => { v with password := password.bytes }
  | .setWill will _ => { v with will := some will.value }
  | .setWillMessage none _ => v
  | .setWillMessage (some msg) e => { v with will := some (WillOptions.ofMessage msg e).value }
  | .setToken tok => { v with scalars := v.scalars.setToken tok }
  | .setServers _ => v
  | .setProperties _ _ => v

end ConnectValue

/-- A will has a topic and a payload, and its C structure points to them. -/
structure WillOptions.Sound (w : WillOptions) : Prop where
  topic : ∃ blob, w.topic = some blob ∧ w.opts.topicName = some blob
  payload : ∃ blob, w.payload = some blob ∧ w.opts.payload = ⟨intOfSize blob.text.length, blob⟩

namespace WillOptions

theorem sound_set (w : WillOptions) (topic payload : BufferRef) (e : EmptyAt) :
    ((w.setTopic topic e.topic).setPayload payload e.payload).Sound where
  topic := by
    cases topic with
    | none => exact ⟨_, rfl, rfl⟩
    | some blob => exact ⟨blob, rfl, rfl⟩
  payload := by
    cases payload with
    | none => exact ⟨_, rfl, rfl⟩
    | some blob => exact ⟨blob, rfl, rfl⟩

/-- A missing text and an empty one are the same to the C library. -/
theorem value_set (w : WillOptions) (topic payload : BufferRef) (e : EmptyAt) :
    ((w.setTopic topic e.topic).setPayload payload e.payload).value =
      ⟨cStr ((topic.map (·.text)).getD []), payload.bytes, w.opts.qos, w.opts.retained⟩ := by
  cases topic <;> cases payload <;>
    simp [setTopic, setPayload, value, emptyRef, BufferRef.bytes]

theorem sound_assign (w rhs : WillOptions) (e : EmptyAt) : (w.assign rhs e).Sound :=
  sound_set _ _ _ e

theorem value_assign (w rhs : WillOptions) (e : EmptyAt) : (w.assign rhs e).value = rhs.value :=
  value_set _ _ _ e

theorem sound_copy (w : WillOptions) (e : EmptyAt) : (w.copy e).Sound := sound_set _ _ _ e

theorem value_copy (w : WillOptions) (e : EmptyAt) : (w.copy e).value = w.value := value_set _ _ _ e

end WillOptions

namespace ConnectOptions

/-- There is a will exactly if the value has one, and then it says what the value says. -/
def WillIs (a : Nat) (o : ConnectOptions) : Option WillValue → Prop
  | none => o.opts.will = none ∧ o.opts.willProperties = none
  | some w => o.opts.will = some a ∧ (∀ b ∈ o.opts.willProperties, b = a) ∧ o.will.Sound ∧
      o.will.value = w

/-- The members say what the value says, and the pointers are to these members. -/
structure HasValue (a : Nat) (o : ConnectOptions) (v : ConnectValue) : Prop where
  scalars : o.opts.scalars = v.scalars
  will : WillIs a o v.will
  username : o.opts.username = cString o.userName
  userName : ConnectValue.userNameOf o.userName = v.userName
  binarypwd : o.opts.binarypwd = CData.ofRef o.password
  password : o.password.bytes = v.password

variable {a b : Nat} {o opt : ConnectOptions} {v : ConnectValue}

theorem willIs_pointToWill {w : WillValue} (hsound : o.will.Sound) (hvalue : o.will.value = w) :
    WillIs a (pointToWill a o) (some w) := by
  refine ⟨rfl, ?_, hsound, hvalue⟩
  intro c hc
  simp only [pointToWill, Option.mem_def] at hc
  split at hc
  · cases hc
  · exact (Option.some.inj hc).symm

theorem HasValue.construct (dflt : ConnectScalars) (a : Nat) (k : ConnectArgs) :
    HasValue a (construct dflt k) (ConnectValue.construct dflt k) := by
  cases k with
  | default textAt => exact ⟨rfl, ⟨rfl, rfl⟩, rfl, rfl, rfl, rfl⟩
  | user userName password textAt => exact ⟨rfl, ⟨rfl, rfl⟩, rfl, rfl, rfl, rfl⟩

theorem HasValue.setUserName (h : HasValue a o v) (sr : BufferRef) :
    HasValue a (o.setUserName sr) { v with userName := ConnectValue.userNameOf sr } :=
  ⟨h.scalars, h.will, rfl, rfl, h.binarypwd, h.password⟩

theorem HasValue.setPassword (h : HasValue a o v) (sr : BufferRef) :
    HasValue a (o.setPassword sr) { v with password := sr.bytes } :=
  ⟨h.scalars, h.will, h.username, h.userName, rfl, rfl⟩

theorem HasValue.setWill (h : HasValue a o v) (w : WillOptions) (e : EmptyAt) :
    HasValue a (setWill a o w e) { v with will := some w.value } where
  scalars := h.scalars
  will := willIs_pointToWill (WillOptions.sound_assign _ _ e) (WillOptions.value_assign _ _ e)
  username := h.username
  userName := h.userName
  binarypwd := h.binarypwd
  password := h.password

theorem HasValue.call (h : HasValue a o v) (copyProps : PropertiesCopy) (c : ConnectCall) :
    HasValue a (call copyProps a o c) (v.call c) := by
  cases c with
  | scalar c =>
      refine ⟨?_, h.will, h.username, h.userName, h.binarypwd, h.password⟩
      simp only [ConnectOptions.call, ConnectValue.call, h.scalars]
  | setUserName userName => exact h.setUserName userName
  | setPassword password => exact h.setPassword password
  | setWill will e => exact h.setWill will e
  | setWillMessage msg e =>
      cases msg with
      | none => exact h
      | some msg => exact h.setWill (.ofMessage msg e) e
  | setToken tok =>
      refine ⟨?_, h.will, h.username, h.userName, h.binarypwd, h.password⟩
      simp only [ConnectOptions.call, ConnectOptions.setToken, ConnectValue.call, h.scalars]
  | setServers serverURIs =>
      exact ⟨h.scalars, h.will, h.username, h.userName, h.binarypwd, h.password⟩
  | setProperties props propsAt =>
      exact ⟨h.scalars, h.will, h.username, h.userName, h.binarypwd, h.password⟩

theorem HasValue.copyWill (h : HasValue b opt v) (e : EmptyAt) (a : Nat) {o : ConnectOptions}
    (hopts : o.opts = opt.opts) :
    WillIs a (copyWill e a o opt) v.will := by
  have hw := h.will
  cases hv : v.will with
  | none =>
      rw [hv] at hw
      rw [ConnectOptions.copyWill, hopts, hw.1]
      show WillIs a o none
      exact ⟨by rw [hopts]; exact hw.1, by rw [hopts]; exact hw.2⟩
  | some w =>
      rw [hv] at hw
      rw [ConnectOptions.copyWill, hopts, hw.1]
      exact willIs_pointToWill (WillOptions.sound_assign _ _ e)
        ((WillOptions.value_assign _ _ e).trans hw.2.2.2)

theorem copyWill_scalars (e : EmptyAt) (a : Nat) (o opt : ConnectOptions) :
    (copyWill e a o opt).opts.scalars = o.opts.scalars := by
  unfold copyWill
  split
  · rfl
  · rfl

theorem copyWill_props (e : EmptyAt) (a : Nat) (o opt : ConnectOptions) :
    (copyWill e a o opt).will.props = o.will.props := by
  unfold copyWill
  split
  · rfl
  · rfl

/-- Whatever the target was before, its members and these pointers are set anew. -/
theorem HasValue.setAll (h : HasValue b opt v) (e : EmptyAt) (a : Nat) {o : ConnectOptions}
    (hopts : o.opts = opt.opts) : HasValue a (setAll e a o opt) v where
  scalars := by
    show (ConnectOptions.copyWill e a o opt).opts.scalars = v.scalars
    rw [copyWill_scalars, hopts, h.scalars]
  will := h.copyWill e a hopts
  username := rfl
  userName := h.userName
  binarypwd := rfl
  password := h.password

theorem HasValue.copy (h : HasValue b opt v) (e : EmptyAt) (a : Nat) :
    HasValue a (copy e a opt) v := h.setAll e a rfl

theorem HasValue.moved (h : HasValue b opt v) (e : EmptyAt) (a : Nat) :
    HasValue a (moved e a opt) v := by
  have hw := h.will
  unfold ConnectOptions.moved moveWill
  cases hv : v.will with
  | none =>
      rw [hv] at hw
      simp only [hw.1]
      exact ⟨h.scalars, by rw [hv]; exact ⟨hw.1, hw.2⟩, rfl, h.userName, rfl, h.password⟩
  | some w =>
      rw [hv] at hw
      simp only [hw.1]
      refine ⟨h.scalars, ?_, rfl, h.userName, rfl, h.password⟩
      rw [hv]
      refine ⟨rfl, ?_, WillOptions.sound_copy _ e, (WillOptions.value_copy _ e).trans hw.2.2.2⟩
      intro c hc
      exact (Option.some.inj hc).symm

theorem HasValue.assignSelf (h : HasValue a o v) : HasValue a (assignSelf a o) v := by
  have hw := h.will
  unfold ConnectOptions.assignSelf
  cases hv : v.will with
  | none =>
      rw [hv] at hw
      rw [hw.1]
      exact ⟨h.scalars, by rw [hv]; exact hw, rfl, h.userName, rfl, h.password⟩
  | some w =>
      rw [hv] at hw
      rw [hw.1]
      refine ⟨h.scalars, ?_, rfl, h.userName, rfl, h.password⟩
      rw [hv]
      exact willIs_pointToWill hw.2.2.1 hw.2.2.2

theorem HasValue.assign (h : HasValue b opt v) (e : EmptyAt) (a : Nat) (o : ConnectOptions) :
    HasValue a (assign e a o opt) v := h.setAll e a rfl

theorem hasValues (dflt : ConnectScalars) (copyProps : PropertiesCopy) :
    Objects.HasValues (cls dflt copyProps) (fun k => some (ConnectValue.construct dflt k))
      ConnectValue.call
      HasValue where
  construct := fun a k => .some (HasValue.construct dflt a k)
  copy := fun e a _ _ _ _ h => h.copy e a
  move := fun e a _ _ _ _ h => h.moved e a
  assign := by
    intro e a b o opt v hab h
    simp only [cls, if_neg hab]
    exact h.assign e a o
  assignSelf := by
    intro e a o v h
    simp only [cls, if_true]
    exact h.assignSelf
  moveAssign := by
    intro e a b o opt v hab h
    simp only [cls, if_neg hab]
    exact h.assign e a o
  moveAssignSelf := by
    intro e a o v h
    simp only [cls, if_true]
    exact h.assignSelf
  call := fun _ c _ _ h => h.call copyProps c

/-- The properties of a will never get into connect options. -/
theorem keepsWillProps (dflt : ConnectScalars) (copyProps : PropertiesCopy) :
    Objects.KeepsExactly (cls dflt copyProps) (fun _ o => o.will.props = .none) (fun _ => True)
      (fun _ _ => True) where
  construct := by
    intro _ k o ho
    obtain rfl := Option.some.inj ho
    cases k with
    | default textAt => rfl
    | user userName password textAt => rfl
  copy := fun e a b o _ _ => iff_true_intro (copyWill_props e a _ o)
  move := by
    intro e a b o _ h
    refine ⟨iff_true_intro ?_, h⟩
    simp only [cls, moved, moveWill]
    split
    · rfl
    · rfl
  assign := by
    intro e a b o opt hab h _
    simp only [cls, if_neg hab, iff_true]
    exact (copyWill_props e a _ opt).trans h
  assignSelf := by
    intro _ a o h
    simp only [cls, if_true, assignSelf]
    split
    · exact h
    · exact h
  moveAssign := by
    intro e a b o opt hab h h'
    simp only [cls, if_neg hab, iff_true]
    exact ⟨(copyWill_props e a _ opt).trans h, h'⟩
  moveAssignSelf := by
    intro _ a o h
    simp only [cls, if_true, assignSelf]
    split
    · exact h
    · exact h
  call := by
    intro _ c o h
    cases c with
    | setWillMessage msg e =>
        cases msg with
        | none => exact h
        | some msg => exact h
    | _ => exact h

/-- Some options that are alive keep the text in memory. -/
def Held (s : Objects.Store ConnectOptions) (blob : Blob) : Prop :=
  ∃ a, ∃ o ∈ s a, blob ∈ o.userName ∨ blob ∈ o.password ∨ blob ∈ o.will.topic ∨
    blob ∈ o.will.payload

/-- The C library reads this will, and only memory that is there. -/
structure HandsWill (s : Objects.Store ConnectOptions) (opts : MQTTAsyncWillOptions)
    (w : WillValue) : Prop where
  topic : ∃ blob, opts.topicName = some blob ∧ Held s blob ∧ cStr blob.text = w.topic
  valid : opts.payload.Valid (Held s)
  payload : opts.payload.bytes = w.payload
  qos : opts.qos = w.qos
  retained : opts.retained = w.retained

/-- `MQTTAsync_connect(cli_, &opts.opts_)` reads the value, and only memory that is there; where it
looks for properties of the will, there are none. -/
structure Hands (s : Objects.Store ConnectOptions) (o : ConnectOptions) (v : ConnectValue) :
    Prop where
  scalars : o.opts.scalars = v.scalars
  will : Option.Rel (fun b w => ∃ o' ∈ s b, HandsWill s o'.will.opts w) o.opts.will v.will
  willProperties : ∀ b ∈ o.opts.willProperties, ∃ o' ∈ s b, o'.will.props = .none
  held : ∀ blob ∈ o.opts.username, Held s blob
  userName : (o.opts.username.map fun blob => cStr blob.text) = v.userName
  valid : o.opts.binarypwd.Valid (Held s)
  password : o.opts.binarypwd.bytes = v.password

theorem mem_of_mem_cString {sr : BufferRef} {blob : Blob} (h : blob ∈ cString sr) : blob ∈ sr := by
  unfold cString at h
  split at h
  · cases h
  · exact h

theorem handsWill_of_sound {s : Objects.Store ConnectOptions} (h : o.will.Sound)
    (ha : s a = some o) : HandsWill s o.will.opts o.will.value := by
  obtain ⟨top, htop, htopicName⟩ := h.topic
  obtain ⟨msg, hmsg, hpayload⟩ := h.payload
  refine ⟨⟨top, htopicName, ⟨a, o, ha, Or.inr (Or.inr (Or.inl htop))⟩, ?_⟩, ?_, ?_, rfl, rfl⟩
  · simp [WillOptions.value, htop]
  · intro blob hblob
    rw [hpayload] at hblob
    obtain rfl := Option.some.inj hblob
    exact ⟨a, o, ha, Or.inr (Or.inr (Or.inr hmsg))⟩
  · simp [WillOptions.value, hmsg, hpayload, CData.bytes, BufferRef.bytes]

theorem HasValue.hands {s : Objects.Store ConnectOptions} (h : HasValue a o v)
    (hprops : o.will.props = .none) (ha : s a = some o) : Hands s o v where
  scalars := h.scalars
  will := by
    have hw := h.will
    generalize v.will = w at hw
    cases w with
    | none =>
        rw [hw.1]
        exact .none
    | some w =>
        obtain ⟨hptr, -, hsound, rfl⟩ := hw
        rw [hptr]
        exact .some ⟨o, ha, handsWill_of_sound hsound ha⟩
  willProperties := by
    intro b hb
    have hw := h.will
    generalize v.will = w at hw
    cases w with
    | none =>
        rw [hw.2] at hb
        cases hb
    | some w =>
        obtain rfl := hw.2.1 b hb
        exact ⟨o, ha, hprops⟩
  held := by
    intro blob hblob
    rw [h.username] at hblob
    exact ⟨a, o, ha, Or.inl (mem_of_mem_cString hblob)⟩
  userName := by rw [h.username, ← h.userName, ConnectValue.userNameOf]
  valid := by
    rw [h.binarypwd]
    exact CData.valid_ofRef fun blob hblob => ⟨a, o, ha, Or.inr (Or.inl hblob)⟩
  password := by rw [h.binarypwd, CData.bytes_ofRef, h.password]

def zeros : ConnectScalars := ⟨0, 0, 0, 0, 0, 0, 0, 0, 0, none⟩

/-- The options of a client are set, given to `connect`, which makes a copy, and changed later on. -/
def passed : List (Objects.Label ConnectArgs ConnectCall EmptyAt) :=
  [.construct 0 (.default 10), .call 0 (.scalar (.setKeepAliveInterval 20)),
    .call 0 (.scalar (.setMqttVersion 5)), .call 0 (.scalar (.setCleanStart true)),
    .call 0 (.setWill (.make (some ⟨11, "ann".toList⟩) (some ⟨12, "gone".toList⟩) 1 true ⟨13, 14⟩)
      ⟨15, 16⟩),
    .copy ⟨17, 18⟩ 1 0, .call 1 (.setToken (some 19)),
    .call 0 (.setUserName (some ⟨20, "bob".toList⟩)), .destroy 0]

/-- What the copy hands over, with the options that it was made of gone. -/
def passedValue : ConnectValue where
  scalars := { zeros with
    keepAliveInterval := 20
    MQTTVersion := 5
    cleanstart := 1
    v5Callbacks := some true }
  will := some ⟨"ann".toList, "gone".toList, 1, 1⟩
  userName := none
  password := []

/-- The pointers to properties, servers and token are to the options' own. -/
structure OwnsPointers (a : Nat) (o : ConnectOptions) : Prop where
  properties : ∀ b ∈ o.opts.connectProperties, b = a
  servers : o.opts.serverURIs = o.serverURIs
  serverCount : o.opts.serverURIcount = serverCount o.serverURIs
  token : o.opts.context = o.tok

/-- Nothing for these pointers has been set. -/
structure NoneSet (opt : ConnectOptions) : Prop where
  properties : opt.opts.connectProperties = none
  servers : opt.serverURIs = none
  token : opt.tok = none

/-- No properties have been set on the right-hand side, and both sides have the same servers and the
same token. -/
structure SameSet (o opt : ConnectOptions) : Prop where
  properties : opt.opts.connectProperties = none
  servers : opt.serverURIs = o.serverURIs
  token : opt.tok = o.tok

/-- The pointers in question and what they should point to. -/
def others (o : ConnectOptions) :
    Option Nat × Option StringCollection × Int × Option Nat × Option StringCollection × Option Nat :=
  (o.opts.connectProperties, o.opts.serverURIs, o.opts.serverURIcount, o.opts.context, o.serverURIs,
    o.tok)

theorem OwnsPointers.congr {o' : ConnectOptions} (h : others o = others o') :
    OwnsPointers a o ↔ OwnsPointers a o' := by
  simp only [others, Prod.mk.injEq] at h
  obtain ⟨h₁, h₂, h₃, h₄, h₅, h₆⟩ := h
  constructor
  · rintro ⟨k₁, k₂, k₃, k₄⟩
    exact ⟨h₁ ▸ k₁, h₂ ▸ h₅ ▸ k₂, h₃ ▸ h₅ ▸ k₃, h₄ ▸ h₆ ▸ k₄⟩
  · rintro ⟨k₁, k₂, k₃, k₄⟩
    exact ⟨h₁ ▸ k₁, h₂ ▸ h₅ ▸ k₂, h₃ ▸ h₅ ▸ k₃, h₄ ▸ h₆ ▸ k₄⟩

theorem others_setAll (e : EmptyAt) (a : Nat) (o opt : ConnectOptions) :
    others (setAll e a o opt) = others o := by
  unfold setAll copyWill
  split
  · rfl
  · rfl

theorem others_moved (e : EmptyAt) (a : Nat) (opt : ConnectOptions) :
    others (moved e a opt) = others ⟨opt.opts, opt.will, none, none, none, none, .none⟩ := by
  unfold moved moveWill
  split
  · rfl
  · rfl

theorem others_assignSelf (a : Nat) (o : ConnectOptions) : others (assignSelf a o) = others o := by
  unfold assignSelf
  split
  · rfl
  · rfl

/-- Options at another address that have taken over the C structure. -/
theorem ownsPointers_taken (hab : a ≠ b) (h : OwnsPointers b opt) (hopts : o.opts = opt.opts) :
    OwnsPointers a o ↔ SameSet o opt := by
  constructor
  · rintro ⟨hprops, hservers, -, htok⟩
    rw [hopts] at hprops hservers htok
    refine ⟨?_, h.servers.symm.trans hservers, h.token.symm.trans htok⟩
    cases hc : opt.opts.connectProperties with
    | none => rfl
    | some c => exact absurd ((hprops c hc).symm.trans (h.properties c hc)) hab
  · rintro ⟨hprops, hservers, htok⟩
    refine ⟨?_, ?_, ?_, ?_⟩
    · intro c hc
      rw [hopts, hprops] at hc
      cases hc
    · rw [hopts, h.servers, hservers]
    · rw [hopts, h.serverCount, hservers]
    · rw [hopts, h.token, htok]

theorem noneSet_iff (hservers : o.serverURIs = none) (htok : o.tok = none) :
    NoneSet opt ↔ SameSet o opt := by
  constructor
  · rintro ⟨h₁, h₂, h₃⟩
    exact ⟨h₁, h₂.trans hservers.symm, h₃.trans htok.symm⟩
  · rintro ⟨h₁, h₂, h₃⟩
    exact ⟨h₁, h₂.trans hservers, h₃.trans htok⟩

theorem ownsPointers_assign (hab : a ≠ b) (h : OwnsPointers b opt) (e : EmptyAt)
    (o : ConnectOptions) : OwnsPointers a (assign e a o opt) ↔ SameSet o opt := by
  let o' : ConnectOptions := { o with opts := opt.opts }
  calc OwnsPointers a (assign e a o opt) ↔ OwnsPointers a o' :=
      OwnsPointers.congr (others_setAll e a o' opt)
    _ ↔ SameSet o' opt := ownsPointers_taken hab h rfl
    _ ↔ SameSet o opt := ⟨fun ⟨h₁, h₂, h₃⟩ => ⟨h₁, h₂, h₃⟩, fun ⟨h₁, h₂, h₃⟩ => ⟨h₁, h₂, h₃⟩⟩

theorem keepsPointers (dflt : ConnectScalars) (copyProps : PropertiesCopy) :
    Objects.KeepsExactly (cls dflt copyProps) OwnsPointers NoneSet SameSet where
  construct := by
    intro _ k o ho
    obtain rfl := Option.some.inj ho
    cases k with
    | default textAt => exact ⟨by simp [construct, default], rfl, rfl, rfl⟩
    | user userName password textAt =>
        exact ⟨by simp [construct, default, setUserName, setPassword], rfl, rfl, rfl⟩
  copy := by
    intro e a b opt hab h
    let o : ConnectOptions := ⟨opt.opts, .default e.topic, none, none, none, none, .none⟩
    calc OwnsPointers a (copy e a opt) ↔ OwnsPointers a o :=
        OwnsPointers.congr (others_setAll e a o opt)
      _ ↔ SameSet o opt := ownsPointers_taken hab h rfl
      _ ↔ NoneSet opt := (noneSet_iff rfl rfl).symm
  move := by
    intro e a b opt hab h
    refine ⟨?_, h.properties, h.servers, h.serverCount, h.token⟩
    let o : ConnectOptions := ⟨opt.opts, opt.will, none, none, none, none, .none⟩
    calc OwnsPointers a (moved e a opt) ↔ OwnsPointers a o :=
        OwnsPointers.congr (others_moved e a opt)
      _ ↔ SameSet o opt := ownsPointers_taken hab h rfl
      _ ↔ NoneSet opt := (noneSet_iff rfl rfl).symm
  assign := by
    intro e a b o opt hab _ h
    simp only [cls, if_neg hab]
    exact ownsPointers_assign hab h e o
  assignSelf := by
    intro _ a o h
    simp only [cls, if_true]
    exact (OwnsPointers.congr (others_assignSelf a o)).mpr h
  moveAssign := by
    intro e a b o opt hab _ h
    simp only [cls, if_neg hab]
    exact ⟨ownsPointers_assign hab h e o, h.properties, h.servers, h.serverCount, h.token⟩
  moveAssignSelf := by
    intro _ a o h
    simp only [cls, if_true]
    exact (OwnsPointers.congr (others_assignSelf a o)).mpr h
  call := by
    intro a c o h
    cases c with
    | setWillMessage msg e =>
        cases msg with
        | none => exact h
        | some msg => exact ⟨h.properties, h.servers, h.serverCount, h.token⟩
    | setToken tok => exact ⟨h.properties, h.servers, h.serverCount, rfl⟩
    | setServers serverURIs => exact ⟨h.properties, rfl, rfl, h.token⟩
    | setProperties props propsAt =>
        exact ⟨fun b hb => (Option.some.inj hb).symm, h.servers, h.serverCount, h.token⟩
    | _ => exact ⟨h.properties, h.servers, h.serverCount, h.token⟩

/-- In every run of connect options: the pointers to properties, servers and token are everywhere
and throughout to the options' own, exactly if none of the three is set in options that are copied
or moved from, and assigned ones have no properties set and otherwise the same as the target.  An
empty list of properties counts as set. -/
theorem ownsPointers_exact {dflt : ConnectScalars} {copyProps : PropertiesCopy}
    {ls : List (Objects.Label ConnectArgs ConnectCall EmptyAt)} {s : Objects.Store ConnectOptions}
    (hrun : exec (Objects.step (cls dflt copyProps)) Objects.empty ls = some s) :
    Always (Objects.step (cls dflt copyProps)) (Objects.Every OwnsPointers) Objects.empty ls ↔
      EachStep (Objects.step (cls dflt copyProps)) (Objects.Meets NoneSet SameSet) Objects.empty
        ls :=
  (keepsPointers dflt copyProps).always_iff hrun

/-- Options with properties are given to `connect` and gone before it reads them. -/
def gone : List (Objects.Label ConnectArgs ConnectCall EmptyAt) :=
  [.construct 0 (.default 10), .call 0 (.setProperties ⟨1, some 11⟩ 12), .copy ⟨13, 14⟩ 1 0,
    .destroy 0]

theorem ownsPointers_exact_gone :
    ∃ s, exec (Objects.step (cls zeros newArray)) Objects.empty gone = some s ∧ s 0 = none ∧
      ((s 1).bind fun o => o.opts.connectProperties) = some 0 ∧
      ¬ Always (Objects.step (cls zeros newArray)) (Objects.Every OwnsPointers) Objects.empty
        gone := by
  obtain ⟨s, hs, h0, h1⟩ : ∃ s, exec (Objects.step (cls zeros newArray)) Objects.empty gone =
      some s ∧ s 0 = none ∧ ((s 1).bind fun o => o.opts.connectProperties) = some 0 :=
    ⟨_, rfl, rfl, rfl⟩
  refine ⟨s, hs, h0, h1, (ownsPointers_exact hs).not.mpr fun h => ?_⟩
  have hcopy := ((h.2 _ rfl).2 _ rfl).1 _ rfl
  exact absurd hcopy.properties (Option.some_ne_none 0)

end ConnectOptions

end BupApp.Mqtt
