/-
# BupApp.Mqtt.Token -- what a request of the library comes back with

A token stands for one request that is under way.  The C library calls one of two callbacks on it,
of the kind the request was made with (MQTT v5, or the versions before); whoever holds the token can
wait for that.  A connect token is used again by each reconnect, after `reset`.

The token keeps its result in three fields that different callbacks write in part, and `wait` looks
at two of them.  `wait_run` says what `wait` does after any history of a token.
-/
import Mathlib.Data.Option.Basic

namespace BupApp.Mqtt

/-- `token::Type`. -/
inductive TokenType where
  | connect
  | subscribe
  | publish
  | unsubscribe
  | disconnect
  deriving DecidableEq

def MQTTASYNC_SUCCESS : Int := 0

def MQTTVERSION_5 : Nat := 5

/-- `ReasonCode::SUCCESS` and `ReasonCode::GRANTED_QOS_2`. -/
def SUCCESS : Nat := 0
def GRANTED_QOS_2 : Nat := 2

/-- Not a code of the protocol: the library's mark for a failure before MQTT v5. -/
def MQTTPP_V3_CODE : Nat := 255

/-- `MQTTAsync_successData5`, and what `MQTTAsync_successData` has of it, without the properties.
`qos` and `qosList` are what the older structure has in their place for a subscription. -/
structure SuccessData where
  token : Int
  reasonCode : Nat
  serverURI : String
  MQTTVersion : Nat
  sessionPresent : Bool
  reasonCodes : List Nat
  qos : Nat
  qosList : List Nat
  deriving DecidableEq

/-- `MQTTAsync_failureData5`; the older structure is without the reason code. -/
structure FailureData where
  token : Int
  reasonCode : Nat
  code : Int
  message : Option String
  deriving DecidableEq

structure ConnectResponse where
  serverURI : String
  mqttVersion : Nat
  sessionPresent : Bool
  deriving DecidableEq

/-- What the C library answers; the data may be missing. -/
inductive Answer where
  | success (rsp : Option SuccessData)
  | failure (rsp : Option FailureData)
  deriving DecidableEq

structure MqttException where
  rc : Int
  reasonCode : Nat
  msg : String
  deriving DecidableEq

/-- What waiting for a token can end in. -/
inductive TokenError where
  | badCast
  | exception (e : MqttException)
  | missingResponse (rsp : String)
  deriving DecidableEq

/-- The fields of a token that its callbacks and its waits use.  `v5` is the kind of the callbacks
its request was made with. -/
structure Token where
  type : TokenType
  v5 : Bool
  nExpected : Nat
  rc : Int
  reasonCode : Nat
  errMsg : String
  msgId : Int
  complete : Bool
  connRsp : Option ConnectResponse
  subRsp : Option (List Nat)
  unsubRsp : Option (List Nat)
  deriving DecidableEq

namespace Token

def create (type : TokenType) (v5 : Bool) (nExpected : Nat) : Token where
  type := type
  v5 := v5
  nExpected := nExpected
  rc := MQTTASYNC_SUCCESS
  reasonCode := SUCCESS
  errMsg := ""
  msgId := 0
  complete := false
  connRsp := none
  subRsp := none
  unsubRsp := none

def setMessageId (t : Token) (msgId : Int) : Token := { t with msgId := msgId }

/-! ## The callbacks -/

def connectResponse (rsp : SuccessData) : ConnectResponse where
  serverURI := rsp.serverURI
  mqttVersion := rsp.MQTTVersion
  sessionPresent := rsp.sessionPresent

/-- The reason codes of a v5 subscription or its end: a single one is not in the list. -/
def reasonCodes5 (rsp : SuccessData) : List Nat :=
  if rsp.reasonCodes.length = 1 then [rsp.reasonCode] else rsp.reasonCodes

def subscribeResponse (n : Nat) (rsp : SuccessData) : List Nat :=
  if n = 0 then [rsp.qos] else rsp.qosList.take n

def onSuccess (t : Token) (rsp : Option SuccessData) : Token :=
  let t :=
    match rsp, t.type with
    | none, _ => t
    | some r, .connect => { t with msgId := r.token, connRsp := some (connectResponse r) }
    | some r, .subscribe =>
        { t with msgId := r.token, subRsp := some (subscribeResponse t.nExpected r) }
    | some r, .unsubscribe => { t with msgId := r.token, unsubRsp := some [] }
    | some r, _ => { t with msgId := r.token }
  { t with rc := MQTTASYNC_SUCCESS, complete := true }

def onSuccess5 (t : Token) (rsp : Option SuccessData) : Token :=
  let t :=
    match rsp, t.type with
    | none, _ => t
    | some r, .connect =>
        { t with
          msgId := r.token, reasonCode := r.reasonCode, connRsp := some (connectResponse r) }
    | some r, .subscribe =>
        { t with msgId := r.token, reasonCode := r.reasonCode, subRsp := some (reasonCodes5 r) }
    | some r, .unsubscribe =>
        { t with msgId := r.token, reasonCode := r.reasonCode, unsubRsp := some (reasonCodes5 r) }
    | some r, _ => { t with msgId := r.token, reasonCode := r.reasonCode }
  { t with rc := MQTTASYNC_SUCCESS, complete := true }

/-- The two failure callbacks differ in the reason code alone. -/
def failed (t : Token) (code : FailureData → Nat) (rsp : Option FailureData) : Token :=
  let t :=
    match rsp with
    | none => { t with rc := -1 }
    | some r =>
        { t with
          msgId := r.token, reasonCode := code r, rc := r.code,
          errMsg := r.message.getD t.errMsg }
  { t with complete := true }

def onFailure (t : Token) (rsp : Option FailureData) : Token :=
  t.failed (fun _ => MQTTPP_V3_CODE) rsp

def onFailure5 (t : Token) (rsp : Option FailureData) : Token :=
  t.failed FailureData.reasonCode rsp

def reset (t : Token) : Token :=
  { t with complete := false, rc := MQTTASYNC_SUCCESS, reasonCode := SUCCESS, errMsg := "" }

/-- The callback that was registered with the request. -/
def answer (t : Token) : Answer → Token
  | .success rsp => if t.v5 then t.onSuccess5 rsp else t.onSuccess rsp
  | .failure rsp => if t.v5 then t.onFailure5 rsp else t.onFailure rsp

/-! ## Waiting -/

def checkRet (t : Token) : Except MqttException Unit :=
  if t.rc ≠ MQTTASYNC_SUCCESS ∨ t.reasonCode > GRANTED_QOS_2 then
    .error ⟨t.rc, t.reasonCode, t.errMsg⟩
  else .ok ()

/-- `none` is a wait that goes on. -/
def wait (t : Token) : Option (Except MqttException Unit) :=
  if t.complete then some t.checkRet else none

/-- `try_wait`, and `wait_for` and `wait_until` at the moment they stop waiting. -/
def tryWait (t : Token) : Except MqttException Bool :=
  if t.complete then t.checkRet.map fun _ => true else .ok false

/-- The end of `get_connect_response` and its like, once the token is complete. -/
def handOver {α : Type*} (name : String) (rsp : Option α) :
    Except MqttException Unit → Except TokenError α
  | .error e => .error (.exception e)
  | .ok _ =>
      match rsp with
      | none => .error (.missingResponse name)
      | some r => .ok r

/-- `get_connect_response` and its like, with the token type they are for, the name of the response
and the response. -/
def getResponse {α : Type*} (t : Token) (type : TokenType) (name : String) (rsp : Option α) :
    Option (Except TokenError α) :=
  if t.type ≠ type then some (.error .badCast) else t.wait.map (handOver name rsp)

def getConnectResponse (t : Token) : Option (Except TokenError ConnectResponse) :=
  t.getResponse .connect "connect" t.connRsp

def getSubscribeResponse (t : Token) : Option (Except TokenError (List Nat)) :=
  t.getResponse .subscribe "subscribe" t.subRsp

def getUnsubscribeResponse (t : Token) : Option (Except TokenError (List Nat)) :=
  t.getResponse .unsubscribe "unsubscribe" t.unsubRsp

/-! ## Histories -/

/-- What happens to a token that has been created. -/
inductive Op where
  | setMessageId (msgId : Int)
  | reset
  | answer (a : Answer)
  deriving DecidableEq

def apply (t : Token) : Op → Token
  | .setMessageId msgId => t.setMessageId msgId
  | .reset => t.reset
  | .answer a => t.answer a

def run (t : Token) (ops : List Op) : Token := ops.foldl apply t

/-- The answer to the request under way, if it has come. -/
def current : Option Answer → List Op → Option Answer
  | a, [] => a
  | a, .setMessageId _ :: ops => current a ops
  | _, .reset :: ops => current none ops
  | _, .answer a :: ops => current (some a) ops

/-- Each request is answered once at most: between two answers there is a `reset`. -/
def AnsweredOnce : Option Answer → List Op → Prop
  | _, [] => True
  | a, .setMessageId _ :: ops => AnsweredOnce a ops
  | _, .reset :: ops => AnsweredOnce none ops
  | old, .answer a :: ops => old = none ∧ AnsweredOnce (some a) ops

/-- The data an answer comes with, and otherwise what there was before. -/
def newData (r : Option SuccessData) : Answer → Option SuccessData
  | .success (some rsp) => some rsp
  | _ => r

/-- The data of the last success that came with some. -/
def lastData : Option SuccessData → List Op → Option SuccessData
  | r, [] => r
  | r, .answer a :: ops => lastData (newData r a) ops
  | r, .setMessageId _ :: ops | r, .reset :: ops => lastData r ops

/-- The reason codes a token for a subscription or its end keeps of the data. -/
def subscribed (v5 : Bool) (n : Nat) (rsp : SuccessData) : List Nat :=
  if v5 then reasonCodes5 rsp else subscribeResponse n rsp

def unsubscribed (v5 : Bool) (rsp : SuccessData) : List Nat := if v5 then reasonCodes5 rsp else []

/-- What an answer means to the one who waits.  A success is an exception when the broker's reason
is beyond `GRANTED_QOS_2`, and a v5 failure is none when its code and its reason say so. -/
def verdict (v5 : Bool) : Answer → Except MqttException Unit
  | .success none => .ok ()
  | .success (some r) =>
      if v5 ∧ r.reasonCode > GRANTED_QOS_2 then .error ⟨MQTTASYNC_SUCCESS, r.reasonCode, ""⟩
      else .ok ()
  | .failure none => .error ⟨-1, SUCCESS, ""⟩
  | .failure (some r) =>
      if v5 ∧ r.code = MQTTASYNC_SUCCESS ∧ r.reasonCode ≤ GRANTED_QOS_2 then .ok ()
      else .error ⟨r.code, if v5 then r.reasonCode else MQTTPP_V3_CODE, r.message.getD ""⟩

/-- What a token's fields say when its request has the answer `a`, or none yet, and the last data
that came is `r`. -/
structure Reflects (t : Token) (a : Option Answer) (r : Option SuccessData) : Prop where
  fresh : a = none → t.complete = false ∧ t.rc = MQTTASYNC_SUCCESS ∧ t.reasonCode = SUCCESS ∧
    t.errMsg = ""
  done : ∀ x, a = some x → t.complete = true ∧ t.checkRet = verdict t.v5 x
  connRsp : t.type = .connect → t.connRsp = r.map connectResponse
  subRsp : t.type = .subscribe → t.subRsp = r.map (subscribed t.v5 t.nExpected)
  unsubRsp : t.type = .unsubscribe → t.unsubRsp = r.map (unsubscribed t.v5)

@[simp] theorem answer_type (t : Token) (x : Answer) : (t.answer x).type = t.type := by
  obtain ⟨type, v5, _, _, _, _, _, _, _, _, _⟩ := t
  rcases x with (_ | r) | (_ | r) <;> cases v5 <;> cases type <;> rfl

@[simp] theorem answer_v5 (t : Token) (x : Answer) : (t.answer x).v5 = t.v5 := by
  obtain ⟨type, v5, _, _, _, _, _, _, _, _, _⟩ := t
  rcases x with (_ | r) | (_ | r) <;> cases v5 <;> cases type <;> rfl

@[simp] theorem answer_nExpected (t : Token) (x : Answer) :
    (t.answer x).nExpected = t.nExpected := by
  obtain ⟨type, v5, _, _, _, _, _, _, _, _, _⟩ := t
  rcases x with (_ | r) | (_ | r) <;> cases v5 <;> cases type <;> rfl

@[simp] theorem answer_complete (t : Token) (x : Answer) : (t.answer x).complete = true := by
  obtain ⟨type, v5, _, _, _, _, _, _, _, _, _⟩ := t
  rcases x with (_ | r) | (_ | r) <;> cases v5 <;> cases type <;> rfl

/-- The first answer to a request leaves a result that says what the answer means. -/
theorem answer_checkRet {t : Token} (hrc : t.rc = MQTTASYNC_SUCCESS)
    (hcode : t.reasonCode = SUCCESS) (hmsg : t.errMsg = "") (x : Answer) :
    (t.answer x).checkRet = verdict t.v5 x := by
  obtain ⟨type, v5, _, rc, reasonCode, errMsg, _, _, _, _, _⟩ := t
  obtain rfl : rc = MQTTASYNC_SUCCESS := hrc
  obtain rfl : reasonCode = SUCCESS := hcode
  obtain rfl : errMsg = "" := hmsg
  rcases x with (_ | r) | (_ | r)
  · cases v5 <;> cases type <;> rfl
  · cases v5 <;> cases type <;> simp [answer, onSuccess, onSuccess5, checkRet, verdict, SUCCESS]
  · cases v5 <;> rfl
  · cases v5
    · simp [answer, onFailure, failed, checkRet, verdict, MQTTPP_V3_CODE, GRANTED_QOS_2]
    · simp only [answer, onFailure5, failed, checkRet, verdict, if_true]
      by_cases hok : r.code = MQTTASYNC_SUCCESS ∧ r.reasonCode ≤ GRANTED_QOS_2
      · rw [if_neg (by omega), if_pos ⟨trivial, hok⟩]
      · rw [if_pos (by omega), if_neg fun h => hok h.2]

theorem Reflects.answer {t : Token} {r : Option SuccessData} (h : t.Reflects none r)
    (x : Answer) : (t.answer x).Reflects (some x) (newData r x) := by
  obtain ⟨-, hrc, hcode, hmsg⟩ := h.fresh rfl
  obtain ⟨-, -, hconn, hsub, hunsub⟩ := h
  refine ⟨by simp, ?_, ?_, ?_, ?_⟩
  · rintro _ ⟨⟩
    exact ⟨answer_complete t x, by rw [answer_v5]; exact answer_checkRet hrc hcode hmsg x⟩
  all_goals
    obtain ⟨type, v5, _, _, _, _, _, _, _, _, _⟩ := t
    rw [answer_type]
    rintro ⟨⟩
  -- only a success with data changes what is kept
  · rcases x with (_ | rsp) | (_ | rsp) <;> cases v5 <;> first | rfl | exact hconn rfl
  · rcases x with (_ | rsp) | (_ | rsp) <;> cases v5 <;> first | rfl | exact hsub rfl
  · rcases x with (_ | rsp) | (_ | rsp) <;> cases v5 <;> first | rfl | exact hunsub rfl

theorem Reflects.reset {t : Token} {a : Option Answer} {r : Option SuccessData}
    (h : t.Reflects a r) : t.reset.Reflects none r := by
  refine ⟨fun _ => ⟨rfl, rfl, rfl, rfl⟩, ?_, h.connRsp, h.subRsp, h.unsubRsp⟩
  rintro x ⟨⟩

theorem Reflects.setMessageId {t : Token} {a : Option Answer} {r : Option SuccessData}
    (h : t.Reflects a r) (msgId : Int) : (t.setMessageId msgId).Reflects a r :=
  ⟨h.fresh, h.done, h.connRsp, h.subRsp, h.unsubRsp⟩

theorem Reflects.run {ops : List Op} {t : Token} {a : Option Answer} {r : Option SuccessData}
    (h : t.Reflects a r) (honce : AnsweredOnce a ops) :
    (t.run ops).Reflects (current a ops) (lastData r ops) := by
  induction ops generalizing t a r with
  | nil => exact h
  | cons op ops ih =>
      cases op with
      | setMessageId msgId => exact ih (h.setMessageId msgId) honce
      | reset => exact ih h.reset honce
      | answer x =>
          obtain ⟨rfl, hrest⟩ := honce
          exact ih (h.answer x) hrest

theorem run_kind (t : Token) (ops : List Op) :
    (t.run ops).type = t.type ∧ (t.run ops).v5 = t.v5 ∧ (t.run ops).nExpected = t.nExpected := by
  induction ops generalizing t with
  | nil => exact ⟨rfl, rfl, rfl⟩
  | cons op ops ih =>
      obtain ⟨htype, hv5, hn⟩ := ih (t.apply op)
      have hop : (t.apply op).type = t.type ∧ (t.apply op).v5 = t.v5 ∧
          (t.apply op).nExpected = t.nExpected := by
        cases op with
        | setMessageId msgId => exact ⟨rfl, rfl, rfl⟩
        | reset => exact ⟨rfl, rfl, rfl⟩
        | answer x => exact ⟨answer_type t x, answer_v5 t x, answer_nExpected t x⟩
      exact ⟨htype.trans hop.1, hv5.trans hop.2.1, hn.trans hop.2.2⟩

theorem create_reflects (type : TokenType) (v5 : Bool) (n : Nat) :
    (create type v5 n).Reflects none none :=
  ⟨fun _ => ⟨rfl, rfl, rfl, rfl⟩, by rintro x ⟨⟩, fun _ => rfl, fun _ => rfl, fun _ => rfl⟩

/-- What the wait and the poll see. -/
theorem Reflects.waits {t : Token} {a : Option Answer} {r : Option SuccessData}
    (h : t.Reflects a r) :
    t.wait = a.map (verdict t.v5) ∧
      t.tryWait = (a.map (verdict t.v5)).elim (.ok false) fun v => v.map fun _ => true := by
  cases a with
  | none =>
      obtain ⟨hcomplete, -⟩ := h.fresh rfl
      simp [wait, tryWait, hcomplete]
  | some x =>
      obtain ⟨hcomplete, hret⟩ := h.done x rfl
      simp [wait, tryWait, hcomplete, hret]

theorem getResponse_eq {α : Type*} {t : Token} {type : TokenType} {name : String}
    {rsp rsp' : Option α} (h : t.type = type → rsp = rsp') :
    t.getResponse type name rsp = if t.type = type then t.wait.map (handOver name rsp')
      else some (.error .badCast) := by
  by_cases ht : t.type = type
  · rw [getResponse, if_neg (not_not.mpr ht), if_pos ht, h ht]
  · rw [getResponse, if_pos ht, if_neg ht]

/-- After any history in which each request was answered once at most, a wait goes on exactly while
the request under way is unanswered, and then ends as that answer says, whatever earlier requests of
the same token came back with.  The response that is handed over is that of the last answer that had
data, be it an earlier one; a token of another type has none. -/
theorem wait_run (type : TokenType) (v5 : Bool) (n : Nat) {ops : List Op}
    (h : AnsweredOnce none ops) :
    let t := (create type v5 n).run ops
    let res := (current none ops).map (verdict v5)
    let rsp := lastData none ops
    t.wait = res ∧ t.tryWait = res.elim (.ok false) (fun v => v.map fun _ => true) ∧
      t.getConnectResponse = (if type = .connect
        then res.map (handOver "connect" (rsp.map connectResponse))
        else some (.error .badCast)) ∧
      t.getSubscribeResponse = (if type = .subscribe
        then res.map (handOver "subscribe" (rsp.map (subscribed v5 n)))
        else some (.error .badCast)) ∧
      t.getUnsubscribeResponse = (if type = .unsubscribe
        then res.map (handOver "unsubscribe" (rsp.map (unsubscribed v5)))
        else some (.error .badCast)) := by
  intro t res rsp
  have hr : t.Reflects (current none ops) rsp := (create_reflects type v5 n).run h
  obtain ⟨htype, hv5, hn⟩ : t.type = type ∧ t.v5 = v5 ∧ t.nExpected = n := run_kind _ ops
  obtain ⟨hwait, htry⟩ := hr.waits
  have hconn := hr.connRsp
  have hsub := hr.subRsp
  have hunsub := hr.unsubRsp
  rw [hv5] at hwait htry hsub hunsub
  rw [hn] at hsub
  refine ⟨hwait, htry, ?_, ?_, ?_⟩
  · rw [getConnectResponse, getResponse_eq hconn, htype, hwait]
  · rw [getSubscribeResponse, getResponse_eq hsub, htype, hwait]
  · rw [getUnsubscribeResponse, getResponse_eq hunsub, htype, hwait]

def broker : SuccessData where
  token := 1
  reasonCode := SUCCESS
  serverURI := "tcp://localhost:1883"
  MQTTVersion := MQTTVERSION_5
  sessionPresent := false
  reasonCodes := []
  qos := 0
  qosList := []

/-- A connect that is answered with data, and a reconnect that is answered without. -/
def reconnected : List Op := [.answer (.success (some broker)), .reset, .answer (.success none)]

theorem wait_run_reconnected :
    ((create .connect true 0).run reconnected).wait = some (.ok ()) ∧
      ((create .connect true 0).run reconnected).tryWait = .ok true ∧
      ((create .connect true 0).run reconnected).getConnectResponse =
        some (.ok (connectResponse broker)) := by
  have hall := wait_run .connect true 0 (show AnsweredOnce none reconnected from
    ⟨rfl, rfl, trivial⟩)
  obtain ⟨hwait, htry, hconn, -⟩ := hall
  exact ⟨hwait, htry, hconn⟩

end Token

end BupApp.Mqtt
