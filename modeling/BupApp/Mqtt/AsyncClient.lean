/-
# BupApp.Mqtt.AsyncClient -- the requests of the client object and their tokens

Each request makes a token, puts it in one of two lists, calls the C library and, when that refuses,
takes the token out again and throws.  The C library answers an accepted request later, from a
thread of its own, by a callback on the token, which completes the token and only then takes it out
of its list.  Any number of threads are between two of these steps at once (`work`); the lists are
under the client's mutex and each token under its own.

The connect token `connTok_` is under no mutex, so its uses are those of one thread: no connect or
reconnect begins while a connect is between its two accesses to it.

A token is named by its place in `toks`, as the library names it by its address.
-/
import BupApp.Lib.Transition
import BupApp.Mqtt.Token

namespace BupApp.Mqtt

open BupApp.Lib.Transition

/-- The requests that make a token.  `n` is the number of topic filters of a request for many, and
zero for a single one. -/
inductive Request where
  | connect (version : Nat)
  | disconnect
  | publish (qos : Nat)
  | subscribe (n : Nat)
  | unsubscribe (n : Nat)
  deriving DecidableEq

/-- A thread between two steps: in the C library's function, about to set the message id of an
accepted publish, about to clean up after a refusal, or, in a callback, with the token completed and
not yet out of its list. -/
inductive Work where
  | calling (t : Nat) (r : Request)
  | recalling (t : Nat)
  | sent (t : Nat) (msgId : Int)
  | refused (t : Nat) (connect : Bool)
  | answered (t : Nat)
  deriving DecidableEq

/-- A token, and for a delivery token the quality of service of its message. -/
structure Entry where
  tok : Token
  msgQos : Option Nat
  deriving DecidableEq

/-- `outstanding` is the C library's: the requests it has accepted and not answered yet.
`delivered` are the calls of the user callback's `delivery_complete`, and `handedOut` the tokens
that have been returned to a caller. -/
structure AsyncClient where
  toks : List Entry
  pendingTokens : List Nat
  pendingDeliveryTokens : List Nat
  connTok : Option Nat
  mqttVersion : Nat
  userCallback : Bool
  work : List Work
  outstanding : List Nat
  delivered : List Nat
  handedOut : List Nat

inductive ClientLabel where
  | begin (r : Request)
  | reconnect
  | accept (w : Work) (msgId : Int)
  | refuse (w : Work)
  | finish (w : Work)
  | answer (t : Nat) (a : Answer)
  deriving DecidableEq

namespace Request

def type : Request → TokenType
  | .connect _ => .connect
  | .disconnect => .disconnect
  | .publish _ => .publish
  | .subscribe _ => .subscribe
  | .unsubscribe _ => .unsubscribe

def msgQos : Request → Option Nat
  | .publish qos => some qos
  | _ => none

def nExpected : Request → Nat
  | .subscribe n | .unsubscribe n => n
  | _ => 0

/-- The version that decides which callbacks the request is made with. -/
def version (mqttVersion : Nat) : Request → Nat
  | .connect version => version
  | _ => mqttVersion

def entry (r : Request) (mqttVersion : Nat) : Entry where
  tok := Token.create r.type (decide (MQTTVERSION_5 ≤ r.version mqttVersion)) r.nExpected
  msgQos := r.msgQos

end Request

namespace AsyncClient

/-- The constructor; `MQTTVERSION_DEFAULT` is zero. -/
def init (userCallback : Bool) : AsyncClient where
  toks := []
  pendingTokens := []
  pendingDeliveryTokens := []
  connTok := none
  mqttVersion := 0
  userCallback := userCallback
  work := []
  outstanding := []
  delivered := []
  handedOut := []

def addToken (c : AsyncClient) (t : Nat) (type : TokenType) : AsyncClient :=
  match type with
  | .publish => { c with pendingDeliveryTokens := c.pendingDeliveryTokens ++ [t] }
  | _ => { c with pendingTokens := c.pendingTokens ++ [t] }

/-- The quality of service of a delivery token's message. -/
def qosOf (c : AsyncClient) (t : Nat) : Nat := ((c.toks[t]?.bind Entry.msgQos)).getD 0

/-- The first entry with the token goes, the delivery tokens being searched first. -/
def removeToken (c : AsyncClient) (t : Nat) : AsyncClient :=
  if t ∈ c.pendingDeliveryTokens then
    { c with
      pendingDeliveryTokens := c.pendingDeliveryTokens.erase t,
      delivered := if c.userCallback ∧ c.qosOf t > 0 then c.delivered ++ [t] else c.delivered }
  else { c with pendingTokens := c.pendingTokens.erase t }

def modifyToken (c : AsyncClient) (t : Nat) (f : Token → Token) : AsyncClient :=
  { c with toks := c.toks.modify t fun e => { e with tok := f e.tok } }

/-- A thread goes on from `w` to the places `ws`, none when its call is over. -/
def goOn (c : AsyncClient) (w : Work) (ws : List Work) : AsyncClient :=
  { c with work := ws ++ c.work.erase w }

def connectWork : Work → Bool
  | .calling _ (.connect _) | .refused _ true => true
  | _ => false

/-- The start of a request, up to the call of the C library. -/
def begin (c : AsyncClient) (r : Request) : AsyncClient :=
  let t := c.toks.length
  let c := { c with toks := c.toks ++ [r.entry c.mqttVersion], work := .calling t r :: c.work }
  match r with
  | .connect version => { c with mqttVersion := version, connTok := some t }.addToken t .connect
  | r => c.addToken t r.type

/-- Without a connect token `reconnect` throws before it does anything. -/
def reconnect (c : AsyncClient) : AsyncClient :=
  match c.connTok with
  | none => c
  | some t =>
      { (c.modifyToken t Token.reset).addToken t .connect with work := .recalling t :: c.work }

/-- The C library has accepted a request: its caller gets the token. -/
def handOut (c : AsyncClient) (t : Nat) : AsyncClient :=
  { c with outstanding := t :: c.outstanding, handedOut := t :: c.handedOut }

/-- The C library accepts; a publish has its message id to set before it returns. -/
def accept (c : AsyncClient) (msgId : Int) : Work → Option AsyncClient
  | .calling t (.publish qos) =>
      some ((c.goOn (.calling t (.publish qos)) [.sent t msgId]).handOut t)
  | .calling t r => some ((c.goOn (.calling t r) []).handOut t)
  | .recalling t => some ((c.goOn (.recalling t) []).handOut t)
  | _ => none

def refuse (c : AsyncClient) : Work → Option AsyncClient
  | .calling t r => some (c.goOn (.calling t r) [.refused t (r.type = .connect)])
  | .recalling t => some (c.goOn (.recalling t) [.refused t false])
  | _ => none

/-- The last step of a call that is past the C library.  A refused connect removes what `connTok_`
holds and empties it. -/
def finish (c : AsyncClient) : Work → Option AsyncClient
  | .sent t msgId =>
      some ((c.modifyToken t fun tok => tok.setMessageId msgId).goOn (.sent t msgId) [])
  | .refused t true =>
      match c.connTok with
      | none => some (c.goOn (.refused t true) [])
      | some u => some ({ c.removeToken u with connTok := none }.goOn (.refused t true) [])
  | .refused t false => some ((c.removeToken t).goOn (.refused t false) [])
  | .answered t => some ((c.removeToken t).goOn (.answered t) [])
  | _ => none

def step (c : AsyncClient) : ClientLabel → Option AsyncClient
  | .begin (.connect version) =>
      if c.work.any connectWork then none else some (c.begin (.connect version))
  | .begin r => some (c.begin r)
  | .reconnect => if c.work.any connectWork then none else some c.reconnect
  | .accept w msgId => if w ∈ c.work then c.accept msgId w else none
  | .refuse w => if w ∈ c.work then c.refuse w else none
  | .finish w => if w ∈ c.work then c.finish w else none
  | .answer t a =>
      if t ∈ c.outstanding then
        some { c.modifyToken t (Token.answer · a) with
          outstanding := c.outstanding.erase t, work := .answered t :: c.work }
      else none

/-! ## Queries -/

def msgIdOf (c : AsyncClient) (t : Nat) : Int := ((c.toks[t]?).map fun e => e.tok.msgId).getD 0

def getPendingDeliveryToken (c : AsyncClient) (msgId : Int) : Option Nat :=
  if msgId > 0 then c.pendingDeliveryTokens.find? fun t => c.msgIdOf t = msgId else none

def getPendingDeliveryTokens (c : AsyncClient) : List Nat :=
  c.pendingDeliveryTokens.filter fun t => c.msgIdOf t > 0

end AsyncClient

end BupApp.Mqtt
