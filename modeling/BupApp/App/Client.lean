/-
# BupApp.App.Client -- appClient, from its start to its two threads

A client asks its user for a name, connects, sets itself up, waits for the server's key and installs
it; then one thread of it publishes the lines its user types and another one logs what it is sent.
The functions follow _appClient.cpp one by one.  What the library answers is given: how each broker
call ends (`Outcomes`) and what `consume_message` returns.  What a function does is the list of the
calls it makes, or of the texts it writes to the log.
-/
import BupApp.App.Files
import BupApp.App.Server
import BupApp.Lib.Lines

namespace BupApp

open BupApp.Lib.Text BupApp.Lib.Lines

/-! ## The user's name -/

/-- `setClientInfo` (_appClient.cpp 45-54): `m_subscribeMsg` and `m_clientInfo` from the line that
was typed; `none` is the read of a token that is not there. -/
def setClientInfo (localIp clientInfo : Str) : Option (Str × Client) :=
  (Client.ofMsg (subscribeMsg localIp clientInfo)).map fun c => (subscribeMsg localIp clientInfo, c)

/-! ## The key -/

/-- `isMsgTypeOf` (_appClient.cpp 116-119). -/
def isMsgTypeOf (type msg : Str) : Bool := contains type msg

/-- The text that `getPublicKeyMsg` looks for. -/
def keyType : Str := "ssh-rsa".toList

/-- The test of `getPublicKeyMsg` (137-140). -/
def acceptsKey {τ : Type} (privateChnl : Str) (m : Message τ) : Bool :=
  m.topic = privateChnl && isMsgTypeOf keyType m.payload

/-- `SERVER_PUBLIC_KEY_TARGET` (appClient.h 31). -/
def serverPublicKeyTarget : Str := ".ssh/authorized_keys".toList

/-- `handlePubKeyMsg` (_appClient.cpp 155-165): the files after it; `none` if it ends the process. -/
def handlePubKeyMsg (user : Str) (fs : Files) (msg : Str) : Option Files :=
  let m_serverPublicKey := msg
  match isTxtExist fs msg (getFullFilePath serverPublicKeyTarget user) with
  | none => none
  | some true => some fs
  | some false => some (addStrToFile fs m_serverPublicKey serverPublicKeyTarget user)

/-! ## Setting up -/

/-- What a client calls; a `Bool` says whether the call and its wait complete (`false`: one of them
throws). -/
inductive Call where
  | connect (ok : Bool)
  | setWill (topic payload : Str)
  | publish (topic payload : Str) (ok : Bool)
  | startConsuming (ok : Bool)
  | subscribe (topic : Str) (ok : Bool)
  | consumeMessage
  | handlePubKeyMsg (msg user : Str)
  deriving DecidableEq, Repr

/-- How the broker calls of `init` end.  `start_consuming` (async_client.cpp 788-805) makes two calls
that can throw, and between them the queue of `consume_message`. -/
structure Outcomes where
  connect : Bool
  publish : Bool
  disableCallbacks : Bool
  setCallbacks : Bool
  subscribe : Bool
  deriving DecidableEq, Repr

/-- `start_consuming` succeeds. -/
def Outcomes.startConsuming (o : Outcomes) : Bool := o.disableCallbacks && o.setCallbacks

/-- `start_consuming` was called and has made the queue. -/
def Outcomes.queue (o : Outcomes) : Bool := o.publish && o.disableCallbacks

/-- The payload of a client's will (_appClient.cpp 81). -/
def clientWillMsg (ip : Str) : Str := ip ++ " was disconnected>>>".toList

/-- `connectToServer` (_appClient.cpp 56-74); an exception is caught. -/
def connectToServer (o : Outcomes) : List Call := [.connect o.connect]

/-- `clientSetups` (_appClient.cpp 76-101); an exception ends it and is caught. -/
def clientSetups (o : Outcomes) (privateChnl m_subscribeMsg : Str) (m_clientInfo : Client) :
    List Call :=
  .setWill m_clientInfo.ip (clientWillMsg m_clientInfo.ip) ::
    .publish subscibersList m_subscribeMsg o.publish ::
      if o.publish then
        .startConsuming o.startConsuming ::
          if o.startConsuming then [.subscribe privateChnl o.subscribe] else []
      else []

/-- How far a client gets: it waits for a message, `init` has returned, or it has dereferenced the
null pointer of a queue that was never made. -/
inductive Reached where
  | waiting | returned | crashed
  deriving DecidableEq, Repr

/-- What was called, the values that `consume_message` has not returned yet, and how far it got. -/
structure ClientRun (τ : Type) where
  calls : List Call
  rest : List (Option (Message τ))
  reached : Reached
  deriving DecidableEq, Repr

/-- `getPublicKeyMsg` (_appClient.cpp 121-153) with the values that `consume_message` returns. -/
def getPublicKeyMsg {τ : Type} (privateChnl user : Str) : List (Option (Message τ)) → ClientRun τ
  | [] => ⟨[.consumeMessage], [], .waiting⟩
  | none :: rest => ⟨[.consumeMessage], rest, .returned⟩
  | some m :: rest =>
      if acceptsKey privateChnl m then
        ⟨[.consumeMessage, .handlePubKeyMsg m.payload user], rest, .returned⟩
      else
        let later := getPublicKeyMsg privateChnl user rest
        { later with calls := .consumeMessage :: later.calls }

/-- `init` after `setClientInfo` (_appClient.cpp 26-28); without a queue `consume_message`
(async_client.h 640) goes through a null pointer. -/
def appClientInit {τ : Type} (o : Outcomes) (privateChnl m_subscribeMsg : Str)
    (m_clientInfo : Client) (values : List (Option (Message τ))) : ClientRun τ :=
  let setups := connectToServer o ++ clientSetups o privateChnl m_subscribeMsg m_clientInfo
  if o.queue then
    let wait := getPublicKeyMsg privateChnl m_clientInfo.user values
    { wait with calls := setups ++ wait.calls }
  else ⟨setups ++ [.consumeMessage], values, .crashed⟩

theorem getPublicKeyMsg_other {τ : Type} {privateChnl user : Str} {m : Message τ}
    (h : acceptsKey privateChnl m = false) (rest : List (Option (Message τ))) :
    getPublicKeyMsg privateChnl user (some m :: rest) =
      { getPublicKeyMsg privateChnl user rest with
        calls := .consumeMessage :: (getPublicKeyMsg privateChnl user rest).calls } := by
  rw [getPublicKeyMsg, if_neg (by simp [h])]

theorem getPublicKeyMsg_key {τ : Type} {privateChnl user : Str} {m : Message τ}
    (h : acceptsKey privateChnl m = true) (rest : List (Option (Message τ))) :
    getPublicKeyMsg privateChnl user (some m :: rest) =
      ⟨[.consumeMessage, .handlePubKeyMsg m.payload user], rest, .returned⟩ := by
  rw [getPublicKeyMsg, if_pos h]

/-! ## Replies -/

/-- The member `m_msgPayload` (appClient.h 45), which no function of the client assigns. -/
def m_msgPayload : Str := []

/-- The text of _appClient.cpp 197. -/
def waitingMsg : Str := "handleServerReplyMsg: Waiting for server response...".toList

/-- The text of _appClient.cpp 216. -/
def notPrivateMsg : Str :=
  "handleServerReplyMsg: msg was recieved not from privat channle: ".toList

/-- What `CLogger::Write` puts into the log (utils.cpp 42-52); both overloads end the line. -/
def logText (written : List Str) : Str := (written.map (· ++ "\n".toList)).flatten

/-- The texts that `handleServerReplyMsg` writes for a message (_appClient.cpp 207-218). -/
def replyWrites {τ : Type} (privateChnl : Str) (m : Message τ) : List Str :=
  if m.topic = privateChnl then [m_msgPayload]
  else [notPrivateMsg, m.topic ++ m.payload ++ "\n".toList]

/-- A round of the loop in `handleServerReplyMsg` that has taken a message. -/
structure ReplyRound (τ : Type) where
  taken : Message τ
  written : List Str
  deriving DecidableEq, Repr

/-- The rounds, the values that `consume_message` has not returned yet, and how far the thread
got. -/
structure ReplyRun (τ : Type) where
  rounds : List (ReplyRound τ)
  rest : List (Option (Message τ))
  reached : Reached
  deriving DecidableEq, Repr

/-- `handleServerReplyMsg` (_appClient.cpp 191-227) with the values that `consume_message`
returns. -/
def handleServerReplyMsg {τ : Type} (privateChnl : Str) : List (Option (Message τ)) → ReplyRun τ
  | [] => ⟨[], [], .waiting⟩
  | none :: rest => ⟨[], rest, .returned⟩
  | some m :: rest =>
      let later := handleServerReplyMsg privateChnl rest
      { later with rounds := ⟨m, replyWrites privateChnl m⟩ :: later.rounds }

/-- All texts given to `CLogger::Write`: each round starts with the line that it waits, the last one
too, which takes no message. -/
def ReplyRun.writes {τ : Type} (r : ReplyRun τ) : List Str :=
  r.rounds.flatMap (fun d => waitingMsg :: d.written) ++ [waitingMsg]

/-- The text of a log grows by the text of what is written to it. -/
@[simp] theorem logText_append (written more : List Str) :
    logText (written ++ more) = logText written ++ logText more := by
  simp [logText]

/-- Rounds for given messages have taken these. -/
theorem map_taken_map {τ : Type} (written : Message τ → List Str) (msgs : List (Message τ)) :
    (msgs.map fun m => ReplyRound.mk m (written m)).map (·.taken) = msgs := by
  simp [Function.comp_def]

/-- Every message in front of a null is taken, with a round of its own. -/
theorem handleServerReplyMsg_null {τ : Type} (privateChnl : Str) (msgs : List (Message τ))
    (rest : List (Option (Message τ))) :
    handleServerReplyMsg privateChnl (msgs.map some ++ none :: rest) =
      ⟨msgs.map fun m => ⟨m, replyWrites privateChnl m⟩, rest, .returned⟩ := by
  induction msgs with
  | nil => rfl
  | cons m msgs ih =>
      rw [List.map_cons, List.cons_append, handleServerReplyMsg, ih]
      rfl

/-! ## Requests -/

/-- The thread of `handleBackupRequest`: what is left of its input and what it has called. -/
structure Requests where
  stdin : Str
  calls : List Call
  deriving DecidableEq, Repr

namespace Requests

/-- One round of the loop in `handleBackupRequest` (_appClient.cpp 170-188).  A `getline` that finds
nothing leaves the path empty; an exception of the publish is caught; no branch leaves the loop. -/
def round (privateChnl : Str) (s : Requests) (ok : Bool) : Option Requests :=
  match getline s.stdin with
  | some (path, rest) => some ⟨rest, s.calls ++ [.publish privateChnl path ok]⟩
  | none => some ⟨[], s.calls ++ [.publish privateChnl [] ok]⟩

end Requests

end BupApp
