/-
# BupApp.Network.Library -- the network with the MQTT library inside each process

In `BupApp.App.Network` a process takes its messages from its queue at the broker, and a connection
ends with its process.  In the program there is a queue inside each process, too: a thread of the
library moves what arrives on the connection into it (`on_message_arrived`), and the program takes
from there.  The queue and the callback are made by `start_consuming`, in two calls of the C library:
before the first of them what arrives stays in the C library, and between the two it is received by
an empty function and gone.

A connection can be lost while its process lives.  The server's handler, which is set from the
beginning, ends the process; between the two calls of `start_consuming` it is not called, and the
server waits for ever.  A client has no handler.  When `start_consuming` is through,
`on_connection_lost` puts a null pointer behind the messages that have arrived: the client takes what
is left in its queue, up to the null, and nothing from then on, though its process runs on.  Before,
nobody is told: the subscription throws, and the client waits for ever.

As in `Net`, what a process sets up fails only when its connection is lost.
-/
import BupApp.Mqtt.LostConnection
import BupApp.Network.Gap

set_option linter.unusedSectionVars false

namespace BupApp

open BupApp.Lib.Text BupApp.Lib.Ipv4 BupApp.Lib.PubSub BupApp.Lib.Transition
open LostConnection (ArrivedCallback)

/-- `net` holds the processes, and the broker with what is on its way on each connection.  `que` are
the queues inside the processes, `callback` is what the C library does with a message that arrives,
and `lost` are the connections that were lost under a process.  `idle` are the clients that will take
nothing any more; their processes run, and count as stopped in `net`. -/
structure LibNet (ι : Type) where
  net : Net ι
  que : Party ι → List (Option (Msg ι))
  callback : Party ι → ArrivedCallback
  lost : Party ι → Bool
  idle : ι → Bool

/-- One step of a process, or of the library's thread in it.  `disable` and `enable` are the two
halves of `start_consuming`. -/
inductive LibLabel (ι : Type) where
  | process (l : NetLabel ι)
  | disable (k : Party ι)
  | enable (k : Party ι)
  | deliver (k : Party ι)
  | lose (k : Party ι)
  deriving DecidableEq, Repr

namespace LibNet

variable {ι : Type} [DecidableEq ι]

def init : LibNet ι :=
  ⟨Net.init, fun _ => [], fun _ => .none, fun _ => false, fun _ => false⟩

/-- The process is through `start_consuming`. -/
def consuming (s : LibNet ι) (k : Party ι) : Bool := s.callback k = .onMessageArrived

/-- The process has connected. -/
def connected (s : LibNet ι) : Party ι → Bool
  | .server => s.net.up
  | .client i => (s.net.clients i).pc ≠ .stopped

/-- And it has not ended. -/
def running (s : LibNet ι) : Party ι → Bool
  | .server => s.net.up ∧ s.net.srv.crashed = none
  | .client i => s.connected (.client i)

/-- The process has come to `start_consuming`: the server in `working`, a client in
`clientSetups`. -/
def starting (s : LibNet ι) : Party ι → Bool
  | .server => s.running .server
  | .client i => (s.net.clients i).pc = .registered

def setQue (s : LibNet ι) (k : Party ι) (q : List (Option (Msg ι))) : LibNet ι :=
  { s with que := Function.update s.que k q }

def setCallback (s : LibNet ι) (k : Party ι) (c : ArrivedCallback) : LibNet ι :=
  { s with callback := Function.update s.callback k c }

/-- A process is gone, and its library with it. -/
def gone (s : LibNet ι) (k : Party ι) : LibNet ι :=
  { (s.setQue k []).setCallback k .none with lost := Function.update s.lost k false }

def setClientPc (s : LibNet ι) (i : ι) (pc : ClientPc) : LibNet ι :=
  { s with net := s.net.setClient i { s.net.clients i with pc := pc } }

/-- A client's process has ended. -/
def ended (s : LibNet ι) (i : ι) : LibNet ι := (s.setClientPc i .stopped).gone (.client i)

/-- A client has come to wait for ever, or its message thread has ended. -/
def goesIdle (s : LibNet ι) (i : ι) : LibNet ι :=
  { s.ended i with idle := Function.update s.idle i true }

@[simp] theorem gone_que_self (s : LibNet ι) (k : Party ι) : (s.gone k).que k = [] :=
  Function.update_self ..

theorem gone_que_of_ne {j k : Party ι} (h : j ≠ k) {s : LibNet ι} : (s.gone k).que j = s.que j :=
  Function.update_of_ne h ..

@[simp] theorem setQue_self (s : LibNet ι) (k : Party ι) (q : List (Option (Msg ι))) :
    (s.setQue k q).que k = q := Function.update_self ..

theorem setQue_of_ne {j k : Party ι} (h : j ≠ k) {s : LibNet ι} {q : List (Option (Msg ι))} :
    (s.setQue k q).que j = s.que j := Function.update_of_ne h ..

theorem setCallback_of_ne {j k : Party ι} (h : j ≠ k) {s : LibNet ι} {c : ArrivedCallback} :
    (s.setCallback k c).callback j = s.callback j := Function.update_of_ne h ..

theorem gone_callback_of_ne {j k : Party ι} (h : j ≠ k) {s : LibNet ι} :
    (s.gone k).callback j = s.callback j := Function.update_of_ne h ..

/-- `disable_callbacks`, with which `start_consuming` begins. -/
def disable (s : LibNet ι) (k : Party ι) : Option (LibNet ι) :=
  if s.lost k = false ∧ s.starting k = true ∧ s.callback k = .none then
    some (s.setCallback k .ignore)
  else none

/-- The rest of `start_consuming`; the queue it makes is empty. -/
def enable (s : LibNet ι) (k : Party ι) : Option (LibNet ι) :=
  if s.lost k = false ∧ s.starting k = true ∧ s.callback k = .ignore then
    some (s.setCallback k .onMessageArrived)
  else none

/-- The first message on the connection arrives: `on_message_arrived`, or the empty function. -/
def deliver (s : LibNet ι) (k : Party ι) : Option (LibNet ι) :=
  if s.lost k = false ∧ s.running k = true then
    match s.callback k, s.net.broker.queue k with
    | .ignore, _ :: _ => some { s with net := { s.net with broker := s.net.broker.pop k } }
    | .onMessageArrived, m :: _ =>
        some { s.setQue k (s.que k ++ [some m]) with
          net := { s.net with broker := s.net.broker.pop k } }
    | _, _ => none
  else none

/-- What is in the queue when the connection is lost.  The server's handler has called `exit`, or
there was no queue yet. -/
def queLost (s : LibNet ι) : Party ι → List (Option (Msg ι))
  | .server => []
  | .client i =>
      if s.consuming (.client i) then s.que (.client i) ++ [none] else s.que (.client i)

/-- The connection is lost; `on_connection_lost` is called if it is set.  That of a server which has
ended by itself is lost, too. -/
def lose (s : LibNet ι) (k : Party ι) : Option (LibNet ι) :=
  if s.lost k = false ∧ s.connected k = true then
    some { s.setQue k (s.queLost k) with
      net := { s.net with broker := s.net.broker.disconnect k }
      lost := Function.update s.lost k true }
  else none

/-- `consume_message` in a client.  Who takes the null takes nothing any more: `getPublicKeyMsg`
returns, and `handleServerReplyMsg`, which comes then, finds an empty queue; or this thread ends.
Nothing the client does reaches anybody. -/
def take (cfg : NetConfig ι) (s : LibNet ι) (i : ι) : Option (LibNet ι) :=
  if (s.net.clients i).pc = .waiting ∨ (s.net.clients i).pc = .working then
    match s.que (.client i) with
    | [] => none
    | some m :: rest =>
        some { s.setQue (.client i) rest with
          net := s.net.setClient i ((s.net.clients i).take (cfg.ip i) m) }
    | none :: _ => some (s.goesIdle i)
  else none

/-- A step of the server process behind `start_consuming`, while its connection lasts. -/
def server (cfg : NetConfig ι) (s : LibNet ι) (l : Server.Label (Stamp ι)) : Option (LibNet ι) :=
  if s.net.up = true ∧ s.lost .server = false ∧ s.consuming .server = true then
    match l, s.que .server with
    | .consume m, some m' :: rest =>
        if m = m' then
          (s.net.srv.act cfg.server (.consume m)).map fun p =>
            { s.setQue .server rest with net := s.net.perform cfg p }
        else none
    | .consume _, _ => none
    | .consumeNull r, none :: rest =>
        (s.net.srv.act cfg.server (.consumeNull r)).map fun p =>
          { s.setQue .server rest with net := s.net.perform cfg p }
    | .consumeNull _, _ => none
    | l, _ =>
        (s.net.srv.act cfg.server l).map fun p => { s with net := s.net.perform cfg p }
  else none

/-- A step that goes as in `Net` as long as the connection lasts. -/
def online (cfg : NetConfig ι) (s : LibNet ι) (l : NetLabel ι) : Option (LibNet ι) :=
  (s.net.step cfg l).map fun n => { s with net := n }

/-- A process is stopped or replaced. -/
def restart (cfg : NetConfig ι) (s : LibNet ι) (k : Party ι) (l : NetLabel ι) :
    Option (LibNet ι) :=
  (s.net.step cfg l).map fun n => { s with net := n }.gone k

/-- One step.  Without its connection a client's calls throw.  In `clientSetups` the rest is skipped:
where `start_consuming` is still to come, `consume_message` has no queue and the process ends; where
it is under way the client waits for ever, and where it is through it waits for what it was sent and
the null.  In the loop for the paths the exception is printed. -/
def step (cfg : NetConfig ι) (s : LibNet ι) : LibLabel ι → Option (LibNet ι)
  | .disable k => s.disable k
  | .enable k => s.enable k
  | .deliver k => s.deliver k
  | .lose k => s.lose k
  | .process (.take i) => s.take cfg i
  | .process (.server l) => s.server cfg l
  | .process .serverSetups => if s.lost .server then none else s.online cfg .serverSetups
  | .process .serverRestart => s.restart cfg .server .serverRestart
  | .process (.start i) => if s.idle i then none else s.online cfg (.start i)
  | .process (.stop i) =>
      if s.idle i then some { s with idle := Function.update s.idle i false }
      else s.restart cfg (.client i) (.stop i)
  | .process (.register i clientInfo) =>
      if s.lost (.client i) then
        if (s.net.clients i).pc = .connected then some (s.ended i) else none
      else s.online cfg (.register i clientInfo)
  | .process (.subscribe i) =>
      if s.lost (.client i) then
        if (s.net.clients i).pc = .registered then
          some (if s.consuming (.client i) then s.setClientPc i .waiting else s.goesIdle i)
        else none
      else if s.consuming (.client i) then s.online cfg (.subscribe i)
      else none
  | .process (.request i path) =>
      if s.idle i then some s
      else if s.lost (.client i) then if (s.net.clients i).pc = .working then some s else none
      else s.online cfg (.request i path)

/-- The message that is swallowed at a step. -/
def swallows (s : LibNet ι) : LibLabel ι → List (Msg ι)
  | .deliver k =>
      if s.callback k = .ignore then (s.net.broker.queue k).head?.toList else []
  | _ => []

/-- The step of `Net` that a step of a process amounts to. -/
def netObs (s : LibNet ι) : NetLabel ι → List (NetLabel ι)
  | .take i =>
      match s.que (.client i) with
      | none :: _ => [.stop i]
      | _ => [.take i]
  | .stop i => if s.idle i then [] else [.stop i]
  | .register i clientInfo =>
      if s.lost (.client i) then [.stop i] else [.register i clientInfo]
  | .subscribe i =>
      if s.lost (.client i) ∧ ¬ s.consuming (.client i) then [.stop i] else [.subscribe i]
  | .request i path => if s.idle i ∨ s.lost (.client i) then [] else [.request i path]
  | l => [l]

def obs (s : LibNet ι) : LibLabel ι → List (GapLabel ι)
  | .process l => (s.netObs l).map .net
  | l => (s.swallows l).map .swallow

/-! ## What a step can do -/

/-- The step goes as in `Net`, in a process whose connection lasts. -/
def goesOn (s : LibNet ι) : NetLabel ι → Prop
  | .serverSetups => s.lost .server = false
  | .start i => s.idle i = false
  | .register i _ => s.lost (.client i) = false
  | .subscribe i => s.lost (.client i) = false ∧ s.consuming (.client i) = true
  | .request i _ => s.idle i = false ∧ s.lost (.client i) = false
  | .stop _ | .take _ | .serverRestart | .server _ => False

/-- The process that the step ends. -/
def ends (s : LibNet ι) : NetLabel ι → Option (Party ι)
  | .serverRestart => some .server
  | .stop i => if s.idle i then none else some (.client i)
  | _ => none

/-- The server takes messages. -/
def serving (s : LibNet ι) : Prop :=
  s.net.up = true ∧ s.lost .server = false ∧ s.consuming .server = true

/-- Everything a step can do. -/
inductive Moves (cfg : NetConfig ι) (s : LibNet ι) : LibLabel ι → LibNet ι → Prop
  -- `start_consuming`, and the library's thread
  | disable {k : Party ι} (hlost : s.lost k = false) (hk : s.starting k = true)
      (hcall : s.callback k = .none) : Moves cfg s (.disable k) (s.setCallback k .ignore)
  | enable {k : Party ι} (hlost : s.lost k = false) (hk : s.starting k = true)
      (hcall : s.callback k = .ignore) :
      Moves cfg s (.enable k) (s.setCallback k .onMessageArrived)
  | swallow {k : Party ι} {m : Msg ι} {rest : List (Msg ι)} (hlost : s.lost k = false)
      (hrun : s.running k = true) (hcall : s.callback k = .ignore)
      (hq : s.net.broker.queue k = m :: rest) :
      Moves cfg s (.deliver k) { s with net := { s.net with broker := s.net.broker.pop k } }
  | arrive {k : Party ι} {m : Msg ι} {rest : List (Msg ι)} (hlost : s.lost k = false)
      (hrun : s.running k = true) (hcons : s.consuming k = true)
      (hq : s.net.broker.queue k = m :: rest) :
      Moves cfg s (.deliver k) { s.setQue k (s.que k ++ [some m]) with
        net := { s.net with broker := s.net.broker.pop k } }
  | lose {k : Party ι} (hlost : s.lost k = false) (hk : s.connected k = true) :
      Moves cfg s (.lose k) { s.setQue k (s.queLost k) with
        net := { s.net with broker := s.net.broker.disconnect k }
        lost := Function.update s.lost k true }
  -- a process whose connection lasts, or that is stopped or replaced
  | online {l : NetLabel ι} {n : Net ι} (hl : s.goesOn l) (hn : s.net.step cfg l = some n) :
      Moves cfg s (.process l) { s with net := n }
  | restart {l : NetLabel ι} {k : Party ι} {n : Net ι} (hk : s.ends l = some k)
      (hn : s.net.step cfg l = some n) : Moves cfg s (.process l) ({ s with net := n }.gone k)
  -- a client that takes nothing any more, or that has lost its connection
  | stopIdle {i : ι} (hi : s.idle i = true) :
      Moves cfg s (.process (.stop i)) { s with idle := Function.update s.idle i false }
  | registerLost {i : ι} {clientInfo : Str} (hlost : s.lost (.client i) = true)
      (hpc : (s.net.clients i).pc = .connected) :
      Moves cfg s (.process (.register i clientInfo)) (s.ended i)
  | subscribeLost {i : ι} (hlost : s.lost (.client i) = true)
      (hpc : (s.net.clients i).pc = .registered) (hcons : s.consuming (.client i) = true) :
      Moves cfg s (.process (.subscribe i)) (s.setClientPc i .waiting)
  | subscribeDeaf {i : ι} (hlost : s.lost (.client i) = true)
      (hpc : (s.net.clients i).pc = .registered) (hcons : s.consuming (.client i) = false) :
      Moves cfg s (.process (.subscribe i)) (s.goesIdle i)
  | requestLost {i : ι} {path : Str} (hi : s.idle i = true ∨ s.lost (.client i) = true) :
      Moves cfg s (.process (.request i path)) s
  -- `consume_message` in a client
  | take {i : ι} {m : Msg ι} {rest : List (Option (Msg ι))}
      (hpc : Net.Subscribed (s.net.clients i).pc) (hq : s.que (.client i) = some m :: rest) :
      Moves cfg s (.process (.take i)) { s.setQue (.client i) rest with
        net := s.net.setClient i ((s.net.clients i).take (cfg.ip i) m) }
  | takeNull {i : ι} {rest : List (Option (Msg ι))} (hpc : Net.Subscribed (s.net.clients i).pc)
      (hq : s.que (.client i) = none :: rest) :
      Moves cfg s (.process (.take i)) (s.goesIdle i)
  -- the server behind `start_consuming`
  | consume {m : Msg ι} {rest : List (Option (Msg ι))} {p : Server (Stamp ι) × List Effect}
      (h : s.serving) (hq : s.que .server = some m :: rest)
      (hact : s.net.srv.act cfg.server (.consume m) = some p) :
      Moves cfg s (.process (.server (.consume m)))
        { s.setQue .server rest with net := s.net.perform cfg p }
  | consumeNull {r : Server.Reconnect} {rest : List (Option (Msg ι))}
      {p : Server (Stamp ι) × List Effect} (h : s.serving) (hq : s.que .server = none :: rest)
      (hact : s.net.srv.act cfg.server (.consumeNull r) = some p) :
      Moves cfg s (.process (.server (.consumeNull r)))
        { s.setQue .server rest with net := s.net.perform cfg p }
  | acts {l : Server.Label (Stamp ι)} {p : Server (Stamp ι) × List Effect} (h : s.serving)
      (hl : ∀ m, l ≠ .consume m) (hnn : l.nonNull) (hact : s.net.srv.act cfg.server l = some p) :
      Moves cfg s (.process (.server l)) { s with net := s.net.perform cfg p }

section Steps

variable {cfg : NetConfig ι} {s s' : LibNet ι}

theorem ends_cases {l : NetLabel ι} {k : Party ι} (hk : s.ends l = some k) :
    (l = .serverRestart ∧ k = .server) ∨ ∃ i, l = .stop i ∧ k = .client i ∧ s.idle i = false := by
  cases l with
  | serverRestart => exact Or.inl ⟨rfl, (Option.some.inj hk).symm⟩
  | stop i =>
      simp only [ends] at hk
      split at hk
      · cases hk
      · rename_i hidle
        exact Or.inr ⟨i, rfl, (Option.some.inj hk).symm, Bool.eq_false_iff.mpr hidle⟩
  | start | register | subscribe | take | request | serverSetups | server => cases hk

theorem server_moves {l : Server.Label (Stamp ι)} (hs : s.server cfg l = some s') :
    Moves cfg s (.process (.server l)) s' := by
  unfold LibNet.server at hs
  split at hs
  · rename_i hserving
    cases l with
    | consume m =>
        cases hq : s.que .server with
        | nil => simp [hq] at hs
        | cons x rest =>
            cases x with
            | none => simp [hq] at hs
            | some m' =>
                simp only [hq] at hs
                split at hs
                · rename_i hm
                  obtain ⟨p, hp, rfl⟩ := Option.map_eq_some_iff.mp hs
                  exact .consume hserving (hm ▸ hq) hp
                · cases hs
    | consumeNull r =>
        cases hq : s.que .server with
        | nil => simp [hq] at hs
        | cons x rest =>
            cases x with
            | some m => simp [hq] at hs
            | none =>
                simp only [hq] at hs
                obtain ⟨p, hp, rfl⟩ := Option.map_eq_some_iff.mp hs
                exact .consumeNull hserving hq hp
    | _ =>
        obtain ⟨p, hp, rfl⟩ := Option.map_eq_some_iff.mp hs
        exact .acts hserving (by simp) trivial hp
  · cases hs

/-- A step of a process other than the server's loop and handlers. -/
theorem client_moves {l : NetLabel ι} (hs : s.step cfg (.process l) = some s')
    (hl : ∀ l', l ≠ .server l') : Moves cfg s (.process l) s' := by
  have honline : s.goesOn l → s.online cfg l = some s' → Moves cfg s (.process l) s' := by
    intro hgoes h
    obtain ⟨n, hn, rfl⟩ := Option.map_eq_some_iff.mp h
    exact .online hgoes hn
  have hrestart : ∀ k, s.ends l = some k → s.restart cfg k l = some s' →
      Moves cfg s (.process l) s' := by
    intro k hk h
    obtain ⟨n, hn, rfl⟩ := Option.map_eq_some_iff.mp h
    exact .restart hk hn
  cases l with
  | server l => exact absurd rfl (hl l)
  | serverSetups =>
      simp only [LibNet.step] at hs
      split at hs
      · cases hs
      · rename_i hlost
        exact honline (Bool.eq_false_iff.mpr hlost) hs
  | serverRestart => exact hrestart .server rfl hs
  | start i =>
      simp only [LibNet.step] at hs
      split at hs
      · cases hs
      · rename_i hidle
        exact honline (Bool.eq_false_iff.mpr hidle) hs
  | stop i =>
      simp only [LibNet.step] at hs
      split at hs
      · rename_i hidle
        cases hs
        exact .stopIdle hidle
      · rename_i hidle
        exact hrestart _ (if_neg hidle) hs
  | register i clientInfo =>
      simp only [LibNet.step] at hs
      split at hs
      · rename_i hlost
        split at hs
        · rename_i hpc
          cases hs
          exact .registerLost hlost hpc
        · cases hs
      · rename_i hlost
        exact honline (Bool.eq_false_iff.mpr hlost) hs
  | subscribe i =>
      simp only [LibNet.step] at hs
      split at hs
      · rename_i hlost
        split at hs
        · rename_i hpc
          cases hs
          cases hcons : s.consuming (.client i) with
          | true => exact .subscribeLost hlost hpc hcons
          | false => exact .subscribeDeaf hlost hpc hcons
        · cases hs
      · rename_i hlost
        split at hs
        · rename_i hcons
          exact honline ⟨Bool.eq_false_iff.mpr hlost, hcons⟩ hs
        · cases hs
  | take i =>
      simp only [LibNet.step, LibNet.take] at hs
      split at hs
      · rename_i hpc
        split at hs
        · cases hs
        · rename_i m rest hq
          cases hs
          exact .take hpc hq
        · rename_i rest hq
          cases hs
          exact .takeNull hpc hq
      · cases hs
  | request i path =>
      simp only [LibNet.step] at hs
      split at hs
      · rename_i hidle
        cases hs
        exact .requestLost (Or.inl hidle)
      · rename_i hidle
        split at hs
        · rename_i hlost
          split at hs
          · cases hs
            exact .requestLost (Or.inr hlost)
          · cases hs
        · rename_i hlost
          exact honline ⟨Bool.eq_false_iff.mpr hidle, Bool.eq_false_iff.mpr hlost⟩ hs

theorem step_moves {l : LibLabel ι} (hs : s.step cfg l = some s') : Moves cfg s l s' := by
  cases l with
  | process l =>
      cases l with
      | server l => exact server_moves hs
      | _ => exact client_moves hs (by simp)
  | disable k =>
      simp only [LibNet.step, LibNet.disable, Option.ite_none_right_eq_some] at hs
      obtain ⟨⟨hlost, hk, hcall⟩, hs⟩ := hs
      cases hs
      exact .disable hlost hk hcall
  | enable k =>
      simp only [LibNet.step, LibNet.enable, Option.ite_none_right_eq_some] at hs
      obtain ⟨⟨hlost, hk, hcall⟩, hs⟩ := hs
      cases hs
      exact .enable hlost hk hcall
  | deliver k =>
      simp only [LibNet.step, LibNet.deliver] at hs
      split at hs
      · rename_i hk
        split at hs
        · rename_i hcall hq
          cases hs
          exact .swallow hk.1 hk.2 hcall hq
        · rename_i hcall hq
          cases hs
          exact .arrive hk.1 hk.2 (by simp [consuming, hcall]) hq
        · cases hs
      · cases hs
  | lose k =>
      simp only [LibNet.step, LibNet.lose, Option.ite_none_right_eq_some] at hs
      obtain ⟨⟨hlost, hk⟩, hs⟩ := hs
      cases hs
      exact .lose hlost hk

theorem perform_clients (s : Net ι) (p : Server (Stamp ι) × List Effect) :
    (s.perform cfg p).clients = s.clients := by
  obtain ⟨srv, es⟩ := p
  have hfold : ∀ n : Net ι, (es.foldl (Net.effect cfg) n).clients = n.clients := by
    induction es with
    | nil => exact fun n => rfl
    | cons e es ih =>
        intro n
        rw [List.foldl_cons, ih]
        cases e <;> rfl
  exact hfold _

end Steps

/-! ## Who is through `start_consuming` -/

/-- Whether a client is through at this point. -/
def Stage : ClientPc → Bool → Prop
  | .stopped, b | .connected, b => b = false
  | .registered, _ => True
  | .waiting, b | .working, b => b = true

/-- A server that is not through has taken nothing; a client gets through while it is registered. -/
structure Starts (s : LibNet ι) : Prop where
  server : s.consuming .server = false → s.net.srv = Server.start ∧ s.que .server = []
  client : ∀ i, Stage (s.net.clients i).pc (s.consuming (.client i))

theorem Starts.through {s : LibNet ι} (h : s.Starts) {i : ι}
    (hsub : Net.Subscribed (s.net.clients i).pc) : s.consuming (.client i) = true := by
  have hstage := h.client i
  rcases hsub with hpc | hpc
  · rwa [hpc] at hstage
  · rwa [hpc] at hstage

theorem stage_of_subscribed {pc : ClientPc} {b : Bool} (hpc : Net.Subscribed pc) (hb : b = true) :
    Stage pc b := by
  rcases hpc with rfl | rfl
  · exact hb
  · exact hb

theorem init_starts : (init : LibNet ι).Starts := ⟨fun _ => ⟨rfl, rfl⟩, fun _ => rfl⟩

section Starts

variable {cfg : NetConfig ι} {s s' : LibNet ι}

/-- A step of a client. -/
theorem Starts.at (h : s.Starts) (i : ι) (hsrv : s'.net.srv = s.net.srv)
    (hque : s'.que .server = s.que .server)
    (hcall : ∀ k, k ≠ .client i → s'.callback k = s.callback k)
    (hc : ∀ j, j ≠ i → s'.net.clients j = s.net.clients j)
    (hi : Stage (s'.net.clients i).pc (s'.consuming (.client i))) : s'.Starts := by
  refine ⟨?_, ?_⟩
  · intro hcons
    rw [consuming, hcall .server (by simp)] at hcons
    rw [hsrv, hque]
    exact h.server hcons
  · intro j
    by_cases hji : j = i
    · subst hji
      exact hi
    · rw [hc j hji, consuming, hcall (.client j) (by simpa using hji)]
      exact h.client j

theorem Starts.setClient (h : s.Starts) (i : ι) (c : AppClient (Stamp ι)) (n : Net ι)
    (hsrv : n.srv = s.net.srv) (hc : n.clients = (s.net.setClient i c).clients)
    (hi : Stage c.pc (s.consuming (.client i))) : ({ s with net := n } : LibNet ι).Starts := by
  have hself : n.clients i = c := by
    rw [hc]
    exact Function.update_self ..
  refine h.at i hsrv rfl (fun _ _ => rfl) ?_ ?_
  · intro j hj
    show n.clients j = _
    rw [hc]
    exact Function.update_of_ne hj ..
  · show Stage (n.clients i).pc _
    rw [hself]
    exact hi

theorem Starts.ended (h : s.Starts) (i : ι) : (s.ended i).Starts := by
  refine h.at i rfl (gone_que_of_ne (by simp)) (fun k hk => gone_callback_of_ne hk)
    (fun j hj => Function.update_of_ne hj ..) ?_
  simp [LibNet.ended, gone, setQue, setCallback, setClientPc, Net.setClient, consuming, Stage]

theorem Starts.goesIdle (h : s.Starts) (i : ι) : (s.goesIdle i).Starts :=
  ⟨(h.ended i).server, (h.ended i).client⟩

/-- The server is through, and stays so. -/
theorem Starts.stays (h : s.Starts) (hcons : s.consuming .server = true)
    (hcall : s'.callback = s.callback) (hc : s'.net.clients = s.net.clients) : s'.Starts := by
  have hsame : s'.consuming = s.consuming := by
    unfold consuming
    rw [hcall]
  refine ⟨?_, ?_⟩
  · intro hnot
    rw [hsame, hcons] at hnot
    cases hnot
  · intro i
    rw [hc, hsame]
    exact h.client i

/-- A half of `start_consuming`. -/
theorem Starts.setCallback (h : s.Starts) {k : Party ι} (hk : s.starting k = true)
    (hnot : s.consuming k = false) (c : ArrivedCallback) : (s.setCallback k c).Starts := by
  cases k with
  | server =>
      refine ⟨fun _ => h.server hnot, fun i => ?_⟩
      rw [consuming, setCallback_of_ne (by simp)]
      exact h.client i
  | client i =>
      refine h.at i rfl rfl (fun k hk => setCallback_of_ne hk) (fun _ _ => rfl) ?_
      have hpc : (s.net.clients i).pc = .registered := by simpa [starting] using hk
      show Stage (s.net.clients i).pc _
      rw [hpc]
      trivial

/-- The queue of another process, or of a server that is through, is filled or emptied. -/
theorem Starts.setQue (h : s.Starts) {k : Party ι} (q : List (Option (Msg ι))) {n : Net ι}
    (hk : s.consuming k = true ∨ q = []) (hsrv : n.srv = s.net.srv)
    (hc : n.clients = s.net.clients) (lost : Party ι → Bool) :
    ({ s.setQue k q with net := n, lost := lost } : LibNet ι).Starts := by
  refine ⟨fun hnot => ⟨hsrv.trans (h.server hnot).1, ?_⟩, fun i => ?_⟩
  · by_cases hserver : Party.server = k
    · subst hserver
      rcases hk with hcons | rfl
      · rw [show s.consuming .server = false from hnot] at hcons
        cases hcons
      · exact setQue_self s .server []
    · exact (setQue_of_ne hserver).trans (h.server hnot).2
  · show Stage (n.clients i).pc _
    rw [hc]
    exact h.client i

/-- A step that goes as in `Net`. -/
theorem Starts.online (h : s.Starts) {l : NetLabel ι} (hl : s.goesOn l) {n : Net ι}
    (hn : s.net.step cfg l = some n) : ({ s with net := n } : LibNet ι).Starts := by
  cases l with
  | serverSetups =>
      simp only [Net.step, Option.ite_none_right_eq_some] at hn
      obtain ⟨-, hn⟩ := hn
      cases hn
      exact ⟨h.server, h.client⟩
  | start i =>
      simp only [Net.step, Option.ite_none_right_eq_some] at hn
      obtain ⟨hpc, hn⟩ := hn
      cases hn
      -- a client that is stopped is not through `start_consuming`
      have hstage := h.client i
      rw [hpc] at hstage
      exact h.setClient i _ _ rfl rfl hstage
  | register i clientInfo =>
      simp only [Net.step, Option.ite_none_right_eq_some] at hn
      obtain ⟨-, hn⟩ := hn
      cases hn
      exact h.setClient i _ _ rfl rfl trivial
  | subscribe i =>
      simp only [Net.step, Option.ite_none_right_eq_some] at hn
      obtain ⟨-, hn⟩ := hn
      cases hn
      exact h.setClient i _ _ rfl rfl hl.2
  | request i path =>
      simp only [Net.step, Option.ite_none_right_eq_some] at hn
      obtain ⟨-, hn⟩ := hn
      cases hn
      exact ⟨h.server, h.client⟩
  | stop | take | serverRestart | server => exact hl.elim

/-- A process is stopped or replaced. -/
theorem Starts.restart (h : s.Starts) {l : NetLabel ι} {k : Party ι} (hk : s.ends l = some k)
    {n : Net ι} (hn : s.net.step cfg l = some n) : ({ s with net := n }.gone k).Starts := by
  rcases ends_cases hk with ⟨rfl, rfl⟩ | ⟨i, rfl, rfl, -⟩
  · cases hn
    refine ⟨fun _ => ⟨rfl, gone_que_self _ _⟩, fun i => ?_⟩
    rw [consuming, gone_callback_of_ne (by simp)]
    exact h.client i
  · simp only [Net.step, Option.ite_none_right_eq_some] at hn
    obtain ⟨-, hn⟩ := hn
    cases hn
    exact ⟨(h.ended i).server, (h.ended i).client⟩

theorem starts_step (h : s.Starts) {l : LibLabel ι} (hs : s.step cfg l = some s') : s'.Starts := by
  cases step_moves hs with
  | disable hlost hk hcall => exact h.setCallback hk (by simp [consuming, hcall]) _
  | enable hlost hk hcall => exact h.setCallback hk (by simp [consuming, hcall]) _
  | swallow => exact ⟨h.server, h.client⟩
  | @arrive k m rest hlost hrun hcons hq =>
      exact h.setQue (n := { s.net with broker := s.net.broker.pop k }) _ (Or.inl hcons) rfl rfl _
  | @lose k =>
      cases k with
      | server =>
          exact h.setQue (n := { s.net with broker := s.net.broker.disconnect .server }) _
            (Or.inr rfl) rfl rfl _
      | client i =>
          -- the null of a client is not in the queue of the server
          have hque : (s.setQue (.client i) (s.queLost (.client i))).que .server = s.que .server :=
            setQue_of_ne (by simp)
          refine ⟨fun hnot => ⟨(h.server hnot).1, hque.trans (h.server hnot).2⟩, h.client⟩
  | online hl hn => exact h.online hl hn
  | restart hk hn => exact h.restart hk hn
  | stopIdle => exact ⟨h.server, h.client⟩
  | registerLost => exact h.ended _
  | subscribeLost hlost hpc hcons => exact h.setClient _ _ _ rfl rfl hcons
  | subscribeDeaf => exact h.goesIdle _
  | requestLost => exact h
  | @take i m rest hpc hq =>
      have hclient : ∀ c, (s.net.setClient i c).clients i = c := fun c => Function.update_self ..
      have hsub : Net.Subscribed
          ((s.net.setClient i ((s.net.clients i).take (cfg.ip i) m)).clients i).pc := by
        rw [hclient]
        exact Net.subscribed_take _ m hpc
      have hque : (s.setQue (.client i) rest).que .server = s.que .server :=
        setQue_of_ne (by simp)
      exact h.at i rfl hque (fun _ _ => rfl) (fun j hj => Function.update_of_ne hj ..)
        (stage_of_subscribed hsub (h.through hpc))
  | takeNull => exact h.goesIdle _
  | consume hserving => exact h.stays hserving.2.2 rfl (perform_clients _ _)
  | consumeNull hserving => exact h.stays hserving.2.2 rfl (perform_clients _ _)
  | acts hserving => exact h.stays hserving.2.2 rfl (perform_clients _ _)

end Starts

end LibNet

end BupApp
