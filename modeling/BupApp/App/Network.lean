/-
# BupApp.App.Network -- the server, its clients and the broker between them

The processes of BupApp share nothing but a broker.  A client registers on the public channel,
subscribes to the channel that is named by its own address, waits there for the server's key and
then publishes the paths its user types; the server is the process of `BupApp.App.Server`, which
takes its messages from its queue at the broker and whose effects are the broker's operations.

A state holds the broker, the server and the clients.  A label is one step of one of them; starting
and stopping processes are steps too.  Every publication is stamped with its kind and its number:
the stamps, the history of publications and the two lists behind it are ghosts, which no step reads
but to extend them.
-/
import BupApp.App.Client
import BupApp.App.ServerRuns
import BupApp.Lib.PubSub

namespace BupApp

open BupApp.Lib.Text BupApp.Lib.Ipv4 BupApp.Lib.PubSub

/-! ## Messages and parties -/

/-- Why a message was published. -/
inductive Origin (ι : Type) where
  | registration (i : ι)   -- `appClient::clientSetups`, line 88
  | request (i : ι)        -- `appClient::handleBackupRequest`, line 180
  | key                    -- `appServer::handleNewSubscriber`, line 167
  | reply                  -- `appServer::handleBackupRequest`, line 247
  deriving DecidableEq, Repr

/-- The ghost tag of a message: its kind and its number among all publications. -/
structure Stamp (ι : Type) where
  origin : Origin ι
  no : Nat
  deriving DecidableEq, Repr

abbrev Msg (ι : Type) := Message (Stamp ι)

/-- The connections to the broker. -/
inductive Party (ι : Type) where
  | server
  | client (i : ι)
  deriving DecidableEq, Repr

/-- What does not change: the server's own configuration, the addresses of the clients, and whether
the broker sends a `noLocal` subscriber a retained message of its own. -/
structure NetConfig (ι : Type) where
  server : Config
  ip : ι → Str
  resendOwn : Bool
  quad : ∀ i, dottedQuad (ip i) = true
  distinct : ∀ i j, ip i = ip j → i = j

/-! ## Clients -/

/-- Program points of a client. -/
inductive ClientPc where
  | stopped
  | connected    -- in `clientSetups`, before line 88
  | registered   -- in `clientSetups`, before line 94
  | waiting      -- in `getPublicKeyMsg`
  | working      -- both threads of `working` run
  deriving DecidableEq, Repr

/-- A client process.  The number of its registration and the messages taken belong to the session;
the keys handed to `handlePubKeyMsg` are those of all sessions. -/
structure AppClient (τ : Type) where
  pc : ClientPc
  registration : Option Nat
  taken : List (Message τ)
  installed : List Str
  deriving DecidableEq, Repr

namespace AppClient

variable {τ : Type}

/-- The client before its first session. -/
def off : AppClient τ := ⟨.stopped, none, [], []⟩

/-- `consume_message` returned `m`: `getPublicKeyMsg` looks for the key, `handleServerReplyMsg`
prints. -/
def take (privateChnl : Str) (c : AppClient τ) (m : Message τ) : AppClient τ :=
  if c.pc = .waiting ∧ acceptsKey privateChnl m = true then
    { c with pc := .working, taken := c.taken ++ [m], installed := c.installed ++ [m.payload] }
  else { c with taken := c.taken ++ [m] }

/-- The key ends the wait. -/
theorem take_key {privateChnl : Str} {c : AppClient τ} {m : Message τ}
    (h : c.pc = .waiting ∧ acceptsKey privateChnl m = true) :
    c.take privateChnl m =
      { c with pc := .working, taken := c.taken ++ [m], installed := c.installed ++ [m.payload] } :=
  if_pos h

/-- Everything else is taken and nothing more. -/
theorem take_other {privateChnl : Str} {c : AppClient τ} {m : Message τ}
    (h : ¬ (c.pc = .waiting ∧ acceptsKey privateChnl m = true)) :
    c.take privateChnl m = { c with taken := c.taken ++ [m] } :=
  if_neg h

end AppClient

/-! ## The network -/

/-- The state of the network; `up` says that the server has subscribed to the public channel. -/
structure Net (ι : Type) where
  broker : Broker (Party ι) Str (Msg ι)
  srv : Server (Stamp ι)
  up : Bool
  clients : ι → AppClient (Stamp ι)
  history : List (Msg ι)
  /-- The numbers of the registrations that were answered with the key. -/
  answered : List Nat
  /-- The stamps of the messages for whose handlers a command was run. -/
  ran : List (Stamp ι)

/-- One step of one process. -/
inductive NetLabel (ι : Type) where
  | start (i : ι)
  | stop (i : ι)
  | register (i : ι) (clientInfo : Str)
  | subscribe (i : ι)
  | take (i : ι)
  | request (i : ι) (path : Str)
  | serverSetups
  | serverRestart
  | server (l : Server.Label (Stamp ι))
  deriving DecidableEq, Repr

namespace Net

variable {ι : Type} [DecidableEq ι]

/-- Nothing has happened yet. -/
def init : Net ι := ⟨.empty, Server.start, false, fun _ => .off, [], [], []⟩

/-- Client `i` moves to `c`. -/
def setClient (s : Net ι) (i : ι) (c : AppClient (Stamp ι)) : Net ι :=
  { s with clients := Function.update s.clients i c }

/-- A publish call: every message is published retained, and an empty one deletes. -/
def publish (s : Net ι) (src : Party ι) (topic payload : Str) (origin : Origin ι) : Net ι :=
  { s with
    broker := s.broker.publish src topic (payload = [])
      ⟨topic, payload, ⟨origin, s.history.length⟩⟩
    history := s.history ++ [⟨topic, payload, ⟨origin, s.history.length⟩⟩] }

/-- A subscribe call. -/
def subscribeTo (cfg : NetConfig ι) (s : Net ι) (k : Party ι) (topic : Str) (noLocal : Bool) :
    Net ι :=
  { s with broker := s.broker.subscribe cfg.resendOwn k topic ⟨noLocal⟩ }

/-- An effect of the server reaches the broker. -/
def effect (cfg : NetConfig ι) (s : Net ι) : Effect → Net ι
  | .subscribe topic => s.subscribeTo cfg .server topic true
  | .publishKey topic payload =>
      { s.publish .server topic payload .key with
        answered := s.answered ++ (s.srv.msgPtr.map fun m => m.tag.no).toList }
  | .execCmnd k _ _ _ =>
      { s with ran := s.ran ++ (s.srv.threadPool[k]?.map fun h => h.msg.tag).toList }
  | .reply _ topic payload => s.publish .server topic payload .reply
  | .setWill _ => s
  | .system _ => s

/-- The server moves to `p.1` with the effects `p.2`. -/
def perform (cfg : NetConfig ι) (s : Net ι) (p : Server (Stamp ι) × List Effect) : Net ι :=
  p.2.foldl (effect cfg) { s with srv := p.1 }

/-- A step of the server process; what it consumes is the head of its queue. -/
def serverStep (cfg : NetConfig ι) (s : Net ι) : Server.Label (Stamp ι) → Option (Net ι)
  | .consumeNull _ => none
  | .consume m =>
      if (s.broker.queue .server).head? = some m then
        (s.srv.act cfg.server (.consume m)).map fun p =>
          { s with broker := s.broker.pop .server }.perform cfg p
      else none
  | l => (s.srv.act cfg.server l).map (s.perform cfg)

/-- One step of the network. -/
def step (cfg : NetConfig ι) (s : Net ι) : NetLabel ι → Option (Net ι)
  | .start i =>
      if (s.clients i).pc = .stopped then
        some (s.setClient i
          { s.clients i with pc := .connected, registration := none, taken := [] })
      else none
  | .stop i =>
      if (s.clients i).pc ≠ .stopped then
        some { s.setClient i { s.clients i with pc := .stopped } with
          broker := s.broker.disconnect (.client i) }
      else none
  | .register i clientInfo =>
      if (s.clients i).pc = .connected then
        some ((s.setClient i
          { s.clients i with pc := .registered, registration := some s.history.length }).publish
          (.client i) subscibersList (subscribeMsg (cfg.ip i) clientInfo) (.registration i))
      else none
  | .subscribe i =>
      if (s.clients i).pc = .registered then
        some ((s.setClient i { s.clients i with pc := .waiting }).subscribeTo cfg (.client i)
          (cfg.ip i) false)
      else none
  | .take i =>
      match s.broker.queue (.client i) with
      | m :: _ =>
          if (s.clients i).pc = .waiting ∨ (s.clients i).pc = .working then
            some { s.setClient i ((s.clients i).take (cfg.ip i) m) with
              broker := s.broker.pop (.client i) }
          else none
      | [] => none
  | .request i path =>
      if (s.clients i).pc = .working then
        some (s.publish (.client i) (cfg.ip i) path (.request i))
      else none
  | .serverSetups =>
      if s.up = false then
        some ({ s with up := true }.subscribeTo cfg .server subscibersList true)
      else none
  | .serverRestart =>
      some { s with srv := Server.start, up := false, broker := s.broker.disconnect .server }
  | .server l => if s.up = true then s.serverStep cfg l else none

end Net

/-! ## Two clients -/

/-- A server and two clients, for the runs that show something. -/
def pair : NetConfig Bool where
  server := ⟨"10.0.0.1".toList, "ssh-rsa AAAAB3 server".toList⟩
  ip i := if i then "10.0.0.2".toList else "10.0.0.3".toList
  resendOwn := false
  quad := by decide
  distinct := by decide

/-- What a client tells the server besides its address. -/
def userInfo : Str := "ann".toList

/-- The registration of a client of `pair`, published as number `n`. -/
def registrationOf (i : Bool) (n : Nat) : Msg Bool :=
  ⟨subscibersList, subscribeMsg (pair.ip i) userInfo, ⟨.registration i, n⟩⟩

/-- The server handles the registration it consumes. -/
def handleRegistration (i : Bool) (n : Nat) : List (NetLabel Bool) :=
  [.server (.consume (registrationOf i n)), .server .dispatch, .server (.subscribe true),
    .server (.publishKey true), .server .store]

/-- The first client subscribes, registers and gets its key. -/
def firstSession : List (NetLabel Bool) :=
  [.serverSetups, .start true, .register true userInfo, .subscribe true] ++
    handleRegistration true 0 ++ [.take true]

end BupApp
