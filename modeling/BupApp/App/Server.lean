/-
# BupApp.App.Server -- appServer: its state, its loop and its handler threads

The server is one thread in the loop of `working` and one detached thread for each backup request.
They share `m_msgPtr` (the message consumed last) and `m_clients`.  A state holds both, the program
point of the loop and the program point of every handler; a label is one atomic step of one of the
threads together with the outcome of the library call it makes.  `act` is what the code does at a
step: the next state and the effects that leave the process (broker calls, commands, `mkdir`).

Handlers are never removed from `m_threadPool`, so a handler is named by its index in it.  The
message a handler was spawned for is kept beside its program point as a ghost: the code hands no
message to the thread, and no step reads that field.  Messages carry a tag of an arbitrary type that
the server never looks at.

A step of the code that has no defined behaviour or that ends the process is recorded in `crashed`:
the read of `tokens[0]` in an empty vector, a null `m_msgPtr` that is dereferenced, an exception that
leaves the top function of a thread.
-/
import BupApp.App.Files

namespace BupApp

open BupApp.Lib.Text

/-! ## Constants and members -/

/-- `MAIN_BACKUP_PATH` (appServer.h 28). -/
def mainBackupPath : Str := "/home/shiranlupo/Desktop/bupAppBackup".toList

/-- `SUBSCIBERS_LIST`, the name of the public channel (appServer.h 31, 46). -/
def subscibersList : Str := "subscribersList".toList

/-- What `consume_message` returns: topic, payload and a ghost tag. -/
structure Message (τ : Type) where
  topic : Str
  payload : Str
  tag : τ
  deriving DecidableEq, Repr

/-- The members that are set before `working` starts and never assigned again. -/
structure Config where
  localIp : Str
  publicKey : Str
  deriving DecidableEq, Repr

/-- `PUBLIC_KEY_PATH` (appServer.h 29). -/
def publicKeyPath : Str := "/home/shiranlupo/.ssh/id_rsa.pub".toList

/-- `PUBLIC_KEY_SIZE` (appServer.h 32). -/
def publicKeySize : Nat := 415

/-- `getPublicKey` (_appServer.cpp 189-201). -/
def getPublicKey (fs : Files) : Option Str :=
  (getTxtFromFile fs publicKeyPath).map fun pubkey =>
    if pubkey.length ≠ publicKeySize then [] else pubkey

/-- What `init` (_appServer.cpp 18-29) assigns: the key comes first, and nothing looks at it again
before it is published. -/
def Config.init (localIp : Str) (fs : Files) : Option Config :=
  (getPublicKey fs).map fun m_publicKey => ⟨localIp, m_publicKey⟩

/-! ## Backup commands -/

/-- The two command strings of `handleBackupRequest`. -/
inductive Cmnd where
  | scp (user subscriberIp backUpPath target : Str)
  | cp (backUpPath target : Str)
  deriving DecidableEq, Repr

/-- The text given to `execCmnd` (_appServer.cpp 232 and 238). -/
def Cmnd.text : Cmnd → Str
  | .scp user subscriberIp backUpPath target =>
      "scp -r ".toList ++ user ++ "@".toList ++ subscriberIp ++ ":".toList ++ backUpPath
        ++ " ".toList ++ target
  | .cp backUpPath target => "cp -r ".toList ++ backUpPath ++ " ".toList ++ target

/-- Where a command copies to. -/
def Cmnd.target : Cmnd → Str
  | .scp _ _ _ target => target
  | .cp _ target => target

/-- What a command copies. -/
def Cmnd.source : Cmnd → Str
  | .scp _ _ backUpPath _ => backUpPath
  | .cp backUpPath _ => backUpPath

/-- The choice between the two commands (_appServer.cpp 229-239). -/
def cmndFor (cfg : Config) (currClient : Client) (subscriberIp backUpPath : Str) : Cmnd :=
  if subscriberIp ≠ cfg.localIp then
    .scp currClient.user subscriberIp backUpPath currClient.backupPath
  else .cp backUpPath currClient.backupPath

@[simp] theorem cmndFor_source (cfg : Config) (c : Client) (t p : Str) :
    (cmndFor cfg c t p).source = p := by
  unfold cmndFor
  split <;> rfl

/-- `backUpPath.find_first_of("~") == 0`, the only check of a request (_appServer.cpp 217). -/
def isBackupMsg (backUpPath : Str) : Bool :=
  backUpPath.findIdx? (· ∈ "~".toList) = some 0

/-- A path that passes the server's check starts with the tilde. -/
theorem head?_of_isBackupMsg {p : Str} (h : isBackupMsg p = true) : p.head? = some '~' := by
  cases p with
  | nil => simp [isBackupMsg] at h
  | cons c p =>
      simp only [isBackupMsg, List.findIdx?_cons, decide_eq_true_eq] at h
      split at h
      · rename_i hc
        simpa using hc
      · simp at h

/-- The reply to a request (_appServer.cpp 241 with utils.cpp 222); `rc` says whether the exit
status that `pclose` returned is `EXIT_SUCCESS`. -/
def replyMsg (backUpPath : Str) (rc : Bool) : Str :=
  "Msg from Server: ".toList ++ backUpPath ++ " backup ".toList
    ++ (if rc then "succeed!".toList else "failed! ".toList)

theorem replyMsg_ne_nil (backUpPath : Str) (rc : Bool) : replyMsg backUpPath rc ≠ [] := by
  have hhead : "Msg from Server: ".toList ≠ [] := by decide
  have hpath := List.append_ne_nil_of_left_ne_nil hhead backUpPath
  exact List.append_ne_nil_of_left_ne_nil (List.append_ne_nil_of_left_ne_nil hpath _) _

/-- `searchForClient` (_appServer.cpp 253-266): a copy of the first entry with that ip, and the
client built from the empty message when there is none. -/
def searchForClient (clients : List Client) (ip : Str) : Option Client :=
  match clients.find? (·.ip = ip) with
  | some c => some c
  | none => Client.ofMsg []

/-- `isClientExist` (_appServer.cpp 268-276), which nothing in the program calls. -/
def isClientExist (clients : List Client) (cli : Client) : Bool :=
  (clients.find? fun itr => itr.beq cli).isSome

/-- `isClientExist(string)` (_appServer.cpp 278-283), which nothing in the program calls either;
`none` is the read of `tokens[0]` in `client("")`. -/
def isClientExistIp (clients : List Client) (ip : Str) : Option Bool := do
  let ref ← Client.ofMsg []
  let found ← searchForClient clients ip
  return if found.beq ref then false else true

/-- `MAIN_BACKUP_PATH + "/" + currClient.getIp()` (_appServer.cpp 171). -/
def backupTarget (ip : Str) : Str := mainBackupPath ++ "/".toList ++ ip

/-- The payload of the server's will (_appServer.cpp 154). -/
def serverWillMsg : Str := "Server was disconnected>>>".toList

/-! ## States -/

/-- Program points of the loop in `working`, those inside `handleNewSubscriber` included. -/
inductive LoopPc where
  | waiting                     -- line 92
  | received                    -- `m_msgPtr` is assigned; line 98 is next
  | subscribing (c : Client)    -- line 162
  | sendingKey (c : Client)     -- line 167
  | storing (c : Client)        -- line 171
  | left                        -- past the loop
  deriving DecidableEq, Repr

/-- Program points of a `handleBackupRequest` thread with its locals. -/
inductive HandlerPc where
  | spawned                                                         -- line 212
  | topicRead (subscriberIp : Str)                                  -- line 213
  | pathRead (subscriberIp backUpPath : Str)                        -- line 217
  | cmndBuilt (subscriberIp backUpPath : Str) (cmnd : Cmnd)         -- line 241
  | replyBuilt (subscriberIp backUpPath : Str) (rc : Bool)          -- line 247
  | finished
  deriving DecidableEq, Repr

/-- The entry `handleNewSubscriber` is working on. -/
def LoopPc.client? : LoopPc → Option Client
  | .subscribing c => some c
  | .sendingKey c => some c
  | .storing c => some c
  | _ => none

/-- The `subscriberIp` a handler holds. -/
def HandlerPc.topic? : HandlerPc → Option Str
  | .topicRead t => some t
  | .pathRead t _ => some t
  | .cmndBuilt t _ _ => some t
  | .replyBuilt t _ _ => some t
  | _ => none

/-- The `backUpPath` a handler holds. -/
def HandlerPc.path? : HandlerPc → Option Str
  | .pathRead _ p => some p
  | .cmndBuilt _ p _ => some p
  | .replyBuilt _ p _ => some p
  | _ => none

/-- A handler thread and, as a ghost, the message it was spawned for. -/
structure Handler (τ : Type) where
  msg : Message τ
  pc : HandlerPc
  deriving DecidableEq, Repr

/-- How the process can end other than by leaving the loop. -/
inductive Crash where
  | outOfRange    -- `tokens[0]` of an empty vector
  | nullDeref     -- `m_msgPtr->` on a null pointer
  | uncaught      -- an exception leaves a thread's top function
  deriving DecidableEq, Repr

/-- The members of `appServer` that change, with the program points of its threads. -/
structure Server (τ : Type) where
  clients : List Client
  msgPtr : Option (Message τ)
  threadPool : List (Handler τ)
  loop : LoopPc
  crashed : Option Crash
  deriving DecidableEq, Repr

/-- What leaves the process at a step. -/
inductive Effect where
  | setWill (topic : Str)
  | subscribe (topic : Str)
  | publishKey (topic payload : Str)
  | system (cmnd : Str)
  | execCmnd (k : Nat) (subscriberIp backUpPath : Str) (cmnd : Cmnd)
  | reply (k : Nat) (subscriberIp payload : Str)
  deriving DecidableEq, Repr

namespace Server

variable {τ : Type}

/-- The state in which `working` is entered. -/
def start : Server τ := ⟨[], none, [], .waiting, none⟩

/-- The process ends. -/
def crash (s : Server τ) (c : Crash) : Server τ := { s with crashed := some c }

/-- Handler `k` moves to `pc`. -/
def setPc (s : Server τ) (k : Nat) (pc : HandlerPc) : Server τ :=
  { s with threadPool := s.threadPool.modify k fun h => { h with pc := pc } }

/-! ## Steps -/

/-- The result of `checkReconnect` after a null message (_appServer.cpp 117-139). -/
inductive Reconnect where
  | reconnected | failed | threw
  deriving DecidableEq, Repr

/-- One atomic step of one thread; a `Bool` is the outcome of the broker call in it (`false`: the
call or its `wait` threw). -/
inductive Label (τ : Type) where
  | consume (m : Message τ)
  | consumeNull (r : Reconnect)
  | dispatch
  | subscribe (ok : Bool)
  | publishKey (ok : Bool)
  | store
  | readTopic (k : Nat)
  | readPayload (k : Nat)
  | lookup (k : Nat)
  | exec (k : Nat) (result : Option Bool)
  | reply (k : Nat) (ok : Bool)
  deriving DecidableEq, Repr

/-- Line 92 with a message: the assignment to `m_msgPtr`. -/
def consume (s : Server τ) (m : Message τ) : Option (Server τ × List Effect) :=
  match s.loop with
  | .waiting => some ({ s with msgPtr := some m, loop := .received }, [])
  | _ => none

/-- Lines 92-96 with a null pointer: `checkReconnect` decides whether the loop is left. -/
def consumeNull (s : Server τ) (r : Reconnect) : Option (Server τ × List Effect) :=
  match s.loop, r with
  | .waiting, .reconnected =>
      some ({ s with msgPtr := none, loop := .received }, [.subscribe subscibersList])
  | .waiting, .failed => some ({ s with msgPtr := none, loop := .left }, [])
  | .waiting, .threw => some ({ s with msgPtr := none }.crash .uncaught, [])
  | _, _ => none

/-- The first lines of `handleNewSubscriber` (145-157): decode the payload, set the will. -/
def enterNewSubscriber (s : Server τ) (msgPayload : Str) : Server τ × List Effect :=
  match Client.ofMsg msgPayload with
  | none => (s.crash .outOfRange, [])
  | some currClient => ({ s with loop := .subscribing currClient }, [.setWill currClient.ip])

/-- Lines 98-110: the branch on the topic. -/
def dispatch (s : Server τ) : Option (Server τ × List Effect) :=
  match s.loop, s.msgPtr with
  | .received, none => some (s.crash .nullDeref, [])
  | .received, some m =>
      if m.topic = subscibersList then some (s.enterNewSubscriber m.payload)
      else if isIP4 m.topic then
        some ({ s with threadPool := s.threadPool ++ [⟨m, .spawned⟩], loop := .waiting }, [])
      else some ({ s with loop := .waiting }, [])
  | _, _ => none

/-- Line 162; an exception is caught at 177 and the loop goes on. -/
def subscribe (s : Server τ) (ok : Bool) : Option (Server τ × List Effect) :=
  match s.loop with
  | .subscribing c =>
      if ok then some ({ s with loop := .sendingKey c }, [.subscribe c.ip])
      else some ({ s with loop := .waiting }, [])
  | _ => none

/-- Line 167. -/
def publishKey (cfg : Config) (s : Server τ) (ok : Bool) : Option (Server τ × List Effect) :=
  match s.loop with
  | .sendingKey c =>
      if ok then some ({ s with loop := .storing c }, [.publishKey c.ip cfg.publicKey])
      else some ({ s with loop := .waiting }, [])
  | _ => none

/-- Lines 171-175. -/
def store (s : Server τ) : Option (Server τ × List Effect) :=
  match s.loop with
  | .storing c =>
      some ({ s with clients := s.clients ++ [c.setBackupTarget (backupTarget c.ip)]
                     loop := .waiting },
        [.system ("mkdir ".toList ++ backupTarget c.ip)])
  | _ => none

/-- Line 212. -/
def readTopic (s : Server τ) (k : Nat) : Option (Server τ × List Effect) :=
  match s.threadPool[k]?.map Handler.pc, s.msgPtr with
  | some .spawned, none => some (s.crash .nullDeref, [])
  | some .spawned, some m => some (s.setPc k (.topicRead m.topic), [])
  | _, _ => none

/-- Line 213. -/
def readPayload (s : Server τ) (k : Nat) : Option (Server τ × List Effect) :=
  match s.threadPool[k]?.map Handler.pc, s.msgPtr with
  | some (.topicRead _), none => some (s.crash .nullDeref, [])
  | some (.topicRead subscriberIp), some m =>
      some (s.setPc k (.pathRead subscriberIp m.payload), [])
  | _, _ => none

/-- Lines 217-239: the check of the payload, the search in `m_clients` and the command string. -/
def lookup (cfg : Config) (s : Server τ) (k : Nat) : Option (Server τ × List Effect) :=
  match s.threadPool[k]?.map Handler.pc with
  | some (.pathRead subscriberIp backUpPath) =>
      if isBackupMsg backUpPath then
        match searchForClient s.clients subscriberIp with
        | none => some (s.crash .outOfRange, [])
        | some currClient =>
            some (s.setPc k (.cmndBuilt subscriberIp backUpPath
              (cmndFor cfg currClient subscriberIp backUpPath)), [])
      else some (s.setPc k .finished, [])
  | _ => none

/-- Line 241; `none` is a failed `popen`, whose exception nothing catches. -/
def exec (s : Server τ) (k : Nat) (result : Option Bool) : Option (Server τ × List Effect) :=
  match s.threadPool[k]?.map Handler.pc, result with
  | some (.cmndBuilt subscriberIp backUpPath cmnd), some rc =>
      some (s.setPc k (.replyBuilt subscriberIp backUpPath rc),
        [.execCmnd k subscriberIp backUpPath cmnd])
  | some (.cmndBuilt _ _ _), none => some (s.crash .uncaught, [])
  | _, _ => none

/-- Line 247; nothing catches an exception of the publish or its `wait`. -/
def reply (s : Server τ) (k : Nat) (ok : Bool) : Option (Server τ × List Effect) :=
  match s.threadPool[k]?.map Handler.pc with
  | some (.replyBuilt subscriberIp backUpPath rc) =>
      if ok then
        some (s.setPc k .finished, [.reply k subscriberIp (replyMsg backUpPath rc)])
      else some (s.crash .uncaught, [])
  | _ => none

/-- One step of a running process. -/
def perform (cfg : Config) (s : Server τ) : Label τ → Option (Server τ × List Effect)
  | .consume m => s.consume m
  | .consumeNull r => s.consumeNull r
  | .dispatch => s.dispatch
  | .subscribe ok => s.subscribe ok
  | .publishKey ok => s.publishKey cfg ok
  | .store => s.store
  | .readTopic k => s.readTopic k
  | .readPayload k => s.readPayload k
  | .lookup k => s.lookup cfg k
  | .exec k result => s.exec k result
  | .reply k ok => s.reply k ok

/-- One step of the server process; a process that has ended makes none. -/
def act (cfg : Config) (s : Server τ) (l : Label τ) : Option (Server τ × List Effect) :=
  if s.crashed = none then s.perform cfg l else none

end Server

end BupApp
