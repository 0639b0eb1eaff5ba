/-
# BupApp.Network.Feedback -- does the server ever run what it wrote itself?

Requests, keys, replies and wills share the private channels, and a reply quotes the request it
answers.  Nothing is assumed of the broker here: it may hand the server every message that was ever
published, the server's own ones included, at any time, in any order and any number of times.  What
keeps the server from feeding itself is the shape of the texts: of all messages only a request can
start with the tilde that `handleBackupRequest` asks for.
-/
import BupApp.App.Network

namespace BupApp.Feedback

open BupApp.Lib.Transition BupApp.Lib.Ipv4 Server

variable {ι : Type}

/-! ## Publications -/

/-- Why a message was published: one of the calls of the two programs, or a will. -/
inductive Source (ι : Type) where
  | sent (o : Origin ι)
  | serverWill             -- `appServer::handleNewSubscriber`, line 155
  | clientWill (i : ι)     -- `appClient::clientSetups`, line 80
  deriving DecidableEq, Repr

/-- The server's configuration and the addresses of the clients. -/
structure Hosts (ι : Type) where
  server : Config
  ip : ι → Str
  quad : ∀ i, dottedQuad (ip i) = true

/-- The server, everything that was published so far, the topics its will has had and the commands
that were run. -/
structure World (ι : Type) where
  srv : Server (Source ι)
  published : List (Message (Source ι))
  wills : List Str
  commands : List Cmnd
  deriving DecidableEq

/-- One step of a client, of the broker on behalf of a process it lost, or of the server.  A publish
whose `wait` throws may still have reached the broker: `keyLate` and `replyLate`. -/
inductive Event (ι : Type) where
  | register (i : ι) (clientInfo : Str)
  | request (i : ι) (path : Str)
  | serverWill (topic : Str)
  | clientWill (i : ι)
  | serverRestart
  | server (l : Server.Label (Source ι))
  | keyLate
  | replyLate (k : Nat)
  deriving DecidableEq, Repr

namespace World

/-- Nothing has happened yet. -/
def init : World ι := ⟨Server.start, [], [], []⟩

def publish (s : World ι) (topic payload : Str) (src : Source ι) : World ι :=
  { s with published := s.published ++ [⟨topic, payload, src⟩] }

/-- An effect of the server. -/
def effect (s : World ι) : Effect → World ι
  | .setWill topic => { s with wills := s.wills ++ [topic] }
  | .publishKey topic payload => s.publish topic payload (.sent .key)
  | .execCmnd _ _ _ cmnd => { s with commands := s.commands ++ [cmnd] }
  | .reply _ topic payload => s.publish topic payload (.sent .reply)
  | .subscribe _ => s
  | .system _ => s

/-- The server moves as at `l` and leaves the effects of `l'`. -/
def serverMoves (H : Hosts ι) (s : World ι) (l l' : Server.Label (Source ι)) : Option (World ι) :=
  (s.srv.act H.server l).bind fun p =>
    (s.srv.act H.server l').map fun q => q.2.foldl effect { s with srv := p.1 }

/-- A step of the server process; what it consumes was published some time before. -/
def serverStep [DecidableEq ι] (H : Hosts ι) (s : World ι) :
    Server.Label (Source ι) → Option (World ι)
  | .consume m => if m ∈ s.published then s.serverMoves H (.consume m) (.consume m) else none
  | l => s.serverMoves H l l

def step [DecidableEq ι] (H : Hosts ι) (s : World ι) : Event ι → Option (World ι)
  | .register i clientInfo =>
      some (s.publish subscibersList (subscribeMsg (H.ip i) clientInfo) (.sent (.registration i)))
  | .request i path => some (s.publish (H.ip i) path (.sent (.request i)))
  | .serverWill topic =>
      if s.wills.any (· = topic) then some (s.publish topic serverWillMsg .serverWill) else none
  | .clientWill i => some (s.publish (H.ip i) (clientWillMsg (H.ip i)) (.clientWill i))
  | .serverRestart => some { s with srv := Server.start }
  | .server l => s.serverStep H l
  | .keyLate => s.serverMoves H (.publishKey false) (.publishKey true)
  | .replyLate k => s.serverMoves H (.reply k false) (.reply k true)

end World

open World

/-! ## The texts -/

/-- What a message says, by its source; a request is one of the run. -/
def Shape (H : Hosts ι) (hist : List (Event ι)) (m : Message (Source ι)) : Prop :=
  match m.tag with
  | .sent (.registration i) => ∃ info, m.payload = subscribeMsg (H.ip i) info
  | .sent (.request i) => .request i m.payload ∈ hist
  | .sent .key => m.payload = H.server.publicKey
  | .sent .reply => ∃ p rc, m.payload = replyMsg p rc
  | .serverWill => m.payload = serverWillMsg
  | .clientWill i => m.payload = clientWillMsg (H.ip i)

theorem Shape.mono {H : Hosts ι} {hist : List (Event ι)} {m : Message (Source ι)}
    (h : Shape H hist m) (more : List (Event ι)) : Shape H (hist ++ more) m := by
  unfold Shape at h ⊢
  split <;> rename_i htag <;> simp only [htag] at h
  · exact h
  · exact List.mem_append_left more h
  · exact h
  · exact h
  · exact h
  · exact h

/-- A text that starts with an address does not start with the tilde. -/
theorem head_quad_ne {ip : Str} (h : dottedQuad ip = true) (rest : Str) :
    (ip ++ rest).head? ≠ some '~' := by
  obtain ⟨c, t, rfl, hdigit⟩ := dottedQuad_head h
  intro hhead
  obtain rfl : c = '~' := Option.some.inj hhead
  exact absurd hdigit (by decide)

theorem head_replyMsg (p : Str) (rc : Bool) : (replyMsg p rc).head? = some 'M' := rfl

/-- **Only a request starts with a tilde.** -/
theorem Shape.request {H : Hosts ι} {hist : List (Event ι)} {m : Message (Source ι)}
    (h : Shape H hist m) (hkey : H.server.publicKey.head? ≠ some '~')
    (htilde : m.payload.head? = some '~') : ∃ i, m.tag = .sent (.request i) := by
  unfold Shape at h
  split at h
  · rename_i i htag
    obtain ⟨info, hpay⟩ := h
    rw [hpay, subscribeMsg, List.append_assoc] at htilde
    exact absurd htilde (head_quad_ne (H.quad i) _)
  · exact ⟨_, ‹_›⟩
  · rw [h] at htilde
    exact absurd htilde hkey
  · obtain ⟨p, rc, hpay⟩ := h
    rw [hpay, head_replyMsg] at htilde
    exact absurd htilde (by decide)
  · rw [h] at htilde
    exact absurd htilde (by decide)
  · rename_i i htag
    rw [h, clientWillMsg] at htilde
    exact absurd htilde (head_quad_ne (H.quad i) _)

/-! ## The invariant -/

/-- The path of the command is an accepted payload of a published message. -/
def Backed (published : List (Message (Source ι))) (cmnd : Cmnd) : Prop :=
  isBackupMsg cmnd.source = true ∧ ∃ m ∈ published, m.payload = cmnd.source

structure Inv (H : Hosts ι) (hist : List (Event ι)) (s : World ι) : Prop where
  shape : ∀ m ∈ s.published, Shape H hist m
  backed : ∀ cmnd ∈ s.commands, Backed s.published cmnd
  knows : Knows (· ∈ s.published) s.srv
  works : HandlersWork H.server s.srv

theorem inv_init {H : Hosts ι} : Inv H [] (init : World ι) where
  shape := by simp [init]
  backed := by simp [init]
  knows := Knows.start _
  works := by simp [init, HandlersWork, Server.start]

theorem Inv.mono {H : Hosts ι} {hist : List (Event ι)} {s : World ι} (h : Inv H hist s)
    (more : List (Event ι)) : Inv H (hist ++ more) s :=
  ⟨fun m hm => (h.shape m hm).mono more, h.backed, h.knows, h.works⟩

theorem Inv.publish {H : Hosts ι} {hist : List (Event ι)} {s : World ι} (h : Inv H hist s)
    {topic payload : Str} {src : Source ι} (hshape : Shape H hist ⟨topic, payload, src⟩) :
    Inv H hist (s.publish topic payload src) := by
  have hold : ∀ m ∈ s.published, m ∈ (s.publish topic payload src).published :=
    fun m hm => List.mem_append_left _ hm
  refine ⟨?_, ?_, h.knows.mono hold, h.works⟩
  · intro m hm
    rcases List.mem_append.mp hm with hm | hm
    · exact h.shape m hm
    · obtain rfl := List.mem_singleton.mp hm
      exact hshape
  · intro cmnd hc
    obtain ⟨hp, m, hm, hpay⟩ := h.backed cmnd hc
    exact ⟨hp, m, hold m hm, hpay⟩

/-- What the server does at a step: it publishes its key and replies, and its commands are backed. -/
def Fine (H : Hosts ι) (published : List (Message (Source ι))) : Effect → Prop
  | .publishKey _ payload => payload = H.server.publicKey
  | .reply _ _ payload => ∃ p rc, payload = replyMsg p rc
  | .execCmnd _ _ _ cmnd => Backed published cmnd
  | _ => True

theorem Fine.mono {H : Hosts ι} {ms ms' : List (Message (Source ι))} {e : Effect}
    (h : Fine H ms e) (hms : ∀ m ∈ ms, m ∈ ms') : Fine H ms' e := by
  cases e with
  | execCmnd k t p cmnd =>
      obtain ⟨hp, m, hm, hpay⟩ := h
      exact ⟨hp, m, hms m hm, hpay⟩
  | _ => exact h

theorem Inv.fine {H : Hosts ι} {hist : List (Event ι)} {s : World ι} (h : Inv H hist s)
    {l : Server.Label (Source ι)} {srv' : Server (Source ι)} {es : List Effect}
    (hacts : Acts H.server s.srv l srv' es) : ∀ e ∈ es, Fine H s.published e := by
  cases hacts with
  | keySent hl => simp [Fine]
  | @handler k l msg pc pc' es hk hmove =>
      have hmem := mem_of_getElem? hk
      cases hmove with
      | @exec t p cmnd rc =>
          obtain ⟨hp, c, -, -, rfl⟩ := h.works _ hmem
          obtain ⟨m, hm, hpay⟩ := h.knows.path _ hmem p rfl
          simp only [List.mem_singleton, forall_eq, Fine, Backed, cmndFor_source]
          exact ⟨hp, m, hm, hpay⟩
      | @reply t p rc =>
          simp only [List.mem_singleton, forall_eq]
          exact ⟨p, rc, rfl⟩
      | _ => simp
  | _ => simp [Fine]

theorem Inv.effect {H : Hosts ι} {hist : List (Event ι)} {s : World ι} (h : Inv H hist s)
    {e : Effect} (he : Fine H s.published e) : Inv H hist (s.effect e) := by
  cases e with
  | publishKey t p => exact h.publish he
  | reply k t p => exact h.publish he
  | execCmnd k t p cmnd =>
      refine ⟨h.shape, ?_, h.knows, h.works⟩
      intro c hc
      rcases List.mem_append.mp hc with hc | hc
      · exact h.backed c hc
      · obtain rfl := List.mem_singleton.mp hc
        exact he
  | setWill | subscribe | system => exact ⟨h.shape, h.backed, h.knows, h.works⟩

theorem mem_published_effect {s : World ι} (e : Effect) {m : Message (Source ι)}
    (hm : m ∈ s.published) : m ∈ (s.effect e).published := by
  cases e with
  | publishKey | reply => exact List.mem_append_left _ hm
  | _ => exact hm

theorem Inv.effects {H : Hosts ι} {hist : List (Event ι)} {es : List Effect} {s : World ι}
    (h : Inv H hist s) (hes : ∀ e ∈ es, Fine H s.published e) :
    Inv H hist (es.foldl World.effect s) := by
  induction es generalizing s with
  | nil => exact h
  | cons e es ih =>
      refine ih (h.effect (hes e (by simp))) fun e' he' => ?_
      exact (hes e' (by simp [he'])).mono fun m hm => mem_published_effect e hm

/-- A move of the server whose effects are those of one of its steps. -/
theorem Inv.serverMoves {H : Hosts ι} {hist : List (Event ι)} {s s' : World ι} (h : Inv H hist s)
    {l l' : Server.Label (Source ι)} (hl : ∀ m, l = .consume m → m ∈ s.published)
    (hs : s.serverMoves H l l' = some s') : Inv H hist s' := by
  obtain ⟨⟨srv', es⟩, hact, hs⟩ := Option.bind_eq_some_iff.mp hs
  obtain ⟨⟨srv'', es'⟩, hact', rfl⟩ := Option.map_eq_some_iff.mp hs
  have hacts := act_acts hact
  have hmoved : Inv H hist { s with srv := srv' } :=
    ⟨h.shape, h.backed, h.knows.step hacts hl, h.works.step hacts⟩
  exact hmoved.effects (h.fine (act_acts hact'))

/-- **The step lemma.** -/
theorem Inv.step [DecidableEq ι] {H : Hosts ι} {hist : List (Event ι)} {s s' : World ι} {e : Event ι}
    (h : Inv H hist s) (hs : s.step H e = some s') : Inv H (hist ++ [e]) s' := by
  have h := h.mono [e]
  cases e with
  | register i info =>
      cases hs
      exact h.publish ⟨info, rfl⟩
  | request i path =>
      cases hs
      exact h.publish (List.mem_append_right hist (by simp))
  | serverWill topic =>
      simp only [World.step, Option.ite_none_right_eq_some] at hs
      obtain ⟨-, hs⟩ := hs
      cases hs
      exact h.publish rfl
  | clientWill i =>
      cases hs
      exact h.publish rfl
  | serverRestart =>
      cases hs
      exact ⟨h.shape, h.backed, Knows.start _, by simp [HandlersWork, Server.start]⟩
  | keyLate => exact h.serverMoves (by simp) hs
  | replyLate k => exact h.serverMoves (by simp) hs
  | server l =>
      simp only [World.step, World.serverStep] at hs
      split at hs
      · rename_i m
        simp only [Option.ite_none_right_eq_some] at hs
        obtain ⟨hm, hs⟩ := hs
        refine h.serverMoves (fun m' hm' => ?_) hs
        cases hm'
        exact hm
      · rename_i hnot
        exact h.serverMoves (fun m hm => absurd hm (hnot m)) hs

/-- **The server never feeds itself**: the path of every command is one that a client's
`handleBackupRequest` published, and it is the text of no key, reply or will. -/
theorem commands_from_requests [DecidableEq ι] {H : Hosts ι} {s : World ι} {es : List (Event ι)}
    (hkey : H.server.publicKey.head? ≠ some '~') (hrun : exec (World.step H) init es = some s) :
    (∀ cmnd ∈ s.commands, ∃ i, .request i cmnd.source ∈ es) ∧
    ∀ m ∈ s.published, m.tag = .sent .key ∨ m.tag = .sent .reply ∨ m.tag = .serverWill ∨
      (∃ i, m.tag = .clientWill i) → ∀ cmnd ∈ s.commands, cmnd.source ≠ m.payload := by
  have hinv : Inv H es s :=
    inv_history (I := fun hist s => Inv H hist s) (fun _ _ _ _ h _ hs => h.step hs) inv_init
      (EachStep.of_forall (C := fun _ _ => True) (fun _ _ => trivial) _ _) hrun
  refine ⟨?_, ?_⟩
  · intro cmnd hc
    obtain ⟨hp, m, hm, hpay⟩ := hinv.backed cmnd hc
    have hshape := hinv.shape m hm
    obtain ⟨i, htag⟩ := hshape.request hkey (head?_of_isBackupMsg (hpay ▸ hp))
    simp only [Shape, htag, hpay] at hshape
    exact ⟨i, hshape⟩
  · intro m hm htag cmnd hc heq
    obtain ⟨hp, -⟩ := hinv.backed cmnd hc
    obtain ⟨i, hi⟩ := (hinv.shape m hm).request hkey (head?_of_isBackupMsg (heq ▸ hp))
    rw [hi] at htag
    rcases htag with h | h | h | ⟨j, h⟩
    · cases h
    · cases h
    · cases h
    · cases h

/-! ## A run -/

/-- One client at 10.0.0.2 and a server at 10.0.0.1. -/
def oneHost : Hosts Unit where
  server := ⟨"10.0.0.1".toList, "ssh-rsa AAAAB3 server".toList⟩
  ip _ := "10.0.0.2".toList
  quad _ := by decide

def registrationMsg : Message (Source Unit) :=
  ⟨subscibersList, subscribeMsg (oneHost.ip ()) "ann".toList, .sent (.registration ())⟩

def requestMsg : Message (Source Unit) := ⟨oneHost.ip (), "~/a".toList, .sent (.request ())⟩

def ownReply : Message (Source Unit) :=
  ⟨oneHost.ip (), replyMsg "~/a".toList true, .sent .reply⟩

def ownWill : Message (Source Unit) := ⟨oneHost.ip (), serverWillMsg, .serverWill⟩

/-- The request is delivered twice, and the server gets its own reply and its own will as well: four
handlers, two commands. -/
def echoRun : List (Event Unit) :=
  [.register () "ann".toList, .server (.consume registrationMsg), .server .dispatch,
    .server (.subscribe true), .server (.publishKey true), .server .store,
    .request () "~/a".toList, .server (.consume requestMsg), .server .dispatch,
    .server (.readTopic 0), .server (.readPayload 0), .server (.lookup 0),
    .server (.exec 0 (some true)), .server (.reply 0 true), .serverWill (oneHost.ip ()),
    .server (.consume ownReply), .server .dispatch, .server (.readTopic 1),
    .server (.readPayload 1), .server (.lookup 1), .server (.consume ownWill), .server .dispatch,
    .server (.readTopic 2), .server (.readPayload 2), .server (.lookup 2),
    .server (.consume requestMsg), .server .dispatch, .server (.readTopic 3),
    .server (.readPayload 3), .server (.lookup 3), .server (.exec 3 (some true))]

theorem echoRun_feeds_nothing :
    ∃ s : World Unit, exec (World.step oneHost) init echoRun = some s ∧ s.commands.length = 2 ∧
      s.srv.threadPool.length = 4 ∧ (∀ cmnd ∈ s.commands, ∃ i, .request i cmnd.source ∈ echoRun) ∧
      ∀ m ∈ s.published, m.tag = .sent .key ∨ m.tag = .sent .reply ∨ m.tag = .serverWill ∨
        (∃ i, m.tag = .clientWill i) → ∀ cmnd ∈ s.commands, cmnd.source ≠ m.payload := by
  obtain ⟨s, hrun, hcommands, hpool⟩ := exists_exec_of_any
    (P := fun s : World Unit => s.commands.length = 2 ∧ s.srv.threadPool.length = 4)
    (show (exec (World.step oneHost) init echoRun).any _ = true by decide +kernel)
  exact ⟨s, hrun, hcommands, hpool, commands_from_requests (by decide) hrun⟩

end BupApp.Feedback
