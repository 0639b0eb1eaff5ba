/-
# BupApp.App.NetworkSteps -- what one step of the network can do

`Moves` is the inversion of `Net.step`, guards included.  `Wf` is the bookkeeping of the network,
true in every state of every run from the empty one: messages are numbered and have the shape of
their origin, whatever a process or the broker holds was published, the retained message of a topic
is the last one published on it, a client is subscribed to its own channel and nothing else, and
what the server is working on is a registration of some client.
-/
import BupApp.App.Network

set_option linter.unusedSectionVars false

namespace BupApp.Net

open BupApp.Lib.Text BupApp.Lib.Ipv4 BupApp.Lib.PubSub BupApp.Lib.PubSub.Broker
open BupApp.Lib.Transition (exec)
open Server (Acts Knows HandlersWork)

variable {ι : Type} [DecidableEq ι] {cfg : NetConfig ι}

/-! ## The steps, once -/

/-- An effect the broker does not see. -/
def Silent : Effect → Prop
  | .setWill _ => True
  | .system _ => True
  | _ => False

/-- Every step of the network. -/
inductive Moves (cfg : NetConfig ι) (s : Net ι) : NetLabel ι → Net ι → Prop
  | start {i : ι} (hpc : (s.clients i).pc = .stopped) :
      Moves cfg s (.start i) (s.setClient i
        { s.clients i with pc := .connected, registration := none, taken := [] })
  | stop {i : ι} (hpc : (s.clients i).pc ≠ .stopped) :
      Moves cfg s (.stop i) { s.setClient i { s.clients i with pc := .stopped } with
        broker := s.broker.disconnect (.client i) }
  | register {i : ι} {info : Str} (hpc : (s.clients i).pc = .connected) :
      Moves cfg s (.register i info) ((s.setClient i
        { s.clients i with pc := .registered, registration := some s.history.length }).publish
        (.client i) subscibersList (subscribeMsg (cfg.ip i) info) (.registration i))
  | subscribe {i : ι} (hpc : (s.clients i).pc = .registered) :
      Moves cfg s (.subscribe i) ((s.setClient i
        { s.clients i with pc := .waiting }).subscribeTo cfg (.client i) (cfg.ip i) false)
  | take {i : ι} {m : Msg ι} {rest : List (Msg ι)}
      (hq : s.broker.queue (.client i) = m :: rest)
      (hpc : (s.clients i).pc = .waiting ∨ (s.clients i).pc = .working) :
      Moves cfg s (.take i) { s.setClient i ((s.clients i).take (cfg.ip i) m) with
        broker := s.broker.pop (.client i) }
  | request {i : ι} {path : Str} (hpc : (s.clients i).pc = .working) :
      Moves cfg s (.request i path) (s.publish (.client i) (cfg.ip i) path (.request i))
  | serverSetups (hup : s.up = false) :
      Moves cfg s .serverSetups ({ s with up := true }.subscribeTo cfg .server subscibersList true)
  | serverRestart :
      Moves cfg s .serverRestart
        { s with srv := Server.start, up := false, broker := s.broker.disconnect .server }
  | consume {m : Msg ι} {rest : List (Msg ι)} (hup : s.up = true)
      (hq : s.broker.queue .server = m :: rest) (hl : s.srv.loop = .waiting)
      (halive : s.srv.crashed = none) :
      Moves cfg s (.server (.consume m))
        { s with srv := { s.srv with msgPtr := some m, loop := .received }
                 broker := s.broker.pop .server }
  | quiet {l : Server.Label (Stamp ι)} {srv' : Server (Stamp ι)} {es : List Effect}
      (hup : s.up = true) (halive : s.srv.crashed = none) (hl : ∀ m, l ≠ .consume m)
      (hnn : l.nonNull) (hacts : Acts cfg.server s.srv l srv' es) (hes : ∀ e ∈ es, Silent e) :
      Moves cfg s (.server l) { s with srv := srv' }
  | srvSubscribe {c : Client} (hup : s.up = true) (halive : s.srv.crashed = none)
      (hl : s.srv.loop = .subscribing c) :
      Moves cfg s (.server (.subscribe true))
        ({ s with srv := { s.srv with loop := .sendingKey c } }.subscribeTo cfg .server c.ip true)
  | keySent {c : Client} (hup : s.up = true) (halive : s.srv.crashed = none)
      (hl : s.srv.loop = .sendingKey c) :
      Moves cfg s (.server (.publishKey true))
        { { s with srv := { s.srv with loop := .storing c } }.publish .server c.ip
            cfg.server.publicKey .key with
          answered := s.answered ++ (s.srv.msgPtr.map fun m => m.tag.no).toList }
  | exec {k : Nat} {msg : Msg ι} {t p : Str} {cmnd : Cmnd} {rc : Bool} (hup : s.up = true)
      (halive : s.srv.crashed = none) (hk : s.srv.threadPool[k]? = some ⟨msg, .cmndBuilt t p cmnd⟩) :
      Moves cfg s (.server (.exec k (some rc)))
        { s with srv := s.srv.setPc k (.replyBuilt t p rc), ran := s.ran ++ [msg.tag] }
  | reply {k : Nat} {msg : Msg ι} {t p : Str} {rc : Bool} (hup : s.up = true)
      (halive : s.srv.crashed = none) (hk : s.srv.threadPool[k]? = some ⟨msg, .replyBuilt t p rc⟩) :
      Moves cfg s (.server (.reply k true))
        ({ s with srv := s.srv.setPc k .finished }.publish .server t (replyMsg p rc) .reply)

theorem moves_of_act {s s' : Net ι} {l : Server.Label (Stamp ι)} (hup : s.up = true)
    (hnc : ∀ m, l ≠ .consume m) (hnn : l.nonNull)
    (h : (s.srv.act cfg.server l).map (s.perform cfg) = some s') :
    Moves cfg s (.server l) s' := by
  obtain ⟨⟨srv', es⟩, hact, rfl⟩ := Option.map_eq_some_iff.mp h
  have halive := Server.act_alive hact
  have hacts := Server.act_acts hact
  have hall := hacts
  cases hacts with
  | consume => exact absurd rfl (hnc _)
  | nullReconnected | nullFailed | nullThrew => exact hnn.elim
  | subscribed hl => exact .srvSubscribe hup halive hl
  | keySent hl => exact .keySent hup halive hl
  | @handler k l msg pc pc' es hk hmove =>
      cases hmove with
      | @exec t p cmnd rc =>
          -- the command is run for the message its handler was spawned for
          have hran : s.perform cfg (s.srv.setPc k (.replyBuilt t p rc), [.execCmnd k t p cmnd]) =
              { s with srv := s.srv.setPc k (.replyBuilt t p rc), ran := s.ran ++ [msg.tag] } := by
            simp only [perform, List.foldl_cons, List.foldl_nil, effect,
              Server.setPc_getElem?_self hk, Option.map_some, Option.toList_some]
          rw [hran]
          exact .exec hup halive hk
      | reply => exact .reply hup halive hk
      | _ => exact .quiet hup halive hnc hnn hall (by simp)
  | _ => exact .quiet hup halive hnc hnn hall (by simp [Silent])

/-- **Inversion of `Net.step`.** -/
theorem step_moves {s s' : Net ι} {l : NetLabel ι} (h : step cfg s l = some s') :
    Moves cfg s l s' := by
  cases l with
  | start i =>
      simp only [step, Option.ite_none_right_eq_some] at h
      obtain ⟨hpc, h⟩ := h
      cases h; exact .start hpc
  | stop i =>
      simp only [step, Option.ite_none_right_eq_some] at h
      obtain ⟨hpc, h⟩ := h
      cases h; exact .stop hpc
  | register i info =>
      simp only [step, Option.ite_none_right_eq_some] at h
      obtain ⟨hpc, h⟩ := h
      cases h; exact .register hpc
  | subscribe i =>
      simp only [step, Option.ite_none_right_eq_some] at h
      obtain ⟨hpc, h⟩ := h
      cases h; exact .subscribe hpc
  | take i =>
      simp only [step] at h
      split at h
      · rename_i m rest hq
        simp only [Option.ite_none_right_eq_some] at h
        obtain ⟨hpc, h⟩ := h
        cases h; exact .take hq hpc
      · cases h
  | request i path =>
      simp only [step, Option.ite_none_right_eq_some] at h
      obtain ⟨hpc, h⟩ := h
      cases h; exact .request hpc
  | serverSetups =>
      simp only [step, Option.ite_none_right_eq_some] at h
      obtain ⟨hup, h⟩ := h
      cases h; exact .serverSetups hup
  | serverRestart =>
      cases h; exact .serverRestart
  | server l =>
      simp only [step, Option.ite_none_right_eq_some] at h
      obtain ⟨hup, h⟩ := h
      unfold serverStep at h
      -- null messages are no steps, a consumed message is the head of the queue, the rest is `act`
      split at h
      · cases h
      · rename_i m
        simp only [Option.ite_none_right_eq_some] at h
        obtain ⟨hhead, h⟩ := h
        obtain ⟨rest, hq⟩ := List.head?_eq_some_iff.mp hhead
        obtain ⟨⟨srv', es⟩, hact, rfl⟩ := Option.map_eq_some_iff.mp h
        have halive := Server.act_alive hact
        have hacts := Server.act_acts hact
        cases hacts with
        | consume hl => exact .consume hup hq hl halive
        | handler hk hmove => cases hmove
        | crashes hc => cases hc
      · rename_i hnull hcons
        refine moves_of_act hup hcons ?_ h
        cases l with
        | consumeNull r => exact absurd rfl (hnull r)
        | _ => trivial

/-! ## The shape of messages -/

/-- The publications on a topic. -/
def onTopic (hist : List (Msg ι)) (t : Str) : List (Msg ι) := hist.filter (·.topic = t)

/-- The last publication on a topic, when it is not one that deletes. -/
def lastOn (hist : List (Msg ι)) (t : Str) : Option (Msg ι) :=
  (onTopic hist t).getLast?.filter (·.payload ≠ [])

theorem mem_onTopic {hist : List (Msg ι)} {t : Str} {m : Msg ι} :
    m ∈ onTopic hist t ↔ m ∈ hist ∧ m.topic = t := by
  simp [onTopic]

theorem onTopic_append (hist : List (Msg ι)) (m : Msg ι) (t : Str) :
    onTopic (hist ++ [m]) t = onTopic hist t ++ if m.topic = t then [m] else [] := by
  by_cases h : m.topic = t <;> simp [onTopic, h]

/-- What a message of each origin looks like; a reply quotes a payload that was published. -/
def Shape (cfg : NetConfig ι) (hist : List (Msg ι)) (m : Msg ι) : Prop :=
  match m.tag.origin with
  | .registration i => m.topic = subscibersList ∧ ∃ info, m.payload = subscribeMsg (cfg.ip i) info
  | .request i => m.topic = cfg.ip i
  | .key => (∃ i, m.topic = cfg.ip i) ∧ m.payload = cfg.server.publicKey
  | .reply => (∃ i, m.topic = cfg.ip i) ∧ ∃ p rc, m.payload = replyMsg p rc ∧
      isBackupMsg p = true ∧ ∃ m' ∈ hist, m'.payload = p

theorem ip_ne_subscibersList (cfg : NetConfig ι) (i : ι) : cfg.ip i ≠ subscibersList := by
  intro h
  have h4 : isIP4 (cfg.ip i) = true := inetPton_of_dottedQuad (cfg.quad i)
  rw [h, Server.isIP4_subscibersList] at h4
  cases h4

theorem Shape.mono {hist : List (Msg ι)} {m : Msg ι} (h : Shape cfg hist m) (more : List (Msg ι)) :
    Shape cfg (hist ++ more) m := by
  unfold Shape at h ⊢
  split at h
  · exact h
  · exact h
  · exact h
  · obtain ⟨hi, p, rc, hm, hp, m', hm', hpay⟩ := h
    exact ⟨hi, p, rc, hm, hp, m', List.mem_append_left more hm', hpay⟩

/-- Only registrations are published on the public channel. -/
theorem Shape.registration {hist : List (Msg ι)} {m : Msg ι} (h : Shape cfg hist m)
    (ht : m.topic = subscibersList) :
    ∃ i info, m.tag.origin = .registration i ∧ m.payload = subscribeMsg (cfg.ip i) info := by
  unfold Shape at h
  split at h
  · rename_i i ho
    obtain ⟨-, info, hinfo⟩ := h
    exact ⟨i, info, ho, hinfo⟩
  · rename_i i ho
    exact absurd (h.symm.trans ht) (ip_ne_subscibersList cfg i)
  · obtain ⟨⟨i, hi⟩, -⟩ := h
    exact absurd (hi.symm.trans ht) (ip_ne_subscibersList cfg i)
  · obtain ⟨⟨i, hi⟩, -⟩ := h
    exact absurd (hi.symm.trans ht) (ip_ne_subscibersList cfg i)

/-- A registration has a token, and it decodes to an entry of its author's address. -/
theorem ofMsg_registration {i : ι} {info : Str} {c : Client}
    (h : Client.ofMsg (subscribeMsg (cfg.ip i) info) = some c) : c.ip = cfg.ip i := by
  obtain ⟨c', hc', hip⟩ := ofMsg_subscribeMsg (cfg.quad i) info
  obtain rfl : c = c' := Option.some.inj (h.symm.trans hc')
  exact hip

theorem lastOn_append_self (hist : List (Msg ι)) (m : Msg ι) :
    lastOn (hist ++ [m]) m.topic = if m.payload = [] then none else some m := by
  by_cases hp : m.payload = []
  · simp [lastOn, onTopic_append, hp, Option.filter]
  · simp [lastOn, onTopic_append, hp, Option.filter]

theorem lastOn_append_of_ne {hist : List (Msg ι)} {m : Msg ι} {t : Str} (h : m.topic ≠ t) :
    lastOn (hist ++ [m]) t = lastOn hist t := by
  simp [lastOn, onTopic_append, h]

theorem mem_of_lastOn {hist : List (Msg ι)} {t : Str} {m : Msg ι} (h : lastOn hist t = some m) :
    m ∈ hist ∧ m.topic = t := by
  obtain ⟨hlast, -⟩ := Option.filter_eq_some_iff.mp h
  exact mem_onTopic.mp (List.mem_of_getLast? hlast)

/-! ## Observations -/

/-- What was delivered to the client in its session. -/
def delivered (s : Net ι) (i : ι) : List (Msg ι) :=
  (s.clients i).taken ++ s.broker.queue (.client i)

/-- The server runs and has finished handling everything delivered to it. -/
structure Quiescent (s : Net ι) : Prop where
  alive : s.srv.crashed = none
  queue : s.broker.queue .server = []
  loop : s.srv.loop = .waiting
  handlers : ∀ h ∈ s.srv.threadPool, h.pc = .finished

instance (s : Net ι) : Decidable (Quiescent s) :=
  decidable_of_iff (s.srv.crashed = none ∧ s.broker.queue .server = [] ∧ s.srv.loop = .waiting ∧
      ∀ h ∈ s.srv.threadPool, h.pc = .finished)
    ⟨fun h => ⟨h.1, h.2.1, h.2.2.1, h.2.2.2⟩, fun h => ⟨h.alive, h.queue, h.loop, h.handlers⟩⟩

/-! ## The bookkeeping -/

/-- The client's session has subscribed to its channel. -/
def Subscribed (pc : ClientPc) : Prop := pc = .waiting ∨ pc = .working

instance (pc : ClientPc) : Decidable (Subscribed pc) := inferInstanceAs (Decidable (_ ∨ _))

/-- The client's session has published its registration. -/
def Registered (pc : ClientPc) : Prop := pc = .registered ∨ Subscribed pc

structure Wf (cfg : NetConfig ι) (s : Net ι) : Prop where
  numbered : ∀ (n : Nat) m, s.history[n]? = some m → m.tag.no = n
  shape : ∀ m ∈ s.history, Shape cfg s.history m
  queued : ∀ k, ∀ m ∈ s.broker.queue k, m ∈ s.history
  kept : ∀ t, s.broker.kept t = lastOn s.history t
  taken : ∀ i, ∀ m ∈ (s.clients i).taken, m ∈ s.history
  knows : Knows (· ∈ s.history) s.srv
  works : HandlersWork cfg.server s.srv
  entries : ∀ c ∈ s.srv.clients, ∃ i, c.ip = cfg.ip i
  pending : ∀ c, s.srv.loop.client? = some c →
    ∃ m i, s.srv.msgPtr = some m ∧ m.tag.origin = .registration i ∧ c.ip = cfg.ip i
  down : s.up = false →
    s.srv = Server.start ∧ s.broker.queue .server = [] ∧ ∀ t, s.broker.subs .server t = none
  serverUp : s.up = true → s.broker.subs .server subscibersList = some ⟨true⟩
  serverSubs : ∀ t sub, s.broker.subs .server t = some sub → sub = ⟨true⟩
  clientSubs : ∀ i t, s.broker.subs (.client i) t =
    if Subscribed (s.clients i).pc ∧ t = cfg.ip i then some ⟨false⟩ else none
  unsubscribed : ∀ i, ¬ Subscribed (s.clients i).pc → s.broker.queue (.client i) = []
  fresh : ∀ i, ¬ Subscribed (s.clients i).pc → (s.clients i).pc ≠ .stopped →
    (s.clients i).taken = []
  registration : ∀ i n, (s.clients i).registration = some n →
    ∃ m, s.history[n]? = some m ∧ m.tag.origin = .registration i
  registered : ∀ i, Registered (s.clients i).pc → ∃ n, (s.clients i).registration = some n

theorem wf_init : Wf cfg (init : Net ι) where
  numbered := by simp [init]
  shape := by simp [init]
  queued := by simp [init]
  kept := by simp [init, lastOn, onTopic]
  taken := by simp [init, AppClient.off]
  knows := Knows.start _
  works := by simp [HandlersWork, init, Server.start]
  entries := by simp [init, Server.start]
  pending := by simp [init, Server.start, LoopPc.client?]
  down := by simp [init]
  serverUp := by simp [init]
  serverSubs := by simp [init]
  clientSubs := by simp [init, Subscribed, AppClient.off]
  unsubscribed := by simp [init]
  fresh := by simp [init, AppClient.off]
  registration := by simp [init, AppClient.off]
  registered := by simp [init, AppClient.off, Registered, Subscribed]

/-- The number of a message is its place in the history. -/
theorem Wf.getElem_no {s : Net ι} (h : Wf cfg s) {m : Msg ι} (hm : m ∈ s.history) :
    s.history[m.tag.no]? = some m := by
  obtain ⟨n, hn⟩ := List.mem_iff_getElem?.mp hm
  rw [h.numbered n m hn]
  exact hn

theorem Wf.no_lt {s : Net ι} (h : Wf cfg s) {m : Msg ι} (hm : m ∈ s.history) :
    m.tag.no < s.history.length :=
  (List.getElem?_eq_some_iff.mp (h.getElem_no hm)).1

/-- A message is told by its number. -/
theorem Wf.eq_of_no {s : Net ι} (h : Wf cfg s) {m m' : Msg ι} (hm : m ∈ s.history)
    (hm' : m' ∈ s.history) (hno : m.tag.no = m'.tag.no) : m = m' := by
  have hget := h.getElem_no hm
  rw [hno, h.getElem_no hm'] at hget
  exact (Option.some.inj hget).symm

/-- A registration is on the public channel. -/
theorem Wf.topic_of_registration {s : Net ι} (h : Wf cfg s) {m : Msg ι} (hm : m ∈ s.history) {i : ι}
    (ho : m.tag.origin = .registration i) : m.topic = subscibersList := by
  have hshape := h.shape m hm
  unfold Shape at hshape
  rw [ho] at hshape
  exact hshape.1

/-- The lists behind the network do not matter to it. -/
theorem Wf.ghosts {s : Net ι} (h : Wf cfg s) (answered : List Nat) (ran : List (Stamp ι)) :
    Wf cfg { s with answered := answered, ran := ran } :=
  ⟨h.numbered, h.shape, h.queued, h.kept, h.taken, h.knows, h.works, h.entries, h.pending, h.down,
    h.serverUp, h.serverSubs, h.clientSubs, h.unsubscribed, h.fresh, h.registration, h.registered⟩

/-- What holds of client `i` in its new state and of the others as they are holds of every client. -/
theorem forall_update {f : ι → AppClient (Stamp ι)} {i : ι} {c : AppClient (Stamp ι)}
    {P : ι → AppClient (Stamp ι) → Prop} (hself : P i c) (hother : ∀ j, j ≠ i → P j (f j)) (j : ι) :
    P j (Function.update f i c j) :=
  (Function.forall_update_iff f P).mpr ⟨hself, hother⟩ j

/-- A message of the right shape is published to those who are subscribed. -/
theorem Wf.publish {s : Net ι} (h : Wf cfg s) {src : Party ι} {t p : Str} {o : Origin ι}
    (hs : Shape cfg s.history ⟨t, p, ⟨o, s.history.length⟩⟩) : Wf cfg (s.publish src t p o) where
  numbered n m hn := by
    -- an old message keeps its place, the new one gets the next
    rcases Nat.lt_or_ge n s.history.length with hlt | hge
    · rw [Net.publish, List.getElem?_append_left hlt] at hn
      exact h.numbered n m hn
    · have hlt : n < (s.publish src t p o).history.length := (List.getElem?_eq_some_iff.mp hn).1
      obtain rfl : n = s.history.length := by
        simp only [Net.publish, List.length_append, List.length_singleton] at hlt
        omega
      simp only [Net.publish, List.getElem?_concat_length, Option.some.injEq] at hn
      rw [← hn]
  shape m hm := by
    rcases List.mem_append.mp hm with hold | hnew
    · exact (h.shape m hold).mono _
    · rw [List.mem_singleton.mp hnew]
      exact hs.mono _
  queued k m hm := by
    rcases mem_queue_publish hm with hold | rfl
    · exact List.mem_append_left _ (h.queued k m hold)
    · exact List.mem_append_right _ (List.mem_singleton_self _)
  kept t' := by
    simp only [Net.publish, kept_publish, decide_eq_true_eq]
    by_cases ht : t' = t
    · subst ht
      rw [if_pos rfl]
      exact (lastOn_append_self s.history ⟨t', p, ⟨o, s.history.length⟩⟩).symm
    · rw [if_neg ht, h.kept t']
      exact (lastOn_append_of_ne fun heq => ht heq.symm).symm
  taken i m hm := List.mem_append_left _ (h.taken i m hm)
  knows := h.knows.mono fun m hm => List.mem_append_left _ hm
  works := h.works
  entries := h.entries
  pending := h.pending
  down hup := by
    obtain ⟨hsrv, hq, hsubs⟩ := h.down hup
    refine ⟨hsrv, ?_, hsubs⟩
    simp [Net.publish, forwards_eq_false_of_none (hsubs t), hq]
  serverUp := h.serverUp
  serverSubs := h.serverSubs
  clientSubs := h.clientSubs
  unsubscribed i hi := by
    have hsub : s.broker.subs (.client i) t = none := by
      rw [h.clientSubs, if_neg fun hboth => hi hboth.1]
    simp only [Net.publish, queue_publish, forwards_eq_false_of_none hsub, Bool.false_eq_true,
      if_false]
    exact h.unsubscribed i hi
  fresh := h.fresh
  registration i n hn := by
    obtain ⟨m, hm, ho⟩ := h.registration i n hn
    have hlt := (List.getElem?_eq_some_iff.mp hm).1
    exact ⟨m, (List.getElem?_append_left hlt).trans hm, ho⟩
  registered := h.registered

/-- What a new subscription puts into the queues was published: it comes from the retained
messages. -/
theorem Wf.mem_of_subscribe {s : Net ι} (h : Wf cfg s) {resendOwn : Bool} {k k' : Party ι} {t : Str}
    {sub : Sub} {m : Msg ι} (hm : m ∈ (s.broker.subscribe resendOwn k t sub).queue k') :
    m ∈ s.history := by
  rcases mem_queue_subscribe hm with hold | ⟨-, hoff⟩
  · exact h.queued k' m hold
  · have hkept : lastOn s.history t = some m := (h.kept t).symm.trans (kept_of_mem_offered hoff)
    exact (mem_of_lastOn hkept).1

/-- The server, which has subscribed to the public channel or does so now, subscribes to a topic. -/
theorem Wf.upSubscribes {s : Net ι} (h : Wf cfg s) {t : Str}
    (ht : s.up = true ∨ t = subscibersList) :
    Wf cfg ({ s with up := true }.subscribeTo cfg .server t true) where
  numbered := h.numbered
  shape := h.shape
  queued _ _ hm := h.mem_of_subscribe hm
  kept := h.kept
  taken := h.taken
  knows := h.knows
  works := h.works
  entries := h.entries
  pending := h.pending
  down hdown := by simp [subscribeTo] at hdown
  serverUp _ := by
    simp only [subscribeTo, subs_subscribe]
    split
    · rfl
    · rename_i hother
      rcases ht with hup | rfl
      · exact h.serverUp hup
      · exact absurd ⟨trivial, rfl⟩ hother
  serverSubs t' sub hsub := by
    simp only [subscribeTo, subs_subscribe, true_and] at hsub
    split at hsub
    · exact (Option.some.inj hsub).symm
    · exact h.serverSubs t' sub hsub
  clientSubs i t' := by
    simp only [subscribeTo, subs_subscribe, reduceCtorEq, false_and, if_false]
    exact h.clientSubs i t'
  unsubscribed i hi := by
    rw [subscribeTo, queue_subscribe_of_ne (by simp)]
    exact h.unsubscribed i hi
  fresh := h.fresh
  registration := h.registration
  registered := h.registered

/-- The server subscribes to a topic. -/
theorem Wf.serverSubscribes {s : Net ι} (h : Wf cfg s) (hup : s.up = true) (t : Str) :
    Wf cfg (s.subscribeTo cfg .server t true) := by
  have hsame : { s with up := true } = s := by
    rw [← hup]
  have hsubscribed := h.upSubscribes (t := t) (Or.inl hup)
  rwa [hsame] at hsubscribed

/-- The server subscribes to the public channel. -/
theorem Wf.setsUp {s : Net ι} (h : Wf cfg s) :
    Wf cfg ({ s with up := true }.subscribeTo cfg .server subscibersList true) :=
  h.upSubscribes (Or.inr rfl)

/-- The server's part of a step. -/
theorem Wf.srvStep {s : Net ι} (h : Wf cfg s) (hup : s.up = true) {l : Server.Label (Stamp ι)}
    {srv' : Server (Stamp ι)} {es : List Effect} (hacts : Acts cfg.server s.srv l srv' es)
    (hnn : l.nonNull) (hin : ∀ m, l = .consume m → m ∈ s.history) :
    Wf cfg { s with srv := srv' } where
  numbered := h.numbered
  shape := h.shape
  queued := h.queued
  kept := h.kept
  taken := h.taken
  knows := h.knows.step hacts hin
  works := h.works.step hacts
  entries c hc := by
    -- what is stored is the entry the loop was working on
    cases hacts with
    | @stored c₀ hl =>
        rcases List.mem_append.mp hc with hold | hnew
        · exact h.entries c hold
        · obtain ⟨m, i, -, -, hip⟩ := h.pending c₀ (by rw [hl]; rfl)
          rw [List.mem_singleton.mp hnew]
          exact ⟨i, hip⟩
    | nullReconnected | nullFailed | nullThrew => exact hnn.elim
    | _ => exact h.entries c hc
  pending c hc := by
    cases hacts with
    | @register m c₀ hl hm ht hof =>
        -- the entry is decoded from a registration, so it has its author's address
        obtain rfl : c₀ = c := Option.some.inj hc
        have hshape := h.shape m (h.knows.msgPtr m hm)
        obtain ⟨i, info, ho, hpay⟩ := hshape.registration ht
        rw [hpay] at hof
        exact ⟨m, i, hm, ho, ofMsg_registration hof⟩
    | subscribed hl | keySent hl => exact h.pending c (by rw [hl]; exact hc)
    | nullReconnected | nullFailed | nullThrew => exact hnn.elim
    | handler | crashes => exact h.pending c hc
    | _ => cases hc
  down hdown := by
    rw [hup] at hdown
    cases hdown
  serverUp := h.serverUp
  serverSubs := h.serverSubs
  clientSubs := h.clientSubs
  unsubscribed := h.unsubscribed
  fresh := h.fresh
  registration := h.registration
  registered := h.registered

/-- The server is not sent what it publishes itself. -/
theorem Wf.forwards_server {s : Net ι} (h : Wf cfg s) (t : Str) :
    s.broker.forwards .server .server t = false := by
  cases hsub : s.broker.subs .server t with
  | none => exact forwards_eq_false_of_none hsub
  | some sub => exact forwards_self hsub (by rw [h.serverSubs t sub hsub])

/-- A subscribed client is sent what is published on its channel, and nothing else. -/
theorem Wf.forwards_client {s : Net ι} (h : Wf cfg s) (src : Party ι) (i : ι) (t : Str) :
    s.broker.forwards src (.client i) t = decide (Subscribed (s.clients i).pc ∧ t = cfg.ip i) := by
  have hsubs := h.clientSubs i t
  by_cases hboth : Subscribed (s.clients i).pc ∧ t = cfg.ip i
  · rw [if_pos hboth] at hsubs
    rw [forwards_eq_true hsubs (by simp), decide_eq_true hboth]
  · rw [if_neg hboth] at hsubs
    rw [forwards_eq_false_of_none hsubs, decide_eq_false hboth]

/-- Registrations reach a server that is up. -/
theorem Wf.forwards_public {s : Net ι} (h : Wf cfg s) (hup : s.up = true) (i : ι) :
    s.broker.forwards (.client i) .server subscibersList = true :=
  forwards_eq_true (h.serverUp hup) (by simp)

/-- The entry a handler's reply is for is one of a client. -/
theorem Wf.replyTopic {s : Net ι} (h : Wf cfg s) {k : Nat} {msg : Msg ι} {t p : Str} {rc : Bool}
    (hk : s.srv.threadPool[k]? = some ⟨msg, .replyBuilt t p rc⟩) :
    isBackupMsg p = true ∧ (∃ i, t = cfg.ip i) ∧ ∃ m ∈ s.history, m.payload = p := by
  have hmem := Server.mem_of_getElem? hk
  obtain ⟨hp, c, hc, rfl⟩ := h.works _ hmem
  obtain ⟨i, hi⟩ := h.entries c hc
  obtain ⟨m, hm, hpay⟩ := h.knows.path _ hmem p rfl
  exact ⟨hp, ⟨i, hi⟩, m, hm, hpay⟩

/-- A client's program point and ghosts change, with nothing published. -/
theorem Wf.updateClient {s : Net ι} (h : Wf cfg s) {i : ι} {c : AppClient (Stamp ι)}
    (hsub : Subscribed c.pc ↔ Subscribed (s.clients i).pc)
    (htaken : ∀ m ∈ c.taken, m ∈ s.history)
    (hfresh : ¬ Subscribed c.pc → c.pc ≠ .stopped → c.taken = [])
    (hreg : ∀ n, c.registration = some n → ∃ m, s.history[n]? = some m ∧
      m.tag.origin = .registration i)
    (hregd : Registered c.pc → ∃ n, c.registration = some n) : Wf cfg (s.setClient i c) where
  numbered := h.numbered
  shape := h.shape
  queued := h.queued
  kept := h.kept
  taken := forall_update (P := fun _ c => ∀ m ∈ c.taken, m ∈ s.history) htaken fun j _ => h.taken j
  knows := h.knows
  works := h.works
  entries := h.entries
  pending := h.pending
  down := h.down
  serverUp := h.serverUp
  serverSubs := h.serverSubs
  clientSubs := forall_update
    (P := fun j c => ∀ t, s.broker.subs (.client j) t =
      if Subscribed c.pc ∧ t = cfg.ip j then some ⟨false⟩ else none)
    (by simp only [hsub]; exact h.clientSubs i) fun j _ => h.clientSubs j
  unsubscribed := forall_update
    (P := fun j c => ¬ Subscribed c.pc → s.broker.queue (.client j) = [])
    (by rw [hsub]; exact h.unsubscribed i) fun j _ => h.unsubscribed j
  fresh := forall_update (P := fun _ c => ¬ Subscribed c.pc → c.pc ≠ .stopped → c.taken = [])
    hfresh fun j _ => h.fresh j
  registration := forall_update
    (P := fun j c => ∀ n, c.registration = some n → ∃ m, s.history[n]? = some m ∧
      m.tag.origin = .registration j) hreg fun j _ => h.registration j
  registered := forall_update (P := fun _ c => Registered c.pc → ∃ n, c.registration = some n)
    hregd fun j _ => h.registered j

/-- A message is taken out of a queue. -/
theorem Wf.pops {s : Net ι} (h : Wf cfg s) (k : Party ι) :
    Wf cfg { s with broker := s.broker.pop k } where
  numbered := h.numbered
  shape := h.shape
  queued k' m hm := h.queued k' m (mem_queue_pop hm)
  kept := h.kept
  taken := h.taken
  knows := h.knows
  works := h.works
  entries := h.entries
  pending := h.pending
  down hup := by
    obtain ⟨hsrv, hq, hsubs⟩ := h.down hup
    exact ⟨hsrv, queue_pop_eq_nil hq, hsubs⟩
  serverUp := h.serverUp
  serverSubs := h.serverSubs
  clientSubs := h.clientSubs
  unsubscribed i hi := queue_pop_eq_nil (h.unsubscribed i hi)
  fresh := h.fresh
  registration := h.registration
  registered := h.registered

/-- A client stops: its connection ends with it. -/
theorem Wf.stops {s : Net ι} (h : Wf cfg s) (i : ι) :
    Wf cfg { s.setClient i { s.clients i with pc := .stopped } with
      broker := s.broker.disconnect (.client i) } where
  numbered := h.numbered
  shape := h.shape
  queued k m hm := h.queued k m (mem_queue_disconnect hm)
  kept t := by
    rw [kept_disconnect]
    exact h.kept t
  taken := forall_update (P := fun _ c => ∀ m ∈ c.taken, m ∈ s.history) (h.taken i)
    fun j _ => h.taken j
  knows := h.knows
  works := h.works
  entries := h.entries
  pending := h.pending
  down hup := by
    obtain ⟨hsrv, hq, hsubs⟩ := h.down hup
    refine ⟨hsrv, ?_, fun t => ?_⟩
    · rw [queue_disconnect_of_ne (by simp)]
      exact hq
    · rw [subs_disconnect, if_neg (by simp)]
      exact hsubs t
  serverUp hup := by
    rw [subs_disconnect, if_neg (by simp)]
    exact h.serverUp hup
  serverSubs t sub hsub := by
    rw [subs_disconnect, if_neg (by simp)] at hsub
    exact h.serverSubs t sub hsub
  -- the subscriptions of the connection go with it
  clientSubs := by
    refine forall_update (P := fun j c => ∀ t, (s.broker.disconnect (.client i)).subs (.client j) t =
      if Subscribed c.pc ∧ t = cfg.ip j then some ⟨false⟩ else none) (fun t => ?_) fun j hj t => ?_
    · simp [subs_disconnect, Subscribed]
    · rw [subs_disconnect, if_neg (by simpa using hj)]
      exact h.clientSubs j t
  unsubscribed := by
    refine forall_update
      (P := fun j c => ¬ Subscribed c.pc → (s.broker.disconnect (.client i)).queue (.client j) = [])
      (fun _ => queue_disconnect_self _) fun j hj hns => ?_
    rw [queue_disconnect_of_ne (by simpa using hj)]
    exact h.unsubscribed j hns
  fresh := forall_update (P := fun _ c => ¬ Subscribed c.pc → c.pc ≠ .stopped → c.taken = [])
    (fun _ hpc => absurd rfl hpc) fun j _ => h.fresh j
  registration := forall_update
    (P := fun j c => ∀ n, c.registration = some n → ∃ m, s.history[n]? = some m ∧
      m.tag.origin = .registration j) (h.registration i) fun j _ => h.registration j
  registered := forall_update (P := fun _ c => Registered c.pc → ∃ n, c.registration = some n)
    (by simp [Registered, Subscribed]) fun j _ => h.registered j

/-- A client subscribes to its channel. -/
theorem Wf.clientSubscribes {s : Net ι} (h : Wf cfg s) {i : ι}
    (hpc : (s.clients i).pc = .registered) :
    Wf cfg ((s.setClient i { s.clients i with pc := .waiting }).subscribeTo cfg (.client i)
      (cfg.ip i) false) where
  numbered := h.numbered
  shape := h.shape
  queued _ _ hm := h.mem_of_subscribe hm
  kept := h.kept
  taken := forall_update (P := fun _ c => ∀ m ∈ c.taken, m ∈ s.history) (h.taken i)
    fun j _ => h.taken j
  knows := h.knows
  works := h.works
  entries := h.entries
  pending := h.pending
  down hup := by
    obtain ⟨hsrv, hq, hsubs⟩ := h.down hup
    refine ⟨hsrv, ?_, fun t => ?_⟩
    · rw [subscribeTo, queue_subscribe_of_ne (by simp)]
      exact hq
    · simp only [subscribeTo, subs_subscribe, reduceCtorEq, false_and, if_false]
      exact hsubs t
  serverUp hup := by
    simp only [subscribeTo, subs_subscribe, reduceCtorEq, false_and, if_false]
    exact h.serverUp hup
  serverSubs t sub hsub := by
    simp only [subscribeTo, subs_subscribe, reduceCtorEq, false_and, if_false] at hsub
    exact h.serverSubs t sub hsub
  clientSubs := by
    refine forall_update (P := fun j c => ∀ t,
      (s.broker.subscribe cfg.resendOwn (.client i) (cfg.ip i) ⟨false⟩).subs (.client j) t =
        if Subscribed c.pc ∧ t = cfg.ip j then some ⟨false⟩ else none) (fun t => ?_) fun j hj t => ?_
    · -- it had no subscription before
      have hold : s.broker.subs (.client i) t = none := by
        rw [h.clientSubs, if_neg]
        rintro ⟨hsub, -⟩
        rw [hpc] at hsub
        rcases hsub with hsub | hsub <;> cases hsub
      by_cases ht : t = cfg.ip i
      · simp [subs_subscribe, Subscribed, ht]
      · simp [subs_subscribe, ht, hold]
    · have hne : Party.client j ≠ Party.client i := by simpa using hj
      rw [subs_subscribe, if_neg fun hboth => hne hboth.1]
      exact h.clientSubs j t
  unsubscribed := by
    refine forall_update (P := fun j c => ¬ Subscribed c.pc →
      (s.broker.subscribe cfg.resendOwn (.client i) (cfg.ip i) ⟨false⟩).queue (.client j) = [])
      (by simp [Subscribed]) fun j hj hns => ?_
    rw [queue_subscribe_of_ne (by simpa using hj)]
    exact h.unsubscribed j hns
  fresh := forall_update (P := fun _ c => ¬ Subscribed c.pc → c.pc ≠ .stopped → c.taken = [])
    (by simp [Subscribed]) fun j _ => h.fresh j
  registration := forall_update
    (P := fun j c => ∀ n, c.registration = some n → ∃ m, s.history[n]? = some m ∧
      m.tag.origin = .registration j) (h.registration i) fun j _ => h.registration j
  registered := forall_update (P := fun _ c => Registered c.pc → ∃ n, c.registration = some n)
    (fun _ => h.registered i (by rw [hpc]; exact Or.inl rfl)) fun j _ => h.registered j

/-- The server starts anew. -/
theorem Wf.restarts {s : Net ι} (h : Wf cfg s) :
    Wf cfg { s with srv := Server.start, up := false, broker := s.broker.disconnect .server } where
  numbered := h.numbered
  shape := h.shape
  queued k m hm := h.queued k m (mem_queue_disconnect hm)
  kept t := by
    rw [kept_disconnect]
    exact h.kept t
  taken := h.taken
  knows := Knows.start _
  works := by simp [HandlersWork, Server.start]
  entries := by simp [Server.start]
  pending := by simp [Server.start, LoopPc.client?]
  down _ := ⟨rfl, queue_disconnect_self _, fun t => by rw [subs_disconnect, if_pos rfl]⟩
  serverUp hup := by simp at hup
  serverSubs t sub hsub := by
    rw [subs_disconnect, if_pos rfl] at hsub
    cases hsub
  clientSubs i t := by
    rw [subs_disconnect, if_neg (by simp)]
    exact h.clientSubs i t
  unsubscribed i hi := by
    rw [queue_disconnect_of_ne (by simp)]
    exact h.unsubscribed i hi
  fresh := h.fresh
  registration := h.registration
  registered := h.registered

theorem take_pc (x : Str) (c : AppClient (Stamp ι)) (m : Msg ι) :
    (c.take x m).pc = if c.pc = .waiting ∧ acceptsKey x m = true then .working else c.pc := by
  unfold AppClient.take
  split <;> rfl

@[simp] theorem take_registration (x : Str) (c : AppClient (Stamp ι)) (m : Msg ι) :
    (c.take x m).registration = c.registration := by
  unfold AppClient.take
  split <;> rfl

@[simp] theorem take_taken (x : Str) (c : AppClient (Stamp ι)) (m : Msg ι) :
    (c.take x m).taken = c.taken ++ [m] := by
  unfold AppClient.take
  split <;> rfl

/-- A client that takes messages goes on doing so. -/
theorem subscribed_take (x : Str) {c : AppClient (Stamp ι)} (m : Msg ι) (h : Subscribed c.pc) :
    Subscribed (c.take x m).pc := by
  rw [take_pc]
  split
  · exact Or.inr rfl
  · exact h

/-- **The step lemma.** -/
theorem Wf.step {s s' : Net ι} {l : NetLabel ι} (h : Wf cfg s) (hs : Moves cfg s l s') :
    Wf cfg s' := by
  cases hs with
  | @start i hpc =>
      refine h.updateClient ?_ (by simp) (by simp) (by simp) (by simp [Registered, Subscribed])
      simp [Subscribed, hpc]
  | @stop i hpc => exact h.stops i
  | @register i info hpc =>
      have hns : ¬ Subscribed (s.clients i).pc := by
        rw [hpc]
        rintro (h | h) <;> cases h
      have hpub : Wf cfg (s.publish (.client i) subscibersList (subscribeMsg (cfg.ip i) info)
          (.registration i)) := h.publish ⟨rfl, info, rfl⟩
      -- the number of the registration is the place it has just got
      have hup := hpub.updateClient (i := i)
        (c := { s.clients i with pc := .registered, registration := some s.history.length }) ?_
        (hpub.taken i) (fun _ _ => h.fresh i hns (by rw [hpc]; simp)) ?_ (fun _ => ⟨_, rfl⟩)
      · exact hup
      · exact iff_of_false (by simp [Subscribed]) hns
      · rintro n ⟨rfl⟩
        exact ⟨_, List.getElem?_concat_length, rfl⟩
  | subscribe hpc => exact h.clientSubscribes hpc
  | @take i m rest hq hpc =>
      have hsub : Subscribed ((s.clients i).take (cfg.ip i) m).pc := subscribed_take _ m hpc
      refine (h.pops (.client i)).updateClient (iff_of_true hsub hpc) ?_
        (fun hns => absurd hsub hns) ?_ ?_
      · intro m' hm'
        rw [take_taken] at hm'
        rcases List.mem_append.mp hm' with hold | hnew
        · exact h.taken i m' hold
        · rw [List.mem_singleton.mp hnew]
          exact h.queued (.client i) m (by rw [hq]; simp)
      · intro n hn
        rw [take_registration] at hn
        exact h.registration i n hn
      · intro _
        rw [take_registration]
        exact h.registered i (Or.inr hpc)
  | request hpc => exact h.publish rfl
  | serverSetups hup => exact h.setsUp
  | serverRestart => exact h.restarts
  | @consume m rest hup hq hl halive =>
      have hin : m ∈ s.history := h.queued .server m (by rw [hq]; simp)
      exact (h.srvStep hup (.consume hl) trivial (by rintro m' ⟨rfl⟩; exact hin)).pops .server
  | quiet hup halive hl hnn hacts hes =>
      exact h.srvStep hup hacts hnn fun m hm => absurd hm (hl m)
  | srvSubscribe hup halive hl =>
      exact (h.srvStep hup (.subscribed hl) trivial (by simp)).serverSubscribes hup _
  | @keySent c hup halive hl =>
      obtain ⟨m, i, -, -, hip⟩ := h.pending c (by rw [hl]; rfl)
      have hsrv := h.srvStep hup (.keySent hl) trivial (by simp)
      have hpub : Wf cfg ({ s with srv := { s.srv with loop := .storing c } }.publish .server c.ip
          cfg.server.publicKey .key) := hsrv.publish ⟨⟨i, hip⟩, rfl⟩
      exact hpub.ghosts _ _
  | exec hup halive hk =>
      exact (h.srvStep hup (.handler hk .exec) trivial (by simp)).ghosts _ _
  | reply hup halive hk =>
      obtain ⟨hp, hi, hpay⟩ := h.replyTopic hk
      have hsrv := h.srvStep hup (.handler hk .reply) trivial (by simp)
      exact hsrv.publish ⟨hi, _, _, rfl, hp, hpay⟩

end BupApp.Net
