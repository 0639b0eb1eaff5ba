/-
# BupApp.Network.Settles -- left alone, the server comes to rest

Nothing the server does gives it endless work: what it publishes is not sent back to it, and a
subscription offers it one retained message at most.  `work` counts the steps that are left, those
of `start_consuming` and of the library's thread in it included; every one of them takes one off.
When there is none, the server has ended, has lost its connection or has handled everything that was
there for it, but for what arrived in the middle of `start_consuming`.
-/
import Mathlib.Algebra.GroupWithZero.Nat
import Mathlib.Algebra.Order.BigOperators.Group.List
import Mathlib.Algebra.Order.Group.Nat
import BupApp.Network.Delivery

set_option linter.unusedSectionVars false

namespace BupApp.Settles

open BupApp.Lib.Text BupApp.Lib.Ipv4 BupApp.Lib.PubSub BupApp.Lib.PubSub.Broker
open BupApp.Lib.Transition Net
open Server (Acts HandlerMoves Crashes)

variable {ι τ : Type}

/-! ## What is left to do -/

/-- The steps a message on its way to the server costs.  It is delivered, taken and looked at; a
request has the five steps of its handler, and a registration the three of `handleNewSubscriber`
and, with the retained message of the new channel, those of one request. -/
def cost (m : Message τ) : Nat :=
  if m.topic = subscibersList then 14 else if isIP4 m.topic then 8 else 3

theorem three_le_cost (m : Message τ) : 3 ≤ cost m := by
  unfold cost
  split
  · omega
  · split <;> omega

theorem cost_of_isIP4 {m : Message τ} (h : isIP4 m.topic = true) : cost m = 8 := by
  have hne : m.topic ≠ subscibersList := by
    intro ht
    rw [ht, Server.isIP4_subscibersList] at h
    cases h
  rw [cost, if_neg hne, if_pos h]

/-- The steps the loop has to make before it waits again. -/
def loopWork (s : Server τ) : Nat :=
  match s.loop with
  | .received => (s.msgPtr.elim 3 cost) - 2
  | .subscribing _ => 11
  | .sendingKey _ => 2
  | .storing _ => 1
  | .waiting => 0
  | .left => 0

/-- The steps a handler has to make. -/
def handlerWork : HandlerPc → Nat
  | .spawned => 5
  | .topicRead _ => 4
  | .pathRead _ _ => 3
  | .cmndBuilt _ _ _ => 2
  | .replyBuilt _ _ _ => 1
  | .finished => 0

/-- The steps the threads of the server have to make. -/
def toDo (s : Server τ) : Nat := loopWork s + (s.threadPool.map fun h => handlerWork h.pc).sum

theorem handlerWork_le_toDo {s : Server τ} {h : Handler τ} (hh : h ∈ s.threadPool) :
    handlerWork h.pc ≤ toDo s := by
  have hsum := List.single_le_sum (l := s.threadPool.map fun h => handlerWork h.pc)
    (fun _ _ => Nat.zero_le _) _ (List.mem_map_of_mem hh)
  rw [toDo]
  omega

theorem toDo_setPc {s : Server τ} {k : Nat} {msg : Message τ} {pc : HandlerPc}
    (hk : s.threadPool[k]? = some ⟨msg, pc⟩) (pc' : HandlerPc) :
    toDo (s.setPc k pc') + handlerWork pc = toDo s + handlerWork pc' := by
  obtain ⟨hlt, hget⟩ := List.getElem?_eq_some_iff.mp hk
  have hpool : (s.setPc k pc').threadPool =
      s.threadPool.take k ++ ⟨msg, pc'⟩ :: s.threadPool.drop (k + 1) := by
    rw [Server.setPc, List.modify_eq_take_cons_drop hlt, hget]
  have hold : s.threadPool = s.threadPool.take k ++ ⟨msg, pc⟩ :: s.threadPool.drop (k + 1) := by
    rw [← hget, ← List.drop_eq_getElem_cons hlt, List.take_append_drop]
  have hloop : loopWork (s.setPc k pc') = loopWork s := rfl
  rw [toDo, toDo, hloop, hpool]
  conv_rhs => rw [hold]
  simp only [List.map_append, List.map_cons, List.sum_append, List.sum_cons]
  omega

/-! ## The server's own steps -/

theorem handlerWork_lt {cfg : Config} {s : Server τ} {k : Nat} {l : Server.Label τ}
    {pc pc' : HandlerPc} {es : List Effect} (h : HandlerMoves cfg s k l pc pc' es) :
    handlerWork pc' < handlerWork pc := by
  cases h <;> simp [handlerWork]

theorem toDo_handler {cfg : Config} {s : Server τ} {k : Nat} {l : Server.Label τ}
    {msg : Message τ} {pc pc' : HandlerPc} {es : List Effect}
    (hk : s.threadPool[k]? = some ⟨msg, pc⟩) (h : HandlerMoves cfg s k l pc pc' es) :
    toDo (s.setPc k pc') < toDo s := by
  have hsum := toDo_setPc hk pc'
  have hlt := handlerWork_lt h
  omega

/-- Only a thread that has something to do ends the process. -/
theorem toDo_of_crashes {s : Server τ} {l : Server.Label τ} {c : Crash} (h : Crashes s l c) :
    0 < toDo s := by
  have hpool : ∀ {k : Nat} {h : Handler τ}, s.threadPool[k]? = some h → 0 < handlerWork h.pc →
      0 < toDo s :=
    fun hk hpc => lt_of_lt_of_le hpc (handlerWork_le_toDo (List.mem_of_getElem? hk))
  cases h with
  | derefNull hl hm =>
      have hloop : loopWork s = 1 := by simp [loopWork, hl, hm]
      rw [toDo]
      omega
  | @noToken m hl hm =>
      have hloop : loopWork s = cost m - 2 := by simp [loopWork, hl, hm]
      have hcost := three_le_cost m
      rw [toDo]
      omega
  | readTopicNull hk | readPayloadNull hk | missed hk | popenFailed hk | replyThrew hk =>
      exact hpool hk (by simp [handlerWork])

/-- The loop moves on, the handlers stay. -/
theorem toDo_loop {s s' : Server τ} (hpool : s'.threadPool = s.threadPool) :
    toDo s' + loopWork s = toDo s + loopWork s' := by
  rw [toDo, toDo, hpool]
  omega

theorem toDo_loop_lt {s s' : Server τ} (hpool : s'.threadPool = s.threadPool)
    (h : loopWork s' < loopWork s) : toDo s' < toDo s := by
  have heq := toDo_loop hpool
  omega

/-- A step that consumes nothing and does not end the process. -/
theorem toDo_lt {cfg : Config} {s s' : Server τ} {l : Server.Label τ} {es : List Effect}
    (h : Acts cfg s l s' es) (hl : ∀ m, l ≠ .consume m) (hnn : l.nonNull)
    (halive : s'.crashed = none) : toDo s' < toDo s := by
  cases h with
  | consume => exact absurd rfl (hl _)
  | nullReconnected | nullFailed | nullThrew => exact hnn.elim
  | @register m c hloop hm ht hc =>
      refine toDo_loop_lt rfl ?_
      simp [loopWork, hloop, hm, cost, ht]
  | @spawn m hloop hm ht hip =>
      have hcost := cost_of_isIP4 hip
      simp only [toDo, loopWork, hloop, hm, Option.elim, hcost, List.map_append, List.sum_append,
        List.map_singleton, List.sum_singleton, handlerWork]
      omega
  | @ignore m hloop hm ht hip =>
      refine toDo_loop_lt rfl ?_
      have hcost := three_le_cost m
      simp only [loopWork, hloop, hm, Option.elim]
      omega
  | subscribed hloop | subscribeThrew hloop | keySent hloop | keyThrew hloop | stored hloop =>
      refine toDo_loop_lt rfl ?_
      simp [loopWork, hloop]
  | handler hk hmove => exact toDo_handler hk hmove
  | crashes hc => simp at halive

/-! ## Who can move -/

/-- A step of the loop or of a handler that takes no message. -/
def Moving (cfg : Config) (s : Server τ) : Prop :=
  ∃ l : Server.Label τ, (∀ m, l ≠ .consume m) ∧ l.nonNull ∧ (s.act cfg l).isSome

/-- Inside an iteration the loop can go on. -/
theorem moving_of_loop {cfg : Config} {s : Server τ} (halive : s.crashed = none)
    (hwaiting : s.loop ≠ .waiting) (hleft : s.loop ≠ .left) : Moving cfg s := by
  cases hl : s.loop with
  | waiting => exact absurd hl hwaiting
  | left => exact absurd hl hleft
  | received =>
      refine ⟨.dispatch, by simp, trivial, ?_⟩
      rw [Server.act_of_alive halive]
      cases hm : s.msgPtr with
      | none => simp [Server.perform, Server.dispatch, hl, hm]
      | some m =>
          simp only [Server.perform, Server.dispatch, hl, hm]
          split
          · rfl
          · split <;> rfl
  | subscribing c =>
      refine ⟨.subscribe true, by simp, trivial, ?_⟩
      simp [Server.act_of_alive halive, Server.perform, Server.subscribe, hl]
  | sendingKey c =>
      refine ⟨.publishKey true, by simp, trivial, ?_⟩
      simp [Server.act_of_alive halive, Server.perform, Server.publishKey, hl]
  | storing c =>
      refine ⟨.store, by simp, trivial, ?_⟩
      simp [Server.act_of_alive halive, Server.perform, Server.store, hl]

/-- A handler that has not finished can go on. -/
theorem moving_of_handler {cfg : Config} {s : Server τ} (halive : s.crashed = none) {k : Nat}
    {h : Handler τ} (hk : s.threadPool[k]? = some h) (hpc : h.pc ≠ .finished) : Moving cfg s := by
  have hget : s.threadPool[k]?.map Handler.pc = some h.pc := by rw [hk]; rfl
  cases hp : h.pc with
  | finished => exact absurd hp hpc
  | spawned =>
      refine ⟨.readTopic k, by simp, trivial, ?_⟩
      rw [Server.act_of_alive halive]
      cases hm : s.msgPtr <;> simp [Server.perform, Server.readTopic, hget, hp, hm]
  | topicRead t =>
      refine ⟨.readPayload k, by simp, trivial, ?_⟩
      rw [Server.act_of_alive halive]
      cases hm : s.msgPtr <;> simp [Server.perform, Server.readPayload, hget, hp, hm]
  | pathRead t p =>
      refine ⟨.lookup k, by simp, trivial, ?_⟩
      rw [Server.act_of_alive halive]
      simp only [Server.perform, Server.lookup, hget, hp]
      split
      · split <;> rfl
      · rfl
  | cmndBuilt t p cmnd =>
      refine ⟨.exec k none, by simp, trivial, ?_⟩
      simp [Server.act_of_alive halive, Server.perform, Server.exec, hget, hp]
  | replyBuilt t p rc =>
      refine ⟨.reply k true, by simp, trivial, ?_⟩
      simp [Server.act_of_alive halive, Server.perform, Server.reply, hget, hp]

/-! ## The server in the network -/

variable [DecidableEq ι] {cfg : NetConfig ι}

/-- What the server has to do when it has not ended, in `Net`. -/
def netWork (s : Net ι) : Nat := ((s.broker.queue .server).map cost).sum + toDo s.srv

/-- What a subscription of the server to a client's channel adds. -/
theorem cost_offered {s : Net ι} (hwf : Wf cfg s) {t : Str} (ht : isIP4 t = true) (r : Bool)
    (sub : Sub) : ((s.broker.offered r .server t sub).map cost).sum ≤ 8 := by
  have hlen := length_offered_le (b := s.broker) r .server t sub
  have hcost : ∀ m ∈ s.broker.offered r .server t sub, cost m = 8 := by
    intro m hm
    have hkept := hwf.kept t
    rw [kept_of_mem_offered hm] at hkept
    rw [cost_of_isIP4]
    rwa [(mem_of_lastOn hkept.symm).2]
  rcases Nat.le_one_iff_eq_zero_or_eq_one.mp hlen with hnone | hone
  · rw [List.length_eq_zero_iff.mp hnone]
    exact Nat.zero_le 8
  · obtain ⟨m, hoffered⟩ := List.length_eq_one_iff.mp hone
    rw [hoffered, List.map_singleton, List.sum_singleton]
    exact le_of_eq (hcost m (by simp [hoffered]))

/-- A message that is taken has been delivered and taken. -/
theorem netWork_consume {s s' : Net ι} {m : Msg ι} (hm : Moves cfg s (.server (.consume m)) s') :
    netWork s' + 2 = netWork s := by
  cases hm with
  | @consume _ rest hup hq hloop halive =>
      have hcost := three_le_cost m
      show (((s.broker.pop .server).queue .server).map cost).sum +
        toDo { s.srv with msgPtr := some m, loop := .received } + 2 = netWork s
      rw [netWork, queue_pop_self hq, hq, List.map_cons, List.sum_cons]
      simp only [toDo, loopWork, hloop, Option.elim]
      omega
  | quiet hup halive hl => exact absurd rfl (hl m)

/-- The other steps of the server, but for those that end it. -/
theorem netWork_lt {s s' : Net ι} {l : Server.Label (Stamp ι)} (hwf : Wf cfg s)
    (hm : Moves cfg s (.server l) s') (hl : ∀ m, l ≠ .consume m) (halive' : s'.srv.crashed = none) :
    netWork s' < netWork s := by
  cases hm with
  | consume => exact absurd rfl (hl _)
  | quiet hup halive hl hnn hacts hes =>
      exact Nat.add_lt_add_left (toDo_lt hacts hl hnn halive') _
  | @srvSubscribe c hup halive hloop =>
      obtain ⟨-, i, -, -, hip⟩ := hwf.pending c (by rw [hloop]; rfl)
      -- the subscription may bring one retained request, which is counted beforehand
      have hoffered := cost_offered hwf (t := c.ip)
        (by rw [hip]; exact inetPton_of_dottedQuad (cfg.quad i)) cfg.resendOwn ⟨true⟩
      have hdo : toDo { s.srv with loop := .sendingKey c } + loopWork s.srv = toDo s.srv + 2 :=
        toDo_loop rfl
      have hbefore : loopWork s.srv = 11 := by simp [loopWork, hloop]
      show (((s.broker.subscribe cfg.resendOwn .server c.ip ⟨true⟩).queue .server).map cost).sum +
        toDo { s.srv with loop := .sendingKey c } < _
      rw [netWork, queue_subscribe_self, List.map_append, List.sum_append]
      omega
  | @keySent c hup halive hloop =>
      have hdo : toDo { s.srv with loop := .storing c } < toDo s.srv :=
        toDo_loop_lt rfl (by simp [loopWork, hloop])
      show (((s.broker.publish .server c.ip _ _).queue .server).map cost).sum +
        toDo { s.srv with loop := .storing c } < _
      rw [queue_publish, hwf.forwards_server]
      exact Nat.add_lt_add_left hdo _
  | @exec k msg t p cmnd rc hup halive hk =>
      have hmove : HandlerMoves cfg.server s.srv k (.exec k (some rc)) (.cmndBuilt t p cmnd)
          (.replyBuilt t p rc) [.execCmnd k t p cmnd] := .exec
      exact Nat.add_lt_add_left (toDo_handler hk hmove) _
  | @reply k msg t p rc hup halive hk =>
      have hmove : HandlerMoves cfg.server s.srv k (.reply k true) (.replyBuilt t p rc) .finished
          [.reply k t (replyMsg p rc)] := .reply
      have hdo := toDo_handler hk hmove
      show (((s.broker.publish .server t _ _).queue .server).map cost).sum +
        toDo (s.srv.setPc k .finished) < _
      rw [queue_publish, hwf.forwards_server]
      exact Nat.add_lt_add_left hdo _

theorem moves_alive {s s' : Net ι} {l : Server.Label (Stamp ι)}
    (hm : Moves cfg s (.server l) s') : s.srv.crashed = none := by
  cases hm <;> assumption

/-- Who ends the server had something to do, and its queue stays. -/
theorem ending {s s' : Net ι} {l : Server.Label (Stamp ι)} (hm : Moves cfg s (.server l) s')
    (hend : s'.srv.crashed ≠ none) :
    0 < toDo s.srv ∧ s'.broker = s.broker ∧ ∀ m, l ≠ .consume m := by
  cases hm with
  | consume hup hq hloop halive => exact absurd halive hend
  | quiet hup halive hl hnn hacts hes =>
      refine ⟨?_, rfl, hl⟩
      cases hacts with
      | crashes hc => exact toDo_of_crashes hc
      | nullThrew => exact hnn.elim
      | _ => exact absurd halive hend
  | srvSubscribe hup halive => exact absurd halive hend
  | keySent hup halive => exact absurd halive hend
  | exec hup halive => exact absurd halive hend
  | reply hup halive => exact absurd halive hend

/-- What the server is to take is taken first, and in order. -/
theorem takes_queue_first {s s' : Net ι} {q got : List (Msg ι)} {l : Server.Label (Stamp ι)}
    (hwf : Wf cfg s) (hm : Moves cfg s (.server l) s')
    (h : q <+: got ++ s.broker.queue .server) :
    q <+: (got ++ Delivery.consumed [.server l]) ++ s'.broker.queue .server := by
  have hkeep : Delivery.consumed [.server l] = [] → q <+: got ++ s'.broker.queue .server →
      q <+: (got ++ Delivery.consumed [.server l]) ++ s'.broker.queue .server := by
    intro hnone hq
    rwa [hnone, List.append_nil]
  cases hm with
  | @consume m rest hup hq hloop halive =>
      show q <+: (got ++ [m]) ++ (s.broker.pop .server).queue .server
      rw [queue_pop_self hq, List.append_assoc]
      rwa [hq] at h
  | quiet hup halive hl =>
      refine hkeep ?_ h
      cases l with
      | consume m => exact absurd rfl (hl m)
      | _ => rfl
  | srvSubscribe hup halive hloop =>
      refine hkeep rfl (h.trans ?_)
      show got ++ _ <+: got ++ (s.broker.subscribe _ .server _ _).queue .server
      rw [queue_subscribe_self]
      exact (List.prefix_append_right_inj got).mpr (List.prefix_append _ _)
  | keySent =>
      refine hkeep rfl ?_
      show q <+: got ++ (s.broker.publish .server _ _ _).queue .server
      rwa [queue_publish, hwf.forwards_server]
  | exec => exact hkeep rfl h
  | reply =>
      refine hkeep rfl ?_
      show q <+: got ++ (s.broker.publish .server _ _ _).queue .server
      rwa [queue_publish, hwf.forwards_server]

/-- The same where messages are swallowed. -/
theorem passes_queue_first {s s' : Net ι} {q : List (Msg ι)} {hist : List (GapLabel ι)}
    {l : GapLabel ι} (hl : ∀ l', l = .net l' → ∃ l'', l' = .server l'') (hwf : Wf cfg s)
    (hunfed : Delivery.Unfed hist s) (hm : GapMoves cfg s l s')
    (h : q <+: Delivery.passed hist ++ s.broker.queue .server) :
    q <+: Delivery.passed (hist ++ [l]) ++ s'.broker.queue .server := by
  cases hm with
  | net hm =>
      obtain ⟨l', rfl⟩ := hl _ rfl
      rw [Delivery.passed_net]
      exact takes_queue_first hwf hm h
  | @swallow m rest hup hptr hq =>
      rw [hunfed.passed_swallow hup hptr]
      show q <+: (Delivery.passed hist ++ [m]) ++ (s.broker.pop .server).queue .server
      rw [queue_pop_self hq, List.append_assoc]
      rwa [hq] at h

/-! ## With the library -/

/-- A step of the server process, or of the library's thread in it. -/
def OfServer : LibLabel ι → Prop
  | .disable .server | .enable .server | .deliver .server => True
  | .process (.server _) => True
  | _ => False

instance : DecidablePred (OfServer (ι := ι))
  | .disable .server | .enable .server | .deliver .server => isTrue trivial
  | .process (.server _) => isTrue trivial
  | .disable (.client _) | .enable (.client _) | .deliver (.client _) => isFalse id
  | .lose _ => isFalse id
  | .process .serverSetups | .process .serverRestart => isFalse id
  | .process (.start _) | .process (.stop _) | .process (.register ..) => isFalse id
  | .process (.subscribe _) | .process (.take _) | .process (.request ..) => isFalse id

/-- What the server is to take: what is in its queue, and what is on its way. -/
def toTake (s : LibNet ι) : List (Msg ι) :=
  (s.que .server).filterMap id ++ s.net.broker.queue .server

/-- The halves of `start_consuming` that are left. -/
def startWork (s : LibNet ι) : Nat :=
  match s.callback .server with
  | .none => 2
  | .ignore => 1
  | .onMessageArrived => 0

/-- The steps of the server that are left when nobody else does anything; what is in its queue has
been delivered. -/
def work (s : LibNet ι) : Nat :=
  if s.net.srv.crashed = none then
    ((toTake s).map cost).sum - (s.que .server).length + toDo s.net.srv + startWork s
  else 0

/-- The server has handled everything. -/
structure Done (s : LibNet ι) : Prop where
  alive : s.net.srv.crashed = none
  consuming : s.consuming .server = true
  toTake : toTake s = []
  loop : s.net.srv.loop = .waiting
  handlers : ∀ h ∈ s.net.srv.threadPool, h.pc = .finished

instance (s : LibNet ι) : Decidable (Done s) :=
  decidable_of_iff (s.net.srv.crashed = none ∧ s.consuming .server = true ∧ toTake s = [] ∧
      s.net.srv.loop = .waiting ∧ ∀ h ∈ s.net.srv.threadPool, h.pc = .finished)
    ⟨fun h => ⟨h.1, h.2.1, h.2.2.1, h.2.2.2.1, h.2.2.2.2⟩,
      fun h => ⟨h.alive, h.consuming, h.toTake, h.loop, h.handlers⟩⟩

theorem startWork_of_consuming {s : LibNet ι} (h : s.consuming .server = true) :
    startWork s = 0 := by
  rw [startWork, show s.callback .server = .onMessageArrived from of_decide_eq_true h]

theorem work_of_alive {s : LibNet ι} (h : s.net.srv.crashed = none) :
    work s = ((toTake s).map cost).sum - (s.que .server).length + toDo s.net.srv + startWork s :=
  if_pos h

/-- A half of `start_consuming`. -/
theorem work_setCallback {s : LibNet ι} (h : s.net.srv.crashed = none)
    (c : LostConnection.ArrivedCallback) :
    work (s.setCallback .server c) + startWork s =
      work s + startWork (s.setCallback .server c) := by
  have htoDo : work (s.setCallback .server c) = ((toTake s).map cost).sum -
      (s.que .server).length + toDo s.net.srv + startWork (s.setCallback .server c) :=
    work_of_alive h
  rw [htoDo, work_of_alive h]
  omega

theorem Done.work {s : LibNet ι} (h : Done s) : work s = 0 := by
  have hhandlers : (s.net.srv.threadPool.map fun h => handlerWork h.pc).sum = 0 := by
    rw [List.sum_eq_zero_iff]
    intro n hn
    obtain ⟨x, hx, rfl⟩ := List.mem_map.mp hn
    rw [h.handlers x hx]
    rfl
  rw [work_of_alive h.alive, h.toTake, toDo, loopWork, h.loop, hhandlers,
    startWork_of_consuming h.consuming]
  exact Nat.zero_sub _

theorem length_le_cost (ms : List (Msg ι)) : 3 * ms.length ≤ (ms.map cost).sum := by
  induction ms with
  | nil => exact Nat.zero_le _
  | cons m ms ih =>
      have hcost := three_le_cost m
      rw [List.map_cons, List.sum_cons, List.length_cons]
      omega

/-- While the connection lasts, the server is to take what it is to take in `Net`. -/
theorem toTake_amounts {s : LibNet ι} {t : Net ι} (h : s.Amounts t)
    (hlost : s.lost .server = false) :
    toTake s = t.broker.queue .server ∧
      (toTake s).length = (s.que .server).length + (s.net.broker.queue .server).length := by
  obtain ⟨ms, hque, hqueue⟩ := h.2.here _ hlost
  have hmsgs : (s.que .server).filterMap id = ms := by
    rw [hque, List.filterMap_map]
    exact List.filterMap_some
  rw [toTake, hmsgs, hqueue, List.length_append, hque, List.length_map]
  exact ⟨rfl, rfl⟩

/-- The same for the count of what is left. -/
theorem work_amounts {s : LibNet ι} {t : Net ι} (h : s.Amounts t) (hlost : s.lost .server = false)
    (halive : s.net.srv.crashed = none) :
    work s + (s.que .server).length = netWork t + startWork s := by
  obtain ⟨hqueue, hlen⟩ := toTake_amounts h hlost
  have hle := length_le_cost (toTake s)
  have hsrv : t.srv = s.net.srv := by rw [h.1]
  rw [work_of_alive halive, netWork, ← hqueue, hsrv]
  omega

/-- Only a message that is taken leaves the queue. -/
theorem server_que {s s' : LibNet ι} {l : Server.Label (Stamp ι)}
    (hm : LibNet.Moves cfg s (.process (.server l)) s') (hnn : l.nonNull) :
    (∀ m, l = .consume m → s.que .server = some m :: s'.que .server) ∧
      ((∀ m, l ≠ .consume m) → s'.que = s.que) := by
  cases hm with
  | online hgoes => exact hgoes.elim
  | restart hk => cases hk
  | @consume m rest p h hq =>
      refine ⟨?_, fun hl => absurd rfl (hl m)⟩
      rintro _ ⟨⟩
      rw [hq]
      simp [LibNet.setQue]
  | consumeNull => exact hnn.elim
  | acts h hl => exact ⟨fun m hm => absurd hm (hl m), fun _ => rfl⟩

/-- A step of the server is taken while it is through `start_consuming`, and leaves the library as it
is. -/
theorem server_library {s s' : LibNet ι} {l : Server.Label (Stamp ι)}
    (hm : LibNet.Moves cfg s (.process (.server l)) s') :
    s.serving ∧ s'.lost = s.lost ∧ s'.callback = s.callback := by
  cases hm with
  | online hgoes => exact hgoes.elim
  | restart hk => cases hk
  | consume h | consumeNull h | acts h => exact ⟨h, rfl, rfl⟩

theorem running_server {s : LibNet ι} (h : s.running .server = true) :
    s.net.up = true ∧ s.net.srv.crashed = none := by
  simpa [LibNet.running] using h

theorem eq_server_of_ofServer {k : Party ι}
    (h : OfServer (.disable k) ∨ OfServer (.enable k) ∨ OfServer (.deliver k)) : k = .server := by
  cases k with
  | server => rfl
  | client i => rcases h with h | h | h <;> exact h.elim

theorem server_of_ofServer {l : NetLabel ι} (h : OfServer (.process l)) : ∃ l', l = .server l' := by
  cases l with
  | server l => exact ⟨l, rfl⟩
  | _ => exact h.elim

/-- What the steps of the server have in common. -/
structure ServerStep (s : LibNet ι) (l : LibLabel ι) (s' : LibNet ι) : Prop where
  up : s.net.up = true
  connected : s.lost .server = false
  lost : s'.lost = s.lost
  consuming : s.consuming .server = true →
    s'.consuming .server = true ∧ s.swallows l = []

theorem ofServer_step {s s' : LibNet ι} {l : LibLabel ι} (hl : OfServer l)
    (hm : LibNet.Moves cfg s l s') : ServerStep s l s' := by
  have hother : ∀ {c}, s.callback .server = c → c ≠ .onMessageArrived →
      s.consuming .server = true → s'.consuming .server = true ∧ s.swallows l = [] := by
    intro c hcall hc hcons
    exact absurd (hcall.symm.trans (of_decide_eq_true hcons)) hc
  cases l with
  | process l =>
      obtain ⟨l, rfl⟩ := server_of_ofServer hl
      obtain ⟨hserving, hlost, hcall⟩ := server_library hm
      refine ⟨hserving.1, hserving.2.1, hlost, fun hcons => ⟨?_, rfl⟩⟩
      rw [LibNet.consuming, hcall]
      exact hcons
  | lose => exact hl.elim
  | disable k =>
      obtain rfl := eq_server_of_ofServer (Or.inl hl)
      cases hm with
      | disable hlost hk hcall =>
          exact ⟨(running_server hk).1, hlost, rfl, hother hcall (by simp)⟩
  | enable k =>
      obtain rfl := eq_server_of_ofServer (Or.inr (Or.inl hl))
      cases hm with
      | enable hlost hk hcall =>
          exact ⟨(running_server hk).1, hlost, rfl, hother hcall (by simp)⟩
  | deliver k =>
      obtain rfl := eq_server_of_ofServer (Or.inr (Or.inr hl))
      cases hm with
      | swallow hlost hrun hcall =>
          exact ⟨(running_server hrun).1, hlost, rfl, hother hcall (by simp)⟩
      | arrive hlost hrun hcons =>
          have hcall : s.callback .server = .onMessageArrived := of_decide_eq_true hcons
          exact ⟨(running_server hrun).1, hlost, rfl,
            fun _ => ⟨hcons, by simp [LibNet.swallows, hcall]⟩⟩

theorem obs_ofServer {s : LibNet ι} {a : LibLabel ι} {l : NetLabel ι} (ha : OfServer a)
    (hl : .net l ∈ s.obs a) : ∃ l', l = .server l' := by
  cases a with
  | process a =>
      obtain ⟨a, rfl⟩ := server_of_ofServer ha
      obtain ⟨x, hx, hxl⟩ := List.mem_map.mp hl
      obtain rfl := GapLabel.net.inj hxl
      exact ⟨a, List.mem_singleton.mp hx⟩
  | disable | enable | deliver | lose =>
      obtain ⟨m, -, hm⟩ := List.mem_map.mp hl
      cases hm

/-- A message that is swallowed is one less; nothing has been taken yet. -/
theorem work_swallow_lt {s : LibNet ι} {m : Msg ι} {rest : List (Msg ι)}
    (halive : s.net.srv.crashed = none) (hnone : s.que .server = [])
    (hq : s.net.broker.queue .server = m :: rest) :
    work { s with net := { s.net with broker := s.net.broker.pop .server } } < work s := by
  have hcost := three_le_cost m
  have hbefore : toTake s = m :: rest := by rw [toTake, hnone, hq]; rfl
  have hafter : toTake ({ s with net := { s.net with broker := s.net.broker.pop .server } } :
      LibNet ι) = rest := by
    rw [toTake, hnone]
    exact queue_pop_self hq
  rw [work_of_alive halive, work_of_alive (by exact halive), hbefore, hafter, hnone,
    List.map_cons, List.sum_cons]
  show (rest.map cost).sum - 0 + toDo s.net.srv + startWork s <
    cost m + (rest.map cost).sum - 0 + toDo s.net.srv + startWork s
  omega

/-- A message that arrives has been delivered. -/
theorem work_arrive_lt {s : LibNet ι} {m : Msg ι} {rest : List (Msg ι)}
    (halive : s.net.srv.crashed = none) (hq : s.net.broker.queue .server = m :: rest)
    (hlen : (toTake s).length = (s.que .server).length + (s.net.broker.queue .server).length) :
    work { s.setQue .server (s.que .server ++ [some m]) with
      net := { s.net with broker := s.net.broker.pop .server } } < work s := by
  have hle := length_le_cost (toTake s)
  have hpop : (s.net.broker.pop .server).queue .server = rest := queue_pop_self hq
  have hsame : toTake ({ s.setQue .server (s.que .server ++ [some m]) with
      net := { s.net with broker := s.net.broker.pop .server } } : LibNet ι) = toTake s := by
    rw [toTake, toTake, hq]
    show ((s.setQue .server (s.que .server ++ [some m])).que .server).filterMap id ++
      (s.net.broker.pop .server).queue .server = _
    rw [hpop]
    simp [LibNet.setQue]
  rw [work_of_alive halive, work_of_alive (by exact halive), hsame]
  show ((toTake s).map cost).sum -
    ((s.setQue .server (s.que .server ++ [some m])).que .server).length + toDo s.net.srv +
      startWork s < _
  rw [LibNet.setQue_self, List.length_append, List.length_singleton]
  rw [hq, List.length_cons] at hlen
  omega

/-- A step of the loop or of a handler. -/
theorem work_server_lt {s s' : LibNet ι} {t : Net ι} {l : Server.Label (Stamp ι)}
    (h : LibNet.RunsAs cfg s t) (hs : s.step cfg (.process (.server l)) = some s') :
    work s' < work s := by
  have hm := LibNet.step_moves hs
  have hnn : l.nonNull := by
    cases l with
    | consumeNull r =>
        rw [LibNet.consumeNull_refused h.amounts r] at hs
        cases hs
    | _ => trivial
  obtain ⟨hconsume, hother⟩ := server_que hm hnn
  obtain ⟨⟨-, hlost, hcons⟩, hlost', hcall⟩ := server_library hm
  obtain ⟨t', ht', h'⟩ := (LibNet.simulates_net cfg).step s t _ s' h hs
  obtain ⟨t'', hstep, hnil⟩ := exec_cons_some.mp ht'
  obtain rfl := Option.some.inj hnil
  have hnet : Moves cfg t (.server l) t'' := step_moves hstep
  have hsrv : t.srv = s.net.srv := by rw [h.amounts.1]
  have hsrv' : t''.srv = s'.net.srv := by rw [h'.amounts.1]
  have halive : s.net.srv.crashed = none := hsrv ▸ moves_alive hnet
  have hwork := work_amounts h.amounts hlost halive
  by_cases hend : s'.net.srv.crashed = none
  · have hwork' := work_amounts h'.amounts (by rw [hlost', hlost]) hend
    have hstart : startWork s' = startWork s := by rw [startWork, hcall, startWork]
    cases l with
    | consume m =>
        have htaken := netWork_consume hnet
        have hque := congrArg List.length (hconsume m rfl)
        rw [List.length_cons] at hque
        omega
    | consumeNull r => exact hnn.elim
    | _ =>
        have hlt := netWork_lt h.wf hnet (by simp) (by rw [hsrv']; exact hend)
        rw [hother (by simp)] at hwork'
        omega
  · -- a server that ends has nothing left to do
    obtain ⟨hpos, -⟩ := ending hnet (by rw [hsrv']; exact hend)
    rw [hsrv] at hpos
    rw [work, if_neg hend, work_of_alive halive]
    omega

/-- **The step lemma.** -/
theorem work_lt {s s' : LibNet ι} {t : Net ι} {l : LibLabel ι} (h : LibNet.RunsAs cfg s t)
    (hl : OfServer l) (hs : s.step cfg l = some s') : work s' < work s := by
  have hm := LibNet.step_moves hs
  obtain ⟨-, hlen⟩ := toTake_amounts h.amounts (ofServer_step hl hm).connected
  cases l with
  | process l =>
      obtain ⟨l, rfl⟩ := server_of_ofServer hl
      exact work_server_lt h hs
  | lose => exact hl.elim
  | disable k =>
      obtain rfl := eq_server_of_ofServer (Or.inl hl)
      cases hm with
      | disable _ hk hcall =>
          have hwork := work_setCallback (running_server hk).2 .ignore
          have hstart : startWork (s.setCallback .server .ignore) = 1 := by
            simp [startWork, LibNet.setCallback]
          have hstart' : startWork s = 2 := by simp [startWork, hcall]
          omega
  | enable k =>
      obtain rfl := eq_server_of_ofServer (Or.inr (Or.inl hl))
      cases hm with
      | enable _ hk hcall =>
          have hwork := work_setCallback (running_server hk).2 .onMessageArrived
          have hstart : startWork (s.setCallback .server .onMessageArrived) = 0 := by
            simp [startWork, LibNet.setCallback]
          have hstart' : startWork s = 1 := by simp [startWork, hcall]
          omega
  | deliver k =>
      obtain rfl := eq_server_of_ofServer (Or.inr (Or.inr hl))
      cases hm with
      | swallow _ hrun hcall hq =>
          have hnone := (h.starts.server (by simp [LibNet.consuming, hcall])).2
          exact work_swallow_lt (running_server hrun).2 hnone hq
      | arrive _ hrun hcons hq => exact work_arrive_lt (running_server hrun).2 hq hlen

theorem step_of_moving {s : LibNet ι} (hup : s.net.up = true) (hlost : s.lost .server = false)
    (hcons : s.consuming .server = true) (h : Moving cfg.server s.net.srv) :
    ∃ l, s.step cfg (.process (.server l)) ≠ none := by
  obtain ⟨l, hl, hnn, hact⟩ := h
  obtain ⟨p, hp⟩ := Option.isSome_iff_exists.mp hact
  refine ⟨l, ?_⟩
  show s.server cfg l ≠ none
  cases l with
  | consume m => exact absurd rfl (hl m)
  | consumeNull r => exact hnn.elim
  | _ => simp [LibNet.server, hup, hlost, hcons, hp]

/-- A server that can make no step of `start_consuming` is through. -/
theorem consuming_of_stuck {s : LibNet ι} (hlost : s.lost .server = false)
    (hrun : s.running .server = true) (hstuck : ∀ l, OfServer l → s.step cfg l = none) :
    s.consuming .server = true := by
  cases hcall : s.callback .server with
  | none =>
      have hnone := hstuck (.disable .server) trivial
      simp [LibNet.step, LibNet.disable, LibNet.starting, hlost, hrun, hcall] at hnone
  | ignore =>
      have hnone := hstuck (.enable .server) trivial
      simp [LibNet.step, LibNet.enable, LibNet.starting, hlost, hrun, hcall] at hnone
  | onMessageArrived => simp [LibNet.consuming, hcall]

/-- Nothing is left to do exactly when the server is not up, has lost its connection, has ended or
has handled everything. -/
theorem stuck_iff {s : LibNet ι} {t : Net ι} (h : LibNet.RunsAs cfg s t)
    (hloop : s.net.srv.loop ≠ .left) :
    (∀ l, OfServer l → s.step cfg l = none) ↔
      s.net.up = false ∨ s.lost .server = true ∨ s.net.srv.crashed ≠ none ∨ Done s := by
  constructor
  · intro hstuck
    by_contra hnot
    simp only [not_or, Bool.not_eq_false, Bool.not_eq_true, not_not] at hnot
    obtain ⟨hup, hlost, halive, hdone⟩ := hnot
    -- it is through `start_consuming`; then nothing is on its way and no thread can move
    have hrun : s.running .server = true := by simp [LibNet.running, hup, halive]
    have hcons := consuming_of_stuck hlost hrun hstuck
    have hcall : s.callback .server = .onMessageArrived := of_decide_eq_true hcons
    have hqueue : s.net.broker.queue .server = [] := by
      cases hq : s.net.broker.queue .server with
      | nil => rfl
      | cons m rest =>
          have hnone := hstuck (.deliver .server) trivial
          simp [LibNet.step, LibNet.deliver, hlost, hrun, hcall, hq] at hnone
    have hrest : ¬ Moving cfg.server s.net.srv := by
      intro hmoving
      obtain ⟨l, hl⟩ := step_of_moving hup hlost hcons hmoving
      exact hl (hstuck _ trivial)
    have hwaiting : s.net.srv.loop = .waiting := by
      by_contra hl
      exact hrest (moving_of_loop halive hl hloop)
    refine hdone ⟨halive, hcons, ?_, hwaiting, ?_⟩
    · obtain ⟨ms, hque, -⟩ := h.amounts.2.here _ hlost
      cases ms with
      | nil => rw [toTake, hque, hqueue]; rfl
      | cons m ms =>
          have hnone := hstuck (.process (.server (.consume m))) trivial
          simp [LibNet.step, LibNet.server, hup, hlost, hcons, hque, Server.act_of_alive halive,
            Server.perform, Server.consume, hwaiting] at hnone
    · intro x hx
      by_contra hpc
      obtain ⟨k, hk⟩ := List.mem_iff_getElem?.mp hx
      exact hrest (moving_of_handler halive hk hpc)
  · intro hend l hl
    cases hs : s.step cfg l with
    | none => rfl
    | some s' =>
        exfalso
        -- the step would take one off what is nothing already
        have hlt := work_lt h hl hs
        have hstep := ofServer_step hl (LibNet.step_moves hs)
        rcases hend with hdown | hgone | hcrashed | hdone
        · rw [hstep.up] at hdown
          cases hdown
        · rw [hstep.connected] at hgone
          cases hgone
        · rw [work, work, if_neg hcrashed] at hlt
          exact Nat.not_lt_zero _ hlt
        · rw [hdone.work] at hlt
          exact Nat.not_lt_zero _ hlt

/-- Left alone, the server takes or swallows first what was there for it. -/
theorem taken_first {s t : LibNet ι} {ls : List (LibLabel ι)} {u : Net ι}
    (h : LibNet.RunsAs cfg s u) (hls : exec (LibNet.step cfg) s ls = some t)
    (hserver : ∀ l ∈ ls, OfServer l) (hlost : s.lost .server = false) :
    toTake s <+: observed (LibNet.step cfg) LibNet.swallows s ls ++ Delivery.served ls ++
      toTake t := by
  obtain ⟨v, hv, ht⟩ := (LibNet.simulates_net cfg).exec h hls
  have hlost' : t.lost .server = false :=
    inv_of_eachStep (C := fun _ l => OfServer l) (I := fun w : LibNet ι => w.lost .server = false)
      (fun _ _ _ hw hl hstep => by
        rw [(ofServer_step hl (LibNet.step_moves hstep)).lost]
        exact hw) hlost
      (EachStep.of_labels hserver s) hls
  -- what comes is put behind what was there, and what goes is taken from its front
  have hfirst : Wf cfg v ∧ Delivery.Unfed ([] ++ observed (LibNet.step cfg) LibNet.obs s ls) v ∧
      toTake s <+: Delivery.passed ([] ++ observed (LibNet.step cfg) LibNet.obs s ls) ++
        v.broker.queue .server := by
    refine inv_history (C := fun _ l => ∀ l', l = .net l' → ∃ l'', l' = .server l'')
      (I := fun hist w => Wf cfg w ∧ Delivery.Unfed hist w ∧
        toTake s <+: Delivery.passed hist ++ w.broker.queue .server) ?_
      ⟨h.wf, fun _ _ => rfl, ?_⟩ (EachStep.of_labels ?_ u) hv
    · rintro hist w l w' ⟨hwf, hunfed, hw⟩ hl hstep
      have hm := gapStep_moves hstep
      refine ⟨hwf.gapStep hm, hunfed.step hm ?_, passes_queue_first hl hwf hunfed hm hw⟩
      rintro rfl
      obtain ⟨l'', hl''⟩ := hl _ rfl
      cases hl''
    · rw [(toTake_amounts h.amounts hlost).1]
      exact List.prefix_refl _
    · rintro _ hl l' rfl
      obtain ⟨a, ha, w, hw⟩ := exists_of_mem_observed hl
      exact obs_ofServer (hserver a ha) hw
  have htaken := hfirst.2.2
  rwa [List.nil_append, Delivery.passed_observed hls, ← (toTake_amounts ht.amounts hlost').1]
    at htaken

/-- A server that is left alone behind `start_consuming` swallows nothing. -/
theorem swallows_nothing {s t : LibNet ι} {ls : List (LibLabel ι)}
    (hcons : s.consuming .server = true) (hls : exec (LibNet.step cfg) s ls = some t)
    (hserver : ∀ l ∈ ls, OfServer l) :
    observed (LibNet.step cfg) LibNet.swallows s ls = [] := by
  induction ls generalizing s with
  | nil => rfl
  | cons l ls ih =>
      obtain ⟨u, hu, hrest⟩ := exec_cons_some.mp hls
      obtain ⟨hcons', hnone⟩ :=
        (ofServer_step (hserver l List.mem_cons_self) (LibNet.step_moves hu)).consuming hcons
      rw [observed_cons_of_step hu, hnone, List.nil_append]
      exact ih hcons' hrest fun x hx => hserver x (List.mem_cons_of_mem _ hx)

/-- In every run: left alone, the server and its library make at most `work` more steps.  They can
make none exactly when the server is not up, has lost its connection, has ended or has handled
everything.  Then it has swallowed a first part of what was there for it and taken the rest, in
order, before anything else; it has taken all where it was through `start_consuming`. -/
theorem settles {pre ls : List (LibLabel ι)} {s t : LibNet ι}
    (hpre : exec (LibNet.step cfg) LibNet.init pre = some s)
    (hls : exec (LibNet.step cfg) s ls = some t) (hserver : ∀ l ∈ ls, OfServer l) :
    ls.length ≤ work s ∧
      ((∀ l, OfServer l → t.step cfg l = none) ↔
        t.net.up = false ∨ t.lost .server = true ∨ t.net.srv.crashed ≠ none ∨ Done t) ∧
      (s.lost .server = false → Done t →
        toTake s <+: observed (LibNet.step cfg) LibNet.swallows s ls ++ Delivery.served ls ∧
          (s.consuming .server = true →
            observed (LibNet.step cfg) LibNet.swallows s ls = [])) := by
  obtain ⟨u, hu, hs⟩ := (LibNet.simulates_net cfg).exec LibNet.init_runsAs hpre
  obtain ⟨v, hv, ht⟩ := (LibNet.simulates_net cfg).exec hs hls
  refine ⟨?_, stuck_iff ht ?_, ?_⟩
  · -- the step lemma is about related states, so the invariant is that there is one
    have hbound := length_add_le (C := fun _ l => OfServer l)
      (I := fun w : LibNet ι => ∃ x, LibNet.RunsAs cfg w x) (μ := work) ?_ ⟨u, hs⟩
      (EachStep.of_labels hserver s) hls
    · omega
    · rintro w l w' ⟨x, hw⟩ hl hstep
      obtain ⟨x', hx', hw'⟩ := (LibNet.simulates_net cfg).step w x l w' hw hstep
      exact ⟨⟨x', hw'⟩, work_lt hw hl hstep⟩
  · exact LibNet.loop_ne_left (exec_append_of hpre hls)
  · intro hlost hdone
    have htaken := taken_first hs hls hserver hlost
    rw [hdone.toTake, List.append_nil] at htaken
    exact ⟨htaken, fun hcons => swallows_nothing hcons hls hserver⟩

/-- The registration is on its way when the server is left alone. -/
theorem settles_keyArrived :
    ∃ s t, exec (LibNet.step pair) LibNet.init (LibNet.keyArrived.take 8) = some s ∧
      exec (LibNet.step pair) s ((LibNet.keyArrived.drop 8).take 6) = some t ∧
      6 ≤ work s ∧ (∀ l, OfServer l → t.step pair l = none) ∧
      toTake s <+: Delivery.served ((LibNet.keyArrived.drop 8).take 6) := by
  obtain ⟨s, hs, hlost, hcons, hrest⟩ : ∃ s,
      exec (LibNet.step pair) LibNet.init (LibNet.keyArrived.take 8) = some s ∧
        s.lost .server = false ∧ s.consuming .server = true ∧ (exec (LibNet.step pair) s
          ((LibNet.keyArrived.drop 8).take 6)).any (fun t => decide (Done t)) = true :=
    exists_exec_of_any (by decide +kernel)
  obtain ⟨t, ht, hdone⟩ := exists_exec_of_any hrest
  have hserver : ∀ l ∈ (LibNet.keyArrived.drop 8).take 6, OfServer l := by decide +kernel
  obtain ⟨hbound, hstuck, hend⟩ := settles hs ht hserver
  obtain ⟨htaken, hnone⟩ := hend hlost hdone
  rw [hnone hcons, List.nil_append] at htaken
  exact ⟨s, t, hs, ht, hbound, hstuck.mpr (Or.inr (Or.inr (Or.inr hdone))), htaken⟩

end BupApp.Settles
