/-
# BupApp.Network.AtMostOnce -- how often a request is executed

A request is published retained and the server subscribes to a client's channel at each of its
registrations, so a registration between a request and its reply brings the request back.  The file
counts, for a request, the copies on their way through the server and the commands run for it: they
are one at most as long as no subscription brings back a request that was delivered before.
-/
import BupApp.App.NetworkSteps

set_option linter.unusedSectionVars false

namespace BupApp.AtMostOnce

open BupApp.Lib.Transition BupApp.Lib.PubSub BupApp.Lib.PubSub.Broker Net
open Server (Acts HandlerMoves undispatched)

variable {ι : Type} [DecidableEq ι] {cfg : NetConfig ι}

/-! ## Requests and their commands -/

/-- The message was published by a client's `handleBackupRequest`. -/
def isRequest (m : Msg ι) : Bool :=
  match m.tag.origin with
  | .request _ => true
  | _ => false

/-- No publication of a backup path has caused more than one command. -/
def NoSecondCommand (s : Net ι) : Prop := ∀ m ∈ s.history, isRequest m = true → s.ran.count m.tag ≤ 1

/-- A handler reads the topic and the payload of the message it was spawned for. -/
def ReadsOwn (s : Net ι) : NetLabel ι → Prop
  | .server (.readTopic k) => ∀ h ∈ s.srv.threadPool[k]?, ∀ m ∈ s.srv.msgPtr, m.topic = h.msg.topic
  | .server (.readPayload k) =>
      ∀ h ∈ s.srv.threadPool[k]?, ∀ m ∈ s.srv.msgPtr, m.payload = h.msg.payload
  | _ => True

instance (s : Net ι) : ∀ l, Decidable (ReadsOwn s l)
  | .server (.readTopic k) => inferInstanceAs
      (Decidable (∀ h ∈ s.srv.threadPool[k]?, ∀ m ∈ s.srv.msgPtr, m.topic = h.msg.topic))
  | .server (.readPayload k) => inferInstanceAs
      (Decidable (∀ h ∈ s.srv.threadPool[k]?, ∀ m ∈ s.srv.msgPtr, m.payload = h.msg.payload))
  | .start _ | .stop _ | .register _ _ | .subscribe _ | .take _ | .request _ _ | .serverSetups
  | .serverRestart | .server (.consume _) | .server (.consumeNull _) | .server .dispatch
  | .server (.subscribe _) | .server (.publishKey _) | .server .store | .server (.lookup _)
  | .server (.exec _ _) | .server (.reply _ _) => isTrue trivial

/-! ## Where a request is -/

/-- The handler has not run its command yet. -/
def Pending : HandlerPc → Bool
  | .spawned | .topicRead _ | .pathRead _ _ | .cmndBuilt _ _ _ => true
  | .replyBuilt _ _ _ | .finished => false

/-- The copies of a message in the server process. -/
def inServer (srv : Server (Stamp ι)) (m : Msg ι) : Nat :=
  srv.undispatched.count m + srv.threadPool.countP fun h => h.msg = m && Pending h.pc

/-- The copies of a message on their way to a command, and the commands that were run for it. -/
def load (s : Net ι) (m : Msg ι) : Nat :=
  (s.broker.queue .server).count m + inServer s.srv m + s.ran.count m.tag

/-- The server was sent the message before: it waits in the queue, it is in the process, or its
command was run, by this process or an earlier one. -/
def Underway (s : Net ι) (m : Msg ι) : Prop :=
  m ∈ s.broker.queue .server ∨ 0 < inServer s.srv m ∨ m.tag ∈ s.ran

instance (s : Net ι) (m : Msg ι) : Decidable (Underway s m) :=
  inferInstanceAs (Decidable (_ ∨ _ ∨ _))

/-- The step is no subscription to a channel that retains a backup request the server was sent
before. -/
def NoResend (s : Net ι) : NetLabel ι → Prop
  | .server (.subscribe true) => ∀ c ∈ s.srv.loop.client?, ∀ m ∈ s.broker.kept c.ip,
      isRequest m = true → isBackupMsg m.payload = true → ¬ Underway s m
  | _ => True

instance (s : Net ι) : ∀ l, Decidable (NoResend s l)
  | .server (.subscribe true) => inferInstanceAs (Decidable (∀ c ∈ s.srv.loop.client?,
      ∀ m ∈ s.broker.kept c.ip, isRequest m = true → isBackupMsg m.payload = true → ¬ Underway s m))
  | .start _ | .stop _ | .register _ _ | .subscribe _ | .take _ | .request _ _ | .serverSetups
  | .serverRestart | .server (.consume _) | .server (.consumeNull _) | .server .dispatch
  | .server (.subscribe false) | .server (.publishKey _) | .server .store | .server (.readTopic _)
  | .server (.readPayload _) | .server (.lookup _) | .server (.exec _ _) | .server (.reply _ _) =>
      isTrue trivial

theorem load_eq_zero {s : Net ι} {m : Msg ι} (h : ¬ Underway s m) : load s m = 0 := by
  simp only [Underway, not_or, Nat.not_lt] at h
  obtain ⟨hq, hsrv, hran⟩ := h
  rw [load, List.count_eq_zero.mpr hq, List.count_eq_zero.mpr hran]
  omega

structure Inv (cfg : NetConfig ι) (s : Net ι) : Prop where
  wf : Wf cfg s
  /-- A handler holds the payload of its own message. -/
  own : ∀ h ∈ s.srv.threadPool, ∀ p, h.pc.path? = some p → p = h.msg.payload
  /-- Commands are run for backup paths. -/
  ran : ∀ t ∈ s.ran, ∃ m ∈ s.history, m.tag = t ∧ isBackupMsg m.payload = true
  once : ∀ m ∈ s.history, isRequest m = true → isBackupMsg m.payload = true → load s m ≤ 1

theorem Inv.noSecondCommand {s : Net ι} (h : Inv cfg s) : NoSecondCommand s := by
  intro m hm hreq
  by_cases hp : isBackupMsg m.payload = true
  · have hload := h.once m hm hreq hp
    rw [load] at hload
    omega
  · have hnone : m.tag ∉ s.ran := by
      intro hmem
      obtain ⟨m', hm', htag, hp'⟩ := h.ran m.tag hmem
      rw [h.wf.eq_of_no hm' hm (by rw [htag])] at hp'
      exact hp hp'
    rw [List.count_eq_zero.mpr hnone]
    omega

/-! ## What a step does to the copies -/

/-- A step of the process that neither consumes nor runs a command makes no copies. -/
theorem inServer_acts {srv srv' : Server (Stamp ι)} {l : Server.Label (Stamp ι)} {es : List Effect}
    (hacts : Acts cfg.server srv l srv' es) (hl : ∀ m, l ≠ .consume m) (hnn : l.nonNull)
    (m : Msg ι) : inServer srv' m ≤ inServer srv m := by
  cases hacts with
  | consume => exact absurd rfl (hl _)
  | nullReconnected | nullFailed | nullThrew => exact hnn.elim
  | register hloop hm | ignore hloop hm => simp [inServer, undispatched]
  | @spawn m' hloop hm ht hip =>
      -- the message that was received has a handler now
      have hone : List.count m [m'] = if m' = m then 1 else 0 := by simp [List.count_singleton]
      have hnew : List.countP (fun h : Handler (Stamp ι) => h.msg = m && Pending h.pc)
          [⟨m', .spawned⟩] = if m' = m then 1 else 0 := by
        by_cases hmm : m' = m <;> simp [hmm, Pending]
      simp only [inServer, undispatched, hloop, hm, List.countP_append, hnew, if_true, reduceCtorEq,
        if_false, List.count_nil, Option.toList_some, hone]
      omega
  | subscribed hloop | subscribeThrew hloop | keySent hloop | keyThrew hloop | stored hloop =>
      simp [inServer, undispatched, hloop]
  | @handler k l msg pc pc' es hk hmove =>
      have hcount := Server.countP_setPc hk pc' fun h => h.msg = m && Pending h.pc
      -- no step that runs no command makes a handler pending again
      have hpending : (msg = m && Pending pc') = true → (msg = m && Pending pc) = true := by
        intro hp
        simp only [Bool.and_eq_true] at hp ⊢
        refine ⟨hp.1, ?_⟩
        cases hmove <;> simp_all [Pending]
      have hsame : (srv.setPc k pc').undispatched = srv.undispatched := rfl
      rw [inServer, inServer, hsame]
      by_cases hp : (msg = m && Pending pc') = true
      · rw [if_pos hp, if_pos (hpending hp)] at hcount
        omega
      · rw [if_neg hp] at hcount
        omega
  | crashes => exact Nat.le_refl _

/-- A handler that reads its own message holds its payload. -/
theorem own_acts {s : Net ι} {l : Server.Label (Stamp ι)} {srv' : Server (Stamp ι)}
    {es : List Effect} (h : ∀ hd ∈ s.srv.threadPool, ∀ p, hd.pc.path? = some p → p = hd.msg.payload)
    (hacts : Acts cfg.server s.srv l srv' es) (hown : ReadsOwn s (.server l)) :
    ∀ hd ∈ srv'.threadPool, ∀ p, hd.pc.path? = some p → p = hd.msg.payload := by
  cases hacts with
  | @spawn m hloop hm ht hip =>
      intro hd hmem p hp
      rcases List.mem_append.mp hmem with hold | hnew
      · exact h hd hold p hp
      · rw [List.mem_singleton.mp hnew] at hp
        cases hp
  | @handler k l msg pc pc' es hk hmove =>
      intro hd hmem p hp
      rcases Server.mem_setPc hk hmem with rfl | hold
      · rcases hmove.path_from hp with hpc | ⟨m, hm, rfl⟩
        · exact h ⟨msg, pc⟩ (Server.mem_of_getElem? hk) p hpc
        · cases hmove with
          | readPayload hm' => exact hown ⟨msg, _⟩ hk m hm
          | readTopic | skip | reply => cases hp
          | build | exec => exact h _ (Server.mem_of_getElem? hk) _ hp
      · exact h hd hold p hp
  | _ => exact h

/-- The copy that a handler was for becomes its command. -/
theorem inServer_exec {srv : Server (Stamp ι)} {k : Nat} {msg : Msg ι} {t p : Str} {cmnd : Cmnd}
    (hk : srv.threadPool[k]? = some ⟨msg, .cmndBuilt t p cmnd⟩) (rc : Bool) (m : Msg ι) :
    inServer (srv.setPc k (.replyBuilt t p rc)) m + (if msg = m then 1 else 0) = inServer srv m := by
  have hcount := Server.countP_setPc hk (.replyBuilt t p rc) fun h => h.msg = m && Pending h.pc
  have hsame : (srv.setPc k (.replyBuilt t p rc)).undispatched = srv.undispatched := rfl
  have hbefore : (decide (msg = m) && Pending (.cmndBuilt t p cmnd)) = decide (msg = m) :=
    Bool.and_true _
  have hafter : (decide (msg = m) && Pending (.replyBuilt t p rc)) = false := Bool.and_false _
  simp only [hbefore, hafter, decide_eq_true_eq, Bool.false_eq_true, if_false] at hcount
  rw [inServer, inServer, hsame]
  omega

/-- A new publication is none of the old ones. -/
theorem published_ne {s : Net ι} (h : Wf cfg s) {m : Msg ι} (hm : m ∈ s.history) {t p : Str}
    {o : Origin ι} : (⟨t, p, ⟨o, s.history.length⟩⟩ : Msg ι) ≠ m := by
  rintro rfl
  exact Nat.lt_irrefl _ (h.no_lt hm)

/-- What was not published is nowhere. -/
theorem load_of_not_mem {s : Net ι} (h : Inv cfg s) {m : Msg ι} (hm : m ∉ s.history)
    (htag : ∀ m' ∈ s.history, m'.tag ≠ m.tag) : load s m = 0 := by
  refine load_eq_zero ?_
  rintro (hq | hsrv | hran)
  · exact hm (h.wf.queued .server m hq)
  · rw [inServer, Nat.add_pos_iff_pos_or_pos] at hsrv
    rcases hsrv with hund | hpool
    · have hmem : m ∈ s.srv.undispatched := List.count_pos_iff.mp hund
      unfold undispatched at hmem
      split at hmem
      · exact hm (h.wf.knows.msgPtr m (Option.mem_toList.mp hmem))
      · cases hmem
    · obtain ⟨hd, hhd, heq⟩ := List.countP_pos_iff.mp hpool
      simp only [Bool.and_eq_true, decide_eq_true_eq] at heq
      exact hm (heq.1 ▸ h.wf.knows.spawnedFor hd hhd)
  · obtain ⟨m', hm', heq, -⟩ := h.ran m.tag hran
    exact htag m' hm' heq

theorem Inv.publish {s : Net ι} (h : Inv cfg s) {src : Party ι} {t p : Str} {o : Origin ι}
    (hwf : Wf cfg (s.publish src t p o)) : Inv cfg (s.publish src t p o) := by
  refine ⟨hwf, h.own, ?_, ?_⟩
  · intro x hx
    obtain ⟨m, hm, hrest⟩ := h.ran x hx
    exact ⟨m, List.mem_append_left _ hm, hrest⟩
  · intro m hm hreq hp
    have hload : load (s.publish src t p o) m ≤
        load s m + if (⟨t, p, ⟨o, s.history.length⟩⟩ : Msg ι) = m then 1 else 0 := by
      have hone : ∀ x : Msg ι, List.count m [x] = if x = m then 1 else 0 := by
        intro x
        simp [List.count_singleton]
      simp only [load, Net.publish, queue_publish]
      split
      · rw [List.count_append, hone]
        omega
      · omega
    rcases List.mem_append.mp hm with hold | hnew
    · rw [if_neg (published_ne h.wf hold)] at hload
      exact Nat.le_trans hload (h.once m hold hreq hp)
    · obtain rfl := List.mem_singleton.mp hnew
      rw [if_pos rfl, load_of_not_mem h (fun hmem => published_ne h.wf hmem rfl) ?_] at hload
      · exact hload
      · intro m' hm' htag
        have hlt := h.wf.no_lt hm'
        rw [htag] at hlt
        exact Nat.lt_irrefl _ hlt

/-- Neither the server nor the history moves, and the queue gets no request. -/
theorem Inv.congr {s s' : Net ι} (h : Inv cfg s) (hwf : Wf cfg s') (hsrv : s'.srv = s.srv)
    (hran : s'.ran = s.ran) (hh : s'.history = s.history)
    (hq : ∀ m ∈ s.history, isRequest m = true →
      (s'.broker.queue .server).count m ≤ (s.broker.queue .server).count m) : Inv cfg s' := by
  refine ⟨hwf, by rw [hsrv]; exact h.own, by rw [hran, hh]; exact h.ran, ?_⟩
  intro m hm hreq hp
  rw [hh] at hm
  have hload := h.once m hm hreq hp
  have hcount := hq m hm hreq
  rw [load] at hload ⊢
  rw [hsrv, hran]
  omega

theorem load_acts {s : Net ι} {l : Server.Label (Stamp ι)} {srv' : Server (Stamp ι)}
    {es : List Effect} (hacts : Acts cfg.server s.srv l srv' es) (hl : ∀ m, l ≠ .consume m)
    (hnn : l.nonNull) (m : Msg ι) : load { s with srv := srv' } m ≤ load s m :=
  Nat.add_le_add_right (Nat.add_le_add_left (inServer_acts hacts hl hnn m) _) _

/-- A subscription adds what is offered. -/
theorem load_subscribeTo (s : Net ι) (t : Str) (m : Msg ι) :
    load (s.subscribeTo cfg .server t true) m =
      load s m + (s.broker.offered cfg.resendOwn .server t ⟨true⟩).count m := by
  have hqueue : ((s.subscribeTo cfg .server t true).broker.queue .server).count m =
      (s.broker.queue .server).count m +
        (s.broker.offered cfg.resendOwn .server t ⟨true⟩).count m := by
    rw [subscribeTo, queue_subscribe_self, List.count_append]
  have hsrv : (s.subscribeTo cfg .server t true).srv = s.srv := rfl
  have hran : (s.subscribeTo cfg .server t true).ran = s.ran := rfl
  rw [load, load, hqueue, hsrv, hran]
  omega

/-- A step of the process that runs no command. -/
theorem Inv.acts {s : Net ι} (h : Inv cfg s) (hup : s.up = true) {l : Server.Label (Stamp ι)}
    {srv' : Server (Stamp ι)} {es : List Effect} (hacts : Acts cfg.server s.srv l srv' es)
    (hnn : l.nonNull) (hl : ∀ m, l ≠ .consume m) (hown : ReadsOwn s (.server l)) :
    Inv cfg { s with srv := srv' } := by
  refine ⟨h.wf.srvStep hup hacts hnn fun m hm => absurd hm (hl m), ?_, h.ran, ?_⟩
  · exact own_acts h.own hacts hown
  · intro m hm hreq hp
    exact Nat.le_trans (load_acts hacts hl hnn m) (h.once m hm hreq hp)

theorem Inv.exec {s : Net ι} (h : Inv cfg s) (hup : s.up = true) {k : Nat} {msg : Msg ι}
    {t p : Str} {cmnd : Cmnd} (hk : s.srv.threadPool[k]? = some ⟨msg, .cmndBuilt t p cmnd⟩)
    (rc : Bool) :
    Inv cfg { s with srv := s.srv.setPc k (.replyBuilt t p rc), ran := s.ran ++ [msg.tag] } := by
  have hacts : Acts cfg.server s.srv (.exec k (some rc)) (s.srv.setPc k (.replyBuilt t p rc))
      [.execCmnd k t p cmnd] := .handler hk .exec
  have hmem : ⟨msg, .cmndBuilt t p cmnd⟩ ∈ s.srv.threadPool := Server.mem_of_getElem? hk
  have hmsg : msg ∈ s.history := h.wf.knows.spawnedFor _ hmem
  refine ⟨(h.wf.srvStep hup hacts trivial (by simp)).ghosts _ _, own_acts h.own hacts trivial, ?_, ?_⟩
  · intro x hx
    rcases List.mem_append.mp hx with hold | hnew
    · exact h.ran x hold
    · -- the command was built for the payload of the handler's own message
      obtain ⟨hp, -⟩ := h.wf.works _ hmem
      refine ⟨msg, hmsg, (List.mem_singleton.mp hnew).symm, ?_⟩
      rw [← h.own _ hmem p rfl]
      exact hp
  · intro m hm hreq hp
    have hload := h.once m hm hreq hp
    have hsrv := inServer_exec hk rc m
    have htag : List.count m.tag [msg.tag] = if msg = m then 1 else 0 := by
      by_cases hmm : msg = m
      · simp [hmm]
      · have hne : msg.tag ≠ m.tag := fun heq => hmm (h.wf.eq_of_no hmsg hm (by rw [heq]))
        simp [hmm, hne]
    rw [load] at hload ⊢
    show (s.broker.queue .server).count m + inServer (s.srv.setPc k (.replyBuilt t p rc)) m +
      (s.ran ++ [msg.tag]).count m.tag ≤ 1
    rw [List.count_append, htag]
    omega

/-- The head of the queue moves into the process. -/
theorem Inv.consume {s : Net ι} (h : Inv cfg s) {m : Msg ι} {rest : List (Msg ι)}
    (hq : s.broker.queue .server = m :: rest) (hl : s.srv.loop = .waiting)
    (hwf : Wf cfg { s with srv := { s.srv with msgPtr := some m, loop := .received }
                           broker := s.broker.pop .server }) :
    Inv cfg { s with srv := { s.srv with msgPtr := some m, loop := .received }
                     broker := s.broker.pop .server } := by
  refine ⟨hwf, h.own, h.ran, ?_⟩
  intro x hx hreq hp
  have hload := h.once x hx hreq hp
  have hcons : (m :: rest).count x = [m].count x + rest.count x := by
    rw [← List.count_append, List.singleton_append]
  rw [load, hq, hcons] at hload
  rw [load, queue_pop_self hq]
  simp only [inServer, undispatched, hl, if_true, Option.toList_some, reduceCtorEq, if_false,
    List.count_nil] at hload ⊢
  omega

/-- The broker offers the server no request it was sent before. -/
theorem Inv.srvSubscribe {s : Net ι} (h : Inv cfg s) (hup : s.up = true) {c : Client}
    (hloop : s.srv.loop = .subscribing c) (hno : NoResend s (.server (.subscribe true))) :
    Inv cfg ({ s with srv := { s.srv with loop := .sendingKey c } }.subscribeTo cfg .server c.ip
      true) := by
  have hacts : Acts cfg.server s.srv (.subscribe true) { s.srv with loop := .sendingKey c }
      [.subscribe c.ip] := .subscribed hloop
  have hmid : Inv cfg { s with srv := { s.srv with loop := .sendingKey c } } :=
    h.acts hup hacts trivial (by simp) trivial
  refine ⟨hmid.wf.serverSubscribes hup c.ip, hmid.own, hmid.ran, ?_⟩
  intro m hm hreq hp
  have hold := hmid.once m hm hreq hp
  rw [load_subscribeTo]
  show load { s with srv := { s.srv with loop := .sendingKey c } } m +
    (s.broker.offered cfg.resendOwn .server c.ip ⟨true⟩).count m ≤ 1
  by_cases hoff : m ∈ s.broker.offered cfg.resendOwn .server c.ip ⟨true⟩
  · -- what is offered was not delivered before, so this copy is the only one
    have hzero := load_eq_zero (hno c (by rw [hloop]; rfl) m (kept_of_mem_offered hoff) hreq hp)
    have hle : load { s with srv := { s.srv with loop := .sendingKey c } } m ≤ load s m :=
      load_acts hacts (by simp) trivial m
    have hone : (s.broker.offered cfg.resendOwn .server c.ip ⟨true⟩).count m ≤ 1 :=
      Nat.le_trans List.count_le_length (length_offered_le _ _ _ _)
    omega
  · rw [List.count_eq_zero.mpr hoff]
    exact hold

/-- **The step lemma.** -/
theorem Inv.step {s s' : Net ι} {l : NetLabel ι} (h : Inv cfg s) (hown : ReadsOwn s l)
    (hno : NoResend s l) (hs : Moves cfg s l s') : Inv cfg s' := by
  have hwf : Wf cfg s' := h.wf.step hs
  cases hs with
  | start => exact h.congr hwf rfl rfl rfl fun _ _ _ => Nat.le_refl _
  | stop =>
      refine h.congr hwf rfl rfl rfl fun m _ _ => ?_
      exact Nat.le_of_eq (by rw [queue_disconnect_of_ne (by simp)])
  | @register i info hpc =>
      have hpub : Inv cfg (s.publish (.client i) subscibersList (subscribeMsg (cfg.ip i) info)
          (.registration i)) := h.publish (h.wf.publish ⟨rfl, info, rfl⟩)
      exact hpub.congr hwf rfl rfl rfl fun _ _ _ => Nat.le_refl _
  | subscribe =>
      refine h.congr hwf rfl rfl rfl fun m _ _ => ?_
      exact Nat.le_of_eq (by rw [subscribeTo, queue_subscribe_of_ne (by simp)]; rfl)
  | take =>
      refine h.congr hwf rfl rfl rfl fun m _ _ => ?_
      exact Nat.le_of_eq (by rw [queue_pop_of_ne (by simp)])
  | request => exact h.publish hwf
  | serverSetups =>
      -- the public channel has no requests
      refine h.congr hwf rfl rfl rfl fun m hm hreq => ?_
      have hoff : m ∉ s.broker.offered cfg.resendOwn .server subscibersList ⟨true⟩ := by
        intro hoff
        obtain ⟨hm, ht⟩ := mem_of_lastOn ((h.wf.kept _).symm.trans (kept_of_mem_offered hoff))
        obtain ⟨i, -, ho, -⟩ := (h.wf.shape m hm).registration ht
        rw [isRequest, ho] at hreq
        cases hreq
      rw [subscribeTo, queue_subscribe_self, List.count_append]
      exact Nat.le_of_eq (by rw [List.count_eq_zero.mpr hoff]; rfl)
  | serverRestart =>
      -- what was on its way is lost; what was run stays run
      refine ⟨hwf, by simp [Server.start], h.ran, fun m hm hreq hp => ?_⟩
      have hload := h.once m hm hreq hp
      rw [load] at hload ⊢
      rw [queue_disconnect_self]
      show 0 + 0 + s.ran.count m.tag ≤ 1
      omega
  | consume hup hq hloop halive => exact h.consume hq hloop hwf
  | quiet hup halive hnc hnn hacts hes => exact h.acts hup hacts hnn hnc hown
  | srvSubscribe hup halive hloop => exact h.srvSubscribe hup hloop hno
  | @keySent c hup halive hloop =>
      have hacts := h.acts hup (.keySent hloop) trivial (by simp) trivial
      obtain ⟨m, i, -, -, hip⟩ := h.wf.pending c (by rw [hloop]; rfl)
      have hpub : Inv cfg ({ s with srv := { s.srv with loop := .storing c } }.publish .server c.ip
          cfg.server.publicKey .key) := hacts.publish (hacts.wf.publish ⟨⟨i, hip⟩, rfl⟩)
      exact hpub.congr hwf rfl rfl rfl fun _ _ _ => Nat.le_refl _
  | @exec k msg t p cmnd rc hup halive hk => exact h.exec hup hk rc
  | reply hup halive hk =>
      have hacts := h.acts hup (.handler hk .reply) trivial (by simp) trivial
      exact hacts.publish hwf

/-- **No request causes two commands in a run whose handlers read their own messages and whose
subscriptions bring back no request that was delivered before.** -/
theorem noSecondCommand_of_noResend {ls : List (NetLabel ι)}
    (hown : EachStep (step cfg) ReadsOwn init ls) (hno : EachStep (step cfg) NoResend init ls) :
    Always (step cfg) NoSecondCommand init ls :=
  always_of_eachStep (I := Inv cfg) (fun _ h => h.noSecondCommand)
    (fun _ _ _ h hl hs => h.step hl.1 hl.2 (step_moves hs))
    ⟨wf_init, by simp [init, Server.start], by simp [init], by simp [init]⟩ (hown.and hno)

/-- A request is executed, its handler has not replied and its client has stopped. -/
def executed : List (NetLabel Bool) :=
  firstSession ++ [.request true "~/notes".toList,
    .server (.consume ⟨pair.ip true, "~/notes".toList, ⟨.request true, 2⟩⟩),
    .server .dispatch, .server (.readTopic 0), .server (.readPayload 0), .server (.lookup 0),
    .server (.exec 0 (some true)), .stop true]

/-- The request is replied to before the client registers again: what its channel retains when the
server subscribes to it a second time is the reply.  Then it asks for the same path once more. -/
def asksTwice : List (NetLabel Bool) :=
  executed ++ [.server (.reply 0 true), .start true, .register true userInfo] ++
    handleRegistration true 4 ++ [.subscribe true, .take true, .request true "~/notes".toList,
    .server (.consume ⟨pair.ip true, "~/notes".toList, ⟨.request true, 6⟩⟩), .server .dispatch,
    .server (.readTopic 1), .server (.readPayload 1), .server (.lookup 1),
    .server (.exec 1 (some true))]

theorem noSecondCommand_asksTwice : ∃ s, exec (step pair) init asksTwice = some s ∧
    s.ran = [⟨.request true, 2⟩, ⟨.request true, 6⟩] ∧
    Always (step pair) NoSecondCommand init asksTwice := by
  obtain ⟨s, hs, hran⟩ : ∃ s, exec (step pair) init asksTwice = some s ∧
      s.ran = [⟨.request true, 2⟩, ⟨.request true, 6⟩] := exists_exec_of_any (by decide +kernel)
  exact ⟨s, hs, hran, noSecondCommand_of_noResend (by decide +kernel) (by decide +kernel)⟩

/-- The client registers again before the reply. -/
def registersAgain : List (NetLabel Bool) :=
  executed ++ [.start true, .register true userInfo] ++ handleRegistration true 3 ++
    [.server (.consume ⟨pair.ip true, "~/notes".toList, ⟨.request true, 2⟩⟩),
      .server .dispatch, .server (.readTopic 1), .server (.readPayload 1), .server (.lookup 1),
      .server (.exec 1 (some true))]

theorem executed_twice : ∃ s, exec (step pair) init registersAgain = some s ∧
    EachStep (step pair) ReadsOwn init registersAgain ∧
    s.ran = [⟨.request true, 2⟩, ⟨.request true, 2⟩] ∧ ¬ NoSecondCommand s := by
  obtain ⟨s, hs, hran, m, hm, hreq, hcount⟩ := exists_exec_of_any
    (P := fun s => s.ran = [⟨.request true, 2⟩, ⟨.request true, 2⟩] ∧
      ∃ m ∈ s.history, isRequest m = true ∧ ¬ s.ran.count m.tag ≤ 1)
    (show (exec (step pair) init registersAgain).any _ = true by decide +kernel)
  exact ⟨s, hs, by decide +kernel, hran, fun honce => hcount (honce m hm hreq)⟩

end BupApp.AtMostOnce
