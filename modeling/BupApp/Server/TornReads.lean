/-
# BupApp.Server.TornReads -- does a handler act on the message it was spawned for?

`handleBackupRequest` gets no copy of its message.  It reads the topic and then the payload through
`m_msgPtr`, which the loop assigns at every message it consumes.  `HandledAsItself` is what the
program needs: the handlers are the consumed requests, each holds the topic and the payload of its
own message, and each runs the command of that pair and replies to it exactly once.

It fails as soon as the loop consumes a different message before a handler has made both reads.  The
exact condition is a rule for the loop, `KeepsUnread`: never assign `m_msgPtr` while a handler has a
read to make, unless the new message agrees with the handler's in what it has not read yet.  Every
run that keeps the rule handles each request as itself; a run that breaks it can go on, by reads of
the running handlers alone, to a state in which one of them holds another message's text.
-/
import BupApp.App.ServerRuns

namespace BupApp.TornReads

open BupApp.Lib.Transition Server Logged

variable {τ : Type} {cfg : Config}

/-! ## Handling a request as itself -/

/-- Handler `k` ran exactly one command: the one of the topic and the payload of `m`. -/
def RanOnce (cfg : Config) (s : Logged τ) (k : Nat) (m : Message τ) : Prop :=
  ∃ c ∈ s.srv.clients, c.ip = m.topic ∧ commandsOf k s.log =
    [.execCmnd k m.topic m.payload (cmndFor cfg c m.topic m.payload)]

/-- Handler `k` published exactly one reply: to `m`, on the topic of `m`. -/
def RepliedOnce (s : Logged τ) (k : Nat) (m : Message τ) : Prop :=
  ∃ rc, repliesOf k s.log = [.reply k m.topic (replyMsg m.payload rc)]

/-- What handler `k` has done so far, for its own message. -/
def ActedFor (cfg : Config) (s : Logged τ) (k : Nat) (h : Handler τ) : Prop :=
  match h.pc with
  | .finished =>
      (isBackupMsg h.msg.payload = true ∧ RanOnce cfg s k h.msg ∧ RepliedOnce s k h.msg) ∨
        (isBackupMsg h.msg.payload = false ∧ Idle s k)
  | .replyBuilt _ _ _ => RanOnce cfg s k h.msg ∧ repliesOf k s.log = []
  | _ => Idle s k

/-- A handler holds nothing but the topic and the payload of its own message. -/
def HoldsOwn (h : Handler τ) : Prop :=
  (∀ t, h.pc.topic? = some t → t = h.msg.topic) ∧ ∀ p, h.pc.path? = some p → p = h.msg.payload

/-- After consuming `ms` every backup request is handled exactly once and as itself. -/
structure HandledAsItself (cfg : Config) (ms : List (Message τ)) (s : Logged τ) : Prop where
  /-- No request is dropped and none gets two handlers. -/
  spawned : Spawned ms s.srv
  /-- The pair a handler acts on is the pair of the message it was spawned for. -/
  own : ∀ h ∈ s.srv.threadPool, HoldsOwn h
  /-- A handler's commands and replies are those of its own message, and never two of them. -/
  acted : ∀ k h, s.srv.threadPool[k]? = some h → ActedFor cfg s k h
  /-- Nobody but the handlers runs commands and replies. -/
  nobodyElse : ∀ k, s.srv.threadPool.length ≤ k → Idle s k
  /-- Once the handlers are done, each request has its one command and its one reply. -/
  complete : s.srv.loop = .waiting → (∀ h ∈ s.srv.threadPool, h.pc = .finished) →
    ∀ (k : Nat) (m : Message τ), (requestsOf ms)[k]? = some m → isBackupMsg m.payload = true →
      RanOnce cfg s k m ∧ RepliedOnce s k m

/-- The server before its first message: no handler yet, any registry. -/
structure Fresh (s : Logged τ) : Prop where
  loop : s.srv.loop = .waiting
  pool : s.srv.threadPool = []
  alive : s.srv.crashed = none
  log : s.log = []

/-- The rule for the loop: an assignment to `m_msgPtr` leaves what running handlers still have to
read as it was. -/
def KeepsUnread (s : Logged τ) (l : Label τ) : Prop :=
  ∀ m, l = .consume m → ∀ h ∈ s.srv.threadPool,
    (h.pc = .spawned → m.topic = h.msg.topic ∧ m.payload = h.msg.payload) ∧
    ∀ t, h.pc = .topicRead t → m.payload = h.msg.payload

instance (pc : HandlerPc) (P : Prop) [Decidable P] : Decidable (∀ t, pc = .topicRead t → P) :=
  match pc with
  | .topicRead t => decidable_of_iff P ⟨fun h _ _ => h, fun h => h t rfl⟩
  | .spawned | .pathRead _ _ | .cmndBuilt _ _ _ | .replyBuilt _ _ _ | .finished =>
      isTrue fun _ => nofun

instance [DecidableEq τ] (s : Logged τ) : ∀ l, Decidable (KeepsUnread s l)
  | .consume m => decidable_of_iff (∀ h ∈ s.srv.threadPool,
      (h.pc = .spawned → m.topic = h.msg.topic ∧ m.payload = h.msg.payload) ∧
      ∀ t, h.pc = .topicRead t → m.payload = h.msg.payload)
      ⟨fun h _ hm => Server.Label.consume.inj hm ▸ h, fun h => h m rfl⟩
  | .consumeNull _ | .dispatch | .subscribe _ | .publishKey _ | .store | .readTopic _
  | .readPayload _ | .lookup _ | .exec _ _ | .reply _ _ => isTrue fun _ => nofun

/-! ## The invariant behind it -/

/-- What a handler still has to read is there to be read. -/
def Unread (msgPtr : Option (Message τ)) (h : Handler τ) : Prop :=
  (h.pc = .spawned → ∃ m, msgPtr = some m ∧ m.topic = h.msg.topic ∧ m.payload = h.msg.payload) ∧
  ∀ t, h.pc = .topicRead t → ∃ m, msgPtr = some m ∧ m.payload = h.msg.payload

/-- The invariant of the runs that keep the rule. -/
structure Inv (cfg : Config) (ms : List (Message τ)) (s : Logged τ) : Prop where
  spawned : Spawned ms s.srv
  own : ∀ h ∈ s.srv.threadPool, HoldsOwn h
  acted : PerHandler (ActedFor cfg) s
  unread : ∀ h ∈ s.srv.threadPool, Unread s.srv.msgPtr h
  works : HandlersWork cfg s.srv

theorem Inv.handledAsItself {ms : List (Message τ)} {s : Logged τ} (h : Inv cfg ms s) :
    HandledAsItself cfg ms s := by
  refine ⟨h.spawned, h.own, h.acted.here, h.acted.beyond, ?_⟩
  intro hl hdone k m hk hp
  -- the `k`-th request is the message of the `k`-th handler
  rw [← h.spawned.pool (by rw [hl]; simp), List.getElem?_map] at hk
  obtain ⟨hd, hhd, rfl⟩ := Option.map_eq_some_iff.mp hk
  have hacted : ActedFor cfg s k hd := h.acted.here k hd hhd
  rw [ActedFor, hdone hd (mem_of_getElem? hhd)] at hacted
  rcases hacted with ⟨-, hran, hreplied⟩ | ⟨hnot, -⟩
  · exact ⟨hran, hreplied⟩
  · rw [hp] at hnot
    cases hnot

theorem inv_fresh {s : Logged τ} (h : Fresh s) : Inv cfg [] s where
  spawned := ⟨[], by simp [undispatched, h.loop], by simp [h.pool, requestsOf]⟩
  own := by simp [h.pool]
  acted := ⟨by simp [h.pool], by simp [Idle, h.log, commandsOf, repliesOf]⟩
  unread := by simp [h.pool]
  works := by intro hd hh; rw [h.pool] at hh; cases hh

/-! ## The step lemma -/

theorem RanOnce.append {s s' : Logged τ} {k : Nat} {m : Message τ} {es : List Effect}
    (h : RanOnce cfg s k m) (hcl : s.srv.clients <+: s'.srv.clients) (hlog : s'.log = s.log ++ es)
    (hes : commandsOf k es = []) : RanOnce cfg s' k m := by
  obtain ⟨c, hc, hip, hran⟩ := h
  exact ⟨c, hcl.subset hc, hip, by rw [hlog, commandsOf_append, hran, hes, List.append_nil]⟩

theorem RepliedOnce.append {s s' : Logged τ} {k : Nat} {m : Message τ} {es : List Effect}
    (h : RepliedOnce s k m) (hlog : s'.log = s.log ++ es) (hes : repliesOf k es = []) :
    RepliedOnce s' k m := by
  obtain ⟨rc, hrep⟩ := h
  exact ⟨rc, by rw [hlog, repliesOf_append, hrep, hes, List.append_nil]⟩

/-- Effects of others change nothing about handler `k`. -/
theorem ActedFor.append {s s' : Logged τ} {k : Nat} {h : Handler τ} {es : List Effect}
    (hact : ActedFor cfg s k h) (hcl : s.srv.clients <+: s'.srv.clients)
    (hlog : s'.log = s.log ++ es) (hes : commandsOf k es = [] ∧ repliesOf k es = []) :
    ActedFor cfg s' k h := by
  unfold ActedFor at hact ⊢
  split at hact
  · rcases hact with ⟨hp, hran, hrep⟩ | ⟨hp, hidle⟩
    · exact Or.inl ⟨hp, hran.append hcl hlog hes.1, hrep.append hlog hes.2⟩
    · exact Or.inr ⟨hp, hidle.append hlog hes⟩
  · refine ⟨hact.1.append hcl hlog hes.1, ?_⟩
    rw [hlog, repliesOf_append, hact.2, hes.2]
    rfl
  · exact Idle.append hact hlog hes

/-- The step of a handler, seen by that handler. -/
theorem ActedFor.move {s s' : Logged τ} {k : Nat} {l : Label τ} {msg : Message τ}
    {pc pc' : HandlerPc} {es : List Effect} (hact : ActedFor cfg s k ⟨msg, pc⟩)
    (hmove : HandlerMoves cfg s.srv k l pc pc' es) (hown : HoldsOwn ⟨msg, pc⟩)
    (hworks : WorksForEntry cfg s.srv.clients pc) (hcl : s'.srv.clients = s.srv.clients)
    (hlog : s'.log = s.log ++ es) : ActedFor cfg s' k ⟨msg, pc'⟩ := by
  have hcl' : s.srv.clients <+: s'.srv.clients := by rw [hcl]
  cases hmove with
  | readTopic | readPayload | build => exact Idle.append hact hlog ⟨rfl, rfl⟩
  | @skip t p hp =>
      have hpath : p = msg.payload := hown.2 p rfl
      exact Or.inr ⟨hpath ▸ hp, Idle.append hact hlog ⟨rfl, rfl⟩⟩
  | @exec t p cmnd rc =>
      have htopic : t = msg.topic := hown.1 t rfl
      have hpath : p = msg.payload := hown.2 p rfl
      obtain ⟨hp, c, hc, hip, rfl⟩ := hworks
      subst htopic hpath
      refine ⟨⟨c, hcl'.subset hc, hip, ?_⟩, ?_⟩
      · rw [hlog, commandsOf_append, hact.1]
        simp [commandsOf]
      · rw [hlog, repliesOf_append, hact.2]
        rfl
  | @reply t p rc =>
      have htopic : t = msg.topic := hown.1 t rfl
      have hpath : p = msg.payload := hown.2 p rfl
      obtain ⟨hp, -⟩ := hworks
      subst htopic hpath
      refine Or.inl ⟨hp, hact.1.append hcl' hlog rfl, rc, ?_⟩
      rw [hlog, repliesOf_append, hact.2]
      simp [repliesOf]

/-- A handler that has its own message to read reads it. -/
theorem HoldsOwn.move {s : Server τ} {k : Nat} {l : Label τ} {msg : Message τ}
    {pc pc' : HandlerPc} {es : List Effect} (hmove : HandlerMoves cfg s k l pc pc' es)
    (hown : HoldsOwn ⟨msg, pc⟩) (hun : Unread s.msgPtr ⟨msg, pc⟩) : HoldsOwn ⟨msg, pc'⟩ := by
  cases hmove with
  | @readTopic m hm =>
      obtain ⟨m', hm', htopic, -⟩ := hun.1 rfl
      obtain rfl : m = m' := Option.some.inj (hm.symm.trans hm')
      exact ⟨fun t ht => (by cases ht; exact htopic), fun p hp => (by cases hp)⟩
  | @readPayload m t hm =>
      obtain ⟨m', hm', hpayload⟩ := hun.2 t rfl
      obtain rfl : m = m' := Option.some.inj (hm.symm.trans hm')
      exact ⟨hown.1, fun p hp => by cases hp; exact hpayload⟩
  | skip | reply => exact ⟨fun t ht => (by cases ht), fun p hp => (by cases hp)⟩
  | build | exec => exact hown

theorem Unread.move {s : Server τ} {k : Nat} {l : Label τ} {msg : Message τ}
    {pc pc' : HandlerPc} {es : List Effect} (hmove : HandlerMoves cfg s k l pc pc' es)
    (hun : Unread s.msgPtr ⟨msg, pc⟩) : Unread s.msgPtr ⟨msg, pc'⟩ := by
  cases hmove with
  | readTopic hm =>
      obtain ⟨m', hm', -, hpayload⟩ := hun.1 rfl
      exact ⟨by simp, fun t ht => ⟨m', hm', hpayload⟩⟩
  | _ => exact ⟨by simp, by simp⟩

/-- **The step lemma.** -/
theorem inv_step {ms : List (Message τ)} {s s' : Logged τ} {l : Label τ} (h : Inv cfg ms s)
    (hkeep : KeepsUnread s l ∧ l.nonNull) (hstep : step cfg s l = some s') :
    Inv cfg (ms ++ consumed [l]) s' := by
  obtain ⟨-, es, hacts, hlog⟩ := step_acts hstep
  have hcl : s.srv.clients <+: s'.srv.clients := hacts.clients_prefix
  have hspawned := h.spawned.step hacts hkeep.2
  have hworks := h.works.step hacts
  have hacted : PerHandler (ActedFor cfg) s' :=
    h.acted.step hacts hlog (fun k hd hes hact => hact.append hcl hlog hes)
      (fun k m hidle => hidle) fun k msg pc pc' hk hmove hsrv hact =>
        hact.move hmove (h.own _ (mem_of_getElem? hk)) (h.works _ (mem_of_getElem? hk))
          (by rw [hsrv]; rfl) hlog
  -- a step that leaves the handlers alone
  have hquiet : s'.srv.threadPool = s.srv.threadPool →
      (∀ hd ∈ s.srv.threadPool, Unread s'.srv.msgPtr hd) → Inv cfg (ms ++ consumed [l]) s' := by
    intro hpool hun
    exact ⟨hspawned, by rw [hpool]; exact h.own, hacted, by rw [hpool]; exact hun, hworks⟩
  generalize hsrv : s'.srv = srv' at hacts
  cases hacts with
  | @consume m hl =>
      refine hquiet (by rw [hsrv]) fun hd hh => ?_
      obtain ⟨hboth, hpayload⟩ := hkeep.1 m rfl hd hh
      rw [hsrv]
      exact ⟨fun hpc => ⟨m, rfl, hboth hpc⟩, fun t ht => ⟨m, rfl, hpayload t ht⟩⟩
  | nullReconnected | nullFailed | nullThrew => exact hkeep.2.elim
  | @spawn m hl hm ht hip =>
      have hmem : ∀ hd ∈ s'.srv.threadPool, hd ∈ s.srv.threadPool ∨ hd = ⟨m, .spawned⟩ := by
        intro hd hh
        rw [hsrv] at hh
        simpa using hh
      refine ⟨hspawned, ?_, hacted, ?_, hworks⟩
      · intro hd hh
        rcases hmem hd hh with hold | rfl
        · exact h.own hd hold
        · exact ⟨fun t ht => (by cases ht), fun p hp => (by cases hp)⟩
      · intro hd hh
        rw [hsrv]
        rcases hmem hd hh with hold | rfl
        · exact h.unread hd hold
        · exact ⟨fun _ => ⟨m, hm, rfl, rfl⟩, fun t ht => by cases ht⟩
  | @handler k l msg pc pc' es hk hmove =>
      have hmem : ⟨msg, pc⟩ ∈ s.srv.threadPool := mem_of_getElem? hk
      have hptr : s'.srv.msgPtr = s.srv.msgPtr := by rw [hsrv, setPc_msgPtr]
      refine ⟨hspawned, ?_, hacted, ?_, hworks⟩
      · intro hd hh
        rw [hsrv] at hh
        rcases mem_setPc hk hh with rfl | hold
        · exact HoldsOwn.move hmove (h.own _ hmem) (h.unread _ hmem)
        · exact h.own hd hold
      · intro hd hh
        rw [hsrv] at hh
        rw [hptr]
        rcases mem_setPc hk hh with rfl | hold
        · exact Unread.move hmove (h.unread _ hmem)
        · exact h.unread hd hold
  | crashes hc => exact hquiet (by rw [hsrv]; rfl) (by rw [hsrv]; exact h.unread)
  | _ => exact hquiet (by rw [hsrv]) (by rw [hsrv]; exact h.unread)

/-! ## The rule is exact -/

/-- A read step of a handler. -/
def IsRead (l : Label τ) : Prop := ∃ k, l = .readTopic k ∨ l = .readPayload k

/-- Along the run requests are handled as themselves: in every state it goes through, and in every
state that reads of the running handlers lead to from there. -/
def HandledThroughout (cfg : Config) (s₀ : Logged τ) (ls : List (Label τ)) : Prop :=
  ∀ pre post, ls = pre ++ post → ∀ rs : List (Label τ), (∀ r ∈ rs, IsRead r) →
    ∀ w, exec (step cfg) s₀ (pre ++ rs) = some w → HandledAsItself cfg (consumed pre) w

theorem consumed_reads {rs : List (Label τ)} (h : ∀ r ∈ rs, IsRead r) : consumed rs = [] := by
  rw [consumed, List.filterMap_eq_nil_iff]
  intro r hr
  obtain ⟨k, rfl | rfl⟩ := h r hr <;> rfl

/-- The reads that are left to handler `k` after a step that broke the rule. -/
theorem torn_of_broken {u v : Logged τ} {l : Label τ} (hstep : step cfg u l = some v)
    (hbroken : ¬ KeepsUnread u l) :
    ∃ rs : List (Label τ), (∀ r ∈ rs, IsRead r) ∧
      ∃ w, exec (step cfg) v rs = some w ∧ ∃ h ∈ w.srv.threadPool, ¬ HoldsOwn h := by
  simp only [KeepsUnread, not_forall, exists_prop] at hbroken
  obtain ⟨m, rfl, ⟨msg, pc⟩, hmem, hbad⟩ := hbroken
  obtain ⟨k, hk⟩ := List.mem_iff_getElem?.mp hmem
  obtain ⟨halive, es, hacts, -⟩ := step_acts hstep
  generalize hsrv : v.srv = srv at hacts
  cases hacts with
  | consume hl =>
      have hptr : v.srv.msgPtr = some m := by rw [hsrv]
      have hvk : v.srv.threadPool[k]? = some ⟨msg, pc⟩ := by rw [hsrv]; exact hk
      have hva : v.srv.crashed = none := by rw [hsrv]; exact halive
      cases pc with
      | spawned =>
          -- both reads are left: the handler ends with the pair of `m`
          have h₁ : step cfg v (.readTopic k) =
              some ⟨v.srv.setPc k (.topicRead m.topic), v.log ++ []⟩ :=
            step_of_perform hva (by simp [perform, readTopic, hvk, hptr])
          have hk₁ := setPc_getElem?_self hvk (.topicRead m.topic)
          have h₂ : step cfg ⟨v.srv.setPc k (.topicRead m.topic), v.log ++ []⟩ (.readPayload k) =
              some ⟨(v.srv.setPc k (.topicRead m.topic)).setPc k (.pathRead m.topic m.payload),
                (v.log ++ []) ++ []⟩ :=
            step_of_perform hva (by simp [perform, readPayload, hk₁, hptr])
          have hk₂ := setPc_getElem?_self hk₁ (.pathRead m.topic m.payload)
          refine ⟨[.readTopic k, .readPayload k], by simp [IsRead], _,
            by rw [exec_cons_of_step h₁, exec_cons_of_step h₂, exec_nil],
            ⟨msg, .pathRead m.topic m.payload⟩, mem_of_getElem? hk₂, ?_⟩
          rintro ⟨htopic, hpath⟩
          exact hbad ⟨fun _ => ⟨htopic m.topic rfl, hpath m.payload rfl⟩, by simp⟩
      | topicRead t =>
          have hpayload : m.payload ≠ msg.payload := by
            intro heq
            exact hbad ⟨by simp, fun _ _ => heq⟩
          have h₁ : step cfg v (.readPayload k) =
              some ⟨v.srv.setPc k (.pathRead t m.payload), v.log ++ []⟩ :=
            step_of_perform hva (by simp [perform, readPayload, hvk, hptr])
          have hk₁ := setPc_getElem?_self hvk (.pathRead t m.payload)
          refine ⟨[.readPayload k], by simp [IsRead], _,
            by rw [exec_cons_of_step h₁, exec_nil],
            ⟨msg, .pathRead t m.payload⟩, mem_of_getElem? hk₁, ?_⟩
          rintro ⟨-, hpath⟩
          exact hpayload (hpath m.payload rfl)
      | _ => exact (hbad ⟨by simp, by simp⟩).elim
  | handler hk hmove => cases hmove
  | crashes hc => cases hc

/-- **Requests are handled as themselves exactly in the runs that keep the rule.** -/
theorem handledThroughout_iff_keepsUnread {s₀ s : Logged τ} {ls : List (Label τ)} (h₀ : Fresh s₀)
    (hnn : ∀ l ∈ ls, l.nonNull) (hrun : exec (step cfg) s₀ ls = some s) :
    HandledThroughout cfg s₀ ls ↔ EachStep (step cfg) KeepsUnread s₀ ls := by
  constructor
  · intro hall
    by_contra hnot
    obtain ⟨pre, l, post, u, v, rfl, hpre, -, hstep, hbroken⟩ := exists_first_violation hrun hnot
    obtain ⟨rs, hrs, w, hw, hd, hmem, htorn⟩ := torn_of_broken hstep hbroken
    have hexec : exec (step cfg) s₀ ((pre ++ [l]) ++ rs) = some w :=
      exec_append_of (exec_snoc_some.mpr ⟨u, hpre, hstep⟩) hw
    exact htorn ((hall (pre ++ [l]) post (by simp) rs hrs w hexec).own hd hmem)
  · rintro hkeep pre post rfl rs hrs w hw
    have hreads : EachStep (step cfg) KeepsUnread s₀ (pre ++ rs) := by
      obtain ⟨u, hu, -⟩ := exec_append_some.mp hw
      have hnone : ∀ r ∈ rs, ∀ m, r ≠ .consume m := by
        intro r hr m
        obtain ⟨k, rfl | rfl⟩ := hrs r hr <;> simp
      have hrest : EachStep (step cfg) KeepsUnread u rs :=
        (EachStep.of_labels hnone u).mono fun u' l hl m hm => absurd hm (hl m)
      exact hkeep.left.append hu hrest
    have hnull : ∀ l ∈ pre ++ rs, l.nonNull := by
      intro l hl
      rcases List.mem_append.mp hl with hl | hl
      · exact hnn l (List.mem_append_left post hl)
      · obtain ⟨k, rfl | rfl⟩ := hrs l hl <;> trivial
    have hinv : Inv cfg (consumed ([] ++ (pre ++ rs))) w :=
      inv_history (I := fun hist s => Inv cfg (consumed hist) s)
        (fun hist s l s' hI hC hs => by rw [consumed_append]; exact inv_step hI hC hs)
        (inv_fresh h₀) (hreads.and (EachStep.of_labels hnull s₀)) hw
    rw [List.nil_append, consumed_append, consumed_reads hrs, List.append_nil] at hinv
    exact hinv.handledAsItself

/-! ## Runs -/

section Runs

/-- Two hosts of the demonstration registry. -/
def hostA : Str := "10.0.0.2".toList
def hostB : Str := "10.0.0.3".toList

/-- The server once the two hosts are registered. -/
def demoStart : Logged Unit :=
  ⟨{ Server.start with clients :=
      [⟨hostA, "ann".toList, [], backupTarget hostA⟩, ⟨hostB, "bob".toList, [], backupTarget hostB⟩] },
    []⟩

def msgA : Message Unit := ⟨hostA, "~/a".toList, ()⟩
def msgB : Message Unit := ⟨hostB, "~/b".toList, ()⟩

theorem demoStart_fresh : Fresh demoStart := ⟨rfl, rfl, rfl, rfl⟩

/-- The second message arrives between the two reads of the first handler, which goes on with the
host of one message and the path of the other. -/
def tornRun : List (Label Unit) :=
  [.consume msgA, .dispatch, .readTopic 0, .consume msgB, .dispatch, .readPayload 0, .lookup 0,
    .exec 0 (some true)]

/-- Where `tornRun` ends. -/
def tornEnd : Logged Unit :=
  ⟨{ demoStart.srv with
      msgPtr := some msgB
      threadPool := [⟨msgA, .replyBuilt hostA "~/b".toList true⟩, ⟨msgB, .spawned⟩] },
    [.execCmnd 0 hostA "~/b".toList
      (.scp "ann".toList hostA "~/b".toList (backupTarget hostA))]⟩

theorem tornRun_ends : exec (step lanCfg) demoStart tornRun = some tornEnd := by decide +kernel

/-- Ann's host is asked for the path that Bob's host requested. -/
theorem requests_not_handled_as_themselves :
    ¬ ∀ (cfg : Config) (s₀ s : Logged Unit) (ls : List (Label Unit)), Fresh s₀ →
      (∀ m ∈ consumed ls, isIP4 m.topic = true) → (∀ l ∈ ls, l.nonNull) →
      exec (step cfg) s₀ ls = some s → HandledAsItself cfg (consumed ls) s := by
  intro hall
  have hself := hall lanCfg demoStart tornEnd tornRun demoStart_fresh (by decide)
    (by simp [tornRun, Label.nonNull]) tornRun_ends
  have hpath := (hself.own ⟨msgA, .replyBuilt hostA "~/b".toList true⟩ (by simp [tornEnd])).2
    "~/b".toList rfl
  exact absurd hpath (by decide)

/-- The second message is consumed when the first one has been read, and before its handler is
through. -/
def calmRun : List (Label Unit) :=
  [.consume msgA, .dispatch, .readTopic 0, .readPayload 0, .consume msgB, .dispatch, .lookup 0,
    .readTopic 1, .readPayload 1, .lookup 1, .exec 1 (some true), .exec 0 (some true),
    .reply 0 true, .reply 1 true]

theorem calmRun_handledThroughout : ∃ s, exec (step lanCfg) demoStart calmRun = some s ∧
    HandledThroughout lanCfg demoStart calmRun := by
  obtain ⟨s, hs, -⟩ := exists_exec_of_any (P := fun _ : Logged Unit => True)
    (show (exec (step lanCfg) demoStart calmRun).any _ = true by decide +kernel)
  exact ⟨s, hs, (handledThroughout_iff_keepsUnread demoStart_fresh
    (by simp [calmRun, Label.nonNull]) hs).mpr (by decide +kernel)⟩

end Runs

end BupApp.TornReads
