/-
# BupApp.Network.Replies -- is every request answered?

A request goes from its client to the broker, into the library's queue of the server, through the
loop to a handler thread of its own, and its reply goes back.  The handlers run side by side, and
what the server takes is mixed with registrations and with messages a subscription brings back.

The server's account of a session is the list of the messages it has taken, its handlers, and the
replies that were published.  As long as each handler reads the message it was spawned for, the
replies are those of the handlers that have finished, one each, in the order in which they have.
-/
import BupApp.Network.AtMostOnce
import BupApp.Network.Delivery
import BupApp.Network.Settles
import BupApp.Server.TornReads
import Mathlib.Data.List.Forall2

set_option linter.unusedSectionVars false

namespace BupApp.Replies

open BupApp.Lib.Text BupApp.Lib.PubSub BupApp.Lib.PubSub.Broker Net
open BupApp.Lib.Transition (exec EachStep observed exists_of_mem_observed inv_history
  exec_nil exec_cons_some exists_exec_of_any)
open Server (Acts HandlerMoves HandlersWork Spawned requestsOf)
open TornReads (HoldsOwn)
open AtMostOnce (ReadsOwn)

variable {ι : Type} [DecidableEq ι] {cfg : NetConfig ι}

/-! ## Requests and replies -/

/-- The messages for which `handleBackupRequest` runs a command. -/
def requests (ms : List (Msg ι)) : List (Msg ι) :=
  (requestsOf ms).filter fun m => isBackupMsg m.payload

/-- The replies behind the first `n` publications. -/
def repliesSince (hist : List (Msg ι)) (n : Nat) : List (Msg ι) :=
  (hist.drop n).filter (·.tag.origin = .reply)

/-- The reply is to this request: on its channel and about its path. -/
def Answers (m r : Msg ι) : Prop := r.topic = m.topic ∧ ∃ rc, r.payload = replyMsg m.payload rc

/-- The handler has published its reply. -/
def replied (h : Handler (Stamp ι)) : Bool := h.pc = .finished && isBackupMsg h.msg.payload

/-- The requests whose handlers have published their replies. -/
def answered (srv : Server (Stamp ι)) : List (Msg ι) :=
  (srv.threadPool.filter replied).map Handler.msg

theorem repliesSince_append {hist : List (Msg ι)} {n : Nat} (hn : n ≤ hist.length) (m : Msg ι) :
    repliesSince (hist ++ [m]) n =
      repliesSince hist n ++ if m.tag.origin = .reply then [m] else [] := by
  rw [repliesSince, List.drop_append_of_le_length hn, List.filter_append, repliesSince]
  by_cases hm : m.tag.origin = .reply
  · simp [hm]
  · simp [hm]

theorem count_answered (srv : Server (Stamp ι)) (m : Msg ι) :
    (answered srv).count m = srv.threadPool.countP fun h => replied h && h.msg = m := by
  rw [answered, List.count_eq_countP, List.countP_map, List.countP_filter]
  refine List.countP_congr fun h _ => ?_
  simp only [Function.comp, Bool.and_eq_true, beq_iff_eq, decide_eq_true_eq]
  exact and_comm

/-- A handler that moves without a reply. -/
theorem answered_setPc {srv : Server (Stamp ι)} {k : Nat} {msg : Msg ι} {pc pc' : HandlerPc}
    (hk : srv.threadPool[k]? = some ⟨msg, pc⟩)
    (hsame : replied ⟨msg, pc'⟩ = replied ⟨msg, pc⟩) :
    (answered (srv.setPc k pc')).Perm (answered srv) := by
  rw [List.perm_iff_count]
  intro m
  have hcount := Server.countP_setPc hk pc' fun h => replied h && h.msg = m
  simp only [hsame] at hcount
  rw [count_answered, count_answered]
  omega

/-- A handler that publishes its reply. -/
theorem answered_finish {srv : Server (Stamp ι)} {k : Nat} {msg : Msg ι} {pc : HandlerPc}
    (hk : srv.threadPool[k]? = some ⟨msg, pc⟩) (hpc : pc ≠ .finished)
    (hp : isBackupMsg msg.payload = true) :
    (answered (srv.setPc k .finished)).Perm (answered srv ++ [msg]) := by
  rw [List.perm_iff_count]
  intro m
  have hcount := Server.countP_setPc hk .finished fun h => replied h && h.msg = m
  have hbefore : (replied ⟨msg, pc⟩ && decide (msg = m)) = false := by simp [replied, hpc]
  have hafter : (replied ⟨msg, .finished⟩ && decide (msg = m)) = decide (msg = m) := by
    simp [replied, hp]
  simp only [hbefore, hafter] at hcount
  rw [count_answered, List.count_append, count_answered, List.count_singleton]
  simp only [Bool.false_eq_true, if_false, beq_iff_eq, decide_eq_true_eq] at hcount ⊢
  omega

/-! ## The server's account -/

/-- The server has taken `got` and published the replies `rs`. -/
structure Account (got : List (Msg ι)) (srv : Server (Stamp ι)) (rs : List (Msg ι)) : Prop where
  spawned : Spawned got srv
  own : ∀ h ∈ srv.threadPool, HoldsOwn h
  /-- `order` is that in which the handlers have finished. -/
  replies : ∃ order, order.Perm (answered srv) ∧ List.Forall₂ Answers order rs

theorem Account.start : Account ([] : List (Msg ι)) Server.start [] where
  spawned := ⟨[], rfl, rfl⟩
  own := by simp [Server.start]
  replies := ⟨[], List.Perm.refl _, .nil⟩

theorem Account.congr {got : List (Msg ι)} {srv srv' : Server (Stamp ι)} {rs : List (Msg ι)}
    (h : Account got srv rs) {got' : List (Msg ι)} (hspawned : Spawned got' srv')
    (hpool : srv'.threadPool = srv.threadPool) : Account got' srv' rs where
  spawned := hspawned
  own := by
    rw [hpool]
    exact h.own
  replies := by
    rw [answered, hpool]
    exact h.replies

/-- What a handler reads is its own. -/
theorem holdsOwn_moves {s : Net ι} {k : Nat} {l : Server.Label (Stamp ι)} {msg : Msg ι}
    {pc pc' : HandlerPc} {es : List Effect} (hk : s.srv.threadPool[k]? = some ⟨msg, pc⟩)
    (hmove : HandlerMoves cfg.server s.srv k l pc pc' es) (hown : HoldsOwn ⟨msg, pc⟩)
    (hreads : ReadsOwn s (.server l)) : HoldsOwn (⟨msg, pc'⟩ : Handler (Stamp ι)) := by
  cases hmove with
  | @readTopic m hm =>
      have htopic : m.topic = msg.topic := hreads _ hk m hm
      exact ⟨fun t ht => (by cases ht; exact htopic), fun p hp => (by cases hp)⟩
  | @readPayload m t hm =>
      have hpayload : m.payload = msg.payload := hreads _ hk m hm
      exact ⟨hown.1, fun p hp => (by cases hp; exact hpayload)⟩
  | skip | reply => exact ⟨fun t ht => (by cases ht), fun p hp => (by cases hp)⟩
  | build | exec => exact hown

def isReply : Effect → Bool
  | .reply _ _ _ => true
  | _ => false

/-- A handler moves, and publishes `new`. -/
theorem Account.handler {got : List (Msg ι)} {s : Net ι} {rs : List (Msg ι)} {k : Nat}
    {l : Server.Label (Stamp ι)} {msg : Msg ι} {pc pc' : HandlerPc} {es : List Effect}
    (h : Account got s.srv rs) (hworks : HandlersWork cfg.server s.srv)
    (hk : s.srv.threadPool[k]? = some ⟨msg, pc⟩)
    (hmove : HandlerMoves cfg.server s.srv k l pc pc' es) (hreads : ReadsOwn s (.server l))
    {new : List (Msg ι)}
    (hnew : List.Forall₂ (fun e (r : Msg ι) => e = .reply k r.topic r.payload)
      (es.filter isReply) new) :
    Account got (s.srv.setPc k pc') (rs ++ new) := by
  have hown : HoldsOwn (⟨msg, pc⟩ : Handler (Stamp ι)) := h.own _ (Server.mem_of_getElem? hk)
  obtain ⟨order, hperm, hrs⟩ := h.replies
  refine ⟨h.spawned.congr rfl (Server.setPc_msgs _ _ _), ?_, ?_⟩
  · intro hd hmem
    rcases Server.mem_setPc hk hmem with rfl | hold
    · exact holdsOwn_moves hk hmove hown hreads
    · exact h.own hd hold
  · -- only the last of a handler's steps publishes
    have hquiet : es.filter isReply = [] →
        replied ⟨msg, pc'⟩ = replied ⟨msg, pc⟩ →
        ∃ order, order.Perm (answered (s.srv.setPc k pc')) ∧
          List.Forall₂ Answers order (rs ++ new) := by
      intro hnone hsame
      rw [hnone] at hnew
      cases hnew
      rw [List.append_nil]
      exact ⟨order, hperm.trans (answered_setPc hk hsame).symm, hrs⟩
    cases hmove with
    | readTopic | readPayload | build | exec => exact hquiet rfl rfl
    | @skip t p hp =>
        have hpath : p = msg.payload := hown.2 p rfl
        exact hquiet rfl (by simp [replied, ← hpath, hp])
    | @reply t p rc =>
        have htopic : t = msg.topic := hown.1 t rfl
        have hpath : p = msg.payload := hown.2 p rfl
        have hp : isBackupMsg p = true := (hworks _ (Server.mem_of_getElem? hk)).1
        obtain ⟨r, rfl, hr⟩ : ∃ r, new = [r] ∧ Answers msg r := by
          cases hnew with
          | @cons e r es' new' he hrest =>
              cases hrest
              simp only [Effect.reply.injEq, true_and] at he
              exact ⟨r, rfl, he.1 ▸ htopic, rc, he.2 ▸ hpath ▸ rfl⟩
        refine ⟨order ++ [msg], ?_, List.rel_append hrs (.cons hr .nil)⟩
        exact (hperm.append_right [msg]).trans
          (answered_finish hk (by simp) (hpath ▸ hp)).symm

/-- A step of the server that is silent, or has other effects than a reply. -/
theorem Account.acts {got : List (Msg ι)} {s : Net ι} {rs : List (Msg ι)}
    {l : Server.Label (Stamp ι)} {srv' : Server (Stamp ι)} {es : List Effect}
    (h : Account got s.srv rs) (hworks : HandlersWork cfg.server s.srv)
    (hacts : Acts cfg.server s.srv l srv' es) (hnn : l.nonNull) (hreads : ReadsOwn s (.server l))
    (hes : es.filter isReply = []) : Account (got ++ Server.consumed [l]) srv' rs := by
  have hspawned := h.spawned.step hacts hnn
  cases hacts with
  | @spawn m hl hm ht hip =>
      refine ⟨hspawned, ?_, ?_⟩
      · intro hd hmem
        rcases List.mem_append.mp hmem with hold | hnew
        · exact h.own hd hold
        · obtain rfl := List.mem_singleton.mp hnew
          exact ⟨fun t ht => (by cases ht), fun p hp => (by cases hp)⟩
      · rw [answered, List.filter_append]
        simpa [replied, answered] using h.replies
  | @handler k l msg pc pc' es hk hmove =>
      have hmoved : Account got (s.srv.setPc k pc') (rs ++ []) :=
        h.handler hworks hk hmove hreads (by rw [hes]; exact .nil)
      rw [List.append_nil] at hmoved
      exact hmoved.congr hspawned rfl
  | _ => exact h.congr hspawned rfl

/-! ## The network -/

/-- The account since the server has subscribed to the public channel, which was after the first `n`
publications. -/
structure Ledger (n : Nat) (got : List (Msg ι)) (s : Net ι) : Prop where
  le : n ≤ s.history.length
  account : s.up = true → Account got s.srv (repliesSince s.history n)

theorem Ledger.congr {n : Nat} {got : List (Msg ι)} {s s' : Net ι} (h : Ledger n got s)
    (hup : s'.up = s.up) (hsrv : s'.srv = s.srv) (hh : s'.history = s.history) : Ledger n got s' :=
  ⟨by rw [hh]; exact h.le, fun h' => by rw [hsrv, hh]; exact h.account (hup ▸ h')⟩

/-- A publication that is no reply. -/
theorem Ledger.publish {n : Nat} {got : List (Msg ι)} {s : Net ι} (h : Ledger n got s)
    (src : Party ι) {t p : Str} {o : Origin ι} (ho : o ≠ .reply) :
    Ledger n got (s.publish src t p o) := by
  refine ⟨?_, fun hup => ?_⟩
  · rw [Delivery.length_publish]
    exact Nat.le_succ_of_le h.le
  · show Account got s.srv (repliesSince (s.history ++ [_]) n)
    rw [repliesSince_append h.le, if_neg ho, List.append_nil]
    exact h.account hup

theorem ledger_setups {s s' : Net ι} (hwf : Wf cfg s) (hm : Moves cfg s .serverSetups s') :
    Ledger s.history.length [] s' := by
  cases hm with
  | serverSetups hup =>
      refine ⟨le_refl _, fun _ => ?_⟩
      show Account [] s.srv (repliesSince s.history s.history.length)
      rw [(hwf.down hup).1, repliesSince, List.drop_length]
      exact Account.start

theorem ledger_step {n : Nat} {got : List (Msg ι)} {s s' : Net ι} {l : NetLabel ι}
    (hwf : Wf cfg s) (hm : Moves cfg s l s') (hl : l ≠ .serverSetups) (hreads : ReadsOwn s l)
    (h : Ledger n got s) : Ledger n (got ++ Delivery.consumed [l]) s' := by
  have hkeep : Delivery.consumed [l] = [] → Ledger n got s' →
      Ledger n (got ++ Delivery.consumed [l]) s' := by
    intro hnone hs'
    rwa [hnone, List.append_nil]
  have hsrv : ∀ {l' : Server.Label (Stamp ι)},
      Delivery.consumed [NetLabel.server l'] = Server.consumed [l'] := by
    intro l'
    cases l' <;> rfl
  cases hm with
  | start hpc => exact hkeep rfl (h.congr rfl rfl rfl)
  | stop hpc => exact hkeep rfl (h.congr rfl rfl rfl)
  | register hpc =>
      refine hkeep rfl (Ledger.publish ?_ _ (by simp))
      exact h.congr rfl rfl rfl
  | subscribe hpc => exact hkeep rfl (h.congr rfl rfl rfl)
  | take hq hpc => exact hkeep rfl (h.congr rfl rfl rfl)
  | request hpc => exact hkeep rfl (h.publish _ (by simp))
  | serverSetups hup => exact absurd rfl hl
  -- the ledger is about a server that is up
  | serverRestart => exact hkeep rfl ⟨h.le, by rintro ⟨⟩⟩
  | consume hup hq hloop halive =>
      exact ⟨h.le, fun _ => (h.account hup).acts hwf.works (.consume hloop) trivial trivial rfl⟩
  | @quiet l srv' es hup halive hnc hnn hacts hes =>
      refine ⟨h.le, fun _ => ?_⟩
      rw [hsrv]
      refine (h.account hup).acts hwf.works hacts hnn hreads ?_
      -- none of these steps publishes a reply
      rw [List.filter_eq_nil_iff]
      intro e he
      have hsilent := hes e he
      cases e with
      | setWill | system => simp [isReply]
      | _ => exact hsilent.elim
  | srvSubscribe hup halive hloop =>
      exact ⟨h.le, fun _ => (h.account hup).acts hwf.works (.subscribed hloop) trivial trivial rfl⟩
  | @keySent c hup halive hloop =>
      have hnext : Ledger n (got ++ Delivery.consumed [NetLabel.server (.publishKey true)])
          { s with srv := { s.srv with loop := .storing c } } :=
        ⟨h.le, fun _ => (h.account hup).acts hwf.works (.keySent hloop) trivial trivial rfl⟩
      exact (hnext.publish .server (by simp)).congr rfl rfl rfl
  | exec hup halive hk =>
      exact ⟨h.le, fun _ =>
        (h.account hup).acts hwf.works (.handler hk .exec) trivial trivial rfl⟩
  | @reply k msg t p rc hup halive hk =>
      -- the one step that adds a reply, to the request of its handler
      refine hkeep rfl ⟨?_, fun _ => ?_⟩
      · show n ≤ (s.history ++ [_]).length
        rw [List.length_append]
        exact Nat.le_add_right_of_le h.le
      · show Account got (s.srv.setPc k .finished) (repliesSince (s.history ++ [_]) n)
        rw [repliesSince_append h.le, if_pos rfl]
        exact (h.account hup).handler hwf.works hk .reply trivial (.cons rfl .nil)

theorem ledger_gapStep {n : Nat} {hist : List (GapLabel ι)} {s s' : Net ι} {l : GapLabel ι}
    (hwf : Wf cfg s) (hm : GapMoves cfg s l s') (hl : l ≠ .net .serverSetups)
    (hreads : ∀ l', l = .net l' → ReadsOwn s l')
    (h : Ledger n (Delivery.consumed (nets hist)) s) :
    Ledger n (Delivery.consumed (nets (hist ++ [l]))) s' := by
  rw [nets_append, Delivery.consumed_append]
  cases hm with
  | net hm =>
      exact ledger_step hwf hm (fun heq => hl (congrArg GapLabel.net heq)) (hreads _ rfl) h
  | swallow =>
      have hsame : Ledger n (Delivery.consumed (nets hist))
          { s with broker := s.broker.pop .server } := h.congr rfl rfl rfl
      exact (List.append_nil (Delivery.consumed (nets hist))).symm ▸ hsame

/-! ## With the libraries -/

/-- A condition on the steps of the processes. -/
def OfProcess (C : Net ι → NetLabel ι → Prop) (s : LibNet ι) : LibLabel ι → Prop
  | .process l => C s.net l
  | .disable _ | .enable _ | .deliver _ | .lose _ => True

instance (C : Net ι → NetLabel ι → Prop) [∀ s l, Decidable (C s l)] (s : LibNet ι) :
    ∀ l, Decidable (OfProcess C s l)
  | .process l => inferInstanceAs (Decidable (C s.net l))
  | .disable _ | .enable _ | .deliver _ | .lose _ => isTrue trivial

/-- The same of the steps of `Net`. -/
def OfNet (C : Net ι → NetLabel ι → Prop) (s : Net ι) : GapLabel ι → Prop
  | .net l => C s l
  | .swallow _ => True

/-- A condition on the server and its steps holds of what a step amounts to. -/
theorem ofProcess_obs {C : Net ι → NetLabel ι → Prop}
    (hsrv : ∀ s t l, t.srv = s.srv → C s l → C t l) (hstop : ∀ s i, C s (.stop i)) {s : LibNet ι}
    {t : Net ι} {a : LibLabel ι} (h : s.Amounts t) (hC : OfProcess C s a) :
    EachStep (gapStep cfg) (OfNet C) t (s.obs a) := by
  have hone : ∀ {l : NetLabel ι}, C s.net l → EachStep (gapStep cfg) (OfNet C) t [.net l] :=
    fun hl => ⟨hsrv s.net t _ (by rw [h.1]) hl, fun _ _ => trivial⟩
  -- a step amounts to itself, to the end of its client or to nothing
  cases a with
  | disable | enable | deliver | lose =>
      refine EachStep.mono (C := fun _ l => ∃ m, l = .swallow m) ?_ (EachStep.of_labels ?_ t)
      · rintro _ _ ⟨m, rfl⟩
        trivial
      · intro l hl
        obtain ⟨m, -, rfl⟩ := List.mem_map.mp hl
        exact ⟨m, rfl⟩
  | process l =>
      cases l with
      | take i | register i | subscribe i =>
          simp only [LibNet.obs, LibNet.netObs]
          split
          · exact hone (hstop _ i)
          · exact hone hC
      | stop i | request i =>
          simp only [LibNet.obs, LibNet.netObs]
          split
          · trivial
          · exact hone hC
      | start | serverSetups | serverRestart | server => exact hone hC

theorem readsOwn_congr (s t : Net ι) (l : NetLabel ι) (hsrv : t.srv = s.srv) (h : ReadsOwn s l) :
    ReadsOwn t l := by
  unfold ReadsOwn at h ⊢
  rwa [hsrv]

theorem noRenewal_congr (c : Str) (s t : Net ι) (l : NetLabel ι) (hsrv : t.srv = s.srv)
    (h : Delivery.NoRenewal c s l) : Delivery.NoRenewal c t l := by
  unfold Delivery.NoRenewal at h ⊢
  rwa [hsrv]

theorem answered_sublist {got : List (Msg ι)} {srv : Server (Stamp ι)} (h : Spawned got srv) :
    (answered srv).Sublist (requests got) := by
  obtain ⟨rest, rfl, hpool⟩ := h
  have hrest : (answered srv).Sublist (requests rest) := by
    rw [requests, ← hpool, List.filter_map]
    refine List.Sublist.map _ (List.monotone_filter_right _ fun x hx => ?_)
    simp only [replied, Bool.and_eq_true] at hx
    exact hx.2
  refine hrest.trans ?_
  rw [requests, requests, Server.requestsOf_append, List.filter_append]
  exact List.sublist_append_left _ _

theorem answered_of_done {got : List (Msg ι)} {srv : Server (Stamp ι)} (h : Spawned got srv)
    (hloop : srv.loop ≠ .received) (hend : ∀ x ∈ srv.threadPool, x.pc = .finished) :
    answered srv = requests got := by
  rw [requests, ← h.pool hloop, List.filter_map, answered]
  refine congrArg _ (List.filter_congr fun x hx => ?_)
  simp [replied, hend x hx]

/-- In every run: while each handler reads the message it was spawned for, the replies that were
published since the server has subscribed to the public channel are each to another one of the
requests it has taken.  Where it has nothing left to do, they are to all of them. -/
theorem requests_answered {pre post : List (LibLabel ι)} {u v s : LibNet ι}
    (hpre : exec (LibNet.step cfg) LibNet.init pre = some u)
    (hsetups : u.step cfg (.process .serverSetups) = some v)
    (hpost : exec (LibNet.step cfg) v post = some s)
    (honce : .process .serverSetups ∉ post)
    (hreads : EachStep (LibNet.step cfg) (OfProcess ReadsOwn) v post)
    (hup : s.net.up = true) :
    ∃ order, List.Forall₂ Answers order
        (repliesSince s.net.history u.net.history.length) ∧
      order.Subperm (requests (Delivery.served post)) ∧
      (Settles.Done s → order.Perm (requests (Delivery.served post))) := by
  obtain ⟨tu, tv, t, -, hu, hmoves, hv, ht, hs⟩ :=
    Delivery.exists_net_run rfl hpre hsetups hpost
  have hhist : tu.history = u.net.history := by rw [hu.amounts.1]
  have hreads' : EachStep (gapStep cfg) (OfNet ReadsOwn) tv
      (observed (LibNet.step cfg) LibNet.obs v post) :=
    (LibNet.simulates_net cfg).eachStep (fun _ _ _ _ hst _ ha =>
      ofProcess_obs readsOwn_congr (fun _ _ => trivial) hst.amounts ha) hv hpost hreads
  have hothers : EachStep (gapStep cfg) (fun _ l => l ≠ .net .serverSetups) tv
      (observed (LibNet.step cfg) LibNet.obs v post) := by
    refine EachStep.of_labels ?_ tv
    rintro l hl rfl
    obtain ⟨a, ha, w, hw⟩ := exists_of_mem_observed hl
    exact honce (Delivery.process_of_mem_obs hw (by simp) ▸ ha)
  -- the ledger is about what was taken so far, so the invariant carries the history along
  have hledger : Wf cfg t ∧ Ledger tu.history.length
      (Delivery.consumed (nets ([] ++ observed (LibNet.step cfg) LibNet.obs v post))) t := by
    refine inv_history (I := fun hist w => Wf cfg w ∧
      Ledger tu.history.length (Delivery.consumed (nets hist)) w) ?_
      ⟨hv.wf, ledger_setups hu.wf hmoves⟩ (hreads'.and hothers) ht
    rintro hist w l w' ⟨hwf, hw⟩ ⟨hown, hl⟩ hstep
    have hm := gapStep_moves hstep
    refine ⟨hwf.gapStep hm, ledger_gapStep hwf hm hl ?_ hw⟩
    rintro l' rfl
    exact hown
  have haccount := hledger.2.account (by rw [hs.amounts.1]; exact hup)
  have hsrv : t.srv = s.net.srv := by rw [hs.amounts.1]
  have hhistory : t.history = s.net.history := by rw [hs.amounts.1]
  rw [List.nil_append, Delivery.consumed_observed hpost, hsrv, hhistory, hhist] at haccount
  obtain ⟨order, hperm, hrs⟩ := haccount.replies
  refine ⟨order, hrs, ?_, ?_⟩
  · exact hperm.subperm.trans (answered_sublist haccount.spawned).subperm
  · intro hdone
    rwa [answered_of_done haccount.spawned (by rw [hdone.loop]; simp) hdone.handlers] at hperm

/-- The request is handled to its end. -/
def handleRequest (m : Msg Bool) (k : Nat) (rc : Option Bool) : List (NetLabel Bool) :=
  [.server (.consume m), .server .dispatch, .server (.readTopic k), .server (.readPayload k),
    .server (.lookup k), .server (.exec k rc), .server (.reply k true)]

def asked : Msg Bool := ⟨pair.ip true, "~/notes".toList, ⟨.request true, 2⟩⟩

/-- The first client has its key and asks for a backup. -/
def backedUp : List (LibLabel Bool) :=
  LibNet.keyArrived.dropLast ++
    [.process (.take true), .process (.request true "~/notes".toList), .deliver .server] ++
    (handleRequest asked 0 (some true)).map .process

theorem requests_answered_backedUp :
    ∃ v s r, LibNet.init.step pair (.process .serverSetups) = some v ∧
      exec (LibNet.step pair) v backedUp.tail = some s ∧
      repliesSince s.net.history 0 = [r] ∧ Answers asked r := by
  obtain ⟨s, hs, hup, hdone⟩ : ∃ s, exec (LibNet.step pair) LibNet.init backedUp = some s ∧
      s.net.up = true ∧ Settles.Done s := exists_exec_of_any (by decide +kernel)
  obtain ⟨v, hv, hpost⟩ := exec_cons_some.mp (show exec (LibNet.step pair) LibNet.init
    (.process .serverSetups :: backedUp.tail) = some s from hs)
  have hreads : EachStep (LibNet.step pair) (OfProcess ReadsOwn) LibNet.init backedUp := by
    decide +kernel
  obtain ⟨order, hrs, -, hperm⟩ := requests_answered (exec_nil _) hv hpost (by decide +kernel)
    (hreads.2 v hv) hup
  have hasked : requests (Delivery.served backedUp.tail) = [asked] := by decide +kernel
  rw [hasked] at hperm
  obtain rfl := List.perm_singleton.mp (hperm hdone)
  obtain ⟨r, rs, hr, hnil, hreplies⟩ := List.forall₂_cons_left_iff.mp hrs
  cases hnil
  exact ⟨v, s, r, hv, hpost, hreplies, hr⟩

/-! ## What a client asks for -/

/-- The requests of a client, on its channel. -/
def asksFor (cfg : NetConfig ι) (i : ι) (m : Msg ι) : Bool :=
  m.topic = cfg.ip i ∧ m.tag.origin = .request i

theorem foreign_asksFor (i : ι) : Delivery.Foreign cfg (cfg.ip i) (asksFor cfg i) where
  topic m hm := by
    simp only [asksFor, decide_eq_true_eq] at hm
    exact hm.1
  own j p o n ho := by
    rcases ho with rfl | rfl
    · simp [asksFor]
    · simp [asksFor]

/-- In every run: from a state in which the server is subscribed to a client's channel, and until it
subscribes to it again or is lost, it is given what the client asked for that was on its way and all
the client asks for then, each once and in order. -/
theorem requests_given {pre post : List (LibLabel ι)} {w s : LibNet ι} {i : ι}
    (hpre : exec (LibNet.step cfg) LibNet.init pre = some w) (hlost : w.lost .server = false)
    (hsub : w.net.broker.subs .server (cfg.ip i) ≠ none)
    (hpost : exec (LibNet.step cfg) w post = some s)
    (hrenew : EachStep (LibNet.step cfg) (OfProcess (Delivery.NoRenewal (cfg.ip i))) w post)
    (hup : s.net.up = true) :
    (Delivery.served post).filter (asksFor cfg i) <+:
        (Settles.toTake w ++ s.net.history.drop w.net.history.length).filter (asksFor cfg i) ∧
      (s.lost .server = false →
        (Delivery.served post ++ Settles.toTake s).filter (asksFor cfg i) =
          (Settles.toTake w ++ s.net.history.drop w.net.history.length).filter
            (asksFor cfg i)) := by
  obtain ⟨x, hx, hw⟩ := (LibNet.simulates_net cfg).exec LibNet.init_runsAs hpre
  obtain ⟨t, ht, hs⟩ := (LibNet.simulates_net cfg).exec hw hpost
  have hstart : Delivery.Fed (cfg.ip i) (asksFor cfg i) x.history
      ((Settles.toTake w).filter (asksFor cfg i)) [] x := by
    refine ⟨List.prefix_refl _, fun _ => ?_, fun _ => ?_⟩
    · rw [hw.amounts.2.lags.subs _ hlost]
      obtain ⟨sub, hsome⟩ := Option.ne_none_iff_exists'.mp hsub
      have htrue := hw.wf.serverSubs (cfg.ip i) sub
        (by rw [hw.amounts.2.lags.subs _ hlost]; exact hsome)
      rw [hsome, htrue]
    · rw [List.drop_length, List.nil_append, (Settles.toTake_amounts hw.amounts hlost).1,
        List.filter_nil, List.append_nil]
  have hrenew' : EachStep (gapStep cfg) (OfNet (Delivery.NoRenewal (cfg.ip i))) x
      (observed (LibNet.step cfg) LibNet.obs w post) :=
    (LibNet.simulates_net cfg).eachStep (fun _ _ _ _ hst _ ha =>
      ofProcess_obs (noRenewal_congr _) (fun _ _ => trivial) hst.amounts ha) hw hpost hrenew
  have hfed : Wf cfg t ∧ Young t ∧ Delivery.Fed (cfg.ip i) (asksFor cfg i) x.history
      ((Settles.toTake w).filter (asksFor cfg i))
      (Delivery.consumed (nets ([] ++ observed (LibNet.step cfg) LibNet.obs w post))) t := by
    refine inv_history (I := fun hist y => Wf cfg y ∧ Young y ∧ Delivery.Fed _ _ x.history _
      (Delivery.consumed (nets hist)) y) ?_ ⟨hw.wf, young_of_gapRun hx, hstart⟩ hrenew' ht
    rintro hist y l y' ⟨hy, hyoung, hf⟩ hl hstep
    have hm := gapStep_moves hstep
    refine ⟨hy.gapStep hm, hyoung.gapStep hy hm, ?_⟩
    cases hm with
    | net hm =>
        rw [nets_append, Delivery.consumed_append]
        exact Delivery.fed_step (foreign_asksFor i) hy hm hl hf
    | swallow hyup hptr =>
        -- who is subscribed to a client's channel has taken its registration
        refine absurd (hyoung hptr (cfg.ip i) ?_) (ip_ne_subscibersList cfg i)
        simp [hf.sub hyup]
  have heq := hfed.2.2.eq (by rw [hs.amounts.1]; exact hup)
  have hhistory : t.history = s.net.history := by rw [hs.amounts.1]
  have hlength : x.history = w.net.history := by rw [hw.amounts.1]
  rw [List.nil_append, Delivery.consumed_observed hpost, hhistory, hlength, ← List.filter_append]
    at heq
  constructor
  · rw [← heq, List.filter_append]
    exact List.prefix_append _ _
  · intro hlost'
    rw [(Settles.toTake_amounts hs.amounts hlost').1]
    exact heq

theorem requests_given_backedUp :
    ∃ w s, exec (LibNet.step pair) LibNet.init (backedUp.take 12) = some w ∧
      exec (LibNet.step pair) w (backedUp.drop 12) = some s ∧
      (Delivery.served (backedUp.drop 12) ++ Settles.toTake s).filter (asksFor pair true) =
        (Settles.toTake w ++ s.net.history.drop w.net.history.length).filter
          (asksFor pair true) := by
  obtain ⟨w, hw, hlost, hsub, hrenew, hrest⟩ : ∃ w,
      exec (LibNet.step pair) LibNet.init (backedUp.take 12) = some w ∧ w.lost .server = false ∧
        w.net.broker.subs .server (pair.ip true) ≠ none ∧
        EachStep (LibNet.step pair) (OfProcess (Delivery.NoRenewal (pair.ip true))) w
          (backedUp.drop 12) ∧
        (exec (LibNet.step pair) w (backedUp.drop 12)).any (fun s =>
          decide (s.net.up = true ∧ s.lost .server = false)) = true :=
    exists_exec_of_any (by decide +kernel)
  obtain ⟨s, hs, hup, hlost'⟩ := exists_exec_of_any hrest
  exact ⟨w, s, hw, hs, (requests_given hw hlost hsub hs hrenew hup).2 hlost'⟩

end BupApp.Replies
