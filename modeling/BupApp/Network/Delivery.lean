/-
# BupApp.Network.Delivery -- what everybody is given, and in which order

A client is given the message its channel held when it subscribed, and from then on every
publication on its channel, each once and in order; its own requests are among them.  The server is
given the registrations in the same way.  What is on the way, in the queue at the broker or in the
library's queue inside the process, is counted as given.  A client that is cut off has been given a
first part of it.

A client subscribes behind `start_consuming`, the server before it.  What arrives at the server
between the two halves of that call is given to it and swallowed; all of it comes before what the
server takes.
-/
import BupApp.Network.CutOff
import BupApp.Network.StartUp

set_option linter.unusedSectionVars false

namespace BupApp.Delivery

open BupApp.Lib.Text BupApp.Lib.PubSub BupApp.Lib.PubSub.Broker BupApp.Lib.Transition Net

variable {ι : Type} [DecidableEq ι] {cfg : NetConfig ι}

/-! ## What there is to be given -/

/-- What someone is to be given who subscribes to `t` after the first `n` publications. -/
def since (hist : List (Msg ι)) (n : Nat) (t : Str) : List (Msg ι) :=
  (lastOn (hist.take n) t).toList ++ onTopic (hist.drop n) t

theorem since_append {hist : List (Msg ι)} {n : Nat} (hn : n ≤ hist.length) (m : Msg ι) (t : Str) :
    since (hist ++ [m]) n t = since hist n t ++ if m.topic = t then [m] else [] := by
  rw [since, since, List.take_append_of_le_length hn, List.drop_append_of_le_length hn,
    onTopic_append, List.append_assoc]

theorem since_length (hist : List (Msg ι)) (t : Str) :
    since hist hist.length t = (lastOn hist t).toList := by
  rw [since, List.take_length, List.drop_length]
  simp [onTopic]

theorem since_of_prefix {past hist : List (Msg ι)} (h : past <+: hist) (t : Str) :
    since hist past.length t = (lastOn past t).toList ++ onTopic (hist.drop past.length) t := by
  rw [since, ← List.prefix_iff_eq_take.mp h]

theorem onTopic_toList_lastOn (hist : List (Msg ι)) (t : Str) :
    onTopic (lastOn hist t).toList t = (lastOn hist t).toList := by
  cases h : lastOn hist t with
  | none => rfl
  | some m => simp [onTopic, (mem_of_lastOn h).2]

/-! ## A client -/

/-- The client has subscribed after the first `n` publications and been given everything since. -/
structure Given (cfg : NetConfig ι) (n : Nat) (s : Net ι) (i : ι) : Prop where
  le : n ≤ s.history.length
  eq : Subscribed (s.clients i).pc → delivered s i = since s.history n (cfg.ip i)

theorem Given.congr {n : Nat} {s s' : Net ι} {i : ι} (h : Given cfg n s i)
    (hc : s'.clients i = s.clients i)
    (hq : s'.broker.queue (.client i) = s.broker.queue (.client i))
    (hh : s'.history = s.history) : Given cfg n s' i := by
  refine ⟨by rw [hh]; exact h.le, ?_⟩
  intro hsub
  rw [hc] at hsub
  rw [hh, ← h.eq hsub, delivered, delivered, hc, hq]

theorem Given.unsubscribed {n : Nat} {s s' : Net ι} {i : ι} (h : Given cfg n s i)
    (hc : ¬ Subscribed (s'.clients i).pc) (hh : s.history.length ≤ s'.history.length) :
    Given cfg n s' i :=
  ⟨le_trans h.le hh, fun hsub => absurd hsub hc⟩

theorem length_publish (s : Net ι) (src : Party ι) (t p : Str) (o : Origin ι) :
    (s.publish src t p o).history.length = s.history.length + 1 := by
  simp [Net.publish]

theorem Given.publish {n : Nat} {s : Net ι} (hwf : Wf cfg s) {i : ι} (h : Given cfg n s i)
    (src : Party ι) (t p : Str) (o : Origin ι) : Given cfg n (s.publish src t p o) i := by
  have hlen := length_publish s src t p o
  have hle := h.le
  refine ⟨by omega, ?_⟩
  intro hsub
  have hsub' : Subscribed (s.clients i).pc := hsub
  show (s.clients i).taken ++ (s.broker.publish src t (decide (p = [])) _).queue (.client i) =
    since (s.history ++ [_]) n (cfg.ip i)
  rw [since_append h.le, ← h.eq hsub', queue_publish, hwf.forwards_client, delivered]
  by_cases ht : t = cfg.ip i
  · simp [hsub', ht]
  · have ht' : ¬ (t = cfg.ip i) := ht
    simp [ht']

theorem given_subscribe {s s' : Net ι} {i : ι} (hwf : Wf cfg s)
    (hm : Moves cfg s (.subscribe i) s') : Given cfg s.history.length s' i := by
  cases hm with
  | subscribe hpc =>
      refine ⟨le_refl _, fun _ => ?_⟩
      have hns : ¬ Subscribed (s.clients i).pc := by simp [Subscribed, hpc]
      have htaken := hwf.fresh i hns (by simp [hpc])
      have hoffered : s.broker.offered cfg.resendOwn (.client i) (cfg.ip i) ⟨false⟩ =
          (lastOn s.history (cfg.ip i)).toList := by
        have hkept := hwf.kept (cfg.ip i)
        cases hlast : lastOn s.history (cfg.ip i) with
        | none =>
            rw [hlast] at hkept
            exact offered_of_kept_none hkept
        | some m =>
            rw [hlast] at hkept
            exact offered_of_local hkept
      show ((s.setClient i _).clients i).taken ++
        (s.broker.subscribe cfg.resendOwn (.client i) (cfg.ip i) ⟨false⟩).queue (.client i) =
          since s.history s.history.length (cfg.ip i)
      rw [since_length, queue_subscribe_self, hwf.unsubscribed i hns, hoffered]
      simp [setClient, htaken]

/-- Every other step goes on with it. -/
theorem given_step {n : Nat} {s s' : Net ι} {l : NetLabel ι} {i : ι} (hwf : Wf cfg s)
    (hm : Moves cfg s l s') (hl : l ≠ .subscribe i) (h : Given cfg n s i) : Given cfg n s' i := by
  have hclient : ∀ {j c}, i ≠ j → (s.setClient j c).clients i = s.clients i :=
    fun hij => Function.update_of_ne hij ..
  have hparty : ∀ {j}, i ≠ j → (.client i : Party ι) ≠ .client j := by
    intro j hij heq
    exact hij (Party.client.inj heq)
  cases hm with
  | @start j hpc =>
      -- a process of its own that starts, ends or registers is given nothing
      by_cases hij : i = j
      · subst hij
        exact h.unsubscribed (by simp [Subscribed, setClient]) (le_refl _)
      · exact h.congr (hclient hij) rfl rfl
  | @stop j hpc =>
      by_cases hij : i = j
      · subst hij
        exact h.unsubscribed (by simp [Subscribed, setClient]) (le_refl _)
      · exact h.congr (hclient hij) (queue_disconnect_of_ne (hparty hij)) rfl
  | @register j info hpc =>
      by_cases hij : i = j
      · subst hij
        exact h.unsubscribed (by simp [Subscribed, setClient, Net.publish])
          (by simp [setClient, Net.publish])
      · have hpub := h.publish hwf (.client j) subscibersList
          (subscribeMsg (cfg.ip j) info) (.registration j)
        exact hpub.congr (hclient hij) rfl rfl
  | @subscribe j hpc =>
      have hij : i ≠ j := by
        rintro rfl
        exact hl rfl
      exact h.congr (hclient hij) (queue_subscribe_of_ne (hparty hij) _ _ _) rfl
  | @take j m rest hq hpc =>
      by_cases hij : i = j
      · subst hij
        refine ⟨h.le, fun _ => ?_⟩
        -- what it takes leaves the queue for what it has taken
        show ((s.setClient i _).clients i).taken ++ (s.broker.pop (.client i)).queue (.client i) =
          since s.history n (cfg.ip i)
        rw [← h.eq hpc, queue_pop_self hq, delivered, hq]
        simp [setClient]
      · exact h.congr (hclient hij) (queue_pop_of_ne (hparty hij)) rfl
  | request hpc => exact h.publish hwf _ _ _ _
  | serverSetups hup => exact h.congr rfl (queue_subscribe_of_ne (by simp) _ _ _) rfl
  | serverRestart => exact h.congr rfl (queue_disconnect_of_ne (by simp)) rfl
  | consume hup hq hloop halive => exact h.congr rfl (queue_pop_of_ne (by simp)) rfl
  | quiet => exact h.congr rfl rfl rfl
  | srvSubscribe => exact h.congr rfl (queue_subscribe_of_ne (by simp) _ _ _) rfl
  | keySent => exact (h.publish hwf .server _ _ _).congr rfl rfl rfl
  | exec => exact h.congr rfl rfl rfl
  | reply => exact (h.publish hwf .server _ _ _).congr rfl rfl rfl

theorem given_gapStep {n : Nat} {s s' : Net ι} {l : GapLabel ι} {i : ι} (hwf : Wf cfg s)
    (hm : GapMoves cfg s l s') (hl : l ≠ .net (.subscribe i)) (h : Given cfg n s i) :
    Given cfg n s' i := by
  cases hm with
  | net hm => exact given_step hwf hm (fun heq => hl (congrArg GapLabel.net heq)) h
  | swallow => exact h.congr rfl (queue_pop_of_ne (by simp)) rfl

/-! ## The server -/

/-- What is consumed in a run. -/
def consumed : List (NetLabel ι) → List (Msg ι) :=
  List.filterMap fun
    | .server (.consume m) => some m
    | _ => none

/-- The messages that are looked for on the channel `t`; what the server publishes is not among
them. -/
structure Foreign (cfg : NetConfig ι) (t : Str) (P : Msg ι → Bool) : Prop where
  topic : ∀ m, P m = true → m.topic = t
  own : ∀ i p o n, o = .key ∨ o = .reply → P ⟨cfg.ip i, p, ⟨o, n⟩⟩ = false

/-- Since the publications `past` the server has been subscribed to `t`.  It is given the messages
`q`, and behind them everything that was published since. -/
structure Fed (t : Str) (P : Msg ι → Bool) (past q got : List (Msg ι)) (s : Net ι) : Prop where
  le : past <+: s.history
  sub : s.up = true → s.broker.subs .server t = some ⟨true⟩
  eq : s.up = true → (got ++ s.broker.queue .server).filter P =
    q ++ (s.history.drop past.length).filter P

variable {t : Str} {P : Msg ι → Bool} {past q got : List (Msg ι)}

/-- Nothing changes on the channel. -/
theorem Fed.congr {s s' : Net ι} (h : Fed t P past q got s) (hup : s'.up = s.up)
    (hsub : s'.broker.subs .server t = s.broker.subs .server t)
    (hq : (s'.broker.queue .server).filter P = (s.broker.queue .server).filter P)
    (hh : s'.history = s.history) : Fed t P past q got s' := by
  refine ⟨by rw [hh]; exact h.le, ?_, ?_⟩
  · intro h'
    rw [hsub, h.sub (hup ▸ h')]
  · intro h'
    rw [hh, ← h.eq (hup ▸ h'), List.filter_append, List.filter_append, hq]

theorem Fed.publish {s : Net ι} (hP : Foreign cfg t P) (h : Fed t P past q got s) {src : Party ι}
    {t' p : Str} {o : Origin ι}
    (hsrc : src = .server → P ⟨t', p, ⟨o, s.history.length⟩⟩ = false) :
    Fed t P past q got (s.publish src t' p o) := by
  refine ⟨h.le.trans (List.prefix_append _ _), h.sub, ?_⟩
  intro hup
  show (got ++ (s.broker.publish src t' (decide (p = [])) _).queue .server).filter P =
    q ++ ((s.history ++ [_]).drop past.length).filter P
  rw [List.drop_append_of_le_length h.le.length_le, List.filter_append, List.filter_append,
    ← List.append_assoc, ← h.eq hup, List.filter_append, queue_publish]
  cases hm : P ⟨t', p, ⟨o, s.history.length⟩⟩ with
  | true =>
      obtain rfl : t' = t := hP.topic _ hm
      have hforwards : s.broker.forwards src .server t' = true := by
        refine forwards_eq_true (h.sub hup) ?_
        rintro - rfl
        rw [hsrc rfl] at hm
        cases hm
      rw [if_pos hforwards, List.filter_append, List.append_assoc]
  | false =>
      have hnone : [(⟨t', p, ⟨o, s.history.length⟩⟩ : Msg ι)].filter P = [] :=
        List.filter_cons_of_neg (by simp [hm])
      rw [hnone, List.append_nil]
      split
      · rw [List.filter_append, hnone, List.append_nil]
      · rfl

/-- What is offered on another channel. -/
theorem filter_offered {s : Net ι} (hwf : Wf cfg s) (hP : Foreign cfg t P) {t' : Str}
    (ht : t' ≠ t) (r : Bool) (k : Party ι) (sub : Sub) :
    (s.broker.offered r k t' sub).filter P = [] := by
  rw [List.filter_eq_nil_iff]
  intro m hm hmem
  have hkept := hwf.kept t'
  rw [kept_of_mem_offered hm] at hkept
  exact ht ((mem_of_lastOn hkept.symm).2.symm.trans (hP.topic m hmem))

/-- The server neither starts anew nor subscribes to `t` again. -/
def NoRenewal (t : Str) (s : Net ι) : NetLabel ι → Prop
  | .server (.subscribe _) => ∀ c ∈ s.srv.loop.client?, c.ip ≠ t
  | .serverSetups => False
  | _ => True

instance (t : Str) (s : Net ι) : ∀ l, Decidable (NoRenewal t s l)
  | .server (.subscribe _) => inferInstanceAs (Decidable (∀ x ∈ s.srv.loop.client?, x.ip ≠ t))
  | .serverSetups => isFalse id
  | .start _ | .stop _ | .register _ _ | .subscribe _ | .take _ | .request _ _ | .serverRestart
  | .server (.consume _) | .server (.consumeNull _) | .server .dispatch | .server (.publishKey _)
  | .server .store | .server (.readTopic _) | .server (.readPayload _) | .server (.lookup _)
  | .server (.exec _ _) | .server (.reply _ _) => isTrue trivial

theorem fed_step {s s' : Net ι} {l : NetLabel ι} (hP : Foreign cfg t P) (hwf : Wf cfg s)
    (hm : Moves cfg s l s') (hl : NoRenewal t s l) (h : Fed t P past q got s) :
    Fed t P past q (got ++ consumed [l]) s' := by
  have hkeep : consumed [l] = [] → Fed t P past q got s' →
      Fed t P past q (got ++ consumed [l]) s' := by
    intro hnone hs'
    rwa [hnone, List.append_nil]
  cases hm with
  | start hpc => exact hkeep rfl (h.congr rfl rfl rfl rfl)
  | stop hpc =>
      refine hkeep rfl (h.congr rfl ?_ ?_ rfl)
      · exact (subs_disconnect ..).trans (if_neg (by simp))
      · exact congrArg (List.filter P) (queue_disconnect_of_ne (by simp))
  | register hpc => exact hkeep rfl ((h.publish hP (by simp)).congr rfl rfl rfl rfl)
  | subscribe hpc =>
      refine hkeep rfl (h.congr rfl ?_ ?_ rfl)
      · exact (subs_subscribe ..).trans (if_neg (by simp))
      · exact congrArg (List.filter P) (queue_subscribe_of_ne (by simp) _ _ _)
  | take hq hpc =>
      exact hkeep rfl (h.congr rfl rfl (congrArg (List.filter P) (queue_pop_of_ne (by simp))) rfl)
  | request hpc => exact hkeep rfl (h.publish hP (by simp))
  | serverSetups hup => exact hl.elim
  | serverRestart => exact hkeep rfl ⟨h.le, by rintro ⟨⟩, by rintro ⟨⟩⟩
  | @consume m rest hup hq hloop halive =>
      refine ⟨h.le, fun _ => h.sub hup, fun _ => ?_⟩
      show ((got ++ [m]) ++ (s.broker.pop .server).queue .server).filter P = _
      rw [← h.eq hup, queue_pop_self hq, hq, List.append_assoc]
      rfl
  | @quiet l srv' es hup halive hnc =>
      refine hkeep ?_ (h.congr rfl rfl rfl rfl)
      cases l with
      | consume m => exact absurd rfl (hnc m)
      | _ => rfl
  | @srvSubscribe c hup halive hloop =>
      have hne : c.ip ≠ t := hl c (by rw [hloop]; rfl)
      refine hkeep rfl (h.congr rfl ?_ ?_ rfl)
      · exact (subs_subscribe ..).trans (if_neg fun heq => hne heq.2.symm)
      · -- what another channel retains does not count
        show ((s.broker.subscribe cfg.resendOwn .server c.ip ⟨true⟩).queue .server).filter P = _
        rw [queue_subscribe_self, List.filter_append, filter_offered hwf hP hne, List.append_nil]
  | @keySent c hup halive hloop =>
      obtain ⟨-, i, -, -, hip⟩ := hwf.pending c (by rw [hloop]; rfl)
      -- the server subscribes with no-local, so its own publications do not come back
      have hown := hP.own i cfg.server.publicKey .key s.history.length (Or.inl rfl)
      exact hkeep rfl ((h.publish hP fun _ => hip ▸ hown).congr rfl rfl rfl rfl)
  | exec => exact hkeep rfl (h.congr rfl rfl rfl rfl)
  | @reply k msg t' p rc hup halive hk =>
      obtain ⟨-, ⟨i, hi⟩, -⟩ := hwf.replyTopic hk
      have hown := hP.own i (replyMsg p rc) .reply s.history.length (Or.inr rfl)
      exact hkeep rfl ((h.publish hP fun _ => hi ▸ hown).congr rfl rfl rfl rfl)

/-- The server is not handed the message that is first on its way. -/
theorem Fed.swallow {s : Net ι} (h : Fed t P past q got s) {m : Msg ι} {rest : List (Msg ι)}
    (hq : s.broker.queue .server = m :: rest) :
    Fed t P past q (got ++ [m]) { s with broker := s.broker.pop .server } := by
  refine ⟨h.le, h.sub, fun hup => ?_⟩
  show ((got ++ [m]) ++ (s.broker.pop .server).queue .server).filter P = _
  rw [← h.eq hup, queue_pop_self hq, hq, List.append_assoc]
  rfl

/-- A server that can still swallow messages has taken none. -/
def Unfed (hist : List (GapLabel ι)) (s : Net ι) : Prop :=
  s.up = true → s.srv.msgPtr = none → consumed (nets hist) = []

/-- What is behind such a step has been there before it. -/
theorem unfed_of_moves {s s' : Net ι} {l : NetLabel ι} (hm : Moves cfg s l s')
    (hl : l ≠ .serverSetups) (hup : s'.up = true) (hptr : s'.srv.msgPtr = none) :
    s.up = true ∧ s.srv.msgPtr = none ∧ consumed [l] = [] := by
  cases hm with
  | serverSetups => exact absurd rfl hl
  | serverRestart => cases hup
  | consume => cases hptr
  | @quiet l srv' es hup' halive hnc hnn hacts hes =>
      refine ⟨hup, msgPtr_of_acts hacts hnn hptr, ?_⟩
      cases l with
      | consume m => exact absurd rfl (hnc m)
      | _ => rfl
  | _ => exact ⟨hup, hptr, rfl⟩

theorem consumed_append (ls ls' : List (NetLabel ι)) :
    consumed (ls ++ ls') = consumed ls ++ consumed ls' := List.filterMap_append

theorem Unfed.step {hist : List (GapLabel ι)} {s s' : Net ι} {l : GapLabel ι} (h : Unfed hist s)
    (hm : GapMoves cfg s l s') (hl : l ≠ .net .serverSetups) : Unfed (hist ++ [l]) s' := by
  intro hup hptr
  rw [nets_append, consumed_append]
  cases hm with
  | @net l _ hm =>
      obtain ⟨hup, hptr, hnone⟩ := unfed_of_moves hm (fun heq => hl (congrArg GapLabel.net heq))
        hup hptr
      rw [h hup hptr]
      exact hnone
  | swallow =>
      rw [h hup hptr]
      rfl

/-- What is swallowed and what is taken in a run.  The server swallows before it takes. -/
def passed (hist : List (GapLabel ι)) : List (Msg ι) := swallowed hist ++ consumed (nets hist)

theorem passed_net (hist : List (GapLabel ι)) (l : NetLabel ι) :
    passed (hist ++ [.net l]) = passed hist ++ consumed [l] := by
  rw [passed, passed, swallowed_append, nets_append, consumed_append, List.append_assoc,
    List.append_assoc]
  rfl

theorem Unfed.passed_swallow {hist : List (GapLabel ι)} {s : Net ι} (h : Unfed hist s)
    (hup : s.up = true) (hptr : s.srv.msgPtr = none) (m : Msg ι) :
    passed (hist ++ [.swallow m]) = passed hist ++ [m] := by
  rw [passed, passed, swallowed_append, nets_append, consumed_append, h hup hptr,
    List.append_nil]
  exact List.append_nil _

/-- What is published on the public channel. -/
theorem foreign_public : Foreign cfg subscibersList fun m => decide (m.topic = subscibersList) where
  topic _ hm := of_decide_eq_true hm
  own i _ _ _ _ := decide_eq_false (ip_ne_subscibersList cfg i)

/-- The server does not subscribe to a client's channel under that name. -/
theorem noRenewal_public {s : Net ι} {l : NetLabel ι} (hwf : Wf cfg s) (hl : l ≠ .serverSetups) :
    NoRenewal subscibersList s l := by
  unfold NoRenewal
  split
  · intro c hc
    obtain ⟨-, i, -, -, hip⟩ := hwf.pending c hc
    exact hip ▸ ip_ne_subscibersList cfg i
  · exact hl rfl
  · trivial

theorem fed_setups {s s' : Net ι} (hwf : Wf cfg s)
    (hfree : ¬ s.broker.Owns .server subscibersList) (hm : Moves cfg s .serverSetups s') :
    Fed subscibersList (fun m => decide (m.topic = subscibersList)) s.history
      (lastOn s.history subscibersList).toList [] s' := by
  cases hm with
  | serverSetups hup =>
      obtain ⟨-, hqueue, -⟩ := hwf.down hup
      refine ⟨List.prefix_refl _, fun _ => ?_, fun _ => ?_⟩
      · exact (subs_subscribe ..).trans (if_pos ⟨rfl, rfl⟩)
      have hoffered : s.broker.offered cfg.resendOwn .server subscibersList ⟨true⟩ =
          (lastOn s.history subscibersList).toList := by
        have hkept := hwf.kept subscibersList
        cases hlast : lastOn s.history subscibersList with
        | none =>
            rw [hlast] at hkept
            exact offered_of_kept_none hkept
        | some m =>
            rw [hlast] at hkept
            exact offered_of_not_owns hkept hfree
      show onTopic ([] ++
        (s.broker.subscribe cfg.resendOwn .server subscibersList ⟨true⟩).queue .server)
          subscibersList = _ ++ (s.history.drop s.history.length).filter _
      rw [List.drop_length, queue_subscribe_self, hqueue, hoffered, List.nil_append,
        List.nil_append, onTopic_toList_lastOn]
      simp

/-! ## With the libraries -/

/-- A step of a process, and what the processes do then, as a run of `Net` with the gap. -/
theorem exists_net_run {pre post : List (LibLabel ι)} {u v s : LibNet ι} {l l' : NetLabel ι}
    (hobs : u.netObs l = [l']) (hpre : exec (LibNet.step cfg) LibNet.init pre = some u)
    (hl : u.step cfg (.process l) = some v) (hpost : exec (LibNet.step cfg) v post = some s) :
    ∃ tu tv t, exec (gapStep cfg) init (observed (LibNet.step cfg) LibNet.obs LibNet.init pre) =
        some tu ∧ LibNet.RunsAs cfg u tu ∧ Moves cfg tu l' tv ∧ LibNet.RunsAs cfg v tv ∧
      exec (gapStep cfg) tv (observed (LibNet.step cfg) LibNet.obs v post) = some t ∧
      LibNet.RunsAs cfg s t := by
  obtain ⟨tu, htu, hu⟩ := (LibNet.simulates_net cfg).exec LibNet.init_runsAs hpre
  obtain ⟨tv, htv, hv⟩ := (LibNet.simulates_net cfg).step u tu _ v hu hl
  obtain ⟨t, ht, hs⟩ := (LibNet.simulates_net cfg).exec hv hpost
  rw [LibNet.obs, hobs] at htv
  obtain ⟨tv', hstep, hnil⟩ := exec_cons_some.mp htv
  obtain rfl := Option.some.inj hnil
  exact ⟨tu, tv', t, htu, hu, step_moves hstep, hv, ht, hs⟩

/-- A step of a process amounts to itself, to the end of a client or to nothing. -/
theorem process_of_mem_obs {w : LibNet ι} {a : LibLabel ι} {l : NetLabel ι}
    (h : .net l ∈ w.obs a) (hstop : ∀ i, l ≠ .stop i) : a = .process l := by
  have hone : ∀ {l' : NetLabel ι}, l ∈ [l'] → l = l' := List.mem_singleton.mp
  cases a with
  | process l' =>
      obtain ⟨x, hx, hxl⟩ := List.mem_map.mp h
      obtain rfl := GapLabel.net.inj hxl
      cases l' with
      | take j | register j info | subscribe j =>
          simp only [LibNet.netObs] at hx
          split at hx
          · exact absurd (hone hx) (hstop j)
          · rw [hone hx]
      | stop j =>
          simp only [LibNet.netObs] at hx
          split at hx
          · cases hx
          · rw [hone hx]
      | request j path =>
          simp only [LibNet.netObs] at hx
          split at hx
          · cases hx
          · rw [hone hx]
      | start | serverSetups | serverRestart | server => rw [hone hx]
  | disable | enable | deliver | lose =>
      obtain ⟨m, -, hm⟩ := List.mem_map.mp h
      cases hm

/-- The step by which a client gets through with its subscription, or not. -/
theorem netObs_subscribe (u : LibNet ι) (i : ι) :
    u.netObs (.subscribe i) = [.subscribe i] ∨ u.netObs (.subscribe i) = [.stop i] := by
  simp only [LibNet.netObs]
  split
  · exact Or.inr rfl
  · exact Or.inl rfl

/-- In every run: between its subscription and its end a client is given, by its own takes and in
the two queues, what its channel held and everything published there since, each once and in order;
if its connection is lost, a first part of it. -/
theorem client_inOrder {pre post : List (LibLabel ι)} {u v s : LibNet ι} {i : ι}
    (hpre : exec (LibNet.step cfg) LibNet.init pre = some u)
    (hsub : u.step cfg (.process (.subscribe i)) = some v)
    (hpost : exec (LibNet.step cfg) v post = some s)
    (honce : .process (.subscribe i) ∉ post) (hpc : Subscribed (s.net.clients i).pc) :
    ∃ ms, s.que (.client i) = ms.map some ++ (if s.lost (.client i) then [none] else []) ∧
      (s.net.clients i).taken ++ ms <+:
        since s.net.history u.net.history.length (cfg.ip i) ∧
      (s.lost (.client i) = false →
        (s.net.clients i).taken ++ ms ++ s.net.broker.queue (.client i) =
          since s.net.history u.net.history.length (cfg.ip i)) := by
  obtain ⟨l', hl', hobs⟩ : ∃ l', (l' = .subscribe i ∨ l' = .stop i) ∧
      u.netObs (.subscribe i) = [l'] := by
    rcases netObs_subscribe u i with h | h
    · exact ⟨_, Or.inl rfl, h⟩
    · exact ⟨_, Or.inr rfl, h⟩
  obtain ⟨tu, tv, t, -, hu, hmoves, hv, ht, hs⟩ := exists_net_run hobs hpre hsub hpost
  have hhist : tu.history = u.net.history := by rw [hu.amounts.1]
  have hstart : Given cfg tu.history.length tv i := by
    rcases hl' with rfl | rfl
    · exact given_subscribe hu.wf hmoves
    · -- a client that does not get through is subscribed to nothing
      cases hmoves with
      | stop => exact ⟨le_refl _, by simp [Subscribed, setClient]⟩
  have hgiven : Wf cfg t ∧ Given cfg tu.history.length t i := by
    refine inv_of_eachStep (C := fun _ l => l ≠ .net (.subscribe i))
      (I := fun w => Wf cfg w ∧ Given cfg tu.history.length w i) ?_
      ⟨hv.wf, hstart⟩ (EachStep.of_labels ?_ tv) ht
    · rintro w l w' ⟨hwf, hg⟩ hl hstep
      have hm := gapStep_moves hstep
      exact ⟨hwf.gapStep hm, given_gapStep hwf hm hl hg⟩
    · rintro l hl rfl
      obtain ⟨a, ha, w, hw⟩ := exists_of_mem_observed hl
      exact honce (process_of_mem_obs hw (by simp) ▸ ha)
  have hclients : t.clients = s.net.clients := by rw [hs.amounts.1]
  have hhistory : t.history = s.net.history := by rw [hs.amounts.1]
  have heq := hgiven.2.eq (by rw [hclients]; exact hpc)
  rw [delivered, hclients, hhistory, hhist] at heq
  cases hlost : s.lost (.client i) with
  | false =>
      obtain ⟨ms, hque, hqueue⟩ := hs.amounts.2.here _ hlost
      rw [hqueue, ← List.append_assoc] at heq
      exact ⟨ms, by simpa using hque, heq ▸ List.prefix_append _ _, fun _ => heq⟩
  | true =>
      rcases hs.amounts.2.cut i hlost with ⟨ms, more, hque, hqueue, -⟩ | ⟨hnot, -⟩
      · rw [hqueue, ← List.append_assoc] at heq
        exact ⟨ms, by simpa using hque, heq ▸ List.prefix_append _ _, by rintro ⟨⟩⟩
      · rw [hs.starts.through hpc] at hnot
        cases hnot

theorem client_inOrder_keyArrived :
    ∃ u v s ms, exec (LibNet.step pair) LibNet.init (LibNet.keyArrived.take 7) = some u ∧
      u.step pair (.process (.subscribe true)) = some v ∧
      exec (LibNet.step pair) v (LibNet.keyArrived.drop 8) = some s ∧
      s.que (.client true) = ms.map some ++ [none] ∧
      (s.net.clients true).taken ++ ms <+:
        since s.net.history u.net.history.length (pair.ip true) := by
  obtain ⟨u, hu, hrest⟩ : ∃ u, exec (LibNet.step pair) LibNet.init (LibNet.keyArrived.take 7) =
      some u ∧ (exec (LibNet.step pair) u (LibNet.keyArrived.drop 7)).any (fun s =>
        decide (s.lost (.client true) = true ∧ Subscribed (s.net.clients true).pc)) = true :=
    exists_exec_of_any (by decide +kernel)
  obtain ⟨s, hs, hlost, hpc⟩ := exists_exec_of_any hrest
  obtain ⟨v, hv, hpost⟩ := exec_cons_some.mp (show exec (LibNet.step pair) u
    (.process (.subscribe true) :: LibNet.keyArrived.drop 8) = some s from hs)
  obtain ⟨ms, hque, hprefix, -⟩ := client_inOrder hu hv hpost (by decide +kernel) hpc
  rw [if_pos hlost] at hque
  exact ⟨u, v, s, ms, hu, hv, hpost, hque, hprefix⟩

/-- What the server takes in a run. -/
def served : List (LibLabel ι) → List (Msg ι) :=
  List.filterMap fun
    | .process (.server (.consume m)) => some m
    | _ => none

theorem consumed_obs (s : LibNet ι) (l : LibLabel ι) :
    consumed (nets (s.obs l)) = served [l] := by
  cases l with
  | disable | enable | deliver | lose =>
      rw [LibNet.obs, nets_map_swallow]
      · rfl
      · simp
  | process l =>
      rw [LibNet.obs, nets_map_net]
      cases l with
      | take j | register j | subscribe j | request j | stop j =>
          simp only [LibNet.netObs]
          split <;> rfl
      | start | serverSetups | serverRestart => rfl
      | server l => cases l <;> rfl

theorem consumed_observed {s t : LibNet ι} {ls : List (LibLabel ι)}
    (h : exec (LibNet.step cfg) s ls = some t) :
    consumed (nets (observed (LibNet.step cfg) LibNet.obs s ls)) = served ls := by
  induction ls generalizing s with
  | nil => rfl
  | cons l ls ih =>
      obtain ⟨u, hu, hrest⟩ := exec_cons_some.mp h
      rw [observed_cons_of_step hu, nets_append, consumed_append, consumed_obs, ih hrest, served,
        ← List.filterMap_append]
      rfl

/-- What a run amounts to swallows and takes what the run does. -/
theorem passed_observed {s t : LibNet ι} {ls : List (LibLabel ι)}
    (h : exec (LibNet.step cfg) s ls = some t) :
    passed (observed (LibNet.step cfg) LibNet.obs s ls) =
      observed (LibNet.step cfg) LibNet.swallows s ls ++ served ls := by
  rw [passed, consumed_observed h, LibNet.swallowed_observed h]

/-- In every run: from its subscription to the public channel on, a server that is up is given the
registration that was published last before it, and all that were published since, each once and in
order.  The first of them may be swallowed, and all behind these are for it to take. -/
theorem server_inOrder {pre post : List (LibLabel ι)} {u v s : LibNet ι}
    (hpre : exec (LibNet.step cfg) LibNet.init pre = some u)
    (hsetups : u.step cfg (.process .serverSetups) = some v)
    (hpost : exec (LibNet.step cfg) v post = some s)
    (honce : .process .serverSetups ∉ post) (hup : s.net.up = true) :
    onTopic (observed (LibNet.step cfg) LibNet.swallows v post ++ served post) subscibersList <+:
        since s.net.history u.net.history.length subscibersList ∧
      (s.lost .server = false → ∃ ms, s.que .server = ms.map some ∧
        onTopic (observed (LibNet.step cfg) LibNet.swallows v post ++ served post ++ ms ++
            s.net.broker.queue .server) subscibersList =
          since s.net.history u.net.history.length subscibersList) := by
  obtain ⟨tu, tv, t, htu, hu, hmoves, hv, ht, hs⟩ := exists_net_run rfl hpre hsetups hpost
  have hhist : tu.history = u.net.history := by rw [hu.amounts.1]
  -- `Unfed` is kept beside it: what is swallowed comes before anything that is taken
  have hfed : Wf cfg t ∧ Unfed ([] ++ observed (LibNet.step cfg) LibNet.obs v post) t ∧
      Fed subscibersList (fun m => decide (m.topic = subscibersList)) tu.history
        (lastOn tu.history subscibersList).toList
        (passed ([] ++ observed (LibNet.step cfg) LibNet.obs v post)) t := by
    refine inv_history (C := fun _ l => l ≠ .net .serverSetups) (I := fun hist w => Wf cfg w ∧
      Unfed hist w ∧ Fed _ _ tu.history _ (passed hist) w) ?_ ⟨hv.wf, fun _ _ => rfl,
        fed_setups hu.wf (not_owns_of_gapRun htu) hmoves⟩ (EachStep.of_labels ?_ tv) ht
    · rintro hist w l w' ⟨hwf, hunfed, hr⟩ hl hstep
      have hm := gapStep_moves hstep
      refine ⟨hwf.gapStep hm, hunfed.step hm hl, ?_⟩
      cases hm with
      | net hm =>
          rw [passed_net]
          have hne := fun heq => hl (congrArg GapLabel.net heq)
          exact fed_step foreign_public hwf hm (noRenewal_public hwf hne) hr
      | swallow hup hptr hq =>
          rw [hunfed.passed_swallow hup hptr]
          exact hr.swallow hq
    · rintro l hl rfl
      obtain ⟨a, ha, w, hw⟩ := exists_of_mem_observed hl
      exact honce (process_of_mem_obs hw (by simp) ▸ ha)
  have hhistory : t.history = s.net.history := by rw [hs.amounts.1]
  have heq : onTopic (observed (LibNet.step cfg) LibNet.swallows v post ++ served post ++
      t.broker.queue .server) subscibersList =
        since s.net.history u.net.history.length subscibersList := by
    have heq := hfed.2.2.eq (by rw [hs.amounts.1]; exact hup)
    rw [List.nil_append, passed_observed hpost] at heq
    rw [← hhistory, ← hhist, since_of_prefix hfed.2.2.le]
    exact heq
  constructor
  · rw [← heq]
    exact (List.prefix_append _ _).filter _
  · intro hlost
    obtain ⟨ms, hque, hqueue⟩ := hs.amounts.2.here _ hlost
    rw [hqueue, ← List.append_assoc] at heq
    exact ⟨ms, hque, heq⟩

/-- The registration of the first client arrives in the gap, that of the second behind it. -/
def oneSwallowed : List (LibLabel Bool) :=
  [.process .serverSetups, .process (.start true), .process (.register true userInfo),
    .disable .server, .deliver .server, .process (.start false),
    .process (.register false userInfo), .enable .server, .deliver .server,
    .process (.server (.consume (registrationOf false 1)))]

theorem server_inOrder_oneSwallowed :
    ∃ v s m m', LibNet.init.step pair (.process .serverSetups) = some v ∧
      exec (LibNet.step pair) v oneSwallowed.tail = some s ∧
      observed (LibNet.step pair) LibNet.swallows v oneSwallowed.tail = [m] ∧
      served oneSwallowed.tail = [m'] ∧
      onTopic [m, m'] subscibersList <+: since s.net.history 0 subscibersList := by
  obtain ⟨s, hs, hup⟩ : ∃ s, exec (LibNet.step pair) LibNet.init oneSwallowed = some s ∧
      s.net.up = true := exists_exec_of_any (by decide +kernel)
  obtain ⟨v, hv, hpost⟩ := exec_cons_some.mp (show exec (LibNet.step pair) LibNet.init
    (.process .serverSetups :: oneSwallowed.tail) = some s from hs)
  have hgiven := (server_inOrder (exec_nil _) hv hpost (by decide +kernel) hup).1
  have hswallows : (observed (LibNet.step pair) LibNet.swallows LibNet.init oneSwallowed).length =
      1 := by decide +kernel
  rw [oneSwallowed, observed_cons_of_step hv, List.length_append] at hswallows
  obtain ⟨m, hm⟩ := List.length_eq_one_iff.mp ((Nat.zero_add _).symm.trans hswallows)
  obtain ⟨m', hm'⟩ : ∃ m', served oneSwallowed.tail = [m'] := ⟨_, rfl⟩
  refine ⟨v, s, m, m', hv, hpost, hm, hm', ?_⟩
  rw [hm'] at hgiven
  rw [show observed _ _ v oneSwallowed.tail = [m] from hm] at hgiven
  exact hgiven

end BupApp.Delivery
