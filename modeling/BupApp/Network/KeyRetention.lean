/-
# BupApp.Network.KeyRetention -- the key between its publication and the subscription

The server publishes its key retained, so that a client that subscribes later still gets it.  But
the slot it is retained in is the one of the private channel, and the handlers of the requests of an
earlier session publish their replies there.  The file says exactly when the key is still there:
when no reply falls between the publication of the key and the subscription of its client.
-/
import BupApp.App.NetworkSteps

set_option linter.unusedSectionVars false

namespace BupApp.KeyRetention

open BupApp.Lib.Transition BupApp.Lib.PubSub BupApp.Lib.PubSub.Broker Net

variable {ι : Type} [DecidableEq ι] {cfg : NetConfig ι}

/-! ## The window -/

/-- The key was published in answer to the registration of the client's session. -/
def Answered (s : Net ι) (i : ι) : Prop :=
  ∃ n, (s.clients i).registration = some n ∧ n ∈ s.answered

/-- The key was delivered to the client in its session. -/
def HasKey (cfg : NetConfig ι) (s : Net ι) (i : ι) : Prop :=
  ∃ m ∈ delivered s i, m.payload = cfg.server.publicKey

instance (s : Net ι) (i : ι) : Decidable (Answered s i) :=
  decidable_of_iff (∃ n ∈ s.answered, (s.clients i).registration = some n)
    ⟨fun ⟨n, hn, hr⟩ => ⟨n, hr, hn⟩, fun ⟨n, hr, hn⟩ => ⟨n, hn, hr⟩⟩

instance (s : Net ι) (i : ι) : Decidable (HasKey cfg s i) :=
  inferInstanceAs (Decidable (∃ m ∈ delivered s i, _))

/-- The retained message of the client's channel is the key. -/
def Retained (cfg : NetConfig ι) (s : Net ι) (i : ι) : Prop :=
  ∃ m, s.broker.kept (cfg.ip i) = some m ∧ m.payload = cfg.server.publicKey

/-- A published key is not lost: it waits for the subscription, and a client that waits in
`getPublicKeyMsg` has it in its queue or had it there. -/
def KeyKept (cfg : NetConfig ι) (s : Net ι) : Prop :=
  ∀ i, Answered s i →
    ((s.clients i).pc = .registered → HasKey cfg s i ∨ Retained cfg s i) ∧
    ((s.clients i).pc = .waiting → HasKey cfg s i)

/-- The step is no reply on the channel of a client whose key waits for its subscription, unless
the text of the reply is that of the key. -/
def NoLateReply (cfg : NetConfig ι) (s : Net ι) : NetLabel ι → Prop
  | .server (.reply k true) => ∀ i msg p rc,
      s.srv.threadPool[k]? = some ⟨msg, .replyBuilt (cfg.ip i) p rc⟩ →
      (s.clients i).pc = .registered → Answered s i → replyMsg p rc = cfg.server.publicKey
  | _ => True

structure Inv (cfg : NetConfig ι) (s : Net ι) : Prop where
  wf : Wf cfg s
  answered : ∀ n ∈ s.answered, n < s.history.length
  kept : KeyKept cfg s

/-! ## What a step does to the key -/

/-- Nothing happens to the clients, their messages and what is retained for them. -/
theorem KeyKept.congr {s s' : Net ι} (h : KeyKept cfg s) (hcl : s'.clients = s.clients)
    (ha : s'.answered = s.answered)
    (hq : ∀ i, s'.broker.queue (.client i) = s.broker.queue (.client i))
    (hk : ∀ t, s'.broker.kept t = s.broker.kept t) : KeyKept cfg s' := by
  intro i hans
  have hold := h i (by rw [Answered, hcl, ha] at hans; exact hans)
  simp only [HasKey, Retained, delivered, hcl, hq, hk] at hold ⊢
  exact hold

/-- One client moves; the others keep what they have. -/
theorem KeyKept.client {s s' : Net ι} (h : KeyKept cfg s) {i : ι} {c : AppClient (Stamp ι)}
    (hcl : s'.clients = Function.update s.clients i c) (ha : s'.answered = s.answered)
    (hq : ∀ j, j ≠ i → s'.broker.queue (.client j) = s.broker.queue (.client j))
    (hk : ∀ t, s'.broker.kept t = s.broker.kept t)
    (hi : Answered s' i → (c.pc = .registered → HasKey cfg s' i ∨ Retained cfg s' i) ∧
      (c.pc = .waiting → HasKey cfg s' i)) : KeyKept cfg s' := by
  intro j hans
  by_cases hj : j = i
  · subst hj
    rw [hcl, Function.update_self]
    exact hi hans
  · have hother : s'.clients j = s.clients j := by rw [hcl, Function.update_of_ne hj]
    have hold := h j (by rw [Answered, hother, ha] at hans; exact hans)
    simp only [HasKey, Retained, delivered, hother, hq j hj, hk] at hold ⊢
    exact hold

theorem HasKey.publish {s : Net ι} {i : ι} (h : HasKey cfg s i) (src : Party ι) (t p : Str)
    (o : Origin ι) : HasKey cfg (s.publish src t p o) i := by
  obtain ⟨m, hm, hpay⟩ := h
  refine ⟨m, ?_, hpay⟩
  rcases List.mem_append.mp hm with htaken | hqueue
  · exact List.mem_append_left _ htaken
  · refine List.mem_append_right _ ?_
    simp only [Net.publish, queue_publish]
    split
    · exact List.mem_append_left _ hqueue
    · exact hqueue

/-- What is published on a channel replaces the key that waits there. -/
theorem KeyKept.publish {s : Net ι} (h : KeyKept cfg s) {src : Party ι} {t p : Str} {o : Origin ι}
    (hne : cfg.server.publicKey ≠ [])
    (hsafe : ∀ i, t = cfg.ip i → (s.clients i).pc = .registered → Answered s i →
      p = cfg.server.publicKey) : KeyKept cfg (s.publish src t p o) := by
  intro i hans
  have hans' : Answered s i := hans
  obtain ⟨hreg, hwait⟩ := h i hans'
  refine ⟨fun hpc => ?_, fun hpc => (hwait hpc).publish src t p o⟩
  by_cases ht : t = cfg.ip i
  · -- what replaces the key has its text
    obtain rfl := hsafe i ht hpc hans'
    refine Or.inr ⟨⟨t, cfg.server.publicKey, ⟨o, s.history.length⟩⟩, ?_, rfl⟩
    simp [Net.publish, ht, hne]
  · rcases hreg hpc with hhas | ⟨m, hm, hpay⟩
    · exact Or.inl (hhas.publish src t p o)
    · refine Or.inr ⟨m, ?_, hpay⟩
      simp only [Net.publish, kept_publish, if_neg (Ne.symm ht)]
      exact hm

/-- The key is published: it waits for its client, or it is delivered. -/
theorem key_after_publish {s : Net ι} (hwf : Wf cfg s) (hne : cfg.server.publicKey ≠ [])
    (i : ι) :
    let s' := s.publish .server (cfg.ip i) cfg.server.publicKey .key
    Retained cfg s' i ∧ (Subscribed (s.clients i).pc → HasKey cfg s' i) := by
  have hkey : ∃ m : Msg ι, m = ⟨cfg.ip i, cfg.server.publicKey, ⟨.key, s.history.length⟩⟩ := ⟨_, rfl⟩
  obtain ⟨m, hm⟩ := hkey
  refine ⟨⟨m, ?_, by rw [hm]⟩, fun hsub => ⟨m, List.mem_append_right _ ?_, by rw [hm]⟩⟩
  · simp only [Net.publish, kept_publish, if_true, hne, decide_false, Bool.false_eq_true, if_false,
      hm]
  · simp [hm, Net.publish, hwf.forwards_client, hsub]

/-- The list of answered registrations grows with the one whose key is sent. -/
theorem Inv.answered_step {s s' : Net ι} {l : NetLabel ι} (h : Inv cfg s)
    (hs : Moves cfg s l s') : ∀ n ∈ s'.answered, n < s'.history.length := by
  have hlonger : ∀ n ∈ s.answered, ∀ ms : List (Msg ι), n < (s.history ++ ms).length := by
    intro n hn ms
    have hlt := h.answered n hn
    rw [List.length_append]
    omega
  cases hs with
  | register | request | reply => exact fun n hn => hlonger n hn _
  | @keySent c hup halive hloop =>
      obtain ⟨m, i, hm, -, -⟩ := h.wf.pending c (by rw [hloop]; rfl)
      intro n hn
      rcases List.mem_append.mp hn with hold | hnew
      · exact hlonger n hold _
      · obtain rfl : n = m.tag.no := by simpa [hm] using hnew
        have hlt := h.wf.no_lt (h.wf.knows.msgPtr m hm)
        simp only [Net.publish, List.length_append]
        omega
  | _ => exact h.answered

/-- The key of the registration the loop works on is published. -/
theorem Inv.keySent {s : Net ι} (h : Inv cfg s) (hne : cfg.server.publicKey ≠ []) {c : Client}
    (hl : s.srv.loop = .sendingKey c) :
    KeyKept cfg { { s with srv := { s.srv with loop := .storing c } }.publish .server c.ip
      cfg.server.publicKey .key with
        answered := s.answered ++ (s.srv.msgPtr.map fun m => m.tag.no).toList } := by
  obtain ⟨m, i, hm, ho, hip⟩ := h.wf.pending c (by rw [hl]; rfl)
  have hpub : KeyKept cfg (s.publish .server c.ip cfg.server.publicKey .key) :=
    h.kept.publish hne fun _ _ _ _ => rfl
  intro j hans
  by_cases hj : i = j
  · subst hj
    obtain ⟨hret, hhas⟩ := key_after_publish h.wf hne i
    rw [← hip] at hret hhas
    exact ⟨fun _ => Or.inr hret, fun hpc => hhas (Or.inl hpc)⟩
  · obtain ⟨n, hn, hmem⟩ := hans
    rcases List.mem_append.mp hmem with hold | hnew
    · exact hpub j ⟨n, hn, hold⟩
    · -- the registration that is answered is the one of `i`
      obtain rfl : n = m.tag.no := by simpa [hm] using hnew
      obtain ⟨m', hm', ho'⟩ := h.wf.registration j _ hn
      rw [h.wf.getElem_no (h.wf.knows.msgPtr m hm)] at hm'
      rw [← Option.some.inj hm', ho] at ho'
      cases ho'
      exact absurd rfl hj

/-- The subscription gets what waits for it. -/
theorem Inv.subscribes {s : Net ι} (h : Inv cfg s) {i : ι} (hpc : (s.clients i).pc = .registered) :
    KeyKept cfg ((s.setClient i { s.clients i with pc := .waiting }).subscribeTo cfg (.client i)
      (cfg.ip i) false) := by
  refine h.kept.client rfl rfl (fun j hj => queue_subscribe_of_ne (by simpa using hj) _ _ _)
    (fun t => rfl) fun hans => ⟨by simp, fun _ => ?_⟩
  have hans' : Answered s i := by simpa [Answered, setClient, subscribeTo] using hans
  have hdel : delivered ((s.setClient i { s.clients i with pc := .waiting }).subscribeTo cfg
      (.client i) (cfg.ip i) false) i =
      delivered s i ++ s.broker.offered cfg.resendOwn (.client i) (cfg.ip i) ⟨false⟩ := by
    simp only [delivered, subscribeTo, setClient, Function.update_self, queue_subscribe_self,
      List.append_assoc]
  rw [HasKey, hdel]
  rcases (h.kept i hans').1 hpc with ⟨m, hm, hpay⟩ | ⟨m, hm, hpay⟩
  · exact ⟨m, List.mem_append_left _ hm, hpay⟩
  · exact ⟨m, List.mem_append_right _ (by rw [offered_of_local hm]; simp), hpay⟩

/-- A client that takes a message has had it. -/
theorem Inv.takes {s : Net ι} (h : Inv cfg s) {i : ι} {m : Msg ι} {rest : List (Msg ι)}
    (hq : s.broker.queue (.client i) = m :: rest) (hsub : Subscribed (s.clients i).pc) :
    KeyKept cfg { s.setClient i ((s.clients i).take (cfg.ip i) m) with
      broker := s.broker.pop (.client i) } := by
  refine h.kept.client rfl rfl (fun j hj => queue_pop_of_ne (by simpa using hj)) (fun t => rfl)
    fun hans => ⟨fun hpc => ?_, fun hpc => ?_⟩
  · have hsub' := subscribed_take (cfg.ip i) m hsub
    rw [hpc] at hsub'
    simp [Subscribed] at hsub'
  · have hans' : Answered s i := by simpa [Answered, setClient] using hans
    have hwait : (s.clients i).pc = .waiting := by
      rw [take_pc] at hpc
      split at hpc
      · cases hpc
      · exact hpc
    have hdel : delivered { s.setClient i ((s.clients i).take (cfg.ip i) m) with
        broker := s.broker.pop (.client i) } i = delivered s i := by
      simp only [delivered, setClient, Function.update_self, take_taken, queue_pop_self hq, hq,
        List.append_assoc, List.singleton_append]
    rw [HasKey, hdel]
    exact (h.kept i hans').2 hwait

/-- **The step lemma.** -/
theorem Inv.step (hne : cfg.server.publicKey ≠ []) {s s' : Net ι} {l : NetLabel ι}
    (h : Inv cfg s) (hl : NoLateReply cfg s l) (hs : Moves cfg s l s') : Inv cfg s' := by
  refine ⟨h.wf.step hs, h.answered_step hs, ?_⟩
  have hk := h.kept
  cases hs with
  | start hpc => exact hk.client rfl rfl (fun _ _ => rfl) (fun _ => rfl) fun _ => ⟨by simp, by simp⟩
  | stop hpc =>
      exact hk.client rfl rfl (fun j hj => queue_disconnect_of_ne (by simpa using hj))
        (kept_disconnect _) fun _ => ⟨by simp, by simp⟩
  | @register i info hpc =>
      have hpub : KeyKept cfg (s.publish (.client i) subscibersList (subscribeMsg (cfg.ip i) info)
          (.registration i)) := hk.publish hne fun j hj => absurd hj.symm (ip_ne_subscibersList cfg j)
      refine hpub.client rfl rfl (fun _ _ => rfl) (fun _ => rfl) fun hans => ?_
      -- a registration that has just been published is not answered
      obtain ⟨n, hn, hmem⟩ := hans
      obtain rfl : s.history.length = n := by simpa [Net.publish, setClient] using hn
      exact absurd (h.answered _ hmem) (Nat.lt_irrefl _)
  | subscribe hpc => exact h.subscribes hpc
  | take hq hpc => exact h.takes hq hpc
  | @request i path hpc =>
      refine hk.publish hne fun j hj hreg => ?_
      obtain rfl := cfg.distinct i j hj
      rw [hpc] at hreg
      cases hreg
  | serverSetups hup =>
      exact hk.congr rfl rfl (fun i => queue_subscribe_of_ne (by simp) _ _ _) fun _ => rfl
  | serverRestart =>
      exact hk.congr rfl rfl (fun i => queue_disconnect_of_ne (by simp)) (kept_disconnect _)
  | consume => exact hk.congr rfl rfl (fun i => queue_pop_of_ne (by simp)) fun _ => rfl
  | srvSubscribe =>
      exact hk.congr rfl rfl (fun i => queue_subscribe_of_ne (by simp) _ _ _) fun _ => rfl
  | keySent hup halive hloop => exact h.keySent hne hloop
  | quiet | exec => exact hk.congr rfl rfl (fun _ => rfl) fun _ => rfl
  | @reply k msg t p rc hup halive hk' =>
      have hmid : KeyKept cfg { s with srv := s.srv.setPc k .finished } :=
        hk.congr rfl rfl (fun _ => rfl) fun _ => rfl
      exact hmid.publish hne fun i hi hpc hans => hl i msg p rc (hi ▸ hk') hpc hans

/-- A client that has not subscribed has been delivered nothing. -/
theorem not_hasKey {s : Net ι} (h : Wf cfg s) {i : ι} (hpc : (s.clients i).pc = .registered) :
    ¬ HasKey cfg s i := by
  have hns : ¬ Subscribed (s.clients i).pc := by
    rw [hpc]
    simp [Subscribed]
  rintro ⟨m, hm, -⟩
  rw [delivered, h.fresh i hns (by rw [hpc]; simp), h.unsubscribed i hns] at hm
  cases hm

/-- A late reply that leaves the key where it was has its text. -/
theorem Inv.noLateReply {s s' : Net ι} {l : NetLabel ι} (h : Inv cfg s) (hs : Moves cfg s l s')
    (hkept : KeyKept cfg s') : NoLateReply cfg s l := by
  unfold NoLateReply
  split
  · rename_i k
    intro i msg p rc hk hpc hans
    cases hs with
    | quiet hup halive hnc hnn hacts hes =>
        cases hacts with
        | handler hk' hmove =>
            cases hmove
            exact absurd (hes _ (List.mem_singleton_self _)) id
        | crashes hc => cases hc
    | @reply _ msg' t p' rc' hup halive hk' =>
        obtain ⟨rfl, rfl, rfl, rfl⟩ : msg' = msg ∧ t = cfg.ip i ∧ p' = p ∧ rc' = rc := by
          simpa using hk'.symm.trans hk
        -- the client has nothing yet, so the slot must hold the key, and it holds the reply
        have hwf := h.wf.step (.reply hup halive hk')
        have hret := ((hkept i hans).1 hpc).resolve_left (not_hasKey hwf hpc)
        obtain ⟨m, hm, hpay⟩ := hret
        have hnil : replyMsg p' rc' ≠ [] := replyMsg_ne_nil p' rc'
        simp only [Net.publish, kept_publish, if_true, hnil, decide_false, Bool.false_eq_true,
          if_false, Option.some.injEq] at hm
        rw [← hpay, ← hm]
  · trivial

/-- **The key is kept in every state of a run exactly when no reply comes between its publication and
the subscription of its client.** -/
theorem keyKept_iff_noLateReply (hne : cfg.server.publicKey ≠ []) {ls : List (NetLabel ι)}
    {s : Net ι} (hrun : exec (step cfg) init ls = some s) :
    Always (step cfg) (KeyKept cfg) init ls ↔ EachStep (step cfg) (NoLateReply cfg) init ls :=
  always_iff_eachStep (I := Inv cfg) (fun _ h => h.kept)
    (fun _ _ _ h hl hs => h.step hne hl (step_moves hs))
    (fun _ _ _ h hs hk => h.noLateReply (step_moves hs) hk)
    ⟨wf_init, by simp [init], fun i hans => by simp [Answered, init, AppClient.off] at hans⟩ hrun

/-- A client of two sessions, the second of them up to its subscription: a handler of the first one
has not replied yet. -/
def secondSession : List (NetLabel Bool) :=
  firstSession ++ [.request true "~/notes".toList,
    .server (.consume ⟨pair.ip true, "~/notes".toList, ⟨.request true, 2⟩⟩),
    .server .dispatch, .server (.readTopic 0), .server (.readPayload 0), .server (.lookup 0),
    .server (.exec 0 (some true)), .stop true, .start true, .register true userInfo] ++
    handleRegistration true 3

/-- The step is a reply. -/
def isReply : NetLabel ι → Bool
  | .server (.reply _ _) => true
  | _ => false

theorem key_kept_by_subscription :
    Always (step pair) (KeyKept pair) init (secondSession ++ [.subscribe true]) := by
  obtain ⟨s, hs, -⟩ := exists_exec_of_any (P := fun _ => True)
    (show (exec (step pair) init (secondSession ++ [.subscribe true])).any _ = true by
      decide +kernel)
  refine (keyKept_iff_noLateReply (by decide) hs).mpr ?_
  have hlabels : ∀ l ∈ secondSession ++ [.subscribe true], isReply l = false := by decide
  refine (EachStep.of_labels hlabels init).mono fun s l hl => ?_
  unfold NoLateReply
  split
  · cases hl
  · trivial

/-- The handler replies when the key is published and the client has not subscribed. -/
def lateReply : List (NetLabel Bool) :=
  secondSession ++ [.server (.reply 0 true), .subscribe true, .take true]

/-- The client waits for a key that was published, and neither has it nor will get it. -/
theorem key_lost : ∃ s, exec (step pair) init lateReply = some s ∧ Answered s true ∧
    (s.clients true).pc = .waiting ∧ delivered s true ≠ [] ∧ ¬ KeyKept pair s := by
  obtain ⟨s, hs, hans, hpc, hdel, hhas⟩ := exists_exec_of_any
    (P := fun s => Answered s true ∧ (s.clients true).pc = .waiting ∧ delivered s true ≠ [] ∧
      ¬ HasKey pair s true)
    (show (exec (step pair) init lateReply).any _ = true by decide +kernel)
  exact ⟨s, hs, hans, hpc, hdel, fun hkept => hhas ((hkept true hans).2 hpc)⟩

end BupApp.KeyRetention
