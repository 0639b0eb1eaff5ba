/-
# BupApp.Server.FailedRegistration -- what a failed registration leaves behind

`handleNewSubscriber` sets the will, subscribes, publishes the key and stores the entry, in this
order, in one try block; its catch prints the exception and nothing is undone.  The registry is safe,
since the entry comes last.  The will stays that of the host whose registration failed, and when it
was the publish of the key that threw, so does the subscription: these are the only subscriptions
without an entry that a waiting server can have.

An entry's channel is its address up to the first NUL, while `searchForClient` compares the whole
string: the requests of a host that has registered with a NUL behind its address are consumed, too,
and not found.
-/
import BupApp.App.Session

namespace BupApp.FailedRegistration

open BupApp.Lib.Text BupApp.Lib.Transition Server Session

variable {τ : Type} {cfg : Config}

/-! ## A registration and its end -/

/-- The server is about to handle the registration `m`, which decodes to `c`. -/
structure Received (u : Session τ) (m : Message τ) (c : Client) : Prop where
  loop : u.srv.loop = .received
  msgPtr : u.srv.msgPtr = some m
  topic : m.topic = subscibersList
  decoded : Client.ofMsg m.payload = some c

/-- A broker call of `handleNewSubscriber` throws. -/
inductive Throws : SessionLabel τ → Prop
  | subscribe : Throws (.server (.subscribe false))
  | publishKey : Throws (.server (.publishKey false))

/-- The step ends the handling of a registration. -/
def Ends (l : SessionLabel τ) : Prop := Throws l ∨ l = .server .store

/-- What is left in `v` of the registration of `c` that was received in `u` and failed at `l`. -/
structure LeftBehind (u : Session τ) (c : Client) (l : SessionLabel τ) (v : Session τ) : Prop where
  loop : v.srv.loop = .waiting
  clients : v.srv.clients = u.srv.clients
  will : v.will = some c.channel
  refused : l = .server (.subscribe false) → v.subs = u.subs
  keyless : l = .server (.publishKey false) → v.subs = u.subs ++ [c.channel]

/-- The handling of the registration is under way in `s`. -/
structure UnderWay (u : Session τ) (c : Client) (s : Session τ) : Prop where
  clients : s.srv.clients = u.srv.clients
  will : s.will = some c.channel
  at_ : (s.srv.loop = .subscribing c ∧ s.subs = u.subs) ∨
    (subscribedFor? s.srv.loop = some c ∧ s.subs = u.subs ++ [c.channel])

theorem underWay_of_dispatch {u v : Session τ} {m : Message τ} {c : Client} (h : Received u m c)
    (hs : Session.step cfg u (.server .dispatch) = some v) : UnderWay u c v := by
  obtain ⟨srv', es, -, hacts, -, rfl⟩ := step_server hs
  cases hacts with
  | register hl hm ht hc =>
      obtain rfl := Option.some.inj (h.msgPtr.symm.trans hm)
      obtain rfl := Option.some.inj (h.decoded.symm.trans hc)
      exact ⟨rfl, rfl, Or.inl ⟨rfl, rfl⟩⟩
  | spawn hl hm ht hip | ignore hl hm ht hip =>
      obtain rfl := Option.some.inj (h.msgPtr.symm.trans hm)
      exact absurd h.topic ht
  | handler hk hmove => cases hmove
  | crashes hc =>
      cases hc with
      | derefNull hl hm => exact absurd (h.msgPtr.symm.trans hm) (by simp)
      | noToken hl hm ht hc =>
          obtain rfl := Option.some.inj (h.msgPtr.symm.trans hm)
          exact absurd (h.decoded.symm.trans hc) (by simp)

theorem UnderWay.busy {u s : Session τ} {c : Client} (h : UnderWay u c s) :
    s.srv.loop ≠ .waiting ∧ s.srv.loop ≠ .received := by
  rcases h.at_ with ⟨hl, -⟩ | ⟨hl, -⟩
  · rw [hl]
    simp
  · refine ⟨?_, ?_⟩ <;>
    · intro hw
      rw [hw] at hl
      cases hl

theorem UnderWay.subscribing {u s : Session τ} {c d : Client} (h : UnderWay u c s)
    (hl : s.srv.loop = .subscribing d) : d = c ∧ s.subs = u.subs := by
  rcases h.at_ with ⟨hl', hsubs⟩ | ⟨hl', -⟩
  · exact ⟨LoopPc.subscribing.inj (hl.symm.trans hl'), hsubs⟩
  · rw [hl] at hl'
    cases hl'

theorem UnderWay.sendingKey {u s : Session τ} {c d : Client} (h : UnderWay u c s)
    (hl : s.srv.loop = .sendingKey d) : d = c ∧ s.subs = u.subs ++ [c.channel] := by
  rcases h.at_ with ⟨hl', -⟩ | ⟨hl', hsubs⟩
  · exact absurd (hl.symm.trans hl') (by simp)
  · rw [hl] at hl'
    exact ⟨Option.some.inj hl', hsubs⟩

/-- **The step lemma**: nothing but the end of the registration changes what it has done so far. -/
theorem UnderWay.step {u s s' : Session τ} {c : Client} {l : SessionLabel τ} (h : UnderWay u c s)
    (hl : ¬ Ends l) (hs : Session.step cfg s l = some s') : UnderWay u c s' := by
  cases l with
  | lose =>
      obtain rfl := step_lose hs
      exact ⟨h.clients, h.will, h.at_⟩
  | server l =>
      obtain ⟨srv', es, -, hacts, -, rfl⟩ := step_server hs
      cases hacts with
      | consume hloop | nullReconnected hloop | nullFailed hloop | nullThrew hloop =>
          exact absurd hloop h.busy.1
      | register hloop | spawn hloop | ignore hloop => exact absurd hloop h.busy.2
      | subscribed hloop =>
          obtain ⟨rfl, hsubs⟩ := h.subscribing hloop
          exact ⟨h.clients, h.will, Or.inr ⟨rfl, congrArg (· ++ [_]) hsubs⟩⟩
      | keySent hloop =>
          obtain ⟨rfl, hsubs⟩ := h.sendingKey hloop
          exact ⟨h.clients, h.will, Or.inr ⟨rfl, hsubs⟩⟩
      | subscribeThrew => exact absurd (Or.inl .subscribe) hl
      | keyThrew => exact absurd (Or.inl .publishKey) hl
      | stored => exact absurd (Or.inr rfl) hl
      | handler hk hmove => cases hmove <;> exact ⟨h.clients, h.will, h.at_⟩
      | crashes hc => cases hc <;> exact ⟨h.clients, h.will, h.at_⟩

theorem underWay_of_run {u v : Session τ} {m : Message τ} {c : Client} (h : Received u m c)
    {mid : List (SessionLabel τ)} (hmid : ∀ l ∈ mid, ¬ Ends l)
    (hrun : exec (Session.step cfg) u (.server .dispatch :: mid) = some v) : UnderWay u c v := by
  obtain ⟨w, hw, hrest⟩ := exec_cons_some.mp hrun
  exact inv_of_eachStep (fun _ _ _ hI hl hs => UnderWay.step hI hl hs) (underWay_of_dispatch h hw)
    (EachStep.of_labels hmid w) hrest

theorem UnderWay.leftBehind {u v v' : Session τ} {c : Client} {l : SessionLabel τ}
    (h : UnderWay u c v) (hl : Throws l) (hs : Session.step cfg v l = some v') :
    LeftBehind u c l v' := by
  cases hl with
  | subscribe =>
      obtain ⟨srv', es, -, hacts, -, rfl⟩ := step_server hs
      cases hacts with
      | subscribeThrew hloop =>
          exact ⟨rfl, h.clients, h.will, fun _ => (h.subscribing hloop).2, by simp⟩
      | handler hk hmove => cases hmove
      | crashes hc => cases hc
  | publishKey =>
      obtain ⟨srv', es, -, hacts, -, rfl⟩ := step_server hs
      cases hacts with
      | keyThrew hloop =>
          exact ⟨rfl, h.clients, h.will, by simp, fun _ => (h.sendingKey hloop).2⟩
      | handler hk hmove => cases hmove
      | crashes hc => cases hc

/-! ## Subscriptions without an entry -/

/-- In the run `ls` the publish of the key on the channel `t` threw. -/
def KeyThrew (cfg : Config) (s₀ : Session τ) (ls : List (SessionLabel τ)) (t : Str) : Prop :=
  ∃ pre post u c, ls = pre ++ .server (.publishKey false) :: post ∧
    exec (Session.step cfg) s₀ pre = some u ∧ u.srv.loop = .sendingKey c ∧ c.channel = t

/-- Why the server is subscribed to `t`. -/
def Accounted (cfg : Config) (s₀ : Session τ) (ls : List (SessionLabel τ)) (s : Session τ)
    (t : Str) : Prop :=
  t = subscibersList ∨ (∃ c ∈ s.srv.clients, c.channel = t) ∨
    (∃ c, subscribedFor? s.srv.loop = some c ∧ c.channel = t) ∨ KeyThrew cfg s₀ ls t

theorem KeyThrew.append {s₀ : Session τ} {ls : List (SessionLabel τ)} {t : Str}
    (h : KeyThrew cfg s₀ ls t) (more : List (SessionLabel τ)) : KeyThrew cfg s₀ (ls ++ more) t := by
  obtain ⟨pre, post, u, c, rfl, hu, hc⟩ := h
  exact ⟨pre, post ++ more, u, c, by simp, hu, hc⟩

theorem Accounted.step {s₀ s s' : Session τ} {ls : List (SessionLabel τ)} {l : SessionLabel τ}
    (hrun : exec (Session.step cfg) s₀ ls = some s) {t : Str} (h : Accounted cfg s₀ ls s t)
    (hs : Session.step cfg s l = some s') : Accounted cfg s₀ (ls ++ [l]) s' t := by
  cases l with
  | lose =>
      obtain rfl := step_lose hs
      exact h.imp_right (Or.imp_right (Or.imp_right fun hk => hk.append _))
  | server l =>
      obtain ⟨srv', es, -, hacts, -, rfl⟩ := step_server hs
      unfold Accounted
      rw [move_srv]
      rcases h with h | ⟨c, hc, rfl⟩ | ⟨c, hc, rfl⟩ | h
      · exact Or.inl h
      · exact Or.inr (Or.inl ⟨c, hacts.clients_prefix.subset hc, rfl⟩)
      · rcases leaves_subscribedFor hacts hc with hstay | ⟨d, hd, hip⟩ | ⟨rfl, hsending⟩
        · exact Or.inr (Or.inr (Or.inl ⟨c, hstay, rfl⟩))
        · exact Or.inr (Or.inl ⟨d, hd, congrArg cStr hip⟩)
        · -- the publish that throws here is the one that is asked for
          exact Or.inr (Or.inr (Or.inr ⟨ls, [], s, c, rfl, hrun, hsending, rfl⟩))
      · exact Or.inr (Or.inr (Or.inr (h.append _)))

/-- **Every subscription is accounted for.** -/
theorem accounted_of_run {setUp : Bool} {s : Session τ} {ls : List (SessionLabel τ)}
    (hrun : exec (Session.step cfg) (Session.start setUp) ls = some s) :
    ∀ t ∈ s.subs, Accounted cfg (Session.start setUp) ls s t := by
  have hinv := inv_history (C := fun _ _ => True)
    (I := fun ls s => exec (Session.step cfg) (Session.start setUp) ls = some s ∧
      ∀ t ∈ s.subs, Accounted cfg (Session.start setUp) ls s t) ?_ ⟨exec_nil _, ?_⟩
    (EachStep.of_forall (fun _ _ => trivial) _ _) hrun
  · exact hinv.2
  · rintro ls s l s' ⟨hto, hall⟩ - hs
    refine ⟨exec_snoc_some.mpr ⟨s, hto, hs⟩, ?_⟩
    intro t ht
    cases l with
    | lose =>
        have hold : t ∈ s.subs := by
          rw [step_lose hs] at ht
          exact ht
        exact (hall t hold).step hto hs
    | server l =>
        obtain ⟨srv', es, -, hacts, -, hmove⟩ := step_server hs
        rw [hmove, move_subs, List.mem_append] at ht
        rcases ht with hold | hnew
        · -- an old subscription: the connection is not a new one
          by_cases hnull : l = .consumeNull .reconnected
          · rw [hnull] at hold
            cases hold
          · rw [renew_of_ne hnull] at hold
            exact (hall t hold).step hto hs
        · obtain ⟨e, he, hsub⟩ := List.mem_filterMap.mp hnew
          cases e with
          | subscribe t' =>
              obtain rfl := Option.some.inj hsub
              rcases subscribe_of_acts hacts he with ⟨-, rfl⟩ | ⟨c, hc, rfl⟩
              · exact Or.inl cStr_subscibersList
              · refine Or.inr (Or.inr (Or.inl ⟨c, ?_, rfl⟩))
                rw [hmove, move_srv]
                exact hc
          | _ => cases hsub
  · intro t ht
    cases setUp with
    | false => cases ht
    | true => exact Or.inl (List.mem_singleton.mp ht)

/-- The registry has an entry for the channel `t` whose address goes on behind a NUL. -/
def HidesBehindNul (s : Session τ) (t : Str) : Prop :=
  ∃ c ∈ s.srv.clients, c.channel = t ∧ '\x00' ∈ c.ip

instance (s : Session τ) (t : Str) : Decidable (HidesBehindNul s t) :=
  inferInstanceAs (Decidable (∃ c ∈ s.srv.clients, _ ∧ _))

/-- A message on the channel of an address can be consumed only when the registry has an entry of
that address, or one that goes on behind a NUL, or the publish of the key to it threw. -/
theorem found_of_consumed {setUp : Bool} {s s' : Session τ} {ls : List (SessionLabel τ)}
    (hrun : exec (Session.step cfg) (Session.start setUp) ls = some s) {m : Message τ}
    (hs : Session.step cfg s (.server (.consume m)) = some s') (hsub : m.topic ∈ s.subs)
    (h4 : isIP4 m.topic = true) :
    searchForClient s.srv.clients m.topic ≠ none ∨ HidesBehindNul s m.topic ∨
      KeyThrew cfg (Session.start setUp) ls m.topic := by
  obtain ⟨srv', es, -, hacts, -, -⟩ := step_server hs
  cases hacts with
  | consume hloop =>
      rcases accounted_of_run hrun m.topic hsub with hpublic | ⟨c, hc, hip⟩ | ⟨c, hc, -⟩ | hthrew
      · rw [hpublic, isIP4_subscibersList] at h4
        cases h4
      · by_cases hnul : '\x00' ∈ c.ip
        · exact Or.inr (Or.inl ⟨c, hc, hip, hnul⟩)
        · rw [Client.channel_eq_ip hnul] at hip
          exact Or.inl fun hnone => searchForClient_eq_none_iff.mp hnone c hc hip
      · rw [hloop] at hc
        cases hc
      · exact Or.inr (Or.inr hthrew)
  | handler hk hmove => cases hmove
  | crashes hc => cases hc

/-- **What a failed registration leaves behind**: never an entry; the will of its host; its
subscription when it was the publish of the key that threw.  A server without an entry for one of
its subscriptions is handling that registration or has had such a failure.  Only then, and where an
entry hides its address behind a NUL, can it consume a request that the look-up does not find. -/
theorem failed_registration (cfg : Config) :
    (∀ (u v v' : Session τ) (m : Message τ) (c : Client) (mid : List (SessionLabel τ))
        (l : SessionLabel τ), Received u m c → (∀ a ∈ mid, ¬ Ends a) →
      exec (Session.step cfg) u (.server .dispatch :: mid) = some v → Throws l →
      Session.step cfg v l = some v' → LeftBehind u c l v') ∧
    ∀ (setUp : Bool) (ls : List (SessionLabel τ)) (s : Session τ),
      exec (Session.step cfg) (Session.start setUp) ls = some s →
      (∀ t ∈ s.subs, Accounted cfg (Session.start setUp) ls s t) ∧
      ∀ (m : Message τ) (s' : Session τ), Session.step cfg s (.server (.consume m)) = some s' →
        m.topic ∈ s.subs → isIP4 m.topic = true →
        searchForClient s.srv.clients m.topic ≠ none ∨ HidesBehindNul s m.topic ∨
          KeyThrew cfg (Session.start setUp) ls m.topic := by
  refine ⟨?_, ?_⟩
  · intro u v v' m c mid l hrec hmid hrun hl hs
    exact (underWay_of_run hrec hmid hrun).leftBehind hl hs
  · intro setUp ls s hrun
    exact ⟨accounted_of_run hrun, fun m s' hs => found_of_consumed hrun hs⟩

/-! ## Runs -/

def registration : Message Unit := registrationWith "10.0.0.2 ann"

def request : Message Unit := ⟨"10.0.0.2".toList, "~/a".toList, ()⟩

/-- The entry of `registration`. -/
def ann : Client := ⟨"10.0.0.2".toList, "ann".toList, [], []⟩

/-- `registration` has just been consumed. -/
def received : Session Unit :=
  ⟨{ Server.start with msgPtr := some registration, loop := .received }, .fresh, [subscibersList],
    none⟩

/-- Its channel is subscribed to. -/
def subscribed : Session Unit :=
  { received with
    srv := { received.srv with loop := .sendingKey ann }
    subs := [subscibersList, ann.ip]
    will := some ann.ip }

/-- The publish of the key has thrown. -/
def keyless : Session Unit :=
  { subscribed with srv := { subscribed.srv with loop := .waiting } }

theorem received_registration : Received received registration ann := ⟨rfl, rfl, rfl, by decide⟩

theorem received_subscribed : exec (Session.step lanCfg) received
    (.server .dispatch :: [.server (.subscribe true)]) = some subscribed := by decide +kernel

theorem subscribed_keyless :
    Session.step lanCfg subscribed (.server (.publishKey false)) = some keyless := by decide +kernel

theorem subscribe_not_ends :
    ∀ a ∈ [(.server (.subscribe true) : SessionLabel Unit)], ¬ Ends a := by
  intro a ha hends
  obtain rfl := List.mem_singleton.mp ha
  rcases hends with h | h
  · cases h
  · cases h

/-- When the publish of the key throws, the subscription and the will stay. -/
theorem failed_registration_not_undone :
    ¬ ∀ (cfg : Config) (u v v' : Session Unit) (m : Message Unit) (c : Client)
        (mid : List (SessionLabel Unit)) (l : SessionLabel Unit), Received u m c →
      (∀ a ∈ mid, ¬ Ends a) →
      exec (Session.step cfg) u (.server .dispatch :: mid) = some v → Throws l →
      Session.step cfg v l = some v' →
      v'.srv.clients = u.srv.clients ∧ v'.will = u.will ∧ v'.subs = u.subs := by
  intro hall
  obtain ⟨-, -, hsubs⟩ := hall lanCfg received subscribed keyless registration ann _ _
    received_registration subscribe_not_ends received_subscribed .publishKey subscribed_keyless
  exact absurd hsubs (by decide)

/-- A host whose key publish threw asks for a backup. -/
def orphanRun : List (SessionLabel Unit) :=
  [.server (.consume registration), .server .dispatch, .server (.subscribe true),
    .server (.publishKey false)]

/-- The request of the host without an entry can be consumed, and the failure accounts for it. -/
theorem orphan_accounted :
    LeftBehind received ann (.server (.publishKey false)) keyless ∧
    ∃ s s' : Session Unit, exec (Session.step lanCfg) (Session.start true) orphanRun = some s ∧
      Session.step lanCfg s (.server (.consume request)) = some s' ∧
      searchForClient s.srv.clients request.topic = none ∧
      KeyThrew lanCfg (Session.start true) orphanRun request.topic := by
  refine ⟨(failed_registration lanCfg).1 received subscribed keyless registration ann _ _
    received_registration subscribe_not_ends received_subscribed .publishKey subscribed_keyless, ?_⟩
  obtain ⟨s, hs, hnone, hnul, hsub, hstep⟩ := exists_exec_of_any
    (P := fun s : Session Unit => searchForClient s.srv.clients request.topic = none ∧
      ¬ HidesBehindNul s request.topic ∧ request.topic ∈ s.subs ∧
      (Session.step lanCfg s (.server (.consume request))).isSome = true)
    (show (exec (Session.step lanCfg) (Session.start true) orphanRun).any _ = true by
      decide +kernel)
  obtain ⟨s', hs'⟩ := Option.isSome_iff_exists.mp hstep
  refine ⟨s, s', hs, hs', hnone, ?_⟩
  rcases ((failed_registration lanCfg).2 true orphanRun s hs).2 request s' hs' hsub (by decide)
    with hfound | hhides | hthrew
  · exact absurd hnone hfound
  · exact absurd hhides hnul
  · exact hthrew

end BupApp.FailedRegistration
