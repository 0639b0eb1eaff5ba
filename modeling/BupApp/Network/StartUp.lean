/-
# BupApp.Network.StartUp -- which registrations a server learns of

All clients register on one public channel, whose retained slot holds one message.  A server that
subscribes is sent that one, and from then on every registration as it is published: it learns of
the last registration before its subscription and of all after it.  Of the registrations in between
two servers it never hears, but for the last one.

In `Net` a server takes everything it is sent.  The program subscribes before `start_consuming`, and
a registration that arrives between the two halves of that call is lost to it; this is left out
here and in `Net`, and added in `BupApp.Network.Gap`.
-/
import BupApp.App.NetworkSteps

set_option linter.unusedSectionVars false

namespace BupApp.StartUp

open BupApp.Lib.Transition BupApp.Lib.PubSub BupApp.Lib.PubSub.Broker Net
open Server (Acts)

variable {ι : Type} [DecidableEq ι] {cfg : NetConfig ι}

/-! ## What is asked of the registry -/

/-- The client is in `m_clients`. -/
def Known (cfg : NetConfig ι) (s : Net ι) (i : ι) : Prop := ∃ c ∈ s.srv.clients, c.ip = cfg.ip i

/-- Every client that has registered in its session is in the registry of a server that has handled
everything. -/
def AllKnown (cfg : NetConfig ι) (s : Net ι) : Prop :=
  s.up = true → Quiescent s → ∀ i, Registered (s.clients i).pc → Known cfg s i

/-- The server is not restarted and its steps succeed. -/
def Uninterrupted : NetLabel ι → Prop
  | .serverRestart => False
  | .server l => l.succeeds
  | _ => True

instance : ∀ l : NetLabel ι, Decidable (Uninterrupted l)
  | .server l => inferInstanceAs (Decidable l.succeeds)
  | .serverRestart => isFalse id
  | .start _ | .stop _ | .register _ _ | .subscribe _ | .take _ | .request _ _ | .serverSetups =>
      isTrue trivial

/-! ## The invariant -/

/-- The loop works on the message. -/
def Handles (srv : Server (Stamp ι)) (m : Msg ι) : Prop :=
  srv.msgPtr = some m ∧ srv.loop ≠ .waiting ∧ srv.loop ≠ .left

/-- A registration that reached the server waits, is being handled, or was handled. -/
def Heard (cfg : NetConfig ι) (s : Net ι) (m : Msg ι) (i : ι) : Prop :=
  m ∈ s.broker.queue .server ∨ Handles s.srv m ∨ Known cfg s i

/-- The registrations that are due are heard; `n` publications came before the subscription, `m₀`
was the last registration among them. -/
structure Inv (cfg : NetConfig ι) (n : Nat) (m₀ : Option (Msg ι)) (s : Net ι) : Prop where
  wf : Wf cfg s
  up : s.up = true
  heard : ∀ m ∈ s.history, ∀ i, m.tag.origin = .registration i → n ≤ m.tag.no ∨ m₀ = some m →
    Heard cfg s m i

/-! ## The public slot -/

/-- The server publishes nothing on the public channel. -/
theorem not_owns_step {s s' : Net ι} {l : NetLabel ι} (h : Wf cfg s) (hs : Moves cfg s l s')
    (ho : ¬ s.broker.Owns .server subscibersList) : ¬ s'.broker.Owns .server subscibersList := by
  intro ho'
  apply ho
  cases hs with
  | stop | serverRestart => exact owns_of_disconnect ho'
  | register | request => exact owns_of_publish ho' (Or.inl (by simp))
  | keySent hup halive hl =>
      obtain ⟨-, i, -, -, hip⟩ := h.pending _ (by rw [hl]; rfl)
      exact owns_of_publish ho' (Or.inr (hip ▸ ip_ne_subscibersList cfg i))
  | reply hup halive hk =>
      obtain ⟨-, ⟨i, hi⟩, -⟩ := h.replyTopic hk
      exact owns_of_publish ho' (Or.inr (hi ▸ ip_ne_subscibersList cfg i))
  | _ => exact ho'

/-! ## The steps -/

/-- What is published leaves the registrations where they are. -/
theorem Heard.publish {s : Net ι} {m : Msg ι} {i : ι} (h : Heard cfg s m i) (src : Party ι)
    (t p : Str) (o : Origin ι) : Heard cfg (s.publish src t p o) m i := by
  refine h.imp_left fun hq => ?_
  simp only [Net.publish, queue_publish]
  split
  · exact List.mem_append_left _ hq
  · exact hq

/-- A step of the server process that ends neither the loop nor the handling of a registration. -/
theorem Heard.acts {s : Net ι} {m : Msg ι} {i : ι} (hwf : Wf cfg s) (h : Heard cfg s m i)
    (hm : m ∈ s.history) (ho : m.tag.origin = .registration i) {l : Server.Label (Stamp ι)}
    {srv' : Server (Stamp ι)} {es : List Effect} (hacts : Acts cfg.server s.srv l srv' es)
    (hl : ∀ m, l ≠ .consume m) (hok : l.succeeds) : Heard cfg { s with srv := srv' } m i := by
  rcases h with hq | hloop | ⟨c, hc, hip⟩
  · exact Or.inl hq
  · obtain ⟨hptr, hnw, hnl⟩ := hloop
    have hpublic := hwf.topic_of_registration hm ho
    refine Or.inr ?_
    cases hacts with
    | consume => exact absurd rfl (hl _)
    | nullReconnected | nullFailed | nullThrew => exact hok.elim
    | register hloop hm' ht hc => exact Or.inl ⟨hptr, by simp, by simp⟩
    | spawn hloop hm' ht hip | ignore hloop hm' ht hip =>
        rw [Option.some.inj (hptr.symm.trans hm')] at hpublic
        exact absurd hpublic ht
    | subscribed hloop => exact Or.inl ⟨hptr, by simp, by simp⟩
    | keySent hloop => exact Or.inl ⟨hptr, by simp, by simp⟩
    | subscribeThrew hloop | keyThrew hloop => cases hok
    | @stored c hloop =>
        -- the entry is that of the author of the message the loop works on
        obtain ⟨m', j, hm', ho', hip⟩ := hwf.pending c (by rw [hloop]; rfl)
        obtain rfl := Option.some.inj (hptr.symm.trans hm')
        obtain rfl : i = j := by
          rw [ho] at ho'
          exact Origin.registration.inj ho'
        exact Or.inr ⟨c.setBackupTarget (backupTarget c.ip), by simp, hip⟩
    | handler | crashes => exact Or.inl ⟨hptr, hnw, hnl⟩
  · exact Or.inr (Or.inr ⟨c, hacts.clients_prefix.subset hc, hip⟩)

/-- Nothing that counts is published: the registrations stay due and heard. -/
theorem Inv.publish {n : Nat} {m₀ : Option (Msg ι)} {s : Net ι} (h : Inv cfg n m₀ s) {src : Party ι}
    {t p : Str} {o : Origin ι} (hwf : Wf cfg (s.publish src t p o))
    (ho : ∀ i, o = .registration i → src = .client i ∧ t = subscibersList) :
    Inv cfg n m₀ (s.publish src t p o) := by
  refine ⟨hwf, h.up, ?_⟩
  intro m hm i hreg hdue
  rcases List.mem_append.mp hm with hold | hnew
  · exact (h.heard m hold i hreg hdue).publish src t p o
  · -- a new registration goes straight into the server's queue
    obtain rfl := List.mem_singleton.mp hnew
    obtain ⟨rfl, rfl⟩ := ho i hreg
    refine Or.inl ?_
    simp [Net.publish, h.wf.forwards_public h.up i]

/-- The server and what it was sent stay as they are. -/
theorem Inv.congr {n : Nat} {m₀ : Option (Msg ι)} {s s' : Net ι} (h : Inv cfg n m₀ s)
    (hwf : Wf cfg s') (hup : s'.up = true) (hsrv : s'.srv = s.srv) (hh : s'.history = s.history)
    (hq : ∀ m ∈ s.broker.queue .server, m ∈ s'.broker.queue .server) : Inv cfg n m₀ s' := by
  refine ⟨hwf, hup, ?_⟩
  intro m hm i hreg hdue
  rw [hh] at hm
  rcases h.heard m hm i hreg hdue with hin | hrest
  · exact Or.inl (hq m hin)
  · refine Or.inr ?_
    rw [Known, hsrv]
    exact hrest

theorem Inv.acts {n : Nat} {m₀ : Option (Msg ι)} {s : Net ι} (h : Inv cfg n m₀ s)
    {l : Server.Label (Stamp ι)} {srv' : Server (Stamp ι)} {es : List Effect}
    (hacts : Acts cfg.server s.srv l srv' es) (hnn : l.nonNull) (hl : ∀ m, l ≠ .consume m)
    (hok : l.succeeds) : Inv cfg n m₀ { s with srv := srv' } :=
  ⟨h.wf.srvStep h.up hacts hnn fun m hm => absurd hm (hl m), h.up, fun m hm i hreg hdue =>
    (h.heard m hm i hreg hdue).acts h.wf hm hreg hacts hl hok⟩

/-- **The step lemma.** -/
theorem Inv.step {n : Nat} {m₀ : Option (Msg ι)} {s s' : Net ι} {l : NetLabel ι}
    (h : Inv cfg n m₀ s) (hl : Uninterrupted l) (hs : Moves cfg s l s') : Inv cfg n m₀ s' := by
  have hwf : Wf cfg s' := h.wf.step hs
  cases hs with
  | start => exact h.congr hwf h.up rfl rfl fun _ hm => hm
  | stop =>
      refine h.congr hwf h.up rfl rfl fun m hm => ?_
      rw [queue_disconnect_of_ne (by simp)]
      exact hm
  | @register i info hpc =>
      have hpub : Inv cfg n m₀ (s.publish (.client i) subscibersList (subscribeMsg (cfg.ip i) info)
          (.registration i)) :=
        h.publish (h.wf.publish ⟨rfl, info, rfl⟩) fun j hj => ⟨by cases hj; rfl, rfl⟩
      exact hpub.congr hwf h.up rfl rfl fun _ hm => hm
  | subscribe =>
      refine h.congr hwf h.up rfl rfl fun m hm => ?_
      rw [subscribeTo, queue_subscribe_of_ne (by simp)]
      exact hm
  | take =>
      refine h.congr hwf h.up rfl rfl fun m hm => ?_
      rw [queue_pop_of_ne (by simp)]
      exact hm
  | request => exact h.publish hwf fun i hi => by cases hi
  | serverSetups hup =>
      -- it is up already
      rw [h.up] at hup
      cases hup
  | serverRestart => exact hl.elim
  | consume _ hq hloop =>
      refine ⟨hwf, h.up, fun x hx i hreg hdue => ?_⟩
      -- the head goes to the loop, which was idle
      rcases h.heard x hx i hreg hdue with hin | hhandles | hknown
      · rw [hq] at hin
        rcases List.mem_cons.mp hin with rfl | hrest
        · exact Or.inr (Or.inl ⟨rfl, by simp, by simp⟩)
        · refine Or.inl ?_
          rw [queue_pop_self hq]
          exact hrest
      · exact absurd hloop hhandles.2.1
      · exact Or.inr (Or.inr hknown)
  | quiet hup halive hnc hnn hacts hes => exact h.acts hacts hnn hnc hl
  | srvSubscribe _ _ hloop =>
      have hacts := h.acts (.subscribed hloop) trivial (by simp) hl
      refine hacts.congr hwf h.up rfl rfl fun m hm => ?_
      rw [subscribeTo, queue_subscribe_self]
      exact List.mem_append_left _ hm
  | @keySent c hup halive hloop =>
      have hacts := h.acts (.keySent hloop) trivial (by simp) hl
      obtain ⟨m, i, -, -, hip⟩ := h.wf.pending c (by rw [hloop]; rfl)
      have hpub : Inv cfg n m₀ ({ s with srv := { s.srv with loop := .storing c } }.publish .server
          c.ip cfg.server.publicKey .key) :=
        hacts.publish (hacts.wf.publish ⟨⟨i, hip⟩, rfl⟩) fun i hi => by cases hi
      exact hpub.congr hwf h.up rfl rfl fun _ hm => hm
  | exec _ _ hk =>
      exact (h.acts (.handler hk .exec) trivial (by simp) hl).congr hwf h.up rfl rfl fun _ hm => hm
  | reply _ _ hk =>
      exact (h.acts (.handler hk .reply) trivial (by simp) hl).publish hwf fun i hi => by cases hi

/-- A server that subscribes is sent the last registration there was. -/
theorem Inv.setsUp {s : Net ι} (hwf : Wf cfg s)
    (ho : ¬ s.broker.Owns .server subscibersList) :
    Inv cfg s.history.length (lastOn s.history subscibersList)
      ({ s with up := true }.subscribeTo cfg .server subscibersList true) := by
  refine ⟨hwf.setsUp, rfl, fun m hm i hreg hdue => ?_⟩
  have hlast := hdue.resolve_left (Nat.not_le_of_lt (hwf.no_lt hm))
  refine Or.inl ?_
  rw [subscribeTo, queue_subscribe_self]
  refine List.mem_append_right _ ?_
  rw [offered_of_not_owns ((hwf.kept _).trans hlast) ho]
  exact List.mem_singleton_self m

/-! ## Runs -/

/-- **A server that was not interrupted since its subscription and has handled everything knows the
author of the last registration before the subscription, and of every one after it.** -/
theorem known_of_registered {before after : List (NetLabel ι)} {s₀ s : Net ι}
    (hbefore : exec (step cfg) init before = some s₀)
    (hafter : exec (step cfg) s₀ (.serverSetups :: after) = some s)
    (hun : ∀ l ∈ after, Uninterrupted l) (hq : Quiescent s) {m : Msg ι} {i : ι}
    (hm : m ∈ s.history) (hreg : m.tag.origin = .registration i)
    (hdue : s₀.history.length ≤ m.tag.no ∨ lastOn s₀.history subscibersList = some m) :
    Known cfg s i := by
  obtain ⟨hwf₀, ho₀⟩ : Wf cfg s₀ ∧ ¬ s₀.broker.Owns .server subscibersList :=
    inv_exec (I := fun s => Wf cfg s ∧ ¬ s.broker.Owns .server subscibersList)
      (fun _ _ _ h hs => ⟨h.1.step (step_moves hs), not_owns_step h.1 (step_moves hs) h.2⟩)
      ⟨wf_init, not_owns_empty _ _⟩ hbefore
  obtain ⟨s₁, hs₁, hrest⟩ := exec_cons_some.mp hafter
  have hinv : Inv cfg s₀.history.length (lastOn s₀.history subscibersList) s := by
    have hmoves := step_moves hs₁
    cases hmoves with
    | serverSetups hup =>
        exact inv_of_eachStep (fun _ _ _ h hl hs => h.step hl (step_moves hs)) (Inv.setsUp hwf₀ ho₀)
          (EachStep.of_labels hun _) hrest
  rcases hinv.heard m hm i hreg hdue with hin | hhandles | hknown
  · rw [hq.queue] at hin
    cases hin
  · exact absurd hq.loop hhandles.2.1
  · exact hknown

/-- Two clients register, and then a server starts. -/
def lateServer : List (NetLabel Bool) :=
  [.start true, .start false, .register true userInfo, .register false userInfo]

/-- The retained registration is that of the second client. -/
theorem second_known : ∃ s, exec (step pair) init
      (lateServer ++ .serverSetups :: handleRegistration false 1) = some s ∧
    Quiescent s ∧ Known pair s false := by
  obtain ⟨s₀, hs₀, hlast⟩ := exists_exec_of_any
    (P := fun s => lastOn s.history subscibersList = some (registrationOf false 1))
    (show (exec (step pair) init lateServer).any _ = true by decide +kernel)
  obtain ⟨s, hs, hq, hm⟩ := exists_exec_of_any
    (P := fun s => Quiescent s ∧ registrationOf false 1 ∈ s.history)
    (show (exec (step pair) init
      (lateServer ++ .serverSetups :: handleRegistration false 1)).any _ = true by decide +kernel)
  obtain ⟨u, hu, hafter⟩ := exec_append_some.mp hs
  obtain rfl : s₀ = u := Option.some.inj (hs₀.symm.trans hu)
  exact ⟨s, hs, hq, known_of_registered hs₀ hafter (by decide) hq hm rfl (Or.inr hlast)⟩

/-- The first client has registered and not stopped, and the server will never hear of it. -/
theorem first_lost : ∃ s, exec (step pair) init
      (lateServer ++ .serverSetups :: handleRegistration false 1) = some s ∧
    s.up = true ∧ Quiescent s ∧ (s.clients true).pc = .registered ∧ ¬ AllKnown pair s := by
  obtain ⟨s, hs, hup, hq, hpc, hnone⟩ := exists_exec_of_any
    (P := fun s => s.up = true ∧ Quiescent s ∧ (s.clients true).pc = .registered ∧
      ∀ c ∈ s.srv.clients, c.ip ≠ pair.ip true)
    (show (exec (step pair) init
      (lateServer ++ .serverSetups :: handleRegistration false 1)).any _ = true by decide +kernel)
  refine ⟨s, hs, hup, hq, hpc, fun hall => ?_⟩
  obtain ⟨c, hc, hip⟩ := hall hup hq true (hpc ▸ Or.inl rfl)
  exact hnone c hc hip

end BupApp.StartUp
