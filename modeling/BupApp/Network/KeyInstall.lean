/-
# BupApp.Network.KeyInstall -- what a client takes for the key

`getPublicKeyMsg` takes the first message on the private channel that contains "ssh-rsa".  The paths
its user typed in an earlier session were published on the same channel and are retained there, so a
path with that text is taken for the key, and so is the reply that quotes it.  Without such a path
nothing but the key passes the test: a registration is on another channel, and a reply contains the
text only where it quotes a path.
-/
import BupApp.App.NetworkSteps

set_option linter.unusedSectionVars false

namespace BupApp.KeyInstall

open BupApp.Lib.Text BupApp.Lib.Ipv4 BupApp.Lib.Transition BupApp.Lib.PubSub Net

variable {ι : Type} [DecidableEq ι] {cfg : NetConfig ι}

/-! ## The texts -/

/-- A reply contains what looks like a key exactly when the path it quotes does. -/
theorem isMsgTypeOf_replyMsg (p : Str) (rc : Bool) :
    isMsgTypeOf keyType (replyMsg p rc) = true ↔ isMsgTypeOf keyType p = true := by
  have hspace : ' ' ∉ keyType := by decide
  have hhead : contains keyType "Msg from Server:".toList = false := by decide
  have htail : contains keyType ("backup ".toList ++
      (if rc then "succeed!".toList else "failed! ".toList)) = false := by
    cases rc <;> decide
  have hreply : replyMsg p rc = "Msg from Server:".toList ++ ' ' :: (p ++ ' ' ::
      ("backup ".toList ++ (if rc then "succeed!".toList else "failed! ".toList))) := by
    have hserver : "Msg from Server: ".toList = "Msg from Server:".toList ++ [' '] := by decide
    have hbackup : " backup ".toList = ' ' :: "backup ".toList := by decide
    show "Msg from Server: ".toList ++ p ++ " backup ".toList ++ _ = _
    rw [hserver, hbackup]
    simp only [List.append_assoc, List.cons_append, List.nil_append]
  rw [isMsgTypeOf, isMsgTypeOf, hreply, contains_append_sep hspace, contains_append_sep hspace, hhead,
    htail]
  simp

/-- A registration is not taken for a request. -/
theorem isBackupMsg_subscribeMsg {ip : Str} (h : dottedQuad ip = true) (info : Str) :
    isBackupMsg (subscribeMsg ip info) = false := by
  obtain ⟨c, t, rfl, hc⟩ := dottedQuad_head h
  by_contra hp
  have hhead := head?_of_isBackupMsg (Bool.not_eq_false _ ▸ hp)
  -- the first character would be the tilde and a digit
  obtain rfl : c = '~' := Option.some.inj hhead
  cases hc

/-! ## The invariant -/

/-- Nothing was installed but the server's key. -/
def OnlyKeyInstalled (cfg : NetConfig ι) (s : Net ι) : Prop :=
  ∀ i, ∀ k ∈ (s.clients i).installed, k = cfg.server.publicKey

/-- A path that its user types is the key itself or does not look like one. -/
def TypesNoKey (cfg : NetConfig ι) : NetLabel ι → Prop
  | .request _ path => isMsgTypeOf keyType path = true → path = cfg.server.publicKey
  | _ => True

instance : ∀ l : NetLabel ι, Decidable (TypesNoKey cfg l)
  | .request _ path => inferInstanceAs (Decidable (isMsgTypeOf keyType path = true → path = _))
  | .start _ | .stop _ | .register _ _ | .subscribe _ | .take _ | .serverSetups | .serverRestart
  | .server _ => isTrue trivial

structure Inv (cfg : NetConfig ι) (s : Net ι) : Prop where
  wf : Wf cfg s
  /-- What looks like a key on a private channel is the key. -/
  clean : ∀ m ∈ s.history, ∀ i, m.topic = cfg.ip i → isMsgTypeOf keyType m.payload = true →
    m.payload = cfg.server.publicKey
  installed : OnlyKeyInstalled cfg s

/-- No path the server takes for a request looks like a key. -/
theorem Inv.quoted {s : Net ι} (h : Inv cfg s) (hkey : isBackupMsg cfg.server.publicKey = false)
    {m : Msg ι} (hm : m ∈ s.history) (hp : isBackupMsg m.payload = true) :
    isMsgTypeOf keyType m.payload = false := by
  by_contra hlooks
  -- on a private channel it would be the key, which is no request
  have hprivate : ∀ i, m.topic ≠ cfg.ip i := by
    intro i ht
    rw [h.clean m hm i ht (Bool.not_eq_false _ ▸ hlooks), hkey] at hp
    cases hp
  have hshape := h.wf.shape m hm
  unfold Shape at hshape
  split at hshape
  · rename_i i ho
    obtain ⟨-, info, hpay⟩ := hshape
    rw [hpay, isBackupMsg_subscribeMsg (cfg.quad i)] at hp
    cases hp
  · exact hprivate _ hshape
  · obtain ⟨⟨i, ht⟩, -⟩ := hshape
    exact hprivate i ht
  · obtain ⟨⟨i, ht⟩, -⟩ := hshape
    exact hprivate i ht

/-- **The step lemma.** -/
theorem Inv.step (hkey : isBackupMsg cfg.server.publicKey = false) {s s' : Net ι} {l : NetLabel ι}
    (h : Inv cfg s) (hl : TypesNoKey cfg l) (hs : Moves cfg s l s') : Inv cfg s' := by
  have hwf : Wf cfg s' := h.wf.step hs
  -- one more publication, that looks like a key only if it is the key
  have hadd : ∀ (t p : Str) (o : Origin ι), (∀ i, t = cfg.ip i → isMsgTypeOf keyType p = true →
      p = cfg.server.publicKey) → ∀ m ∈ s.history ++ [⟨t, p, ⟨o, s.history.length⟩⟩],
      ∀ i, m.topic = cfg.ip i → isMsgTypeOf keyType m.payload = true →
        m.payload = cfg.server.publicKey := by
    intro t p o hp m hm
    rcases List.mem_append.mp hm with hold | hnew
    · exact h.clean m hold
    · obtain rfl := List.mem_singleton.mp hnew
      exact hp
  -- a client that moves with what it had installed
  have hsame : ∀ {i : ι} {c : AppClient (Stamp ι)}, c.installed = (s.clients i).installed →
      ∀ j, ∀ k ∈ ((Function.update s.clients i c) j).installed, k = cfg.server.publicKey := by
    intro i c hc
    exact forall_update (P := fun _ c => ∀ k ∈ c.installed, k = cfg.server.publicKey)
      (hc ▸ h.installed i) fun j _ => h.installed j
  cases hs with
  | start | stop | subscribe => exact ⟨hwf, h.clean, hsame rfl⟩
  | @register i info hpc =>
      exact ⟨hwf, hadd _ _ _ fun j hj => absurd hj.symm (ip_ne_subscibersList cfg j), hsame rfl⟩
  | @take i m rest hq hpc =>
      refine ⟨hwf, h.clean, ?_⟩
      by_cases hacc : (s.clients i).pc = .waiting ∧ acceptsKey (cfg.ip i) m = true
      · have hlooks := hacc.2
        simp only [acceptsKey, Bool.and_eq_true, decide_eq_true_eq] at hlooks
        have hm : m ∈ s.history := h.wf.queued (.client i) m (by rw [hq]; simp)
        refine forall_update (P := fun _ c => ∀ k ∈ c.installed, k = cfg.server.publicKey)
          (fun k hk => ?_) fun j _ => h.installed j
        rw [AppClient.take_key hacc] at hk
        rcases List.mem_append.mp hk with hold | hnew
        · exact h.installed i k hold
        · rw [List.mem_singleton.mp hnew]
          exact h.clean m hm i hlooks.1 hlooks.2
      · exact hsame (by rw [AppClient.take_other hacc])
  | request hpc => exact ⟨hwf, hadd _ _ _ fun _ _ => hl, h.installed⟩
  | keySent => exact ⟨hwf, hadd _ _ _ fun _ _ _ => rfl, h.installed⟩
  | @reply k msg t p rc hup halive hk =>
      obtain ⟨hp, -, m, hm, rfl⟩ := h.wf.replyTopic hk
      have hquoted := h.quoted hkey hm hp
      refine ⟨hwf, hadd _ _ _ fun i _ hlooks => ?_, h.installed⟩
      rw [isMsgTypeOf_replyMsg, hquoted] at hlooks
      cases hlooks
  | _ => exact ⟨hwf, h.clean, h.installed⟩

/-- **Only the key is installed, in every state of every run in which no typed path looks like a
key.** -/
theorem onlyKeyInstalled_of_typesNoKey (hkey : isBackupMsg cfg.server.publicKey = false)
    {ls : List (NetLabel ι)} (htyped : ∀ l ∈ ls, TypesNoKey cfg l) :
    Always (step cfg) (OnlyKeyInstalled cfg) init ls :=
  always_of_eachStep (I := Inv cfg) (fun _ h => h.installed)
    (fun _ _ _ h hl hs => h.step hkey hl (step_moves hs))
    ⟨wf_init, by simp [init], by simp [OnlyKeyInstalled, init, AppClient.off]⟩
    (EachStep.of_labels htyped init)

/-- A path is retained on the client's channel when it starts its second session. -/
def twoSessions : List (NetLabel Bool) :=
  firstSession ++ [.request true "~/notes".toList, .stop true,
    .server (.consume ⟨pair.ip true, "~/notes".toList, ⟨.request true, 2⟩⟩), .server .dispatch,
    .start true, .register true userInfo, .subscribe true, .take true] ++
    handleRegistration true 3 ++ [.take true]

theorem onlyKeyInstalled_twoSessions : ∃ s, exec (step pair) init twoSessions = some s ∧
    (s.clients true).installed = [pair.server.publicKey, pair.server.publicKey] ∧
    Always (step pair) (OnlyKeyInstalled pair) init twoSessions := by
  obtain ⟨s, hs, hinst⟩ : ∃ s, exec (step pair) init twoSessions = some s ∧
      (s.clients true).installed = [pair.server.publicKey, pair.server.publicKey] :=
    exists_exec_of_any (by decide +kernel)
  exact ⟨s, hs, hinst, onlyKeyInstalled_of_typesNoKey (by decide) (by decide)⟩

/-- The path of the first session is retained when the second one subscribes. -/
def keyFile : List (NetLabel Bool) :=
  firstSession ++ [.request true "~/ssh-rsa-notes".toList, .stop true, .start true,
    .register true userInfo, .subscribe true, .take true]

theorem path_installed : ∃ s, exec (step pair) init keyFile = some s ∧
    isMsgTypeOf keyType pair.server.publicKey = true ∧
    "~/ssh-rsa-notes".toList ∈ (s.clients true).installed ∧ ¬ OnlyKeyInstalled pair s := by
  obtain ⟨s, hs, hmem⟩ := exists_exec_of_any
    (P := fun s => "~/ssh-rsa-notes".toList ∈ (s.clients true).installed)
    (show (exec (step pair) init keyFile).any _ = true by decide +kernel)
  refine ⟨s, hs, by decide, hmem, fun honly => ?_⟩
  have heq := honly true _ hmem
  exact absurd heq (by decide)

end BupApp.KeyInstall
