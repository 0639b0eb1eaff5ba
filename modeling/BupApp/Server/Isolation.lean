/-
# BupApp.Server.Isolation -- one target directory for each host, under every schedule

A handler may read the topic of one message and the payload of another, and the registry takes
entries from arbitrary payloads.  The directories stay apart all the same: a command is only built
for a topic that is the address of an entry, an entry's target is made from its address alone, and
an address that is a topic is a dotted quad, without a slash.  The invariant has one part for the
registry, one for what handlers past the look-up hold and one that pairs a handler's reply with its
command.
-/
import BupApp.App.ServerRuns

namespace BupApp.Isolation

open BupApp.Lib.Transition BupApp.Lib.Ipv4 Server Logged

variable {τ : Type} {cfg : Config}

/-! ## What isolation is -/

/-- The topic name of an MQTT message: at least one character and no NUL. -/
def MqttTopic (t : Str) : Prop := t ≠ [] ∧ '\x00' ∉ t

/-- A command for the host `x`: to the target of `x`, in the name of a user of an entry of `x`. -/
def ForHost (clients : List Client) (x p : Str) (cmnd : Cmnd) : Prop :=
  ∃ c ∈ clients, c.ip = x ∧
    (cmnd = .scp c.user x p (backupTarget x) ∨ cmnd = .cp p (backupTarget x))

/-- `cmnd` was built for `x`: a handler is about to run it, or it was run. -/
inductive Commanded (s : Logged τ) (x p : Str) (cmnd : Cmnd) : Prop
  | built {h : Handler τ} (hh : h ∈ s.srv.threadPool) (hpc : h.pc = .cmndBuilt x p cmnd)
  | ran {k : Nat} (he : .execCmnd k x p cmnd ∈ s.log)

/-- Two directories that differ, neither inside the other. -/
def Apart (t t' : Str) : Prop :=
  t ≠ t' ∧ ¬ (t ++ "/".toList) <+: t' ∧ ¬ (t' ++ "/".toList) <+: t

/-- Hosts are kept apart. -/
structure Isolated (s : Logged τ) : Prop where
  /-- Every command is one for the host whose topic the handler read. -/
  forHost : ∀ x p cmnd, Commanded s x p cmnd → ForHost s.srv.clients x p cmnd
  /-- The reply to a command goes to its host. -/
  replied : ∀ k x p cmnd t payload, .execCmnd k x p cmnd ∈ s.log → .reply k t payload ∈ s.log →
    t = x ∧ ∃ rc, payload = replyMsg p rc
  /-- There is no reply without a command. -/
  answers : ∀ k t payload, .reply k t payload ∈ s.log → ∃ p cmnd, .execCmnd k t p cmnd ∈ s.log
  /-- Commands for two hosts have targets apart from each other. -/
  apart : ∀ x p cmnd y q cmnd', Commanded s x p cmnd → Commanded s y q cmnd' → x ≠ y →
    Apart cmnd.target cmnd'.target

/-! ## Targets -/

theorem apart_backupTarget {x y : Str} (hx : dottedQuad x = true) (hy : dottedQuad y = true)
    (hne : x ≠ y) : Apart (backupTarget x) (backupTarget y) := by
  have hslash : ∀ {a b : Str}, dottedQuad b = true →
      ¬ (backupTarget a ++ "/".toList) <+: backupTarget b := by
    intro a b hb hpre
    simp only [backupTarget, List.append_assoc, List.prefix_append_right_inj] at hpre
    have hmem : '/' ∈ b := hpre.subset (List.mem_append_right a (by decide))
    exact dottedQuad_not_mem hb (by decide) (by decide) hmem
  refine ⟨fun heq => hne ?_, hslash hy, hslash hx⟩
  exact List.append_cancel_left heq

/-- The address of an entry that is also a topic is a dotted quad. -/
theorem dottedQuad_of_storedIp {x : Str} (hx : StoredIp x) (ht : MqttTopic x) :
    dottedQuad x = true := by
  rcases hx with rfl | hip
  · exact absurd rfl ht.1
  · exact dottedQuad_of_inetPton ht.2 hip

theorem forHost_of_cmndFor {clients : List Client} {c : Client} {p : Str} (hc : c ∈ clients)
    (htarget : c.backupPath = backupTarget c.ip) :
    ForHost clients c.ip p (cmndFor cfg c c.ip p) := by
  refine ⟨c, hc, rfl, ?_⟩
  unfold cmndFor
  rw [htarget]
  split
  · exact Or.inl rfl
  · exact Or.inr rfl

theorem ForHost.target {clients : List Client} {x p : Str} {cmnd : Cmnd}
    (h : ForHost clients x p cmnd) : cmnd.target = backupTarget x := by
  obtain ⟨c, -, -, rfl | rfl⟩ := h <;> rfl

/-! ## Commands and their replies -/

/-- What a handler at `pc` has left in the log: its command, then the reply to it. -/
def Paired (s : Logged τ) (k : Nat) (h : Handler τ) : Prop :=
  match h.pc with
  | .finished => Idle s k ∨ ∃ t p cmnd rc, commandsOf k s.log = [.execCmnd k t p cmnd] ∧
      repliesOf k s.log = [.reply k t (replyMsg p rc)]
  | .replyBuilt t p _ => (∃ cmnd, commandsOf k s.log = [.execCmnd k t p cmnd]) ∧
      repliesOf k s.log = []
  | _ => Idle s k

theorem Paired.append {s s' : Logged τ} {k : Nat} {h : Handler τ} {es : List Effect}
    (hp : Paired s k h) (hlog : s'.log = s.log ++ es)
    (hes : commandsOf k es = [] ∧ repliesOf k es = []) : Paired s' k h := by
  have hc : commandsOf k s'.log = commandsOf k s.log := by
    rw [hlog, commandsOf_append, hes.1, List.append_nil]
  have hr : repliesOf k s'.log = repliesOf k s.log := by
    rw [hlog, repliesOf_append, hes.2, List.append_nil]
  unfold Paired Idle at hp ⊢
  rw [hc, hr]
  exact hp

theorem Paired.move {s s' : Logged τ} {k : Nat} {l : Label τ} {msg : Message τ}
    {pc pc' : HandlerPc} {es : List Effect} (hp : Paired s k ⟨msg, pc⟩)
    (hmove : HandlerMoves cfg s.srv k l pc pc' es) (hlog : s'.log = s.log ++ es) :
    Paired s' k ⟨msg, pc'⟩ := by
  cases hmove with
  | readTopic | readPayload | build => exact Idle.append hp hlog ⟨rfl, rfl⟩
  | skip => exact Or.inl (Idle.append hp hlog ⟨rfl, rfl⟩)
  | @exec t p cmnd rc =>
      refine ⟨⟨cmnd, ?_⟩, ?_⟩
      · rw [hlog, commandsOf_append, hp.1]
        simp [commandsOf]
      · rw [hlog, repliesOf_append, hp.2]
        rfl
  | @reply t p rc =>
      obtain ⟨⟨cmnd, hcmnd⟩, hnone⟩ := hp
      refine Or.inr ⟨t, p, cmnd, rc, ?_, ?_⟩
      · rw [hlog, commandsOf_append, hcmnd]
        rfl
      · rw [hlog, repliesOf_append, hnone]
        simp [repliesOf]

theorem mem_commandsOf {k : Nat} {x p : Str} {cmnd : Cmnd} {log : List Effect}
    (h : .execCmnd k x p cmnd ∈ log) : .execCmnd k x p cmnd ∈ commandsOf k log := by
  simp only [commandsOf, List.mem_filter]
  exact ⟨h, by simp⟩

theorem mem_repliesOf {k : Nat} {x payload : Str} {log : List Effect}
    (h : .reply k x payload ∈ log) : .reply k x payload ∈ repliesOf k log := by
  simp only [repliesOf, List.mem_filter]
  exact ⟨h, by simp⟩

/-- A reply in the log has its handler's one command beside it. -/
theorem command_of_reply {s : Logged τ} (h : PerHandler Paired s) {k : Nat} {t payload : Str}
    (hr : .reply k t payload ∈ s.log) :
    ∃ p cmnd rc, commandsOf k s.log = [.execCmnd k t p cmnd] ∧ payload = replyMsg p rc := by
  have hmem := mem_repliesOf hr
  have hnot : repliesOf k s.log ≠ [] := List.ne_nil_of_mem hmem
  cases hk : s.srv.threadPool[k]? with
  | none => exact absurd (h.beyond k (List.getElem?_eq_none_iff.mp hk)).2 hnot
  | some hd =>
      have hpaired := h.here k hd hk
      unfold Paired at hpaired
      split at hpaired
      · rcases hpaired with hidle | ⟨t', p, cmnd, rc, hcmnd, hrep⟩
        · exact absurd hidle.2 hnot
        · rw [hrep, List.mem_singleton, Effect.reply.injEq] at hmem
          obtain ⟨-, rfl, rfl⟩ := hmem
          exact ⟨p, cmnd, rc, hcmnd, rfl⟩
      · exact absurd hpaired.2 hnot
      · exact absurd hpaired.2 hnot

/-! ## The invariant -/

/-- The parts that every step keeps. -/
structure Inv (cfg : Config) (s : Logged τ) : Prop where
  commands : CommandsLogged cfg s
  paired : PerHandler Paired s
  knows : Knows (fun m => MqttTopic m.topic) s.srv
  topics : ∀ k x p cmnd, .execCmnd k x p cmnd ∈ s.log → MqttTopic x

theorem inv_start : Inv cfg (⟨Server.start, []⟩ : Logged τ) where
  commands := CommandsLogged.start
  paired := ⟨by simp [Server.start], by simp [Idle, commandsOf, repliesOf]⟩
  knows := Knows.start _
  topics := by simp

/-- A topic that a handler holds was consumed. -/
theorem topic_of_handler {s : Server τ} (h : Knows (fun m => MqttTopic m.topic) s)
    {hd : Handler τ} (hh : hd ∈ s.threadPool) {x : Str} (hx : hd.pc.topic? = some x) :
    MqttTopic x := by
  obtain ⟨m, hm, rfl⟩ := h.topic hd hh x hx
  exact hm

/-- **The step lemma.** -/
theorem Inv.step {s s' : Logged τ} {l : Label τ} (h : Inv cfg s)
    (hl : ∀ m, l = .consume m → MqttTopic m.topic) (hstep : Logged.step cfg s l = some s') :
    Inv cfg s' := by
  obtain ⟨-, es, hacts, hlog⟩ := step_acts hstep
  refine ⟨h.commands.step hstep, ?_, h.knows.step hacts hl, ?_⟩
  · exact h.paired.step hacts hlog (fun k hd hes hp => hp.append hlog hes)
      (fun k m hidle => hidle) fun k msg pc pc' hk hmove _ hp => hp.move hmove hlog
  · intro k x p cmnd he
    rw [hlog, List.mem_append] at he
    rcases he with hold | hnew
    · exact h.topics k x p cmnd hold
    · obtain ⟨msg, rc, hk, -⟩ := command_of_acts hacts hnew
      exact topic_of_handler h.knows (mem_of_getElem? hk) rfl

/-- What is known of a command that was built. -/
theorem Inv.commanded {s : Logged τ} (h : Inv cfg s) {x p : Str} {cmnd : Cmnd}
    (hc : Commanded s x p cmnd) :
    MqttTopic x ∧ ∃ c ∈ s.srv.clients, c.ip = x ∧ cmnd = cmndFor cfg c x p := by
  cases hc with
  | @built hd hh hpc =>
      have hworks := h.commands.works hd hh
      rw [hpc] at hworks
      exact ⟨topic_of_handler h.knows hh (by rw [hpc]; rfl), hworks.2⟩
  | @ran k he => exact ⟨h.topics k x p cmnd he, (h.commands.ran k x p cmnd he).2⟩

theorem Inv.forHost {s : Logged τ} (h : Inv cfg s) {x p : Str} {cmnd : Cmnd}
    (hc : Commanded s x p cmnd) :
    ForHost s.srv.clients x p cmnd ∧ dottedQuad x = true := by
  obtain ⟨htopic, c, hmem, rfl, rfl⟩ := h.commanded hc
  obtain ⟨htarget, hstored⟩ := h.commands.registry.entry c hmem
  exact ⟨forHost_of_cmndFor hmem htarget, dottedQuad_of_storedIp hstored htopic⟩

theorem Inv.isolated {s : Logged τ} (h : Inv cfg s) : Isolated s where
  forHost x p cmnd hc := (h.forHost hc).1
  replied k x p cmnd t payload hc hr := by
    obtain ⟨p', cmnd', rc, hone, hpayload⟩ := command_of_reply h.paired hr
    have hmem := mem_commandsOf hc
    rw [hone, List.mem_singleton, Effect.execCmnd.injEq] at hmem
    obtain ⟨-, rfl, rfl, -⟩ := hmem
    exact ⟨rfl, rc, hpayload⟩
  answers k t payload hr := by
    obtain ⟨p, cmnd, rc, hone, -⟩ := command_of_reply h.paired hr
    have hmem : .execCmnd k t p cmnd ∈ commandsOf k s.log := by rw [hone]; simp
    exact ⟨p, cmnd, (List.mem_filter.mp hmem).1⟩
  apart x p cmnd y q cmnd' hc hd hne := by
    obtain ⟨hx, hquad⟩ := h.forHost hc
    obtain ⟨hy, hquad'⟩ := h.forHost hd
    rw [hx.target, hy.target]
    exact apart_backupTarget hquad hquad' hne

/-- **Backup targets are isolated in every run, torn reads included.** -/
theorem isolated_of_run {s : Logged τ} {ls : List (Label τ)}
    (hrun : exec (step cfg) ⟨Server.start, []⟩ ls = some s)
    (htopics : ∀ m ∈ consumed ls, MqttTopic m.topic) : Isolated s := by
  have hlabels : ∀ l ∈ ls, ∀ m, l = .consume m → MqttTopic m.topic := by
    rintro l hl m rfl
    exact htopics m (List.mem_filterMap.mpr ⟨_, hl, rfl⟩)
  have hinv : Inv cfg s :=
    inv_of_eachStep (C := fun _ l => ∀ m, l = .consume m → MqttTopic m.topic)
      (fun s l s' hI hl hs => hI.step hl hs) inv_start (EachStep.of_labels hlabels _) hrun
  exact hinv.isolated

/-! ## Runs -/

/-- Two hosts register and the requests of both are read at the same time, torn apart. -/
def mixedRun : List (Label Unit) :=
  [.consume ⟨subscibersList, "10.0.0.2 ann".toList, ()⟩, .dispatch, .subscribe true,
    .publishKey true, .store, .consume ⟨subscibersList, "10.0.0.3 bob".toList, ()⟩, .dispatch,
    .subscribe true, .publishKey true, .store, .consume ⟨"10.0.0.2".toList, "~/a".toList, ()⟩,
    .dispatch, .readTopic 0, .consume ⟨"10.0.0.3".toList, "~/b".toList, ()⟩, .dispatch,
    .readPayload 0, .readTopic 1, .readPayload 1, .lookup 0, .lookup 1, .exec 0 (some true),
    .exec 1 (some false), .reply 1 true, .reply 0 true]

def mixedCfg : Config := ⟨"10.0.0.3".toList, "ssh-rsa K".toList⟩

/-- Where `mixedRun` ends. -/
def mixedEnd : Logged Unit :=
  (exec (step mixedCfg) ⟨Server.start, []⟩ mixedRun).getD ⟨Server.start, []⟩

theorem mixedRun_ends : exec (step mixedCfg) ⟨Server.start, []⟩ mixedRun = some mixedEnd := by
  decide +kernel

theorem mixedRun_isolated : Isolated mixedEnd :=
  isolated_of_run mixedRun_ends (by simp only [MqttTopic]; decide)

end BupApp.Isolation
