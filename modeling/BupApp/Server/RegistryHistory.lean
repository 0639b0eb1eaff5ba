/-
# BupApp.Server.RegistryHistory -- how the registry came about

Every broker call of `handleNewSubscriber` can throw, and the catch only prints.  The history of the
registry is a list of attempts all the same, one for each registration the loop has dispatched: an
attempt is refused at the subscription, left without its key at the publish, or stored.  What the
loop has done is what the attempts have done, in order, and the registry is the list of the entries
of the stored ones.  So an entry is only ever appended after its subscription, its key and its
directory, and never touched again.
-/
import BupApp.App.ServerRuns

namespace BupApp.RegistryHistory

open BupApp.Lib.Transition Server Logged

variable {τ : Type} {cfg : Config}

/-! ## Attempts -/

/-- How far `handleNewSubscriber` got: the subscription threw, the publish of the key threw, or the
entry was appended. -/
inductive Outcome where
  | refused | keyless | stored
  deriving DecidableEq, Repr

/-- A registration that was handled, with the client it decodes to. -/
structure Attempt where
  client : Client
  outcome : Outcome
  deriving DecidableEq, Repr

/-- What an attempt does, in order; a call that throws is not counted. -/
def Attempt.effects (cfg : Config) (a : Attempt) : List Effect :=
  match a.outcome with
  | .refused => [.setWill a.client.ip]
  | .keyless => [.setWill a.client.ip, .subscribe a.client.ip]
  | .stored => [.setWill a.client.ip, .subscribe a.client.ip,
      .publishKey a.client.ip cfg.publicKey,
      .system ("mkdir ".toList ++ backupTarget a.client.ip)]

/-- The entry an attempt appends. -/
def Attempt.entry? (a : Attempt) : Option Client :=
  match a.outcome with
  | .stored => some (a.client.setBackupTarget (backupTarget a.client.ip))
  | _ => none

/-- The effect is one of the loop, not of a handler. -/
def byLoop : Effect → Bool
  | .execCmnd _ _ _ _ => false
  | .reply _ _ _ => false
  | _ => true

/-- What the loop has done for the message it works on; after a reconnect it has subscribed to the
public channel and has no message. -/
def pendingEffects (cfg : Config) (s : Server τ) : List Effect :=
  match s.loop with
  | .received => if s.msgPtr.isSome then [] else [.subscribe subscibersList]
  | .subscribing c => [.setWill c.ip]
  | .sendingKey c => [.setWill c.ip, .subscribe c.ip]
  | .storing c => [.setWill c.ip, .subscribe c.ip, .publishKey c.ip cfg.publicKey]
  | _ => []

/-- The attempts `as` are the history of the registry after consuming `ms`. -/
structure History (cfg : Config) (ms : List (Message τ)) (s : Logged τ) (as : List Attempt) :
    Prop where
  /-- There is one attempt for each registration that was dispatched and is not in progress. -/
  attempts : ∃ rest, ms = rest ++ s.srv.undispatched ∧
    registrations rest = as.map Attempt.client ++ s.srv.loop.client?.toList
  log : s.log.filter byLoop = as.flatMap (Attempt.effects cfg) ++ pendingEffects cfg s.srv
  clients : s.srv.clients = as.filterMap Attempt.entry?

/-- The step from `u` to `v` appends `c`, after its subscription and its key, with its directory. -/
structure AppendedBy (cfg : Config) (u v : Logged τ) (c : Client) : Prop where
  clients : v.srv.clients = u.srv.clients ++ [c]
  prepared : ∃ l₁ l₂ l₃, u.log =
    l₁ ++ .subscribe c.ip :: (l₂ ++ .publishKey c.ip cfg.publicKey :: l₃)
  mkdir : v.log = u.log ++ [.system ("mkdir ".toList ++ c.backupPath)]
  target : c.backupPath = backupTarget c.ip

/-! ## The step lemma -/

theorem history_start : History cfg ([] : List (Message τ)) ⟨Server.start, []⟩ [] where
  attempts := ⟨[], rfl, rfl⟩
  log := rfl
  clients := rfl

section StepLemma

variable {ms : List (Message τ)} {s s' : Logged τ} {as : List Attempt} {es : List Effect}

/-- The loop dispatches a message, and with it a registration if it is one. -/
theorem History.dispatched (h : History cfg ms s as) {m : Message τ}
    (hl : s.srv.loop = .received) (hm : s.srv.msgPtr = some m) (hlog : s'.log = s.log ++ es)
    (hcl : s'.srv.clients = s.srv.clients) (hl' : s'.srv.loop ≠ .received)
    (hreg : registrations [m] = s'.srv.loop.client?.toList)
    (hes : es.filter byLoop = pendingEffects cfg s'.srv) : History cfg ms s' as := by
  obtain ⟨⟨rest, hms, hrest⟩, hlog₀, hcl₀⟩ := h
  have hund : s.srv.undispatched = [m] := by simp [undispatched, hl, hm]
  refine ⟨⟨rest ++ [m], ?_, ?_⟩, ?_, hcl.trans hcl₀⟩
  · rw [hms, hund, undispatched, if_neg hl', List.append_nil]
  · rw [registrations_append, hreg, hrest, hl]
    simp [LoopPc.client?]
  · rw [hlog, List.filter_append, hlog₀, hes]
    simp [pendingEffects, hl, hm]

/-- The step of an attempt that goes on. -/
theorem History.goesOn (h : History cfg ms s as) {c : Client}
    (hc : s.srv.loop.client? = some c) (hc' : s'.srv.loop.client? = some c)
    (hlog : s'.log = s.log ++ es) (hcl : s'.srv.clients = s.srv.clients)
    (hes : pendingEffects cfg s'.srv = pendingEffects cfg s.srv ++ es.filter byLoop) :
    History cfg ms s' as := by
  have hund : ∀ {srv : Server τ}, srv.loop.client? = some c → srv.undispatched = [] := by
    intro srv hsrv
    rw [undispatched, if_neg]
    intro hl
    rw [hl] at hsrv
    cases hsrv
  obtain ⟨⟨rest, hms, hrest⟩, hlog₀, hcl₀⟩ := h
  refine ⟨⟨rest, ?_, ?_⟩, ?_, hcl.trans hcl₀⟩
  · rw [hms, hund hc, hund hc']
  · rw [hrest, hc, hc']
  · rw [hlog, List.filter_append, hlog₀, hes, List.append_assoc]

/-- The step that ends an attempt. -/
theorem History.ends (h : History cfg ms s as) {c : Client} {o : Outcome}
    (hc : s.srv.loop.client? = some c) (hl' : s'.srv.loop = .waiting)
    (hlog : s'.log = s.log ++ es)
    (hcl : s'.srv.clients = s.srv.clients ++ (Attempt.entry? ⟨c, o⟩).toList)
    (hes : pendingEffects cfg s.srv ++ es.filter byLoop = Attempt.effects cfg ⟨c, o⟩) :
    History cfg ms s' (as ++ [⟨c, o⟩]) := by
  have hund : s.srv.undispatched = [] := by
    rw [undispatched, if_neg]
    intro hl
    rw [hl] at hc
    cases hc
  obtain ⟨⟨rest, hms, hrest⟩, hlog₀, hcl₀⟩ := h
  refine ⟨⟨rest, ?_, ?_⟩, ?_, ?_⟩
  · rw [hms, hund, undispatched, hl']
    rfl
  · rw [hrest, hc, hl']
    simp [LoopPc.client?]
  · have hnone : pendingEffects cfg s'.srv = [] := by rw [pendingEffects, hl']
    rw [hlog, List.filter_append, hlog₀, hnone, List.append_assoc, hes, List.append_nil,
      List.flatMap_append]
    simp
  · rw [hcl, hcl₀, List.filterMap_append]
    cases o <;> rfl

/-- A step that leaves the loop, its message and the registry. -/
theorem History.aside (h : History cfg ms s as) (hl : s'.srv.loop = s.srv.loop)
    (hm : s'.srv.msgPtr = s.srv.msgPtr) (hcl : s'.srv.clients = s.srv.clients)
    (hlog : s'.log = s.log ++ es) (hes : es.filter byLoop = []) : History cfg ms s' as := by
  obtain ⟨⟨rest, hms, hrest⟩, hlog₀, hcl₀⟩ := h
  refine ⟨⟨rest, ?_, by rw [hl]; exact hrest⟩, ?_, hcl.trans hcl₀⟩
  · rw [hms, undispatched, undispatched, hl, hm]
  · rw [hlog, List.filter_append, hlog₀, hes, pendingEffects, pendingEffects, hl, hm,
      List.append_nil]

/-- A step at which the waiting loop gets a message or a null pointer. -/
theorem History.polled (h : History cfg ms s as) {new : List (Message τ)}
    (hl : s.srv.loop = .waiting) (hl' : s'.srv.loop.client? = none)
    (hund : s'.srv.undispatched = new) (hcl : s'.srv.clients = s.srv.clients)
    (hlog : s'.log = s.log ++ es) (hes : es.filter byLoop = pendingEffects cfg s'.srv) :
    History cfg (ms ++ new) s' as := by
  obtain ⟨⟨rest, hms, hrest⟩, hlog₀, hcl₀⟩ := h
  refine ⟨⟨rest, ?_, ?_⟩, ?_, hcl.trans hcl₀⟩
  · rw [hund, hms, undispatched, hl]
    simp
  · rw [hrest, hl, hl']
    rfl
  · rw [hlog, List.filter_append, hlog₀, hes]
    simp [pendingEffects, hl]

end StepLemma

/-- **The step lemma.** -/
theorem history_step {ms : List (Message τ)} {s s' : Logged τ} {l : Label τ}
    (h : ∃ as, History cfg ms s as) (hstep : step cfg s l = some s') :
    ∃ as, History cfg (ms ++ consumed [l]) s' as := by
  obtain ⟨as, h⟩ := h
  obtain ⟨-, es, hacts, hlog⟩ := step_acts hstep
  -- where a step consumes nothing the history of consumption stays
  have hsame : (∀ m, l ≠ .consume m) → (∃ as, History cfg ms s' as) →
      ∃ as, History cfg (ms ++ consumed [l]) s' as := by
    intro hl hex
    rw [consumed_singleton_of_ne hl, List.append_nil]
    exact hex
  generalize hsrv : s'.srv = srv' at hacts
  cases hacts with
  | @consume m hl =>
      exact ⟨as, h.polled hl (by rw [hsrv]; rfl) (by rw [hsrv]; rfl) (by rw [hsrv]) hlog
        (by rw [hsrv]; rfl)⟩
  | nullReconnected hl | nullFailed hl | nullThrew hl =>
      exact ⟨as, h.polled hl (by simp [hsrv, hl, LoopPc.client?])
        (by simp [hsrv, hl, undispatched, consumed, Label.message?]) (by rw [hsrv]) hlog
        (by simp [hsrv, hl, pendingEffects, byLoop, List.filter_cons])⟩
  | @register m c hl hm ht hc =>
      refine hsame (by simp) ⟨as, h.dispatched hl hm hlog (by rw [hsrv]) (by simp [hsrv]) ?_ ?_⟩
      · simp [registrations, ht, hc, hsrv, LoopPc.client?]
      · simp [hsrv, pendingEffects, byLoop, List.filter_cons]
  | @spawn m hl hm ht hip | @ignore m hl hm ht hip =>
      refine hsame (by simp) ⟨as, h.dispatched hl hm hlog (by rw [hsrv]) (by simp [hsrv]) ?_ ?_⟩
      · simp [registrations, ht, hsrv, LoopPc.client?]
      · simp [hsrv, pendingEffects]
  | @subscribed c hl | @keySent c hl =>
      exact hsame (by simp) ⟨as, h.goesOn (c := c) (by simp [hl, LoopPc.client?])
        (by simp [hsrv, LoopPc.client?]) hlog (by rw [hsrv])
        (by simp [hsrv, hl, pendingEffects, byLoop, List.filter_cons])⟩
  | @subscribeThrew c hl =>
      exact hsame (by simp) ⟨_, h.ends (c := c) (o := .refused) (by simp [hl, LoopPc.client?])
        (by rw [hsrv]) hlog (by simp [hsrv, Attempt.entry?]) (by simp [hl, pendingEffects, Attempt.effects])⟩
  | @keyThrew c hl =>
      exact hsame (by simp) ⟨_, h.ends (c := c) (o := .keyless) (by simp [hl, LoopPc.client?])
        (by rw [hsrv]) hlog (by simp [hsrv, Attempt.entry?]) (by simp [hl, pendingEffects, Attempt.effects])⟩
  | @stored c hl =>
      exact hsame (by simp) ⟨_, h.ends (c := c) (o := .stored) (by simp [hl, LoopPc.client?])
        (by rw [hsrv]) hlog (by simp [hsrv, Attempt.entry?])
        (by simp [hl, pendingEffects, Attempt.effects, byLoop, List.filter_cons])⟩
  | handler hk hmove =>
      refine hsame (by rintro m rfl; cases hmove) ⟨as, ?_⟩
      have hes : es.filter byLoop = [] := by cases hmove <;> rfl
      exact h.aside (by rw [hsrv]; rfl) (by rw [hsrv]; rfl) (by rw [hsrv]; rfl) hlog hes
  | crashes hc =>
      refine hsame (by rintro m rfl; cases hc) ⟨as, ?_⟩
      exact h.aside (by rw [hsrv]; rfl) (by rw [hsrv]; rfl) (by rw [hsrv]; rfl) hlog rfl

/-! ## Entries -/

/-- When the loop is about to store an entry, its subscription and its key are in the log. -/
theorem History.prepared {ms : List (Message τ)} {s : Logged τ} {as : List Attempt}
    (h : History cfg ms s as) {c : Client} (hl : s.srv.loop = .storing c) :
    ∃ l₁ l₂ l₃, s.log = l₁ ++ .subscribe c.ip :: (l₂ ++ .publishKey c.ip cfg.publicKey :: l₃) := by
  have hlog := h.log
  rw [pendingEffects, hl] at hlog
  obtain ⟨l₁, r₁, hsplit, -, htail⟩ := List.filter_eq_append_iff.mp hlog
  obtain ⟨l₂, r₂, rfl, -, -, htail⟩ := List.filter_eq_cons_iff.mp htail
  obtain ⟨l₃, r₃, rfl, -, -, htail⟩ := List.filter_eq_cons_iff.mp htail
  obtain ⟨l₄, r₄, rfl, -, -, -⟩ := List.filter_eq_cons_iff.mp htail
  exact ⟨l₁ ++ l₂ ++ .setWill c.ip :: l₃, l₄, r₄, by simp [hsplit]⟩

/-- The step at which the `i`-th entry was appended. -/
def Entered (cfg : Config) (ls : List (Label τ)) (i : Nat) (c : Client) : Prop :=
  ∃ pre post u v, ls = pre ++ .store :: post ∧
    exec (step cfg) ⟨Server.start, []⟩ pre = some u ∧ step cfg u .store = some v ∧
    u.srv.clients.length = i ∧ AppendedBy cfg u v c

theorem Entered.append {ls : List (Label τ)} {i : Nat} {c : Client} (h : Entered cfg ls i c)
    (more : List (Label τ)) : Entered cfg (ls ++ more) i c := by
  obtain ⟨pre, post, u, v, rfl, h⟩ := h
  exact ⟨pre, post ++ more, u, v, by simp, h⟩

theorem history_of_run {s : Logged τ} {ls : List (Label τ)}
    (hrun : exec (step cfg) ⟨Server.start, []⟩ ls = some s) :
    ∃ as, History cfg (consumed ls) s as := by
  have hinv := inv_history (C := fun _ _ => True)
    (I := fun ls s => ∃ as, History cfg (consumed ls) s as) ?_
    (show ∃ as, History cfg (consumed []) ⟨Server.start, []⟩ as from ⟨[], history_start⟩)
    (EachStep.of_forall (fun _ _ => trivial) _ _) hrun
  · exact hinv
  · intro ls s l s' h _ hs
    rw [consumed_append]
    exact history_step h hs

theorem entered_of_run {s : Logged τ} {ls : List (Label τ)}
    (hrun : exec (step cfg) ⟨Server.start, []⟩ ls = some s) :
    ∀ (i : Nat) (c : Client), s.srv.clients[i]? = some c → Entered cfg ls i c := by
  have hinv := inv_history (C := fun _ _ => True)
    (I := fun ls s => exec (step cfg) ⟨Server.start, []⟩ ls = some s ∧
      ∀ (i : Nat) (c : Client), s.srv.clients[i]? = some c → Entered cfg ls i c) ?_
    ⟨exec_nil _, by simp [Server.start]⟩ (EachStep.of_forall (fun _ _ => trivial) _ _) hrun
  · exact hinv.2
  · rintro ls s l s' ⟨hto, hall⟩ - hs
    refine ⟨exec_snoc_some.mpr ⟨s, hto, hs⟩, ?_⟩
    intro i c hi
    obtain ⟨-, es, hacts, hlog⟩ := step_acts hs
    rcases clients_of_acts hacts with ⟨-, hcl⟩ | ⟨d, rfl, hl, hcl, rfl⟩
    · rw [hcl] at hi
      exact (hall i c hi).append [l]
    · rw [hcl] at hi
      by_cases hlt : i < s.srv.clients.length
      · rw [List.getElem?_append_left hlt] at hi
        exact (hall i c hi).append [.store]
      · -- the entry that this step appends
        have hle : i = s.srv.clients.length := by
          have := (List.getElem?_eq_some_iff.mp hi).1
          simp only [List.length_append, List.length_singleton] at this
          omega
        subst hle
        obtain rfl : d.setBackupTarget (backupTarget d.ip) = c := by simpa using hi
        obtain ⟨as, hhist⟩ := history_of_run hto
        have hprepared := hhist.prepared hl
        exact ⟨ls, [], s, s', rfl, hto, hs, rfl, hcl, hprepared, hlog, rfl⟩

theorem clients_prefix_of_run {u s : Logged τ} {ls : List (Label τ)}
    (hrun : exec (step cfg) u ls = some s) : u.srv.clients <+: s.srv.clients := by
  refine inv_exec (I := fun s => u.srv.clients <+: s.srv.clients) ?_ List.prefix_rfl hrun
  intro s l s' h hs
  obtain ⟨-, es, hacts, -⟩ := step_acts hs
  exact h.trans hacts.clients_prefix

/-- **The history of the registry**: it grows at its end only; it is the list of the entries of the
stored attempts, and there is one attempt for each registration; every entry was appended after its
subscription and its key, with the `mkdir` of its target. -/
theorem registry_history {s : Logged τ} {ls : List (Label τ)}
    (hrun : exec (step cfg) ⟨Server.start, []⟩ ls = some s) :
    (∀ pre post u, ls = pre ++ post → exec (step cfg) ⟨Server.start, []⟩ pre = some u →
      u.srv.clients <+: s.srv.clients) ∧
    (∃ as, History cfg (consumed ls) s as) ∧
    ∀ (i : Nat) (c : Client), s.srv.clients[i]? = some c → Entered cfg ls i c := by
  refine ⟨?_, history_of_run hrun, entered_of_run hrun⟩
  rintro pre post u rfl hu
  obtain ⟨u', hu', hrest⟩ := exec_append_some.mp hrun
  obtain rfl := Option.some.inj (hu.symm.trans hu')
  exact clients_prefix_of_run hrest

/-! ## A run -/

/-- Three registrations: one is refused, one gets no key, one is stored; then the host of the last
one asks for a backup. -/
def threeAttempts : List (Label Unit) :=
  [.consume (registrationWith "10.0.0.2 ann"), .dispatch, .subscribe false,
    .consume (registrationWith "10.0.0.3 bob"), .dispatch, .subscribe true, .publishKey false,
    .consume (registrationWith "10.0.0.2 ann"), .dispatch, .subscribe true, .publishKey true,
    .store, .consume ⟨"10.0.0.2".toList, "~/a".toList, ()⟩, .dispatch, .readTopic 0,
    .readPayload 0, .lookup 0, .exec 0 (some true), .reply 0 true]

theorem threeAttempts_history : ∃ s : Logged Unit,
    exec (step lanCfg) ⟨Server.start, []⟩ threeAttempts = some s ∧
      s.srv.clients = [⟨"10.0.0.2".toList, "ann".toList, [], backupTarget "10.0.0.2".toList⟩] ∧
      Entered lanCfg threeAttempts 0
        ⟨"10.0.0.2".toList, "ann".toList, [], backupTarget "10.0.0.2".toList⟩ := by
  obtain ⟨s, hs, hcl⟩ := exists_exec_of_any
    (P := fun s : Logged Unit =>
      s.srv.clients = [⟨"10.0.0.2".toList, "ann".toList, [], backupTarget "10.0.0.2".toList⟩])
    (show (exec (step lanCfg) ⟨Server.start, []⟩ threeAttempts).any _ = true by decide +kernel)
  exact ⟨s, hs, hcl, (registry_history hs).2.2 0 _ (by rw [hcl]; rfl)⟩

end BupApp.RegistryHistory
