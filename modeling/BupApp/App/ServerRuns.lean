/-
# BupApp.App.ServerRuns -- runs of one server process over arbitrary consumed messages

A run is a word of labels; which messages are consumed, and in what order the threads move, is read
off the word.  A `Logged` state keeps, beside the server, the list of all effects so far, so that a
statement can count the commands and the replies of a handler.

`Spawned` is the bookkeeping of the loop: the handlers are exactly the consumed messages on IPv4
topics, in order, but for a message the loop has not dispatched yet.
-/
import BupApp.App.ServerSteps

namespace BupApp

open BupApp.Lib.Transition

variable {τ : Type} {cfg : Config}

namespace Server

/-- The message of a consume step. -/
def Label.message? : Label τ → Option (Message τ)
  | .consume m => some m
  | _ => none

/-- The messages a run consumes, in order. -/
def consumed (ls : List (Label τ)) : List (Message τ) := ls.filterMap Label.message?

/-- A label of a run that consumes messages only, no null pointers. -/
def Label.nonNull : Label τ → Prop
  | .consumeNull _ => False
  | _ => True

@[simp] theorem consumed_nil : consumed ([] : List (Label τ)) = [] := rfl

@[simp] theorem consumed_append (ls ls' : List (Label τ)) :
    consumed (ls ++ ls') = consumed ls ++ consumed ls' := List.filterMap_append

@[simp] theorem consumed_consume (m : Message τ) : consumed [Label.consume m] = [m] := rfl

theorem consumed_singleton_of_ne {l : Label τ} (h : ∀ m, l ≠ .consume m) : consumed [l] = [] := by
  cases l with
  | consume m => exact absurd rfl (h m)
  | _ => rfl

/-- The message is not null and the broker call of the step, if there is one, succeeds. -/
def Label.succeeds : Label τ → Prop
  | .consumeNull _ => False
  | .subscribe ok => ok = true
  | .publishKey ok => ok = true
  | .reply _ ok => ok = true
  | _ => True

instance : ∀ l : Label τ, Decidable l.succeeds
  | .subscribe ok | .publishKey ok | .reply _ ok => inferInstanceAs (Decidable (ok = true))
  | .consumeNull _ => isFalse id
  | .consume _ | .dispatch | .store | .readTopic _ | .readPayload _ | .lookup _ | .exec _ _ =>
      isTrue trivial

/-- The consumed messages for which the loop spawns a handler. -/
def requestsOf (ms : List (Message τ)) : List (Message τ) := ms.filter fun m => isIP4 m.topic

@[simp] theorem requestsOf_append (ms ms' : List (Message τ)) :
    requestsOf (ms ++ ms') = requestsOf ms ++ requestsOf ms' := List.filter_append ..

/-- The clients of the registrations among the messages. -/
def registrations (ms : List (Message τ)) : List Client :=
  (ms.filter (·.topic = subscibersList)).filterMap fun m => Client.ofMsg m.payload

@[simp] theorem registrations_append (ms ms' : List (Message τ)) :
    registrations (ms ++ ms') = registrations ms ++ registrations ms' := by
  simp [registrations]

/-- A registration with the payload `text`, and a configuration, for the examples. -/
def registrationWith (text : String) : Message Unit := ⟨subscibersList, text.toList, ()⟩

def lanCfg : Config := ⟨"10.0.0.1".toList, "ssh-rsa K".toList⟩

/-- The message that is consumed and not dispatched yet, if there is one. -/
def undispatched (s : Server τ) : List (Message τ) :=
  if s.loop = .received then s.msgPtr.toList else []

/-- The handlers are the dispatched requests, in the order of consumption. -/
def Spawned (ms : List (Message τ)) (s : Server τ) : Prop :=
  ∃ rest, ms = rest ++ s.undispatched ∧ s.threadPool.map Handler.msg = requestsOf rest

/-- The public channel's name is not an address. -/
theorem isIP4_subscibersList : isIP4 subscibersList = false := by decide

theorem Spawned.congr {ms : List (Message τ)} {s s' : Server τ} (h : Spawned ms s)
    (hu : s'.undispatched = s.undispatched)
    (ht : s'.threadPool.map Handler.msg = s.threadPool.map Handler.msg) : Spawned ms s' := by
  obtain ⟨rest, hms, hpool⟩ := h
  exact ⟨rest, by rw [hu, hms], by rw [ht, hpool]⟩

theorem Spawned.step {ms : List (Message τ)} {s s' : Server τ} {l : Label τ} {es : List Effect}
    (h : Spawned ms s) (hs : Acts cfg s l s' es) (hnn : l.nonNull) :
    Spawned (ms ++ consumed [l]) s' := by
  -- a dispatch closes the list of dispatched messages with the one it looked at
  have hdispatch : ∀ {m : Message τ} {s' : Server τ}, s.loop = .received → s.msgPtr = some m →
      s'.loop ≠ .received →
      s'.threadPool.map Handler.msg = s.threadPool.map Handler.msg ++ requestsOf [m] →
      Spawned (ms ++ []) s' := by
    intro m s' hl hm hl' hpool'
    obtain ⟨rest, hms, hpool⟩ := h
    refine ⟨rest ++ [m], ?_, ?_⟩
    · simp [hms, undispatched, hl, hm, hl']
    · rw [hpool', hpool, requestsOf_append]
  have hquiet : ∀ {s' : Server τ}, s'.undispatched = s.undispatched →
      s'.threadPool.map Handler.msg = s.threadPool.map Handler.msg → Spawned (ms ++ []) s' := by
    intro s' hu ht
    rw [List.append_nil]
    exact h.congr hu ht
  cases hs with
  | @consume m hl =>
      obtain ⟨rest, hms, hpool⟩ := h
      refine ⟨rest, ?_, hpool⟩
      have hrest : ms = rest := by simpa [undispatched, hl] using hms
      simp [undispatched, hrest]
  | nullReconnected | nullFailed | nullThrew => exact hnn.elim
  | @register m c hl hm ht hc =>
      refine hdispatch hl hm (by simp) ?_
      simp [requestsOf, ht, isIP4_subscibersList]
  | @spawn m hl hm ht hip =>
      refine hdispatch hl hm (by simp) ?_
      simp [requestsOf, hip]
  | @ignore m hl hm ht hip =>
      refine hdispatch hl hm (by simp) ?_
      simp [requestsOf, hip]
  | subscribed hl | subscribeThrew hl | keySent hl | keyThrew hl | stored hl =>
      exact hquiet (by simp [undispatched, hl]) rfl
  | handler hk hmove =>
      rw [consumed_singleton_of_ne (by intro m hm; subst hm; cases hmove)]
      exact hquiet rfl (setPc_msgs _ _ _)
  | crashes hc =>
      rw [consumed_singleton_of_ne (by intro m hm; subst hm; cases hc)]
      exact hquiet rfl rfl

/-- With no message waiting for its dispatch the handlers are the requests. -/
theorem Spawned.pool {ms : List (Message τ)} {s : Server τ} (h : Spawned ms s)
    (hl : s.loop ≠ .received) : s.threadPool.map Handler.msg = requestsOf ms := by
  obtain ⟨rest, hms, hpool⟩ := h
  have hrest : ms = rest := by simpa [undispatched, hl] using hms
  rw [hpool, hrest]

/-- One step, its effects dropped. -/
def next (cfg : Config) (s : Server τ) (l : Label τ) : Option (Server τ) :=
  (s.act cfg l).map Prod.fst

theorem next_acts {s s' : Server τ} {l : Label τ} (h : s.next cfg l = some s') :
    ∃ es, Acts cfg s l s' es := by
  obtain ⟨⟨srv', es⟩, hact, rfl⟩ := Option.map_eq_some_iff.mp h
  exact ⟨es, act_acts hact⟩

theorem next_of_alive {s : Server τ} (h : s.crashed = none) (l : Label τ) :
    s.next cfg l = (s.perform cfg l).map Prod.fst := by
  rw [next, act_of_alive h]

end Server

/-! ## Runs with their effects -/

/-- A server and everything that has left its process. -/
structure Logged (τ : Type) where
  srv : Server τ
  log : List Effect
  deriving DecidableEq, Repr

namespace Logged

open Server

/-- One step, its effects appended to the log. -/
def step (cfg : Config) (s : Logged τ) (l : Label τ) : Option (Logged τ) :=
  (s.srv.act cfg l).map fun p => ⟨p.1, s.log ++ p.2⟩

theorem step_acts {s s' : Logged τ} {l : Label τ} (h : step cfg s l = some s') :
    s.srv.crashed = none ∧ ∃ es, Acts cfg s.srv l s'.srv es ∧ s'.log = s.log ++ es := by
  obtain ⟨⟨srv', es⟩, hact, rfl⟩ := Option.map_eq_some_iff.mp h
  exact ⟨act_alive hact, es, act_acts hact, rfl⟩

theorem step_of_perform {s : Logged τ} {l : Label τ} {srv' : Server τ} {es : List Effect}
    (ha : s.srv.crashed = none) (h : s.srv.perform cfg l = some (srv', es)) :
    step cfg s l = some ⟨srv', s.log ++ es⟩ := by
  simp only [step, act_of_alive ha, h, Option.map_some]

/-! ## What the commands are -/

/-- Every command that was run is the one `handleBackupRequest` builds for an entry of the registry
and a payload it accepted. -/
structure CommandsLogged (cfg : Config) (s : Logged τ) : Prop where
  registry : Registry s.srv
  works : HandlersWork cfg s.srv
  ran : ∀ k t p cmnd, .execCmnd k t p cmnd ∈ s.log →
    isBackupMsg p = true ∧ ∃ c ∈ s.srv.clients, c.ip = t ∧ cmnd = cmndFor cfg c t p

theorem CommandsLogged.start : CommandsLogged cfg (⟨Server.start, []⟩ : Logged τ) :=
  ⟨Registry.start, by simp [HandlersWork, Server.start], by simp⟩

/-- Only a handler past its look-up runs a command. -/
theorem command_of_acts {s s' : Server τ} {l : Label τ} {es : List Effect}
    (h : Acts cfg s l s' es) {k : Nat} {t p : Str} {cmnd : Cmnd}
    (he : .execCmnd k t p cmnd ∈ es) :
    ∃ msg rc, s.threadPool[k]? = some ⟨msg, .cmndBuilt t p cmnd⟩ ∧ l = .exec k (some rc) := by
  cases h with
  | handler hk hmove =>
      cases hmove with
      | @exec t p cmnd rc =>
          simp only [List.mem_singleton, Effect.execCmnd.injEq] at he
          obtain ⟨rfl, rfl, rfl, rfl⟩ := he
          exact ⟨_, rc, hk, rfl⟩
      | _ => simp at he
  | _ => simp at he

theorem CommandsLogged.step {s s' : Logged τ} {l : Label τ} (h : CommandsLogged cfg s)
    (hstep : step cfg s l = some s') : CommandsLogged cfg s' := by
  obtain ⟨-, es, hacts, hlog⟩ := step_acts hstep
  refine ⟨h.registry.step hacts, h.works.step hacts, ?_⟩
  intro k t p cmnd hmem
  have hcl : ∀ c ∈ s.srv.clients, c ∈ s'.srv.clients := fun c hc => hacts.clients_prefix.subset hc
  rw [hlog, List.mem_append] at hmem
  rcases hmem with hold | hnew
  · obtain ⟨hp, c, hc, hip, hcmnd⟩ := h.ran k t p cmnd hold
    exact ⟨hp, c, hcl c hc, hip, hcmnd⟩
  · obtain ⟨msg, rc, hk, -⟩ := command_of_acts hacts hnew
    obtain ⟨hp, c, hc, hip, hcmnd⟩ := h.works ⟨msg, _⟩ (mem_of_getElem? hk)
    exact ⟨hp, c, hcl c hc, hip, hcmnd⟩

theorem commandsLogged {s : Logged τ} {ls : List (Label τ)}
    (hrun : exec (step cfg) ⟨Server.start, []⟩ ls = some s) : CommandsLogged cfg s :=
  inv_exec (I := CommandsLogged cfg) (fun _ _ _ h hs => h.step hs) CommandsLogged.start hrun

/-- A command that was run copies the path it was asked for into the directory of its host. -/
theorem CommandsLogged.target {s : Logged τ} (h : CommandsLogged cfg s) {k : Nat} {t p : Str}
    {cmnd : Cmnd} (he : .execCmnd k t p cmnd ∈ s.log) :
    cmnd.target = backupTarget t ∧ cmnd.source = p := by
  obtain ⟨-, c, hc, rfl, rfl⟩ := h.ran k t p cmnd he
  obtain ⟨htarget, -⟩ := h.registry.entry c hc
  unfold cmndFor
  split
  · exact ⟨htarget, rfl⟩
  · exact ⟨htarget, rfl⟩

/-- The commands handler `k` ran. -/
def commandsOf (k : Nat) (log : List Effect) : List Effect :=
  log.filter fun e => match e with
    | .execCmnd k' _ _ _ => k' = k
    | _ => false

/-- The replies handler `k` published. -/
def repliesOf (k : Nat) (log : List Effect) : List Effect :=
  log.filter fun e => match e with
    | .reply k' _ _ => k' = k
    | _ => false

@[simp] theorem commandsOf_append (k : Nat) (es es' : List Effect) :
    commandsOf k (es ++ es') = commandsOf k es ++ commandsOf k es' := List.filter_append ..

@[simp] theorem repliesOf_append (k : Nat) (es es' : List Effect) :
    repliesOf k (es ++ es') = repliesOf k es ++ repliesOf k es' := List.filter_append ..

/-- Handler `k` ran nothing and replied to nobody. -/
def Idle (s : Logged τ) (k : Nat) : Prop := commandsOf k s.log = [] ∧ repliesOf k s.log = []

theorem Idle.append {s s' : Logged τ} {k : Nat} {es : List Effect} (h : Idle s k)
    (hlog : s'.log = s.log ++ es) (hes : commandsOf k es = [] ∧ repliesOf k es = []) :
    Idle s' k := by
  rw [Idle, hlog, commandsOf_append, repliesOf_append, h.1, h.2, hes.1, hes.2]
  exact ⟨rfl, rfl⟩

/-- A handler's step has no effects in another handler's name. -/
theorem effects_of_other {s : Server τ} {i k : Nat} {l : Label τ} {pc pc' : HandlerPc}
    {es : List Effect} (h : HandlerMoves cfg s k l pc pc' es) (hik : i ≠ k) :
    commandsOf i es = [] ∧ repliesOf i es = [] := by
  cases h <;> simp [commandsOf, repliesOf, hik.symm]

/-- `P` holds of every handler, and the log has nothing in the name of one that is not there. -/
structure PerHandler (P : Logged τ → Nat → Handler τ → Prop) (s : Logged τ) : Prop where
  here : ∀ k h, s.srv.threadPool[k]? = some h → P s k h
  beyond : ∀ k, s.srv.threadPool.length ≤ k → Idle s k

/-- The step rule for facts about single handlers: what others do keeps `P`, a new handler has it,
and a handler that moves keeps it. -/
theorem PerHandler.step {P : Logged τ → Nat → Handler τ → Prop} {s s' : Logged τ} {l : Label τ}
    {es : List Effect} (h : PerHandler P s) (hacts : Acts cfg s.srv l s'.srv es)
    (hlog : s'.log = s.log ++ es)
    (hother : ∀ k hd, commandsOf k es = [] ∧ repliesOf k es = [] → P s k hd → P s' k hd)
    (hspawn : ∀ k m, Idle s' k → P s' k ⟨m, .spawned⟩)
    (hmoves : ∀ k msg pc pc', s.srv.threadPool[k]? = some ⟨msg, pc⟩ →
      HandlerMoves cfg s.srv k l pc pc' es → s'.srv = s.srv.setPc k pc' → P s k ⟨msg, pc⟩ →
      P s' k ⟨msg, pc'⟩) : PerHandler P s' := by
  -- a step that leaves the handlers alone and has no effects in their names
  have hquiet : s'.srv.threadPool = s.srv.threadPool →
      (∀ k, commandsOf k es = [] ∧ repliesOf k es = []) → PerHandler P s' := by
    intro hpool hes
    refine ⟨?_, ?_⟩
    · intro k hd hk
      rw [hpool] at hk
      exact hother k hd (hes k) (h.here k hd hk)
    · intro k hk
      rw [hpool] at hk
      exact (h.beyond k hk).append hlog (hes k)
  generalize hsrv : s'.srv = srv' at hacts
  cases hacts with
  | @spawn m hl hm ht hip =>
      have hpool : s'.srv.threadPool = s.srv.threadPool ++ [⟨m, .spawned⟩] := by rw [hsrv]
      refine ⟨?_, ?_⟩
      · intro k hd hk
        rw [hpool] at hk
        by_cases hlt : k < s.srv.threadPool.length
        · rw [List.getElem?_append_left hlt] at hk
          exact hother k hd ⟨rfl, rfl⟩ (h.here k hd hk)
        · have hidle : Idle s k := h.beyond k (Nat.le_of_not_lt hlt)
          rw [List.getElem?_append_right (Nat.le_of_not_lt hlt)] at hk
          obtain rfl : hd = ⟨m, .spawned⟩ := by
            simpa using List.mem_of_getElem? hk
          exact hspawn k m (hidle.append hlog ⟨rfl, rfl⟩)
      · intro k hk
        rw [hpool, List.length_append] at hk
        exact (h.beyond k (by omega)).append hlog ⟨rfl, rfl⟩
  | @handler k l msg pc pc' es hk hmove =>
      refine ⟨?_, ?_⟩
      · intro i hd hi
        rw [hsrv] at hi
        rcases setPc_getElem?_cases hk hi with ⟨rfl, rfl⟩ | ⟨hik, hold⟩
        · exact hmoves i msg pc pc' hk hmove hsrv (h.here i _ hk)
        · exact hother i hd (effects_of_other hmove hik) (h.here i hd hold)
      · intro i hi
        rw [hsrv, setPc_length] at hi
        have hik : i ≠ k := by
          rintro rfl
          rw [List.getElem?_eq_none hi] at hk
          cases hk
        exact (h.beyond i hi).append hlog (effects_of_other hmove hik)
  | crashes hc => exact hquiet (by rw [hsrv]; rfl) (fun k => ⟨rfl, rfl⟩)
  | _ => exact hquiet (by rw [hsrv]) (fun k => ⟨rfl, rfl⟩)

end Logged

end BupApp
