/-
# BupApp.Server.Independence -- what the registry depends on

Registrations and requests go through one loop and one `m_msgPtr`, and the handlers of requests run
whenever they like.  The registry does not see any of it: it is the fold of `handleNewSubscriber`
over the payloads of the public channel and the outcomes of the broker calls made for them.  Two runs
that agree on these two things therefore end with the same registry, whatever else they do.
-/
import BupApp.App.Handling

namespace BupApp.Independence

open BupApp.Lib.Transition Server

variable {τ : Type} {cfg : Config}

/-! ## The fold -/

/-- What the two broker calls of a `handleNewSubscriber` call do; `keySent` counts only where the
subscription has completed. -/
structure Outcome where
  subscribed : Bool
  keySent : Bool
  deriving DecidableEq, Repr

/-- `m_clients` after a call of `handleNewSubscriber` with these outcomes. -/
def handleNewSubscriber (o : Outcome) (clients : List Client) (msgPayload : Str) : List Client :=
  match Client.ofMsg msgPayload with
  | none => clients
  | some currClient =>
      if o.subscribed && o.keySent then clients ++ [entryOf currClient] else clients

/-- The calls of `handleNewSubscriber` for `payloads`, of which the first is call number `n`. -/
def registryFrom (o : Nat → Outcome) : Nat → List Client → List Str → List Client
  | _, clients, [] => clients
  | n, clients, p :: payloads =>
      registryFrom o (n + 1) (handleNewSubscriber (o n) clients p) payloads

/-- The registry after the calls for `payloads`. -/
def registry (o : Nat → Outcome) (payloads : List Str) : List Client := registryFrom o 0 [] payloads

theorem registryFrom_snoc (o : Nat → Outcome) (n : Nat) (cs : List Client) (ps : List Str)
    (p : Str) : registryFrom o n cs (ps ++ [p]) =
      handleNewSubscriber (o (n + ps.length)) (registryFrom o n cs ps) p := by
  induction ps generalizing n cs with
  | nil => rfl
  | cons q ps ih =>
      show registryFrom o (n + 1) (handleNewSubscriber (o n) cs q) (ps ++ [p]) = _
      rw [ih, List.length_cons, show n + 1 + ps.length = n + (ps.length + 1) by omega]
      rfl

theorem registry_snoc (o : Nat → Outcome) (ps : List Str) (p : Str) :
    registry o (ps ++ [p]) = handleNewSubscriber (o ps.length) (registry o ps) p := by
  rw [registry, registryFrom_snoc, Nat.zero_add]
  rfl

/-! ## Runs with given outcomes -/

/-- The payloads of the public channel. -/
def publicPayloads (ms : List (Message τ)) : List Str :=
  (ms.filter (·.topic = subscibersList)).map Message.payload

@[simp] theorem publicPayloads_append (ms ms' : List (Message τ)) :
    publicPayloads (ms ++ ms') = publicPayloads ms ++ publicPayloads ms' := by
  simp [publicPayloads]

/-- The step makes no broker call of `handleNewSubscriber`, or the call does what `o` says. -/
def Meets (o : Outcome) : Label τ → Prop
  | .subscribe ok => ok = o.subscribed
  | .publishKey ok => ok = o.keySent
  | _ => True

/-- The broker calls of the `n`-th call of `handleNewSubscriber` (from 0) do what `o n` says. -/
def Follows (o : Nat → Outcome) (ls : List (Label τ)) : Prop :=
  ∀ pre l post, ls = pre ++ l :: post →
    Meets (o ((publicPayloads (consumed pre)).length - 1)) l

theorem Follows.init {o : Nat → Outcome} {ls : List (Label τ)} {l : Label τ}
    (h : Follows o (ls ++ [l])) : Follows o ls := by
  rintro pre l' post rfl
  exact h pre l' (post ++ [l]) (by simp)

instance (o : Outcome) : ∀ l : Label τ, Decidable (Meets o l)
  | .subscribe ok => inferInstanceAs (Decidable (ok = o.subscribed))
  | .publishKey ok => inferInstanceAs (Decidable (ok = o.keySent))
  | .consume _ | .consumeNull _ | .dispatch | .store | .readTopic _ | .readPayload _ | .lookup _
  | .exec _ _ | .reply _ _ => isTrue trivial

theorem follows_iff {o : Nat → Outcome} {ls : List (Label τ)} : Follows o ls ↔
    ∀ i : Fin ls.length, Meets (o ((publicPayloads (consumed (ls.take i))).length - 1)) ls[i] := by
  constructor
  · intro h i
    refine h (ls.take i) ls[i] (ls.drop (i + 1)) ?_
    have hdrop : ls.drop i = ls[i] :: ls.drop (i + 1) := List.drop_eq_getElem_cons i.isLt
    rw [← hdrop, List.take_append_drop]
  · rintro h pre l post rfl
    have hi : pre.length < (pre ++ l :: post).length := by simp
    simpa using h ⟨pre.length, hi⟩

instance (o : Nat → Outcome) (ls : List (Label τ)) : Decidable (Follows o ls) :=
  decidable_of_iff _ follows_iff.symm

/-! ## The invariant -/

/-- The payload the loop has got from the public channel and is not done with. -/
def pending (s : Server τ) : List Str :=
  if s.loop = .waiting then [] else publicPayloads s.msgPtr.toList

/-- How far the call of `handleNewSubscriber` for the last payload is. -/
def Progress (o : Outcome) (s : Server τ) : Prop :=
  match s.loop with
  | .subscribing c => ∃ p, pending s = [p] ∧ Client.ofMsg p = some c
  | .sendingKey c => ∃ p, pending s = [p] ∧ Client.ofMsg p = some c ∧ o.subscribed = true
  | .storing c => ∃ p, pending s = [p] ∧ Client.ofMsg p = some c ∧ o.subscribed = true ∧
      o.keySent = true
  | _ => True

/-- The registry is the fold over the payloads the loop is done with. -/
def Inv (o : Nat → Outcome) (hist : List (Label τ)) (s : Server τ) : Prop :=
  ∃ ps, publicPayloads (consumed hist) = ps ++ pending s ∧ s.clients = registry o ps ∧
    Progress (o ps.length) s

theorem inv_start (o : Nat → Outcome) : Inv o [] (Server.start : Server τ) :=
  ⟨[], rfl, rfl, trivial⟩

theorem pending_waiting {s : Server τ} (h : s.loop = .waiting) : pending s = [] := by
  rw [pending, if_pos h]

theorem pending_busy {s : Server τ} (h : s.loop ≠ .waiting) :
    pending s = publicPayloads s.msgPtr.toList := by
  rw [pending, if_neg h]

theorem progress_waiting {o : Outcome} {s : Server τ} (h : s.loop = .waiting) : Progress o s := by
  simp only [Progress, h]

section StepLemma

variable {o : Nat → Outcome} {hist : List (Label τ)} {s s' : Server τ} {l : Label τ}

/-- A step that consumes nothing and leaves the registry, what is pending and the progress. -/
theorem Inv.aside (h : Inv o hist s) (hl : ∀ m, l ≠ .consume m) (hcl : s'.clients = s.clients)
    (hpending : pending s' = pending s) (hprogress : ∀ q, Progress q s → Progress q s') :
    Inv o (hist ++ [l]) s' := by
  obtain ⟨ps, hps, hreg, hprog⟩ := h
  refine ⟨ps, ?_, hcl.trans hreg, hprogress _ hprog⟩
  rw [consumed_append, consumed_singleton_of_ne hl, List.append_nil, hps, hpending]

/-- The step at which the call for the last payload ends. -/
theorem Inv.ends (h : Inv o hist s) (hl : ∀ m, l ≠ .consume m) {p : Str} (hp : pending s = [p])
    (hl' : s'.loop = .waiting)
    (hcl : ∀ q, (publicPayloads (consumed hist)).length - 1 = q → Progress (o q) s →
      s'.clients = handleNewSubscriber (o q) s.clients p) : Inv o (hist ++ [l]) s' := by
  obtain ⟨ps, hps, hreg, hprog⟩ := h
  have hindex : (publicPayloads (consumed hist)).length - 1 = ps.length := by
    rw [hps, hp, List.length_append, List.length_singleton, Nat.add_sub_cancel]
  refine ⟨ps ++ [p], ?_, ?_, ?_⟩
  · rw [consumed_append, consumed_singleton_of_ne hl, List.append_nil, hps, hp,
      pending_waiting hl', List.append_nil]
  · rw [registry_snoc, ← hreg]
    exact hcl ps.length hindex hprog
  · exact progress_waiting hl'

/-- The step at which a call goes on after a broker call that completed. -/
theorem Inv.goesOn (h : Inv o hist s) (hl : ∀ m, l ≠ .consume m) {p : Str} (hp : pending s = [p])
    (hp' : pending s' = [p]) (hcl : s'.clients = s.clients)
    (hprog' : ∀ q, (publicPayloads (consumed hist)).length - 1 = q → Progress (o q) s →
      Progress (o q) s') : Inv o (hist ++ [l]) s' := by
  obtain ⟨ps, hps, hreg, hprog⟩ := h
  have hindex : (publicPayloads (consumed hist)).length - 1 = ps.length := by
    rw [hps, hp, List.length_append, List.length_singleton, Nat.add_sub_cancel]
  refine ⟨ps, ?_, hcl.trans hreg, hprog' ps.length hindex hprog⟩
  rw [consumed_append, consumed_singleton_of_ne hl, List.append_nil, hps, hp, hp']

/-- What is pending while a call is under way. -/
theorem Inv.pending_of_client (h : Inv o hist s) {c : Client} (hc : s.loop.client? = some c) :
    ∃ p, pending s = [p] ∧ Client.ofMsg p = some c := by
  obtain ⟨ps, -, -, hprog⟩ := h
  unfold Progress at hprog
  split at hprog
  · rename_i d hl
    obtain rfl : d = c := by simpa [hl, LoopPc.client?] using hc
    exact hprog
  · rename_i d hl
    obtain rfl : d = c := by simpa [hl, LoopPc.client?] using hc
    obtain ⟨p, hp, hdec, -⟩ := hprog
    exact ⟨p, hp, hdec⟩
  · rename_i d hl
    obtain rfl : d = c := by simpa [hl, LoopPc.client?] using hc
    obtain ⟨p, hp, hdec, -⟩ := hprog
    exact ⟨p, hp, hdec⟩
  · rename_i h₁ h₂ h₃
    cases hl : s.loop with
    | subscribing d => exact absurd hl (h₁ d)
    | sendingKey d => exact absurd hl (h₂ d)
    | storing d => exact absurd hl (h₃ d)
    | _ => simp [hl, LoopPc.client?] at hc

/-- **The step lemma.** -/
theorem Inv.step {es : List Effect} (h : Inv o hist s) (hacts : Acts cfg s l s' es)
    (hfollows : Follows o (hist ++ [l])) : Inv o (hist ++ [l]) s' := by
  -- the broker call of this step, if there is one, is that of the last call so far
  have hmeets : ∀ q, (publicPayloads (consumed hist)).length - 1 = q → Meets (o q) l := by
    rintro q rfl
    exact hfollows hist l [] rfl
  cases hacts with
  | @consume m hl =>
      obtain ⟨ps, hps, hreg, -⟩ := h
      refine ⟨ps, ?_, hreg, trivial⟩
      rw [consumed_append, consumed_consume, publicPayloads_append, hps, pending_waiting hl,
        List.append_nil, pending_busy (by simp)]
      rfl
  | nullReconnected hl | nullFailed hl =>
      refine h.aside (by simp) rfl ?_ fun _ _ => trivial
      rw [pending_waiting hl, pending_busy (by simp)]
      rfl
  | nullThrew hl =>
      refine h.aside (by simp) rfl ?_ fun _ _ => progress_waiting hl
      rw [pending_waiting hl]
      exact if_pos hl
  | @register m c hl hm ht hc =>
      have hpending : ∀ {srv : Server τ}, srv.loop ≠ .waiting → srv.msgPtr = some m →
          pending srv = [m.payload] := by
        intro srv hbusy hptr
        rw [pending_busy hbusy, hptr]
        simp [publicPayloads, ht]
      refine h.goesOn (by simp) (hpending (by simp [hl]) hm) (hpending (by simp) hm) rfl ?_
      exact fun _ _ _ => ⟨m.payload, hpending (by simp) hm, hc⟩
  | @spawn m hl hm ht hip | @ignore m hl hm ht hip =>
      refine h.aside (by simp) rfl ?_ fun _ _ => trivial
      rw [pending_waiting rfl, pending_busy (by simp [hl]), hm]
      simp [publicPayloads, ht]
  | @subscribed c hl =>
      obtain ⟨p, hp, hc⟩ := h.pending_of_client (c := c) (by simp [hl, LoopPc.client?])
      have hp' : pending { s with loop := .sendingKey c } = [p] := by
        rw [pending_busy (by simp [hl])] at hp
        rw [pending_busy (by simp)]
        exact hp
      refine h.goesOn (by simp) hp hp' rfl fun q hq _ => ⟨p, hp', hc, ?_⟩
      exact (hmeets q hq).symm
  | @subscribeThrew c hl =>
      obtain ⟨p, hp, hc⟩ := h.pending_of_client (c := c) (by simp [hl, LoopPc.client?])
      refine h.ends (by simp) hp rfl fun q hq _ => ?_
      have hsub : (o q).subscribed = false := (hmeets q hq).symm
      simp [handleNewSubscriber, hc, hsub]
  | @keySent c hl =>
      obtain ⟨p, hp, hc⟩ := h.pending_of_client (c := c) (by simp [hl, LoopPc.client?])
      have hp' : pending { s with loop := .storing c } = [p] := by
        rw [pending_busy (by simp [hl])] at hp
        rw [pending_busy (by simp)]
        exact hp
      refine h.goesOn (by simp) hp hp' rfl fun q hq hprog => ?_
      simp only [Progress, hl] at hprog
      obtain ⟨-, -, -, hsub⟩ := hprog
      exact ⟨p, hp', hc, hsub, (hmeets q hq).symm⟩
  | @keyThrew c hl =>
      obtain ⟨p, hp, hc⟩ := h.pending_of_client (c := c) (by simp [hl, LoopPc.client?])
      refine h.ends (by simp) hp rfl fun q hq _ => ?_
      have hkey : (o q).keySent = false := (hmeets q hq).symm
      simp [handleNewSubscriber, hc, hkey]
  | @stored c hl =>
      obtain ⟨p, hp, hc⟩ := h.pending_of_client (c := c) (by simp [hl, LoopPc.client?])
      refine h.ends (by simp) hp rfl fun q _ hprog => ?_
      simp only [Progress, hl] at hprog
      obtain ⟨-, -, -, hsub, hkey⟩ := hprog
      simp [handleNewSubscriber, hc, hsub, hkey, entryOf]
  | handler hk hmove =>
      exact h.aside (by rintro m rfl; cases hmove) rfl rfl fun _ hp => hp
  | crashes hc =>
      exact h.aside (by rintro m rfl; cases hc) rfl rfl fun _ hp => hp

end StepLemma

/-! ## Runs -/

theorem inv_of_run {o : Nat → Outcome} {s : Server τ} {ls : List (Label τ)}
    (hrun : exec (next cfg) Server.start ls = some s) (hfollows : Follows o ls) : Inv o ls s := by
  have hinv := inv_history (C := fun _ _ => True) (I := fun hist s => Follows o hist → Inv o hist s)
    ?_ (fun _ => inv_start o) (EachStep.of_forall (fun _ _ => trivial) _ _) hrun
  · exact hinv hfollows
  · intro hist s l s' h _ hs hfollows
    obtain ⟨es, hacts⟩ := next_acts hs
    exact (h hfollows.init).step hacts hfollows

/-- When the loop is done with what it has consumed, the registry is the fold of
`handleNewSubscriber` over the payloads of the public channel. -/
theorem registry_of_run {o : Nat → Outcome} {s : Server τ} {ls : List (Label τ)}
    (hrun : exec (next cfg) Server.start ls = some s) (hfollows : Follows o ls)
    (hdone : s.loop = .waiting) : s.clients = registry o (publicPayloads (consumed ls)) := by
  obtain ⟨ps, hps, hreg, -⟩ := inv_of_run hrun hfollows
  rw [pending_waiting hdone, List.append_nil] at hps
  rw [hreg, hps]

/-- **The registry does not depend on backup traffic**: it is the fold of `handleNewSubscriber` over
the public channel, so two runs that agree there end with the same registry. -/
theorem registry_independent (cfg : Config) (o : Nat → Outcome) :
    (∀ (ls : List (Label τ)) (s : Server τ), exec (next cfg) Server.start ls = some s →
      Follows o ls → s.loop = .waiting →
      s.clients = registry o (publicPayloads (consumed ls))) ∧
    ∀ (ls ls' : List (Label τ)) (s s' : Server τ), exec (next cfg) Server.start ls = some s →
      exec (next cfg) Server.start ls' = some s' → Follows o ls → Follows o ls' →
      s.loop = .waiting → s'.loop = .waiting →
      publicPayloads (consumed ls) = publicPayloads (consumed ls') → s.clients = s'.clients := by
  refine ⟨fun ls s hrun hfollows hdone => registry_of_run hrun hfollows hdone, ?_⟩
  intro ls ls' s s' hrun hrun' hfollows hfollows' hdone hdone' hagree
  rw [registry_of_run hrun hfollows hdone, registry_of_run hrun' hfollows' hdone', hagree]

/-- The subscription of the first call throws. -/
def firstThrows : Nat → Outcome
  | 0 => ⟨false, true⟩
  | _ + 1 => ⟨true, true⟩

/-- Two registrations; the first one fails. -/
def twoHosts : List (Label Unit) :=
  [.consume (registrationWith "10.0.0.2 ann"), .dispatch, .subscribe false,
    .consume (registrationWith "10.0.0.3 bob"), .dispatch, .subscribe true, .publishKey true, .store]

/-- The same registrations between two messages of the second host; the handler of its request
reads while the second registration is handled. -/
def withTraffic : List (Label Unit) :=
  [.consume ⟨"10.0.0.3".toList, "hello".toList, ()⟩, .dispatch,
    .consume (registrationWith "10.0.0.2 ann"), .dispatch, .readTopic 0, .subscribe false,
    .consume (registrationWith "10.0.0.3 bob"), .dispatch, .subscribe true, .readPayload 0,
    .publishKey true, .lookup 0, .store, .consume ⟨"10.0.0.3".toList, "~/a".toList, ()⟩, .dispatch,
    .readTopic 1, .readPayload 1, .lookup 1]

theorem twoHosts_withTraffic : ∃ s s' : Server Unit,
    exec (next lanCfg) Server.start twoHosts = some s ∧
    exec (next lanCfg) Server.start withTraffic = some s' ∧ s.clients = s'.clients ∧
    s'.clients = registry firstThrows ["10.0.0.2 ann".toList, "10.0.0.3 bob".toList] ∧
    s'.clients.length = 1 := by
  obtain ⟨s, hs, hdone⟩ := exists_exec_of_any (P := fun s : Server Unit => s.loop = .waiting)
    (show (exec (next lanCfg) Server.start twoHosts).any _ = true by decide +kernel)
  obtain ⟨s', hs', hdone', hone⟩ := exists_exec_of_any
    (P := fun s : Server Unit => s.loop = .waiting ∧ s.clients.length = 1)
    (show (exec (next lanCfg) Server.start withTraffic).any _ = true by decide +kernel)
  obtain ⟨hfold, hagree⟩ := registry_independent (τ := Unit) lanCfg firstThrows
  refine ⟨s, s', hs, hs', ?_, ?_, hone⟩
  · exact hagree twoHosts withTraffic s s' hs hs' (by decide) (by decide) hdone hdone' (by decide)
  · exact hfold withTraffic s' hs' (by decide) hdone'

end BupApp.Independence
