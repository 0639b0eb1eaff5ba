/-
# BupApp.Network.Handshake -- the key in the first sessions

A client registers before it subscribes, so the key may be published before there is anybody to
deliver it to.  Two paths lead to the client: the message itself, when the subscription is there, and
the retained slot, when it is not.  In first sessions they never meet: as long as a client has not
got the key, nothing but the key is published on its channel, and the key once at most.

The invariant is a balance sheet for each client: the registrations on their way through the server
and the keys on its channel add up to the registrations it published, which is one at most.
-/
import BupApp.App.NetworkSteps

set_option linter.unusedSectionVars false

namespace BupApp.Handshake

open BupApp.Lib.Transition BupApp.Lib.PubSub BupApp.Lib.PubSub.Broker Net
open Server (Acts Knows HandlerMoves)

variable {ι : Type} [DecidableEq ι] {cfg : NetConfig ι}

/-! ## First sessions -/

/-- The server has subscribed to the public channel before anybody has published. -/
def served (cfg : NetConfig ι) : Net ι :=
  ({ (init : Net ι) with up := true }).subscribeTo cfg .server subscibersList true

/-- A step in the first sessions: a client starts only if it has never registered, the server is not
restarted and its broker calls succeed. -/
def FirstSession (s : Net ι) : NetLabel ι → Prop
  | .start i => ∀ m ∈ s.history, m.tag.origin ≠ .registration i
  | .serverRestart => False
  | .server l => l.succeeds
  | _ => True

instance (s : Net ι) : ∀ l, Decidable (FirstSession s l)
  | .start i => inferInstanceAs (Decidable (∀ m ∈ s.history, m.tag.origin ≠ .registration i))
  | .serverRestart => isFalse id
  | .server l => inferInstanceAs (Decidable l.succeeds)
  | .stop _ | .register _ _ | .subscribe _ | .take _ | .request _ _ | .serverSetups => isTrue trivial

/-- The server's key was delivered to the client once, before anything else. -/
def KeyOnceAndFirst (cfg : NetConfig ι) (s : Net ι) (i : ι) : Prop :=
  ∃ m rest, delivered s i = m :: rest ∧ m.tag.origin = .key ∧
    m.payload = cfg.server.publicKey ∧ ∀ m' ∈ rest, m'.tag.origin ≠ .key

/-! ## The balance sheet -/

def FromClient (m : Msg ι) : Prop :=
  (∃ i, m.tag.origin = .registration i) ∨ ∃ i, m.tag.origin = .request i

/-- The registrations of `i` in a list of messages. -/
def regs (ms : List (Msg ι)) (i : ι) : Nat := ms.countP (·.tag.origin = .registration i)

/-- The keys on a topic. -/
def keys (ms : List (Msg ι)) (x : Str) : Nat :=
  ms.countP fun m => m.tag.origin = .key ∧ m.topic = x

@[simp] theorem regs_append (ms ms' : List (Msg ι)) (i : ι) :
    regs (ms ++ ms') i = regs ms i + regs ms' i := List.countP_append

@[simp] theorem keys_append (ms ms' : List (Msg ι)) (x : Str) :
    keys (ms ++ ms') x = keys ms x + keys ms' x := List.countP_append

/-- The message the loop is working on, as long as its key is not published. -/
def current (srv : Server (Stamp ι)) : List (Msg ι) :=
  match srv.loop with
  | .received => srv.msgPtr.toList
  | .subscribing _ => srv.msgPtr.toList
  | .sendingKey _ => srv.msgPtr.toList
  | _ => []

/-- The registrations of `i` on their way through the server. -/
def pend (s : Net ι) (i : ι) : Nat := regs (s.broker.queue .server) i + regs (current s.srv) i

structure Registrations (cfg : NetConfig ι) (s : Net ι) : Prop where
  balance : ∀ i, pend s i + keys s.history (cfg.ip i) = regs s.history i
  once : ∀ i, regs s.history i ≤ 1
  unregistered : ∀ i, (s.clients i).pc = .connected → regs s.history i = 0
  fromClients : ∀ m ∈ s.broker.queue .server, FromClient m
  knows : Knows (fun m => m ∈ s.history ∧ FromClient m) s.srv

/-- The client is on its way to the key. -/
def Setting (pc : ClientPc) : Prop := pc = .connected ∨ pc = .registered ∨ pc = .waiting

structure Channels (cfg : NetConfig ι) (s : Net ι) : Prop where
  /-- The first message on a private channel is a key. -/
  head : ∀ i m rest, onTopic s.history (cfg.ip i) = m :: rest → m.tag.origin = .key
  /-- Before the client has its key there is nothing else on its channel. -/
  onlyKey : ∀ i, Setting (s.clients i).pc →
    ∀ m ∈ onTopic s.history (cfg.ip i), m.tag.origin = .key
  worked : ∀ i, (s.clients i).pc = .working → onTopic s.history (cfg.ip i) ≠ []
  /-- A subscribed client was delivered all of its channel. -/
  delivered : ∀ i, Subscribed (s.clients i).pc → delivered s i = onTopic s.history (cfg.ip i)
  installed : ∀ i, ∀ k ∈ (s.clients i).installed, k = cfg.server.publicKey

structure Inv (cfg : NetConfig ι) (s : Net ι) : Prop where
  wf : Wf cfg s
  up : s.up = true
  registrations : Registrations cfg s
  channels : Channels cfg s

/-! ## What follows from it -/

theorem keys_pos_of_mem {ms : List (Msg ι)} {x : Str} {m : Msg ι} (hm : m ∈ onTopic ms x)
    (hk : m.tag.origin = .key) : 0 < keys ms x := by
  obtain ⟨hmem, ht⟩ := mem_onTopic.mp hm
  exact List.countP_pos_iff.mpr ⟨m, hmem, by simp [hk, ht]⟩

/-- Without a key a private channel is empty. -/
theorem Channels.empty {s : Net ι} (h : Channels cfg s) {i : ι}
    (hk : keys s.history (cfg.ip i) = 0) : onTopic s.history (cfg.ip i) = [] := by
  cases ho : onTopic s.history (cfg.ip i) with
  | nil => rfl
  | cons m rest =>
      have hpos := keys_pos_of_mem (x := cfg.ip i) (by rw [ho]; simp) (h.head i m rest ho)
      omega

theorem countP_onTopic (ms : List (Msg ι)) (x : Str) :
    (onTopic ms x).countP (·.tag.origin = .key) = keys ms x := by
  rw [onTopic, List.countP_filter, keys]
  congr 1
  funext m
  simp

/-- On its way to the key a client's channel holds one message at most. -/
theorem Inv.channel_cases {s : Net ι} (h : Inv cfg s) {i : ι} (hset : Setting (s.clients i).pc) :
    onTopic s.history (cfg.ip i) = [] ∨
      ∃ m, onTopic s.history (cfg.ip i) = [m] ∧ m.tag.origin = .key := by
  have hone : keys s.history (cfg.ip i) ≤ 1 := by
    have hb := h.registrations.balance i
    have ho := h.registrations.once i
    omega
  have hlen : (onTopic s.history (cfg.ip i)).length ≤ 1 := by
    have hcount := countP_onTopic s.history (cfg.ip i)
    have hall : (onTopic s.history (cfg.ip i)).countP (·.tag.origin = .key) =
        (onTopic s.history (cfg.ip i)).length :=
      List.countP_eq_length.mpr fun m hm => by simpa using h.channels.onlyKey i hset m hm
    omega
  -- all of it are keys, and of keys there is one at most
  match ho : onTopic s.history (cfg.ip i) with
  | [] => exact Or.inl rfl
  | [m] => exact Or.inr ⟨m, rfl, h.channels.head i m [] ho⟩
  | m :: m' :: rest =>
      rw [ho] at hlen
      simp at hlen

/-! ## The channels at a step -/

/-- A publication on a private channel is a key, or comes when the client has its own. -/
theorem Channels.publish {s : Net ι} (hwf : Wf cfg s) (h : Channels cfg s) {src : Party ι}
    {t p : Str} {o : Origin ι}
    (hsafe : ∀ i, t = cfg.ip i → o = .key ∨
      (onTopic s.history (cfg.ip i) ≠ [] ∧ ¬ Setting (s.clients i).pc)) :
    Channels cfg (s.publish src t p o) := by
  have hon : ∀ x, onTopic (s.publish src t p o).history x =
      onTopic s.history x ++ if t = x then [⟨t, p, ⟨o, s.history.length⟩⟩] else [] :=
    fun x => onTopic_append _ _ _
  refine ⟨?_, ?_, ?_, ?_, h.installed⟩
  · intro i m rest ho
    rw [hon] at ho
    -- the first publication on the channel is the key
    cases hold : onTopic s.history (cfg.ip i) with
    | nil =>
        rw [hold, List.nil_append] at ho
        split at ho
        · rename_i ht
          rcases hsafe i ht with rfl | ⟨hne, -⟩
          · rw [← (List.cons.inj ho).1]
          · exact absurd hold hne
        · cases ho
    | cons m₀ rest₀ =>
        rw [hold, List.cons_append] at ho
        rw [← (List.cons.inj ho).1]
        exact h.head i m₀ rest₀ hold
  · intro i hset m hm
    rw [hon, List.mem_append] at hm
    rcases hm with hold | hnew
    · exact h.onlyKey i hset m hold
    · split at hnew
      · rename_i ht
        rcases hsafe i ht with rfl | ⟨-, hns⟩
        · rw [List.mem_singleton.mp hnew]
        · exact absurd hset hns
      · cases hnew
  · intro i hpc
    rw [hon]
    exact fun hnil => h.worked i hpc (List.append_eq_nil_iff.mp hnil).1
  · intro i hsub
    have hsub' : Subscribed (s.clients i).pc := hsub
    rw [hon, ← h.delivered i hsub']
    simp only [Net.delivered, Net.publish, queue_publish, hwf.forwards_client, hsub',
      true_and, decide_eq_true_eq]
    split
    · rw [List.append_assoc]
    · rw [List.append_nil]

theorem Channels.congr {s s' : Net ι} (h : Channels cfg s) (hcl : s'.clients = s.clients)
    (hh : s'.history = s.history)
    (hq : ∀ i, s'.broker.queue (.client i) = s.broker.queue (.client i)) : Channels cfg s' := by
  refine ⟨by rw [hh]; exact h.head, by rw [hh, hcl]; exact h.onlyKey,
    by rw [hh, hcl]; exact h.worked, ?_, by rw [hcl]; exact h.installed⟩
  intro i hsub
  rw [hcl] at hsub
  rw [hh, ← h.delivered i hsub, Net.delivered, Net.delivered, hcl, hq]

/-- One client moves and nothing is published. -/
theorem Channels.client {s s' : Net ι} (h : Channels cfg s) {i : ι} {c : AppClient (Stamp ι)}
    (hcl : s'.clients = Function.update s.clients i c) (hh : s'.history = s.history)
    (hq : ∀ j, j ≠ i → s'.broker.queue (.client j) = s.broker.queue (.client j))
    (hset : Setting c.pc → ∀ m ∈ onTopic s.history (cfg.ip i), m.tag.origin = .key)
    (hwork : c.pc = .working → onTopic s.history (cfg.ip i) ≠ [])
    (hdel : Subscribed c.pc →
      c.taken ++ s'.broker.queue (.client i) = onTopic s.history (cfg.ip i))
    (hinst : ∀ k ∈ c.installed, k = cfg.server.publicKey) : Channels cfg s' := by
  refine ⟨by rw [hh]; exact h.head, ?_, ?_, ?_, ?_⟩
  · rw [hcl, hh]
    exact forall_update (P := fun j c => Setting c.pc → ∀ m ∈ onTopic s.history (cfg.ip j),
      m.tag.origin = .key) hset fun j _ => h.onlyKey j
  · rw [hcl, hh]
    exact forall_update (P := fun j c => c.pc = .working → onTopic s.history (cfg.ip j) ≠ [])
      hwork fun j _ => h.worked j
  · simp only [Net.delivered, hcl, hh]
    refine forall_update (P := fun j c => Subscribed c.pc →
      c.taken ++ s'.broker.queue (.client j) = onTopic s.history (cfg.ip j)) hdel fun j hj hsub => ?_
    rw [hq j hj]
    exact h.delivered j hsub
  · rw [hcl]
    exact forall_update (P := fun _ c => ∀ k ∈ c.installed, k = cfg.server.publicKey) hinst
      fun j _ => h.installed j

theorem not_setting_of_working {pc : ClientPc} (h : pc = .working) : ¬ Setting pc := by
  rw [h]
  simp [Setting]

/-- A private channel the server has heard of is not empty, and its client has the key. -/
theorem Inv.heard {s : Net ι} (h : Inv cfg s) {m : Msg ι} {i : ι} (hm : m ∈ s.history)
    (hfc : FromClient m) (ht : m.topic = cfg.ip i) :
    onTopic s.history (cfg.ip i) ≠ [] ∧ ¬ Setting (s.clients i).pc := by
  have hmem : m ∈ onTopic s.history (cfg.ip i) := mem_onTopic.mpr ⟨hm, ht⟩
  refine ⟨List.ne_nil_of_mem hmem, fun hset => ?_⟩
  have hkey := h.channels.onlyKey i hset m hmem
  rcases hfc with ⟨j, hj⟩ | ⟨j, hj⟩
  · rw [hkey] at hj
    cases hj
  · rw [hkey] at hj
    cases hj

theorem payload_of_key {s : Net ι} (h : Wf cfg s) {m : Msg ι} (hm : m ∈ s.history)
    (hk : m.tag.origin = .key) : m.payload = cfg.server.publicKey := by
  have hshape := h.shape m hm
  unfold Shape at hshape
  rw [hk] at hshape
  exact hshape.2

/-- A client that subscribes to its channel is sent what was published there: the key, from the
retained slot, if it has been published. -/
theorem Inv.delivered_of_subscribe (hkey : isMsgTypeOf keyType cfg.server.publicKey = true)
    {s : Net ι} (h : Inv cfg s) {i : ι} (hpc : (s.clients i).pc = .registered) :
    (s.clients i).taken ++ (s.broker.subscribe cfg.resendOwn (.client i) (cfg.ip i)
      ⟨false⟩).queue (.client i) = onTopic s.history (cfg.ip i) := by
  have hset : Setting (s.clients i).pc := Or.inr (Or.inl hpc)
  have hns : ¬ Subscribed (s.clients i).pc := by
    rw [hpc]
    simp [Subscribed]
  rw [queue_subscribe_self, h.wf.fresh i hns (by rw [hpc]; simp), h.wf.unsubscribed i hns]
  rcases h.channel_cases hset with hnil | ⟨m, hone, hmk⟩
  · have hkept : s.broker.kept (cfg.ip i) = none := by
      rw [h.wf.kept, lastOn, hnil]
      rfl
    rw [offered_of_kept_none hkept, hnil]
    rfl
  · have hmem : m ∈ s.history := (mem_onTopic.mp (by rw [hone]; simp)).1
    have hkept : s.broker.kept (cfg.ip i) = some m := by
      rw [h.wf.kept, lastOn, hone]
      have hne : m.payload ≠ [] := by
        rw [payload_of_key h.wf hmem hmk]
        rintro hnil
        rw [hnil] at hkey
        exact absurd hkey (by decide)
      simp [hne]
    rw [offered_of_local hkept, hone]
    rfl

/-- The step lemma for the channels. -/
theorem Inv.channels_step (hkey : isMsgTypeOf keyType cfg.server.publicKey = true) {s s' : Net ι}
    {l : NetLabel ι} (h : Inv cfg s) (hl : FirstSession s l) (hs : Moves cfg s l s') :
    Channels cfg s' := by
  have hch := h.channels
  cases hs with
  | @start i hpc =>
      -- the client has never registered, so its channel is empty
      have hzero : regs s.history i = 0 :=
        List.countP_eq_zero.mpr fun m hm => by simpa using hl m hm
      have hempty : onTopic s.history (cfg.ip i) = [] := by
        refine hch.empty ?_
        have hb := h.registrations.balance i
        omega
      refine hch.client rfl rfl (fun j _ => rfl) ?_ (by simp) (by simp [Subscribed]) (hch.installed i)
      rw [hempty]
      simp
  | @stop i hpc =>
      refine hch.client rfl rfl (fun j hj => queue_disconnect_of_ne (by simpa using hj)) ?_ ?_ ?_
        (hch.installed i)
      · simp [Setting]
      · simp
      · simp [Subscribed]
  | @register i info hpc =>
      have hpub : Channels cfg (s.publish (.client i) subscibersList
          (subscribeMsg (cfg.ip i) info) (.registration i)) :=
        hch.publish h.wf fun j hj => absurd hj.symm (ip_ne_subscibersList cfg j)
      refine hpub.client rfl rfl (fun j _ => rfl) ?_ (by simp) (by simp [Subscribed])
        (hpub.installed i)
      intro _
      exact hpub.onlyKey i (Or.inl hpc)
  | @subscribe i hpc =>
      have hset : Setting (s.clients i).pc := Or.inr (Or.inl hpc)
      refine hch.client rfl rfl (fun j hj => queue_subscribe_of_ne (by simpa using hj) _ _ _)
        (fun _ => hch.onlyKey i hset) (by simp) ?_ (hch.installed i)
      exact fun _ => h.delivered_of_subscribe hkey hpc
  | @take i m rest hq hpc =>
      have hmem : m ∈ s.history := h.wf.queued (.client i) m (by rw [hq]; simp)
      have hon : acceptsKey (cfg.ip i) m = true → m ∈ onTopic s.history (cfg.ip i) := by
        intro hacc
        simp only [acceptsKey, Bool.and_eq_true, decide_eq_true_eq] at hacc
        exact mem_onTopic.mpr ⟨hmem, hacc.1⟩
      refine hch.client rfl rfl (fun j hj => queue_pop_of_ne (by simpa using hj)) ?_ ?_ ?_ ?_
      · intro hset
        rw [take_pc] at hset
        split at hset
        · simp [Setting] at hset
        · exact hch.onlyKey i hset
      · intro hwork
        rw [take_pc] at hwork
        split at hwork
        · rename_i hacc
          exact List.ne_nil_of_mem (hon hacc.2)
        · exact hch.worked i hwork
      · intro _
        show ((s.clients i).take (cfg.ip i) m).taken ++
          (s.broker.pop (.client i)).queue (.client i) = _
        rw [take_taken, queue_pop_self hq, ← hch.delivered i hpc, Net.delivered, hq,
          List.append_assoc]
        rfl
      · intro k hk
        unfold AppClient.take at hk
        split at hk
        · rename_i hacc
          rcases List.mem_append.mp hk with hold | hnew
          · exact hch.installed i k hold
          · rw [List.mem_singleton.mp hnew]
            exact payload_of_key h.wf hmem
              (hch.onlyKey i (Or.inr (Or.inr hacc.1)) m (hon hacc.2))
        · exact hch.installed i k hk
  | @request i path hpc =>
      refine hch.publish h.wf fun j hj => ?_
      obtain rfl : i = j := cfg.distinct i j hj
      exact Or.inr ⟨hch.worked i hpc, not_setting_of_working hpc⟩
  | serverSetups hup =>
      rw [h.up] at hup
      cases hup
  | serverRestart => exact hl.elim
  | consume => exact hch.congr rfl rfl fun i => queue_pop_of_ne (by simp)
  | srvSubscribe => exact hch.congr rfl rfl fun i => queue_subscribe_of_ne (by simp) _ _ _
  | @keySent c hup halive hloop =>
      exact (hch.publish h.wf (t := c.ip) (p := cfg.server.publicKey) (o := .key)
        fun j _ => Or.inl rfl).congr rfl rfl fun i => rfl
  | quiet | exec => exact hch.congr rfl rfl fun i => rfl
  | @reply k msg t p rc hup halive hk =>
      have hmid : Channels cfg { s with srv := s.srv.setPc k .finished } :=
        hch.congr rfl rfl fun i => rfl
      have hwf : Wf cfg { s with srv := s.srv.setPc k .finished } :=
        h.wf.srvStep hup (.handler hk .reply) trivial (by simp)
      refine hmid.publish hwf fun j hj => Or.inr ?_
      -- the handler was spawned by a message on that channel, so its client has the key
      obtain ⟨m, ⟨hm, hfc⟩, ht⟩ := h.registrations.knows.topic _ (Server.mem_of_getElem? hk) t rfl
      exact h.heard hm hfc (ht.trans hj)

/-! ## The registrations at a step -/

theorem Registrations.knows_append {s : Net ι} (h : Registrations cfg s) (ms : List (Msg ι)) :
    Knows (fun m => m ∈ s.history ++ ms ∧ FromClient m) s.srv :=
  h.knows.mono fun _ hm => ⟨List.mem_append_left ms hm.1, hm.2⟩

/-- What is published does not change the balance: no registration and no key of a client. -/
theorem Registrations.publish {s : Net ι} (h : Registrations cfg s) {src : Party ι} {t p : Str}
    {o : Origin ι} (hreg : ∀ i, o ≠ .registration i) (hkey : o ≠ .key)
    (hsrc : s.broker.forwards src .server t = true → ∃ i, o = .request i) :
    Registrations cfg (s.publish src t p o) := by
  have hregs : ∀ i, regs [(⟨t, p, ⟨o, s.history.length⟩⟩ : Msg ι)] i = 0 := by
    intro i
    simp [regs, hreg i]
  have hkeys : ∀ x, keys [(⟨t, p, ⟨o, s.history.length⟩⟩ : Msg ι)] x = 0 := by
    intro x
    simp [keys, hkey]
  -- neither side of the balance changes
  have hqueue : ∀ i, regs ((s.publish src t p o).broker.queue .server) i =
      regs (s.broker.queue .server) i := by
    intro i
    simp only [Net.publish, queue_publish]
    split
    · rw [regs_append, hregs, Nat.add_zero]
    · rfl
  refine ⟨?_, ?_, ?_, ?_, h.knows_append _⟩
  · intro i
    have hb := h.balance i
    show regs ((s.publish src t p o).broker.queue .server) i + regs (current s.srv) i +
      keys (s.history ++ [_]) (cfg.ip i) = regs (s.history ++ [_]) i
    rw [hqueue, keys_append, regs_append, hkeys, hregs]
    exact hb
  · intro i
    show regs (s.history ++ [_]) i ≤ 1
    rw [regs_append, hregs]
    exact h.once i
  · intro i hpc
    show regs (s.history ++ [_]) i = 0
    rw [regs_append, hregs]
    exact h.unregistered i hpc
  · intro m hm
    simp only [Net.publish, queue_publish] at hm
    split at hm
    · rename_i hf
      rcases List.mem_append.mp hm with hold | hnew
      · exact h.fromClients m hold
      · rw [List.mem_singleton.mp hnew]
        exact Or.inr (hsrc hf)
    · exact h.fromClients m hm

/-- Only clients move, and none of them back to the start. -/
theorem Registrations.congr {s s' : Net ι} (h : Registrations cfg s) (hsrv : s'.srv = s.srv)
    (hh : s'.history = s.history) (hq : s'.broker.queue .server = s.broker.queue .server)
    (hpc : ∀ i, (s'.clients i).pc = .connected → regs s.history i = 0) : Registrations cfg s' := by
  refine ⟨?_, by rw [hh]; exact h.once, by rw [hh]; exact hpc, by rw [hq]; exact h.fromClients,
    by rw [hh, hsrv]; exact h.knows⟩
  intro i
  have hb := h.balance i
  rw [pend] at hb ⊢
  rw [hq, hsrv, hh]
  exact hb

/-- The server moves and what it works on stays on the sheet. -/
theorem Registrations.srv {s : Net ι} (h : Registrations cfg s) {l : Server.Label (Stamp ι)}
    {srv' : Server (Stamp ι)} {es : List Effect} (hacts : Acts cfg.server s.srv l srv' es)
    (hl : ∀ m, l ≠ .consume m) (hcur : ∀ i, regs (current srv') i = regs (current s.srv) i) :
    Registrations cfg { s with srv := srv' } := by
  refine ⟨?_, h.once, h.unregistered, h.fromClients, h.knows.step hacts fun m hm => absurd hm (hl m)⟩
  intro i
  have hb := h.balance i
  rw [pend] at hb ⊢
  rw [hcur]
  exact hb

theorem regs_of_not {m : Msg ι} (h : ∀ i, m.tag.origin ≠ .registration i) (i : ι) :
    regs [m] i = 0 := by
  simp [regs, h i]

/-- A quiet step leaves the registration the server works on where it is. -/
theorem Inv.current_quiet {s : Net ι} (h : Inv cfg s) {l : Server.Label (Stamp ι)}
    {srv' : Server (Stamp ι)} {es : List Effect} (hacts : Acts cfg.server s.srv l srv' es)
    (hl : ∀ m, l ≠ .consume m) (hok : l.succeeds) (hes : ∀ e ∈ es, Silent e) (i : ι) :
    regs (current srv') i = regs (current s.srv) i := by
  -- a message that is not on the public channel is no registration
  have hother : ∀ m, s.srv.msgPtr = some m → m.topic ≠ subscibersList →
      ∀ j, m.tag.origin ≠ .registration j := by
    intro m hm ht j hj
    exact ht (h.wf.topic_of_registration (h.wf.knows.msgPtr m hm) hj)
  cases hacts with
  | consume => exact absurd rfl (hl _)
  | nullReconnected | nullFailed | nullThrew => exact hok.elim
  | register hloop hm ht hc => simp [current, hloop]
  | @spawn m hloop hm ht hip | @ignore m hloop hm ht hip =>
      simp only [current, hloop, hm, Option.toList_some]
      rw [regs_of_not (hother m hm ht)]
      rfl
  | subscribed hloop | keySent hloop =>
      exact absurd (hes _ (List.mem_singleton_self _)) (by simp [Silent])
  | subscribeThrew hloop => cases hok
  | keyThrew hloop => cases hok
  | stored hloop => simp [current, hloop]
  | handler | crashes => rfl

/-- A registration is put on both sides. -/
theorem Registrations.register {s : Net ι} (h : Registrations cfg s) (hwf : Wf cfg s)
    (hup : s.up = true) {i : ι} {info : Str} (hpc : (s.clients i).pc = .connected) :
    Registrations cfg ((s.setClient i
      { s.clients i with pc := .registered, registration := some s.history.length }).publish
      (.client i) subscibersList (subscribeMsg (cfg.ip i) info) (.registration i)) := by
  have hzero := h.unregistered i hpc
  have hnew : ∀ j (p : Str) (n : Nat),
      regs [(⟨subscibersList, p, ⟨.registration i, n⟩⟩ : Msg ι)] j = if i = j then 1 else 0 := by
    intro j p n
    by_cases hij : i = j <;> simp [regs, hij]
  have hnokey : ∀ x (p : Str) (n : Nat),
      keys [(⟨subscibersList, p, ⟨.registration i, n⟩⟩ : Msg ι)] x = 0 := by
    intro x p n
    simp [keys]
  refine ⟨?_, ?_, ?_, ?_, h.knows_append _⟩
  · intro j
    have hb := h.balance j
    rw [pend] at hb ⊢
    simp only [Net.publish, queue_publish, setClient, hwf.forwards_public hup i, if_true,
      regs_append, keys_append, hnew, hnokey]
    omega
  · intro j
    have ho := h.once j
    simp only [Net.publish, setClient, regs_append, hnew]
    by_cases hij : i = j
    · subst hij
      rw [if_pos rfl]
      omega
    · rw [if_neg hij]
      exact ho
  · intro j hj
    by_cases hij : i = j
    · subst hij
      simp [Net.publish, setClient] at hj
    · simp only [Net.publish, setClient, Function.update_of_ne (Ne.symm hij)] at hj
      simp only [Net.publish, setClient, regs_append, hnew, if_neg hij]
      exact h.unregistered j hj
  · intro m hm
    rcases mem_queue_publish hm with hold | rfl
    · exact h.fromClients m hold
    · exact Or.inl ⟨i, rfl⟩

/-- A registration moves from the queue to the loop. -/
theorem Registrations.consume {s : Net ι} (h : Registrations cfg s) (hwf : Wf cfg s) {m : Msg ι}
    {rest : List (Msg ι)} (hq : s.broker.queue .server = m :: rest) (hl : s.srv.loop = .waiting) :
    Registrations cfg { s with srv := { s.srv with msgPtr := some m, loop := .received }
                               broker := s.broker.pop .server } := by
  have hmem : m ∈ s.broker.queue .server := by rw [hq]; simp
  have hb := h.balance
  have hfc := h.fromClients
  have hsplit : ∀ i, regs (m :: rest) i = regs [m] i + regs rest i :=
    fun i => regs_append [m] rest i
  refine ⟨?_, h.once, h.unregistered, ?_, ?_⟩
  · intro i
    have hbi := hb i
    rw [pend, hq, hsplit] at hbi
    rw [pend, queue_pop_self hq]
    simp only [current, hl, Option.toList_some] at hbi ⊢
    -- what leaves the queue is counted in the loop
    simp only [regs, List.countP_nil] at hbi ⊢
    omega
  · intro x hx
    exact h.fromClients x (mem_queue_pop hx)
  · have hacts : Acts cfg.server s.srv (.consume m) { s.srv with msgPtr := some m, loop := .received }
        [] := .consume hl
    refine h.knows.step hacts fun m' hm' => ?_
    cases hm'
    exact ⟨hwf.queued .server m hmem, h.fromClients m hmem⟩

/-- What the loop is subscribing for is a registration whose key is not published. -/
theorem Inv.kept_none {s : Net ι} (h : Inv cfg s) {c : Client} (hl : s.srv.loop = .subscribing c) :
    s.broker.kept c.ip = none := by
  obtain ⟨m, i, hm, ho, hip⟩ := h.wf.pending c (by rw [hl]; rfl)
  -- the registration is still on the server's side of the sheet, so the key is not on the other
  have hcur : regs (current s.srv) i = 1 := by
    simp [current, hl, hm, regs, ho]
  have hzero : keys s.history (cfg.ip i) = 0 := by
    have hb := h.registrations.balance i
    have honce := h.registrations.once i
    rw [pend] at hb
    omega
  rw [h.wf.kept, hip, lastOn, h.channels.empty hzero]
  rfl

/-- A key takes its registration off the server's side. -/
theorem Registrations.keySent {s : Net ι} (h : Registrations cfg s) (hwf : Wf cfg s) {c : Client}
    (hl : s.srv.loop = .sendingKey c) (answered : List Nat) :
    Registrations cfg
      { { s with srv := { s.srv with loop := .storing c } }.publish .server c.ip
          cfg.server.publicKey .key with answered := answered } := by
  obtain ⟨m, i, hm, ho, hip⟩ := hwf.pending c (by rw [hl]; rfl)
  have hcur : ∀ j, regs (current s.srv) j = if i = j then 1 else 0 := by
    intro j
    by_cases hij : i = j <;> simp [current, hl, hm, regs, ho, hij]
  have hregs : ∀ j (n : Nat),
      regs [(⟨c.ip, cfg.server.publicKey, ⟨.key, n⟩⟩ : Msg ι)] j = 0 := by
    intro j n
    simp [regs]
  -- the key is that of the client whose registration the loop has
  have hkeys : ∀ j (n : Nat), keys [(⟨c.ip, cfg.server.publicKey, ⟨.key, n⟩⟩ : Msg ι)] (cfg.ip j) =
      if i = j then 1 else 0 := by
    intro j n
    by_cases hij : i = j
    · simp [keys, hip, hij]
    · have hne : cfg.ip i ≠ cfg.ip j := fun heq => hij (cfg.distinct i j heq)
      simp [keys, hip, hij, hne]
  refine ⟨?_, ?_, ?_, ?_, ?_⟩
  · intro j
    have hb := h.balance j
    rw [pend, hcur] at hb
    simp only [pend, Net.publish, queue_publish, hwf.forwards_server, regs_append, keys_append, hregs,
      hkeys, current]
    simp only [regs, List.countP_nil] at hb ⊢
    simp only [Bool.false_eq_true, if_false]
    omega
  · intro j
    simp only [Net.publish, regs_append, hregs]
    exact h.once j
  · intro j hj
    simp only [Net.publish, regs_append, hregs]
    exact h.unregistered j hj
  · intro x hx
    refine h.fromClients x ?_
    simpa only [Net.publish, queue_publish, hwf.forwards_server, Bool.false_eq_true, if_false] using hx
  · exact (h.knows_append _).congr rfl rfl

/-- The step lemma for the registrations. -/
theorem Inv.registrations_step {s s' : Net ι} {l : NetLabel ι} (h : Inv cfg s)
    (hl : FirstSession s l) (hs : Moves cfg s l s') : Registrations cfg s' := by
  have hr := h.registrations
  -- a client that moves to a place other than the start
  have hclient : ∀ {i : ι} {c : AppClient (Stamp ι)}, c.pc ≠ .connected →
      ∀ j, ((Function.update s.clients i c) j).pc = .connected → regs s.history j = 0 := by
    intro i c hc
    exact forall_update (P := fun j c => c.pc = .connected → regs s.history j = 0)
      (fun hpc => absurd hpc hc) fun j _ => hr.unregistered j
  cases hs with
  | @start i hpc =>
      have hnone : regs s.history i = 0 :=
        List.countP_eq_zero.mpr fun m hm => by simpa using hl m hm
      exact hr.congr rfl rfl rfl (forall_update
        (P := fun j c => c.pc = .connected → regs s.history j = 0) (fun _ => hnone)
        fun j _ => hr.unregistered j)
  | stop hpc => exact hr.congr rfl rfl (queue_disconnect_of_ne (by simp)) (hclient (by simp))
  | @register i info hpc => exact hr.register h.wf h.up hpc
  | subscribe hpc => exact hr.congr rfl rfl (queue_subscribe_of_ne (by simp) _ _ _) (hclient (by simp))
  | @take i m rest hq hpc =>
      refine hr.congr rfl rfl (queue_pop_of_ne (by simp)) (hclient ?_)
      have hsub := subscribed_take (cfg.ip i) m hpc
      intro heq
      rw [heq] at hsub
      simp [Subscribed] at hsub
  | @request i path hpc => exact hr.publish (by simp) (by simp) fun _ => ⟨i, rfl⟩
  | serverSetups hup =>
      rw [h.up] at hup
      cases hup
  | serverRestart => exact hl.elim
  | consume hup hq hloop halive => exact hr.consume h.wf hq hloop
  | quiet hup halive hnc hnn hacts hes =>
      exact hr.srv hacts hnc (h.current_quiet hacts hnc hl hes)
  | @srvSubscribe c hup halive hloop =>
      have hsrv := hr.srv (.subscribed hloop) (by simp) fun i => by simp [current, hloop]
      refine hsrv.congr rfl rfl ?_ hr.unregistered
      rw [subscribeTo, queue_subscribe_self, offered_of_kept_none (h.kept_none hloop), List.append_nil]
  | keySent hup halive hloop => exact hr.keySent h.wf hloop _
  | exec hup halive hk =>
      exact (hr.srv (.handler hk .exec) (by simp) fun i => rfl).congr rfl rfl rfl hr.unregistered
  | @reply k msg t p rc hup halive hk =>
      have hsrv := hr.srv (.handler hk .reply) (by simp) fun i => rfl
      refine hsrv.publish (by simp) (by simp) fun hf => ?_
      rw [show ({ s with srv := s.srv.setPc k .finished } : Net ι).broker = s.broker from rfl,
        h.wf.forwards_server] at hf
      cases hf

/-! ## Runs -/

/-- **The step lemma.** -/
theorem Inv.step (hkey : isMsgTypeOf keyType cfg.server.publicKey = true) {s s' : Net ι}
    {l : NetLabel ι} (h : Inv cfg s) (hl : FirstSession s l) (hs : Moves cfg s l s') :
    Inv cfg s' := by
  refine ⟨h.wf.step hs, ?_, h.registrations_step hl hs, h.channels_step hkey hl hs⟩
  cases hs with
  | serverRestart => exact hl.elim
  | serverSetups => rfl
  | _ => exact h.up

theorem queue_served (k : Party ι) : (served cfg).broker.queue k = [] := by
  have hoff : (empty : Broker (Party ι) Str (Msg ι)).offered cfg.resendOwn .server subscibersList
      ⟨true⟩ = [] := offered_of_kept_none (kept_empty _)
  by_cases hk : k = .server
  · subst hk
    show (subscribe _ _ _ _ _).queue Party.server = []
    rw [queue_subscribe_self]
    exact hoff
  · exact queue_subscribe_of_ne hk _ _ _

theorem Inv.served : Inv cfg (served cfg) where
  wf := wf_init.setsUp
  up := rfl
  registrations :=
    { balance := fun i => by
        rw [pend, queue_served]
        rfl
      once := fun i => Nat.zero_le 1
      unregistered := fun i _ => rfl
      fromClients := by simp [queue_served]
      knows := Knows.start _ }
  channels :=
    { head := by simp [Handshake.served, init, subscribeTo, onTopic]
      onlyKey := by simp [Handshake.served, init, subscribeTo, onTopic]
      worked := by simp [Handshake.served, init, subscribeTo, AppClient.off]
      delivered := by simp [Handshake.served, init, subscribeTo, AppClient.off, Subscribed]
      installed := by simp [Handshake.served, init, subscribeTo, AppClient.off] }

/-- When the server has nothing left to do, a subscribed client's key is published. -/
theorem Inv.keys_eq_one {s : Net ι} (h : Inv cfg s) (hq : Quiescent s) {i : ι}
    (hsub : Subscribed (s.clients i).pc) : keys s.history (cfg.ip i) = 1 := by
  have hpend : pend s i = 0 := by
    rw [pend, hq.queue, current, hq.loop]
    rfl
  have hpos : 0 < regs s.history i := by
    obtain ⟨n, hn⟩ := h.wf.registered i (Or.inr hsub)
    obtain ⟨m, hm, ho⟩ := h.wf.registration i n hn
    exact List.countP_pos_iff.mpr ⟨m, List.mem_of_getElem? hm, by simp [ho]⟩
  have hb := h.registrations.balance i
  have hone := h.registrations.once i
  omega

theorem Inv.keyOnceAndFirst {s : Net ι} (h : Inv cfg s) (hq : Quiescent s) {i : ι}
    (hsub : Subscribed (s.clients i).pc) : KeyOnceAndFirst cfg s i := by
  have hkeys := h.keys_eq_one hq hsub
  have hdel := h.channels.delivered i hsub
  rw [← countP_onTopic] at hkeys
  cases hon : onTopic s.history (cfg.ip i) with
  | nil =>
      rw [hon] at hkeys
      cases hkeys
  | cons m rest =>
      have hmk := h.channels.head i m rest hon
      have hmem : m ∈ s.history := (mem_onTopic.mp (by rw [hon]; simp)).1
      refine ⟨m, rest, hdel.trans hon, hmk, payload_of_key h.wf hmem hmk, fun m' hm' hk' => ?_⟩
      rw [hon, List.countP_cons] at hkeys
      have hpos : 0 < rest.countP (·.tag.origin = .key) :=
        List.countP_pos_iff.mpr ⟨m', hm', by simpa using hk'⟩
      simp only [hmk, decide_true, if_true] at hkeys
      omega

/-- **In first sessions, once the server has handled everything, its key was delivered to every
subscribed client once and before anything else; and a client installs no other key.** -/
theorem key_delivered_once_and_first (hkey : isMsgTypeOf keyType cfg.server.publicKey = true)
    {ls : List (NetLabel ι)} {s : Net ι} (hrun : exec (step cfg) (served cfg) ls = some s)
    (hfirst : EachStep (step cfg) FirstSession (served cfg) ls) :
    (Quiescent s → ∀ i, Subscribed (s.clients i).pc → KeyOnceAndFirst cfg s i) ∧
      ∀ i, ∀ k ∈ (s.clients i).installed, k = cfg.server.publicKey := by
  have hinv : Inv cfg s :=
    inv_of_eachStep (fun _ _ _ h hl hs => h.step hkey hl (step_moves hs)) Inv.served hfirst hrun
  exact ⟨fun hq i hsub => hinv.keyOnceAndFirst hq hsub, hinv.channels.installed⟩

/-- Two clients register; the server answers the first when it is subscribed, the second before. -/
def bothRegister : List (NetLabel Bool) :=
  [.start true, .start false, .register true userInfo, .register false userInfo, .subscribe true] ++
    handleRegistration true 0 ++ handleRegistration false 1 ++ [.take true, .subscribe false]

theorem key_delivered_to_both : ∃ s, exec (step pair) (served pair) bothRegister = some s ∧
    Quiescent s ∧ (∀ i, KeyOnceAndFirst pair s i) ∧
    ∀ i, ∀ k ∈ (s.clients i).installed, k = pair.server.publicKey := by
  obtain ⟨s, hs, hq, hsub⟩ := exists_exec_of_any
    (P := fun s => Quiescent s ∧ ∀ i, Subscribed (s.clients i).pc)
    (show (exec (step pair) (served pair) bothRegister).any _ = true by decide +kernel)
  obtain ⟨hkeys, hinst⟩ := key_delivered_once_and_first (by decide) hs (by decide +kernel)
  exact ⟨s, hs, hq, fun i => hkeys hq i (hsub i), hinst⟩

end BupApp.Handshake
