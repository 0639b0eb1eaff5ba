/-
# BupApp.App.ServerSteps -- what one step of the server can do

`Acts` lists the steps of `Server.act` once, guards included: the steps of the loop, one constructor
for a handler that moves on (`HandlerMoves`) and one for a step that ends the process (`Crashes`).
`act_acts` is the inversion; every invariant is a case analysis of `Acts` and never unfolds `act`.

The file also has the facts about a single server that do not depend on who publishes: what its
threads know comes from consumed messages (`Knows`), the registry only grows and its entries have
the shape `handleNewSubscriber` gives them (`Registry`), and a handler past its look-up works for an
entry of the registry.
-/
import BupApp.App.Server
import BupApp.Lib.Transition

namespace BupApp.Server

open BupApp.Lib.Text BupApp.Lib.Transition

variable {τ : Type} {cfg : Config}

/-! ## The steps, once -/

/-- A handler's program point moves from `pc` to `pc'`. -/
inductive HandlerMoves (cfg : Config) (s : Server τ) (k : Nat) :
    Label τ → HandlerPc → HandlerPc → List Effect → Prop
  | readTopic {m : Message τ} (hm : s.msgPtr = some m) :
      HandlerMoves cfg s k (.readTopic k) .spawned (.topicRead m.topic) []
  | readPayload {m : Message τ} {t : Str} (hm : s.msgPtr = some m) :
      HandlerMoves cfg s k (.readPayload k) (.topicRead t) (.pathRead t m.payload) []
  | skip {t p : Str} (hp : isBackupMsg p = false) :
      HandlerMoves cfg s k (.lookup k) (.pathRead t p) .finished []
  | build {t p : Str} {c : Client} (hp : isBackupMsg p = true)
      (hc : searchForClient s.clients t = some c) :
      HandlerMoves cfg s k (.lookup k) (.pathRead t p) (.cmndBuilt t p (cmndFor cfg c t p)) []
  | exec {t p : Str} {cmnd : Cmnd} {rc : Bool} :
      HandlerMoves cfg s k (.exec k (some rc)) (.cmndBuilt t p cmnd) (.replyBuilt t p rc)
        [.execCmnd k t p cmnd]
  | reply {t p : Str} {rc : Bool} :
      HandlerMoves cfg s k (.reply k true) (.replyBuilt t p rc) .finished
        [.reply k t (replyMsg p rc)]

/-- The process ends at a step that leaves everything else as it was. -/
inductive Crashes (s : Server τ) : Label τ → Crash → Prop
  | derefNull (hl : s.loop = .received) (hm : s.msgPtr = none) : Crashes s .dispatch .nullDeref
  | noToken {m : Message τ} (hl : s.loop = .received) (hm : s.msgPtr = some m)
      (ht : m.topic = subscibersList) (hc : Client.ofMsg m.payload = none) :
      Crashes s .dispatch .outOfRange
  | readTopicNull {k : Nat} {msg : Message τ} (hk : s.threadPool[k]? = some ⟨msg, .spawned⟩)
      (hm : s.msgPtr = none) : Crashes s (.readTopic k) .nullDeref
  | readPayloadNull {k : Nat} {msg : Message τ} {t : Str}
      (hk : s.threadPool[k]? = some ⟨msg, .topicRead t⟩) (hm : s.msgPtr = none) :
      Crashes s (.readPayload k) .nullDeref
  | missed {k : Nat} {msg : Message τ} {t p : Str}
      (hk : s.threadPool[k]? = some ⟨msg, .pathRead t p⟩) (hp : isBackupMsg p = true)
      (hc : searchForClient s.clients t = none) : Crashes s (.lookup k) .outOfRange
  | popenFailed {k : Nat} {msg : Message τ} {t p : Str} {cmnd : Cmnd}
      (hk : s.threadPool[k]? = some ⟨msg, .cmndBuilt t p cmnd⟩) : Crashes s (.exec k none) .uncaught
  | replyThrew {k : Nat} {msg : Message τ} {t p : Str} {rc : Bool}
      (hk : s.threadPool[k]? = some ⟨msg, .replyBuilt t p rc⟩) :
      Crashes s (.reply k false) .uncaught

/-- Every step of the server. -/
inductive Acts (cfg : Config) (s : Server τ) : Label τ → Server τ → List Effect → Prop
  | consume {m : Message τ} (hl : s.loop = .waiting) :
      Acts cfg s (.consume m) { s with msgPtr := some m, loop := .received } []
  | nullReconnected (hl : s.loop = .waiting) :
      Acts cfg s (.consumeNull .reconnected) { s with msgPtr := none, loop := .received }
        [.subscribe subscibersList]
  | nullFailed (hl : s.loop = .waiting) :
      Acts cfg s (.consumeNull .failed) { s with msgPtr := none, loop := .left } []
  | nullThrew (hl : s.loop = .waiting) :
      Acts cfg s (.consumeNull .threw) { s with msgPtr := none, crashed := some .uncaught } []
  | register {m : Message τ} {c : Client} (hl : s.loop = .received) (hm : s.msgPtr = some m)
      (ht : m.topic = subscibersList) (hc : Client.ofMsg m.payload = some c) :
      Acts cfg s .dispatch { s with loop := .subscribing c } [.setWill c.ip]
  | spawn {m : Message τ} (hl : s.loop = .received) (hm : s.msgPtr = some m)
      (ht : m.topic ≠ subscibersList) (hip : isIP4 m.topic = true) :
      Acts cfg s .dispatch
        { s with threadPool := s.threadPool ++ [⟨m, .spawned⟩], loop := .waiting } []
  | ignore {m : Message τ} (hl : s.loop = .received) (hm : s.msgPtr = some m)
      (ht : m.topic ≠ subscibersList) (hip : isIP4 m.topic = false) :
      Acts cfg s .dispatch { s with loop := .waiting } []
  | subscribed {c : Client} (hl : s.loop = .subscribing c) :
      Acts cfg s (.subscribe true) { s with loop := .sendingKey c } [.subscribe c.ip]
  | subscribeThrew {c : Client} (hl : s.loop = .subscribing c) :
      Acts cfg s (.subscribe false) { s with loop := .waiting } []
  | keySent {c : Client} (hl : s.loop = .sendingKey c) :
      Acts cfg s (.publishKey true) { s with loop := .storing c }
        [.publishKey c.ip cfg.publicKey]
  | keyThrew {c : Client} (hl : s.loop = .sendingKey c) :
      Acts cfg s (.publishKey false) { s with loop := .waiting } []
  | stored {c : Client} (hl : s.loop = .storing c) :
      Acts cfg s .store
        { s with clients := s.clients ++ [c.setBackupTarget (backupTarget c.ip)], loop := .waiting }
        [.system ("mkdir ".toList ++ backupTarget c.ip)]
  | handler {k : Nat} {l : Label τ} {msg : Message τ} {pc pc' : HandlerPc} {es : List Effect}
      (hk : s.threadPool[k]? = some ⟨msg, pc⟩) (hmove : HandlerMoves cfg s k l pc pc' es) :
      Acts cfg s l (s.setPc k pc') es
  | crashes {l : Label τ} {c : Crash} (hc : Crashes s l c) : Acts cfg s l (s.crash c) []

theorem handler_of_map_pc {s : Server τ} {k : Nat} {pc : HandlerPc}
    (h : s.threadPool[k]?.map Handler.pc = some pc) :
    ∃ msg, s.threadPool[k]? = some ⟨msg, pc⟩ := by
  obtain ⟨⟨msg, pc₀⟩, hk, rfl⟩ := Option.map_eq_some_iff.mp h
  exact ⟨msg, hk⟩

theorem act_alive {s s' : Server τ} {l : Label τ} {es : List Effect}
    (h : act cfg s l = some (s', es)) : s.crashed = none := by
  unfold act at h
  split at h
  · assumption
  · cases h

theorem act_of_alive {s : Server τ} (h : s.crashed = none) (l : Label τ) :
    act cfg s l = s.perform cfg l := if_pos h

/-- **Inversion of `act`.** -/
theorem act_acts {s s' : Server τ} {l : Label τ} {es : List Effect}
    (h : act cfg s l = some (s', es)) : Acts cfg s l s' es := by
  rw [act_of_alive (act_alive h)] at h
  cases l with
  | consume m =>
      simp only [perform, consume] at h
      split at h
      · cases h; exact .consume ‹_›
      · cases h
  | consumeNull r =>
      simp only [perform, consumeNull] at h
      split at h
      · cases h; exact .nullReconnected ‹_›
      · cases h; exact .nullFailed ‹_›
      · cases h; exact .nullThrew ‹_›
      · cases h
  | dispatch =>
      simp only [perform, dispatch] at h
      split at h
      · cases h; exact .crashes (.derefNull ‹_› ‹_›)
      · rename_i m hl hm
        split at h
        · rename_i ht
          unfold enterNewSubscriber at h
          split at h
          · cases h; exact .crashes (.noToken hl hm ht ‹_›)
          · cases h; exact .register hl hm ht ‹_›
        · split at h
          · cases h; exact .spawn hl hm ‹_› ‹_›
          · cases h; exact .ignore hl hm ‹_› (by simpa using ‹¬ isIP4 m.topic = true›)
      · cases h
  | subscribe ok =>
      simp only [perform, subscribe] at h
      split at h
      · cases ok
        · cases h; exact .subscribeThrew ‹_›
        · cases h; exact .subscribed ‹_›
      · cases h
  | publishKey ok =>
      simp only [perform, publishKey] at h
      split at h
      · cases ok
        · cases h; exact .keyThrew ‹_›
        · cases h; exact .keySent ‹_›
      · cases h
  | store =>
      simp only [perform, store] at h
      split at h
      · cases h; exact .stored ‹_›
      · cases h
  | readTopic k =>
      simp only [perform, readTopic] at h
      split at h
      · rename_i hpc hm
        obtain ⟨msg, hk⟩ := handler_of_map_pc hpc
        cases h; exact .crashes (.readTopicNull hk hm)
      · rename_i m hpc hm
        obtain ⟨msg, hk⟩ := handler_of_map_pc hpc
        cases h; exact .handler hk (.readTopic hm)
      · cases h
  | readPayload k =>
      simp only [perform, readPayload] at h
      split at h
      · rename_i t hpc hm
        obtain ⟨msg, hk⟩ := handler_of_map_pc hpc
        cases h; exact .crashes (.readPayloadNull hk hm)
      · rename_i t m hpc hm
        obtain ⟨msg, hk⟩ := handler_of_map_pc hpc
        cases h; exact .handler hk (.readPayload hm)
      · cases h
  | lookup k =>
      simp only [perform, lookup] at h
      split at h
      · rename_i t p hpc
        obtain ⟨msg, hk⟩ := handler_of_map_pc hpc
        split at h
        · rename_i hp
          split at h
          · cases h; exact .crashes (.missed hk hp ‹_›)
          · cases h; exact .handler hk (.build hp ‹_›)
        · rename_i hp
          cases h; exact .handler hk (.skip (by simpa using hp))
      · cases h
  | exec k result =>
      simp only [perform, exec] at h
      split at h
      · rename_i t p cmnd rc hpc
        obtain ⟨msg, hk⟩ := handler_of_map_pc hpc
        cases h; exact .handler hk .exec
      · rename_i t p cmnd hpc
        obtain ⟨msg, hk⟩ := handler_of_map_pc hpc
        cases h; exact .crashes (.popenFailed hk)
      · cases h
  | reply k ok =>
      simp only [perform, reply] at h
      split at h
      · rename_i t p rc hpc
        obtain ⟨msg, hk⟩ := handler_of_map_pc hpc
        cases ok
        · cases h; exact .crashes (.replyThrew hk)
        · cases h; exact .handler hk .reply
      · cases h

/-! ## Fields of the updated states -/

@[simp] theorem crash_clients (s : Server τ) (c : Crash) : (s.crash c).clients = s.clients := rfl
@[simp] theorem crash_msgPtr (s : Server τ) (c : Crash) : (s.crash c).msgPtr = s.msgPtr := rfl
@[simp] theorem crash_loop (s : Server τ) (c : Crash) : (s.crash c).loop = s.loop := rfl
@[simp] theorem crash_threadPool (s : Server τ) (c : Crash) :
    (s.crash c).threadPool = s.threadPool := rfl
@[simp] theorem crash_crashed (s : Server τ) (c : Crash) : (s.crash c).crashed = some c := rfl

@[simp] theorem setPc_clients (s : Server τ) (k : Nat) (pc : HandlerPc) :
    (s.setPc k pc).clients = s.clients := rfl
@[simp] theorem setPc_msgPtr (s : Server τ) (k : Nat) (pc : HandlerPc) :
    (s.setPc k pc).msgPtr = s.msgPtr := rfl
@[simp] theorem setPc_loop (s : Server τ) (k : Nat) (pc : HandlerPc) :
    (s.setPc k pc).loop = s.loop := rfl
@[simp] theorem setPc_crashed (s : Server τ) (k : Nat) (pc : HandlerPc) :
    (s.setPc k pc).crashed = s.crashed := rfl
@[simp] theorem setPc_length (s : Server τ) (k : Nat) (pc : HandlerPc) :
    (s.setPc k pc).threadPool.length = s.threadPool.length := by
  simp [setPc]

/-- The ghost messages of the handlers are never changed. -/
@[simp] theorem setPc_msgs (s : Server τ) (k : Nat) (pc : HandlerPc) :
    (s.setPc k pc).threadPool.map Handler.msg = s.threadPool.map Handler.msg := by
  apply List.ext_getElem?
  intro i
  simp only [setPc, List.getElem?_map, List.getElem?_modify]
  split <;> cases s.threadPool[i]? <;> rfl

theorem setPc_getElem?_self {s : Server τ} {k : Nat} {msg : Message τ} {pc : HandlerPc}
    (hk : s.threadPool[k]? = some ⟨msg, pc⟩) (pc' : HandlerPc) :
    (s.setPc k pc').threadPool[k]? = some ⟨msg, pc'⟩ := by
  simp [setPc, hk]

theorem setPc_getElem?_of_ne {s : Server τ} {i k : Nat} (h : i ≠ k) (pc : HandlerPc) :
    (s.setPc k pc).threadPool[i]? = s.threadPool[i]? := by
  simp only [setPc, List.getElem?_modify, if_neg h.symm, id_map']

/-- A handler after `setPc` is an old one or the one that moved. -/
theorem setPc_getElem?_cases {s : Server τ} {i k : Nat} {msg : Message τ} {pc pc' : HandlerPc}
    {h : Handler τ} (hk : s.threadPool[k]? = some ⟨msg, pc⟩)
    (hi : (s.setPc k pc').threadPool[i]? = some h) :
    (i = k ∧ h = ⟨msg, pc'⟩) ∨ (i ≠ k ∧ s.threadPool[i]? = some h) := by
  by_cases hik : i = k
  · subst hik
    rw [setPc_getElem?_self hk] at hi
    exact Or.inl ⟨rfl, (Option.some.inj hi).symm⟩
  · rw [setPc_getElem?_of_ne hik] at hi
    exact Or.inr ⟨hik, hi⟩

theorem mem_setPc {s : Server τ} {k : Nat} {msg : Message τ} {pc pc' : HandlerPc} {h : Handler τ}
    (hk : s.threadPool[k]? = some ⟨msg, pc⟩) (hh : h ∈ (s.setPc k pc').threadPool) :
    h = ⟨msg, pc'⟩ ∨ h ∈ s.threadPool := by
  obtain ⟨i, hi⟩ := List.mem_iff_getElem?.mp hh
  rcases setPc_getElem?_cases hk hi with ⟨-, rfl⟩ | ⟨-, hi'⟩
  · exact Or.inl rfl
  · exact Or.inr (List.mem_iff_getElem?.mpr ⟨i, hi'⟩)

theorem mem_of_getElem? {s : Server τ} {k : Nat} {h : Handler τ}
    (hk : s.threadPool[k]? = some h) : h ∈ s.threadPool :=
  List.mem_iff_getElem?.mpr ⟨k, hk⟩

/-- Counting the handlers with a property when one of them moves. -/
theorem countP_setPc {s : Server τ} {k : Nat} {msg : Message τ} {pc : HandlerPc}
    (hk : s.threadPool[k]? = some ⟨msg, pc⟩) (pc' : HandlerPc) (p : Handler τ → Bool) :
    (s.setPc k pc').threadPool.countP p + (if p ⟨msg, pc⟩ then 1 else 0) =
      s.threadPool.countP p + if p ⟨msg, pc'⟩ then 1 else 0 := by
  obtain ⟨hlt, hget⟩ := List.getElem?_eq_some_iff.mp hk
  have hsplit : s.threadPool = s.threadPool.take k ++ ⟨msg, pc⟩ :: s.threadPool.drop (k + 1) := by
    rw [← hget, List.getElem_cons_drop, List.take_append_drop]
  have hmoved : (s.setPc k pc').threadPool =
      s.threadPool.take k ++ ⟨msg, pc'⟩ :: s.threadPool.drop (k + 1) := by
    rw [setPc, List.modify_eq_take_cons_drop hlt, hget]
  rw [hmoved]
  conv_rhs => rw [hsplit]
  simp only [List.countP_append, List.countP_cons]
  omega

/-! ## The registry and its look-up -/

theorem searchForClient_some {cs : List Client} {ip : Str} {c : Client}
    (h : searchForClient cs ip = some c) : c ∈ cs ∧ c.ip = ip := by
  unfold searchForClient at h
  split at h
  · rename_i c' hf
    cases h
    exact ⟨List.mem_of_find?_eq_some hf, by simpa using List.find?_some hf⟩
  · exact absurd h (by rw [Client.ofMsg_empty]; simp)

/-- The search has a result exactly for the ips of the registry. -/
theorem searchForClient_eq_none_iff {cs : List Client} {ip : Str} :
    searchForClient cs ip = none ↔ ∀ c ∈ cs, c.ip ≠ ip := by
  unfold searchForClient
  cases hf : cs.find? (·.ip = ip) with
  | none => simpa [Client.ofMsg_empty] using List.find?_eq_none.mp hf
  | some c =>
      simp only [reduceCtorEq, false_iff, not_forall, not_not]
      exact ⟨c, List.mem_of_find?_eq_some hf, by simpa using List.find?_some hf⟩

theorem isClientExist_iff {cs : List Client} {c : Client} :
    isClientExist cs c = true ↔ ∃ d ∈ cs, d.beq c = true := by
  simp [isClientExist]

/-- `m_clients` only ever grows at its end. -/
theorem Acts.clients_prefix {s s' : Server τ} {l : Label τ} {es : List Effect}
    (h : Acts cfg s l s' es) : s.clients <+: s'.clients := by
  cases h with
  | stored hl => exact List.prefix_append _ _
  | _ => exact List.prefix_refl _

/-- The registry changes at a `store` step, which appends the entry the loop holds. -/
theorem clients_of_acts {s s' : Server τ} {l : Label τ} {es : List Effect}
    (h : Acts cfg s l s' es) : (l ≠ .store ∧ s'.clients = s.clients) ∨
      ∃ c, l = .store ∧ s.loop = .storing c ∧
        s'.clients = s.clients ++ [c.setBackupTarget (backupTarget c.ip)] ∧
        es = [.system ("mkdir ".toList ++ backupTarget c.ip)] := by
  cases h with
  | @stored c hl => exact Or.inr ⟨c, rfl, hl, rfl, rfl⟩
  | handler hk hmove =>
      refine Or.inl ⟨?_, rfl⟩
      rintro rfl
      cases hmove
  | crashes hc =>
      refine Or.inl ⟨?_, rfl⟩
      rintro rfl
      cases hc
  | _ => exact Or.inl ⟨by simp, rfl⟩

/-- A new entry is the one the loop was about to store. -/
theorem mem_clients_of_acts {s s' : Server τ} {l : Label τ} {es : List Effect}
    (h : Acts cfg s l s' es) {c : Client} (hc : c ∈ s'.clients) :
    c ∈ s.clients ∨ ∃ d, s.loop = .storing d ∧ c.ip = d.ip := by
  rcases clients_of_acts h with ⟨-, hcl⟩ | ⟨d, -, hl, hcl, -⟩
  · exact Or.inl (hcl ▸ hc)
  · rw [hcl, List.mem_append] at hc
    rcases hc with hold | hnew
    · exact Or.inl hold
    · obtain rfl := List.mem_singleton.mp hnew
      exact Or.inr ⟨d, hl, rfl⟩

/-! ## What the threads know -/

/-- Everything the threads hold was read from messages with the property `A`. -/
structure Knows (A : Message τ → Prop) (s : Server τ) : Prop where
  msgPtr : ∀ m, s.msgPtr = some m → A m
  spawnedFor : ∀ h ∈ s.threadPool, A h.msg
  topic : ∀ h ∈ s.threadPool, ∀ t, h.pc.topic? = some t → ∃ m, A m ∧ m.topic = t
  path : ∀ h ∈ s.threadPool, ∀ p, h.pc.path? = some p → ∃ m, A m ∧ m.payload = p

theorem HandlerMoves.topic_from {s : Server τ} {k : Nat} {l : Label τ} {pc pc' : HandlerPc}
    {es : List Effect} (h : HandlerMoves cfg s k l pc pc' es) {t : Str}
    (ht : pc'.topic? = some t) :
    pc.topic? = some t ∨ ∃ m, s.msgPtr = some m ∧ m.topic = t := by
  cases h with
  | readTopic hm => exact Or.inr ⟨_, hm, Option.some.inj ht⟩
  | skip | reply => cases ht
  | _ => exact Or.inl ht

theorem HandlerMoves.path_from {s : Server τ} {k : Nat} {l : Label τ} {pc pc' : HandlerPc}
    {es : List Effect} (h : HandlerMoves cfg s k l pc pc' es) {p : Str}
    (hp : pc'.path? = some p) :
    pc.path? = some p ∨ ∃ m, s.msgPtr = some m ∧ m.payload = p := by
  cases h with
  | readPayload hm => exact Or.inr ⟨_, hm, Option.some.inj hp⟩
  | readTopic | skip | reply => cases hp
  | _ => exact Or.inl hp

theorem Knows.mono {A B : Message τ → Prop} {s : Server τ} (h : Knows A s)
    (hAB : ∀ m, A m → B m) : Knows B s where
  msgPtr m hm := hAB m (h.msgPtr m hm)
  spawnedFor hd hh := hAB hd.msg (h.spawnedFor hd hh)
  topic hd hh t ht := by
    obtain ⟨m, hA, hm⟩ := h.topic hd hh t ht
    exact ⟨m, hAB m hA, hm⟩
  path hd hh p hp := by
    obtain ⟨m, hA, hm⟩ := h.path hd hh p hp
    exact ⟨m, hAB m hA, hm⟩

/-- A state with the same threads knows the same, whatever happened to its other members. -/
theorem Knows.congr {A : Message τ → Prop} {s s' : Server τ} (h : Knows A s)
    (hm : s'.msgPtr = s.msgPtr) (ht : s'.threadPool = s.threadPool) : Knows A s' where
  msgPtr := by rw [hm]; exact h.msgPtr
  spawnedFor := by rw [ht]; exact h.spawnedFor
  topic := by rw [ht]; exact h.topic
  path := by rw [ht]; exact h.path

theorem Knows.start (A : Message τ → Prop) : Knows A (start : Server τ) := by
  constructor <;> simp [Server.start]

/-- The step lemma: a step learns nothing but the message it consumes. -/
theorem Knows.step {A : Message τ → Prop} {s s' : Server τ} {l : Label τ} {es : List Effect}
    (h : Knows A s) (hs : Acts cfg s l s' es) (hin : ∀ m, l = .consume m → A m) : Knows A s' := by
  cases hs with
  | @consume m hl =>
      exact ⟨fun m' hm' => by cases hm'; exact hin m rfl, h.spawnedFor, h.topic, h.path⟩
  | nullReconnected hl | nullFailed hl | nullThrew hl =>
      exact ⟨by simp, h.spawnedFor, h.topic, h.path⟩
  | @spawn m hl hm ht hip =>
      have hnew : ∀ hd ∈ s.threadPool ++ [⟨m, .spawned⟩], hd ∈ s.threadPool ∨ hd = ⟨m, .spawned⟩ :=
        fun hd hh => by simpa using hh
      refine ⟨h.msgPtr, ?_, ?_, ?_⟩
      · intro hd hh
        rcases hnew hd hh with hold | rfl
        · exact h.spawnedFor hd hold
        · exact h.msgPtr m hm
      · intro hd hh t ht
        rcases hnew hd hh with hold | rfl
        · exact h.topic hd hold t ht
        · cases ht
      · intro hd hh p hp
        rcases hnew hd hh with hold | rfl
        · exact h.path hd hold p hp
        · cases hp
  | @handler k l msg pc pc' es hk hmove =>
      have hmem : ⟨msg, pc⟩ ∈ s.threadPool := mem_of_getElem? hk
      refine ⟨h.msgPtr, ?_, ?_, ?_⟩
      · intro hd hh
        rcases mem_setPc hk hh with rfl | hold
        · exact h.spawnedFor ⟨msg, pc⟩ hmem
        · exact h.spawnedFor hd hold
      · intro hd hh t ht
        rcases mem_setPc hk hh with rfl | hold
        · rcases hmove.topic_from ht with hpc | ⟨m, hm, rfl⟩
          · exact h.topic ⟨msg, pc⟩ hmem t hpc
          · exact ⟨m, h.msgPtr m hm, rfl⟩
        · exact h.topic hd hold t ht
      · intro hd hh p hp
        rcases mem_setPc hk hh with rfl | hold
        · rcases hmove.path_from hp with hpc | ⟨m, hm, rfl⟩
          · exact h.path ⟨msg, pc⟩ hmem p hpc
          · exact ⟨m, h.msgPtr m hm, rfl⟩
        · exact h.path hd hold p hp
  | _ => exact h.congr rfl rfl

/-! ## The registry invariant -/

/-- An ip that `client::client` stores: empty, or accepted by `isIP4`. -/
def StoredIp (ip : Str) : Prop := ip = [] ∨ isIP4 ip = true

/-- What is known of a handler past its look-up. -/
def WorksForEntry (cfg : Config) (clients : List Client) : HandlerPc → Prop
  | .cmndBuilt t p cmnd =>
      isBackupMsg p = true ∧ ∃ c ∈ clients, c.ip = t ∧ cmnd = cmndFor cfg c t p
  | .replyBuilt t p _ => isBackupMsg p = true ∧ ∃ c ∈ clients, c.ip = t
  | _ => True

/-- Every handler past its look-up works for an entry of the registry. -/
def HandlersWork (cfg : Config) (s : Server τ) : Prop :=
  ∀ h ∈ s.threadPool, WorksForEntry cfg s.clients h.pc

/-- The entries have the shape `handleNewSubscriber` gives them. -/
structure Registry (s : Server τ) : Prop where
  entry : ∀ c ∈ s.clients, c.backupPath = backupTarget c.ip ∧ StoredIp c.ip
  pending : ∀ c, s.loop.client? = some c → StoredIp c.ip

theorem WorksForEntry.mono {cs ds : List Client} (h : ∀ c ∈ cs, c ∈ ds) {pc : HandlerPc}
    (hpc : WorksForEntry cfg cs pc) : WorksForEntry cfg ds pc := by
  cases pc with
  | cmndBuilt t p cmnd =>
      obtain ⟨hp, c, hc, hip, hcmnd⟩ := hpc
      exact ⟨hp, c, h c hc, hip, hcmnd⟩
  | replyBuilt t p rc =>
      obtain ⟨hp, c, hc, hip⟩ := hpc
      exact ⟨hp, c, h c hc, hip⟩
  | _ => trivial

theorem HandlerMoves.worksForEntry {s : Server τ} {k : Nat} {l : Label τ} {pc pc' : HandlerPc}
    {es : List Effect} (h : HandlerMoves cfg s k l pc pc' es)
    (hpc : WorksForEntry cfg s.clients pc) : WorksForEntry cfg s.clients pc' := by
  cases h with
  | build hp hc =>
      obtain ⟨hmem, hip⟩ := searchForClient_some hc
      exact ⟨hp, _, hmem, hip, rfl⟩
  | exec =>
      obtain ⟨hp, c, hc, hip, -⟩ := hpc
      exact ⟨hp, c, hc, hip⟩
  | _ => trivial

theorem HandlersWork.step {s s' : Server τ} {l : Label τ} {es : List Effect}
    (h : HandlersWork cfg s) (hs : Acts cfg s l s' es) : HandlersWork cfg s' := by
  intro hd hh
  have hmono : ∀ c ∈ s.clients, c ∈ s'.clients := fun c hc => hs.clients_prefix.subset hc
  cases hs with
  | spawn hl hm ht hip =>
      simp only [List.mem_append, List.mem_singleton] at hh
      rcases hh with hh | rfl
      · exact h hd hh
      · trivial
  | @handler k l msg pc pc' es hk hmove =>
      rcases mem_setPc hk hh with rfl | hold
      · exact hmove.worksForEntry (h ⟨msg, pc⟩ (mem_of_getElem? hk))
      · exact h hd hold
  | _ => exact (h hd hh).mono hmono

theorem Registry.start : Registry (start : Server τ) := by
  constructor <;> simp [Server.start, LoopPc.client?]

theorem Registry.step {s s' : Server τ} {l : Label τ} {es : List Effect} (h : Registry s)
    (hs : Acts cfg s l s' es) : Registry s' := by
  cases hs with
  | register hl hm ht hc =>
      refine ⟨h.entry, ?_⟩
      intro c' hc'
      cases hc'
      exact Client.ofMsg_ip_cases hc
  | subscribed hl | keySent hl =>
      exact ⟨h.entry, fun c' hc' => h.pending c' (by rw [hl]; exact hc')⟩
  | @stored c hl =>
      refine ⟨?_, by simp [LoopPc.client?]⟩
      intro c' hc'
      simp only [List.mem_append, List.mem_singleton] at hc'
      rcases hc' with hc' | rfl
      · exact h.entry c' hc'
      · exact ⟨rfl, h.pending c (by rw [hl]; rfl)⟩
  | nullThrew | handler | crashes => exact ⟨h.entry, h.pending⟩
  | _ => exact ⟨h.entry, by simp [LoopPc.client?]⟩

/-- The entry the loop works on is decoded from the registration in `m_msgPtr`. -/
def Decoding (s : Server τ) : Prop :=
  ∀ c, s.loop.client? = some c → ∃ m, s.msgPtr = some m ∧ m.topic = subscibersList ∧
    Client.ofMsg m.payload = some c

theorem Decoding.start : Decoding (start : Server τ) := by
  simp [Decoding, Server.start, LoopPc.client?]

theorem Decoding.step {s s' : Server τ} {l : Label τ} {es : List Effect} (h : Decoding s)
    (hs : Acts cfg s l s' es) : Decoding s' := by
  cases hs with
  | nullReconnected hl | nullFailed hl | nullThrew hl => simp [Decoding, hl, LoopPc.client?]
  | @register m c hl hm ht hc =>
      intro d hd
      obtain rfl := Option.some.inj hd
      exact ⟨m, hm, ht, hc⟩
  | subscribed hl | keySent hl => exact fun d hd => h d (by rw [hl]; exact hd)
  | handler | crashes => exact h
  | _ => simp [Decoding, LoopPc.client?]

end BupApp.Server
