/-
# BupApp.App.Handling -- messages handled one after another

The runs in which nothing fails and the loop is done with a message before the next one comes: the
steps of the loop for a message, and the state they lead to.  Such runs exist for every sequence of
messages whose registrations have a token.
-/
import BupApp.App.ServerRuns

namespace BupApp.Server

open BupApp.Lib.Transition BupApp.Lib.Text

variable {τ : Type} {cfg : Config}

/-! ## One message -/

/-- The entry a message adds to the registry. -/
def entriesOf (m : Message τ) : List Client :=
  if m.topic = subscibersList then
    ((Client.ofMsg m.payload).map fun c => c.setBackupTarget (backupTarget c.ip)).toList
  else []

/-- The handler that a message spawns. -/
def spawnedFor (m : Message τ) : List (Handler τ) :=
  if m.topic = subscibersList then [] else if isIP4 m.topic then [⟨m, .spawned⟩] else []

/-- The server once the loop has handled `m`. -/
def after (s : Server τ) (m : Message τ) : Server τ :=
  { s with clients := s.clients ++ entriesOf m
           msgPtr := some m
           threadPool := s.threadPool ++ spawnedFor m
           loop := .waiting }

/-- The steps of the loop for `m`. -/
def handling (m : Message τ) : List (Label τ) :=
  .consume m :: .dispatch ::
    if m.topic = subscibersList then [.subscribe true, .publishKey true, .store] else []

/-- The loop waits in a running process. -/
def Idling (s : Server τ) : Prop := s.loop = .waiting ∧ s.crashed = none

theorem exec_handling {s : Server τ} {m : Message τ} (h : Idling s)
    (hm : m.topic = subscibersList → words m.payload ≠ []) :
    Lib.Transition.exec (next cfg) s (handling m) = some (after s m) := by
  obtain ⟨hl, ha⟩ := h
  have hconsume : s.next cfg (.consume m) =
      some { s with msgPtr := some m, loop := .received } := by
    simp only [next_of_alive ha, perform, consume, hl, Option.map_some]
  by_cases ht : m.topic = subscibersList
  · cases hc : Client.ofMsg m.payload with
    | none => exact absurd ((Client.ofMsg_eq_none_iff m.payload).mp hc) (hm ht)
    | some c =>
        simp only [handling, if_pos ht]
        rw [exec_cons_of_step hconsume]
        simp [Lib.Transition.exec, next, act, ha, perform, dispatch, ht, enterNewSubscriber, hc,
          subscribe, publishKey, store, after, entriesOf, spawnedFor]
  · simp only [handling, if_neg ht]
    rw [exec_cons_of_step hconsume]
    cases h4 : isIP4 m.topic <;>
      simp [Lib.Transition.exec, next, act, ha, perform, dispatch, ht, h4, after, entriesOf,
        spawnedFor]

theorem idling_after {s : Server τ} (h : Idling s) (m : Message τ) : Idling (after s m) :=
  ⟨rfl, h.2⟩

/-! ## Sequences of messages -/

/-- The server once the loop has handled all of `ms`. -/
def afterAll (s : Server τ) (ms : List (Message τ)) : Server τ := ms.foldl after s

theorem idling_afterAll {s : Server τ} (h : Idling s) (ms : List (Message τ)) :
    Idling (afterAll s ms) := by
  induction ms generalizing s with
  | nil => exact h
  | cons m ms ih => exact ih (idling_after h m)

theorem exec_handlingAll {s : Server τ} {ms : List (Message τ)} (h : Idling s)
    (hms : ∀ m ∈ ms, m.topic = subscibersList → words m.payload ≠ []) :
    Lib.Transition.exec (next cfg) s (ms.flatMap handling) = some (afterAll s ms) := by
  induction ms generalizing s with
  | nil => rfl
  | cons m ms ih =>
      rw [List.flatMap_cons]
      exact exec_append_of (exec_handling h (hms m (by simp)))
        (ih (idling_after h m) fun m' hm' => hms m' (List.mem_cons_of_mem m hm'))

theorem afterAll_clients (s : Server τ) (ms : List (Message τ)) :
    (afterAll s ms).clients = s.clients ++ ms.flatMap entriesOf := by
  induction ms generalizing s with
  | nil => simp [afterAll]
  | cons m ms ih =>
      show (afterAll (after s m) ms).clients = _
      rw [ih, after, List.flatMap_cons, List.append_assoc]

theorem afterAll_threadPool (s : Server τ) (ms : List (Message τ)) :
    (afterAll s ms).threadPool = s.threadPool ++ ms.flatMap spawnedFor := by
  induction ms generalizing s with
  | nil => simp [afterAll]
  | cons m ms ih =>
      show (afterAll (after s m) ms).threadPool = _
      rw [ih, after, List.flatMap_cons, List.append_assoc]

theorem consumed_handling (m : Message τ) : consumed (handling m) = [m] := by
  unfold handling
  split <;> rfl

theorem consumed_handlingAll (ms : List (Message τ)) : consumed (ms.flatMap handling) = ms := by
  induction ms with
  | nil => rfl
  | cons m ms ih => rw [List.flatMap_cons, consumed_append, consumed_handling, ih]; rfl

theorem succeeds_handlingAll {ms : List (Message τ)} :
    ∀ l ∈ ms.flatMap handling, l.succeeds := by
  intro l hl
  obtain ⟨m, -, hl⟩ := List.mem_flatMap.mp hl
  unfold handling at hl
  split at hl
  · simp only [List.mem_cons, List.not_mem_nil, or_false] at hl
    rcases hl with rfl | rfl | rfl | rfl | rfl <;> trivial
  · simp only [List.mem_cons, List.not_mem_nil, or_false] at hl
    rcases hl with rfl | rfl <;> trivial

/-! ## Entries -/

/-- The entry that a registration of `c` appends. -/
def entryOf (c : Client) : Client := c.setBackupTarget (backupTarget c.ip)

/-- The entries of a sequence are those of its registrations. -/
theorem flatMap_entriesOf (ms : List (Message τ)) :
    ms.flatMap entriesOf = (registrations ms).map entryOf := by
  induction ms with
  | nil => rfl
  | cons m ms ih =>
      have hsplit : registrations (m :: ms) = registrations [m] ++ registrations ms :=
        registrations_append [m] ms
      rw [List.flatMap_cons, ih, hsplit, List.map_append]
      congr 1
      by_cases ht : m.topic = subscibersList
      · cases hc : Client.ofMsg m.payload <;> simp [entriesOf, registrations, ht, hc, entryOf]
      · simp [entriesOf, registrations, ht]

/-! ## Requests and their handlers -/

/-- The steps of handler `k` up to its command. -/
def building (k : Nat) : List (Label τ) := [.readTopic k, .readPayload k, .lookup k]

/-- The steps of handler `k` for the request `m`; `rc` is the outcome of the copy. -/
def serving (k : Nat) (m : Message τ) (rc : Bool) : List (Label τ) :=
  building k ++ if isBackupMsg m.payload then [.exec k (some rc), .reply k true] else []

/-- The messages are handled one after another: the next one comes when the handler of the last one
is done.  `k` handlers were spawned before. -/
def inTurn : Nat → List (Message τ × Bool) → List (Label τ)
  | _, [] => []
  | k, (m, rc) :: ms =>
      if isIP4 m.topic then handling m ++ (serving k m rc ++ inTurn (k + 1) ms)
      else handling m ++ inTurn k ms

/-- With the registry `cs` before them the messages can be handled: registrations have a token, and
requests come from hosts that are registered. -/
def Servable : List Client → List (Message τ × Bool) → Prop
  | _, [] => True
  | cs, (m, _) :: ms =>
      (m.topic = subscibersList → words m.payload ≠ []) ∧
      (isIP4 m.topic = true → isBackupMsg m.payload = true → ∃ c ∈ cs, c.ip = m.topic) ∧
      Servable (cs ++ entriesOf m) ms

theorem entriesOf_of_isIP4 {m : Message τ} (h4 : isIP4 m.topic = true) :
    entriesOf m = [] ∧ spawnedFor m = [⟨m, .spawned⟩] := by
  have hpub : m.topic ≠ subscibersList := by
    intro ht
    rw [ht, isIP4_subscibersList] at h4
    cases h4
  simp [entriesOf, spawnedFor, hpub, h4]

theorem spawnedFor_of_not_isIP4 {m : Message τ} (h4 : isIP4 m.topic = false) :
    spawnedFor m = [] := by
  simp [spawnedFor, h4]

/-- The loop waits, the registry is `cs` and `k` handlers were spawned. -/
structure Rests (s : Server τ) (cs : List Client) (k : Nat) : Prop where
  idling : Idling s
  clients : s.clients = cs
  handlers : s.threadPool.length = k

theorem Rests.setPc {s : Server τ} {cs : List Client} {k : Nat} (h : Rests s cs k) (i : Nat)
    (pc : HandlerPc) : Rests (s.setPc i pc) cs k :=
  ⟨h.idling, h.clients, by rw [setPc_length]; exact h.handlers⟩

/-- The handler of a request reads its own message when nothing else moves. -/
theorem exec_building (cfg : Config) {s : Server τ} {cs : List Client} {n k : Nat} {m : Message τ}
    (h : Rests s cs n) (hm : s.msgPtr = some m) (hk : s.threadPool[k]? = some ⟨m, .spawned⟩)
    (hfound : isBackupMsg m.payload = true → ∃ c ∈ cs, c.ip = m.topic) :
    ∃ s', Lib.Transition.exec (next cfg) s (building k) = some s' ∧ Rests s' cs n ∧
      (isBackupMsg m.payload = true → ∃ c, searchForClient cs m.topic = some c ∧
        s'.threadPool[k]? = some ⟨m, .cmndBuilt m.topic m.payload
          (cmndFor cfg c m.topic m.payload)⟩) := by
  have h₁ : s.next cfg (.readTopic k) = some (s.setPc k (.topicRead m.topic)) := by
    simp [next_of_alive h.idling.2, perform, readTopic, hk, hm]
  have hk₁ := setPc_getElem?_self hk (.topicRead m.topic)
  have hrest₁ := h.setPc k (.topicRead m.topic)
  generalize hs₁ : s.setPc k (.topicRead m.topic) = s₁ at h₁ hk₁ hrest₁
  have hm₁ : s₁.msgPtr = some m := by rw [← hs₁]; exact hm
  have h₂ : s₁.next cfg (.readPayload k) = some (s₁.setPc k (.pathRead m.topic m.payload)) := by
    simp [next_of_alive hrest₁.idling.2, perform, readPayload, hk₁, hm₁]
  have hk₂ := setPc_getElem?_self hk₁ (.pathRead m.topic m.payload)
  have hrest₂ := hrest₁.setPc k (.pathRead m.topic m.payload)
  generalize s₁.setPc k (.pathRead m.topic m.payload) = s₂ at h₂ hk₂ hrest₂
  cases hp : isBackupMsg m.payload with
  | false =>
      have h₃ : s₂.next cfg (.lookup k) = some (s₂.setPc k .finished) := by
        simp [next_of_alive hrest₂.idling.2, perform, lookup, hk₂, hp]
      exact ⟨_, by rw [building, exec_cons_of_step h₁, exec_cons_of_step h₂, exec_cons_of_step h₃,
        exec_nil], hrest₂.setPc k _, by simp⟩
  | true =>
      obtain ⟨c, hc⟩ : ∃ c, searchForClient cs m.topic = some c := by
        obtain ⟨c, hmem, hip⟩ := hfound hp
        cases hc : searchForClient cs m.topic with
        | none => exact absurd hip (searchForClient_eq_none_iff.mp hc c hmem)
        | some c => exact ⟨c, rfl⟩
      have h₃ : s₂.next cfg (.lookup k) = some (s₂.setPc k
          (.cmndBuilt m.topic m.payload (cmndFor cfg c m.topic m.payload))) := by
        simp [next_of_alive hrest₂.idling.2, perform, lookup, hk₂, hp, hrest₂.clients, hc]
      exact ⟨_, by rw [building, exec_cons_of_step h₁, exec_cons_of_step h₂, exec_cons_of_step h₃,
        exec_nil], hrest₂.setPc k _, fun _ => ⟨c, hc, setPc_getElem?_self hk₂ _⟩⟩

/-- The handler of a request finishes. -/
theorem exec_serving (cfg : Config) {s : Server τ} {cs : List Client} {n k : Nat} {m : Message τ}
    (rc : Bool) (h : Rests s cs n) (hm : s.msgPtr = some m) (hk : s.threadPool[k]? = some ⟨m, .spawned⟩)
    (hfound : isBackupMsg m.payload = true → ∃ c ∈ cs, c.ip = m.topic) :
    ∃ s', Lib.Transition.exec (next cfg) s (serving k m rc) = some s' ∧ Rests s' cs n := by
  obtain ⟨s₁, hs₁, hrest₁, hbuilt⟩ := exec_building cfg h hm hk hfound
  cases hp : isBackupMsg m.payload with
  | false => exact ⟨s₁, by simpa [serving, hp] using hs₁, hrest₁⟩
  | true =>
      obtain ⟨c, -, hk₁⟩ := hbuilt hp
      have h₂ : s₁.next cfg (.exec k (some rc)) =
          some (s₁.setPc k (.replyBuilt m.topic m.payload rc)) := by
        simp [next_of_alive hrest₁.idling.2, perform, Server.exec, hk₁]
      have hk₂ := setPc_getElem?_self hk₁ (.replyBuilt m.topic m.payload rc)
      have hrest₂ := hrest₁.setPc k (.replyBuilt m.topic m.payload rc)
      generalize s₁.setPc k (.replyBuilt m.topic m.payload rc) = s₂ at h₂ hk₂ hrest₂
      have h₃ : s₂.next cfg (.reply k true) = some (s₂.setPc k .finished) := by
        simp only [next_of_alive hrest₂.idling.2, perform, reply, hk₂, Option.map_some, if_true]
      refine ⟨_, ?_, hrest₂.setPc k .finished⟩
      rw [serving, hp, if_pos rfl]
      exact exec_append_of hs₁ (by rw [exec_cons_of_step h₂, exec_cons_of_step h₃, exec_nil])

/-- A request that was just dispatched has the newest handler. -/
theorem Rests.after_request {s : Server τ} {cs : List Client} {k : Nat} {m : Message τ}
    (h : Rests s cs k) (h4 : isIP4 m.topic = true) :
    Rests (after s m) cs (k + 1) ∧ (after s m).threadPool[k]? = some ⟨m, .spawned⟩ := by
  obtain ⟨hentries, hspawned⟩ := entriesOf_of_isIP4 h4
  refine ⟨⟨idling_after h.idling m, ?_, ?_⟩, ?_⟩
  · rw [after, hentries, List.append_nil]
    exact h.clients
  · rw [after, hspawned, List.length_append, h.handlers]
    rfl
  · rw [after, hspawned, ← h.handlers]
    simp

/-- **Servable messages are handled one after another**, and the registry is made of their
registrations. -/
theorem exec_inTurn (cfg : Config) {ms : List (Message τ × Bool)} {s : Server τ}
    {cs : List Client} {k : Nat} (h : Rests s cs k) (hms : Servable cs ms) :
    ∃ s' n, Lib.Transition.exec (next cfg) s (inTurn k ms) = some s' ∧
      Rests s' (cs ++ (ms.map Prod.fst).flatMap entriesOf) n := by
  induction ms generalizing s cs k with
  | nil => exact ⟨s, k, rfl, by simpa using h⟩
  | cons p ms ih =>
      obtain ⟨m, rc⟩ := p
      obtain ⟨htokens, hfound, hms⟩ := hms
      have hloop : Lib.Transition.exec (next cfg) s (handling m) = some (after s m) :=
        exec_handling h.idling htokens
      cases h4 : isIP4 m.topic with
      | true =>
          obtain ⟨hrest, hk⟩ := h.after_request h4
          obtain ⟨s₁, hs₁, hrest₁⟩ := exec_serving cfg rc hrest rfl hk (hfound h4)
          rw [(entriesOf_of_isIP4 h4).1, List.append_nil] at hms
          obtain ⟨s', n, hs', hrest'⟩ := ih hrest₁ hms
          refine ⟨s', n, ?_, ?_⟩
          · rw [inTurn, if_pos h4]
            exact exec_append_of hloop (exec_append_of hs₁ hs')
          · simpa [(entriesOf_of_isIP4 h4).1] using hrest'
      | false =>
          have hrest : Rests (after s m) (cs ++ entriesOf m) k := by
            refine ⟨idling_after h.idling m, by rw [after, h.clients], ?_⟩
            rw [after, spawnedFor_of_not_isIP4 h4, List.append_nil]
            exact h.handlers
          obtain ⟨s', n, hs', hrest'⟩ := ih hrest hms
          refine ⟨s', n, ?_, ?_⟩
          · rw [inTurn, if_neg (by simp [h4])]
            exact exec_append_of hloop hs'
          · simpa using hrest'

end BupApp.Server
