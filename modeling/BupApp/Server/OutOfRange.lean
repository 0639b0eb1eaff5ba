/-
# BupApp.Server.OutOfRange -- when can a message bring the server down?

`client::client` reads `tokens[0]` without asking whether there is a token.  Two things reach that
read: a registration without a token, and the sentinel `client("")` of every look-up that finds no
entry.  A look-up searches for the topic of a message read at one time, for the sake of a payload
read at another, in the registry of a third; which messages those can be depends on the schedule.

`Serveable` says of a sequence of messages, without any schedule, that it cannot bring the server
down, and it is exact.  Its half about the look-ups quantifies over the message `k` a handler is
spawned for, the message `j` whose topic it reads and the message `l` whose payload it reads: the
registrations before `l` are all that is sure to be stored when it looks up.
-/
import BupApp.App.Handling

namespace BupApp.OutOfRange

open BupApp.Lib.Transition BupApp.Lib.Text BupApp.Lib.Ipv4 Server

variable {τ : Type} {cfg : Config}

/-! ## The property and its condition -/

/-- However the messages are processed, the token list is never indexed out of range. -/
def Survives (cfg : Config) (ms : List (Message τ)) : Prop :=
  ∀ (ls : List (Label τ)) (s : Server τ), (∀ l ∈ ls, l.succeeds) → consumed ls <+: ms →
    exec (next cfg) Server.start ls = some s → s.crashed ≠ some .outOfRange

/-- The message is a registration whose first token is the address `t`. -/
def Registers (m : Message τ) (t : Str) : Prop :=
  m.topic = subscibersList ∧ (words m.payload).head? = some t ∧ isIP4 t = true

/-- Registrations have a token, and an address whose requests can be looked up is registered. -/
structure Serveable (ms : List (Message τ)) : Prop where
  tokens : ∀ m ∈ ms, m.topic = subscibersList → words m.payload ≠ []
  known : ∀ (k j l : Nat) (mk mj ml : Message τ), k ≤ j → j ≤ l →
    ms[k]? = some mk → ms[j]? = some mj → ms[l]? = some ml →
    isIP4 mk.topic = true → isBackupMsg ml.payload = true →
    ∃ i m, i < l ∧ ms[i]? = some m ∧ Registers m mj.topic

/-! ## Entries -/

theorem ip_eq_iff {msg t : Str} (ht : t ≠ []) :
    (∃ c, Client.ofMsg msg = some c ∧ c.ip = t) ↔ (words msg).head? = some t ∧ isIP4 t = true := by
  constructor
  · rintro ⟨c, hc, rfl⟩
    obtain ⟨t, ts, hw, hip⟩ := Client.ofMsg_ip hc
    cases h4 : isIP4 t with
    | true =>
        rw [h4, if_pos rfl] at hip
        rw [hw, hip]
        exact ⟨rfl, h4⟩
    | false =>
        rw [h4] at hip
        exact absurd hip ht
  · rintro ⟨hhead, h4⟩
    obtain ⟨ts, hw⟩ := List.head?_eq_some_iff.mp hhead
    exact Client.ofMsg_of_words hw h4

theorem registers_of_mem_entriesOf {m : Message τ} {c : Client} (h : c ∈ entriesOf m)
    (hip : c.ip ≠ []) : Registers m c.ip := by
  unfold entriesOf at h
  split at h
  · rename_i ht
    obtain ⟨c₀, hc₀, rfl⟩ := Option.map_eq_some_iff.mp (Option.mem_toList.mp h)
    exact ⟨ht, (ip_eq_iff hip).mp ⟨c₀, hc₀, rfl⟩⟩
  · cases h

/-! ## The condition is enough -/

/-- The registrations among `ms` are stored. -/
def Stored (ms : List (Message τ)) (cs : List Client) : Prop :=
  ∀ m ∈ ms, ∀ t, Registers m t → ∃ c ∈ cs, c.ip = t

/-- Where the topic and the path of a handler come from. -/
def Origin (ms : List (Message τ)) : HandlerPc → Prop
  | .spawned => ∃ (k : Nat) (mk : Message τ), ms[k]? = some mk ∧ isIP4 mk.topic = true
  | .topicRead t => ∃ (k j : Nat) (mk mj : Message τ), k ≤ j ∧ ms[k]? = some mk ∧
      ms[j]? = some mj ∧ isIP4 mk.topic = true ∧ mj.topic = t
  | .pathRead t p => ∃ (k j l : Nat) (mk mj ml : Message τ), k ≤ j ∧ j ≤ l ∧ ms[k]? = some mk ∧
      ms[j]? = some mj ∧ ms[l]? = some ml ∧ isIP4 mk.topic = true ∧ mj.topic = t ∧ ml.payload = p
  | _ => True

/-- The invariant after consuming `ms`. -/
structure Inv (ms : List (Message τ)) (s : Server τ) : Prop where
  ptr : s.msgPtr = ms.getLast?
  /-- In the middle of a message all the earlier ones are done with. -/
  busy : Stored ms.dropLast s.clients
  waiting : s.loop = .waiting → Stored ms s.clients
  pending : ∀ c, s.loop.client? = some c → ∃ m, s.msgPtr = some m ∧ Client.ofMsg m.payload = some c
  origin : ∀ h ∈ s.threadPool, Origin ms h.pc
  safe : s.crashed ≠ some .outOfRange

theorem Stored.mono {ms : List (Message τ)} {cs ds : List Client} (h : Stored ms cs)
    (hcs : ∀ c ∈ cs, c ∈ ds) : Stored ms ds := by
  intro m hm t ht
  obtain ⟨c, hc, hip⟩ := h m hm t ht
  exact ⟨c, hcs c hc, hip⟩

theorem stored_snoc {ms : List (Message τ)} {m : Message τ} {cs : List Client}
    (h : Stored ms cs) (hm : ∀ t, Registers m t → ∃ c ∈ cs, c.ip = t) : Stored (ms ++ [m]) cs := by
  intro m' hm' t ht
  rcases List.mem_append.mp hm' with hold | hnew
  · exact h m' hold t ht
  · obtain rfl : m' = m := List.mem_singleton.mp hnew
    exact hm t ht

/-- With the last message taken care of everything is stored. -/
theorem stored_of_last {ms : List (Message τ)} {m : Message τ} {cs : List Client}
    (hlast : ms.getLast? = some m) (h : Stored ms.dropLast cs)
    (hm : ∀ t, Registers m t → ∃ c ∈ cs, c.ip = t) : Stored ms cs := by
  rw [← List.dropLast_append_getLast? m hlast]
  exact stored_snoc h hm

theorem Origin.snoc {ms : List (Message τ)} {pc : HandlerPc} (m : Message τ)
    (h : Origin ms pc) : Origin (ms ++ [m]) pc := by
  have hstays : ∀ {i : Nat} {x : Message τ}, ms[i]? = some x → (ms ++ [m])[i]? = some x :=
    fun hi => (List.getElem?_append_left (List.getElem?_eq_some_iff.mp hi).1).trans hi
  cases pc with
  | spawned =>
      obtain ⟨k, mk, hk, h4⟩ := h
      exact ⟨k, mk, hstays hk, h4⟩
  | topicRead t =>
      obtain ⟨k, j, mk, mj, hkj, hk, hj, h4, ht⟩ := h
      exact ⟨k, j, mk, mj, hkj, hstays hk, hstays hj, h4, ht⟩
  | pathRead t p =>
      obtain ⟨k, j, l, mk, mj, ml, hkj, hjl, hk, hj, hl, h4, ht, hp⟩ := h
      exact ⟨k, j, l, mk, mj, ml, hkj, hjl, hstays hk, hstays hj, hstays hl,
        h4, ht, hp⟩
  | _ => trivial

/-- What a handler reads is the last message, and no earlier than what it has. -/
theorem last_getElem? {ms : List (Message τ)} {m : Message τ} (h : ms.getLast? = some m) :
    ms[ms.length - 1]? = some m ∧
      ∀ (k : Nat) (x : Message τ), ms[k]? = some x → k ≤ ms.length - 1 := by
  refine ⟨by rw [← List.getLast?_eq_getElem?]; exact h, ?_⟩
  intro k x hk
  have hlt : k < ms.length := (List.getElem?_eq_some_iff.mp hk).1
  omega

theorem Origin.move {ms : List (Message τ)} {s : Server τ} {k : Nat} {l : Label τ}
    {pc pc' : HandlerPc} {es : List Effect} (h : Origin ms pc) (hptr : s.msgPtr = ms.getLast?)
    (hmove : HandlerMoves cfg s k l pc pc' es) : Origin ms pc' := by
  cases hmove with
  | @readTopic m hm =>
      obtain ⟨i, mk, hi, h4⟩ := h
      obtain ⟨hlast, hmax⟩ := last_getElem? (hptr.symm.trans hm)
      exact ⟨i, ms.length - 1, mk, m, hmax i mk hi, hi, hlast, h4, rfl⟩
  | @readPayload m t hm =>
      obtain ⟨i, j, mk, mj, hij, hi, hj, h4, ht⟩ := h
      obtain ⟨hlast, hmax⟩ := last_getElem? (hptr.symm.trans hm)
      exact ⟨i, j, ms.length - 1, mk, mj, m, hij, hmax j mj hj, hi, hj, hlast, h4, ht, rfl⟩
  | _ => trivial

theorem inv_start : Inv [] (start : Server τ) where
  ptr := rfl
  busy := by simp [Stored]
  waiting := by simp [Stored]
  pending := by simp [start, LoopPc.client?]
  origin := by simp [start]
  safe := by simp [start]

/-- **The step lemma.** -/
theorem Inv.step {all ms : List (Message τ)} {s s' : Server τ} {l : Label τ} {es : List Effect}
    (hall : Serveable all) (h : Inv ms s) (hs : Acts cfg s l s' es) (hok : l.succeeds)
    (hms : ms ++ consumed [l] <+: all) : Inv (ms ++ consumed [l]) s' := by
  -- where a step consumes nothing the history stays
  have hsame : (∀ m, l ≠ .consume m) → Inv ms s' → Inv (ms ++ consumed [l]) s' := by
    intro hl hinv
    rw [consumed_singleton_of_ne hl, List.append_nil]
    exact hinv
  have hpre : ms <+: all := (List.prefix_append ms _).trans hms
  cases hs with
  | @consume m hl =>
      have hdone : Stored ms s.clients := h.waiting hl
      refine ⟨by simp, by simpa using hdone, by simp, by simp [LoopPc.client?], ?_, h.safe⟩
      intro hd hh
      exact (h.origin hd hh).snoc m
  | nullReconnected | nullFailed | nullThrew => exact hok.elim
  | subscribeThrew | keyThrew => cases hok
  | @register m c hl hm ht hc =>
      refine hsame (by simp) ⟨h.ptr, h.busy, by simp, ?_, h.origin, h.safe⟩
      intro c' hc'
      cases hc'
      exact ⟨m, hm, hc⟩
  | @spawn m hl hm ht hip =>
      have hlast : ms.getLast? = some m := h.ptr.symm.trans hm
      refine hsame (by simp) ⟨h.ptr, h.busy, fun _ => ?_, by simp [LoopPc.client?], ?_, h.safe⟩
      · exact stored_of_last hlast h.busy fun t hreg => absurd hreg.1 ht
      · intro hd hh
        rcases List.mem_append.mp hh with hold | hnew
        · exact h.origin hd hold
        · obtain rfl : hd = ⟨m, .spawned⟩ := List.mem_singleton.mp hnew
          exact ⟨ms.length - 1, m, (last_getElem? hlast).1, hip⟩
  | @ignore m hl hm ht hip =>
      refine hsame (by simp) ⟨h.ptr, h.busy, fun _ => ?_, by simp [LoopPc.client?], h.origin, h.safe⟩
      exact stored_of_last (h.ptr.symm.trans hm) h.busy fun t hreg => absurd hreg.1 ht
  | @subscribed c hl | @keySent c hl =>
      refine hsame (by simp) ⟨h.ptr, h.busy, by simp, ?_, h.origin, h.safe⟩
      intro c' hc'
      exact h.pending c' (by rw [hl]; exact hc')
  | @stored c hl =>
      have hmore : ∀ c' ∈ s.clients, c' ∈ s.clients ++ [c.setBackupTarget (backupTarget c.ip)] :=
        fun c' hc' => List.mem_append_left _ hc'
      obtain ⟨m, hm, hc⟩ := h.pending c (by rw [hl]; rfl)
      refine hsame (by simp) ⟨h.ptr, h.busy.mono hmore, fun _ => ?_, by simp [LoopPc.client?],
        h.origin, h.safe⟩
      refine stored_of_last (h.ptr.symm.trans hm) (h.busy.mono hmore) fun t hreg => ?_
      have hne : t ≠ [] := by
        rintro rfl
        exact absurd hreg.2.2 (by decide)
      obtain ⟨c', hc', hip⟩ := (ip_eq_iff hne).mpr hreg.2
      obtain rfl : c = c' := Option.some.inj (hc.symm.trans hc')
      exact ⟨_, List.mem_append_right _ (List.mem_singleton_self _), hip⟩
  | @handler k l msg pc pc' es hk hmove =>
      refine hsame (by rintro m rfl; cases hmove) ⟨h.ptr, h.busy, h.waiting, h.pending, ?_, h.safe⟩
      intro hd hh
      rcases mem_setPc hk hh with rfl | hold
      · exact (h.origin _ (mem_of_getElem? hk)).move h.ptr hmove
      · exact h.origin hd hold
  | @crashes l c hc =>
      refine hsame (by rintro m rfl; cases hc)
        ⟨h.ptr, h.busy, h.waiting, h.pending, h.origin, ?_⟩
      cases hc with
      | @noToken m hl hm ht hc =>
          have hmem : m ∈ all := hpre.subset (List.mem_of_getLast? (h.ptr.symm.trans hm))
          exact absurd ((Client.ofMsg_eq_none_iff m.payload).mp hc) (hall.tokens m hmem ht)
      | @missed k msg t p hk hp hmiss =>
          obtain ⟨i₀, j, i₁, mk, mj, ml, hkj, hjl, hk', hj', hl', h4, rfl, rfl⟩ :=
            h.origin _ (mem_of_getElem? hk)
          have hlt : i₁ < ms.length := (List.getElem?_eq_some_iff.mp hl').1
          obtain ⟨rest, rfl⟩ := hpre
          have hup : ∀ {i : Nat} {x : Message τ}, ms[i]? = some x → (ms ++ rest)[i]? = some x := by
            intro i x hi
            rwa [List.getElem?_append_left (List.getElem?_eq_some_iff.mp hi).1]
          obtain ⟨i, m, hi, hmi, hreg⟩ := hall.known i₀ j i₁ mk mj ml hkj hjl (hup hk') (hup hj')
            (hup hl') h4 hp
          -- the registration lies before the payload's message, so it is stored
          have hmem : m ∈ ms.dropLast := by
            rw [List.getElem?_append_left (by omega)] at hmi
            rw [List.dropLast_eq_take]
            refine List.mem_iff_getElem?.mpr ⟨i, ?_⟩
            rw [List.getElem?_take_of_lt (by omega)]
            exact hmi
          obtain ⟨c, hc, hip⟩ := h.busy m hmem mj.topic hreg
          exact absurd hip (searchForClient_eq_none_iff.mp hmiss c hc)
      | _ => simp

theorem survives_of_serveable {ms : List (Message τ)} (h : Serveable ms) : Survives cfg ms := by
  intro ls s hok hms hrun
  have hinv : consumed ls <+: ms → Inv (consumed ls) s := by
    have hrule := inv_history (C := fun _ l => l.succeeds)
      (I := fun ls s => consumed ls <+: ms → Inv (consumed ls) s) ?_
      (show consumed [] <+: ms → Inv (consumed []) start from fun _ => inv_start)
      (EachStep.of_labels hok _) hrun
    · exact hrule
    · intro hist s l s' hI hl hs hpre
      rw [consumed_append] at hpre ⊢
      obtain ⟨es, hacts⟩ := next_acts hs
      exact (hI ((List.prefix_append _ _).trans hpre)).step h hacts hl hpre
  exact (hinv hms).safe

/-! ## The condition is necessary -/

theorem afterAll_msgPtr {s : Server τ} {ms : List (Message τ)} {j : Nat} {m : Message τ}
    (hj : ms[j]? = some m) : (afterAll s (ms.take (j + 1))).msgPtr = some m := by
  have htake : ms.take (j + 1) = ms.take j ++ [m] := by
    rw [List.take_add_one, hj]
    rfl
  rw [htake, afterAll, List.foldl_append]
  rfl

/-- A request among the handled messages has its handler. -/
theorem exists_handler {ms : List (Message τ)} {k n : Nat} {m : Message τ} (hk : ms[k]? = some m)
    (hkn : k < n) (h4 : isIP4 m.topic = true) :
    ∃ h : Nat, (afterAll (start : Server τ) (ms.take n)).threadPool[h]? = some ⟨m, .spawned⟩ := by
  have hpub : m.topic ≠ subscibersList := by
    intro ht
    rw [ht, isIP4_subscibersList] at h4
    cases h4
  have hmem : (⟨m, .spawned⟩ : Handler τ) ∈ (afterAll start (ms.take n)).threadPool := by
    rw [afterAll_threadPool]
    refine List.mem_append_right _ (List.mem_flatMap.mpr ⟨m, ?_, ?_⟩)
    · exact List.mem_iff_getElem?.mpr ⟨k, by rw [List.getElem?_take_of_lt hkn]; exact hk⟩
    · simp [spawnedFor, hpub, h4]
  exact List.mem_iff_getElem?.mp hmem

/-- A registration without a token ends the process. -/
theorem tokens_of_survives {ms : List (Message τ)} (h : Survives cfg ms) :
    ∀ n, ∀ m ∈ ms.take n, m.topic = subscibersList → words m.payload ≠ [] := by
  intro n
  induction n with
  | zero => simp
  | succ n ih =>
      intro m hm ht hw
      rw [List.take_add_one, List.mem_append] at hm
      rcases hm with hm | hm
      · exact ih m hm ht hw
      · -- everything before the message can be handled, and then the process ends
        have hn : ms[n]? = some m := Option.mem_toList.mp hm
        have hidle : Idling (afterAll (start : Server τ) (ms.take n)) :=
          idling_afterAll ⟨rfl, rfl⟩ _
        have hnone : Client.ofMsg m.payload = none := (Client.ofMsg_eq_none_iff _).mpr hw
        have hrun : exec (next cfg) start ((ms.take n).flatMap handling ++ [.consume m, .dispatch]) =
            some ({ afterAll start (ms.take n) with msgPtr := some m, loop := .received }.crash
              .outOfRange) := by
          refine exec_append_of (exec_handlingAll ⟨rfl, rfl⟩ ih) ?_
          simp [Lib.Transition.exec, next, act, hidle.1, hidle.2, perform, consume, dispatch, ht,
            enterNewSubscriber, hnone]
        refine h _ _ ?_ ?_ hrun rfl
        · intro l hl
          rcases List.mem_append.mp hl with hl | hl
          · exact succeeds_handlingAll l hl
          · simp only [List.mem_cons, List.not_mem_nil, or_false] at hl
            rcases hl with rfl | rfl <;> trivial
        · rw [consumed_append, consumed_handlingAll]
          have htake : ms.take n ++ [m] = ms.take (n + 1) := by
            rw [List.take_add_one, hn]
            rfl
          show ms.take n ++ [m] <+: ms
          rw [htake]
          exact List.take_prefix _ _

/-- A handler that has read a topic without an entry ends the process with the next payload that
asks for a backup. -/
theorem exec_missed (cfg : Config) {s : Server τ} {h : Nat} {msg m : Message τ} {t : Str}
    (ha : s.crashed = none)
    (hh : s.threadPool[h]? = some ⟨msg, .topicRead t⟩) (hm : s.msgPtr = some m)
    (hp : isBackupMsg m.payload = true) (hmiss : ∀ c ∈ s.clients, c.ip ≠ t) :
    ∃ s', exec (next cfg) s [.readPayload h, .lookup h] = some s' ∧
      s'.crashed = some .outOfRange := by
  have h₁ : s.next cfg (.readPayload h) = some (s.setPc h (.pathRead t m.payload)) := by
    simp [next_of_alive ha, perform, readPayload, hh, hm]
  have hh₁ := setPc_getElem?_self hh (.pathRead t m.payload)
  have hmiss₁ : searchForClient (s.setPc h (.pathRead t m.payload)).clients t = none :=
    searchForClient_eq_none_iff.mpr hmiss
  have h₂ : (s.setPc h (.pathRead t m.payload)).next cfg (.lookup h) =
      some ((s.setPc h (.pathRead t m.payload)).crash .outOfRange) := by
    rw [next_of_alive (by rw [setPc_crashed]; exact ha)]
    simp only [perform, lookup, hh₁, Option.map_some, hp, if_true, hmiss₁]
  exact ⟨_, by rw [exec_cons_of_step h₁, exec_cons_of_step h₂, exec_nil], rfl⟩

theorem readTopic_next (cfg : Config) {s : Server τ} {h : Nat} {msg m : Message τ}
    (ha : s.crashed = none)
    (hh : s.threadPool[h]? = some ⟨msg, .spawned⟩) (hm : s.msgPtr = some m) :
    s.next cfg (.readTopic h) = some (s.setPc h (.topicRead m.topic)) := by
  simp [next_of_alive ha, perform, readTopic, hh, hm]

/-- None of the first `n` messages has registered `t`. -/
theorem clients_ne {ms : List (Message τ)} {n : Nat} {t : Str} (ht : t ≠ [])
    (h : ∀ i m, i < n → ms[i]? = some m → ¬ Registers m t) :
    ∀ c ∈ (ms.take n).flatMap entriesOf, c.ip ≠ t := by
  rintro c hc rfl
  obtain ⟨m, hm, hc⟩ := List.mem_flatMap.mp hc
  obtain ⟨i, hi⟩ := List.mem_iff_getElem?.mp hm
  have hlt : i < n := by
    have := (List.getElem?_eq_some_iff.mp hi).1
    simp only [List.length_take] at this
    omega
  rw [List.getElem?_take_of_lt hlt] at hi
  exact h i m hlt hi (registers_of_mem_entriesOf hc ht)

/-- A run in which message `l`, with payload of `ml`, has just been consumed, the registrations
before it are stored, and a handler holds the topic `t`. -/
structure HoldsTopic (cfg : Config) (ms : List (Message τ)) (l : Nat) (ml : Message τ) (t : Str)
    (ls : List (Label τ)) (u : Server τ) (h : Nat) (msg : Message τ) : Prop where
  run : exec (next cfg) start ls = some u
  ok : ∀ a ∈ ls, a.succeeds
  consumed : consumed ls = ms.take (l + 1)
  alive : u.crashed = none
  holds : u.threadPool[h]? = some ⟨msg, .topicRead t⟩
  ptr : u.msgPtr = some ml
  clients : u.clients = (ms.take l).flatMap entriesOf

section Schedules

variable {ms : List (Message τ)} {k j l : Nat} {mk mj ml : Message τ}

theorem take_snoc (hl : ms[l]? = some ml) : ms.take l ++ [ml] = ms.take (l + 1) := by
  rw [List.take_add_one, hl]
  rfl

theorem idling_take (ms : List (Message τ)) (n : Nat) :
    Idling (afterAll (start : Server τ) (ms.take n)) :=
  idling_afterAll ⟨rfl, rfl⟩ _

theorem exec_take (cfg : Config)
    (htokens : ∀ m ∈ ms, m.topic = subscibersList → words m.payload ≠ []) (n : Nat) :
    exec (next cfg) (start : Server τ) ((ms.take n).flatMap handling) =
      some (afterAll start (ms.take n)) :=
  exec_handlingAll ⟨rfl, rfl⟩ fun m hm => htokens m (List.mem_of_mem_take hm)

theorem consume_next {s : Server τ} (h : Idling s) (m : Message τ) :
    s.next cfg (.consume m) = some { s with msgPtr := some m, loop := .received } := by
  simp only [next_of_alive h.2, perform, consume, h.1, Option.map_some]

/-- The handler of `k` reads the topic after message `j`, and then message `l` comes in. -/
theorem holdsTopic_between (htokens : ∀ m ∈ ms, m.topic = subscibersList → words m.payload ≠ [])
    (hk : ms[k]? = some mk) (hj : ms[j]? = some mj) (hl : ms[l]? = some ml) (hkj : k ≤ j)
    (hjl : j < l) (h4 : isIP4 mk.topic = true) :
    ∃ ls u h msg, HoldsTopic cfg ms l ml mj.topic ls u h msg := by
  obtain ⟨h, hh⟩ := exists_handler hk (Nat.lt_succ_of_le hkj) h4
  have hread := readTopic_next cfg (idling_take ms (j + 1)).2 hh (afterAll_msgPtr hj)
  have hh₁ := setPc_getElem?_self hh (.topicRead mj.topic)
  have hmid : Idling ((afterAll (start : Server τ) (ms.take (j + 1))).setPc h
      (.topicRead mj.topic)) := idling_take ms (j + 1)
  -- the messages up to `j` are handled, the topic is read, and then those up to `l`
  have hsplit : ms.take (j + 1) ++ (ms.take l).drop (j + 1) = ms.take l := by
    have htt : (ms.take l).take (j + 1) = ms.take (j + 1) := by
      rw [List.take_take, Nat.min_eq_left hjl]
    rw [← htt, List.take_append_drop]
  generalize hrest : (ms.take l).drop (j + 1) = rest at hsplit
  have hrest' : ∀ m ∈ rest, m.topic = subscibersList → words m.payload ≠ [] := by
    intro m hm
    rw [← hrest] at hm
    exact htokens m (List.mem_of_mem_take (List.mem_of_mem_drop hm))
  generalize hs₁ : (afterAll (start : Server τ) (ms.take (j + 1))).setPc h
    (.topicRead mj.topic) = s₁ at hread hh₁ hmid
  have hs₂ : Idling (afterAll s₁ rest) := idling_afterAll hmid rest
  have hlater : exec (next cfg) (afterAll start (ms.take (j + 1)))
      (.readTopic h :: rest.flatMap handling) = some (afterAll s₁ rest) := by
    rw [exec_cons_of_step hread]
    exact exec_handlingAll hmid hrest'
  refine ⟨((ms.take (j + 1)).flatMap handling ++ .readTopic h :: rest.flatMap handling) ++
    [.consume ml], _, h, mk,
    exec_snoc_some.mpr ⟨_, exec_append_of (exec_take cfg htokens (j + 1)) hlater,
      consume_next hs₂ ml⟩, ?_, ?_, hs₂.2, ?_, rfl, ?_⟩
  · intro a ha
    simp only [List.mem_append, List.mem_cons, List.not_mem_nil, or_false] at ha
    rcases ha with (ha | rfl | ha) | rfl
    · exact succeeds_handlingAll a ha
    · trivial
    · exact succeeds_handlingAll a ha
    · trivial
  · have hcons : consumed (.readTopic h :: rest.flatMap handling) = rest :=
      consumed_handlingAll rest
    rw [consumed_append, consumed_append, consumed_handlingAll, hcons, hsplit, consumed_consume,
      take_snoc hl]
  · show (afterAll s₁ rest).threadPool[h]? = _
    have hlt : h < s₁.threadPool.length := (List.getElem?_eq_some_iff.mp hh₁).1
    rw [afterAll_threadPool, List.getElem?_append_left hlt]
    exact hh₁
  · show (afterAll s₁ rest).clients = _
    rw [afterAll_clients, ← hs₁, setPc_clients, afterAll_clients, ← hsplit, List.flatMap_append]
    rfl

/-- Message `l` comes in and the handler of an earlier one reads its topic. -/
theorem holdsTopic_at (htokens : ∀ m ∈ ms, m.topic = subscibersList → words m.payload ≠ [])
    (hk : ms[k]? = some mk) (hl : ms[l]? = some ml) (hkl : k < l) (h4 : isIP4 mk.topic = true) :
    ∃ ls u h msg, HoldsTopic cfg ms l ml ml.topic ls u h msg := by
  obtain ⟨h, hh⟩ := exists_handler hk hkl h4
  have hfirst := exec_take cfg htokens l
  have hidle := idling_take ms l
  have hclients := afterAll_clients (start : Server τ) (ms.take l)
  generalize afterAll (start : Server τ) (ms.take l) = s₁ at hh hfirst hidle hclients
  have hh₂ : ({ s₁ with msgPtr := some ml, loop := .received } : Server τ).threadPool[h]? =
      some ⟨mk, .spawned⟩ := hh
  have hread := readTopic_next cfg
    (s := { s₁ with msgPtr := some ml, loop := .received }) hidle.2 hh₂ rfl
  refine ⟨((ms.take l).flatMap handling ++ [.consume ml]) ++ [.readTopic h],
    ({ s₁ with msgPtr := some ml, loop := .received } : Server τ).setPc h (.topicRead ml.topic),
    h, mk, exec_snoc_some.mpr ⟨_, exec_snoc_some.mpr ⟨_, hfirst, consume_next hidle ml⟩, hread⟩,
    ?_, ?_, hidle.2, setPc_getElem?_self hh₂ _, rfl, hclients⟩
  · intro a ha
    simp only [List.mem_append, List.mem_cons, List.not_mem_nil, or_false] at ha
    rcases ha with (ha | rfl) | rfl
    · exact succeeds_handlingAll a ha
    · trivial
    · trivial
  · rw [consumed_append, consumed_append, consumed_handlingAll, consumed_consume, take_snoc hl]
    exact List.append_nil _

/-- The handler of `l` reads its own topic. -/
theorem holdsTopic_own (htokens : ∀ m ∈ ms, m.topic = subscibersList → words m.payload ≠ [])
    (hl : ms[l]? = some ml) (h4 : isIP4 ml.topic = true) :
    ∃ ls u h msg, HoldsTopic cfg ms l ml ml.topic ls u h msg := by
  have hpub : ml.topic ≠ subscibersList := by
    intro ht
    rw [ht, isIP4_subscibersList] at h4
    cases h4
  obtain ⟨h, hh⟩ := exists_handler hl (Nat.lt_succ_self l) h4
  have hread := readTopic_next cfg (idling_take ms (l + 1)).2 hh (afterAll_msgPtr hl)
  refine ⟨(ms.take (l + 1)).flatMap handling ++ [.readTopic h], _, h, ml,
    exec_snoc_some.mpr ⟨_, exec_take cfg htokens (l + 1), hread⟩, ?_, ?_, (idling_take ms (l + 1)).2,
    setPc_getElem?_self hh _, afterAll_msgPtr hl, ?_⟩
  · intro a ha
    rcases List.mem_append.mp ha with hold | hnew
    · exact succeeds_handlingAll a hold
    · obtain rfl : a = .readTopic h := List.mem_singleton.mp hnew
      trivial
  · rw [consumed_append, consumed_handlingAll]
    exact List.append_nil _
  · rw [setPc_clients, afterAll_clients, ← take_snoc hl, List.flatMap_append]
    simp [start, entriesOf, hpub]

/-- A schedule under which a handler looks up a topic that no earlier message registered. -/
theorem exists_missed_run (cfg : Config)
    (htokens : ∀ m ∈ ms, m.topic = subscibersList → words m.payload ≠ [])
    (hkj : k ≤ j) (hjl : j ≤ l) (hk : ms[k]? = some mk) (hj : ms[j]? = some mj)
    (hl : ms[l]? = some ml) (h4 : isIP4 mk.topic = true) (hp : isBackupMsg ml.payload = true)
    (hne : mj.topic ≠ []) (hmiss : ∀ i m, i < l → ms[i]? = some m → ¬ Registers m mj.topic) :
    ∃ (ls : List (Label τ)) (s : Server τ), (∀ a ∈ ls, a.succeeds) ∧ consumed ls <+: ms ∧
      exec (next cfg) start ls = some s ∧ s.crashed = some .outOfRange := by
  have hholds : ∃ ls u h msg, HoldsTopic cfg ms l ml mj.topic ls u h msg := by
    rcases Nat.lt_or_ge j l with hlt | hge
    · exact holdsTopic_between htokens hk hj hl hkj hlt h4
    · obtain rfl : j = l := Nat.le_antisymm hjl hge
      obtain rfl : mj = ml := Option.some.inj (hj.symm.trans hl)
      rcases Nat.lt_or_ge k j with hlt | hge
      · exact holdsTopic_at htokens hk hl hlt h4
      · obtain rfl : k = j := Nat.le_antisymm hkj hge
        obtain rfl : mk = mj := Option.some.inj (hk.symm.trans hl)
        exact holdsTopic_own htokens hl h4
  obtain ⟨ls, u, h, msg, hu⟩ := hholds
  obtain ⟨s, hs, hcrash⟩ := exec_missed cfg hu.alive hu.holds hu.ptr hp
    (by rw [hu.clients]; exact clients_ne hne hmiss)
  refine ⟨ls ++ [.readPayload h, .lookup h], s, ?_, ?_, exec_append_of hu.run hs, hcrash⟩
  · intro a ha
    rcases List.mem_append.mp ha with hold | hnew
    · exact hu.ok a hold
    · simp only [List.mem_cons, List.not_mem_nil, or_false] at hnew
      rcases hnew with rfl | rfl <;> trivial
  · rw [consumed_append, hu.consumed]
    show ms.take (l + 1) ++ [] <+: ms
    rw [List.append_nil]
    exact List.take_prefix _ _

end Schedules

/-- **A sequence of messages on the public channel and on IPv4 topics cannot bring the server down,
under any schedule, exactly when it is serveable.** -/
theorem survives_iff_serveable {ms : List (Message τ)}
    (hms : ∀ m ∈ ms, m.topic = subscibersList ∨ isIP4 m.topic = true) :
    Survives cfg ms ↔ Serveable ms := by
  refine ⟨fun h => ?_, survives_of_serveable⟩
  have htokens : ∀ m ∈ ms, m.topic = subscibersList → words m.payload ≠ [] := by
    intro m hm
    exact tokens_of_survives h ms.length m (by rw [List.take_length]; exact hm)
  refine ⟨htokens, ?_⟩
  intro k j l mk mj ml hkj hjl hk hj hl h4 hp
  by_contra hnone
  have hmiss : ∀ i m, i < l → ms[i]? = some m → ¬ Registers m mj.topic :=
    fun i m hi hm hreg => hnone ⟨i, m, hi, hm, hreg⟩
  have hne : mj.topic ≠ [] := by
    intro hnil
    rcases hms mj (List.mem_of_getElem? hj) with ht | ht
    · exact absurd (hnil.symm.trans ht) (by decide)
    · exact inetPton_ne_nil ht hnil
  obtain ⟨ls, s, hok, hpre, hrun, hcrash⟩ :=
    exists_missed_run cfg htokens hkj hjl hk hj hl h4 hp hne hmiss
  exact h ls s hok hpre hrun hcrash

/-! ## Runs -/

/-- A registration and a request of the registered host. -/
def registeredFirst : List (Message Unit) :=
  [⟨subscibersList, "10.0.0.2 ann".toList, ()⟩, ⟨"10.0.0.2".toList, "~/a".toList, ()⟩]

theorem registeredFirst_survives : Survives lanCfg registeredFirst := by
  refine (survives_iff_serveable (by decide)).mpr ⟨by decide, ?_⟩
  intro k j l mk mj ml hkj hjl hk hj hl h4 hp
  have hk0 : k ≠ 0 := by
    rintro rfl
    obtain rfl := Option.some.inj hk
    exact absurd h4 (by decide)
  have hl2 : l < 2 := (List.getElem?_eq_some_iff.mp hl).1
  obtain rfl : j = 1 := by omega
  obtain rfl := Option.some.inj hj
  exact ⟨0, _, by omega, rfl, by simp only [Registers]; decide⟩

/-- A blank registration ends the server. -/
theorem blank_registration_not_survived :
    ¬ ∀ (cfg : Config) (ms : List (Message Unit)),
      (∀ m ∈ ms, m.topic = subscibersList ∨ isIP4 m.topic = true) → Survives cfg ms := by
  intro hall
  have hsurv := hall lanCfg [⟨subscibersList, [], ()⟩] (by decide)
  refine hsurv [.consume ⟨subscibersList, [], ()⟩, .dispatch]
    ⟨[], some ⟨subscibersList, [], ()⟩, [], .received, some .outOfRange⟩ ?_ ?_ (by decide) rfl
  · intro l hl
    simp only [List.mem_cons, List.not_mem_nil, or_false] at hl
    rcases hl with rfl | rfl <;> trivial
  · exact List.prefix_rfl

end BupApp.OutOfRange
