/-
# BupApp.Server.Reregistration -- a host that registers more than once

Registrations are retained and sent again, and `handleNewSubscriber` appends an entry for each of
them: the test `isClientExist` is there and is never called.  A repeated registration therefore
duplicates its entry.  Which of the entries of a host counts is decided by `searchForClient`, which
searches from the front: the first one.
-/
import BupApp.App.Handling

namespace BupApp.Reregistration

open BupApp.Lib.Transition BupApp.Lib.Text Server

variable {τ : Type} {cfg : Config}

/-! ## Duplicates -/

/-- A registration with a token. -/
def IsRegistration (m : Message τ) : Prop := m.topic = subscibersList ∧ words m.payload ≠ []

instance (m : Message τ) : Decidable (IsRegistration m) := inferInstanceAs (Decidable (_ ∧ _))

/-- No two of the clients are equal under `client::operator==`. -/
def NoDuplicates (cs : List Client) : Prop := cs.Pairwise fun c d => c.beq d = false

instance (cs : List Client) : Decidable (NoDuplicates cs) :=
  inferInstanceAs (Decidable (cs.Pairwise _))

/-- However far the messages are handled, without a failure, the registry has no duplicates, and the
handling of a registration that `isClientExist` knows leaves it as it is. -/
def AgainHarmless (cfg : Config) (ms : List (Message τ)) : Prop :=
  ∀ pre post, ms = pre ++ post → ∃ s,
    exec (next cfg) Server.start (pre.flatMap handling) = some s ∧ NoDuplicates s.clients ∧
    ∀ m rest c, post = m :: rest → Client.ofMsg m.payload = some c →
      isClientExist s.clients c = true →
      ∃ s', exec (next cfg) s (handling m) = some s' ∧ s'.clients = s.clients

@[simp] theorem beq_entryOf (c d : Client) : (entryOf c).beq (entryOf d) = c.beq d := rfl

theorem noDuplicates_entries {cs : List Client} :
    NoDuplicates (cs.map entryOf) ↔ NoDuplicates cs := by
  simp only [NoDuplicates, List.pairwise_map, beq_entryOf]

/-- The state after registrations that are handled without a failure. -/
theorem exec_registrations (cfg : Config) {ms : List (Message τ)}
    (hms : ∀ m ∈ ms, IsRegistration m) :
    ∃ s, exec (next cfg) Server.start (ms.flatMap handling) = some s ∧ Idling s ∧
      s.clients = (registrations ms).map entryOf := by
  have hidle : Idling (Server.start : Server τ) := ⟨rfl, rfl⟩
  refine ⟨_, exec_handlingAll hidle fun m hm _ => (hms m hm).2, idling_afterAll hidle ms, ?_⟩
  rw [afterAll_clients, flatMap_entriesOf]
  rfl

/-- **Registering again is harmless exactly for the sequences in which nobody does**: the decoded
registrations differ pairwise in the ip or the user. -/
theorem againHarmless_iff {ms : List (Message τ)} (hms : ∀ m ∈ ms, IsRegistration m) :
    AgainHarmless cfg ms ↔ NoDuplicates (registrations ms) := by
  constructor
  · intro h
    obtain ⟨s, hs, hnodup, -⟩ := h ms [] (by simp)
    obtain ⟨s', hs', -, hclients⟩ := exec_registrations cfg hms
    obtain rfl := Option.some.inj (hs.symm.trans hs')
    rwa [hclients, noDuplicates_entries] at hnodup
  · rintro h pre post rfl
    obtain ⟨s, hs, -, hclients⟩ :=
      exec_registrations cfg fun m hm => hms m (List.mem_append_left post hm)
    rw [registrations_append] at h
    refine ⟨s, hs, ?_, ?_⟩
    · rw [hclients, noDuplicates_entries]
      exact (List.pairwise_append.mp h).1
    · -- a registration that is known has an equal one before it
      rintro m rest c rfl hc hexist
      obtain ⟨d, hd, hbeq⟩ := isClientExist_iff.mp hexist
      rw [hclients] at hd
      obtain ⟨d, hmem', rfl⟩ := List.mem_map.mp hd
      have hm : IsRegistration m := hms m (by simp)
      have hmem : c ∈ registrations (m :: rest) := by
        refine List.mem_filterMap.mpr ⟨m, List.mem_filter.mpr ⟨by simp, ?_⟩, hc⟩
        simpa using hm.1
      have hne : d.beq c = false := (List.pairwise_append.mp h).2.2 d hmem' c hmem
      exact absurd (hbeq.symm.trans hne) (by simp)

/-- The same registration twice. -/
def twice : List (Message Unit) :=
  [registrationWith "10.0.0.2 ann", registrationWith "10.0.0.2 ann"]

/-- The second registration of `twice` duplicates the entry of the first. -/
theorem repeated_registration_duplicates :
    ¬ ∀ (cfg : Config) (ms : List (Message Unit)), (∀ m ∈ ms, IsRegistration m) →
      AgainHarmless cfg ms := by
  intro hall
  obtain ⟨s, hs, hnodup, -⟩ := hall lanCfg twice (by decide) twice [] (by simp)
  obtain ⟨t, ht, hdup⟩ := exists_exec_of_any (P := fun s : Server Unit => ¬ NoDuplicates s.clients)
    (show (exec (next lanCfg) Server.start (twice.flatMap handling)).any _ = true by
      decide +kernel)
  obtain rfl := Option.some.inj (hs.symm.trans ht)
  exact hdup hnodup

/-- Two users of one host and one of another. -/
def threeUsers : List (Message Unit) :=
  [registrationWith "10.0.0.2 ann", registrationWith "10.0.0.2 bob",
    registrationWith "10.0.0.3 ann"]

theorem threeUsers_againHarmless : AgainHarmless lanCfg threeUsers :=
  (againHarmless_iff (by decide)).mpr (by decide)

/-! ## Which registration counts -/

/-- After the messages `ms`, handled in turn, the handler of the request `m` builds the command for
the registration `c`. -/
def BuildsFor (cfg : Config) (ms : List (Message τ × Bool)) (m : Message τ) (c : Client) : Prop :=
  ∃ u s, exec (next cfg) Server.start (inTurn 0 ms) = some u ∧
    exec (next cfg) u (handling m ++ building u.threadPool.length) = some s ∧
    s.threadPool[u.threadPool.length]? =
      some ⟨m, .cmndBuilt m.topic m.payload (cmndFor cfg (entryOf c) m.topic m.payload)⟩

/-- The look-up finds the entry of the first registration of the host. -/
theorem searchForClient_entries {cs : List Client} {ip : Str} {c : Client}
    (h : cs.find? (·.ip = ip) = some c) :
    searchForClient (cs.map entryOf) ip = some (entryOf c) := by
  have hfind : (cs.map entryOf).find? (·.ip = ip) = some (entryOf c) := by
    rw [List.find?_map]
    show (cs.find? (·.ip = ip)).map entryOf = _
    rw [h]
    rfl
  rw [searchForClient, hfind]

/-- **A backup is made for the first registration of the host**: for the user it named, whatever the
host and others registered after it. -/
theorem builds_for_first {ms : List (Message τ × Bool)} {m : Message τ} {c : Client}
    (hms : Servable [] ms) (h4 : isIP4 m.topic = true) (hp : isBackupMsg m.payload = true)
    (hc : (registrations (ms.map Prod.fst)).find? (·.ip = m.topic) = some c) :
    BuildsFor cfg ms m c := by
  have hstart : Rests (Server.start : Server τ) [] 0 := ⟨⟨rfl, rfl⟩, rfl, rfl⟩
  obtain ⟨u, n, hu, hrest⟩ := exec_inTurn cfg hstart hms
  rw [List.nil_append, flatMap_entriesOf] at hrest
  obtain rfl := hrest.handlers
  have hloop : exec (next cfg) u (handling m) = some (after u m) := by
    refine exec_handling hrest.idling fun ht => ?_
    rw [ht, isIP4_subscibersList] at h4
    cases h4
  obtain ⟨hafter, hk⟩ := hrest.after_request h4
  have hlookup := searchForClient_entries hc
  obtain ⟨s, hs, -, hbuilt⟩ := exec_building cfg hafter rfl hk fun _ =>
    ⟨_, (searchForClient_some hlookup).1, (searchForClient_some hlookup).2⟩
  obtain ⟨d, hd, hcmnd⟩ := hbuilt hp
  obtain rfl := Option.some.inj (hlookup.symm.trans hd)
  exact ⟨u, s, hu, exec_append_of hloop hs, hcmnd⟩

/-- Ann registers her host, Bob registers the same host, and somebody another one; there was a
request in between. -/
def annThenBob : List (Message Unit × Bool) :=
  [(registrationWith "10.0.0.2 ann", true), (⟨"10.0.0.2".toList, "~/a".toList, ()⟩, true),
    (registrationWith "10.0.0.3 cid", true), (registrationWith "10.0.0.2 bob", true)]

def laterRequest : Message Unit := ⟨"10.0.0.2".toList, "~/b".toList, ()⟩

def ann : Client := ⟨"10.0.0.2".toList, "ann".toList, [], []⟩
def bob : Client := ⟨"10.0.0.2".toList, "bob".toList, [], []⟩

theorem annThenBob_servable : Servable [] annThenBob := by
  refine ⟨by decide, by decide, by decide, ?_, by decide, by decide, by decide, by decide, trivial⟩
  exact fun _ _ => ⟨entryOf ann, by decide, rfl⟩

/-- The request is served for Ann, who registered first. -/
theorem laterRequest_for_ann : BuildsFor lanCfg annThenBob laterRequest ann :=
  builds_for_first annThenBob_servable (by decide) (by decide) (by decide)

/-- The handler of `laterRequest` with the command of an entry. -/
def servedFor (c : Client) : Handler Unit :=
  ⟨laterRequest, .cmndBuilt laterRequest.topic laterRequest.payload
    (cmndFor lanCfg (entryOf c) laterRequest.topic laterRequest.payload)⟩

/-- It is not served for the user of the most recent registration. -/
theorem not_builds_for_last :
    ¬ ∀ (cfg : Config) (ms : List (Message Unit × Bool)) (m : Message Unit) (c : Client),
      Servable [] ms → isIP4 m.topic = true → isBackupMsg m.payload = true →
      (registrations (ms.map Prod.fst)).reverse.find? (·.ip = m.topic) = some c →
      BuildsFor cfg ms m c := by
  intro hall
  obtain ⟨u, s, hu, hs, hbob⟩ := hall lanCfg annThenBob laterRequest bob annThenBob_servable
    (by decide) (by decide) (by decide)
  obtain ⟨v, hv, hone, hann⟩ := exists_exec_of_any
    (P := fun v : Server Unit => v.threadPool.length = 1 ∧
      (exec (next lanCfg) v (handling laterRequest ++ building 1)).any (fun s =>
        decide (s.threadPool[1]? = some (servedFor ann))) = true)
    (show (exec (next lanCfg) Server.start (inTurn 0 annThenBob)).any _ = true by decide +kernel)
  obtain rfl := Option.some.inj (hu.symm.trans hv)
  rw [hone] at hs hbob
  rw [hs, Option.any_some, decide_eq_true_eq] at hann
  exact absurd (hann.symm.trans hbob) (by decide)

end BupApp.Reregistration
