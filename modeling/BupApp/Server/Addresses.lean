/-
# BupApp.Server.Addresses -- which hosts get registered?

`client::client` checks the first token of a registration with `isIP4`, but an address that fails
becomes the empty string and the registration goes on, for the topic and the directory of nobody.
And the check reads the token as a C string: what follows a NUL is not checked and stays part of the
address.  Nothing else looks at the address, so hosts without a valid one are kept out exactly when
no registration names one.
-/
import BupApp.App.Handling

namespace BupApp.Addresses

open BupApp.Lib.Transition BupApp.Lib.Text BupApp.Lib.Ipv4 Server

variable {τ : Type} {cfg : Config}

/-! ## Calls and their addresses -/

/-- The calls of `handleNewSubscriber` that leave something behind. -/
inductive Call where
  | subscribe (topic : Str)              -- line 162
  | publish (topic payload : Str)        -- line 167
  | mkdir (path : Str)                   -- line 173
  | pushBack (entry : Client)            -- line 175
  deriving DecidableEq, Repr

/-- The calls a step of the loop issues, whether they succeed or throw. -/
def issued (cfg : Config) (s : Server τ) : Label τ → List Call
  | .subscribe _ => match s.loop with
      | .subscribing c => [.subscribe c.ip]
      | _ => []
  | .publishKey _ => match s.loop with
      | .sendingKey c => [.publish c.ip cfg.publicKey]
      | _ => []
  | .store => match s.loop with
      | .storing c => [.mkdir (backupTarget c.ip), .pushBack (entryOf c)]
      | _ => []
  | _ => []

/-- Whatever a step subscribes to, publishes as a key, hands to `system` or appends, it has issued the
call for; the subscription after a reconnect is not one of `handleNewSubscriber`. -/
theorem issued_of_acts {s s' : Server τ} {l : Label τ} {es : List Effect}
    (h : Acts cfg s l s' es) :
    (∀ t, .subscribe t ∈ es → l = .consumeNull .reconnected ∨ .subscribe t ∈ issued cfg s l) ∧
    (∀ t p, .publishKey t p ∈ es → .publish t p ∈ issued cfg s l) ∧
    (∀ x, .system x ∈ es → ∃ path, x = "mkdir ".toList ++ path ∧ .mkdir path ∈ issued cfg s l) ∧
    ∀ c ∈ s'.clients, c ∈ s.clients ∨ .pushBack c ∈ issued cfg s l := by
  cases h with
  | subscribed hl => simp [issued, hl]
  | keySent hl => simp [issued, hl]
  | @stored c hl =>
      refine ⟨by simp, by simp, ?_, ?_⟩
      · intro x hx
        simp only [List.mem_singleton, Effect.system.injEq] at hx
        exact ⟨_, hx, by simp [issued, hl]⟩
      · intro d hd
        rcases List.mem_append.mp hd with hold | hnew
        · exact Or.inl hold
        · obtain rfl := List.mem_singleton.mp hnew
          exact Or.inr (by simp [issued, hl, entryOf])
  | handler hk hmove =>
      cases hmove <;> exact ⟨by simp, by simp, by simp, fun c hc => Or.inl hc⟩
  | _ => exact ⟨by simp, by simp, by simp, fun c hc => Or.inl hc⟩

/-- The call is for the address `ip`. -/
def Call.IsFor (ip : Str) : Call → Prop
  | .subscribe topic => topic = ip
  | .publish topic _ => topic = ip
  | .mkdir path => path = backupTarget ip
  | .pushBack entry => entry.ip = ip

/-- The first token of the message the loop works on. -/
def firstToken (s : Server τ) : Option Str := s.msgPtr.bind fun m => (words m.payload).head?

/-- What the step issues is for the first token, and that is as a whole a dotted quad. -/
def ForValidHost (cfg : Config) (s : Server τ) (l : Label τ) : Prop :=
  ∀ call ∈ issued cfg s l, ∃ t, firstToken s = some t ∧ dottedQuad t = true ∧ call.IsFor t

/-- However the messages `ms` are processed, only hosts with a valid address are registered. -/
def OnlyValidHosts (cfg : Config) (ms : List (Message τ)) : Prop :=
  ∀ (ls : List (Label τ)) (s : Server τ), consumed ls <+: ms →
    exec (next cfg) Server.start ls = some s →
    EachStep (next cfg) (ForValidHost cfg) Server.start ls

/-- The first token of the payload is as a whole a dotted quad. -/
def NamesAddress (m : Message τ) : Prop := (words m.payload).head?.any dottedQuad = true

instance (m : Message τ) : Decidable (NamesAddress m) := inferInstanceAs (Decidable (_ = _))

/-! ## The condition is enough -/

/-- The entry the loop works on is decoded from the registration in `m_msgPtr`, one of `ms`. -/
def Pending (ms : List (Message τ)) (s : Server τ) : Prop :=
  (∀ m, s.msgPtr = some m → m ∈ ms) ∧ Decoding s

theorem Pending.step {ms : List (Message τ)} {s s' : Server τ} {l : Label τ} {es : List Effect}
    (h : Pending ms s) (hs : Acts cfg s l s' es) (hin : ∀ m, l = .consume m → m ∈ ms) :
    Pending ms s' := by
  refine ⟨?_, h.2.step hs⟩
  cases hs with
  | consume hl =>
      intro m hm
      obtain rfl := Option.some.inj hm
      exact hin _ rfl
  | nullReconnected | nullFailed | nullThrew => simp
  | _ => exact h.1

/-- A valid address is the one the entry gets. -/
theorem ip_of_namesAddress {m : Message τ} {c : Client} (hm : NamesAddress m)
    (hc : Client.ofMsg m.payload = some c) :
    (words m.payload).head? = some c.ip ∧ dottedQuad c.ip = true := by
  obtain ⟨t, ts, hw, hip⟩ := Client.ofMsg_ip hc
  have hquad : dottedQuad t = true := by
    have := hm
    rwa [NamesAddress, hw, List.head?_cons, Option.any_some] at this
  have h4 : isIP4 t = true := inetPton_of_dottedQuad hquad
  rw [h4, if_pos rfl] at hip
  rw [hw, hip]
  exact ⟨rfl, hquad⟩

/-- The calls are for the entry the loop works on. -/
theorem isFor_of_issued {s : Server τ} {l : Label τ} {call : Call} (h : call ∈ issued cfg s l) :
    ∃ c, s.loop.client? = some c ∧ call.IsFor c.ip := by
  unfold issued at h
  split at h
  · split at h
    · rename_i c hl
      obtain rfl := List.mem_singleton.mp h
      exact ⟨c, by rw [hl]; rfl, rfl⟩
    · cases h
  · split at h
    · rename_i c hl
      obtain rfl := List.mem_singleton.mp h
      exact ⟨c, by rw [hl]; rfl, rfl⟩
    · cases h
  · split at h
    · rename_i c hl
      simp only [List.mem_cons, List.not_mem_nil, or_false] at h
      rcases h with rfl | rfl
      · exact ⟨c, by rw [hl]; rfl, rfl⟩
      · exact ⟨c, by rw [hl]; rfl, rfl⟩
    · cases h
  · cases h

theorem Pending.forValidHost {ms : List (Message τ)} {s : Server τ} (h : Pending ms s)
    (hms : ∀ m ∈ ms, m.topic = subscibersList → NamesAddress m) (l : Label τ) :
    ForValidHost cfg s l := by
  intro call hcall
  obtain ⟨c, hc, hfor⟩ := isFor_of_issued hcall
  obtain ⟨m, hm, ht, hdec⟩ := h.2 c hc
  obtain ⟨hhead, hquad⟩ := ip_of_namesAddress (hms m (h.1 m hm) ht) hdec
  refine ⟨c.ip, ?_, hquad, hfor⟩
  rw [firstToken, hm]
  exact hhead

theorem onlyValidHosts_of_named {ms : List (Message τ)}
    (hms : ∀ m ∈ ms, m.topic = subscibersList → NamesAddress m) : OnlyValidHosts cfg ms := by
  intro ls s hpre hrun
  rw [eachStep_iff_split]
  rintro pre l post u rfl hu
  have hlabels : ∀ l ∈ pre, ∀ m, l = .consume m → m ∈ ms := by
    rintro l hl m rfl
    apply hpre.subset
    rw [consumed_append]
    exact List.mem_append_left _ (List.mem_filterMap.mpr ⟨_, hl, rfl⟩)
  have hpending : Pending ms u :=
    inv_of_eachStep (C := fun _ l => ∀ m, l = .consume m → m ∈ ms)
      (fun s l s' hI hl hs => by
        obtain ⟨es, hacts⟩ := next_acts hs
        exact hI.step hacts hl)
      ⟨by simp [Server.start], Decoding.start⟩
      (EachStep.of_labels hlabels _) hu
  exact hpending.forValidHost hms l

/-! ## The condition is necessary -/

/-- The run up to the subscription for the registration `m` behind `pre`. -/
def upTo (pre : List (Message τ)) (m : Message τ) : List (Label τ) :=
  pre.flatMap handling ++ [.consume m, .dispatch]

theorem exec_upTo (cfg : Config) {pre : List (Message τ)} {m : Message τ} {c : Client}
    (hpre : ∀ m ∈ pre, m.topic = subscibersList → words m.payload ≠ [])
    (ht : m.topic = subscibersList) (hc : Client.ofMsg m.payload = some c) :
    ∃ s, exec (next cfg) Server.start (upTo pre m) = some s ∧ s.crashed = none ∧
      s.msgPtr = some m ∧ s.loop = .subscribing c := by
  have hidle : Idling (Server.start : Server τ) := ⟨rfl, rfl⟩
  obtain ⟨hl, ha⟩ := idling_afterAll hidle pre
  have hfirst : exec (next cfg) Server.start (pre.flatMap handling) = some (afterAll start pre) :=
    exec_handlingAll hidle hpre
  generalize afterAll (Server.start : Server τ) pre = s at hl ha hfirst
  refine ⟨{ s with msgPtr := some m, loop := .subscribing c }, exec_append_of hfirst ?_, ha, rfl, rfl⟩
  simp [Lib.Transition.exec, next, act, ha, hl, perform, consume, dispatch, ht, enterNewSubscriber,
    hc]

/-- A registration without an address gets to its subscription. -/
theorem named_of_onlyValidHosts {ms : List (Message τ)}
    (htokens : ∀ m ∈ ms, m.topic = subscibersList → words m.payload ≠ [])
    (h : OnlyValidHosts cfg ms) : ∀ m ∈ ms, m.topic = subscibersList → NamesAddress m := by
  intro m hm ht
  obtain ⟨pre, post, rfl⟩ := List.append_of_mem hm
  obtain ⟨c, hc⟩ : ∃ c, Client.ofMsg m.payload = some c := by
    cases hc : Client.ofMsg m.payload with
    | none => exact absurd ((Client.ofMsg_eq_none_iff _).mp hc) (htokens m hm ht)
    | some c => exact ⟨c, rfl⟩
  obtain ⟨s, hs, halive, hptr, hl⟩ :=
    exec_upTo cfg (fun m hm => htokens m (List.mem_append_left _ hm)) ht hc
  have hnext : s.next cfg (.subscribe true) = some { s with loop := .sendingKey c } := by
    simp [next_of_alive halive, perform, Server.subscribe, hl]
  have hconsumed : consumed (upTo pre m ++ [.subscribe true]) <+: pre ++ m :: post := by
    rw [upTo, consumed_append, consumed_append, consumed_handlingAll]
    exact ⟨post, by simp [consumed, Label.message?, List.filterMap_cons]⟩
  have heach := h _ _ hconsumed (exec_snoc_some.mpr ⟨s, hs, hnext⟩)
  obtain ⟨t, htoken, hquad, -⟩ := eachStep_iff_split.mp heach _ _ [] s rfl hs (.subscribe c.ip)
    (by simp [issued, hl])
  rw [firstToken, hptr] at htoken
  rw [NamesAddress, show (words m.payload).head? = some t from htoken]
  exact hquad

/-- **Only hosts with a valid address are registered exactly when every registration names one**: its
first token is, as a whole, a dotted quad. -/
theorem onlyValidHosts_iff {ms : List (Message τ)}
    (htokens : ∀ m ∈ ms, m.topic = subscibersList → words m.payload ≠ []) :
    OnlyValidHosts cfg ms ↔ ∀ m ∈ ms, m.topic = subscibersList → NamesAddress m :=
  ⟨named_of_onlyValidHosts htokens, onlyValidHosts_of_named⟩

/-! ## Runs -/

/-- A registration without an address. -/
def nameless : List (Message Unit) := [⟨subscibersList, "printer ann".toList, ()⟩]

/-- A registration whose token is an address up to a NUL. -/
def behindNul : List (Message Unit) := [⟨subscibersList, "10.0.0.2\x00/.. ann".toList, ()⟩]

/-- Both hosts are registered, without an address and with one that is none. -/
theorem hosts_without_address_registered :
    ¬ OnlyValidHosts lanCfg nameless ∧ ¬ OnlyValidHosts lanCfg behindNul := by
  refine ⟨fun h => ?_, fun h => ?_⟩
  · exact absurd (named_of_onlyValidHosts (by decide) h) (by decide)
  · exact absurd (named_of_onlyValidHosts (by decide) h) (by decide)

def wellFormed : List (Message Unit) :=
  [⟨subscibersList, "10.0.0.2 ann".toList, ()⟩, ⟨"10.0.0.2".toList, "~/a".toList, ()⟩]

theorem wellFormed_onlyValid : OnlyValidHosts lanCfg wellFormed :=
  (onlyValidHosts_iff (by decide)).mpr (by decide)

end BupApp.Addresses
