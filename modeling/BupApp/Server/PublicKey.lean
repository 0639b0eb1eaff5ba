/-
# BupApp.Server.PublicKey -- whom the server registers without a key

`getPublicKey` gives back the empty text for a file that has not the size of a key, and `init` goes
on with it.  Every registration then publishes an empty payload, which its client cannot take for a
key and which empties the slot of the retained message, and the client enters `m_clients` all the
same.  Between the key's publish and the entry nothing can happen to a registration, so with a file
of the right size every client that enters has been sent it.
-/
import BupApp.App.ServerRuns

namespace BupApp.PublicKey

open BupApp.Lib.Text BupApp.Lib.Transition Server Logged

variable {τ : Type} {cfg : Config} {content : Str}

/-! ## The property -/

/-- Every registered client was sent, on its channel, the content of the file, and that is not
empty. -/
def KeySent (content : Str) (s : Logged τ) : Prop :=
  ∀ c ∈ s.srv.clients, ∃ payload, Effect.publishKey c.ip payload ∈ s.log ∧
    payload ≠ [] ∧ payload = content

/-- The file passes the check of `getPublicKey`, or the step stores nobody. -/
def KeyOrNobody (content : Str) (_ : Logged τ) (l : Label τ) : Prop :=
  content.length = publicKeySize ∨ l ≠ .store

theorem publicKey_of_init {localIp : Str} {fs : Files} (hfile : fs publicKeyPath = some content)
    (hinit : Config.init localIp fs = some cfg) :
    cfg.publicKey = if content.length ≠ publicKeySize then [] else content := by
  simp only [Config.init, getPublicKey, getTxtFromFile_eq, hfile, Option.map_some,
    Option.some.injEq] at hinit
  rw [← hinit]

/-! ## What was published -/

/-- A registration past its publish has been sent the key of the server, and nothing else was ever
sent as a key. -/
structure Sent (cfg : Config) (s : Logged τ) : Prop where
  clients : ∀ c ∈ s.srv.clients, Effect.publishKey c.ip cfg.publicKey ∈ s.log
  storing : ∀ c, s.srv.loop = .storing c → Effect.publishKey c.ip cfg.publicKey ∈ s.log
  payloads : ∀ topic payload, Effect.publishKey topic payload ∈ s.log → payload = cfg.publicKey

theorem Sent.start : Sent cfg (⟨Server.start, []⟩ : Logged τ) :=
  ⟨by simp [Server.start], by simp [Server.start], by simp⟩

/-- Only the step that sends the key publishes one. -/
theorem payload_of_acts {s s' : Server τ} {l : Label τ} {es : List Effect}
    (h : Acts cfg s l s' es) {topic payload : Str} (he : Effect.publishKey topic payload ∈ es) :
    payload = cfg.publicKey := by
  cases h with
  | keySent hl =>
      simp only [List.mem_singleton, Effect.publishKey.injEq] at he
      exact he.2
  | handler hk hmove => cases hmove <;> simp at he
  | _ => simp at he

/-- A registration gets to its entry by the publish of the key. -/
theorem storing_of_acts {s s' : Server τ} {l : Label τ} {es : List Effect}
    (h : Acts cfg s l s' es) {c : Client} (hc : s'.loop = .storing c) :
    s.loop = .storing c ∨ Effect.publishKey c.ip cfg.publicKey ∈ es := by
  cases h with
  | keySent hl =>
      cases hc
      exact Or.inr (List.mem_singleton_self _)
  | nullThrew | handler | crashes => exact Or.inl hc
  | _ => cases hc

theorem Sent.step {s s' : Logged τ} {l : Label τ} (h : Sent cfg s)
    (hstep : Logged.step cfg s l = some s') : Sent cfg s' := by
  obtain ⟨-, es, hacts, hlog⟩ := step_acts hstep
  have hkept : ∀ e ∈ s.log, e ∈ s'.log := by
    intro e he
    rw [hlog]
    exact List.mem_append_left es he
  refine ⟨?_, ?_, ?_⟩
  · intro c hc
    rcases mem_clients_of_acts hacts hc with hold | ⟨d, hd, hip⟩
    · exact hkept _ (h.clients c hold)
    · rw [hip]
      exact hkept _ (h.storing d hd)
  · intro c hc
    rcases storing_of_acts hacts hc with hold | hnew
    · exact hkept _ (h.storing c hold)
    · rw [hlog]
      exact List.mem_append_right _ hnew
  · intro topic payload he
    rw [hlog, List.mem_append] at he
    rcases he with hold | hnew
    · exact h.payloads topic payload hold
    · exact payload_of_acts hacts hnew

/-! ## The condition -/

/-- Behind `Sent`: if anybody is registered, the file has passed the check. -/
structure Inv (content : Str) (cfg : Config) (s : Logged τ) : Prop where
  sent : Sent cfg s
  checked : s.srv.clients ≠ [] → content.length = publicKeySize

theorem Inv.step {s s' : Logged τ} {l : Label τ} (h : Inv content cfg s)
    (hl : KeyOrNobody content s l) (hstep : Logged.step cfg s l = some s') :
    Inv content cfg s' := by
  refine ⟨h.sent.step hstep, fun hne => ?_⟩
  rcases hl with hsize | hstore
  · exact hsize
  · obtain ⟨-, es, hacts, -⟩ := step_acts hstep
    rcases clients_of_acts hacts with ⟨-, hcl⟩ | ⟨c, rfl, -⟩
    · exact h.checked (hcl ▸ hne)
    · exact absurd rfl hstore

theorem Inv.keySent (hkey : cfg.publicKey = if content.length ≠ publicKeySize then [] else content)
    {s : Logged τ} (h : Inv content cfg s) : KeySent content s := by
  intro c hc
  have hsize : content.length = publicKeySize := h.checked (List.ne_nil_of_mem hc)
  rw [if_neg (not_not_intro hsize)] at hkey
  refine ⟨cfg.publicKey, h.sent.clients c hc, ?_, hkey⟩
  rw [hkey]
  rintro rfl
  cases hsize

/-- Where the file was not accepted, nobody who is registered has got its content. -/
theorem not_keySent {s : Logged τ} (hkey : cfg.publicKey = []) (h : Sent cfg s)
    (hne : s.srv.clients ≠ []) : ¬ KeySent content s := by
  intro hsent
  obtain ⟨c, cs, hcs⟩ := List.exists_cons_of_ne_nil hne
  obtain ⟨payload, hlog, hnil, -⟩ := hsent c (by rw [hcs]; exact List.mem_cons_self ..)
  exact hnil ((h.payloads _ _ hlog).trans hkey)

/-- **Whoever is registered was sent the key, exactly when the file has the size of a key or nobody
is registered.** -/
theorem keySent_iff {localIp : Str} {fs : Files} (hfile : fs publicKeyPath = some content)
    (hinit : Config.init localIp fs = some cfg) {ls : List (Label τ)} {s : Logged τ}
    (hrun : exec (Logged.step cfg) ⟨Server.start, []⟩ ls = some s) :
    Always (Logged.step cfg) (KeySent content) ⟨Server.start, []⟩ ls ↔
      content.length = publicKeySize ∨ Label.store ∉ ls := by
  have hkey := publicKey_of_init hfile hinit
  have hstart : Inv content cfg (⟨Server.start, []⟩ : Logged τ) :=
    ⟨Sent.start, fun hne => absurd rfl hne⟩
  have hexact : ∀ (s : Logged τ) l s', Inv content cfg s → Logged.step cfg s l = some s' →
      KeySent content s' → KeyOrNobody content s l := by
    intro s l s' h hstep hsent
    by_contra hno
    simp only [KeyOrNobody, ne_eq, not_or, not_not] at hno
    obtain ⟨hsize, rfl⟩ := hno
    obtain ⟨-, es, hacts, -⟩ := step_acts hstep
    rcases clients_of_acts hacts with ⟨hstore, -⟩ | ⟨c, -, -, hcl, -⟩
    · exact absurd rfl hstore
    · have hne : s'.srv.clients ≠ [] := by simp [hcl]
      exact not_keySent (by rw [hkey, if_pos hsize]) (h.sent.step hstep) hne hsent
  rw [always_iff_eachStep (fun _ h => h.keySent hkey) (fun _ _ _ h hl => h.step hl) hexact hstart
    hrun]
  unfold KeyOrNobody
  rw [eachStep_or_iff, eachStep_ne_iff hrun]

/-! ## Runs -/

/-- A host registers, and every broker call completes. -/
def oneRegistration : List (Label Unit) :=
  [.consume (registrationWith "10.0.0.2 ann"), .dispatch, .subscribe true, .publishKey true, .store]

/-- With a key of another size, such as that of an Ed25519 pair, the host is registered without. -/
theorem registered_without_key :
    ¬ ∀ (fs : Files) (content : Str) (cfg : Config) (ls : List (Label Unit)) (s : Logged Unit),
      fs publicKeyPath = some content → Config.init "10.0.0.1".toList fs = some cfg →
      exec (Logged.step cfg) ⟨Server.start, []⟩ ls = some s → KeySent content s := by
  intro hall
  obtain ⟨s, hs, hone⟩ := exists_exec_of_any (P := fun s : Logged Unit => s.srv.clients ≠ [])
    (show (exec (Logged.step ⟨"10.0.0.1".toList, []⟩) ⟨Server.start, []⟩ oneRegistration).any _
        = true by decide +kernel)
  have hsent : Sent ⟨"10.0.0.1".toList, []⟩ s :=
    inv_exec (I := Sent _) (fun _ _ _ h hstep => h.step hstep) Sent.start hs
  exact not_keySent rfl hsent hone
    (hall (fun _ => some "ssh-ed25519 K".toList) _ _ oneRegistration s rfl (by decide +kernel) hs)

/-- A file of the right size. -/
def key₄₁₅ : Str := List.replicate 415 'k'

def files₄₁₅ : Files := fun _ => some key₄₁₅

theorem keySent_oneRegistration : ∃ s : Logged Unit,
    exec (Logged.step ⟨"10.0.0.1".toList, key₄₁₅⟩) ⟨Server.start, []⟩ oneRegistration = some s ∧
      s.srv.clients ≠ [] ∧
      Always (Logged.step ⟨"10.0.0.1".toList, key₄₁₅⟩) (KeySent key₄₁₅) ⟨Server.start, []⟩
        oneRegistration := by
  obtain ⟨s, hs, hone⟩ := exists_exec_of_any (P := fun s : Logged Unit => s.srv.clients ≠ [])
    (show (exec (Logged.step ⟨"10.0.0.1".toList, key₄₁₅⟩) ⟨Server.start, []⟩ oneRegistration).any _
        = true by decide +kernel)
  have hfile : files₄₁₅ publicKeyPath = some key₄₁₅ := by rw [files₄₁₅]
  have hinit : Config.init "10.0.0.1".toList files₄₁₅ = some ⟨"10.0.0.1".toList, key₄₁₅⟩ := by
    decide +kernel
  have hsize : key₄₁₅.length = publicKeySize := by decide +kernel
  exact ⟨s, hs, hone, (keySent_iff hfile hinit hs).mpr (Or.inl hsize)⟩

end BupApp.PublicKey
