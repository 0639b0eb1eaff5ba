/-
# BupApp.Client.SetUp -- a client that starts to work without having been set up

Each step of `init` catches its own exceptions and the next step runs all the same.  The registration
is published before `start_consuming` is called, so a publish that throws leaves `consume_message`
without its queue; and a null before the key ends the wait for it as the key would.  The theorem says
which outcomes and which messages let `init` keep its promise, and these are the only two ways to
break it: a connect or a subscribe that fails does no harm to it.
-/
import BupApp.App.Client

namespace BupApp.SetUp

open BupApp.Lib.Text

variable {τ : Type} {privateChnl user : Str}

/-! ## What a client does before it works -/

/-- `consume_message` is called only behind a `start_consuming` that has succeeded, and where `init`
returns, the value it took last was a key and was handed to `handlePubKeyMsg`. -/
structure SetUpFirst (privateChnl user : Str) (values : List (Option (Message τ)))
    (r : ClientRun τ) : Prop where
  consuming : ∀ pre post, r.calls = pre ++ .consumeMessage :: post →
    Call.startConsuming true ∈ pre
  key : r.reached = .returned → ∃ got m, values = got ++ some m :: r.rest ∧
    acceptsKey privateChnl m = true ∧ Call.handlePubKeyMsg m.payload user ∈ r.calls

/-- In front of each null there is a key. -/
def KeyBeforeNull (privateChnl : Str) (values : List (Option (Message τ))) : Prop :=
  ∀ pre post, values = pre ++ none :: post → ∃ m, some m ∈ pre ∧ acceptsKey privateChnl m = true

/-! ## The wait for the key -/

/-- The wait starts with a call of `consume_message`. -/
theorem exists_getPublicKeyMsg_calls (privateChnl user : Str)
    (values : List (Option (Message τ))) :
    ∃ later, (getPublicKeyMsg privateChnl user values).calls = .consumeMessage :: later := by
  cases values with
  | nil => exact ⟨[], rfl⟩
  | cons v rest =>
      cases v with
      | none => exact ⟨[], rfl⟩
      | some m =>
          cases h : acceptsKey privateChnl m with
          | true => exact ⟨_, by rw [getPublicKeyMsg_key h]⟩
          | false => exact ⟨_, by rw [getPublicKeyMsg_other h]⟩

theorem KeyBeforeNull.tail {m : Message τ} {rest : List (Option (Message τ))}
    (h : KeyBeforeNull privateChnl (some m :: rest)) (hother : acceptsKey privateChnl m = false) :
    KeyBeforeNull privateChnl rest := by
  rintro pre post rfl
  obtain ⟨k, hmem, hk⟩ := h (some m :: pre) post rfl
  rcases List.mem_cons.mp hmem with heq | hmem
  · obtain rfl := Option.some.inj heq
    rw [hother] at hk
    cases hk
  · exact ⟨k, hmem, hk⟩

/-- A wait that ends has ended with a key, if there is a key before each null. -/
theorem getPublicKeyMsg_returned {values : List (Option (Message τ))}
    (h : KeyBeforeNull privateChnl values)
    (hreturned : (getPublicKeyMsg privateChnl user values).reached = .returned) :
    ∃ got m, values = got ++ some m :: (getPublicKeyMsg privateChnl user values).rest ∧
      acceptsKey privateChnl m = true ∧
      Call.handlePubKeyMsg m.payload user ∈ (getPublicKeyMsg privateChnl user values).calls := by
  induction values with
  | nil => cases hreturned
  | cons v rest ih =>
      cases v with
      | none =>
          obtain ⟨m, hm, -⟩ := h [] rest rfl
          cases hm
      | some m =>
          cases hm : acceptsKey privateChnl m with
          | true =>
              rw [getPublicKeyMsg_key hm]
              exact ⟨[], m, rfl, hm, by simp⟩
          | false =>
              rw [getPublicKeyMsg_other hm] at hreturned ⊢
              obtain ⟨got, k, hvalues, hk, hcall⟩ := ih (h.tail hm) hreturned
              refine ⟨some m :: got, k, ?_, hk, List.mem_cons_of_mem _ hcall⟩
              rw [List.cons_append, ← hvalues]

/-- A null with no key in front of it ends the wait, and nothing is installed. -/
theorem getPublicKeyMsg_null (user : Str) {pre : List (Option (Message τ))}
    (h : ∀ m, some m ∈ pre → acceptsKey privateChnl m = false) (post : List (Option (Message τ))) :
    (getPublicKeyMsg privateChnl user (pre ++ none :: post)).reached = .returned ∧
      ∀ c ∈ (getPublicKeyMsg privateChnl user (pre ++ none :: post)).calls,
        c = .consumeMessage := by
  induction pre with
  | nil => exact ⟨rfl, by simp [getPublicKeyMsg]⟩
  | cons v pre ih =>
      cases v with
      | none => exact ⟨rfl, by simp [getPublicKeyMsg]⟩
      | some m =>
          have hother : acceptsKey privateChnl m = false := h m (by simp)
          obtain ⟨hreached, hcalls⟩ := ih fun k hk => h k (List.mem_cons_of_mem _ hk)
          rw [List.cons_append, getPublicKeyMsg_other hother]
          exact ⟨hreached, List.forall_mem_cons.mpr ⟨rfl, hcalls⟩⟩

/-! ## The steps before it -/

variable {o : Outcomes} {m_subscribeMsg : Str} {m_clientInfo : Client}

/-- The calls of `connectToServer` and `clientSetups`. -/
def setups (o : Outcomes) (privateChnl m_subscribeMsg : Str) (m_clientInfo : Client) : List Call :=
  connectToServer o ++ clientSetups o privateChnl m_subscribeMsg m_clientInfo

theorem startConsuming_mem_setups (o : Outcomes) (privateChnl m_subscribeMsg : Str)
    (m_clientInfo : Client) :
    Call.startConsuming true ∈ setups o privateChnl m_subscribeMsg m_clientInfo ↔
      o.publish = true ∧ o.startConsuming = true := by
  unfold setups connectToServer clientSetups
  cases o.publish <;> cases o.startConsuming <;> simp

theorem consumeMessage_not_mem_setups :
    Call.consumeMessage ∉ setups o privateChnl m_subscribeMsg m_clientInfo := by
  unfold setups connectToServer clientSetups
  cases o.publish <;> cases o.startConsuming <;> simp

theorem handlePubKeyMsg_not_mem_setups (msg : Str) :
    Call.handlePubKeyMsg msg user ∉ setups o privateChnl m_subscribeMsg m_clientInfo := by
  unfold setups connectToServer clientSetups
  cases o.publish <;> cases o.startConsuming <;> simp

theorem appClientInit_of_queue (h : o.queue = true) (values : List (Option (Message τ))) :
    appClientInit o privateChnl m_subscribeMsg m_clientInfo values =
      { getPublicKeyMsg privateChnl m_clientInfo.user values with
        calls := setups o privateChnl m_subscribeMsg m_clientInfo ++
          (getPublicKeyMsg privateChnl m_clientInfo.user values).calls } := by
  rw [appClientInit, if_pos h, setups]

theorem appClientInit_of_no_queue (h : o.queue = false) (values : List (Option (Message τ))) :
    appClientInit o privateChnl m_subscribeMsg m_clientInfo values =
      ⟨setups o privateChnl m_subscribeMsg m_clientInfo ++ [.consumeMessage], values,
        .crashed⟩ := by
  rw [appClientInit, if_neg (by simp [h]), setups]

/-- After the set-up steps comes the first call of `consume_message`, queue or not. -/
theorem exists_appClientInit_calls (o : Outcomes) (privateChnl m_subscribeMsg : Str)
    (m_clientInfo : Client) (values : List (Option (Message τ))) :
    ∃ later, (appClientInit o privateChnl m_subscribeMsg m_clientInfo values).calls =
      setups o privateChnl m_subscribeMsg m_clientInfo ++ .consumeMessage :: later := by
  cases h : o.queue with
  | false => exact ⟨[], by rw [appClientInit_of_no_queue h]⟩
  | true =>
      obtain ⟨later, hlater⟩ := exists_getPublicKeyMsg_calls privateChnl m_clientInfo.user values
      exact ⟨later, by rw [appClientInit_of_queue h, hlater]⟩

/-! ## When a client is set up first -/

theorem prefix_of_append_cons {α : Type*} {as bs pre post : List α} {x : α}
    (h : as ++ bs = pre ++ x :: post) (hx : x ∉ as) : as <+: pre := by
  rcases List.append_eq_append_iff.mp h with ⟨ds, rfl, -⟩ | ⟨ds, rfl, hds⟩
  · exact List.prefix_append as ds
  · cases ds with
    | nil => simp
    | cons d ds =>
        obtain ⟨rfl, -⟩ := List.cons.inj hds
        exact absurd (by simp) hx

/-- `consume_message` waits for `start_consuming` exactly when the registration was published and
`start_consuming` succeeds. -/
theorem consuming_iff (values : List (Option (Message τ))) :
    (∀ pre post, (appClientInit o privateChnl m_subscribeMsg m_clientInfo values).calls =
      pre ++ .consumeMessage :: post → Call.startConsuming true ∈ pre) ↔
      o.publish = true ∧ o.startConsuming = true := by
  obtain ⟨later, hlater⟩ :=
    exists_appClientInit_calls o privateChnl m_subscribeMsg m_clientInfo values
  rw [hlater, ← startConsuming_mem_setups o privateChnl m_subscribeMsg m_clientInfo]
  constructor
  · intro h
    exact h _ later rfl
  · intro hmem pre post hcalls
    exact (prefix_of_append_cons hcalls consumeMessage_not_mem_setups).subset hmem

theorem key_of_keyBeforeNull (hqueue : o.queue = true) {values : List (Option (Message τ))}
    (h : KeyBeforeNull privateChnl values) :
    let r := appClientInit o privateChnl m_subscribeMsg m_clientInfo values
    r.reached = .returned → ∃ got m, values = got ++ some m :: r.rest ∧
      acceptsKey privateChnl m = true ∧
      Call.handlePubKeyMsg m.payload m_clientInfo.user ∈ r.calls := by
  rw [appClientInit_of_queue hqueue]
  intro r hreturned
  obtain ⟨got, m, hvalues, hm, hcall⟩ := getPublicKeyMsg_returned h hreturned
  exact ⟨got, m, hvalues, hm, List.mem_append_right _ hcall⟩

theorem keyBeforeNull_of_key (hqueue : o.queue = true) {values : List (Option (Message τ))}
    (h : SetUpFirst privateChnl m_clientInfo.user values
      (appClientInit o privateChnl m_subscribeMsg m_clientInfo values)) :
    KeyBeforeNull privateChnl values := by
  rintro pre post rfl
  by_contra hno
  have hother : ∀ m, some m ∈ pre → acceptsKey privateChnl m = false := by
    intro m hm
    rw [← Bool.not_eq_true]
    exact fun hk => hno ⟨m, hm, hk⟩
  obtain ⟨hreached, hcalls⟩ := getPublicKeyMsg_null m_clientInfo.user hother post
  have hkey := h.key
  rw [appClientInit_of_queue hqueue] at hkey
  obtain ⟨-, m, -, -, hcall⟩ := hkey hreached
  rcases List.mem_append.mp hcall with hsetups | hwait
  · exact handlePubKeyMsg_not_mem_setups _ hsetups
  · cases hcalls _ hwait

/-- **A client is set up before it works exactly when its registration is published,
`start_consuming` succeeds and no null is in front of the key.** -/
theorem setUpFirst_iff (o : Outcomes) (privateChnl m_subscribeMsg : Str) (m_clientInfo : Client)
    (values : List (Option (Message τ))) :
    SetUpFirst privateChnl m_clientInfo.user values
        (appClientInit o privateChnl m_subscribeMsg m_clientInfo values) ↔
      o.publish = true ∧ o.startConsuming = true ∧ KeyBeforeNull privateChnl values := by
  have hqueue : o.publish = true ∧ o.startConsuming = true → o.queue = true := by
    simp +contextual [Outcomes.queue, Outcomes.startConsuming]
  constructor
  · intro h
    have hstart := (consuming_iff values).mp h.consuming
    exact ⟨hstart.1, hstart.2, keyBeforeNull_of_key (hqueue hstart) h⟩
  · rintro ⟨hpublish, hstart, hnull⟩
    exact ⟨(consuming_iff values).mpr ⟨hpublish, hstart⟩,
      key_of_keyBeforeNull (hqueue ⟨hpublish, hstart⟩) hnull⟩

/-- The user of the two runs below. -/
def user₁ : Client := ⟨"10.0.0.2".toList, "ann".toList, [], []⟩

/-- A publish that throws, and a null in place of the key: each of them alone is enough. -/
theorem not_setUpFirst :
    (¬ SetUpFirst "10.0.0.2".toList user₁.user ([] : List (Option (Message Unit)))
      (appClientInit ⟨true, false, true, true, true⟩ "10.0.0.2".toList "10.0.0.2 ann".toList
        user₁ [])) ∧
    ¬ SetUpFirst "10.0.0.2".toList user₁.user [(none : Option (Message Unit))]
      (appClientInit ⟨true, true, true, true, true⟩ "10.0.0.2".toList "10.0.0.2 ann".toList
        user₁ [none]) := by
  constructor
  · intro h
    cases ((consuming_iff []).mp h.consuming).1
  · intro h
    obtain ⟨m, hm, -⟩ := keyBeforeNull_of_key rfl h [] [] rfl
    cases hm

end BupApp.SetUp
