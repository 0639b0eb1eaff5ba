/-
# BupApp.Server.Reconnection -- which clients are served after a reconnect?

A new connection starts clean, and `checkReconnect` subscribes to the public channel only; the
private channels of the registered clients are a TODO of the source.  Between two losses the session
and the registry grow together, each entry after its subscription.  So the session serves the whole
registry exactly when no reconnect finds an entry in it, provided `serverSetups` got its
subscription.

As the program is wired, `connectToServer`'s handler ends the process when the connection is lost,
before a null message is there (`LibNet.server_exits`); this is about the loop by itself.
-/
import BupApp.App.Session

namespace BupApp.Reconnection

open BupApp.Lib.Ipv4 BupApp.Lib.Transition Server Session

variable {τ : Type} {cfg : Config}

/-! ## The property and its condition -/

/-- The connection is subscribed to the public channel and to the channel of every entry. -/
def Serves (s : Session τ) : Prop :=
  subscibersList ∈ s.subs ∧ ∀ c ∈ s.srv.clients, c.channel ∈ s.subs

/-- Unless it is lost, the connection serves the registry. -/
def Served (s : Session τ) : Prop := s.link ≠ .lost → Serves s

instance (s : Session τ) : Decidable (Served s) :=
  inferInstanceAs (Decidable (_ → _ ∧ ∀ c ∈ s.srv.clients, _))

/-- A reconnect finds nobody registered. -/
def FindsNobody (s : Session τ) : SessionLabel τ → Prop
  | .server (.consumeNull .reconnected) => s.srv.clients = []
  | _ => True

instance (s : Session τ) : ∀ l, Decidable (FindsNobody s l)
  | .server (.consumeNull .reconnected) => inferInstanceAs (Decidable (s.srv.clients = []))
  | .lose | .server (.consumeNull .failed) | .server (.consumeNull .threw) | .server (.consume _)
  | .server .dispatch | .server (.subscribe _) | .server (.publishKey _) | .server .store
  | .server (.readTopic _) | .server (.readPayload _) | .server (.lookup _) | .server (.exec _ _)
  | .server (.reply _ _) => isTrue trivial

/-! ## The invariant -/

/-- What is kept while the connection is up. -/
structure Up (s : Session τ) : Prop where
  serves : Serves s
  pending : ∀ c, subscribedFor? s.srv.loop = some c → c.channel ∈ s.subs

structure Inv (s : Session τ) : Prop where
  registry : Registry s.srv
  up : s.link ≠ .lost → Up s

theorem inv_start : Inv (Session.start true : Session τ) where
  registry := Registry.start
  up _ := by
    refine ⟨⟨by simp [Session.start], ?_⟩, ?_⟩
    · simp [Session.start, Server.start]
    · simp [Session.start, Server.start, subscribedFor?]

/-- A step without a new connection. -/
theorem Up.acts {s : Session τ} (h : Up s) {l : Label τ} {srv' : Server τ} {es : List Effect}
    (hacts : Acts cfg s.srv l srv' es) : Up (s.move (srv', es)) := by
  have hmore : ∀ t ∈ s.subs, t ∈ (s.move (srv', es)).subs := by
    intro t ht
    rw [move_subs]
    exact List.mem_append_left _ ht
  refine ⟨⟨hmore _ h.serves.1, ?_⟩, ?_⟩
  · intro c hc
    rw [move_srv] at hc
    rcases mem_clients_of_acts hacts hc with hold | ⟨d, hd, hip⟩
    · exact hmore _ (h.serves.2 c hold)
    · rw [Client.channel, hip]
      exact hmore _ (h.pending d (by rw [hd]; rfl))
  · intro c hc
    rw [move_srv] at hc
    rcases subscribedFor_of_acts hacts hc with hold | hnew
    · exact hmore _ (h.pending c hold)
    · rw [move_subs]
      exact List.mem_append_right _ (List.mem_filterMap.mpr ⟨_, hnew, rfl⟩)

/-- **The step lemma.** -/
theorem Inv.step {s s' : Session τ} {l : SessionLabel τ} (h : Inv s) (hl : FindsNobody s l)
    (hs : Session.step cfg s l = some s') : Inv s' := by
  cases l with
  | lose =>
      obtain rfl := step_lose hs
      exact ⟨h.registry, fun hne => absurd rfl hne⟩
  | server l =>
      obtain ⟨srv', es, -, hacts, -, rfl⟩ := step_server hs
      refine ⟨by rw [move_srv]; exact h.registry.step hacts, fun hne => ?_⟩
      by_cases hnull : l = .consumeNull .reconnected
      · -- the new connection is subscribed to the public channel, and there is no entry
        subst hnull
        have hnone : s.srv.clients = [] := hl
        cases hacts with
        | nullReconnected hloop =>
            refine ⟨⟨by simp [move_subs, renew, subscribed?, cStr_subscibersList], ?_⟩, ?_⟩
            · simp [hnone]
            · simp [subscribedFor?]
        | handler hk hmove => cases hmove
        | crashes hc => cases hc
      · rw [renew_of_ne hnull] at hne ⊢
        rw [move_link] at hne
        exact (h.up hne).acts hacts

/-! ## The condition is exact -/

/-- After a reconnect with an entry in the registry nobody listens to the channel of that entry. -/
theorem not_served_of_reconnect {s s' : Session τ} (h : Inv s) (hne : s.srv.clients ≠ [])
    (hs : Session.step cfg s (.server (.consumeNull .reconnected)) = some s') : ¬ Served s' := by
  obtain ⟨srv', es, -, hacts, -, rfl⟩ := step_server hs
  cases hacts with
  | nullReconnected hloop =>
      intro hserved
      obtain ⟨-, hall⟩ := hserved (by simp [renew])
      obtain ⟨c, cs, hcs⟩ := List.exists_cons_of_ne_nil hne
      have hc : c ∈ s.srv.clients := by rw [hcs]; simp
      have hpublic : c.channel = subscibersList := by
        have hmem := hall c (by rw [move_srv]; exact hc)
        simpa [move_subs, renew, subscribed?, cStr_subscibersList] using hmem
      -- the public channel's name is not an address
      rcases (h.registry.entry c hc).2 with hnil | hip
      · rw [Client.channel, hnil] at hpublic
        exact absurd hpublic (by decide)
      · rw [isIP4, inetPton, ← Client.channel, hpublic] at hip
        exact absurd hip (by decide)
  | handler hk hmove => cases hmove
  | crashes hc => cases hc

/-- **Every registered client stays served exactly when `serverSetups` got its subscription and
every reconnect finds the registry empty.** -/
theorem served_iff_findsNobody {setUp : Bool} {s : Session τ} {ls : List (SessionLabel τ)}
    (hrun : exec (Session.step cfg) (Session.start setUp) ls = some s) :
    Always (Session.step cfg) Served (Session.start setUp) ls ↔
      setUp = true ∧ EachStep (Session.step cfg) FindsNobody (Session.start setUp) ls := by
  cases setUp with
  | false =>
      simp only [Bool.false_eq_true, false_and, iff_false]
      intro hserved
      obtain ⟨hpublic, -⟩ := hserved.head (by simp [Session.start])
      simp [Session.start] at hpublic
  | true =>
      rw [eq_self, true_and]
      refine always_iff_eachStep (fun s h hne => (h.up hne).serves)
        (fun s l s' h hl hs => h.step hl hs) ?_ inv_start hrun
      intro s l s' h hs hserved
      by_contra hfound
      cases l with
      | lose => exact hfound trivial
      | server l =>
          cases l with
          | consumeNull r =>
              cases r with
              | reconnected => exact not_served_of_reconnect h hfound hs hserved
              | failed => exact hfound trivial
              | threw => exact hfound trivial
          | _ => exact hfound trivial

/-! ## Runs -/

/-- A host registers. -/
def registration : Message Unit := registrationWith "10.0.0.2 ann"

/-- A host registers, the connection is lost and `checkReconnect` makes a new one. -/
def reconnectRun : List (SessionLabel Unit) :=
  [.server (.consume registration), .server .dispatch, .server (.subscribe true),
    .server (.publishKey true), .server .store, .lose, .server (.consumeNull .reconnected)]

/-- The new connection does not serve the registered host. -/
theorem registered_host_not_served :
    ¬ ∀ (cfg : Config) (ls : List (SessionLabel Unit)) (s : Session Unit),
      exec (Session.step cfg) (Session.start true) ls = some s → Served s := by
  intro hall
  obtain ⟨s, hs, hnot⟩ := exists_exec_of_any (P := fun s : Session Unit => ¬ Served s)
    (show (exec (Session.step lanCfg) (Session.start true) reconnectRun).any _ = true by
      decide +kernel)
  exact hnot (hall lanCfg reconnectRun s hs)

/-- The connection is lost and made anew before anybody registers. -/
def earlyLoss : List (SessionLabel Unit) := [.lose, .server (.consumeNull .reconnected)]

theorem earlyLoss_served : ∃ s : Session Unit,
    exec (Session.step lanCfg) (Session.start true) earlyLoss = some s ∧
      Always (Session.step lanCfg) Served (Session.start true) earlyLoss := by
  obtain ⟨s, hs, -⟩ := exists_exec_of_any (P := fun _ : Session Unit => True)
    (show (exec (Session.step lanCfg) (Session.start true) earlyLoss).any _ = true by
      decide +kernel)
  exact ⟨s, hs, (served_iff_findsNobody hs).mpr ⟨rfl, by decide +kernel⟩⟩

end BupApp.Reconnection
