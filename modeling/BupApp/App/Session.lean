/-
# BupApp.App.Session -- the server and its connection to the broker

A connection can be lost, and `working` learns of it by a null message.  `checkReconnect` then tries
to reconnect and subscribes to the public channel again.  The connection uses clean start: a new one
has no subscriptions.  The state of a `Session` is the server of `BupApp.App.Server`, the topics its
current connection is subscribed to and the will in its connect options.  The C library gets both by
`c_str()`, so that a topic ends at its first NUL.
-/
import BupApp.App.ServerRuns

namespace BupApp

open BupApp.Lib.Text BupApp.Lib.Transition

variable {τ : Type} {cfg : Config}

/-- The private channel of an entry, as the C library gets it (async_client.cpp 612). -/
def Client.channel (c : Client) : Str := cStr c.ip

/-- The public channel's name has no NUL. -/
theorem cStr_subscibersList : cStr subscibersList = subscibersList := by decide

theorem Client.channel_eq_ip {c : Client} (h : '\x00' ∉ c.ip) : c.channel = c.ip := cStr_eq_self h

/-! ## Reconnecting -/

namespace Server

/-- `N_ATTEMPT` (_appServer.cpp 287). -/
def nAttempt : Nat := 30

/-- The loop of `tryReconnect` from attempt `i` on, with `n` attempts left: `connected i` is the
answer of `is_connected` before it, `throws i` says whether its `reconnect` throws. -/
def tryReconnectFrom (connected throws : Nat → Bool) : Nat → Nat → Bool
  | 0, _ => false
  | n + 1, i =>
      if connected i then false
      else if throws i then tryReconnectFrom connected throws n (i + 1)
      else true

/-- `tryReconnect` (_appServer.cpp 285-303). -/
def tryReconnect (connected throws : Nat → Bool) : Bool :=
  tryReconnectFrom connected throws nAttempt 0

/-- What the library answers in `checkReconnect`: to the first `is_connected`, to those of
`tryReconnect` and its attempts, and whether the subscription to the public channel completes. -/
structure Answers where
  isConnected : Bool
  connected : Nat → Bool
  throws : Nat → Bool
  subscribed : Bool

/-- `checkReconnect` (_appServer.cpp 117-139); nothing catches an exception of the subscription. -/
def checkReconnect (a : Answers) : Reconnect :=
  if a.isConnected then .failed
  else if tryReconnect a.connected a.throws then
    if a.subscribed then .reconnected else .threw
  else .failed

theorem tryReconnectFrom_iff {connected throws : Nat → Bool} {n i : Nat} :
    tryReconnectFrom connected throws n i = true ↔ ∃ k < n, throws (i + k) = false ∧
      (∀ j ≤ k, connected (i + j) = false) ∧ ∀ j < k, throws (i + j) = true := by
  induction n generalizing i with
  | zero => simp [tryReconnectFrom]
  | succ n ih =>
      have hshift : ∀ (f : Nat → Bool) (j : Nat), f (i + 1 + j) = f (i + (j + 1)) :=
        fun f j => congrArg f (by omega)
      unfold tryReconnectFrom
      cases hc : connected i with
      | true =>
          refine ⟨by simp, ?_⟩
          rintro ⟨k, -, -, hconn, -⟩
          exact absurd ((hconn 0 (Nat.zero_le k)).symm.trans hc) (by simp)
      | false =>
          cases ht : throws i with
          | true =>
              -- the attempt throws: it is one of those before the attempt that succeeds
              simp only [Bool.false_eq_true, if_false, if_true, ih, hshift]
              constructor
              · rintro ⟨k, hk, hthrow, hconn, hbefore⟩
                refine ⟨k + 1, by omega, hthrow, ?_, ?_⟩
                · rintro (_ | j) hj
                  · exact hc
                  · exact hconn j (by omega)
                · rintro (_ | j) hj
                  · exact ht
                  · exact hbefore j (by omega)
              · rintro ⟨_ | k, hk, hthrow, hconn, hbefore⟩
                · exact absurd (hthrow.symm.trans ht) (by simp)
                · exact ⟨k, by omega, hthrow, fun j hj => hconn (j + 1) (by omega),
                    fun j hj => hbefore (j + 1) (by omega)⟩
          | false =>
              simp only [Bool.false_eq_true, if_false, true_iff]
              refine ⟨0, by omega, ht, ?_, by simp⟩
              intro j hj
              obtain rfl : j = 0 := by omega
              exact hc

/-- `tryReconnect` returns true when one of the thirty attempts does not throw before the connection
is found to be up. -/
theorem tryReconnect_iff {connected throws : Nat → Bool} :
    tryReconnect connected throws = true ↔ ∃ k < nAttempt, throws k = false ∧
      (∀ j ≤ k, connected j = false) ∧ ∀ j < k, throws j = true := by
  rw [tryReconnect, tryReconnectFrom_iff]
  simp only [Nat.zero_add]

/-- The connection is down, an attempt to reconnect does not throw before the connection is found to
be up, and the subscription to the public channel completes. -/
def Answers.Reconnects (a : Answers) : Prop :=
  a.isConnected = false ∧ a.subscribed = true ∧
    ∃ k < nAttempt, a.throws k = false ∧ (∀ j ≤ k, a.connected j = false) ∧
      ∀ j < k, a.throws j = true

theorem checkReconnect_eq_reconnected_iff {a : Answers} :
    checkReconnect a = .reconnected ↔ a.Reconnects := by
  rw [Answers.Reconnects, ← tryReconnect_iff]
  unfold checkReconnect
  cases a.isConnected <;> cases tryReconnect a.connected a.throws <;> cases a.subscribed <;> simp

instance (a : Answers) : Decidable a.Reconnects :=
  decidable_of_iff (checkReconnect a = .reconnected) checkReconnect_eq_reconnected_iff

/-! ## Subscriptions and entries -/

/-- The entry whose channel the loop has subscribed to and that is not stored yet. -/
def subscribedFor? : LoopPc → Option Client
  | .sendingKey c => some c
  | .storing c => some c
  | _ => none

/-- The loop gets past the subscription for an entry by subscribing to its channel. -/
theorem subscribedFor_of_acts {s s' : Server τ} {l : Label τ} {es : List Effect}
    (h : Acts cfg s l s' es) {c : Client} (hc : subscribedFor? s'.loop = some c) :
    subscribedFor? s.loop = some c ∨ .subscribe c.ip ∈ es := by
  cases h with
  | subscribed hl =>
      obtain rfl := Option.some.inj hc
      exact Or.inr (List.mem_singleton_self _)
  | keySent hl =>
      rw [hl]
      exact Or.inl hc
  | nullThrew | handler | crashes => exact Or.inl hc
  | _ => cases hc

/-- The subscriptions of the server: the public channel after a reconnect, and the channel of the
entry the loop works on. -/
theorem subscribe_of_acts {s s' : Server τ} {l : Label τ} {es : List Effect}
    (h : Acts cfg s l s' es) {t : Str} (ht : .subscribe t ∈ es) :
    (l = .consumeNull .reconnected ∧ t = subscibersList) ∨
      ∃ c, subscribedFor? s'.loop = some c ∧ c.ip = t := by
  cases h with
  | nullReconnected hl =>
      simp only [List.mem_singleton, Effect.subscribe.injEq] at ht
      exact Or.inl ⟨rfl, ht⟩
  | @subscribed c hl =>
      simp only [List.mem_singleton, Effect.subscribe.injEq] at ht
      exact Or.inr ⟨c, rfl, ht.symm⟩
  | handler hk hmove => cases hmove <;> simp at ht
  | _ => simp at ht

/-- After its subscription an entry is stored, unless the publish of the key throws. -/
theorem leaves_subscribedFor {s s' : Server τ} {l : Label τ} {es : List Effect}
    (h : Acts cfg s l s' es) {c : Client} (hc : subscribedFor? s.loop = some c) :
    subscribedFor? s'.loop = some c ∨ (∃ d ∈ s'.clients, d.ip = c.ip) ∨
      (l = .publishKey false ∧ s.loop = .sendingKey c) := by
  cases h with
  | keySent hl =>
      rw [hl] at hc
      exact Or.inl hc
  | keyThrew hl =>
      rw [hl] at hc
      obtain rfl := Option.some.inj hc
      exact Or.inr (Or.inr ⟨rfl, hl⟩)
  | @stored d hl =>
      rw [hl] at hc
      obtain rfl := Option.some.inj hc
      exact Or.inr (Or.inl ⟨_, List.mem_append_right _ (List.mem_singleton_self _), rfl⟩)
  | nullThrew | handler | crashes => exact Or.inl hc
  | consume hl | nullReconnected hl | nullFailed hl | register hl | spawn hl | ignore hl
  | subscribed hl | subscribeThrew hl =>
      rw [hl] at hc
      cases hc

end Server

/-! ## The session -/

/-- What is known of the connection: `restored` when `checkReconnect` has returned true since it was
lost. -/
inductive Link where
  | fresh | lost | restored
  deriving DecidableEq, Repr

/-- While the connection is up `checkReconnect` finds it so and returns false; while it is lost no
subscription completes. -/
def Link.allows : Link → Server.Label τ → Bool
  | .lost, .subscribe ok => !ok
  | .lost, _ => true
  | _, .consumeNull r => r = .failed
  | _, _ => true

/-- The server, its connection, what the connection is subscribed to and the topic of the will in
the connect options. -/
structure Session (τ : Type) where
  srv : Server τ
  link : Link
  subs : List Str
  will : Option Str
  deriving DecidableEq, Repr

inductive SessionLabel (τ : Type) where
  | lose
  | server (l : Server.Label τ)
  deriving DecidableEq, Repr

namespace Session

/-- The state in which `working` is entered; `setUp` says whether `serverSetups` has subscribed to
the public channel (it goes on when that throws). -/
def start (setUp : Bool) : Session τ :=
  ⟨Server.start, .fresh, if setUp then [subscibersList] else [], none⟩

def effect (s : Session τ) : Effect → Session τ
  | .setWill topic => { s with will := some (cStr topic) }
  | .subscribe topic => { s with subs := s.subs ++ [cStr topic] }
  | _ => s

/-- The server moves to `p.1` with the effects `p.2`. -/
def move (s : Session τ) (p : Server τ × List Effect) : Session τ :=
  p.2.foldl effect { s with srv := p.1 }

/-- A connection that `checkReconnect` has made is a new one. -/
def renew (s : Session τ) : Server.Label τ → Session τ
  | .consumeNull .reconnected => { s with link := .restored, subs := [] }
  | _ => s

def step (cfg : Config) (s : Session τ) : SessionLabel τ → Option (Session τ)
  | .lose => if s.link = .lost then none else some { s with link := .lost }
  | .server l =>
      if s.link.allows l then (s.srv.act cfg l).map (s.renew l).move else none

theorem step_lose {s s' : Session τ} (h : step cfg s .lose = some s') :
    s' = { s with link := .lost } := by
  simp only [step, Option.ite_none_left_eq_some] at h
  exact (Option.some.inj h.2).symm

/-- A step of the server process within the session. -/
theorem step_server {s s' : Session τ} {l : Server.Label τ}
    (h : step cfg s (.server l) = some s') : ∃ srv' es, s.srv.crashed = none ∧
      Server.Acts cfg s.srv l srv' es ∧ s.link.allows l = true ∧
      s' = (s.renew l).move (srv', es) := by
  simp only [step, Option.ite_none_right_eq_some] at h
  obtain ⟨hallows, h⟩ := h
  obtain ⟨⟨srv', es⟩, hact, rfl⟩ := Option.map_eq_some_iff.mp h
  exact ⟨srv', es, Server.act_alive hact, Server.act_acts hact, hallows, rfl⟩

/-- The topic of a completed subscription. -/
def subscribed? : Effect → Option Str
  | .subscribe topic => some (cStr topic)
  | _ => none

theorem foldl_effect (es : List Effect) (s : Session τ) :
    (es.foldl effect s).srv = s.srv ∧ (es.foldl effect s).link = s.link ∧
      (es.foldl effect s).subs = s.subs ++ es.filterMap subscribed? := by
  induction es generalizing s with
  | nil => simp
  | cons e es ih =>
      obtain ⟨hsrv, hlink, hsubs⟩ := ih (s.effect e)
      rw [List.foldl_cons, hsrv, hlink, hsubs]
      cases e <;> simp [effect, subscribed?, List.filterMap_cons]

@[simp] theorem move_srv (s : Session τ) (p : Server τ × List Effect) : (s.move p).srv = p.1 :=
  (foldl_effect p.2 _).1

@[simp] theorem move_link (s : Session τ) (p : Server τ × List Effect) :
    (s.move p).link = s.link :=
  (foldl_effect p.2 _).2.1

theorem move_subs (s : Session τ) (p : Server τ × List Effect) :
    (s.move p).subs = s.subs ++ p.2.filterMap subscribed? :=
  (foldl_effect p.2 _).2.2

theorem renew_of_ne {s : Session τ} {l : Server.Label τ} (h : l ≠ .consumeNull .reconnected) :
    s.renew l = s := by
  unfold renew
  split
  · exact absurd rfl h
  · rfl

end Session

end BupApp
