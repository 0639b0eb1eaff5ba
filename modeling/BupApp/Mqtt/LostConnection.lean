/-
# BupApp.Mqtt.LostConnection -- who hears of a connection that is lost

The client object hears of a lost connection through a callback that the C library has of it, and
passes it on: to the handler that was set, which in the server ends the process, and then, as a null,
to whoever takes from the queue.  `start_consuming` takes the callbacks away while it makes a new
queue.  Both programs set themselves up by a sequence of calls of which each may throw, and a
connection may be lost between any two of them.

A process that waits for messages without a connection and without a null to come waits for ever.
-/
import BupApp.Lib.Transition

namespace BupApp.LostConnection

open BupApp.Lib.Transition

/-! ## Setting up -/

/-- The calls of the client object before the first `consume_message`. -/
inductive SetUpCall where
  | setConnectionLostHandler
  | connect
  | publish
  | subscribe
  | startConsuming
  deriving DecidableEq

/-- What an exception of a call does: it ends the process, or the calls go on behind the `try`
block of this one call, or behind that of all the calls that follow. -/
inductive Catch where
  | nowhere
  | goOn
  | leave
  deriving DecidableEq

abbrev Program := List (SetUpCall × Catch)

/-- The calls that are still made when the one before `rest` has thrown. -/
def Catch.after (rest : Program) : Catch → Program
  | .goOn => rest
  | .nowhere | .leave => []

/-- `connectToServer` (_appServer.cpp 35-57), `serverSetups` (59-80) and the start of `working`
(82-85). -/
def server : Program :=
  [(.setConnectionLostHandler, .nowhere), (.connect, .goOn), (.subscribe, .goOn),
    (.startConsuming, .nowhere)]

/-- `connectToServer` (_appClient.cpp 56-74) and `clientSetups` (76-101). -/
def client : Program :=
  [(.connect, .goOn), (.publish, .leave), (.startConsuming, .leave), (.subscribe, .leave)]

/-- The C library's arrival callback: none yet, the empty function of `disable_callbacks`, or
`on_message_arrived`. -/
inductive ArrivedCallback where
  | none
  | ignore
  | onMessageArrived
  deriving DecidableEq

/-- `rest` are the calls still to make; `disabled` says that the first of them is a
`start_consuming` between its two calls of the C library.  `lostCallback` says that the C library has
`on_connection_lost`.  `taken` is what `consume_message` has returned, and `ignored` what the empty
function was given. -/
structure Session (μ : Type*) where
  rest : Program
  disabled : Bool
  connLostHandler : Bool
  lostCallback : Bool
  arrivedCallback : ArrivedCallback
  que : Option (List (Option μ))
  connected : Bool
  ended : Bool
  taken : List (Option μ)
  ignored : List μ
  deriving DecidableEq

/-- `ok` is false where the call, or its wait, throws. -/
inductive SessionLabel (μ : Type*) where
  | call (ok : Bool)
  | setCallbacks (ok : Bool)
  | lose
  | arrive (m : μ)
  | take
  deriving DecidableEq

namespace Session

variable {μ : Type*}

def init (p : Program) : Session μ where
  rest := p
  disabled := false
  connLostHandler := false
  lostCallback := false
  arrivedCallback := .none
  que := none
  connected := false
  ended := false
  taken := []
  ignored := []

/-- The first of the calls has thrown, `rest` being the others. -/
def throws (s : Session μ) (k : Catch) (rest : Program) : Session μ :=
  { s with rest := k.after rest, ended := k = .nowhere }

/-- `set_connection_lost_handler` sets the handler before it asks the C library, `publish`
and `subscribe` throw without a connection, and `start_consuming` begins with
`disable_callbacks`. -/
def call (s : Session μ) (c : SetUpCall × Catch) (rest : Program) (ok : Bool) :
    Option (Session μ) :=
  match c.1, ok with
  | .setConnectionLostHandler, true =>
      some { s with connLostHandler := true, lostCallback := true, rest := rest }
  | .setConnectionLostHandler, false => some ({ s with connLostHandler := true }.throws c.2 rest)
  | .connect, true => some { s with connected := true, rest := rest }
  | .publish, true | .subscribe, true =>
      if s.connected then some { s with rest := rest } else none
  | .startConsuming, true =>
      some { s with lostCallback := false, arrivedCallback := .ignore, disabled := true }
  | .connect, false | .publish, false | .subscribe, false | .startConsuming, false =>
      some (s.throws c.2 rest)

/-- The rest of `start_consuming`: a new queue, and the callbacks again. -/
def setCallbacks (s : Session μ) (c : SetUpCall × Catch) (rest : Program) (ok : Bool) :
    Session μ :=
  let s := { s with que := some [], disabled := false }
  if ok then
    { s with lostCallback := true, arrivedCallback := .onMessageArrived, rest := rest }
  else s.throws c.2 rest

/-- The connection is lost; the C library calls `on_connection_lost` if it has it.  The server's
handler is `exit`. -/
def lose (s : Session μ) : Session μ :=
  let s := { s with connected := false }
  if s.lostCallback then
    if s.connLostHandler then { s with ended := true }
    else { s with que := s.que.map (· ++ [none]) }
  else s

/-- A message that arrives while there is no callback stays in the C library. -/
def arrive (s : Session μ) (m : μ) : Option (Session μ) :=
  match s.arrivedCallback with
  | .none => none
  | .ignore => some { s with ignored := s.ignored ++ [m] }
  | .onMessageArrived => some { s with que := s.que.map (· ++ [some m]) }

/-- `consume_message`. -/
def take (s : Session μ) : Option (Session μ) :=
  match s.que with
  | some (v :: que) => some { s with que := some que, taken := s.taken ++ [v] }
  | _ => none

def step (s : Session μ) : SessionLabel μ → Option (Session μ)
  | .call ok =>
      match s.ended, s.disabled, s.rest with
      | false, false, c :: rest => s.call c rest ok
      | _, _, _ => none
  | .setCallbacks ok =>
      match s.ended, s.disabled, s.rest with
      | false, true, c :: rest => some (s.setCallbacks c rest ok)
      | _, _, _ => none
  | .lose => if s.ended = false ∧ s.connected = true then some s.lose else none
  | .arrive m => if s.ended = false ∧ s.connected = true then s.arrive m else none
  | .take => if s.ended = false ∧ s.rest = [] then s.take else none

/-- What has come out of the queue, and what is in it. -/
def received (s : Session μ) : List (Option μ) := s.taken ++ s.que.getD []

/-- The attempt to connect fails, or the connection is lost and the C library has nobody to tell. -/
def Misses (s : Session μ) : SessionLabel μ → Prop
  | .call false => ∃ k rest, s.rest = (.connect, k) :: rest
  | .lose => s.lostCallback = false
  | _ => False

/-- Everything is set up, with a queue to take from. -/
structure Waits (s : Session μ) : Prop where
  rest : s.rest = []
  ended : s.ended = false
  que : s.que ≠ none

/-! ## The steps -/

/-- Everything a step can do. -/
inductive Moves (s : Session μ) : SessionLabel μ → Session μ → Prop
  | setHandler (k : Catch) (rest : Program) (hr : s.rest = (.setConnectionLostHandler, k) :: rest)
      (hd : s.disabled = false) :
      Moves s (.call true) { s with connLostHandler := true, lostCallback := true, rest := rest }
  | connected (k : Catch) (rest : Program) (hr : s.rest = (.connect, k) :: rest)
      (hd : s.disabled = false) :
      Moves s (.call true) { s with connected := true, rest := rest }
  | called (c : SetUpCall) (k : Catch) (rest : Program) (hr : s.rest = (c, k) :: rest)
      (hd : s.disabled = false) (hc : c = .publish ∨ c = .subscribe) (hconn : s.connected = true) :
      Moves s (.call true) { s with rest := rest }
  | disable (k : Catch) (rest : Program) (hr : s.rest = (.startConsuming, k) :: rest)
      (hd : s.disabled = false) :
      Moves s (.call true)
        { s with lostCallback := false, arrivedCallback := .ignore, disabled := true }
  | failed (c : SetUpCall) (k : Catch) (rest : Program) (hr : s.rest = (c, k) :: rest)
      (hd : s.disabled = false) (h : Bool) (hh : s.connLostHandler = true → h = true) :
      Moves s (.call false) ({ s with connLostHandler := h }.throws k rest)
  | enable (c : SetUpCall) (k : Catch) (rest : Program) (hr : s.rest = (c, k) :: rest)
      (hd : s.disabled = true) :
      Moves s (.setCallbacks true)
        { s with
          que := some [], disabled := false, lostCallback := true,
          arrivedCallback := .onMessageArrived, rest := rest }
  | notEnabled (c : SetUpCall) (k : Catch) (rest : Program) (hr : s.rest = (c, k) :: rest)
      (hd : s.disabled = true) :
      Moves s (.setCallbacks false)
        ({ s with que := some [], disabled := false }.throws k rest)
  | exit (hconn : s.connected = true) (hl : s.lostCallback = true)
      (hh : s.connLostHandler = true) :
      Moves s .lose { s with connected := false, ended := true }
  | null (hconn : s.connected = true) (hl : s.lostCallback = true)
      (hh : s.connLostHandler = false) :
      Moves s .lose { s with connected := false, que := s.que.map (· ++ [none]) }
  | unheard (hconn : s.connected = true) (hl : s.lostCallback = false) :
      Moves s .lose { s with connected := false }
  | ignored (m : μ) (hconn : s.connected = true) (ha : s.arrivedCallback = .ignore) :
      Moves s (.arrive m) { s with ignored := s.ignored ++ [m] }
  | arrived (m : μ) (hconn : s.connected = true) (ha : s.arrivedCallback = .onMessageArrived) :
      Moves s (.arrive m) { s with que := s.que.map (· ++ [some m]) }
  | take (v : Option μ) (que : List (Option μ)) (hr : s.rest = []) (hq : s.que = some (v :: que)) :
      Moves s .take { s with que := some que, taken := s.taken ++ [v] }

theorem call_moves {s s' : Session μ} {c : SetUpCall} {k : Catch} {rest : Program} {ok : Bool}
    (hr : s.rest = (c, k) :: rest) (hd : s.disabled = false)
    (h : s.call (c, k) rest ok = some s') : Moves s (.call ok) s' := by
  cases ok with
  | false =>
      have hfail : ∀ b, (s.connLostHandler = true → b = true) →
          some ({ s with connLostHandler := b }.throws k rest) = some s' →
          Moves s (.call false) s' := by
        intro b hb hs
        obtain rfl := Option.some.inj hs
        exact .failed c k rest hr hd b hb
      cases c with
      | setConnectionLostHandler => exact hfail true (fun _ => rfl) h
      | connect => exact hfail s.connLostHandler id h
      | publish => exact hfail s.connLostHandler id h
      | subscribe => exact hfail s.connLostHandler id h
      | startConsuming => exact hfail s.connLostHandler id h
  | true =>
      cases c with
      | setConnectionLostHandler =>
          obtain rfl := Option.some.inj h
          exact .setHandler k rest hr hd
      | connect =>
          obtain rfl := Option.some.inj h
          exact .connected k rest hr hd
      | publish =>
          simp only [call, Option.ite_none_right_eq_some] at h
          obtain ⟨hconn, h⟩ := h
          obtain rfl := Option.some.inj h
          exact .called _ k rest hr hd (Or.inl rfl) hconn
      | subscribe =>
          simp only [call, Option.ite_none_right_eq_some] at h
          obtain ⟨hconn, h⟩ := h
          obtain rfl := Option.some.inj h
          exact .called _ k rest hr hd (Or.inr rfl) hconn
      | startConsuming =>
          obtain rfl := Option.some.inj h
          exact .disable k rest hr hd

theorem step_moves {s s' : Session μ} {l : SessionLabel μ} (h : s.step l = some s') :
    Moves s l s' ∧ s.ended = false := by
  cases l with
  | call ok =>
      simp only [step] at h
      split at h
      · rename_i c rest hend hd hr
        exact ⟨call_moves hr hd h, hend⟩
      · cases h
  | setCallbacks ok =>
      simp only [step] at h
      split at h
      · rename_i c rest hend hd hr
        obtain rfl := Option.some.inj h
        cases ok with
        | true => exact ⟨.enable c.1 c.2 rest hr hd, hend⟩
        | false => exact ⟨.notEnabled c.1 c.2 rest hr hd, hend⟩
      · cases h
  | lose =>
      simp only [step, Option.ite_none_right_eq_some] at h
      obtain ⟨⟨hend, hconn⟩, h⟩ := h
      obtain rfl := Option.some.inj h
      refine ⟨?_, hend⟩
      unfold lose
      dsimp only
      split
      · rename_i hl
        split
        · exact .exit hconn hl ‹_›
        · exact .null hconn hl (by simpa using ‹¬ s.connLostHandler = true›)
      · exact .unheard hconn (by simpa using ‹¬ s.lostCallback = true›)
  | arrive m =>
      simp only [step, Option.ite_none_right_eq_some] at h
      obtain ⟨⟨hend, hconn⟩, h⟩ := h
      refine ⟨?_, hend⟩
      unfold arrive at h
      split at h
      · cases h
      · obtain rfl := Option.some.inj h
        exact .ignored m hconn ‹_›
      · obtain rfl := Option.some.inj h
        exact .arrived m hconn ‹_›
  | take =>
      simp only [step, Option.ite_none_right_eq_some] at h
      obtain ⟨⟨hend, hr⟩, h⟩ := h
      refine ⟨?_, hend⟩
      unfold take at h
      split at h
      · obtain rfl := Option.some.inj h
        exact .take _ _ hr ‹_›
      · cases h

/-! ## The programs -/

/-- Each call is made once, and a `try` block of several calls does not hold the connect. -/
def Proper : Program → Prop
  | [] => True
  | (c, k) :: rest =>
      c ∉ rest.map Prod.fst ∧ (k = .leave → .connect ∉ ((c, k) :: rest).map Prod.fst) ∧ Proper rest

theorem proper_of {p : Program} (hp : p = server ∨ p = client) : Proper p := by
  rcases hp with rfl | rfl
  · simp [Proper, server]
  · simp [Proper, client]

/-! ## What holds throughout -/

/-- The call is still to come. -/
def ToCome (s : Session μ) (c : SetUpCall) : Prop := c ∈ s.rest.map Prod.fst

/-- `connect` comes before any connection and `start_consuming` before the queue; a null is there
only when the connection is gone, and whoever has `on_connection_lost` has somebody to tell. -/
structure Sane (s : Session μ) : Prop where
  proper : Proper s.rest
  disabled : s.disabled = true → ∃ k rest, s.rest = (.startConsuming, k) :: rest
  early : s.ToCome .connect → s.connected = false
  clean : s.ToCome .connect ∨ s.connected = true → none ∉ s.received
  fresh : s.ToCome .startConsuming → s.que = none
  nothing : s.que = none → s.taken = []
  told : s.lostCallback = true → s.connLostHandler = true ∨ s.que ≠ none

theorem init_sane {p : Program} (hp : Proper p) : (init p : Session μ).Sane := by
  refine ⟨hp, by rintro ⟨⟩, fun _ => rfl, fun _ => List.not_mem_nil, fun _ => rfl, fun _ => rfl, ?_⟩
  rintro ⟨⟩

theorem received_nil {s : Session μ} (hs : s.Sane) (hq : s.que = none) : s.received = [] := by
  rw [received, hs.nothing hq, hq]
  rfl

omit μ in
theorem mem_after {x : SetUpCall} {k : Catch} {rest : Program}
    (h : x ∈ (k.after rest).map Prod.fst) : x ∈ rest.map Prod.fst := by
  cases k with
  | goOn => exact h
  | nowhere => cases h
  | leave => cases h

theorem after_proper {k : Catch} {rest : Program} (h : Proper rest) : Proper (k.after rest) := by
  cases k with
  | goOn => exact h
  | nowhere => trivial
  | leave => trivial

/-- Some of the calls are still to come. -/
theorem Sane.drop {s : Session μ} (hs : s.Sane) (hd : s.disabled = false) {rest : Program}
    (hproper : Proper rest) (hrest : ∀ x, x ∈ rest.map Prod.fst → s.ToCome x) (b : Bool) :
    ({ s with rest := rest, ended := b }).Sane := by
  refine ⟨hproper, ?_, fun h => hs.early (hrest _ h), ?_, fun h => hs.fresh (hrest _ h),
    hs.nothing, hs.told⟩
  · intro h
    rw [show s.disabled = true from h] at hd
    cases hd
  · rintro (h | h)
    · exact hs.clean (Or.inl (hrest _ h))
    · exact hs.clean (Or.inr h)

theorem toCome_of_tail {s : Session μ} {c : SetUpCall} {k : Catch} {rest : Program}
    (hr : s.rest = (c, k) :: rest) {x : SetUpCall} (hx : x ∈ rest.map Prod.fst) : s.ToCome x := by
  rw [ToCome, hr]
  exact List.mem_cons_of_mem _ hx

theorem toCome_head {s : Session μ} {c : SetUpCall} {k : Catch} {rest : Program}
    (hr : s.rest = (c, k) :: rest) : s.ToCome c := by
  rw [ToCome, hr]
  exact List.mem_cons_self

theorem Sane.tail {s : Session μ} (hs : s.Sane) {c : SetUpCall} {k : Catch} {rest : Program}
    (hr : s.rest = (c, k) :: rest) : c ∉ rest.map Prod.fst ∧ Proper rest := by
  have hproper := hs.proper
  rw [hr] at hproper
  exact ⟨hproper.1, hproper.2.2⟩

/-- `start_consuming` has made its queue, and the calls `rest` are still to come. -/
theorem Sane.consuming {s : Session μ} (hs : s.Sane) (hd : s.disabled = true) {c : SetUpCall}
    {k : Catch} {rest : Program} (hr : s.rest = (c, k) :: rest) {rest' : Program}
    (hproper : Proper rest') (hrest : ∀ x, x ∈ rest'.map Prod.fst → x ∈ rest.map Prod.fst)
    (lost b : Bool) (arrived : ArrivedCallback) :
    ({ s with
      que := some [], disabled := false, lostCallback := lost, arrivedCallback := arrived,
      rest := rest', ended := b }).Sane := by
  obtain ⟨k', rest₀, hr'⟩ := hs.disabled hd
  obtain ⟨⟨rfl, rfl⟩, rfl⟩ : (c = .startConsuming ∧ k = k') ∧ rest = rest₀ := by
    simpa using hr.symm.trans hr'
  have htaken : s.taken = [] := hs.nothing (hs.fresh (toCome_head hr))
  refine ⟨hproper, by rintro ⟨⟩, fun h => hs.early (toCome_of_tail hr (hrest _ h)), ?_, ?_, ?_, ?_⟩
  · intro _
    simp [received, htaken]
  · exact fun h => absurd (hrest _ h) (hs.tail hr).1
  · rintro ⟨⟩
  · exact fun _ => Or.inr (by simp)

theorem sane_step {s s' : Session μ} {l : SessionLabel μ} (hs : s.Sane) (hm : Moves s l s') :
    s'.Sane := by
  cases hm with
  | setHandler k rest hr hd =>
      have hset : ({ s with connLostHandler := true, lostCallback := true }).Sane :=
        ⟨hs.proper, hs.disabled, hs.early, hs.clean, hs.fresh, hs.nothing, fun _ => Or.inl rfl⟩
      exact hset.drop hd (hs.tail hr).2 (fun x hx => toCome_of_tail hr hx) s.ended
  | connected k rest hr hd =>
      have hnot : ¬ SetUpCall.connect ∈ rest.map Prod.fst := (hs.tail hr).1
      refine ⟨(hs.tail hr).2, ?_, fun h => absurd h hnot, ?_,
        fun h => hs.fresh (toCome_of_tail hr h), hs.nothing, hs.told⟩
      · intro h
        rw [show s.disabled = true from h] at hd
        cases hd
      · -- no null was there before the first connection
        exact fun _ => hs.clean (Or.inl (toCome_head hr))
  | called c k rest hr hd hc hconn =>
      exact hs.drop hd (hs.tail hr).2 (fun x hx => toCome_of_tail hr hx) s.ended
  | disable k rest hr hd =>
      exact ⟨hs.proper, fun _ => ⟨k, rest, hr⟩, hs.early, hs.clean, hs.fresh, hs.nothing,
        by rintro ⟨⟩⟩
  | failed c k rest hr hd h hh =>
      have hset : ({ s with connLostHandler := h }).Sane :=
        ⟨hs.proper, hs.disabled, hs.early, hs.clean, hs.fresh, hs.nothing,
          fun hl => (hs.told hl).imp_left hh⟩
      exact hset.drop hd (after_proper (hs.tail hr).2)
        (fun x hx => toCome_of_tail hr (mem_after hx)) _
  | enable c k rest hr hd =>
      exact hs.consuming hd hr (hs.tail hr).2 (fun x hx => hx) true s.ended .onMessageArrived
  | notEnabled c k rest hr hd =>
      exact hs.consuming hd hr (after_proper (hs.tail hr).2) (fun x hx => mem_after hx)
        s.lostCallback _ s.arrivedCallback
  | exit hconn hl hh =>
      refine ⟨hs.proper, hs.disabled, fun _ => rfl, ?_, hs.fresh, hs.nothing, hs.told⟩
      rintro (h | h)
      · exact hs.clean (Or.inl h)
      · cases h
  | null hconn hl hh =>
      refine ⟨hs.proper, hs.disabled, fun _ => rfl, ?_, ?_, ?_, ?_⟩
      · rintro (h | h)
        · have hearly := hs.early h
          rw [hconn] at hearly
          cases hearly
        · cases h
      · -- before `start_consuming` there is no queue for the null
        intro h
        show s.que.map (· ++ [none]) = none
        rw [hs.fresh h, Option.map_none]
      · exact fun h => hs.nothing (by simpa using h)
      · exact fun h => (hs.told h).imp_right (by simp)
  | unheard hconn hl =>
      refine ⟨hs.proper, hs.disabled, fun _ => rfl, ?_, hs.fresh, hs.nothing, hs.told⟩
      rintro (h | h)
      · exact hs.clean (Or.inl h)
      · cases h
  | ignored m hconn ha =>
      exact ⟨hs.proper, hs.disabled, hs.early, hs.clean, hs.fresh, hs.nothing, hs.told⟩
  | arrived m hconn ha =>
      refine ⟨hs.proper, hs.disabled, hs.early, ?_, ?_, ?_, ?_⟩
      · intro h
        have hclean := hs.clean h
        rw [received] at hclean ⊢
        cases hq : s.que with
        | none => simpa [hq] using hclean
        | some q => simpa [hq] using hclean
      · intro h
        show s.que.map (· ++ [some m]) = none
        rw [hs.fresh h, Option.map_none]
      · exact fun h => hs.nothing (by simpa using h)
      · exact fun h => (hs.told h).imp_right (by simp)
  | take v que hr hq =>
      refine ⟨hs.proper, hs.disabled, hs.early, ?_, ?_, ?_, ?_⟩
      · intro h
        have hclean := hs.clean h
        rw [received, hq] at hclean
        simpa [received] using hclean
      · intro h
        rw [ToCome, hr] at h
        cases h
      · rintro ⟨⟩
      · exact fun _ => Or.inr (by simp)

/-! ## Who hears of it -/

/-- The process is over, or has its connection still to make, or has it, or a null tells of its
end. -/
def Hears (s : Session μ) : Prop :=
  s.ended = true ∨ s.ToCome .connect ∨ s.connected = true ∨ none ∈ s.received

/-- There is no connection and never will be, and no null. -/
structure Deaf (s : Session μ) : Prop where
  late : ¬ s.ToCome .connect
  connected : s.connected = false
  none : none ∉ s.received

/-- A call other than `connect` throws. -/
theorem Hears.throws {s : Session μ} (hs : s.Sane) (hh : s.Hears) (hended : s.ended = false)
    {c : SetUpCall} {k : Catch} {rest : Program} (hr : s.rest = (c, k) :: rest)
    (hc : c ≠ .connect) {t : Session μ} (ht : t.connected = s.connected)
    (hreceived : t.received = s.received) : (t.throws k rest).Hears := by
  rcases hh with h | h | h | h
  · rw [hended] at h
    cases h
  · have hlater : SetUpCall.connect ∈ rest.map Prod.fst := by
      rw [ToCome, hr] at h
      exact (List.mem_cons.mp h).resolve_left (fun heq => hc heq.symm)
    cases k with
    | nowhere => exact Or.inl rfl
    | goOn => exact Or.inr (Or.inl hlater)
    | leave =>
        have hproper := hs.proper
        rw [hr] at hproper
        exact absurd (List.mem_cons_of_mem _ hlater) (hproper.2.1 rfl)
  · exact Or.inr (Or.inr (Or.inl (ht.trans h)))
  · exact Or.inr (Or.inr (Or.inr (by rw [← hreceived] at h; exact h)))

/-- A call other than `connect` returns. -/
theorem Hears.returns {s : Session μ} (hh : s.Hears) {c : SetUpCall} {k : Catch} {rest : Program}
    (hr : s.rest = (c, k) :: rest) (hc : c ≠ .connect) {t : Session μ}
    (hended : t.ended = s.ended) (hrest : t.rest = rest) (ht : t.connected = s.connected)
    (hreceived : t.received = s.received) : t.Hears := by
  rcases hh with h | h | h | h
  · exact Or.inl (hended.trans h)
  · refine Or.inr (Or.inl ?_)
    rw [ToCome, hr] at h
    rw [ToCome, hrest]
    exact (List.mem_cons.mp h).resolve_left (fun heq => hc heq.symm)
  · exact Or.inr (Or.inr (Or.inl (ht.trans h)))
  · exact Or.inr (Or.inr (Or.inr (hreceived ▸ h)))

theorem Sane.startConsuming {s : Session μ} (hs : s.Sane) (hd : s.disabled = true)
    {c : SetUpCall} {k : Catch} {rest : Program} (hr : s.rest = (c, k) :: rest) :
    c = .startConsuming ∧ s.received = [] := by
  obtain ⟨k', rest', hr'⟩ := hs.disabled hd
  have hc : c = .startConsuming := by
    have heq := hr.symm.trans hr'
    simp only [List.cons.injEq, Prod.mk.injEq] at heq
    exact heq.1.1
  subst hc
  exact ⟨rfl, received_nil hs (hs.fresh (toCome_head hr))⟩

theorem hears_step {s s' : Session μ} {l : SessionLabel μ} (hs : s.Sane) (hh : s.Hears)
    (hl : ¬ s.Misses l) (hm : Moves s l s') (hended : s.ended = false) : s'.Hears := by
  cases hm with
  | setHandler k rest hr hd => exact hh.returns hr (by simp) rfl rfl rfl rfl
  | connected k rest hr hd => exact Or.inr (Or.inr (Or.inl rfl))
  | called c k rest hr hd hc hconn => exact Or.inr (Or.inr (Or.inl hconn))
  | disable k rest hr hd => exact hh
  | failed c k rest hr hd h hset =>
      -- the attempt to connect is the one call whose failure is missed
      have hc : c ≠ .connect := by
        rintro rfl
        exact hl ⟨k, rest, hr⟩
      exact hh.throws hs hended hr hc rfl rfl
  | enable c k rest hr hd =>
      obtain ⟨rfl, hreceived⟩ := hs.startConsuming hd hr
      refine hh.returns hr (by simp) rfl rfl rfl ?_
      rw [hreceived, received, hs.nothing (hs.fresh (toCome_head hr))]
      rfl
  | notEnabled c k rest hr hd =>
      obtain ⟨rfl, hreceived⟩ := hs.startConsuming hd hr
      refine hh.throws hs hended hr (by simp) rfl ?_
      rw [hreceived, received, hs.nothing (hs.fresh (toCome_head hr))]
      rfl
  | exit hconn hlost hset => exact Or.inl rfl
  | null hconn hlost hset =>
      refine Or.inr (Or.inr (Or.inr ?_))
      rcases hs.told hlost with h | h
      · rw [hset] at h
        cases h
      · obtain ⟨q, hq⟩ := Option.ne_none_iff_exists'.mp h
        simp [received, hq]
  | unheard hconn hlost => exact absurd hlost hl
  | ignored m hconn ha => exact Or.inr (Or.inr (Or.inl hconn))
  | arrived m hconn ha => exact Or.inr (Or.inr (Or.inl hconn))
  | take v que hr hq =>
      -- what is taken stays among what was received
      have hreceived : ({ s with que := some que, taken := s.taken ++ [v] }).received =
          s.received := by
        simp [received, hq]
      rcases hh with h | h | h | h
      · exact Or.inl h
      · exact Or.inr (Or.inl h)
      · exact Or.inr (Or.inr (Or.inl h))
      · exact Or.inr (Or.inr (Or.inr (hreceived ▸ h)))

theorem deaf_step {s s' : Session μ} {l : SessionLabel μ} (hs : s.Sane) (hd : s.Deaf)
    (hm : Moves s l s') : s'.Deaf := by
  have hconn : s.connected = true → s'.Deaf := by
    intro h
    rw [hd.connected] at h
    cases h
  have hless : ∀ {c k rest}, s.rest = (c, k) :: rest →
      ∀ {rest' : Program}, (∀ x, x ∈ rest'.map Prod.fst → x ∈ rest.map Prod.fst) →
        SetUpCall.connect ∉ rest'.map Prod.fst :=
    fun hr _ hsub h => hd.late (toCome_of_tail hr (hsub _ h))
  cases hm with
  | setHandler k rest hr hdis => exact ⟨hless hr fun x hx => hx, hd.connected, hd.none⟩
  | connected k rest hr hdis => exact absurd (toCome_head hr) hd.late
  | called c k rest hr hdis hc h => exact hconn h
  | disable k rest hr hdis => exact ⟨hd.late, hd.connected, hd.none⟩
  | failed c k rest hr hdis h hset =>
      exact ⟨hless hr fun x hx => mem_after hx, hd.connected, hd.none⟩
  | enable c k rest hr hdis =>
      obtain ⟨rfl, -⟩ := hs.startConsuming hdis hr
      refine ⟨hless hr fun x hx => hx, hd.connected, ?_⟩
      simp [received, hs.nothing (hs.fresh (toCome_head hr))]
  | notEnabled c k rest hr hdis =>
      obtain ⟨rfl, -⟩ := hs.startConsuming hdis hr
      refine ⟨hless hr fun x hx => mem_after hx, hd.connected, ?_⟩
      simp [received, throws, hs.nothing (hs.fresh (toCome_head hr))]
  | exit h | null h | unheard h | ignored m h | arrived m h => exact hconn h
  | take v que hr hq =>
      refine ⟨hd.late, hd.connected, ?_⟩
      have hnone := hd.none
      rw [received, hq] at hnone
      simpa [received] using hnone

theorem deaf_of_misses {s s' : Session μ} {l : SessionLabel μ} (hs : s.Sane) (hl : s.Misses l)
    (hm : Moves s l s') : s'.Deaf := by
  cases hm with
  | failed c k rest hr hdis h hset =>
      obtain ⟨k', rest', hr'⟩ := hl
      obtain ⟨⟨rfl, rfl⟩, rfl⟩ : (c = .connect ∧ k = k') ∧ rest = rest' := by
        simpa using hr.symm.trans hr'
      refine ⟨fun hin => (hs.tail hr).1 (mem_after hin), hs.early (toCome_head hr), ?_⟩
      exact hs.clean (Or.inl (toCome_head hr))
  | unheard hconn hlost =>
      refine ⟨?_, rfl, hs.clean (Or.inr hconn)⟩
      intro hin
      have hearly := hs.early hin
      rw [hconn] at hearly
      cases hearly
  | exit hconn hlost hset =>
      rw [show s.lostCallback = false from hl] at hlost
      cases hlost
  | null hconn hlost hset =>
      rw [show s.lostCallback = false from hl] at hlost
      cases hlost
  | _ => exact hl.elim

/-- A process that waits and is deaf goes on waiting, for nothing new. -/
theorem deaf_waits {s s' : Session μ} {l : SessionLabel μ} (hw : s.Waits) (hd : s.Deaf)
    (hm : Moves s l s') : s'.Waits ∧ s'.received = s.received := by
  have hnone : ∀ {c rest}, s.rest = c :: rest → s'.Waits ∧ s'.received = s.received := by
    intro c rest hr
    rw [hw.rest] at hr
    cases hr
  have hconn : s.connected = true → s'.Waits ∧ s'.received = s.received := by
    intro h
    rw [hd.connected] at h
    cases h
  cases hm with
  | setHandler k rest hr | connected k rest hr | called c k rest hr | disable k rest hr
  | failed c k rest hr | enable c k rest hr | notEnabled c k rest hr => exact hnone hr
  | exit h | null h | unheard h | ignored m h | arrived m h => exact hconn h
  | take v que hr hq => exact ⟨⟨hw.rest, hw.ended, by simp⟩, by simp [received, hq]⟩

/-- In every run of the server's and of the client's set-up, the connection lost at any time: a
process that has come to take messages is connected or will find the null, if and only if its
attempt to connect did not fail and the connection was not lost while the C library was without
`on_connection_lost`.  Otherwise it waits for ever: nothing comes to what it has in its queue. -/
theorem heard_exact {p : Program} (hp : p = server ∨ p = client) {ls : List (SessionLabel μ)}
    {s : Session μ} (h : exec step (init p) ls = some s) (hw : s.Waits) :
    (s.connected = true ∨ none ∈ s.received ↔
      EachStep step (fun u l => ¬ u.Misses l) (init p) ls) ∧
    (¬ EachStep step (fun u l => ¬ u.Misses l) (init p) ls →
      ∀ ls' t, exec step s ls' = some t → t.Waits ∧ t.received = s.received) := by
  have hproper := proper_of hp
  have hconnect : (init p : Session μ).ToCome .connect := by
    rcases hp with rfl | rfl <;> simp [ToCome, init, server, client]
  have hcase := good_or_damaged (J := Sane) (I := Hears) (D := Deaf)
    (C := fun u l => ¬ u.Misses l) (fun _ _ _ hs hstep => sane_step hs (step_moves hstep).1)
    (fun _ _ _ hs hh hl hstep => hears_step hs hh hl (step_moves hstep).1 (step_moves hstep).2)
    (fun _ _ _ hs _ hl hstep => deaf_of_misses hs (not_not.mp hl) (step_moves hstep).1)
    (fun _ _ _ hs hd hstep => deaf_step hs hd (step_moves hstep).1)
    (init_sane hproper) (Or.inr (Or.inl hconnect)) h
  have hforever : s.Deaf → ∀ ls' t, exec step s ls' = some t →
      t.Waits ∧ t.received = s.received := by
    intro hdeaf ls' t ht
    have hsane : s.Sane :=
      inv_exec (fun _ _ _ hs hstep => sane_step hs (step_moves hstep).1) (init_sane hproper) h
    -- by induction on what follows: a deaf process is handed nothing
    refine (inv_exec (I := fun w : Session μ => (w.Sane ∧ w.Deaf) ∧ w.Waits ∧
      w.received = s.received) ?_ ⟨⟨hsane, hdeaf⟩, hw, rfl⟩ ht).2
    rintro w k w' ⟨⟨hws, hwd⟩, hww, hwr⟩ hstep
    have hm := (step_moves hstep).1
    obtain ⟨hww', hwr'⟩ := deaf_waits hww hwd hm
    exact ⟨⟨sane_step hws hm, deaf_step hws hwd hm⟩, hww', hwr'.trans hwr⟩
  rcases hcase with ⟨heach, hhears⟩ | ⟨hmiss, hdeaf⟩
  · refine ⟨iff_of_true ?_ heach, fun h => absurd heach h⟩
    rcases hhears with hended | hcome | hrest
    · rw [hw.ended] at hended
      cases hended
    · rw [ToCome, hw.rest] at hcome
      cases hcome
    · exact hrest
  · refine ⟨iff_of_false ?_ hmiss, fun _ => hforever hdeaf⟩
    rintro (hconn | hnone)
    · rw [hdeaf.connected] at hconn
      cases hconn
    · exact hdeaf.none hnone

/-- The server's connection is lost inside `start_consuming`. -/
def window : List (SessionLabel Nat) :=
  [.call true, .call true, .call true, .call true, .lose, .setCallbacks true]

theorem heard_exact_window :
    ∃ s : Session Nat, exec step (init server) window = some s ∧
      ¬ (s.connected = true ∨ none ∈ s.received) ∧
      ∀ ls' t, exec step s ls' = some t → t.Waits ∧ t.received = s.received := by
  obtain ⟨s, hs, hrest, hended, hque⟩ : ∃ s : Session Nat,
      exec step (init server) window = some s ∧ s.rest = [] ∧ s.ended = false ∧ s.que ≠ none :=
    exists_exec_of_any (by decide +kernel)
  have hmiss : ¬ EachStep step (fun u l => ¬ u.Misses l) (init server) window := by
    rintro ⟨-, h⟩
    obtain ⟨-, h⟩ := h _ rfl
    obtain ⟨-, h⟩ := h _ rfl
    obtain ⟨-, h⟩ := h _ rfl
    exact (h _ rfl).1 rfl
  obtain ⟨hiff, hforever⟩ := heard_exact (Or.inl rfl) hs ⟨hrest, hended, hque⟩
  exact ⟨s, hs, fun h => hmiss (hiff.mp h), hforever hmiss⟩

/-! ## What gets into the queue -/

/-- The messages that the C library gave to a callback. -/
def arrivals : List (SessionLabel μ) → List μ :=
  List.filterMap fun
    | .arrive m => some m
    | _ => none

/-- The message goes to the empty function. -/
def Ignores (s : Session μ) : SessionLabel μ → Prop
  | .arrive _ => s.arrivedCallback = .ignore
  | _ => False

/-- What is ignored comes before anything that is queued, and `on_message_arrived` has a queue. -/
structure Kept (arrived : List μ) (s : Session μ) : Prop where
  eq : arrived = s.ignored ++ s.received.filterMap id
  first : s.arrivedCallback ≠ .onMessageArrived → s.received.filterMap id = []
  que : s.arrivedCallback = .onMessageArrived → s.que ≠ none

theorem Kept.step {arrived : List μ} {s s' : Session μ} {l : SessionLabel μ} (hs : s.Sane)
    (hk : s.Kept arrived) (hm : Moves s l s') : s'.Kept (arrived ++ arrivals [l]) := by
  have hkeep : ∀ {l : SessionLabel μ}, arrivals [l] = [] → s'.Kept arrived →
      s'.Kept (arrived ++ arrivals [l]) := by
    intro l hl h
    rwa [hl, List.append_nil]
  cases hm with
  | setHandler k rest hr hd => exact hkeep rfl ⟨hk.eq, hk.first, hk.que⟩
  | connected k rest hr hd => exact hkeep rfl ⟨hk.eq, hk.first, hk.que⟩
  | called c k rest hr hd hc hconn => exact hkeep rfl ⟨hk.eq, hk.first, hk.que⟩
  | failed c k rest hr hd h hset => exact hkeep rfl ⟨hk.eq, hk.first, hk.que⟩
  | disable k rest hr hd =>
      -- nothing has been received when the empty function is set
      have hreceived : s.received = [] := received_nil hs (hs.fresh (toCome_head hr))
      refine hkeep rfl ⟨hk.eq, fun _ => ?_, by rintro ⟨⟩⟩
      show s.received.filterMap id = []
      rw [hreceived]
      rfl
  | enable c k rest hr hd =>
      obtain ⟨rfl, hreceived⟩ := hs.startConsuming hd hr
      have heq := hk.eq
      rw [hreceived] at heq
      refine hkeep rfl ⟨?_, fun h => absurd rfl h, fun _ => by simp⟩
      simpa [received, hs.nothing (hs.fresh (toCome_head hr))] using heq
  | notEnabled c k rest hr hd =>
      obtain ⟨rfl, hreceived⟩ := hs.startConsuming hd hr
      have heq := hk.eq
      rw [hreceived] at heq
      have htaken : s.taken = [] := hs.nothing (hs.fresh (toCome_head hr))
      refine hkeep rfl ⟨?_, fun _ => ?_, fun _ => by simp [throws]⟩
      · simpa [throws, received, htaken] using heq
      · simp [throws, received, htaken]
  | exit hconn hl hh => exact hkeep rfl ⟨hk.eq, hk.first, hk.que⟩
  | unheard hconn hl => exact hkeep rfl ⟨hk.eq, hk.first, hk.que⟩
  | null hconn hl hh =>
      have hsame : ({ s with connected := false,
                             que := s.que.map (· ++ [none]) }).received.filterMap id =
          s.received.filterMap id := by
        cases hq : s.que <;> simp [received, hq]
      refine hkeep rfl ⟨hk.eq.trans (by rw [hsame]), fun h => hsame.trans (hk.first h), fun h => ?_⟩
      simpa using hk.que h
  | ignored m hconn ha =>
      -- nothing is queued yet, so what is ignored comes first
      have hempty := hk.first (by rw [ha]; simp)
      refine ⟨?_, hk.first, hk.que⟩
      show arrived ++ [m] = (s.ignored ++ [m]) ++ s.received.filterMap id
      rw [hk.eq, hempty, List.append_nil, List.append_nil]
  | arrived m hconn ha =>
      obtain ⟨q, hq⟩ := Option.ne_none_iff_exists'.mp (hk.que ha)
      refine ⟨?_, fun h => absurd ha h, fun _ => by simp [hq]⟩
      have heq := hk.eq
      rw [received, hq] at heq
      simp [heq, received, hq, arrivals]
  | take v que hr hq =>
      have hsame : ({ s with que := some que, taken := s.taken ++ [v] }).received = s.received := by
        simp [received, hq]
      refine hkeep rfl ⟨?_, ?_, fun _ => by simp⟩
      · rw [hsame]
        exact hk.eq
      · rw [hsame]
        exact hk.first

theorem arrivals_append (ls : List (SessionLabel μ)) (l : SessionLabel μ) :
    arrivals (ls ++ [l]) = arrivals ls ++ arrivals [l] := List.filterMap_append

/-- Only the empty function adds to `ignored`. -/
theorem ignored_step {s s' : Session μ} {l : SessionLabel μ} (hm : Moves s l s') :
    (¬ s.Ignores l ∧ s'.ignored = s.ignored) ∨
      ∃ m, s.Ignores l ∧ s'.ignored = s.ignored ++ [m] := by
  cases hm with
  | ignored m hconn ha => exact Or.inr ⟨m, ha, rfl⟩
  | arrived m hconn ha =>
      refine Or.inl ⟨?_, rfl⟩
      rw [Ignores, ha]
      simp
  | _ => exact Or.inl ⟨id, rfl⟩

/-- In every run of the two set-ups: the messages that the C library has given to a callback are
those that were ignored, followed by those that `consume_message` has returned or will return, each
once and in order; and these are all of them if and only if none arrived between the two halves of
`start_consuming`. -/
theorem kept_exact {p : Program} (hp : p = server ∨ p = client) {ls : List (SessionLabel μ)}
    {s : Session μ} (h : exec step (init p) ls = some s) :
    arrivals ls = s.ignored ++ s.received.filterMap id ∧
      (s.received.filterMap id = arrivals ls ↔
        EachStep step (fun u l => ¬ u.Ignores l) (init p) ls) := by
  have hproper := proper_of hp
  have heq : arrivals ls = s.ignored ++ s.received.filterMap id := by
    have hinv : s.Sane ∧ s.Kept (arrivals ([] ++ ls)) := by
      refine inv_history (C := fun _ _ => True)
        (I := fun hist (w : Session μ) => w.Sane ∧ w.Kept (arrivals hist)) ?_
        ⟨init_sane hproper, ⟨rfl, fun _ => rfl, by rintro ⟨⟩⟩⟩
        (EachStep.of_forall (fun _ _ => trivial) _ _) h
      rintro hist w l w' ⟨hws, hwk⟩ - hstep
      have hm := (step_moves hstep).1
      rw [arrivals_append]
      exact ⟨sane_step hws hm, hwk.step hws hm⟩
    exact hinv.2.eq
  have hnothing : s.received.filterMap id = arrivals ls ↔ s.ignored = [] := by
    rw [heq]
    exact List.self_eq_append_left
  -- a message that was ignored once is never received
  have hcase := good_or_damaged (J := fun _ => True)
    (I := fun w : Session μ => w.ignored = []) (D := fun w => w.ignored ≠ [])
    (C := fun u l => ¬ u.Ignores l) (fun _ _ _ _ _ => trivial) ?_ ?_ ?_ trivial rfl h
  · refine ⟨heq, hnothing.trans ?_⟩
    rcases hcase with ⟨heach, hempty⟩ | ⟨hignores, hsome⟩
    · exact iff_of_true hempty heach
    · exact iff_of_false hsome hignores
  · intro w l w' _ hw hl hstep
    rcases ignored_step (step_moves hstep).1 with ⟨-, heq⟩ | ⟨m, hi, -⟩
    · exact heq.trans hw
    · exact absurd hi hl
  · intro w l w' _ _ hl hstep
    rcases ignored_step (step_moves hstep).1 with ⟨hnot, -⟩ | ⟨m, -, heq⟩
    · exact absurd hnot hl
    · simp [heq]
  · intro w l w' _ hw hstep
    rcases ignored_step (step_moves hstep).1 with ⟨-, heq⟩ | ⟨m, -, heq⟩
    · rw [heq]
      exact hw
    · simp [heq]

/-- A message arrives inside `start_consuming`, and one behind it. -/
def twoArrive : List (SessionLabel Nat) :=
  [.call true, .call true, .call true, .call true, .arrive 1, .setCallbacks true, .arrive 2, .take]

theorem kept_exact_twoArrive :
    ∃ s : Session Nat, exec step (init server) twoArrive = some s ∧
      [1, 2] = s.ignored ++ s.received.filterMap id := by
  obtain ⟨s, hs, -⟩ : ∃ s : Session Nat, exec step (init server) twoArrive = some s ∧
      s.ended = false := exists_exec_of_any (by decide +kernel)
  exact ⟨s, hs, (kept_exact (Or.inl rfl) hs).1⟩

end Session

end BupApp.LostConnection
