/-
# BupApp.Server.Wills -- who would learn of the server's death?

For each new subscriber the server sets a will with a notice for that subscriber, in the connect
options.  The broker publishes another one: the will that was in the options when they were given to
`connect`, before there was any subscriber, and `reconnect` uses these same options again.  So no
connection of the server ever has a will, and every registered client would wait in vain.
-/
import BupApp.App.Session

namespace BupApp.Wills

open BupApp.Lib.Text BupApp.Lib.Transition Server

variable {τ : Type} {cfg : Config}

/-! ## Wills -/

/-- A session and the copies that were made of the will in its connect options (`Session.will`): the
one that `connect` was called with and that `reconnect` sends again, and the one the broker has for
the current connection. -/
structure Connection (τ : Type) where
  session : Session τ
  passed : Option Str
  inForce : Option Str
  deriving DecidableEq, Repr

/-- `connect(*getConnectionOpt())` in `connectToServer` (_appServer.cpp 50, async_client.cpp
381-407): the options are passed by value. -/
def connect (s : Session τ) : Connection τ := ⟨s, s.will, s.will⟩

/-- `reconnect` (async_client.cpp 436-457) makes a connection with the options of `connect`. -/
def reconnect (w : Connection τ) : SessionLabel τ → Option Str
  | .server (.consumeNull .reconnected) => w.passed
  | _ => w.inForce

/-- One step of the session; only a new connection has a new will. -/
def step (cfg : Config) (w : Connection τ) (l : SessionLabel τ) : Option (Connection τ) :=
  (Session.step cfg w.session l).map fun s => { w with session := s, inForce := reconnect w l }

/-- `connectToServer` connects before `working` handles the first registration. -/
def start (setUp : Bool) : Connection τ := connect (Session.start setUp)

/-- What the broker publishes, topic and payload, when the connection is lost. -/
def notices (w : Connection τ) : List (Str × Str) :=
  (w.inForce.map fun topic => (topic, serverWillMsg)).toList

/-- Every registered client would get the notice on its private channel. -/
def AllWouldLearn (w : Connection τ) : Prop :=
  ∀ c ∈ w.session.srv.clients, (c.channel, serverWillMsg) ∈ notices w

/-! ## No connection has a will -/

/-- `connect` was called with no will, and none is in force. -/
structure NoWill (w : Connection τ) : Prop where
  passed : w.passed = none
  inForce : w.inForce = none

theorem NoWill.start (setUp : Bool) : NoWill (Wills.start setUp : Connection τ) := ⟨rfl, rfl⟩

theorem step_some {w w' : Connection τ} {l : SessionLabel τ} (h : step cfg w l = some w') :
    ∃ s, Session.step cfg w.session l = some s ∧
      w' = { w with session := s, inForce := reconnect w l } := by
  obtain ⟨s, hs, rfl⟩ := Option.map_eq_some_iff.mp h
  exact ⟨s, hs, rfl⟩

theorem NoWill.step {w w' : Connection τ} {l : SessionLabel τ} (h : NoWill w)
    (hstep : Wills.step cfg w l = some w') : NoWill w' := by
  obtain ⟨s, -, rfl⟩ := step_some hstep
  refine ⟨h.passed, ?_⟩
  show reconnect w l = none
  unfold reconnect
  split
  · exact h.passed
  · exact h.inForce

theorem noWill_of_run {setUp : Bool} {ls : List (SessionLabel τ)} {w : Connection τ}
    (hrun : exec (step cfg) (start setUp) ls = some w) : NoWill w :=
  inv_exec (I := NoWill) (fun _ _ _ h hstep => h.step hstep) (NoWill.start setUp) hrun

/-! ## Who would learn of it -/

theorem NoWill.learn_iff_nobody {w : Connection τ} (h : NoWill w) :
    AllWouldLearn w ↔ w.session.srv.clients = [] := by
  rw [List.eq_nil_iff_forall_not_mem]
  refine forall₂_congr fun c _ => ?_
  rw [notices, h.inForce]
  simp

/-- A step of the session stores an entry or leaves the registry as it is. -/
theorem clients_of_step {s s' : Session τ} {l : SessionLabel τ}
    (h : Session.step cfg s l = some s') :
    (l ≠ .server .store ∧ s'.srv.clients = s.srv.clients) ∨
      (l = .server .store ∧ s'.srv.clients ≠ []) := by
  cases l with
  | lose =>
      obtain rfl := Session.step_lose h
      exact Or.inl ⟨by simp, rfl⟩
  | server l =>
      obtain ⟨srv', es, -, hacts, -, rfl⟩ := Session.step_server h
      rw [Session.move_srv]
      rcases clients_of_acts hacts with ⟨hne, hcl⟩ | ⟨c, rfl, -, hcl, -⟩
      · exact Or.inl ⟨by simpa using hne, hcl⟩
      · exact Or.inr ⟨rfl, by simp [hcl]⟩

/-- **Every registered client would learn of the server's death exactly in the runs that register
nobody.** -/
theorem allWouldLearn_iff {setUp : Bool} {ls : List (SessionLabel τ)} {w : Connection τ}
    (hrun : exec (step cfg) (start setUp) ls = some w) :
    Always (step cfg) AllWouldLearn (start setUp) ls ↔ SessionLabel.server .store ∉ ls := by
  have hrule : Always (step cfg) AllWouldLearn (start setUp) ls ↔
      EachStep (step cfg) (fun _ l => l ≠ .server .store) (start setUp) ls := by
    refine always_iff_eachStep (I := fun w => NoWill w ∧ w.session.srv.clients = [])
      (fun w h => h.1.learn_iff_nobody.mpr h.2) ?_ ?_ ⟨NoWill.start setUp, rfl⟩ hrun
    · rintro w l w' ⟨hno, hnone⟩ hl hstep
      obtain ⟨s, hs, rfl⟩ := step_some hstep
      rcases clients_of_step hs with ⟨-, hcl⟩ | ⟨hstore, -⟩
      · exact ⟨hno.step hstep, hcl.trans hnone⟩
      · exact absurd hstore hl
    · rintro w l w' ⟨hno, -⟩ hstep hlearn
      have hnone := (hno.step hstep).learn_iff_nobody.mp hlearn
      obtain ⟨s, hs, rfl⟩ := step_some hstep
      rcases clients_of_step hs with ⟨hne, -⟩ | ⟨-, hsome⟩
      · exact hne
      · exact absurd hnone hsome
  rw [hrule, eachStep_ne_iff hrun]

/-! ## Runs -/

/-- A host registers, and every broker call completes. -/
def registered : List (SessionLabel Unit) :=
  [.server (.consume (registrationWith "10.0.0.2 ann")), .server .dispatch,
    .server (.subscribe true), .server (.publishKey true), .server .store]

/-- The registered host would not learn of it. -/
theorem registered_would_not_learn :
    ¬ ∀ (cfg : Config) (setUp : Bool) (ls : List (SessionLabel Unit)) (w : Connection Unit),
      exec (step cfg) (start setUp) ls = some w → AllWouldLearn w := by
  intro hall
  obtain ⟨w, hw, hsome⟩ := exists_exec_of_any
    (P := fun w : Connection Unit => w.session.srv.clients ≠ [])
    (show (exec (step lanCfg) (start true) registered).any _ = true by decide +kernel)
  have hlearn : AllWouldLearn w := hall lanCfg true registered w hw
  exact hsome ((noWill_of_run hw).learn_iff_nobody.mp hlearn)

/-- The publish of the key throws, and the connection is lost and made anew. -/
def rejected : List (SessionLabel Unit) :=
  [.server (.consume (registrationWith "10.0.0.2 ann")), .server .dispatch,
    .server (.subscribe true), .server (.publishKey false), .lose,
    .server (.consumeNull .reconnected)]

theorem rejected_allWouldLearn : ∃ w : Connection Unit,
    exec (step lanCfg) (start true) rejected = some w ∧
      Always (step lanCfg) AllWouldLearn (start true) rejected := by
  obtain ⟨w, hw, -⟩ := exists_exec_of_any (P := fun _ : Connection Unit => True)
    (show (exec (step lanCfg) (start true) rejected).any _ = true by decide +kernel)
  exact ⟨w, hw, (allWouldLearn_iff hw).mpr (by decide)⟩

end BupApp.Wills
