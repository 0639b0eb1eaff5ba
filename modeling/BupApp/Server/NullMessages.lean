/-
# BupApp.Server.NullMessages -- does a null message get dereferenced?

`consume_message` returns null when the connection is lost, and the loop tests for it.  The test is
joined with `checkReconnect`: when that returns true the loop goes on to `m_msgPtr->get_topic()` with
the null pointer.  The handlers read through the same pointer and do not test it at all; between the
assignment of null and the end of `checkReconnect`, and after the loop was left, they run on.

Here a null message takes the loop two steps, the assignment to `m_msgPtr` and the return of
`checkReconnect`, so that the handlers can move in between.

As the program is wired, `connectToServer`'s handler ends the process when the connection is lost,
before a null message is there (`LibNet.server_exits`); this is about the loop by itself.
-/
import BupApp.App.Session

namespace BupApp.NullMessages

open BupApp.Lib.Transition Server

variable {τ : Type} {cfg : Config}

/-! ## Null messages in two steps -/

/-- The server; `checking` says that the loop has got a null message and is in `checkReconnect`. -/
structure Polling (τ : Type) where
  srv : Server τ
  checking : Bool
  deriving DecidableEq, Repr

inductive Event (τ : Type) where
  | null
  | checked (a : Answers)
  | server (l : Label τ)

namespace Polling

/-- The state in which `working` is entered. -/
def start : Polling τ := ⟨Server.start, false⟩

/-- Line 92 with a null pointer. -/
def null (s : Polling τ) : Option (Polling τ) :=
  if s.srv.crashed = none ∧ s.srv.loop = .waiting ∧ s.checking = false then
    some ⟨{ s.srv with msgPtr := none }, true⟩
  else none

/-- Line 93: `checkReconnect` returns or throws. -/
def checked (cfg : Config) (s : Polling τ) (a : Answers) : Option (Polling τ) :=
  if s.checking then
    (s.srv.next cfg (.consumeNull (checkReconnect a))).map fun srv => ⟨srv, false⟩
  else none

/-- One step; in `checkReconnect` the loop consumes nothing. -/
def step (cfg : Config) (s : Polling τ) : Event τ → Option (Polling τ)
  | .null => s.null
  | .checked a => s.checked cfg a
  | .server (.consumeNull _) => none
  | .server (.consume m) =>
      if s.checking then none
      else (s.srv.next cfg (.consume m)).map fun srv => { s with srv := srv }
  | .server l => (s.srv.next cfg l).map fun srv => { s with srv := srv }

/-- A step of the server process that consumes no null pointer. -/
theorem step_server {s s' : Polling τ} {l : Label τ} (h : s.step cfg (.server l) = some s') :
    s.srv.crashed = none ∧ l.nonNull ∧ (∀ m, l = .consume m → s.checking = false) ∧
      s'.checking = s.checking ∧ ∃ es, Acts cfg s.srv l s'.srv es := by
  have hnext : ∀ {l : Label τ}, (s.srv.next cfg l).map (fun srv => { s with srv := srv }) = some s' →
      s.srv.crashed = none ∧ s'.checking = s.checking ∧ ∃ es, Acts cfg s.srv l s'.srv es := by
    intro l h
    obtain ⟨srv', hn, rfl⟩ := Option.map_eq_some_iff.mp h
    obtain ⟨⟨srv'', es⟩, hact, rfl⟩ := Option.map_eq_some_iff.mp hn
    exact ⟨act_alive hact, rfl, es, act_acts hact⟩
  unfold step at h
  split at h
  · rename_i heq
    cases heq
  · rename_i heq
    cases heq
  · cases h
  · rename_i m heq
    obtain rfl := Event.server.inj heq
    simp only [Option.ite_none_left_eq_some] at h
    obtain ⟨halive, hchecking, hacts⟩ := hnext h.2
    exact ⟨halive, trivial, fun _ _ => by simpa using h.1, hchecking, hacts⟩
  · rename_i l' hnull hconsume heq
    obtain rfl := Event.server.inj heq
    obtain ⟨halive, hchecking, hacts⟩ := hnext h
    refine ⟨halive, ?_, fun m hm => absurd (hm ▸ rfl) (hconsume m), hchecking, hacts⟩
    cases l with
    | consumeNull r => exact absurd rfl (hnull r)
    | _ => trivial

theorem step_null {s s' : Polling τ} (h : s.step cfg .null = some s') :
    s.srv.crashed = none ∧ s.srv.loop = .waiting ∧ s' = ⟨{ s.srv with msgPtr := none }, true⟩ := by
  simp only [step, null, Option.ite_none_right_eq_some] at h
  exact ⟨h.1.1, h.1.2.1, (Option.some.inj h.2).symm⟩

theorem step_checked {s s' : Polling τ} {a : Answers} (h : s.step cfg (.checked a) = some s') :
    s.srv.crashed = none ∧ s.checking = true ∧ s'.checking = false ∧
      ∃ es, Acts cfg s.srv (.consumeNull (checkReconnect a)) s'.srv es := by
  simp only [step, checked, Option.ite_none_right_eq_some] at h
  obtain ⟨hchecking, h⟩ := h
  obtain ⟨srv', hn, rfl⟩ := Option.map_eq_some_iff.mp h
  obtain ⟨⟨srv'', es⟩, hact, rfl⟩ := Option.map_eq_some_iff.mp hn
  exact ⟨act_alive hact, hchecking, rfl, es, act_acts hact⟩

end Polling

/-! ## The property and its condition -/

/-- No null pointer has been dereferenced, and no thread's next access dereferences one. -/
def NullSafe (cfg : Config) (s : Polling τ) : Prop :=
  s.srv.crashed ≠ some .nullDeref ∧
    ∀ e s', s.step cfg e = some s' → s'.srv.crashed ≠ some .nullDeref

/-- A handler at this point has a read of `m_msgPtr` before it. -/
def unread : HandlerPc → Bool
  | .spawned => true
  | .topicRead _ => true
  | _ => false

/-- A null message finds all handlers past their reads, and `checkReconnect` does not reconnect. -/
def Harmless (s : Polling τ) : Event τ → Prop
  | .null => ∀ h ∈ s.srv.threadPool, unread h.pc = false
  | .checked a => ¬ a.Reconnects
  | .server _ => True

instance (s : Polling τ) : ∀ e, Decidable (Harmless s e)
  | .null => inferInstanceAs (Decidable (∀ h ∈ s.srv.threadPool, unread h.pc = false))
  | .checked a => inferInstanceAs (Decidable (¬ a.Reconnects))
  | .server _ => isTrue trivial

/-! ## The condition is enough -/

/-- The pointer is null only where nobody is about to use it. -/
structure Inv (s : Polling τ) : Prop where
  safe : s.srv.crashed ≠ some .nullDeref
  null : s.srv.crashed = none → s.srv.msgPtr = none →
    s.srv.loop ≠ .received ∧ ∀ h ∈ s.srv.threadPool, unread h.pc = false
  checking : s.checking = true → s.srv.msgPtr = none

theorem inv_start : Inv (Polling.start : Polling τ) where
  safe := by simp [Polling.start, Server.start]
  null := by simp [Polling.start, Server.start]
  checking := by simp [Polling.start]

/-- Where nobody is about to use a null pointer no step dereferences one. -/
theorem Inv.not_nullDeref {s : Polling τ} (h : Inv s) (halive : s.srv.crashed = none) {l : Label τ}
    {c : Crash} (hc : Crashes s.srv l c) : c ≠ .nullDeref := by
  have hread : ∀ {k : Nat} {msg : Message τ} {pc : HandlerPc},
      s.srv.threadPool[k]? = some ⟨msg, pc⟩ → s.srv.msgPtr = none → unread pc = false :=
    fun hk hm => (h.null halive hm).2 _ (mem_of_getElem? hk)
  cases hc with
  | derefNull hl hm => exact absurd hl (h.null halive hm).1
  | readTopicNull hk hm => exact absurd (hread hk hm) (by simp [unread])
  | readPayloadNull hk hm => exact absurd (hread hk hm) (by simp [unread])
  | _ => simp

theorem Inv.crashed_of_acts {s : Polling τ} (h : Inv s) (halive : s.srv.crashed = none)
    {l : Label τ} {srv' : Server τ} {es : List Effect} (hacts : Acts cfg s.srv l srv' es) :
    srv'.crashed ≠ some .nullDeref := by
  cases hacts with
  | nullThrew => simp
  | crashes hc =>
      intro heq
      exact h.not_nullDeref halive hc (Option.some.inj heq)
  | _ => exact h.safe

theorem Inv.nullSafe {s : Polling τ} (h : Inv s) : NullSafe cfg s := by
  refine ⟨h.safe, ?_⟩
  intro e s' hs
  cases e with
  | null =>
      obtain ⟨-, -, rfl⟩ := Polling.step_null hs
      exact h.safe
  | checked a =>
      obtain ⟨halive, -, -, es, hacts⟩ := Polling.step_checked hs
      exact h.crashed_of_acts halive hacts
  | server l =>
      obtain ⟨halive, -, -, -, es, hacts⟩ := Polling.step_server hs
      exact h.crashed_of_acts halive hacts

/-- A handler that moves has no more to read than before. -/
theorem unread_of_move {s : Server τ} {k : Nat} {l : Label τ} {pc pc' : HandlerPc}
    {es : List Effect} (h : HandlerMoves cfg s k l pc pc' es) (hpc : unread pc = false) :
    unread pc' = false := by
  cases h with
  | readTopic => cases hpc
  | _ => rfl

/-- **The step lemma.** -/
theorem Inv.step {s s' : Polling τ} {e : Event τ} (h : Inv s) (he : Harmless s e)
    (hs : s.step cfg e = some s') : Inv s' := by
  cases e with
  | null =>
      obtain ⟨-, hl, rfl⟩ := Polling.step_null hs
      refine ⟨h.safe, fun _ _ => ⟨?_, he⟩, fun _ => rfl⟩
      show s.srv.loop ≠ .received
      rw [hl]
      simp
  | checked a =>
      obtain ⟨halive, hchecking, hdone, es, hacts⟩ := Polling.step_checked hs
      have hread := (h.null halive (h.checking hchecking)).2
      refine ⟨h.crashed_of_acts halive hacts, ?_, by simp [hdone]⟩
      generalize hr : checkReconnect a = r at hacts
      generalize hsrv : s'.srv = srv' at hacts
      cases hacts with
      | nullReconnected => exact absurd (checkReconnect_eq_reconnected_iff.mp hr) he
      | nullFailed => exact fun _ _ => ⟨by simp, hread⟩
      | nullThrew => exact fun halive => absurd halive (by simp)
      | handler hk hmove => cases hmove
      | crashes hc => cases hc
  | server l =>
      obtain ⟨halive, hnn, hidle, hsame, es, hacts⟩ := Polling.step_server hs
      refine ⟨h.crashed_of_acts halive hacts, ?_, ?_⟩
      · generalize hsrv : s'.srv = srv' at hacts
        cases hacts with
        | consume hl => exact fun _ hm => absurd hm (by simp)
        | nullReconnected | nullFailed | nullThrew => exact hnn.elim
        -- the loop has looked at the message, so there is one
        | register hl hm | spawn hl hm | ignore hl hm =>
            exact fun _ hnone => absurd (hm.symm.trans hnone) (by simp)
        | handler hk hmove =>
            -- of the handlers one moves, and none goes back to a read
            intro _ hnone
            obtain ⟨hl, hread⟩ := h.null halive hnone
            refine ⟨hl, fun hd hh => ?_⟩
            rcases mem_setPc hk hh with rfl | hold
            · exact unread_of_move hmove (hread _ (mem_of_getElem? hk))
            · exact hread hd hold
        | crashes hc => exact fun hnone => absurd hnone (by simp)
        | _ => exact fun _ hnone => ⟨by simp, (h.null halive hnone).2⟩
      · intro hchecking
        rw [hsame] at hchecking
        have hnull := h.checking hchecking
        generalize hsrv : s'.srv = srv' at hacts
        cases hacts with
        | consume hl => exact absurd ((hidle _ rfl).symm.trans hchecking) (by simp)
        | nullReconnected | nullFailed | nullThrew => exact hnn.elim
        | _ => exact hnull

/-! ## The condition is exact -/

/-- A handler with a read before it dereferences the null pointer. -/
theorem not_nullSafe_of_unread {s : Polling τ} {h : Handler τ} (halive : s.srv.crashed = none)
    (hm : s.srv.msgPtr = none) (hh : h ∈ s.srv.threadPool) (hread : unread h.pc = true) :
    ¬ NullSafe cfg s := by
  rintro ⟨-, hsafe⟩
  obtain ⟨k, hk⟩ := List.mem_iff_getElem?.mp hh
  obtain ⟨msg, pc⟩ := h
  cases pc with
  | spawned =>
      refine hsafe (.server (.readTopic k)) { s with srv := s.srv.crash .nullDeref } ?_ rfl
      simp [Polling.step, next_of_alive halive, perform, readTopic, hk, hm]
  | topicRead t =>
      refine hsafe (.server (.readPayload k)) { s with srv := s.srv.crash .nullDeref } ?_ rfl
      simp [Polling.step, next_of_alive halive, perform, readPayload, hk, hm]
  | _ => cases hread

/-- **No thread ever dereferences a null `m_msgPtr` exactly when null messages find all handlers
past their reads and `checkReconnect` never reconnects.** -/
theorem nullSafe_iff_harmless {s : Polling τ} {es : List (Event τ)}
    (hrun : exec (Polling.step cfg) Polling.start es = some s) :
    Always (Polling.step cfg) (NullSafe cfg) Polling.start es ↔
      EachStep (Polling.step cfg) Harmless Polling.start es := by
  refine always_iff_eachStep (fun s h => h.nullSafe) (fun s e s' h he hs => h.step he hs) ?_
    inv_start hrun
  intro s e s' h hs hsafe
  cases e with
  | null =>
      obtain ⟨halive, -, rfl⟩ := Polling.step_null hs
      intro hd hh
      by_contra hread
      exact not_nullSafe_of_unread (s := ⟨{ s.srv with msgPtr := none }, true⟩) halive rfl hh
        (by simpa using hread) hsafe
  | checked a =>
      intro hr
      obtain ⟨halive, -, -, es', hacts⟩ := Polling.step_checked hs
      rw [checkReconnect_eq_reconnected_iff.mpr hr] at hacts
      -- the loop goes on to `m_msgPtr->get_topic()`
      refine hsafe.2 (.server .dispatch) { s' with srv := s'.srv.crash .nullDeref } ?_ rfl
      generalize hsrv : s'.srv = srv' at hacts
      cases hacts with
      | nullReconnected hl =>
          simp only [Polling.step, hsrv]
          rw [next_of_alive (by exact halive)]
          rfl
      | handler hk hmove => cases hmove
      | crashes hc => cases hc
  | server l => trivial

/-! ## Runs -/

/-- The connection is down, the first attempt to reconnect succeeds and so does the subscription. -/
def atOnce : Answers := ⟨false, fun _ => false, fun _ => false, true⟩

/-- The connection is down and all attempts to reconnect throw. -/
def never : Answers := ⟨false, fun _ => false, fun _ => true, true⟩

/-- A successful reconnect ends in the dereference of the null pointer. -/
theorem null_dereferenced_after_reconnect :
    ¬ ∀ (cfg : Config) (es : List (Event Unit)) (s : Polling Unit),
      exec (Polling.step cfg) Polling.start es = some s → s.srv.crashed ≠ some .nullDeref := by
  intro hall
  obtain ⟨s, hs, hcrash⟩ := exists_exec_of_any
    (P := fun s : Polling Unit => s.srv.crashed = some .nullDeref)
    (show (exec (Polling.step lanCfg) Polling.start
      [.null, .checked atOnce, .server .dispatch]).any _ = true by decide +kernel)
  exact hall lanCfg _ s hs hcrash

/-- A request is handled up to its command, then the connection is lost for good. -/
def lostForGood : List (Event Unit) :=
  [.server (.consume ⟨subscibersList, "10.0.0.2 ann".toList, ()⟩), .server .dispatch,
    .server (.subscribe true), .server (.publishKey true), .server .store,
    .server (.consume ⟨"10.0.0.2".toList, "~/a".toList, ()⟩), .server .dispatch,
    .server (.readTopic 0), .server (.readPayload 0), .null, .server (.lookup 0), .checked never,
    .server (.exec 0 (some true))]

theorem lostForGood_nullSafe : ∃ s : Polling Unit,
    exec (Polling.step lanCfg) Polling.start lostForGood = some s ∧
      Always (Polling.step lanCfg) (NullSafe lanCfg) Polling.start lostForGood := by
  obtain ⟨s, hs, -⟩ := exists_exec_of_any (P := fun _ : Polling Unit => True)
    (show (exec (Polling.step lanCfg) Polling.start lostForGood).any _ = true by decide +kernel)
  exact ⟨s, hs, (nullSafe_iff_harmless hs).mpr (by decide +kernel)⟩

end BupApp.NullMessages
