/-
# BupApp.Server.Exceptions -- which failures end the server?

A broker call or a `popen` can throw at five places of the loop and the handlers, the attempts of
`tryReconnect` apart, which has its own try block.  Two of the five are in the try block of
`handleNewSubscriber`; the publish of a reply, `popen` in `execCmnd` and the subscription in
`checkReconnect` are in none, and neither a handler thread nor `working` catches anything.  So the
server survives its failures exactly when none of those three kinds occurs.

Thirty attempts of `tryReconnect` that throw leave the loop and end the server, too, but without an
exception; they are not counted here.  And as the program is wired, `connectToServer`'s handler ends
the process when the connection is lost, before a null message is there (`LibNet.server_exits`); this
is about the loop and its handlers by themselves.
-/
import BupApp.App.ServerRuns

namespace BupApp.Exceptions

open BupApp.Lib.Transition Server

variable {τ : Type} {cfg : Config}

/-! ## Failures -/

/-- A call of the step throws. -/
def Throws : Label τ → Prop
  | .subscribe ok => ok = false
  | .publishKey ok => ok = false
  | .exec _ result => result = none
  | .reply _ ok => ok = false
  | .consumeNull r => r = .threw
  | _ => False

/-- A call of the step throws and no try block is around it. -/
def Escapes : Label τ → Prop
  | .exec _ result => result = none
  | .reply _ ok => ok = false
  | .consumeNull r => r = .threw
  | _ => False

instance : ∀ l : Label τ, Decidable (Escapes l)
  | .exec _ result => inferInstanceAs (Decidable (result = none))
  | .reply _ ok => inferInstanceAs (Decidable (ok = false))
  | .consumeNull r => inferInstanceAs (Decidable (r = .threw))
  | .consume _ | .dispatch | .subscribe _ | .publishKey _ | .store | .readTopic _ | .readPayload _
  | .lookup _ => isFalse id

/-- No exception has left the top function of a thread. -/
def Contained (s : Server τ) : Prop := s.crashed ≠ some .uncaught

/-- A step that throws leaves a running process whose loop waits for the next message or goes on
where it was. -/
def Survived (cfg : Config) (s : Server τ) (l : Label τ) : Prop :=
  Throws l → ∀ s', s.next cfg l = some s' →
    s'.crashed = none ∧ (s'.loop = .waiting ∨ s'.loop = s.loop)

/-! ## One step -/

/-- An exception outside a try block ends the process. -/
theorem uncaught_of_escapes {s s' : Server τ} {l : Label τ} (hl : Escapes l)
    (hs : s.next cfg l = some s') : s'.crashed = some .uncaught := by
  obtain ⟨es, hacts⟩ := next_acts hs
  cases hacts with
  | nullThrew => rfl
  | nullReconnected | nullFailed => cases hl
  | handler hk hmove =>
      cases hmove with
      | exec => cases hl
      | reply => cases hl
      | _ => exact hl.elim
  | crashes hc =>
      cases hc with
      | popenFailed => rfl
      | replyThrew => rfl
      | _ => exact hl.elim
  | _ => exact hl.elim

/-- The other steps raise nothing that leaves their thread. -/
theorem contained_step {s s' : Server τ} {l : Label τ} (h : Contained s) (hl : ¬ Escapes l)
    (hs : s.next cfg l = some s') : Contained s' := by
  obtain ⟨es, hacts⟩ := next_acts hs
  cases hacts with
  | nullThrew => exact absurd rfl hl
  | crashes hc =>
      cases hc with
      | popenFailed => exact absurd rfl hl
      | replyThrew => exact absurd rfl hl
      | _ => simp [Contained]
  | _ => exact h

/-- What `handleNewSubscriber` catches is survived. -/
theorem survived_of_caught {s : Server τ} {l : Label τ} (hl : ¬ Escapes l) :
    Survived cfg s l := by
  intro hthrows s' hs
  obtain ⟨⟨srv', es⟩, hact, rfl⟩ := Option.map_eq_some_iff.mp hs
  have halive := act_alive hact
  have hacts := act_acts hact
  cases hacts with
  | subscribeThrew => exact ⟨halive, Or.inl rfl⟩
  | keyThrew => exact ⟨halive, Or.inl rfl⟩
  | nullThrew => exact absurd rfl hl
  | nullReconnected | nullFailed | subscribed | keySent => cases hthrows
  | handler hk hmove =>
      cases hmove with
      | exec => cases hthrows
      | reply => cases hthrows
      | _ => exact hthrows.elim
  | crashes hc =>
      cases hc with
      | popenFailed => exact absurd rfl hl
      | replyThrew => exact absurd rfl hl
      | _ => exact hthrows.elim
  | _ => exact hthrows.elim

/-! ## Runs -/

/-- **No exception leaves a thread and every failure is survived exactly in the runs in which no
`popen` fails, no publish of a reply throws and no subscription in `checkReconnect` throws.** -/
theorem survived_iff_none_escapes {s : Server τ} {ls : List (Label τ)}
    (hrun : exec (next cfg) Server.start ls = some s) :
    (Always (next cfg) Contained Server.start ls ∧
        EachStep (next cfg) (Survived cfg) Server.start ls) ↔
      ∀ l ∈ ls, ¬ Escapes l := by
  rw [← eachStep_labels_iff hrun]
  have hiff := always_iff_eachStep (C := fun _ l => ¬ Escapes l) (I := Contained) (P := Contained)
    (fun _ h => h) (fun s l s' h hl hs => contained_step h hl hs)
    (fun s l s' _ hs h' hl => h' (uncaught_of_escapes hl hs)) (by simp [Contained, Server.start])
    hrun
  rw [hiff, and_iff_left_iff_imp]
  exact fun h => h.mono fun _ _ hl => survived_of_caught hl

/-- Two registrations that fail in `handleNewSubscriber`, one that is stored, and a request. -/
def caughtTwice : List (Label Unit) :=
  [.consume ⟨subscibersList, "10.0.0.2 ann".toList, ()⟩, .dispatch, .subscribe false,
    .consume ⟨subscibersList, "10.0.0.3 bob".toList, ()⟩, .dispatch, .subscribe true,
    .publishKey false, .consume ⟨subscibersList, "10.0.0.2 ann".toList, ()⟩, .dispatch,
    .subscribe true, .publishKey true, .store, .consume ⟨"10.0.0.2".toList, "~/a".toList, ()⟩,
    .dispatch, .readTopic 0, .readPayload 0, .lookup 0, .exec 0 (some false), .reply 0 true]

/-- The same up to the command, whose `popen` fails. -/
def popenFails : List (Label Unit) :=
  [.consume ⟨subscibersList, "10.0.0.2 ann".toList, ()⟩, .dispatch, .subscribe true,
    .publishKey true, .store, .consume ⟨"10.0.0.2".toList, "~/a".toList, ()⟩, .dispatch,
    .readTopic 0, .readPayload 0, .lookup 0, .exec 0 none]

theorem caughtTwice_survived : ∃ s : Server Unit,
    exec (next lanCfg) Server.start caughtTwice = some s ∧ s.crashed = none ∧
      Always (next lanCfg) Contained Server.start caughtTwice ∧
      EachStep (next lanCfg) (Survived lanCfg) Server.start caughtTwice := by
  obtain ⟨s, hs, halive⟩ := exists_exec_of_any (P := fun s : Server Unit => s.crashed = none)
    (show (exec (next lanCfg) Server.start caughtTwice).any _ = true by decide +kernel)
  exact ⟨s, hs, halive, (survived_iff_none_escapes hs).mpr (by decide)⟩

/-- One `popen` that fails ends the server. -/
theorem popen_failure_not_survived :
    ¬ ∀ (cfg : Config) (ls : List (Label Unit)) (s : Server Unit),
      exec (next cfg) Server.start ls = some s → Contained s := by
  intro hall
  obtain ⟨s, hs, hcrash⟩ := exists_exec_of_any
    (P := fun s : Server Unit => s.crashed = some .uncaught)
    (show (exec (next lanCfg) Server.start popenFails).any _ = true by decide +kernel)
  exact hall lanCfg popenFails s hs hcrash

end BupApp.Exceptions
