/-
# BupApp.Server.Recovery -- do tryReconnect and checkReconnect tell the truth?

`reconnect` starts an attempt and returns; `tryReconnect` takes that for the connection.  And the
false of `checkReconnect` says that there is no connection, or that there was no need for a new one;
`working` leaves its loop for both.  What they return is settled by the answers of the library
(`Server.Answers`); whether it is true depends on how the connection goes on meanwhile.

As the program is wired, `connectToServer`'s handler ends the process when the connection is lost,
before `working` calls any of this (`LibNet.server_exits`); this is about the functions by
themselves.
-/
import BupApp.App.Session

namespace BupApp.Recovery

open Server

variable {τ : Type}

/-! ## The property -/

/-- The answers of the library in one `checkReconnect`, and the connection as it is when each of the
two functions returns. -/
structure Course extends Answers where
  upThen : Bool          -- connected when `tryReconnect` returns
  upAfter : Bool         -- connected when `checkReconnect` returns
  channelAfter : Bool    -- and then subscribed to the public channel

/-- The two functions return true exactly when it is so, and a null message ends the loop of
`working` only when there is no connection. -/
structure Truthful (τ : Type) (r : Course) : Prop where
  tryReconnect : r.isConnected = false →
    (Server.tryReconnect r.connected r.throws = true ↔ r.upThen = true)
  checkReconnect : Server.checkReconnect r.toAnswers ≠ .threw →
    (Server.checkReconnect r.toAnswers = .reconnected ↔
      r.upAfter = true ∧ r.channelAfter = true)
  leaves : ∀ cfg (s s' : Server τ) es,
    s.act cfg (.consumeNull (Server.checkReconnect r.toAnswers)) = some (s', es) →
      s'.loop = .left → r.upAfter = false

/-! ## The condition -/

/-- One of the thirty attempts does not throw, and the connection is not found up before it. -/
def Starts (a : Answers) : Prop :=
  ∃ k < nAttempt, a.throws k = false ∧ (∀ j ≤ k, a.connected j = false) ∧
    ∀ j < k, a.throws j = true

/-- A connection that was found up is gone again; an attempt that was started has succeeded by the
time that `tryReconnect` returns, and with the subscription it lasts; and where no attempt was
started there is no connection. -/
structure AsReported (r : Course) : Prop where
  found : r.isConnected = true → r.upAfter = false
  started : r.isConnected = false → Starts r.toAnswers →
    r.upThen = true ∧ (r.subscribed = true → r.upAfter = true ∧ r.channelAfter = true)
  notStarted : r.isConnected = false → ¬ Starts r.toAnswers →
    r.upThen = false ∧ r.upAfter = false

/-! ## What the functions return -/

theorem checkReconnect_found {a : Answers} (h : a.isConnected = true) :
    Server.checkReconnect a = .failed := by
  rw [Server.checkReconnect, if_pos h]

theorem checkReconnect_started {a : Answers} (h : a.isConnected = false) (hstarts : Starts a) :
    Server.checkReconnect a = if a.subscribed then .reconnected else .threw := by
  rw [Server.checkReconnect, if_neg (by simp [h]), if_pos (tryReconnect_iff.mpr hstarts)]

theorem checkReconnect_notStarted {a : Answers} (h : a.isConnected = false)
    (hnot : ¬ Starts a) : Server.checkReconnect a = .failed := by
  rw [Server.checkReconnect, if_neg (by simp [h]), if_neg fun ht => hnot (tryReconnect_iff.mp ht)]

/-- `working` leaves its loop after a null message when `checkReconnect` returns false. -/
theorem failed_of_left {cfg : Config} {s s' : Server τ} {r : Reconnect} {es : List Effect}
    (h : s.act cfg (.consumeNull r) = some (s', es)) (hleft : s'.loop = .left) : r = .failed := by
  cases act_acts h with
  | nullFailed => rfl
  | nullReconnected => cases hleft
  | nullThrew hl =>
      rw [hl] at hleft
      cases hleft
  | handler hk hmove => cases hmove
  | crashes hc => cases hc

theorem exists_left (τ : Type) : ∃ (cfg : Config) (s s' : Server τ) (es : List Effect),
    s.act cfg (.consumeNull .failed) = some (s', es) ∧ s'.loop = .left :=
  ⟨⟨[], []⟩, Server.start, _, [], rfl, rfl⟩

/-! ## When they tell the truth -/

variable {r : Course}

theorem truthful_of_asReported (h : AsReported r) : Truthful τ r := by
  by_cases hfound : r.isConnected = true
  · have hreturn := checkReconnect_found hfound
    have hdown := h.found hfound
    refine ⟨fun hlost => ?_, fun _ => ?_, fun _ _ _ _ _ _ => hdown⟩
    · rw [hfound] at hlost
      cases hlost
    · rw [hreturn, hdown]
      simp
  · rw [Bool.not_eq_true] at hfound
    by_cases hstarts : Starts r.toAnswers
    · obtain ⟨hthen, hafter⟩ := h.started hfound hstarts
      have hreturn := checkReconnect_started hfound hstarts
      refine ⟨fun _ => ?_, fun hno => ?_, fun cfg s s' es hact hleft => ?_⟩
      · exact iff_of_true (tryReconnect_iff.mpr hstarts) hthen
      · cases hs : r.subscribed with
        | true =>
            rw [hreturn, hs]
            exact iff_of_true rfl (hafter hs)
        | false =>
            rw [hreturn, hs] at hno
            exact absurd rfl hno
      · have hfailed := failed_of_left hact hleft
        rw [hreturn] at hfailed
        split at hfailed <;> cases hfailed
    · obtain ⟨hthen, hdown⟩ := h.notStarted hfound hstarts
      have hreturn := checkReconnect_notStarted hfound hstarts
      refine ⟨fun _ => ?_, fun _ => ?_, fun _ _ _ _ _ _ => hdown⟩
      · rw [hthen]
        exact iff_of_false (fun ht => hstarts (tryReconnect_iff.mp ht)) (by simp)
      · rw [hreturn, hdown]
        simp

theorem asReported_of_truthful (h : Truthful τ r) : AsReported r := by
  -- a false that ends the loop is true only without a connection
  have hdown : checkReconnect r.toAnswers = .failed → r.upAfter = false := by
    intro hfailed
    obtain ⟨cfg, s, s', es, hact, hleft⟩ := exists_left τ
    exact h.leaves cfg s s' es (by rw [hfailed]; exact hact) hleft
  refine ⟨fun hfound => hdown (checkReconnect_found hfound), ?_, ?_⟩
  · intro hlost hstarts
    refine ⟨(h.tryReconnect hlost).mp (tryReconnect_iff.mpr hstarts), fun hs => ?_⟩
    have hreturn : checkReconnect r.toAnswers = .reconnected := by
      rw [checkReconnect_started hlost hstarts, if_pos hs]
    exact (h.checkReconnect (by simp [hreturn])).mp hreturn
  · intro hlost hnot
    refine ⟨?_, hdown (checkReconnect_notStarted hlost hnot)⟩
    rw [← Bool.not_eq_true]
    exact fun hup => hnot (tryReconnect_iff.mp ((h.tryReconnect hlost).mpr hup))

/-- **Recovery tells the truth exactly when every attempt that is started has succeeded by the time
its start is reported, and a connection that is found up is gone when `checkReconnect` returns.** -/
theorem truthful_iff (τ : Type) (r : Course) : Truthful τ r ↔ AsReported r :=
  ⟨asReported_of_truthful, truthful_of_asReported⟩

/-! ## Two courses -/

/-- The connection is down and the attempt to make a new one fails after it has started; the
connection is up when `checkReconnect` asks, and stays up. -/
theorem not_truthful :
    ¬ Truthful Unit ⟨⟨false, fun _ => false, fun _ => false, false⟩, false, false, false⟩ ∧
      ¬ Truthful Unit ⟨⟨true, fun _ => true, fun _ => false, true⟩, true, true, true⟩ := by
  constructor
  · intro h
    cases (h.tryReconnect rfl).mp (by decide)
  · intro h
    cases (asReported_of_truthful h).found rfl

end BupApp.Recovery
