/-
# BupApp.Client.Requests -- what the loop of handleBackupRequest publishes

The loop reads a line, publishes it and starts again.  It looks at neither the stream nor the result
of the publish, so each line of a finite input is requested once and in order, whether the publishes
succeed or throw; and where the input has ended the loop goes on and requests the empty path for
ever.
-/
import BupApp.App.Client
import BupApp.Lib.Transition

namespace BupApp.Requesting

open BupApp.Lib.Text BupApp.Lib.Lines BupApp.Lib.Transition

variable {privateChnl : Str}

/-! ## The requests of a run -/

/-- The path that a call asks the server to back up. -/
def request (privateChnl : Str) : Call → Option Str
  | .publish topic path _ => if topic = privateChnl then some path else none
  | _ => none

/-- The paths requested by the calls, those included whose publish has thrown. -/
def requested (privateChnl : Str) (calls : List Call) : List Str :=
  calls.filterMap (request privateChnl)

/-- How the first `n` publishes end. -/
def outcomes (ok : Nat → Bool) (n : Nat) : List Bool := (List.range n).map ok

/-- Whatever was requested so far are lines of the input, from the first one on, and after some
rounds the lines are all requested and the loop is over. -/
structure OneRequestPerLine (privateChnl stdin : Str) (ok : Nat → Bool) : Prop where
  inOrder : ∀ n s, exec (Requests.round privateChnl) ⟨stdin, []⟩ (outcomes ok n) = some s →
    requested privateChnl s.calls <+: lines stdin
  ends : ∃ n s, exec (Requests.round privateChnl) ⟨stdin, []⟩ (outcomes ok n) = some s ∧
    requested privateChnl s.calls = lines stdin ∧ Requests.round privateChnl s (ok n) = none

/-! ## One round -/

@[simp] theorem requested_publish (calls : List Call) (path : Str) (ok : Bool) :
    requested privateChnl (calls ++ [.publish privateChnl path ok]) =
      requested privateChnl calls ++ [path] := by
  simp [requested, request]

/-- A round requests the next line, or the empty path when there is none, and the loop goes on. -/
theorem round_cases (privateChnl : Str) (s : Requests) (ok : Bool) :
    ∃ s', Requests.round privateChnl s ok = some s' ∧
      requested privateChnl s'.calls =
        requested privateChnl s.calls ++ [(lines s.stdin).headD []] ∧
      lines s'.stdin = (lines s.stdin).tail := by
  cases h : getline s.stdin with
  | none =>
      have hlines : lines s.stdin = [] := by rw [getline_eq_none_iff.mp h, lines_nil]
      refine ⟨_, by rw [Requests.round, h], ?_, ?_⟩
      · rw [requested_publish, hlines, List.headD_nil]
      · rw [hlines, lines_nil, List.tail_nil]
  | some taken =>
      obtain ⟨path, rest⟩ := taken
      have hlines : lines s.stdin = path :: lines rest := lines_of_getline h
      refine ⟨_, by rw [Requests.round, h], ?_, ?_⟩
      · rw [requested_publish, hlines, List.headD_cons]
      · rw [hlines, List.tail_cons]

theorem round_ne_none (s : Requests) (ok : Bool) : Requests.round privateChnl s ok ≠ none := by
  obtain ⟨s', hs', -⟩ := round_cases privateChnl s ok
  rw [hs']
  exact Option.some_ne_none s'

/-! ## Many rounds -/

/-- The first `n` of the lines, filled up with empty ones. -/
def padded (n : Nat) (ls : List Str) : List Str := (List.range n).map fun i => ls.getD i []

theorem padded_succ (n : Nat) (ls : List Str) :
    padded (n + 1) ls = ls.headD [] :: padded n ls.tail := by
  rw [padded, List.range_succ_eq_map, List.map_cons, List.map_map]
  cases ls <;> rfl

/-- **After any rounds the requests are the lines in order, and empty paths once there are no more
lines.** -/
theorem requested_eq_padded (privateChnl : Str) (oks : List Bool) (s : Requests) :
    ∃ t, exec (Requests.round privateChnl) s oks = some t ∧
      requested privateChnl t.calls =
        requested privateChnl s.calls ++ padded oks.length (lines s.stdin) := by
  induction oks generalizing s with
  | nil => exact ⟨s, rfl, by simp [padded]⟩
  | cons ok oks ih =>
      obtain ⟨u, hu, hcalls, hlines⟩ := round_cases privateChnl s ok
      obtain ⟨t, ht, hrequested⟩ := ih u
      refine ⟨t, exec_cons_some.mpr ⟨u, hu, ht⟩, ?_⟩
      rw [hrequested, hcalls, hlines, List.length_cons, padded_succ, List.append_assoc,
        List.singleton_append]

/-- More rounds than lines request more than the lines. -/
theorem exists_not_prefix (privateChnl stdin : Str) (ok : Nat → Bool) :
    ∃ n s, exec (Requests.round privateChnl) ⟨stdin, []⟩ (outcomes ok n) = some s ∧
      ¬ requested privateChnl s.calls <+: lines stdin := by
  obtain ⟨s, hs, hrequested⟩ := requested_eq_padded privateChnl
    (outcomes ok ((lines stdin).length + 1)) ⟨stdin, []⟩
  refine ⟨_, s, hs, fun hprefix => ?_⟩
  have hcount : (requested privateChnl s.calls).length = (lines stdin).length + 1 := by
    rw [hrequested]
    simp [requested, padded, outcomes]
  have hlength := hprefix.length_le
  omega

/-- **No input is requested line by line and then left: the loop does not end, and after the last
line it requests what is no line.** -/
theorem not_oneRequestPerLine (privateChnl stdin : Str) (ok : Nat → Bool) :
    ¬ OneRequestPerLine privateChnl stdin ok := by
  intro h
  obtain ⟨n, s, hs, hnot⟩ := exists_not_prefix privateChnl stdin ok
  exact hnot (h.inOrder n s hs)

/-- One line, typed and published; the second round publishes the empty path. -/
theorem requested_twice :
    ¬ OneRequestPerLine "10.0.0.2".toList "~/a\n".toList fun _ => true := by
  rintro ⟨-, n, s, -, -, hend⟩
  exact round_ne_none s true hend

end BupApp.Requesting
