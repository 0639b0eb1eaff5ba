/-
# BupApp.Lib.Fifo -- a first-in first-out channel as a transition system

The channel's state is what it holds, the oldest value first.  Over a run from the empty channel the
values taken are a prefix of the values put, and the rest is what the channel holds: nothing is
lost, made up, taken twice or overtaken.
-/
import BupApp.Lib.Refinement

namespace BupApp.Lib.Fifo

open BupApp.Lib.Transition

variable {τ : Type*}

/-- What is done to a channel. -/
inductive Op (τ : Type*) where
  | put (v : τ)
  | take (v : τ)
  deriving DecidableEq

/-- The values put, in the order they were put. -/
def puts : List (Op τ) → List τ :=
  List.filterMap fun
    | .put v => some v
    | .take _ => none

/-- The values taken, in the order they were taken. -/
def takes : List (Op τ) → List τ :=
  List.filterMap fun
    | .put _ => none
    | .take v => some v

variable [DecidableEq τ]

/-- A value is taken when it is the oldest one. -/
def step (q : List τ) : Op τ → Option (List τ)
  | .put v => some (q ++ [v])
  | .take v => if q.head? = some v then some q.tail else none

theorem step_take {q q' : List τ} {v : τ} (h : step q (.take v) = some q') : q = v :: q' := by
  simp only [step] at h
  split at h
  · rename_i hv
    obtain rfl := Option.some.inj h
    exact List.eq_cons_of_mem_head? hv
  · cases h

theorem step_take_cons (v : τ) (q : List τ) : step (v :: q) (.take v) = some q := by
  simp [step]

/-- Nothing is lost, made up, taken twice or overtaken. -/
theorem conserves {q q' : List τ} {os : List (Op τ)} (h : exec step q os = some q') :
    q ++ puts os = takes os ++ q' := by
  induction os generalizing q with
  | nil =>
      obtain rfl := Option.some.inj h
      simp [puts, takes]
  | cons o os ih =>
      obtain ⟨r, hr, hrest⟩ := exec_cons_some.mp h
      cases o with
      | put v =>
          obtain rfl := Option.some.inj hr
          have hind := ih hrest
          simpa [puts, takes] using hind
      | take v =>
          obtain rfl := step_take hr
          have hind := ih hrest
          simp only [puts, takes, List.filterMap_cons, List.cons_append] at hind ⊢
          rw [hind]

end BupApp.Lib.Fifo
