/-
# BupApp.Mqtt.ThreadQueue -- the bounded queue between the library's threads and the program's

The queue is a deque under one mutex with two condition variables.  A step is one stretch of a
thread's code under the mutex: from the call to the first wait, from the return of a wait to the
next one or to the end, or the `notify_one` that some calls make after they have unlocked.  Between
any two steps any other thread may run, a wait may return without a reason, and a timed wait may run
out.

`put` signals only when it has found the queue empty, and `get` only when it has taken the value
that made the queue full.
-/
import BupApp.Lib.Transition
import Mathlib.Data.Fintype.Card
import Mathlib.Logic.Function.Basic

namespace BupApp.Mqtt

/-- The queue's condition variables, `notEmptyCond_` and `notFullCond_`. -/
inductive Cond where
  | notEmpty
  | notFull
  deriving DecidableEq

/-- The calls that change the queue.  `tryGetFor` is `try_get_for` and `try_get_until`. -/
inductive QueueCall (τ : Type*) where
  | put (val : τ)
  | tryPut (val : τ)
  | get
  | tryGet
  | tryGetFor
  | capacity (cap : Nat)
  deriving DecidableEq

/-- Where a thread is in the queue's code.  `getTimedOut` is a timed wait that has run out and must
still take the mutex again. -/
inductive QueuePc (τ : Type*) where
  | out
  | putAsleep (val : τ)
  | putWoken (val : τ)
  | getAsleep (timed : Bool)
  | getWoken (timed : Bool)
  | getTimedOut
  | notify (c : Cond)
  deriving DecidableEq

/-- The condition variable a thread sleeps on. -/
def QueuePc.waitsOn {τ : Type*} : QueuePc τ → Option Cond
  | .putAsleep _ => some .notFull
  | .getAsleep _ => some .notEmpty
  | _ => none

/-- A thread whose wait has returned. -/
def QueuePc.woken {τ : Type*} : QueuePc τ → QueuePc τ
  | .putAsleep val => .putWoken val
  | .getAsleep timed => .getWoken timed
  | p => p

structure ThreadQueue (ι τ : Type*) where
  que : List τ
  cap : Nat
  pc : ι → QueuePc τ

/-- What happens next: a thread calls, a wait returns for no reason or runs out, a thread that was
woken gets the mutex back, or a thread signals (to one of those asleep, if there is one). -/
inductive QueueLabel (ι τ : Type*) where
  | call (i : ι) (c : QueueCall τ)
  | wake (i : ι)
  | timeout (i : ι)
  | relock (i : ι)
  | notify (i : ι) (target : Option ι)
  deriving DecidableEq

namespace ThreadQueue

variable {ι τ : Type*}

/-- The constructor with a capacity.  The one without is for `MAX_CAPACITY`, the largest `size_t`. -/
def init (cap : Nat) : ThreadQueue ι τ where
  que := []
  cap := max cap 1
  pc := fun _ => .out

/-! ## The calls -/

variable [DecidableEq ι]

def goto (s : ThreadQueue ι τ) (i : ι) (p : QueuePc τ) : ThreadQueue ι τ :=
  { s with pc := Function.update s.pc i p }

/-- The end of `put` and of `try_put`. -/
def push (s : ThreadQueue ι τ) (i : ι) (val : τ) : ThreadQueue ι τ :=
  { s with que := s.que ++ [val] }.goto i (if s.que.isEmpty then .notify .notEmpty else .out)

/-- The end of `get` and its variants.  `cap_-1` is never a size when the capacity is zero. -/
def pop (s : ThreadQueue ι τ) (i : ι) : ThreadQueue ι τ :=
  { s with que := s.que.tail }.goto i
    (if s.que.tail.length + 1 = s.cap then .notify .notFull else .out)

/-- `put` from its call, and again from each return of its wait. -/
def put (s : ThreadQueue ι τ) (i : ι) (val : τ) : ThreadQueue ι τ :=
  if s.que.length ≥ s.cap then s.goto i (.putAsleep val) else s.push i val

def tryPut (s : ThreadQueue ι τ) (i : ι) (val : τ) : ThreadQueue ι τ :=
  if s.que.length ≥ s.cap then s.goto i .out else s.push i val

/-- `get` from its call, and again from each return of its wait. -/
def get (s : ThreadQueue ι τ) (i : ι) (timed : Bool) : ThreadQueue ι τ :=
  if s.que.isEmpty then s.goto i (.getAsleep timed) else s.pop i

def tryGet (s : ThreadQueue ι τ) (i : ι) : ThreadQueue ι τ :=
  if s.que.isEmpty then s.goto i .out else s.pop i

def call (s : ThreadQueue ι τ) (i : ι) : QueueCall τ → ThreadQueue ι τ
  | .put val => s.put i val
  | .tryPut val => s.tryPut i val
  | .get => s.get i false
  | .tryGet => s.tryGet i
  | .tryGetFor => s.get i true
  | .capacity cap => { s with cap := cap }

/-- A wait has returned and its thread holds the mutex: the predicate is looked at again. -/
def relock (s : ThreadQueue ι τ) (i : ι) : Option (ThreadQueue ι τ) :=
  match s.pc i with
  | .putWoken val => some (s.put i val)
  | .getWoken timed => some (s.get i timed)
  | .getTimedOut => some (s.tryGet i)
  | _ => none

/-- `notify_one` wakes one of the threads that sleep on the variable, if there is one. -/
def notifyOne [Fintype ι] (s : ThreadQueue ι τ) (i : ι) (c : Cond) :
    Option ι → Option (ThreadQueue ι τ)
  | some j =>
      if (s.pc j).waitsOn = some c then some ((s.goto j (s.pc j).woken).goto i .out) else none
  | none => if ∀ j, (s.pc j).waitsOn ≠ some c then some (s.goto i .out) else none

def step [Fintype ι] (s : ThreadQueue ι τ) : QueueLabel ι τ → Option (ThreadQueue ι τ)
  | .call i c =>
      match s.pc i with
      | .out => some (s.call i c)
      | _ => none
  | .wake i => if (s.pc i).waitsOn ≠ none then some (s.goto i (s.pc i).woken) else none
  | .timeout i =>
      match s.pc i with
      | .getAsleep true => some (s.goto i .getTimedOut)
      | _ => none
  | .relock i => s.relock i
  | .notify i target =>
      match s.pc i with
      | .notify c => s.notifyOne i c target
      | _ => none

@[simp] theorem goto_que (s : ThreadQueue ι τ) (i : ι) (p : QueuePc τ) : (s.goto i p).que = s.que :=
  rfl

@[simp] theorem goto_cap (s : ThreadQueue ι τ) (i : ι) (p : QueuePc τ) : (s.goto i p).cap = s.cap :=
  rfl

@[simp] theorem goto_pc_self (s : ThreadQueue ι τ) (i : ι) (p : QueuePc τ) :
    (s.goto i p).pc i = p := Function.update_self ..

theorem goto_pc_ne (s : ThreadQueue ι τ) {i j : ι} (p : QueuePc τ) (h : j ≠ i) :
    (s.goto i p).pc j = s.pc j := Function.update_of_ne h ..

/-! ## What a step can do -/

/-- A thread that takes the mutex to put a value, or to put the one it has been waiting with. -/
def Puts (s : ThreadQueue ι τ) (i : ι) : Prop := s.pc i = .out ∨ ∃ val, s.pc i = .putWoken val

/-- A thread that takes the mutex to get a value. -/
def Gets (s : ThreadQueue ι τ) (i : ι) : Prop :=
  s.pc i = .out ∨ (∃ timed, s.pc i = .getWoken timed) ∨ s.pc i = .getTimedOut

/-- Everything a step can do, with the guards it has passed. -/
inductive Moves (s : ThreadQueue ι τ) : QueueLabel ι τ → ThreadQueue ι τ → Prop
  | push {l} (i : ι) (val : τ) : s.Puts i → s.que.length < s.cap → Moves s l (s.push i val)
  | pop {l} (i : ι) (val : τ) (rest : List τ) : s.Gets i → s.que = val :: rest →
      Moves s l (s.pop i)
  | full {l} (i : ι) (val : τ) : s.Puts i → s.cap ≤ s.que.length →
      Moves s l (s.goto i (.putAsleep val))
  | empty {l} (i : ι) (timed : Bool) : s.Gets i → s.que = [] →
      Moves s l (s.goto i (.getAsleep timed))
  | refuse {l} (i : ι) : s.Gets i → s.pc i = .out ∨ s.que = [] → Moves s l (s.goto i .out)
  | resize (i : ι) (cap : Nat) : Moves s (.call i (.capacity cap)) { s with cap := cap }
  | wake {l} (i : ι) (c : Cond) : (s.pc i).waitsOn = some c → Moves s l (s.goto i (s.pc i).woken)
  | timeout {l} (i : ι) : s.pc i = .getAsleep true → Moves s l (s.goto i .getTimedOut)
  | notify {l} (i j : ι) (c : Cond) : s.pc i = .notify c → (s.pc j).waitsOn = some c →
      Moves s l ((s.goto j (s.pc j).woken).goto i .out)
  | notifyNone {l} (i : ι) (c : Cond) : s.pc i = .notify c → (∀ j, (s.pc j).waitsOn ≠ some c) →
      Moves s l (s.goto i .out)

theorem put_moves {s : ThreadQueue ι τ} {i : ι} {l : QueueLabel ι τ} (h : s.Puts i) (val : τ) :
    Moves s l (s.put i val) := by
  unfold put
  split
  · exact .full i val h (by assumption)
  · exact .push i val h (by omega)

theorem tryPut_moves {s : ThreadQueue ι τ} {i : ι} {l : QueueLabel ι τ} (h : s.pc i = .out)
    (val : τ) : Moves s l (s.tryPut i val) := by
  unfold tryPut
  split
  · exact .refuse i (Or.inl h) (Or.inl h)
  · exact .push i val (Or.inl h) (by omega)

theorem pop_moves {s : ThreadQueue ι τ} {i : ι} {l : QueueLabel ι τ} (h : s.Gets i)
    (hq : ¬ s.que.isEmpty = true) : Moves s l (s.pop i) := by
  match hque : s.que with
  | [] => simp [hque] at hq
  | val :: rest => exact .pop i val rest h hque

theorem get_moves {s : ThreadQueue ι τ} {i : ι} {l : QueueLabel ι τ} (h : s.Gets i)
    (timed : Bool) : Moves s l (s.get i timed) := by
  unfold get
  split
  · exact .empty i timed h (List.isEmpty_iff.mp (by assumption))
  · exact pop_moves h (by assumption)

theorem tryGet_moves {s : ThreadQueue ι τ} {i : ι} {l : QueueLabel ι τ} (h : s.Gets i) :
    Moves s l (s.tryGet i) := by
  unfold tryGet
  split
  · exact .refuse i h (Or.inr (List.isEmpty_iff.mp (by assumption)))
  · exact pop_moves h (by assumption)

theorem call_moves {s : ThreadQueue ι τ} {i : ι} (h : s.pc i = .out) (c : QueueCall τ) :
    Moves s (.call i c) (s.call i c) := by
  cases c with
  | put val => exact put_moves (Or.inl h) val
  | tryPut val => exact tryPut_moves h val
  | get => exact get_moves (Or.inl h) false
  | tryGet => exact tryGet_moves (Or.inl h)
  | tryGetFor => exact get_moves (Or.inl h) true
  | capacity cap => exact .resize i cap

theorem relock_moves {s s' : ThreadQueue ι τ} {i : ι} {l : QueueLabel ι τ}
    (h : s.relock i = some s') : Moves s l s' := by
  unfold relock at h
  split at h
  · rename_i val hi
    obtain rfl := Option.some.inj h
    exact put_moves (Or.inr ⟨val, hi⟩) val
  · rename_i timed hi
    obtain rfl := Option.some.inj h
    exact get_moves (Or.inr (Or.inl ⟨timed, hi⟩)) timed
  · rename_i hi
    obtain rfl := Option.some.inj h
    exact tryGet_moves (Or.inr (Or.inr hi))
  · cases h

variable [Fintype ι]

theorem notifyOne_moves {s s' : ThreadQueue ι τ} {i : ι} {c : Cond} {target : Option ι}
    {l : QueueLabel ι τ} (hi : s.pc i = .notify c) (h : s.notifyOne i c target = some s') :
    Moves s l s' := by
  cases target with
  | some j =>
      simp only [notifyOne] at h
      split at h
      · obtain rfl := Option.some.inj h
        exact .notify i j c hi (by assumption)
      · cases h
  | none =>
      simp only [notifyOne] at h
      split at h
      · obtain rfl := Option.some.inj h
        exact .notifyNone i c hi (by assumption)
      · cases h

theorem step_moves {s s' : ThreadQueue ι τ} {l : QueueLabel ι τ} (h : s.step l = some s') :
    Moves s l s' := by
  cases l with
  | call i c =>
      simp only [step] at h
      split at h
      · rename_i hi
        obtain rfl := Option.some.inj h
        exact call_moves hi c
      · cases h
  | wake i =>
      simp only [step] at h
      split at h
      · rename_i hi
        obtain rfl := Option.some.inj h
        obtain ⟨c, hc⟩ := Option.ne_none_iff_exists'.mp hi
        exact .wake i c hc
      · cases h
  | timeout i =>
      simp only [step] at h
      split at h
      · rename_i hi
        obtain rfl := Option.some.inj h
        exact .timeout i hi
      · cases h
  | relock i => exact relock_moves h
  | notify i target =>
      simp only [step] at h
      split at h
      · rename_i c hi
        exact notifyOne_moves hi h
      · cases h

end ThreadQueue

end BupApp.Mqtt
