/-
# BupApp.Mqtt.QueueFifo -- no interleaving loses, repeats or reorders a value

The queue with its mutex, its condition variables and any number of threads implements the
first-in first-out channel: what a step does to the channel can be read off its label and the place
its thread is at.  Beside that, each thread's calls of `put` put their value once, however often
their waits return for no reason, and the queue stays within the capacities it has been given.
-/
import BupApp.Lib.Fifo
import BupApp.Mqtt.ThreadQueue

namespace BupApp.Mqtt

open BupApp.Lib
open BupApp.Lib.Transition

namespace ThreadQueue

variable {ι τ : Type*} [DecidableEq ι]

/-! ## What a step does to the channel -/

/-- What `put` and `try_put` do to the channel. -/
def pushed (s : ThreadQueue ι τ) (val : τ) : List (Fifo.Op τ) :=
  if s.que.length ≥ s.cap then [] else [.put val]

/-- What `get` and its variants do to the channel. -/
def popped (s : ThreadQueue ι τ) : List (Fifo.Op τ) := (s.que.head?.map .take).toList

/-- What a step does to the channel: the value that goes in, or the one a thread gets. -/
def channel (s : ThreadQueue ι τ) : QueueLabel ι τ → List (Fifo.Op τ)
  | .call _ (.put val) | .call _ (.tryPut val) => s.pushed val
  | .call _ .get | .call _ .tryGet | .call _ .tryGetFor => s.popped
  | .relock i =>
      match s.pc i with
      | .putWoken val => s.pushed val
      | .getWoken _ | .getTimedOut => s.popped
      | _ => []
  | _ => []

section

variable [DecidableEq τ]

theorem put_channel (s : ThreadQueue ι τ) (i : ι) (val : τ) :
    exec Fifo.step s.que (s.pushed val) = some (s.put i val).que := by
  unfold pushed put
  split
  · rfl
  · rfl

theorem tryPut_channel (s : ThreadQueue ι τ) (i : ι) (val : τ) :
    exec Fifo.step s.que (s.pushed val) = some (s.tryPut i val).que := by
  unfold pushed tryPut
  split
  · rfl
  · rfl

theorem pop_channel (s : ThreadQueue ι τ) (i : ι) :
    exec Fifo.step s.que s.popped = some (s.pop i).que := by
  unfold popped pop
  match hque : s.que with
  | [] => rfl
  | val :: rest => exact exec_cons_of_step (Fifo.step_take_cons val rest) []

theorem get_channel (s : ThreadQueue ι τ) (i : ι) (timed : Bool) :
    exec Fifo.step s.que s.popped = some (s.get i timed).que := by
  unfold get
  split
  · rename_i hque
    rw [List.isEmpty_iff] at hque
    simp [popped, hque]
  · exact pop_channel s i

theorem tryGet_channel (s : ThreadQueue ι τ) (i : ι) :
    exec Fifo.step s.que s.popped = some (s.tryGet i).que := by
  unfold tryGet
  split
  · rename_i hque
    rw [List.isEmpty_iff] at hque
    simp [popped, hque]
  · exact pop_channel s i

theorem call_channel (s : ThreadQueue ι τ) (i : ι) (c : QueueCall τ) :
    exec Fifo.step s.que (s.channel (.call i c)) = some (s.call i c).que := by
  cases c with
  | put val => exact put_channel s i val
  | tryPut val => exact tryPut_channel s i val
  | get => exact get_channel s i false
  | tryGet => exact tryGet_channel s i
  | tryGetFor => exact get_channel s i true
  | capacity cap => rfl

theorem relock_channel {s s' : ThreadQueue ι τ} {i : ι} (h : s.relock i = some s') :
    exec Fifo.step s.que (s.channel (.relock i)) = some s'.que := by
  unfold relock at h
  split at h
  · rename_i val hi
    obtain rfl := Option.some.inj h
    simp only [channel, hi]
    exact put_channel s i val
  · rename_i timed hi
    obtain rfl := Option.some.inj h
    simp only [channel, hi]
    exact get_channel s i timed
  · rename_i hi
    obtain rfl := Option.some.inj h
    simp only [channel, hi]
    exact tryGet_channel s i
  · cases h

end

/-! ## What a thread has yet to put -/

/-- The value a thread is still waiting to put. -/
def pending : QueuePc τ → List τ
  | .putAsleep val | .putWoken val => [val]
  | _ => []

/-- The value thread `i` asks to put at a step. -/
def asked (i : ι) (_ : ThreadQueue ι τ) : QueueLabel ι τ → List τ
  | .call j (.put val) => if j = i then [val] else []
  | _ => []

/-- The value that a `put` of thread `i` enters at a step. -/
def putBy (i : ι) (s : ThreadQueue ι τ) : QueueLabel ι τ → List τ
  | .call j (.put val) => if j = i then Fifo.puts (s.pushed val) else []
  | .relock j =>
      match s.pc j with
      | .putWoken val => if j = i then Fifo.puts (s.pushed val) else []
      | _ => []
  | _ => []

omit [DecidableEq ι] in
theorem pending_woken (p : QueuePc τ) : pending p.woken = pending p := by
  cases p <;> rfl

theorem goto_pc_pending (s : ThreadQueue ι τ) (i j : ι) {p : QueuePc τ}
    (hp : pending p = pending (s.pc i)) : pending ((s.goto i p).pc j) = pending (s.pc j) := by
  by_cases hj : j = i
  · subst hj
    rw [goto_pc_self, hp]
  · rw [goto_pc_ne s p hj]

/-- `put` under the mutex: the value is in the queue, or its thread still waits with it. -/
theorem put_pending (s : ThreadQueue ι τ) (i : ι) (val : τ) :
    [val] = Fifo.puts (s.pushed val) ++ pending ((s.put i val).pc i) := by
  unfold put pushed
  split
  · simp [pending, Fifo.puts]
  · simp only [push, goto_pc_self]
    split
    · simp [pending, Fifo.puts]
    · simp [pending, Fifo.puts]

theorem put_pc_ne (s : ThreadQueue ι τ) {i j : ι} (val : τ) (h : j ≠ i) :
    (s.put i val).pc j = s.pc j := by
  unfold put
  split
  · exact goto_pc_ne s _ h
  · exact goto_pc_ne _ _ h

theorem pop_pending (s : ThreadQueue ι τ) {i : ι} (j : ι) (hi : pending (s.pc i) = []) :
    pending ((s.pop i).pc j) = pending (s.pc j) := by
  refine goto_pc_pending _ i j ?_
  rw [hi]
  split
  · rfl
  · rfl

theorem get_pending (s : ThreadQueue ι τ) {i : ι} (j : ι) (timed : Bool)
    (hi : pending (s.pc i) = []) : pending ((s.get i timed).pc j) = pending (s.pc j) := by
  unfold get
  split
  · exact goto_pc_pending s i j (by rw [hi]; rfl)
  · exact pop_pending s j hi

theorem tryGet_pending (s : ThreadQueue ι τ) {i : ι} (j : ι)
    (hi : pending (s.pc i) = []) : pending ((s.tryGet i).pc j) = pending (s.pc j) := by
  unfold tryGet
  split
  · exact goto_pc_pending s i j (by rw [hi]; rfl)
  · exact pop_pending s j hi

theorem tryPut_pending (s : ThreadQueue ι τ) {i : ι} (j : ι) (val : τ)
    (hi : pending (s.pc i) = []) : pending ((s.tryPut i val).pc j) = pending (s.pc j) := by
  unfold tryPut
  split
  · exact goto_pc_pending s i j (by rw [hi]; rfl)
  · refine goto_pc_pending _ i j ?_
    rw [hi]
    split
    · rfl
    · rfl

/-- The steps of `put`, for its own thread and for the others. -/
theorem put_balance (s : ThreadQueue ι τ) (i j : ι) (val : τ) :
    (if j = i then [val] else pending (s.pc i)) =
      (if j = i then Fifo.puts (s.pushed val) else []) ++ pending ((s.put j val).pc i) := by
  split
  · rename_i hj
    subst hj
    exact put_pending s j val
  · rename_i hj
    rw [put_pc_ne s val (Ne.symm hj)]
    rfl

theorem call_balance {s : ThreadQueue ι τ} {j : ι} (i : ι) (c : QueueCall τ)
    (hj : s.pc j = .out) :
    pending (s.pc i) ++ s.asked i (.call j c) =
      s.putBy i (.call j c) ++ pending ((s.call j c).pc i) := by
  have hnone : pending (s.pc j) = [] := by rw [hj]; rfl
  cases c with
  | put val =>
      simp only [asked, putBy, call]
      rw [← put_balance s i j val]
      split
      · rename_i h
        subst h
        rw [hnone]
        rfl
      · exact List.append_nil _
  | tryPut val =>
      simp only [asked, putBy, call, List.append_nil, List.nil_append]
      exact (tryPut_pending s i val hnone).symm
  | get =>
      simp only [asked, putBy, call, List.append_nil, List.nil_append]
      exact (get_pending s i false hnone).symm
  | tryGet =>
      simp only [asked, putBy, call, List.append_nil, List.nil_append]
      exact (tryGet_pending s i hnone).symm
  | tryGetFor =>
      simp only [asked, putBy, call, List.append_nil, List.nil_append]
      exact (get_pending s i true hnone).symm
  | capacity cap => simp only [asked, putBy, call, List.append_nil, List.nil_append]

theorem relock_balance {s s' : ThreadQueue ι τ} {j : ι} (i : ι) (h : s.relock j = some s') :
    pending (s.pc i) = s.putBy i (.relock j) ++ pending (s'.pc i) := by
  unfold relock at h
  split at h
  · rename_i val hj
    obtain rfl := Option.some.inj h
    simp only [putBy, hj]
    rw [← put_balance s i j val]
    split
    · rename_i hij
      rw [← hij, hj]
      rfl
    · rfl
  · rename_i timed hj
    obtain rfl := Option.some.inj h
    simp only [putBy, hj, List.nil_append]
    exact (get_pending s i timed (by rw [hj]; rfl)).symm
  · rename_i hj
    obtain rfl := Option.some.inj h
    simp only [putBy, hj, List.nil_append]
    exact (tryGet_pending s i (by rw [hj]; rfl)).symm
  · cases h

/-! ## Runs -/

variable [Fintype ι]

theorem notifyOne_que {s s' : ThreadQueue ι τ} {i : ι} {c : Cond} {target : Option ι}
    (h : s.notifyOne i c target = some s') : s'.que = s.que := by
  cases target with
  | some j =>
      simp only [notifyOne] at h
      split at h
      · obtain rfl := Option.some.inj h
        rfl
      · cases h
  | none =>
      simp only [notifyOne] at h
      split at h
      · obtain rfl := Option.some.inj h
        rfl
      · cases h

/-- The values that have gone in over a run, and the values threads have got, each in order. -/
def entered (s : ThreadQueue ι τ) (ls : List (QueueLabel ι τ)) : List τ :=
  Fifo.puts (observed step channel s ls)

def handedOut (s : ThreadQueue ι τ) (ls : List (QueueLabel ι τ)) : List τ :=
  Fifo.takes (observed step channel s ls)

section

variable [DecidableEq τ]

/-- The queue with its mutex, its condition variables and any number of threads implements the
channel. -/
theorem simulates_fifo :
    Simulates (step : ThreadQueue ι τ → _) Fifo.step channel (fun s q => s.que = q) := by
  constructor
  rintro s q l s' rfl h
  refine ⟨s'.que, ?_, rfl⟩
  cases l with
  | call i c =>
      simp only [step] at h
      split at h
      · obtain rfl := Option.some.inj h
        exact call_channel s i c
      · cases h
  | wake i =>
      simp only [step] at h
      split at h
      · obtain rfl := Option.some.inj h
        rfl
      · cases h
  | timeout i =>
      simp only [step] at h
      split at h
      · obtain rfl := Option.some.inj h
        rfl
      · cases h
  | relock i => exact relock_channel h
  | notify i target =>
      simp only [step] at h
      split at h
      · show some s.que = some s'.que
        rw [notifyOne_que h]
      · cases h

/-- Between any number of threads, whatever the order of their steps, no value is lost, made up,
handed out twice or overtaken by a later one. -/
theorem fifo {s s' : ThreadQueue ι τ} {ls : List (QueueLabel ι τ)}
    (h : exec step s ls = some s') : s.que ++ s.entered ls = s.handedOut ls ++ s'.que := by
  obtain ⟨q, hq, rfl⟩ := simulates_fifo.exec rfl h
  exact Fifo.conserves hq

end

/-! ## Every `put` once -/

theorem notifyOne_pending {s s' : ThreadQueue ι τ} {j : ι} {c : Cond} {target : Option ι} (i : ι)
    (hj : s.pc j = .notify c) (h : s.notifyOne j c target = some s') :
    pending (s'.pc i) = pending (s.pc i) := by
  cases target with
  | some k =>
      simp only [notifyOne] at h
      split at h
      · rename_i hk
        obtain rfl := Option.some.inj h
        have hne : j ≠ k := by
          rintro rfl
          rw [hj] at hk
          cases hk
        have hj' : pending ((s.goto k (s.pc k).woken).pc j) = [] := by
          rw [goto_pc_ne s _ hne, hj]
          rfl
        rw [goto_pc_pending _ j i (by rw [hj']; rfl)]
        exact goto_pc_pending s k i (pending_woken _)
      · cases h
  | none =>
      simp only [notifyOne] at h
      split at h
      · obtain rfl := Option.some.inj h
        exact goto_pc_pending s j i (by rw [hj]; rfl)
      · cases h

theorem step_balance (i : ι) {s s' : ThreadQueue ι τ} {l : QueueLabel ι τ}
    (h : s.step l = some s') :
    pending (s.pc i) ++ s.asked i l = s.putBy i l ++ pending (s'.pc i) := by
  cases l with
  | call j c =>
      simp only [step] at h
      split at h
      · rename_i hj
        obtain rfl := Option.some.inj h
        exact call_balance i c hj
      · cases h
  | wake j =>
      simp only [step] at h
      split at h
      · obtain rfl := Option.some.inj h
        simp only [asked, putBy, List.append_nil, List.nil_append]
        exact (goto_pc_pending s j i (pending_woken _)).symm
      · cases h
  | timeout j =>
      simp only [step] at h
      split at h
      · rename_i hj
        obtain rfl := Option.some.inj h
        simp only [asked, putBy, List.append_nil, List.nil_append]
        exact (goto_pc_pending s j i (by rw [hj]; rfl)).symm
      · cases h
  | relock j =>
      simp only [asked, List.append_nil]
      exact relock_balance i h
  | notify j target =>
      simp only [step] at h
      split at h
      · rename_i c hj
        simp only [asked, putBy, List.append_nil, List.nil_append]
        exact (notifyOne_pending i hj h).symm
      · cases h

/-! ## How long the queue gets -/

/-- The capacities set in a run. -/
def capacities : List (QueueLabel ι τ) → List Nat :=
  List.filterMap fun
    | .call _ (.capacity cap) => some cap
    | _ => none

/-- The queue is no longer than the largest capacity it has had. -/
def Bounded (caps : List Nat) (s : ThreadQueue ι τ) : Prop :=
  s.cap ∈ caps ∧ ∃ cap ∈ caps, s.que.length ≤ cap

theorem Bounded.step {caps : List Nat} {s s' : ThreadQueue ι τ} {l : QueueLabel ι τ}
    (hs : s.Bounded caps) (h : s.step l = some s') : s'.Bounded (caps ++ capacities [l]) := by
  obtain ⟨hcap, cap, hmem, hlen⟩ := hs
  have hold : ∀ n ∈ caps, n ∈ caps ++ capacities [l] := fun n hn => List.mem_append_left _ hn
  have hkeep : ∀ t : ThreadQueue ι τ, t.cap = s.cap → t.que.length ≤ cap →
      t.Bounded (caps ++ capacities [l]) := by
    intro t htc htl
    exact ⟨by rw [htc]; exact hold _ hcap, cap, hold _ hmem, htl⟩
  cases step_moves h with
  | push i val hi hroom =>
      refine ⟨hold _ hcap, s.cap, hold _ hcap, ?_⟩
      show (s.que ++ [val]).length ≤ s.cap
      simp only [List.length_append, List.length_singleton]
      omega
  | pop i val rest hi hque =>
      refine hkeep _ rfl ?_
      show s.que.tail.length ≤ cap
      rw [List.length_tail]
      omega
  | resize i n => exact ⟨by simp [capacities], cap, hold _ hmem, hlen⟩
  | full i val hi hfull => exact hkeep _ rfl hlen
  | empty i timed hi hque => exact hkeep _ rfl hlen
  | refuse i hi hout => exact hkeep _ rfl hlen
  | wake i c hi => exact hkeep _ rfl hlen
  | timeout i hi => exact hkeep _ rfl hlen
  | notify i j c hi hj => exact hkeep _ rfl hlen
  | notifyNone i c hi hnone => exact hkeep _ rfl hlen

theorem exec_bounded {caps : List Nat} {s s' : ThreadQueue ι τ} {ls : List (QueueLabel ι τ)}
    (hs : s.Bounded caps) (h : exec step s ls = some s') :
    s'.Bounded (caps ++ capacities ls) := by
  induction ls generalizing s caps with
  | nil =>
      obtain rfl := Option.some.inj h
      simpa [capacities] using hs
  | cons l ls ih =>
      obtain ⟨u, hu, hrest⟩ := exec_cons_some.mp h
      have hnext := ih (hs.step hu) hrest
      rw [List.append_assoc] at hnext
      simpa only [capacities, ← List.filterMap_append, List.singleton_append] using hnext

/-- Over any run of any number of threads: the values handed out and those still held are the
values that have gone in, in that order; each thread's calls of `put` have each put their value
once, in the order of the calls, but for the one the thread may be waiting in; and the queue is no
longer than the largest capacity it has had. -/
theorem conserves_puts [DecidableEq τ] {n : Nat} {s : ThreadQueue ι τ}
    {ls : List (QueueLabel ι τ)} (h : exec step (init n) ls = some s) :
    (init n).entered ls = (init n).handedOut ls ++ s.que ∧
      (∀ i, observed step (asked i) (init n) ls =
        observed step (putBy i) (init n) ls ++ pending (s.pc i)) ∧
      ∃ cap ∈ max n 1 :: capacities ls, s.que.length ≤ cap := by
  refine ⟨fifo h, fun i => ?_, ?_⟩
  · exact observed_balance (fun s l s' => step_balance i) h
  · have hinit : (init n : ThreadQueue ι τ).Bounded [max n 1] :=
      ⟨List.mem_singleton.mpr rfl, max n 1, List.mem_singleton.mpr rfl, Nat.zero_le _⟩
    exact (exec_bounded hinit h).2

/-- Two threads put into a queue with room for one value; the second sleeps until the first has
taken a value. -/
def fullOnce : List (QueueLabel (Fin 2) Nat) :=
  [.call 0 (.put 5), .notify 0 none, .call 1 (.put 6), .call 0 .get, .notify 0 (some 1), .relock 1]

theorem conserves_puts_fullOnce :
    ∃ s : ThreadQueue (Fin 2) Nat, exec step (init 1) fullOnce = some s ∧
      (init 1).entered fullOnce = (init 1).handedOut fullOnce ++ s.que ∧
      observed step (asked 1) (init 1) fullOnce =
        observed step (putBy 1) (init 1) fullOnce ++ pending (s.pc 1) ∧
      s.que.length ≤ 1 := by
  obtain ⟨s, hs, -⟩ : ∃ s, exec step (init 1) fullOnce = some s ∧ s.que = [6] :=
    exists_exec_of_any (by decide +kernel)
  obtain ⟨hfifo, hput, cap, hcap, hlen⟩ := conserves_puts hs
  obtain rfl : cap = 1 := List.mem_singleton.mp hcap
  exact ⟨s, hs, hfifo, hput 1, hlen⟩

end ThreadQueue

end BupApp.Mqtt
