/-
# BupApp.Mqtt.WakeUps -- when a sleeping thread can be forgotten

`put` signals only a queue it has found empty, and `get` only a queue it has found full.  A thread
that is woken does not signal the next one.  So a thread can be left asleep although what it waits
for is there, with no other thread on its way to wake it: only a wait that returns for no reason, or
another call that signals, gets it going again.

This cannot happen as long as at most one thread sleeps on the condition variable, nor in a queue of
capacity one; with two sleepers and room for two values it can.
-/
import BupApp.Lib.Transition
import BupApp.Mqtt.ThreadQueue

namespace BupApp.Mqtt

open BupApp.Lib.Transition

/-- What a thread that will go on by itself is about to do: to signal a condition variable, or to
use what it was waiting for on one.  A thread outside the queue's code, or asleep, does neither. -/
def QueuePc.serves {τ : Type*} : QueuePc τ → Option Cond
  | .putWoken _ => some .notFull
  | .getWoken _ | .getTimedOut => some .notEmpty
  | .notify c => some c
  | .out | .putAsleep _ | .getAsleep _ => none

namespace ThreadQueue

variable {ι τ : Type*}

/-- What the threads that sleep on a condition variable wait for. -/
def ready (s : ThreadQueue ι τ) : Cond → Bool
  | .notEmpty => !s.que.isEmpty
  | .notFull => s.que.length < s.cap

/-- The call raises the capacity; nobody is signalled then. -/
def Raises (s : ThreadQueue ι τ) : QueueLabel ι τ → Prop
  | .call _ (.capacity cap) => s.cap < cap
  | _ => False

instance (s : ThreadQueue ι τ) : ∀ l : QueueLabel ι τ, Decidable (s.Raises l)
  | .call _ (.capacity cap) => inferInstanceAs (Decidable (s.cap < cap))
  | .call _ (.put _) | .call _ (.tryPut _) | .call _ .get | .call _ .tryGet | .call _ .tryGetFor
  | .wake _ | .timeout _ | .relock _ | .notify _ _ => isFalse id

/-- The threads that sleep on a condition variable. -/
def asleep [Fintype ι] (s : ThreadQueue ι τ) (c : Cond) : Finset ι :=
  Finset.univ.filter fun i => (s.pc i).waitsOn = some c

/-- A thread sleeps although what it waits for is there, and no thread will go on by itself. -/
def Stranded [Fintype ι] (s : ThreadQueue ι τ) (c : Cond) : Prop :=
  (s.asleep c).Nonempty ∧ s.ready c = true ∧ ∀ i, (s.pc i).serves = none

instance [Fintype ι] (s : ThreadQueue ι τ) (c : Cond) : Decidable (s.Stranded c) :=
  inferInstanceAs (Decidable (_ ∧ _ ∧ _))

theorem ready_notEmpty {s : ThreadQueue ι τ} : s.ready .notEmpty = true ↔ s.que ≠ [] := by
  simp [ready]

theorem ready_notFull {s : ThreadQueue ι τ} :
    s.ready .notFull = true ↔ s.que.length < s.cap := by
  simp [ready]

theorem mem_asleep [Fintype ι] {s : ThreadQueue ι τ} {c : Cond} {i : ι} :
    i ∈ s.asleep c ↔ (s.pc i).waitsOn = some c := by
  simp [asleep]

/-! ## Some thread is on its way -/

/-- As long as a thread sleeps on `c` with what it waits for there, a thread of the kind `w` is on
its way. -/
def Attended (c : Cond) (w : QueuePc τ → Prop) (s : ThreadQueue ι τ) : Prop :=
  ∀ i, (s.pc i).waitsOn = some c → s.ready c = true → ∃ j, w (s.pc j)

theorem Attended.not_stranded [Fintype ι] {c : Cond} {w : QueuePc τ → Prop}
    {s : ThreadQueue ι τ} (h : s.Attended c w) (hw : ∀ p, w p → p.serves = some c) :
    ¬ s.Stranded c := by
  rintro ⟨⟨i, hi⟩, hready, hnone⟩
  obtain ⟨j, hj⟩ := h i (mem_asleep.mp hi) hready
  have hserves : (s.pc j).serves = some c := hw _ hj
  rw [hnone j] at hserves
  cases hserves

/-- A step that leaves its own thread on its way. -/
theorem attended_of_self {c : Cond} {w : QueuePc τ → Prop} {s : ThreadQueue ι τ} {i : ι}
    (hi : w (s.pc i)) : s.Attended c w :=
  fun _ _ _ => ⟨i, hi⟩

theorem attended_of_not_ready {c : Cond} {w : QueuePc τ → Prop} {s : ThreadQueue ι τ}
    (h : ¬ s.ready c = true) : s.Attended c w :=
  fun _ _ hr => absurd hr h

theorem serves_of_puts {s : ThreadQueue ι τ} {i : ι} (h : s.Puts i) :
    (s.pc i).serves ≠ some .notEmpty := by
  rcases h with h | ⟨val, h⟩
  · rw [h]
    simp [QueuePc.serves]
  · rw [h]
    simp [QueuePc.serves]

theorem serves_of_gets {s : ThreadQueue ι τ} {i : ι} (h : s.Gets i) :
    (s.pc i).serves ≠ some .notFull := by
  rcases h with h | ⟨timed, h⟩ | h
  · rw [h]
    simp [QueuePc.serves]
  · rw [h]
    simp [QueuePc.serves]
  · rw [h]
    simp [QueuePc.serves]

theorem init_attended {c : Cond} {w : QueuePc τ → Prop} {cap : Nat} :
    (init cap : ThreadQueue ι τ).Attended c w := by
  intro i hi
  cases hi

variable [DecidableEq ι]

/-- A step of a thread that was not on its way and does not fall asleep on `c`. -/
theorem Attended.goto {c : Cond} {w : QueuePc τ → Prop} {s t : ThreadQueue ι τ}
    (hs : s.Attended c w) {i : ι} {p : QueuePc τ} (hi : ¬ w (s.pc i)) (hp : p.waitsOn ≠ some c)
    (hready : t.ready c = true → s.ready c = true) (hpc : t.pc = (s.goto i p).pc) :
    t.Attended c w := by
  intro k hk hr
  rw [hpc] at hk ⊢
  have hki : k ≠ i := by
    rintro rfl
    rw [goto_pc_self] at hk
    exact hp hk
  rw [goto_pc_ne s p hki] at hk
  obtain ⟨j, hj⟩ := hs k hk (hready hr)
  have hji : j ≠ i := by
    rintro rfl
    exact hi hj
  exact ⟨j, by rw [goto_pc_ne s p hji]; exact hj⟩

/-! ## What each step does to the threads on their way -/

section Kinds

variable {c : Cond} {w : QueuePc τ → Prop} {s : ThreadQueue ι τ}

theorem serves_of_waitsOn {p : QueuePc τ} {c' : Cond} (h : p.waitsOn = some c') :
    p.serves = none := by
  cases p with
  | putAsleep val => rfl
  | getAsleep timed => rfl
  | _ => cases h

theorem woken_waitsOn (p : QueuePc τ) : p.woken.waitsOn = none := by
  cases p <;> rfl

/-- A value that goes into an empty queue is signalled; into another one there was one before. -/
theorem Attended.push {w : QueuePc τ → Prop} {i : ι} {val : τ} (hs : s.Attended .notEmpty w)
    (hi : ¬ w (s.pc i)) (hsignal : w (.notify .notEmpty)) :
    (s.push i val).Attended .notEmpty w := by
  by_cases hempty : s.que.isEmpty = true
  · refine attended_of_self (i := i) ?_
    rw [ThreadQueue.push, goto_pc_self, if_pos hempty]
    exact hsignal
  · refine hs.goto hi ?_ ?_ rfl
    · rw [if_neg hempty]
      simp [QueuePc.waitsOn]
    · intro _
      simpa [ready] using hempty

/-- A value taken out of a full queue is signalled; of another one there was room before. -/
theorem Attended.pop {w : QueuePc τ → Prop} {i : ι} {val : τ} {rest : List τ}
    (hs : s.Attended .notFull w) (hi : ¬ w (s.pc i)) (hsignal : w (.notify .notFull))
    (hque : s.que = val :: rest) : (s.pop i).Attended .notFull w := by
  by_cases hfull : s.que.tail.length + 1 = s.cap
  · refine attended_of_self (i := i) ?_
    rw [ThreadQueue.pop, goto_pc_self, if_pos hfull]
    exact hsignal
  · refine hs.goto hi ?_ ?_ rfl
    · rw [if_neg hfull]
      simp [QueuePc.waitsOn]
    · intro hr
      rw [ready_notFull] at hr ⊢
      simp only [ThreadQueue.pop, goto_que, goto_cap] at hr
      rw [hque, List.tail_cons] at hfull hr
      rw [hque, List.length_cons]
      omega

/-- A signal on the other condition variable wakes nobody of those that sleep on `c`. -/
theorem Attended.notify {w : QueuePc τ → Prop} {i j : ι} {c' : Cond} (hs : s.Attended c w)
    (hw : ∀ p, w p → p.serves = some c) (hc : c' ≠ c) (hi : s.pc i = .notify c')
    (hj : (s.pc j).waitsOn = some c') :
    ((s.goto j (s.pc j).woken).goto i .out).Attended c w := by
  have hnot : ∀ k, (s.pc k).serves ≠ some c → ¬ w (s.pc k) := fun k h hwk => h (hw _ hwk)
  have hij : i ≠ j := by
    rintro rfl
    rw [hi] at hj
    cases hj
  have hwoken : (s.goto j (s.pc j).woken).Attended c w :=
    hs.goto (hnot j (by rw [serves_of_waitsOn hj]; simp)) (by rw [woken_waitsOn]; simp) id rfl
  refine hwoken.goto ?_ (by simp [QueuePc.waitsOn]) id rfl
  rw [goto_pc_ne s _ hij]
  exact hnot i (by rw [hi]; simpa [QueuePc.serves] using hc)

/-- Each step keeps a thread on its way for those that sleep on `c`, the signals on `c` and the
calls that use what they wait for apart. -/
theorem attended_of_moves {s' : ThreadQueue ι τ} {l : QueueLabel ι τ} (hm : Moves s l s')
    (hs : s.Attended c w) (hw : ∀ p, w p → p.serves = some c) (hsignal : w (.notify c))
    (hraise : ¬ s.Raises l)
    (hpush : ∀ i val, c = .notFull → s.Puts i → s.que.length < s.cap → (s.push i val).Attended c w)
    (hpop : ∀ i, c = .notEmpty → s.Gets i → (s.pop i).Attended c w)
    (hnotify : ∀ i j, s.pc i = .notify c → (s.pc j).waitsOn = some c →
      ((s.goto j (s.pc j).woken).goto i .out).Attended c w) : s'.Attended c w := by
  have hnot : ∀ i, (s.pc i).serves ≠ some c → ¬ w (s.pc i) := fun i h hwi => h (hw _ hwi)
  cases hm with
  | push i val hi hroom =>
      cases c with
      | notFull => exact hpush i val rfl hi hroom
      | notEmpty =>
          exact hs.push (hnot i (serves_of_puts hi)) hsignal
  | pop i val rest hi hque =>
      cases c with
      | notEmpty => exact hpop i rfl hi
      | notFull =>
          exact hs.pop (hnot i (serves_of_gets hi)) hsignal hque
  -- who finds no room waits for `notFull`, which is not ready then
  | full i val hi hfull =>
      cases c with
      | notEmpty => exact hs.goto (hnot i (serves_of_puts hi)) (by simp [QueuePc.waitsOn]) id rfl
      | notFull =>
          refine attended_of_not_ready ?_
          rw [ready_notFull, goto_que, goto_cap]
          omega
  | empty i timed hi hque =>
      cases c with
      | notEmpty =>
          refine attended_of_not_ready ?_
          rw [ready_notEmpty, goto_que]
          exact fun h => h hque
      | notFull => exact hs.goto (hnot i (serves_of_gets hi)) (by simp [QueuePc.waitsOn]) id rfl
  | refuse i hi hout =>
      rcases hout with hout | hque
      · exact hs.goto (hnot i (by rw [hout]; simp [QueuePc.serves])) (by simp [QueuePc.waitsOn]) id
          rfl
      · cases c with
        | notEmpty =>
            refine attended_of_not_ready ?_
            rw [ready_notEmpty, goto_que]
            exact fun h => h hque
        | notFull =>
            exact hs.goto (hnot i (serves_of_gets hi)) (by simp [QueuePc.waitsOn]) id rfl
  | resize i cap =>
      -- the capacity is not raised, so nobody finds room who had none
      intro k hk hr
      refine hs k hk ?_
      cases c with
      | notEmpty => exact hr
      | notFull =>
          rw [ready_notFull] at hr ⊢
          simp only [Raises] at hraise
          simp only at hr
          omega
  | wake i c' hi =>
      exact hs.goto (hnot i (by rw [serves_of_waitsOn hi]; simp))
        (by rw [woken_waitsOn]; simp) id rfl
  | timeout i hi =>
      exact hs.goto (hnot i (by rw [hi]; simp [QueuePc.serves])) (by simp [QueuePc.waitsOn]) id rfl
  | notify i j c' hi hj =>
      by_cases hc : c' = c
      · subst hc
        exact hnotify i j hi hj
      · exact hs.notify hw hc hi hj
  | notifyNone i c' hi hnone =>
      by_cases hc : c' = c
      · subst hc
        -- a signal that reaches nobody leaves nobody asleep
        intro k hk
        by_cases hki : k = i
        · subst hki
          rw [goto_pc_self] at hk
          cases hk
        · rw [goto_pc_ne s _ hki] at hk
          exact absurd hk (hnone k)
      · exact hs.goto (hnot i (by rw [hi]; simpa [QueuePc.serves] using hc))
          (by simp [QueuePc.waitsOn]) id rfl

end Kinds

/-! ## At most one sleeper, or room for one value -/

/-- With at most one sleeper, a thread that is about to signal is on its way. -/
theorem attended_step_of_one [Fintype ι] {c : Cond} {s s' : ThreadQueue ι τ} {l : QueueLabel ι τ}
    (hs : s.Attended c (· = .notify c)) (hone : (s.asleep c).card ≤ 1) (hraise : ¬ s.Raises l)
    (h : s.step l = some s') : s'.Attended c (· = .notify c) := by
  refine attended_of_moves (step_moves h) hs (by rintro p rfl; rfl) rfl hraise ?_ ?_ ?_
  · rintro i val rfl hi hroom
    refine hs.goto ?_ ?_ ?_ rfl
    · rcases hi with hi | ⟨val', hi⟩
      · simp [hi]
      · simp [hi]
    · split
      · simp [QueuePc.waitsOn]
      · simp [QueuePc.waitsOn]
    · intro _
      exact ready_notFull.mpr hroom
  · rintro i rfl hi
    refine hs.goto ?_ ?_ ?_ rfl
    · rcases hi with hi | ⟨timed, hi⟩ | hi
      · simp [hi]
      · simp [hi]
      · simp [hi]
    · split
      · simp [QueuePc.waitsOn]
      · simp [QueuePc.waitsOn]
    · intro hr
      rw [ready_notEmpty] at hr ⊢
      intro hnil
      refine hr ?_
      show s.que.tail = []
      rw [hnil]
      rfl
  · -- the signal wakes the only sleeper
    intro i j hi hj k hk
    exfalso
    have hki : k ≠ i := by
      rintro rfl
      rw [goto_pc_self] at hk
      cases hk
    rw [goto_pc_ne _ _ hki] at hk
    have hkj : k ≠ j := by
      rintro rfl
      rw [goto_pc_self, woken_waitsOn] at hk
      cases hk
    rw [goto_pc_ne s _ hkj] at hk
    exact hkj (Finset.card_le_one.mp hone k (mem_asleep.mpr hk) j (mem_asleep.mpr hj))

/-- A queue with room for one value at most. -/
def Single (s : ThreadQueue ι τ) : Prop := s.cap ≤ 1 ∧ s.que.length ≤ 1

theorem single_step [Fintype ι] {s s' : ThreadQueue ι τ} {l : QueueLabel ι τ} (hs : s.Single)
    (hraise : ¬ s.Raises l) (h : s.step l = some s') : s'.Single := by
  obtain ⟨hcap, hlen⟩ := hs
  cases step_moves h with
  | push i val hi hroom =>
      refine ⟨hcap, ?_⟩
      show (s.que ++ [val]).length ≤ 1
      rw [List.length_append, List.length_singleton]
      omega
  | pop i val rest hi hque =>
      refine ⟨hcap, ?_⟩
      show s.que.tail.length ≤ 1
      rw [List.length_tail]
      omega
  | resize i cap =>
      simp only [Raises] at hraise
      exact ⟨by show cap ≤ 1; omega, hlen⟩
  | full i val hi hfull => exact ⟨hcap, hlen⟩
  | empty i timed hi hque => exact ⟨hcap, hlen⟩
  | refuse i hi hout => exact ⟨hcap, hlen⟩
  | wake i c hi => exact ⟨hcap, hlen⟩
  | timeout i hi => exact ⟨hcap, hlen⟩
  | notify i j c hi hj => exact ⟨hcap, hlen⟩
  | notifyNone i c hi hnone => exact ⟨hcap, hlen⟩

theorem serves_woken {p : QueuePc τ} {c : Cond} (h : p.waitsOn = some c) :
    p.woken.serves = some c := by
  cases p with
  | putAsleep val => exact h
  | getAsleep timed => exact h
  | _ => cases h

/-- With room for one value, a thread that was woken is on its way too: what it leaves behind is a
queue the others have to wait for. -/
theorem attended_step_of_single [Fintype ι] {c : Cond} {s s' : ThreadQueue ι τ}
    {l : QueueLabel ι τ} (hs : s.Attended c (·.serves = some c)) (hsingle : s.Single)
    (hraise : ¬ s.Raises l) (h : s.step l = some s') : s'.Attended c (·.serves = some c) := by
  obtain ⟨hcap, hlen⟩ := hsingle
  refine attended_of_moves (step_moves h) hs (fun p hp => hp) rfl hraise ?_ ?_ ?_
  · rintro i val rfl hi hroom
    refine attended_of_not_ready ?_
    rw [ready_notFull]
    show ¬ (s.que ++ [val]).length < s.cap
    rw [List.length_append, List.length_singleton]
    omega
  · rintro i rfl hi
    refine attended_of_not_ready ?_
    rw [ready_notEmpty, not_not]
    show s.que.tail = []
    refine List.eq_nil_of_length_eq_zero ?_
    rw [List.length_tail]
    omega
  · intro i j hi hj
    refine attended_of_self (i := j) ?_
    have hji : j ≠ i := by
      rintro rfl
      rw [hi] at hj
      cases hj
    rw [goto_pc_ne _ _ hji, goto_pc_self]
    exact serves_woken hj

/-! ## Exactly when nobody is forgotten -/

variable [Fintype ι]

theorem not_stranded_of_one {c : Cond} {cap : Nat} {s : ThreadQueue ι τ}
    {ls : List (QueueLabel ι τ)} (hrun : exec step (init cap) ls = some s)
    (hone : EachStep step (fun u l => (u.asleep c).card ≤ 1 ∧ ¬ u.Raises l) (init cap) ls) :
    ¬ s.Stranded c := by
  have h : s.Attended c (· = .notify c) :=
    inv_of_eachStep (fun u l v hu hl hstep => attended_step_of_one hu hl.1 hl.2 hstep)
      init_attended hone hrun
  exact h.not_stranded (by rintro p rfl; rfl)

theorem not_stranded_of_single {c : Cond} {cap : Nat} (hcap : cap ≤ 1) {s : ThreadQueue ι τ}
    {ls : List (QueueLabel ι τ)} (hrun : exec step (init cap) ls = some s)
    (hraise : EachStep step (fun u l => ¬ u.Raises l) (init cap) ls) : ¬ s.Stranded c := by
  have hinit : (init cap : ThreadQueue ι τ).Single :=
    ⟨by show max cap 1 ≤ 1; omega, Nat.zero_le 1⟩
  have h : s.Single ∧ s.Attended c (·.serves = some c) :=
    inv_of_eachStep (I := fun u => u.Single ∧ u.Attended c (·.serves = some c))
      (fun u l v hu hl hstep =>
        ⟨single_step hu.1 hl hstep, attended_step_of_single hu.2 hu.1 hl hstep⟩)
      ⟨hinit, init_attended⟩ hraise hrun
  exact h.2.not_stranded fun p hp => hp

/-- Two sleepers and room for two values: one is woken for the first value and uses it when the
second is there, too, which was not signalled. -/
def strandingRun (c : Cond) : List (QueueLabel (Fin 3) Unit) :=
  if c = .notEmpty then
    [.call 1 .get, .call 2 .get, .call 0 (.put ()), .notify 0 (some 1), .call 0 (.put ()),
      .relock 1, .notify 1 none]
  else
    [.call 0 (.put ()), .notify 0 none, .call 0 (.put ()), .call 1 (.put ()), .call 2 (.put ()),
      .call 0 .get, .notify 0 (some 1), .call 0 .get, .relock 1, .notify 1 none]

theorem exists_stranded (c : Cond) {cap n : Nat} (hcap : 1 < cap) (hn : 1 < n) :
    ∃ (ls : List (QueueLabel (Fin 3) Unit)) (s : ThreadQueue (Fin 3) Unit),
      exec step (init cap) ls = some s ∧
      EachStep step (fun u l => (u.asleep c).card ≤ n ∧ ¬ u.Raises l) (init cap) ls ∧
      s.Stranded c := by
  -- the capacity is lowered to two first, so that the rest is one run for all capacities
  let two : ThreadQueue (Fin 3) Unit := init 2
  have hlower : step (init cap) (.call (0 : Fin 3) (.capacity 2)) = some two := rfl
  have hrun : ∃ s, exec step two (strandingRun c) = some s ∧ s.Stranded c := by
    refine exists_exec_of_any ?_
    cases c with
    | notEmpty => decide +kernel
    | notFull => decide +kernel
  have heach : EachStep step (fun u l => (u.asleep c).card ≤ 2 ∧ ¬ u.Raises l) two
      (strandingRun c) := by
    cases c with
    | notEmpty => decide +kernel
    | notFull => decide +kernel
  obtain ⟨s, hs, hstranded⟩ := hrun
  refine ⟨.call 0 (.capacity 2) :: strandingRun c, s, ?_, ⟨⟨?_, ?_⟩, ?_⟩, hstranded⟩
  · rw [exec_cons_of_step hlower]
    exact hs
  · have hnone : (init cap : ThreadQueue (Fin 3) Unit).asleep c = ∅ := by
      simp [asleep, init, QueuePc.waitsOn]
    rw [hnone]
    simp
  · show ¬ max cap 1 < 2
    omega
  · intro u hu
    obtain rfl := Option.some.inj (hlower.symm.trans hu)
    exact heach.mono fun v l hl => ⟨le_trans hl.1 hn, hl.2⟩

/-- On either condition variable: no run in which never more than `n` threads sleep there leaves one
behind for good, if and only if `n` is at most one or the queue has room for one value only.  The
runs are those of any number of threads that do not raise the capacity. -/
theorem stranding_exact (c : Cond) (cap n : Nat) :
    (∀ (ι τ : Type) (_ : DecidableEq ι) (_ : Fintype ι) (ls : List (QueueLabel ι τ))
        (s : ThreadQueue ι τ), exec step (init cap) ls = some s →
      EachStep step (fun u l => (u.asleep c).card ≤ n ∧ ¬ u.Raises l) (init cap) ls →
      ¬ s.Stranded c) ↔ n ≤ 1 ∨ cap ≤ 1 := by
  constructor
  · intro h
    by_contra hboth
    obtain ⟨ls, s, hrun, heach, hstranded⟩ :=
      exists_stranded c (lt_of_not_ge fun h' => hboth (Or.inr h'))
        (lt_of_not_ge fun h' => hboth (Or.inl h'))
    exact h (Fin 3) Unit _ _ ls s hrun heach hstranded
  · rintro (hn | hcap) ι τ _ _ ls s hrun heach
    · exact not_stranded_of_one hrun (heach.mono fun u l hl => ⟨le_trans hl.1 hn, hl.2⟩)
    · exact not_stranded_of_single hcap hrun (heach.mono fun u l hl => hl.2)

end ThreadQueue

end BupApp.Mqtt
