/-
# BupApp.Lib.Lag -- a broker that has not noticed yet that connections are gone

A connection that is lost is gone at the broker at once; a description of the system that lets it
end only later has a broker with more subscriptions, and with retained messages that still count as
its own.  `Lags K` relates that broker to the real one, `K` being the connections it takes for alive.
To every other connection the two brokers look the same.
-/
import BupApp.Lib.PubSub

set_option linter.unusedSectionVars false

namespace BupApp.Lib.PubSub

variable {κ θ μ : Type*}

namespace Broker

/-- The publisher of a retained message, a stranger when it is one of `K`. -/
def forget (K : κ → Bool) : Option κ → Option κ
  | none => none
  | some k => if K k then none else some k

/-- `b` is `b'` but for the connections of `K`, which are gone in `b'`; the queues of the others are
not compared. -/
structure Lags (K : κ → Bool) (b b' : Broker κ θ μ) : Prop where
  subs : ∀ k, K k = false → b.subs k = b'.subs k
  gone : ∀ k, K k = true → (b'.subs k = fun _ => none) ∧ b'.queue k = []
  retained : ∀ t, b'.retained t = (b.retained t).map fun r => (forget K r.1, r.2)

variable {K : κ → Bool} {b b' : Broker κ θ μ}

theorem Lags.refl (b : Broker κ θ μ) : Lags (fun _ => false) b b := by
  refine ⟨fun _ _ => rfl, by rintro k ⟨⟩, ?_⟩
  intro t
  cases b.retained t with
  | none => rfl
  | some r =>
      obtain ⟨_ | k, m⟩ := r
      · rfl
      · rfl

/-- Only the queues of connections that are there change. -/
theorem Lags.queues {b₁ b₁' : Broker κ θ μ} (h : Lags K b b') (hs : b₁.subs = b.subs)
    (hr : b₁.retained = b.retained) (hs' : b₁'.subs = b'.subs) (hr' : b₁'.retained = b'.retained)
    (hq : ∀ k, K k = true → b₁'.queue k = b'.queue k) : Lags K b₁ b₁' := by
  refine ⟨?_, ?_, ?_⟩
  · intro k hk
    rw [hs, hs']
    exact h.subs k hk
  · intro k hk
    rw [hs', hq k hk]
    exact h.gone k hk
  · intro t
    rw [hr, hr']
    exact h.retained t

variable [DecidableEq κ] [DecidableEq θ]

theorem Lags.forwards (h : Lags K b b') {k : κ} (hk : K k = false) (src : κ) (t : θ) :
    b.forwards src k t = b'.forwards src k t := by
  unfold Broker.forwards
  rw [h.subs k hk]

theorem Lags.not_forwards (h : Lags K b b') {k : κ} (hk : K k = true) (src : κ) (t : θ) :
    b'.forwards src k t = false :=
  forwards_eq_false_of_none (congrFun (h.gone k hk).1 t)

theorem Lags.offered (h : Lags K b b') {k : κ} (hk : K k = false) (r : Bool) (t : θ) (s : Sub) :
    b.offered r k t s = b'.offered r k t s := by
  unfold Broker.offered
  rw [h.retained t]
  cases hret : b.retained t with
  | none => rfl
  | some p =>
      obtain ⟨src, m⟩ := p
      -- whether the message is `k`'s own does not depend on the connections of `K`
      have hown : forget K src = some k ↔ src = some k := by
        cases src with
        | none => rfl
        | some j =>
            cases hj : K j with
            | true =>
                have hne : j ≠ k := by
                  rintro rfl
                  rw [hk] at hj
                  cases hj
                simp [forget, hj, hne]
            | false => simp [forget, hj]
      simp only [Option.map_some, decide_eq_decide.mpr hown]

theorem Lags.publish (h : Lags K b b') {src : κ} (hsrc : K src = false) (t : θ) (erase : Bool)
    (m : μ) : Lags K (b.publish src t erase m) (b'.publish src t erase m) := by
  refine ⟨h.subs, ?_, ?_⟩
  · intro k hk
    refine ⟨(h.gone k hk).1, ?_⟩
    rw [queue_publish, h.not_forwards hk]
    exact (h.gone k hk).2
  · intro u
    by_cases hu : u = t
    · subst hu
      cases erase with
      | true => simp [Broker.publish]
      | false => simp [Broker.publish, forget, hsrc]
    · simp only [Broker.publish, Function.update_of_ne hu]
      exact h.retained u

theorem Lags.subscribe (h : Lags K b b') {k : κ} (hk : K k = false) (r : Bool) (t : θ) (s : Sub) :
    Lags K (b.subscribe r k t s) (b'.subscribe r k t s) := by
  refine ⟨?_, ?_, h.retained⟩
  · intro j hj
    simp only [Broker.subscribe, h.subs k hk]
    by_cases hjk : j = k
    · subst hjk
      simp
    · rw [Function.update_of_ne hjk, Function.update_of_ne hjk]
      exact h.subs j hj
  · intro j hj
    have hjk : j ≠ k := by
      rintro rfl
      rw [hk] at hj
      cases hj
    simp only [Broker.subscribe, Function.update_of_ne hjk]
    exact h.gone j hj

/-- A connection that is gone subscribes, where that is not known. -/
theorem Lags.subscribe_left (h : Lags K b b') {k : κ} (hk : K k = true) (r : Bool) (t : θ)
    (s : Sub) : Lags K (b.subscribe r k t s) b' := by
  refine ⟨?_, h.gone, h.retained⟩
  intro j hj
  have hjk : j ≠ k := by
    rintro rfl
    rw [hk] at hj
    cases hj
  simp only [Broker.subscribe, Function.update_of_ne hjk]
  exact h.subs j hj

/-- Ending `k` on top of `K` forgets the same sources as taking `k` into `K`. -/
theorem forget_filter (K : κ → Bool) (k : κ) (src : Option κ) :
    forget (Function.update K k false) (if src = some k then none else src) =
      forget (Function.update K k true) src := by
  cases src with
  | none => rfl
  | some j =>
      by_cases hj : j = k
      · subst hj
        simp [forget]
      · simp [forget, hj]

theorem forget_lose (K : κ → Bool) (k : κ) (src : Option κ) :
    (if forget K src = some k then none else forget K src) =
      forget (Function.update K k true) src := by
  cases src with
  | none => rfl
  | some j =>
      by_cases hj : j = k
      · subst hj
        cases hK : K j <;> simp [forget, hK]
      · cases hK : K j <;> simp [forget, hK, hj]

/-- The connection `k` is lost. -/
theorem Lags.lose (h : Lags K b b') (k : κ) :
    Lags (Function.update K k true) b (b'.disconnect k) := by
  refine ⟨?_, ?_, ?_⟩
  · intro j hj
    have hjk : j ≠ k := by
      rintro rfl
      simp at hj
    rw [Function.update_of_ne hjk] at hj
    simp only [disconnect, Function.update_of_ne hjk]
    exact h.subs j hj
  · intro j hj
    by_cases hjk : j = k
    · subst hjk
      simp [disconnect]
    · rw [Function.update_of_ne hjk] at hj
      simp only [disconnect, Function.update_of_ne hjk]
      exact h.gone j hj
  · intro t
    simp only [disconnect, h.retained t, Option.map_map]
    cases b.retained t with
    | none => rfl
    | some p =>
        obtain ⟨src, m⟩ := p
        simp only [Option.map_some, Function.comp_apply, forget_lose]

/-- The connection `k` ends in both, be it gone in the second already. -/
theorem Lags.disconnect (h : Lags K b b') (k : κ) :
    Lags (Function.update K k false) (b.disconnect k) (b'.disconnect k) := by
  have hlost := h.lose k
  refine ⟨?_, ?_, ?_⟩
  · intro j hj
    by_cases hjk : j = k
    · subst hjk
      simp [Broker.disconnect]
    · rw [Function.update_of_ne hjk] at hj
      simp only [Broker.disconnect, Function.update_of_ne hjk]
      exact h.subs j hj
  · intro j hj
    have hjk : j ≠ k := by
      rintro rfl
      simp at hj
    exact hlost.gone j (by rw [Function.update_of_ne hjk] at hj ⊢; exact hj)
  · intro t
    rw [hlost.retained t]
    simp only [Broker.disconnect, Option.map_map]
    cases b.retained t with
    | none => rfl
    | some p =>
        obtain ⟨src, m⟩ := p
        simp only [Option.map_some, Function.comp_apply, forget_filter]

/-- It is noticed that `k` is gone. -/
theorem Lags.notice (h : Lags K b b') {k : κ} (hk : K k = true) :
    Lags (Function.update K k false) (b.disconnect k) b' := by
  have hsame : Function.update K k true = K := by
    rw [← hk, Function.update_eq_self]
  refine ⟨?_, ?_, ?_⟩
  · intro j hj
    by_cases hjk : j = k
    · subst hjk
      rw [(h.gone j hk).1]
      simp [Broker.disconnect]
    · rw [Function.update_of_ne hjk] at hj
      simp only [Broker.disconnect, Function.update_of_ne hjk]
      exact h.subs j hj
  · intro j hj
    have hjk : j ≠ k := by
      rintro rfl
      simp at hj
    rw [Function.update_of_ne hjk] at hj
    exact h.gone j hj
  · intro t
    rw [h.retained t]
    simp only [Broker.disconnect, Option.map_map]
    cases b.retained t with
    | none => rfl
    | some p =>
        obtain ⟨src, m⟩ := p
        simp only [Option.map_some, Function.comp_apply, forget_filter, hsame]

end Broker

end BupApp.Lib.PubSub
