/-
# BupApp.Lib.Refinement -- simulations between labelled partial step functions

One system implements another when its states can be related so that every step of the first is
matched by a (possibly empty) word of steps of the second.  What word that is may depend on the
state the step is taken in, as where a step hands out what is first in a queue.  A run is then
matched by a run, and what holds of the states of the second's runs holds, through the relation, of
the first's.
-/
import BupApp.Lib.Transition

namespace BupApp.Lib.Transition

variable {σ τ α β : Type*}

/-- The word the second system goes through while the first runs: `obs s a` is what it does at the
step `a` taken in `s`. -/
def observed (step : σ → α → Option σ) (obs : σ → α → List β) : σ → List α → List β
  | _, [] => []
  | s, a :: as => obs s a ++ ((step s a).map fun s' => observed step obs s' as).getD []

/-- Every step of the first system from related states is matched in the second. -/
structure Simulates (step : σ → α → Option σ) (step' : τ → β → Option τ)
    (obs : σ → α → List β) (R : σ → τ → Prop) : Prop where
  step : ∀ s t a s', R s t → step s a = some s' → ∃ t', exec step' t (obs s a) = some t' ∧ R s' t'

variable {step : σ → α → Option σ} {step' : τ → β → Option τ} {obs : σ → α → List β}
  {R : σ → τ → Prop}

@[simp] theorem observed_nil (s : σ) : observed step obs s [] = [] := rfl

theorem observed_cons_of_step {s s' : σ} {a : α} (h : step s a = some s') (as : List α) :
    observed step obs s (a :: as) = obs s a ++ observed step obs s' as := by
  simp only [observed, h, Option.map_some, Option.getD_some]

/-- A run in which each step is matched by its own label. -/
theorem observed_labels {s t : σ} {as : List α} (hrun : exec step s as = some t) :
    observed step (fun _ a => [a]) s as = as := by
  induction as generalizing s with
  | nil => rfl
  | cons a as ih =>
      obtain ⟨u, hu, hrest⟩ := exec_cons_some.mp hrun
      rw [observed_cons_of_step hu, ih hrest, List.singleton_append]

/-- What is observed of a run is observed of one of its steps. -/
theorem exists_of_mem_observed {s : σ} {as : List α} {b : β} (h : b ∈ observed step obs s as) :
    ∃ a ∈ as, ∃ u, b ∈ obs u a := by
  induction as generalizing s with
  | nil => cases h
  | cons a as ih =>
      rcases List.mem_append.mp h with h | h
      · exact ⟨a, List.mem_cons_self, s, h⟩
      · cases hs : step s a with
        | none => simp [hs] at h
        | some u =>
            simp only [hs, Option.map_some, Option.getD_some] at h
            obtain ⟨a', ha', hb⟩ := ih h
            exact ⟨a', List.mem_cons_of_mem _ ha', hb⟩

/-- What each step takes in and gives out, kept in balance by what the state holds, is in balance
over a run. -/
theorem observed_balance {takes gives : σ → α → List β} {held : σ → List β}
    (hstep : ∀ s a s', step s a = some s' → held s ++ takes s a = gives s a ++ held s')
    {s s' : σ} {as : List α} (hrun : exec step s as = some s') :
    held s ++ observed step takes s as = observed step gives s as ++ held s' := by
  induction as generalizing s with
  | nil =>
      obtain rfl := Option.some.inj hrun
      simp
  | cons a as ih =>
      obtain ⟨u, hu, hrest⟩ := exec_cons_some.mp hrun
      rw [observed_cons_of_step hu, observed_cons_of_step hu, ← List.append_assoc,
        hstep s a u hu, List.append_assoc, ih hrest, List.append_assoc]

/-- What every step of a run meets, the steps that match it meet. -/
theorem Simulates.eachStep (h : Simulates step step' obs R) {C : σ → α → Prop} {C' : τ → β → Prop}
    (hC : ∀ s t a s', R s t → step s a = some s' → C s a → EachStep step' C' t (obs s a))
    {s s' : σ} {t : τ} {as : List α} (hst : R s t) (hrun : exec step s as = some s')
    (hall : EachStep step C s as) : EachStep step' C' t (observed step obs s as) := by
  induction as generalizing s t with
  | nil => trivial
  | cons a as ih =>
      obtain ⟨u, hu, hrest⟩ := exec_cons_some.mp hrun
      obtain ⟨v, hv, huv⟩ := h.step s t a u hst hu
      rw [observed_cons_of_step hu]
      exact (hC s t a u hst hu hall.1).append hv (ih huv hrest (hall.2 u hu))

/-- A run of the first system is matched by the run of the second over what was observed. -/
theorem Simulates.exec (h : Simulates step step' obs R) {s s' : σ} {t : τ} {as : List α}
    (hst : R s t) (hrun : exec step s as = some s') :
    ∃ t', exec step' t (observed step obs s as) = some t' ∧ R s' t' := by
  induction as generalizing s t with
  | nil =>
      obtain rfl := Option.some.inj hrun
      exact ⟨t, rfl, hst⟩
  | cons a as ih =>
      obtain ⟨u, hu, hrest⟩ := exec_cons_some.mp hrun
      obtain ⟨v, hv, huv⟩ := h.step s t a u hst hu
      obtain ⟨t', ht', hst'⟩ := ih huv hrest
      refine ⟨t', ?_, hst'⟩
      rw [observed_cons_of_step hu]
      exact exec_append_of hv ht'

end BupApp.Lib.Transition
