/-
# BupApp.Lib.Transition -- runs of a labelled partial step function

A transition system is a function `step : σ → α → Option σ`; `none` says that the label is not
enabled in the state.  A run is a word of labels.  The file gives the word semantics `exec`, the two
ways a property is asked of a run (of the state and label of each of its steps, and of each state it
goes through), and the induction rules that every invariant of the development is an instance of.

Invariants may speak about the history (the word run so far).  A rule whose step case is asked only
under a condition on the pre-state and the label is what a statement of the form "in every run whose
steps all meet the condition" needs.
-/
import Mathlib.Data.List.Basic

namespace BupApp.Lib.Transition

variable {σ α : Type*} (step : σ → α → Option σ)

/-! ## Words of labels -/

/-- Run a word of labels; `none` as soon as one of them is not enabled. -/
def exec : σ → List α → Option σ
  | s, [] => some s
  | s, a :: as => (step s a).bind fun s' => exec s' as

/-- The condition `C` holds of the pre-state and the label of every step of the run. -/
def EachStep (C : σ → α → Prop) : σ → List α → Prop
  | _, [] => True
  | s, a :: as => C s a ∧ ∀ s', step s a = some s' → EachStep C s' as

/-- `P` holds of every state the run goes through, the first and the last one included. -/
def Always (P : σ → Prop) : σ → List α → Prop
  | s, [] => P s
  | s, a :: as => P s ∧ ∀ s', step s a = some s' → Always P s' as

variable {step}

@[simp] theorem exec_nil (s : σ) : exec step s [] = some s := rfl

theorem exec_cons_some {s t : σ} {a : α} {as : List α} :
    exec step s (a :: as) = some t ↔ ∃ u, step s a = some u ∧ exec step u as = some t := by
  simp only [exec, Option.bind_eq_some_iff]

theorem exec_cons_of_step {s u : σ} {a : α} (h : step s a = some u) (as : List α) :
    exec step s (a :: as) = exec step u as := by
  simp only [exec, h, Option.bind_some]

theorem exec_append (s : σ) (as bs : List α) :
    exec step s (as ++ bs) = (exec step s as).bind fun u => exec step u bs := by
  induction as generalizing s with
  | nil => rfl
  | cons a as ih =>
      simp only [List.cons_append, exec]
      cases step s a with
      | none => rfl
      | some u => exact ih u

theorem exec_append_some {s t : σ} {as bs : List α} :
    exec step s (as ++ bs) = some t ↔ ∃ u, exec step s as = some u ∧ exec step u bs = some t := by
  rw [exec_append, Option.bind_eq_some_iff]

theorem exec_append_of {s u t : σ} {as bs : List α}
    (h₁ : exec step s as = some u) (h₂ : exec step u bs = some t) :
    exec step s (as ++ bs) = some t :=
  exec_append_some.mpr ⟨u, h₁, h₂⟩

theorem exec_snoc_some {s t : σ} {as : List α} {a : α} :
    exec step s (as ++ [a]) = some t ↔ ∃ u, exec step s as = some u ∧ step u a = some t := by
  rw [exec_append_some]
  simp only [exec_cons_some, exec_nil, Option.some.injEq, exists_eq_right]

/-- A run that gets to its end, and what can be read off there. -/
theorem exists_exec_of_any {s : σ} {as : List α} {P : σ → Prop} [DecidablePred P]
    (h : (exec step s as).any (fun t => decide (P t)) = true) :
    ∃ t, exec step s as = some t ∧ P t := by
  obtain ⟨t, ht, hP⟩ := (Option.any_eq_true ..).mp h
  exact ⟨t, ht, of_decide_eq_true hP⟩

/-- Where every label is enabled everywhere, every word is a run. -/
theorem exists_exec_of_total (h : ∀ s a, ∃ s', step s a = some s') (s : σ) (as : List α) :
    ∃ t, exec step s as = some t := by
  induction as generalizing s with
  | nil => exact ⟨s, rfl⟩
  | cons a as ih =>
      obtain ⟨u, hu⟩ := h s a
      obtain ⟨t, ht⟩ := ih u
      exact ⟨t, exec_cons_some.mpr ⟨u, hu, ht⟩⟩

/-! ## Conditions on the steps of a run -/

theorem EachStep.mono {C D : σ → α → Prop} (h : ∀ s a, C s a → D s a) :
    ∀ {s : σ} {as : List α}, EachStep step C s as → EachStep step D s as
  | _, [], _ => trivial
  | s, a :: _, hs => ⟨h s a hs.1, fun s' hs' => EachStep.mono h (hs.2 s' hs')⟩

theorem EachStep.and {C D : σ → α → Prop} :
    ∀ {s : σ} {as : List α}, EachStep step C s as → EachStep step D s as →
      EachStep step (fun s a => C s a ∧ D s a) s as
  | _, [], _, _ => trivial
  | _, _ :: _, hc, hd =>
      ⟨⟨hc.1, hd.1⟩, fun s' hs' => EachStep.and (hc.2 s' hs') (hd.2 s' hs')⟩

theorem EachStep.of_forall {C : σ → α → Prop} (h : ∀ s a, C s a) (s : σ) (as : List α) :
    EachStep step C s as := by
  induction as generalizing s with
  | nil => trivial
  | cons a as ih => exact ⟨h s a, fun s' _ => ih s'⟩

/-- A condition on the labels alone. -/
theorem EachStep.of_labels {P : α → Prop} {as : List α} (h : ∀ a ∈ as, P a) (s : σ) :
    EachStep step (fun _ a => P a) s as := by
  induction as generalizing s with
  | nil => trivial
  | cons a as ih =>
      exact ⟨h a (by simp), fun s' _ => ih (fun b hb => h b (List.mem_cons_of_mem a hb)) s'⟩

/-- A condition on the steps is one on every way to cut the run before a step. -/
theorem eachStep_iff_split {C : σ → α → Prop} {s : σ} {as : List α} :
    EachStep step C s as ↔
      ∀ pre a post u, as = pre ++ a :: post → exec step s pre = some u → C u a := by
  induction as generalizing s with
  | nil =>
      simp only [EachStep, true_iff]
      intro pre a post u h
      simp at h
  | cons b as ih =>
      constructor
      · rintro ⟨hb, hrest⟩ pre a post u h hu
        cases pre with
        | nil =>
            obtain ⟨rfl, rfl⟩ := List.cons.inj h
            obtain rfl := Option.some.inj hu
            exact hb
        | cons b' pre =>
            obtain ⟨rfl, rfl⟩ := List.cons.inj h
            obtain ⟨v, hv, hpre⟩ := exec_cons_some.mp hu
            exact ih.mp (hrest v hv) pre a post u rfl hpre
      · intro h
        refine ⟨h [] b as s rfl rfl, fun s' hs' => ih.mpr ?_⟩
        rintro pre a post u rfl hu
        exact h (b :: pre) a post u rfl (by rw [exec_cons_of_step hs']; exact hu)

/-- Over a run that gets to its end a condition on the labels is one on the word. -/
theorem eachStep_labels_iff {P : α → Prop} {as : List α} {s t : σ}
    (hrun : exec step s as = some t) : EachStep step (fun _ a => P a) s as ↔ ∀ a ∈ as, P a := by
  refine ⟨?_, fun h => EachStep.of_labels h s⟩
  intro h
  induction as generalizing s with
  | nil => simp
  | cons a as ih =>
      obtain ⟨u, hu, hrest⟩ := exec_cons_some.mp hrun
      exact List.forall_mem_cons.mpr ⟨h.1, ih hrest (h.2 u hu)⟩

/-- The condition that a label does not occur. -/
theorem eachStep_ne_iff {a : α} {as : List α} {s t : σ} (hrun : exec step s as = some t) :
    EachStep step (fun _ l => l ≠ a) s as ↔ a ∉ as := by
  rw [eachStep_labels_iff (P := fun l => l ≠ a) hrun]
  constructor
  · intro h hmem
    exact h a hmem rfl
  · rintro h l hl rfl
    exact h hl

/-- A condition that does not depend on the step can be asked before the run. -/
theorem eachStep_or_iff {D : Prop} {C : σ → α → Prop} {as : List α} {s : σ} :
    EachStep step (fun s l => D ∨ C s l) s as ↔ D ∨ EachStep step C s as := by
  constructor
  · intro h
    by_cases hD : D
    · exact Or.inl hD
    · exact Or.inr (h.mono fun _ _ hs => hs.resolve_left hD)
  · rintro (hD | hC)
    · exact EachStep.of_forall (fun _ _ => Or.inl hD) s as
    · exact hC.mono fun _ _ hs => Or.inr hs

theorem EachStep.left {C : σ → α → Prop} {s : σ} {as bs : List α}
    (h : EachStep step C s (as ++ bs)) : EachStep step C s as := by
  induction as generalizing s with
  | nil => trivial
  | cons a as ih => exact ⟨h.1, fun s' hs' => ih (h.2 s' hs')⟩

theorem EachStep.append {C : σ → α → Prop} {s u : σ} {as bs : List α}
    (h : EachStep step C s as) (hrun : exec step s as = some u) (hbs : EachStep step C u bs) :
    EachStep step C s (as ++ bs) := by
  induction as generalizing s with
  | nil => cases hrun; exact hbs
  | cons a as ih =>
      obtain ⟨v, hv, hrest⟩ := exec_cons_some.mp hrun
      refine ⟨h.1, fun s' hs' => ?_⟩
      obtain rfl : v = s' := Option.some.inj (hv.symm.trans hs')
      exact ih (h.2 v hv) hrest

/-- Whether all steps of a run meet a condition can be found out by running it. -/
instance EachStep.decidable {C : σ → α → Prop} [∀ s a, Decidable (C s a)] :
    ∀ (s : σ) (as : List α), Decidable (EachStep step C s as)
  | _, [] => isTrue trivial
  | s, a :: as =>
      match h : step s a with
      | none => decidable_of_iff (C s a)
          ⟨fun hC => ⟨hC, fun s' hs' => by rw [h] at hs'; cases hs'⟩, And.left⟩
      | some u =>
          have := EachStep.decidable (C := C) u as
          decidable_of_iff (C s a ∧ EachStep step C u as)
            ⟨fun hC => ⟨hC.1, fun s' hs' => by rw [h] at hs'; cases hs'; exact hC.2⟩,
              fun hC => ⟨hC.1, hC.2 u h⟩⟩

/-- A run whose steps do not all meet `C` has a first step that violates it. -/
theorem exists_first_violation {C : σ → α → Prop} {as : List α} {s t : σ}
    (hrun : exec step s as = some t) (h : ¬ EachStep step C s as) :
    ∃ bs a cs u v, as = bs ++ a :: cs ∧ exec step s bs = some u ∧ EachStep step C s bs ∧
      step u a = some v ∧ ¬ C u a := by
  induction as generalizing s with
  | nil => exact absurd trivial h
  | cons a as ih =>
      obtain ⟨u, hu, hrest⟩ := exec_cons_some.mp hrun
      by_cases hC : C s a
      · -- the violation is in the rest of the run
        have hnext : ¬ EachStep step C u as := by
          intro hall
          refine h ⟨hC, fun s' hs' => ?_⟩
          obtain rfl : u = s' := Option.some.inj (hu.symm.trans hs')
          exact hall
        obtain ⟨bs, b, cs, v, w, rfl, hbs, heach, hstep, hviol⟩ := ih hrest hnext
        refine ⟨a :: bs, b, cs, v, w, rfl, ?_, ⟨hC, fun s' hs' => ?_⟩, hstep, hviol⟩
        · rw [exec_cons_of_step hu]; exact hbs
        · obtain rfl : u = s' := Option.some.inj (hu.symm.trans hs')
          exact heach
      · exact ⟨[], a, as, s, u, rfl, rfl, trivial, hu, hC⟩

/-! ## Invariant rules -/

/-- An invariant of the history and the state, kept by the steps that meet `C`. -/
theorem inv_history {C : σ → α → Prop} {I : List α → σ → Prop}
    (hstep : ∀ hist s a s', I hist s → C s a → step s a = some s' → I (hist ++ [a]) s')
    {hist as : List α} {s t : σ} (h0 : I hist s) (hC : EachStep step C s as)
    (hrun : exec step s as = some t) : I (hist ++ as) t := by
  induction as generalizing hist s with
  | nil => cases hrun; simpa using h0
  | cons a as ih =>
      obtain ⟨u, hu, hrest⟩ := exec_cons_some.mp hrun
      have h1 : I (hist ++ [a]) u := hstep hist s a u h0 hC.1 hu
      simpa using ih h1 (hC.2 u hu) hrest

/-- An invariant of the state, kept by the steps that meet `C`. -/
theorem inv_of_eachStep {C : σ → α → Prop} {I : σ → Prop}
    (hstep : ∀ s a s', I s → C s a → step s a = some s' → I s')
    {as : List α} {s t : σ} (h0 : I s) (hC : EachStep step C s as)
    (hrun : exec step s as = some t) : I t := by
  induction as generalizing s with
  | nil => cases hrun; exact h0
  | cons a as ih =>
      obtain ⟨u, hu, hrest⟩ := exec_cons_some.mp hrun
      exact ih (hstep s a u h0 hC.1 hu) (hC.2 u hu) hrest

/-- An invariant of the state, kept by every step. -/
theorem inv_exec {I : σ → Prop} (hstep : ∀ s a s', I s → step s a = some s' → I s')
    {as : List α} {s t : σ} (h0 : I s) (hrun : exec step s as = some t) : I t :=
  inv_of_eachStep (C := fun _ _ => True) (fun s a s' hs _ => hstep s a s' hs) h0
    (EachStep.of_forall (fun _ _ => trivial) s as) hrun

/-- Labels that leave a mark which later steps keep, and that do nothing where their mark is, do
nothing when they are run again. -/
theorem exec_again {M : α → σ → Prop}
    (hleaves : ∀ s a s', step s a = some s' → M a s')
    (hkeeps : ∀ s a s' b, step s a = some s' → M b s → M b s')
    (hidle : ∀ s a, M a s → step s a = some s) {as bs : List α} {s t : σ}
    (hrun : exec step s as = some t) (hbs : ∀ b ∈ bs, b ∈ as) : exec step t bs = some t := by
  have hmarks : ∀ a ∈ [] ++ as, M a t := by
    refine inv_history (C := fun _ _ => True) (I := fun hist s => ∀ a ∈ hist, M a s) ?_
      (by simp) (EachStep.of_forall (fun _ _ => trivial) s as) hrun
    intro hist s a s' h _ hs b hb
    rcases List.mem_append.mp hb with hold | hnew
    · exact hkeeps s a s' b hs (h b hold)
    · obtain rfl := List.mem_singleton.mp hnew
      exact hleaves s b s' hs
  induction bs with
  | nil => rfl
  | cons b bs ih =>
      have hb : step t b = some t := hidle t b (hmarks b (hbs b (by simp)))
      rw [exec_cons_of_step hb]
      exact ih fun c hc => hbs c (List.mem_cons_of_mem b hc)

theorem always_of_eachStep {C : σ → α → Prop} {I P : σ → Prop} (hP : ∀ s, I s → P s)
    (hstep : ∀ s a s', I s → C s a → step s a = some s' → I s') :
    ∀ {as : List α} {s : σ}, I s → EachStep step C s as → Always step P s as
  | [], s, h0, _ => hP s h0
  | a :: _, s, h0, hC =>
      ⟨hP s h0, fun s' hs' =>
        always_of_eachStep hP hstep (hstep s a s' h0 hC.1 hs') (hC.2 s' hs')⟩

theorem Always.head {P : σ → Prop} {as : List α} {s : σ} (h : Always step P s as) : P s := by
  cases as with
  | nil => exact h
  | cons a as => exact h.1

/-- A condition is exact for a property when the steps that meet it keep the invariant behind the
property and a step that violates it ends in a state without the property. -/
theorem always_iff_eachStep {C : σ → α → Prop} {I P : σ → Prop} (hP : ∀ s, I s → P s)
    (hstep : ∀ s a s', I s → C s a → step s a = some s' → I s')
    (hexact : ∀ s a s', I s → step s a = some s' → P s' → C s a)
    {as : List α} {s t : σ} (h0 : I s) (hrun : exec step s as = some t) :
    Always step P s as ↔ EachStep step C s as := by
  constructor
  · intro h
    induction as generalizing s with
    | nil => trivial
    | cons a as ih =>
        obtain ⟨u, hu, hrest⟩ := exec_cons_some.mp hrun
        have hC : C s a := hexact s a u h0 hu (h.2 u hu).head
        refine ⟨hC, fun s' hs' => ?_⟩
        obtain rfl : u = s' := Option.some.inj (hu.symm.trans hs')
        exact ih (hstep s a u h0 hC hu) hrest (h.2 u hu)
  · exact always_of_eachStep hP hstep h0

/-- A run keeps what is good while its steps meet `C`; the first step that violates `C` does a
damage that no later step repairs.  `J` holds of all states of the run. -/
theorem good_or_damaged {C : σ → α → Prop} {J I D : σ → Prop}
    (hJ : ∀ s a s', J s → step s a = some s' → J s')
    (hI : ∀ s a s', J s → I s → C s a → step s a = some s' → I s')
    (hdamage : ∀ s a s', J s → I s → ¬ C s a → step s a = some s' → D s')
    (hD : ∀ s a s', J s → D s → step s a = some s' → D s')
    {as : List α} {s t : σ} (h0 : J s) (h1 : I s) (hrun : exec step s as = some t) :
    EachStep step C s as ∧ I t ∨ ¬ EachStep step C s as ∧ D t := by
  by_cases hall : EachStep step C s as
  · left
    refine ⟨hall, (inv_of_eachStep (I := fun u => J u ∧ I u) ?_ ⟨h0, h1⟩ hall hrun).2⟩
    rintro u a u' ⟨hu, hu'⟩ hC hstep
    exact ⟨hJ u a u' hu hstep, hI u a u' hu hu' hC hstep⟩
  · right
    obtain ⟨pre, a, post, u, v, rfl, hpre, hgood, hstep, hC⟩ := exists_first_violation hrun hall
    obtain ⟨u', hu', hrest⟩ := exec_append_some.mp hrun
    obtain rfl := Option.some.inj (hpre.symm.trans hu')
    obtain ⟨v', hv', hpost⟩ := exec_cons_some.mp hrest
    obtain rfl := Option.some.inj (hstep.symm.trans hv')
    have hu : J u ∧ I u := by
      refine inv_of_eachStep (I := fun w => J w ∧ I w) ?_ ⟨h0, h1⟩ hgood hpre
      rintro w b w' ⟨hw, hw'⟩ hb hstep'
      exact ⟨hJ w b w' hw hstep', hI w b w' hw hw' hb hstep'⟩
    refine ⟨hall, (inv_exec (I := fun w => J w ∧ D w) ?_
      ⟨hJ u a v hu.1 hstep, hdamage u a v hu.1 hu.2 hC hstep⟩ hpost).2⟩
    rintro w b w' ⟨hw, hw'⟩ hb
    exact ⟨hJ w b w' hw hb, hD w b w' hw hw' hb⟩

/-- A measure that the steps lower bounds the length of a run. -/
theorem length_add_le {C : σ → α → Prop} {I : σ → Prop} {μ : σ → ℕ}
    (hstep : ∀ s a s', I s → C s a → step s a = some s' → I s' ∧ μ s' < μ s)
    {as : List α} {s t : σ} (h0 : I s) (hC : EachStep step C s as)
    (hrun : exec step s as = some t) : as.length + μ t ≤ μ s := by
  induction as generalizing s with
  | nil => cases hrun; simp
  | cons a as ih =>
      obtain ⟨u, hu, hrest⟩ := exec_cons_some.mp hrun
      obtain ⟨h1, hlt⟩ := hstep s a u h0 hC.1 hu
      have hle := ih h1 (hC.2 u hu) hrest
      rw [List.length_cons]
      omega

end BupApp.Lib.Transition
