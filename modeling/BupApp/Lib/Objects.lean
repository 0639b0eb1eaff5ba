/-
# BupApp.Lib.Objects -- the objects of a class over their lifetimes

A class says how its objects are constructed, copied, moved, assigned and used.  Its objects live at
addresses, and a run is any order of such calls on any number of them.  That an object knows its
address matters where it keeps pointers: those into itself are not copied, and those into another
object may outlive it.

Two rules reduce runs to single calls.  Where one class represents another, object by object, every
run of the first is one of the second; the class of plain values is what most classes represent.
And where each call either keeps a property of the objects or is one of the copies that a condition
tells apart, the property holds throughout a run exactly if all its copies meet the condition.
-/
import BupApp.Lib.Refinement
import Mathlib.Logic.Function.Basic

namespace BupApp.Lib.Objects

open BupApp.Lib.Transition

/-- What the special members and the methods of a class do.  A new object is given its address, and
an assignment those of both sides.  `κ` and `μ` are the calls of constructors and methods, and `ε` is
what a copy asks of its surroundings, such as the addresses of new memory.  A constructor may throw.
What moves is given back together with what is left of its source. -/
structure ObjectClass (α κ μ ε : Type*) where
  construct : Nat → κ → Option α
  copy : ε → Nat → α → α
  move : ε → Nat → α → α × α
  assign : ε → Nat → Nat → α → α → α
  moveAssign : ε → Nat → Nat → α → α → α × α
  call : Nat → μ → α → α

/-- The objects that are alive, by their addresses. -/
abbrev Store (α : Type*) := Nat → Option α

inductive Label (κ μ ε : Type*) where
  | construct (a : Nat) (k : κ)
  | copy (e : ε) (a b : Nat)
  | move (e : ε) (a b : Nat)
  | assign (e : ε) (a b : Nat)
  | moveAssign (e : ε) (a b : Nat)
  | call (a : Nat) (m : μ)
  | destroy (a : Nat)

variable {α β κ μ ε : Type*}

def empty : Store α := fun _ => none

def put (s : Store α) (a : Nat) (o : α) : Store α := Function.update s a (some o)

def step (cls : ObjectClass α κ μ ε) (s : Store α) : Label κ μ ε → Option (Store α)
  | .construct a k =>
      match s a with
      | none => (cls.construct a k).map fun o => put s a o
      | some _ => none
  | .copy e a b =>
      match s a, s b with
      | none, some o => some (put s a (cls.copy e a o))
      | _, _ => none
  | .move e a b =>
      match s a, s b with
      | none, some o => some (put (put s b (cls.move e a o).2) a (cls.move e a o).1)
      | _, _ => none
  | .assign e a b =>
      match s a, s b with
      | some o, some r => some (put s a (cls.assign e a b o r))
      | _, _ => none
  -- of an object that is assigned to itself, the target is what remains
  | .moveAssign e a b =>
      match s a, s b with
      | some o, some r => some (put (put s b (cls.moveAssign e a b o r).2) a
          (cls.moveAssign e a b o r).1)
      | _, _ => none
  | .call a m => (s a).map fun o => put s a (cls.call a m o)
  | .destroy a => (s a).map fun _ => Function.update s a none

@[simp] theorem put_self (s : Store α) (a : Nat) (o : α) : put s a o a = some o :=
  Function.update_self ..

theorem put_ne (s : Store α) {a b : Nat} (o : α) (h : b ≠ a) : put s a o b = s b :=
  Function.update_of_ne h ..

/-! ## One class represents another -/

/-- Object by object, the first class does what the second does. -/
structure Represents (cls : ObjectClass α κ μ ε) (cls' : ObjectClass β κ μ ε)
    (V : Nat → α → β → Prop) : Prop where
  construct : ∀ a k, Option.Rel (V a) (cls.construct a k) (cls'.construct a k)
  copy : ∀ e a b o w, a ≠ b → V b o w → V a (cls.copy e a o) (cls'.copy e a w)
  move : ∀ e a b o w, a ≠ b → V b o w →
    V a (cls.move e a o).1 (cls'.move e a w).1 ∧ V b (cls.move e a o).2 (cls'.move e a w).2
  assign : ∀ e a b o v r w, a ≠ b → V a o v → V b r w →
    V a (cls.assign e a b o r) (cls'.assign e a b v w)
  assignSelf : ∀ e a o v, V a o v → V a (cls.assign e a a o o) (cls'.assign e a a v v)
  moveAssign : ∀ e a b o v r w, a ≠ b → V a o v → V b r w →
    V a (cls.moveAssign e a b o r).1 (cls'.moveAssign e a b v w).1 ∧
      V b (cls.moveAssign e a b o r).2 (cls'.moveAssign e a b v w).2
  moveAssignSelf : ∀ e a o v, V a o v →
    V a (cls.moveAssign e a a o o).1 (cls'.moveAssign e a a v v).1
  call : ∀ a m o v, V a o v → V a (cls.call a m o) (cls'.call a m v)

/-- The same addresses are in use, and what is at them is related. -/
def Related (V : Nat → α → β → Prop) (s : Store α) (t : Store β) : Prop :=
  ∀ a, Option.Rel (V a) (s a) (t a)

variable {cls : ObjectClass α κ μ ε} {cls' : ObjectClass β κ μ ε} {V : Nat → α → β → Prop}
  {s s' : Store α} {t : Store β}

theorem related_empty : Related V empty empty := fun _ => .none

theorem Related.put (h : Related V s t) {a : Nat} {o : α} {v : β} (hv : V a o v) :
    Related V (put s a o) (put t a v) := by
  intro b
  by_cases hb : b = a
  · subst hb
    rw [put_self, put_self]
    exact .some hv
  · rw [put_ne s o hb, put_ne t v hb]
    exact h b

theorem Related.destroy (h : Related V s t) (a : Nat) :
    Related V (Function.update s a none) (Function.update t a none) := by
  intro b
  by_cases hb : b = a
  · subst hb
    rw [Function.update_self, Function.update_self]
    exact .none
  · rw [Function.update_of_ne hb, Function.update_of_ne hb]
    exact h b

theorem exists_of_rel {R : α → β → Prop} {x : Option α} {y : Option β} {o : α}
    (h : Option.Rel R x y) (hx : x = some o) : ∃ v, y = some v ∧ R o v := by
  subst hx
  cases h with
  | some hv => exact ⟨_, rfl, hv⟩

theorem Related.none (h : Related V s t) {a : Nat} (ha : s a = none) : t a = none := by
  have hrel := h a
  rw [ha] at hrel
  generalize t a = y at hrel
  cases hrel with
  | none => rfl

theorem Related.some (h : Related V s t) {a : Nat} {o : α} (ha : s a = some o) :
    ∃ v, t a = some v ∧ V a o v := exists_of_rel (h a) ha

/-- What a step needs and what it does. -/
theorem step_cases {l : Label κ μ ε} (h : step cls s l = some s') :
    (∃ a k o, l = .construct a k ∧ s a = none ∧ cls.construct a k = some o ∧ s' = put s a o) ∨
    (∃ e a b o, l = .copy e a b ∧ s a = none ∧ s b = some o ∧ s' = put s a (cls.copy e a o)) ∨
    (∃ e a b o, l = .move e a b ∧ s a = none ∧ s b = some o ∧
      s' = put (put s b (cls.move e a o).2) a (cls.move e a o).1) ∨
    (∃ e a b o r, l = .assign e a b ∧ s a = some o ∧ s b = some r ∧
      s' = put s a (cls.assign e a b o r)) ∨
    (∃ e a b o r, l = .moveAssign e a b ∧ s a = some o ∧ s b = some r ∧
      s' = put (put s b (cls.moveAssign e a b o r).2) a (cls.moveAssign e a b o r).1) ∨
    (∃ a m o, l = .call a m ∧ s a = some o ∧ s' = put s a (cls.call a m o)) ∨
    (∃ a o, l = .destroy a ∧ s a = some o ∧ s' = Function.update s a none) := by
  cases l with
  | construct a k =>
      simp only [step] at h
      split at h
      · obtain ⟨o, ho, rfl⟩ := Option.map_eq_some_iff.mp h
        simp_all
      · cases h
  | copy e a b => simp only [step] at h; split at h <;> simp_all
  | move e a b => simp only [step] at h; split at h <;> simp_all
  | assign e a b => simp only [step] at h; split at h <;> simp_all
  | moveAssign e a b => simp only [step] at h; split at h <;> simp_all
  | call a m =>
      obtain ⟨o, ho, rfl⟩ := Option.map_eq_some_iff.mp h
      simp [ho]
  | destroy a =>
      obtain ⟨o, ho, rfl⟩ := Option.map_eq_some_iff.mp h
      simp [ho]

theorem ne_of_free {a b : Nat} {o : α} (ha : s a = none) (hb : s b = some o) : a ≠ b := by
  rintro rfl
  rw [ha] at hb
  cases hb

theorem Represents.step (h : Represents cls cls' V) (hst : Related V s t) {l : Label κ μ ε}
    (hstep : step cls s l = some s') :
    ∃ t', Objects.step cls' t l = some t' ∧ Related V s' t' := by
  rcases step_cases hstep with ⟨a, k, o, rfl, ha, hk, rfl⟩ | ⟨e, a, b, o, rfl, ha, hb, rfl⟩ |
    ⟨e, a, b, o, rfl, ha, hb, rfl⟩ | ⟨e, a, b, o, r, rfl, ha, hb, rfl⟩ |
    ⟨e, a, b, o, r, rfl, ha, hb, rfl⟩ | ⟨a, m, o, rfl, ha, rfl⟩ | ⟨a, o, rfl, ha, rfl⟩
  · obtain ⟨v, hv, hV⟩ := exists_of_rel (h.construct a k) hk
    exact ⟨_, by simp only [Objects.step, hst.none ha, hv, Option.map_some], hst.put hV⟩
  · obtain ⟨w, hw, hV⟩ := hst.some hb
    exact ⟨_, by simp only [Objects.step, hst.none ha, hw],
      hst.put (h.copy e a b o w (ne_of_free ha hb) hV)⟩
  · obtain ⟨w, hw, hV⟩ := hst.some hb
    obtain ⟨hnew, hleft⟩ := h.move e a b o w (ne_of_free ha hb) hV
    exact ⟨_, by simp only [Objects.step, hst.none ha, hw], (hst.put hleft).put hnew⟩
  · obtain ⟨v, hv, hVa⟩ := hst.some ha
    obtain ⟨w, hw, hVb⟩ := hst.some hb
    refine ⟨_, by simp only [Objects.step, hv, hw]; rfl, hst.put ?_⟩
    by_cases hab : a = b
    · subst hab
      obtain rfl := Option.some.inj (ha.symm.trans hb)
      obtain rfl := Option.some.inj (hv.symm.trans hw)
      exact h.assignSelf e a o v hVa
    · exact h.assign e a b o v r w hab hVa hVb
  · obtain ⟨v, hv, hVa⟩ := hst.some ha
    obtain ⟨w, hw, hVb⟩ := hst.some hb
    refine ⟨_, by simp only [Objects.step, hv, hw]; rfl, ?_⟩
    by_cases hab : a = b
    · subst hab
      obtain rfl := Option.some.inj (ha.symm.trans hb)
      obtain rfl := Option.some.inj (hv.symm.trans hw)
      have hself := h.moveAssignSelf e a o v hVa
      simpa only [Objects.put, Function.update_idem] using hst.put hself
    · obtain ⟨hnew, hleft⟩ := h.moveAssign e a b o v r w hab hVa hVb
      exact (hst.put hleft).put hnew
  · obtain ⟨v, hv, hV⟩ := hst.some ha
    exact ⟨_, by simp only [Objects.step, hv, Option.map_some], hst.put (h.call a m o v hV)⟩
  · obtain ⟨v, hv, -⟩ := hst.some ha
    exact ⟨_, by simp only [Objects.step, hv, Option.map_some], hst.destroy a⟩

theorem Represents.simulates (h : Represents cls cls' V) :
    Simulates (Objects.step cls) (Objects.step cls') (fun _ l => [l]) (Related V) where
  step := by
    intro s t l s' hst hstep
    obtain ⟨t', ht', hst'⟩ := h.step hst hstep
    exact ⟨t', exec_cons_some.mpr ⟨t', ht', rfl⟩, hst'⟩

/-- **A run of the objects of one class is a run of those of a class it represents.** -/
theorem Represents.exec (h : Represents cls cls' V) {ls : List (Label κ μ ε)}
    (hrun : exec (Objects.step cls) empty ls = some s) :
    ∃ t, Transition.exec (Objects.step cls') empty ls = some t ∧ Related V s t := by
  obtain ⟨t, ht, hst⟩ := h.simulates.exec related_empty hrun
  rw [observed_labels hrun] at ht
  exact ⟨t, ht, hst⟩

/-! ## Values -/

/-- The class of plain values, as a program that uses a class of objects thinks of them: a copy has
the value of its source, and so has what was moved.  The value of what has been moved from is not
known until another one is assigned to it. -/
def valueClass (construct : κ → Option β) (call : μ → β → β) : ObjectClass (Option β) κ μ ε where
  construct := fun _ k => (construct k).map some
  copy := fun _ _ w => w
  move := fun _ _ w => (w, none)
  assign := fun _ _ _ _ w => w
  moveAssign := fun _ _ _ _ w => (w, none)
  call := fun _ m v => v.map (call m)

/-- An object has the value it is known to have. -/
def Known (V : Nat → α → β → Prop) (a : Nat) (o : α) (w : Option β) : Prop := ∀ v ∈ w, V a o v

/-- The objects of the class have values, and copying takes them along. -/
structure HasValues (cls : ObjectClass α κ μ ε) (construct : κ → Option β) (call : μ → β → β)
    (V : Nat → α → β → Prop) : Prop where
  construct : ∀ a k, Option.Rel (V a) (cls.construct a k) (construct k)
  copy : ∀ e a b o v, a ≠ b → V b o v → V a (cls.copy e a o) v
  move : ∀ e a b o v, a ≠ b → V b o v → V a (cls.move e a o).1 v
  assign : ∀ e a b o r v, a ≠ b → V b r v → V a (cls.assign e a b o r) v
  assignSelf : ∀ e a o v, V a o v → V a (cls.assign e a a o o) v
  moveAssign : ∀ e a b o r v, a ≠ b → V b r v → V a (cls.moveAssign e a b o r).1 v
  moveAssignSelf : ∀ e a o v, V a o v → V a (cls.moveAssign e a a o o).1 v
  call : ∀ a m o v, V a o v → V a (cls.call a m o) (call m v)

theorem HasValues.represents {construct : κ → Option β} {call : μ → β → β}
    (h : HasValues cls construct call V) :
    Represents cls (valueClass construct call) (Known V) where
  construct := by
    intro a k
    have hk := h.construct a k
    simp only [valueClass]
    generalize cls.construct a k = x at hk ⊢
    generalize construct k = y at hk ⊢
    cases hk with
    | none => exact .none
    | some hV =>
        refine .some fun v hv => ?_
        obtain rfl := Option.mem_some_iff.mp hv
        exact hV
  copy := fun e a b o w hab hw v hv => h.copy e a b o v hab (hw v hv)
  move := fun e a b o w hab hw =>
    ⟨fun v hv => h.move e a b o v hab (hw v hv), fun v hv => by cases hv⟩
  assign := fun e a b o _ r w hab _ hw v hv => h.assign e a b o r v hab (hw v hv)
  assignSelf := fun e a o w hw v hv => h.assignSelf e a o v (hw v hv)
  moveAssign := fun e a b o _ r w hab _ hw =>
    ⟨fun v hv => h.moveAssign e a b o r v hab (hw v hv), fun v hv => by cases hv⟩
  moveAssignSelf := fun e a o w hw v hv => h.moveAssignSelf e a o v (hw v hv)
  call := by
    intro a m o w hw v hv
    obtain ⟨u, hu, rfl⟩ := Option.map_eq_some_iff.mp hv
    exact h.call a m o u (hw u hu)

/-- **In every run the objects have the values that the same calls give plain values.** -/
theorem HasValues.exec {construct : κ → Option β} {call : μ → β → β}
    (h : HasValues cls construct call V) {ls : List (Label κ μ ε)}
    (hrun : exec (step cls) empty ls = some s) :
    ∃ t, Transition.exec (step (valueClass construct call)) empty ls = some t ∧
      ∀ a, Option.Rel (Known V a) (s a) (t a) :=
  h.represents.exec hrun

/-! ## What every copy must meet -/

/-- The property `P` of the objects is kept by all calls but some of the copies.  A copy or a move
gives an object with `P` exactly if its source meets `C`, and an assignment exactly if its two sides
meet `D`. -/
structure KeepsExactly (cls : ObjectClass α κ μ ε) (P : Nat → α → Prop) (C : α → Prop)
    (D : α → α → Prop) : Prop where
  construct : ∀ a k, ∀ o ∈ cls.construct a k, P a o
  copy : ∀ e a b o, a ≠ b → P b o → (P a (cls.copy e a o) ↔ C o)
  move : ∀ e a b o, a ≠ b → P b o → (P a (cls.move e a o).1 ↔ C o) ∧ P b (cls.move e a o).2
  assign : ∀ e a b o r, a ≠ b → P a o → P b r → (P a (cls.assign e a b o r) ↔ D o r)
  assignSelf : ∀ e a o, P a o → P a (cls.assign e a a o o)
  moveAssign : ∀ e a b o r, a ≠ b → P a o → P b r →
    (P a (cls.moveAssign e a b o r).1 ↔ D o r) ∧ P b (cls.moveAssign e a b o r).2
  moveAssignSelf : ∀ e a o, P a o → P a (cls.moveAssign e a a o o).1
  call : ∀ a m o, P a o → P a (cls.call a m o)

/-- A step meets the condition on copies. -/
def Meets (C : α → Prop) (D : α → α → Prop) (s : Store α) : Label κ μ ε → Prop
  | .copy _ _ b | .move _ _ b => ∀ o ∈ s b, C o
  | .assign _ a b | .moveAssign _ a b => a ≠ b → ∀ o ∈ s a, ∀ r ∈ s b, D o r
  | _ => True

def Every (P : Nat → α → Prop) (s : Store α) : Prop := ∀ a, ∀ o ∈ s a, P a o

variable {P : Nat → α → Prop} {C : α → Prop} {D : α → α → Prop}

theorem Every.put_iff (h : Every P s) {a : Nat} {o : α} : Every P (put s a o) ↔ P a o := by
  constructor
  · intro hput
    exact hput a o (put_self s a o)
  · intro ho b r hr
    by_cases hb : b = a
    · subst hb
      obtain rfl := Option.some.inj ((put_self s b o).symm.trans hr)
      exact ho
    · rw [put_ne _ _ hb] at hr
      exact h b r hr

theorem Every.destroy (h : Every P s) (a : Nat) : Every P (Function.update s a none) := by
  intro b o ho
  by_cases hb : b = a
  · subst hb
    simp at ho
  · rw [Function.update_of_ne hb] at ho
    exact h b o ho

/-- One step keeps `P` of all objects exactly if it meets the condition. -/
theorem KeepsExactly.step (h : KeepsExactly cls P C D) (hP : Every P s) {l : Label κ μ ε}
    (hstep : Objects.step cls s l = some s') : Every P s' ↔ Meets C D s l := by
  rcases step_cases hstep with ⟨a, k, o, rfl, ha, hk, rfl⟩ | ⟨e, a, b, o, rfl, ha, hb, rfl⟩ |
    ⟨e, a, b, o, rfl, ha, hb, rfl⟩ | ⟨e, a, b, o, r, rfl, ha, hb, rfl⟩ |
    ⟨e, a, b, o, r, rfl, ha, hb, rfl⟩ | ⟨a, m, o, rfl, ha, rfl⟩ | ⟨a, o, rfl, ha, rfl⟩
  · simpa only [hP.put_iff, Meets, iff_true] using h.construct a k o hk
  · rw [hP.put_iff, h.copy e a b o (ne_of_free ha hb) (hP b o hb)]
    simp [Meets, hb]
  · obtain ⟨hnew, hleft⟩ := h.move e a b o (ne_of_free ha hb) (hP b o hb)
    rw [(hP.put_iff.mpr hleft).put_iff, hnew]
    simp [Meets, hb]
  · rw [hP.put_iff]
    by_cases hab : a = b
    · subst hab
      obtain rfl := Option.some.inj (ha.symm.trans hb)
      simpa [Meets] using h.assignSelf e a o (hP a o ha)
    · rw [h.assign e a b o r hab (hP a o ha) (hP b r hb)]
      simp [Meets, hab, ha, hb]
  · by_cases hab : a = b
    · subst hab
      obtain rfl := Option.some.inj (ha.symm.trans hb)
      simp only [Objects.put, Function.update_idem]
      rw [← Objects.put, hP.put_iff]
      simpa [Meets] using h.moveAssignSelf e a o (hP a o ha)
    · obtain ⟨hnew, hleft⟩ := h.moveAssign e a b o r hab (hP a o ha) (hP b r hb)
      rw [(hP.put_iff.mpr hleft).put_iff, hnew]
      simp [Meets, hab, ha, hb]
  · simpa only [hP.put_iff, Meets, iff_true] using h.call a m o (hP a o ha)
  · simpa only [Meets, iff_true] using hP.destroy a

/-- **All objects have `P` throughout a run exactly if all its copies meet the condition.** -/
theorem KeepsExactly.always_iff (h : KeepsExactly cls P C D) {ls : List (Label κ μ ε)}
    (hrun : exec (Objects.step cls) empty ls = some s) :
    Always (Objects.step cls) (Every P) empty ls ↔
      EachStep (Objects.step cls) (Meets C D) empty ls :=
  always_iff_eachStep (I := Every P) (fun _ hP => hP)
    (fun _ _ _ hP hC hstep => (h.step hP hstep).mpr hC)
    (fun _ _ _ hP hstep hP' => (h.step hP hstep).mp hP')
    (by intro a o ho; cases ho) hrun

/-- Where no copy needs a condition, all objects have `P` in every state reached. -/
theorem KeepsExactly.every (h : KeepsExactly cls P (fun _ => True) (fun _ _ => True))
    {ls : List (Label κ μ ε)} (hrun : exec (Objects.step cls) empty ls = some s) : Every P s := by
  refine inv_exec (fun u l u' hP hstep => (h.step hP hstep).mpr ?_)
    (by intro a o ho; cases ho) hrun
  cases l <;> simp [Meets]

end BupApp.Lib.Objects
