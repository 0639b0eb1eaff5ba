/-
# BupApp.Lib.Segments -- pieces of a list: its beginnings and what occurs in it in order

A reader that stops at the first value of some kind takes the shortest beginning of its input that
ends in such a value; a log that keeps what it is given has the given texts in it one behind the
other.  Both are stated for lists of anything.
-/
import Mathlib.Data.List.Infix

namespace BupApp.Lib.Segments

variable {α : Type*}

/-! ## The shortest beginning that ends in a value of some kind -/

/-- `got` ends in a value with `P`. -/
def EndsIn (P : α → Prop) (got : List α) : Prop := ∃ pre v, got = pre ++ [v] ∧ P v

/-- `got` is the shortest beginning of `values` that ends in a value with `P`. -/
structure ShortestTo (P : α → Prop) (got values : List α) : Prop where
  front : got <+: values
  ends : EndsIn P got
  least : ∀ other, other <+: values → EndsIn P other → got <+: other

/-- The values in front of the first one with `P`. -/
theorem ShortestTo.exists_split {P : α → Prop} {got values : List α}
    (h : ShortestTo P got values) : ∃ pre v post, got = pre ++ [v] ∧ values = pre ++ v :: post ∧
      P v ∧ ∀ w ∈ pre, ¬ P w := by
  obtain ⟨pre, v, rfl, hv⟩ := h.ends
  obtain ⟨post, rfl⟩ := h.front
  refine ⟨pre, v, post, rfl, by simp, hv, fun w hw hP => ?_⟩
  -- an earlier value with `P` would end a shorter beginning
  obtain ⟨l, r, rfl⟩ := List.append_of_mem hw
  have hshort := h.least (l ++ [w]) ⟨r ++ [v] ++ post, by simp⟩ ⟨l, w, rfl, hP⟩
  have hlength := hshort.length_le
  simp at hlength

theorem shortestTo_of_split {P : α → Prop} {pre post : List α} {v : α} (hv : P v)
    (hpre : ∀ w ∈ pre, ¬ P w) : ShortestTo P (pre ++ [v]) (pre ++ v :: post) := by
  refine ⟨⟨post, by simp⟩, ⟨pre, v, rfl, hv⟩, ?_⟩
  rintro other hfront ⟨pre', w, rfl, hw⟩
  have hwhole : pre ++ [v] <+: pre ++ v :: post := ⟨post, by simp⟩
  rcases List.prefix_or_prefix_of_prefix hwhole hfront with hle | hle
  · exact hle
  · rcases List.prefix_concat_iff.mp hle with heq | hinside
    · rw [heq]
    · exact absurd hw (hpre w (hinside.subset (by simp)))

/-- No value has `P`, or a shortest beginning ends in the first one that does. -/
theorem forall_not_or_shortestTo (P : α → Prop) (values : List α) :
    (∀ v ∈ values, ¬ P v) ∨ ∃ pre v, ShortestTo P (pre ++ [v]) values := by
  induction values with
  | nil => exact Or.inl (by simp)
  | cons w rest ih =>
      by_cases hw : P w
      · exact Or.inr ⟨[], w, shortestTo_of_split hw (by simp)⟩
      · rcases ih with hnone | ⟨pre, v, hshort⟩
        · exact Or.inl (by simpa [hw] using hnone)
        · obtain ⟨pre', v', post, heq, rfl, hv, hpre⟩ := hshort.exists_split
          refine Or.inr ⟨w :: pre', v', shortestTo_of_split hv ?_⟩
          simpa [hw] using hpre

/-! ## Occurrences in order -/

/-- The lists of `parts` occur in `whole` in their order, one behind the other. -/
def OccursInOrder : List (List α) → List α → Prop
  | [], _ => True
  | part :: parts, whole => ∃ pre post, whole = pre ++ part ++ post ∧ OccursInOrder parts post

/-- What stands in front does no harm. -/
theorem OccursInOrder.append_left {parts : List (List α)} {whole : List α}
    (h : OccursInOrder parts whole) (more : List α) : OccursInOrder parts (more ++ whole) := by
  cases parts with
  | nil => trivial
  | cons part parts =>
      obtain ⟨pre, post, rfl, hpost⟩ := h
      exact ⟨more ++ pre, post, by simp, hpost⟩

/-- A list in a block of its own, and the others behind the block. -/
theorem OccursInOrder.cons_block {part block whole : List α} {parts : List (List α)}
    (hpart : part <:+: block) (h : OccursInOrder parts whole) :
    OccursInOrder (part :: parts) (block ++ whole) := by
  obtain ⟨pre, post, rfl⟩ := hpart
  exact ⟨pre, post ++ whole, by simp, h.append_left post⟩

/-- One list occurs if it is a segment. -/
theorem occursInOrder_singleton {part whole : List α} :
    OccursInOrder [part] whole ↔ part <:+: whole := by
  simp only [OccursInOrder, and_true, List.IsInfix]
  exact ⟨fun ⟨pre, post, h⟩ => ⟨pre, post, h.symm⟩, fun ⟨pre, post, h⟩ => ⟨pre, post, h.symm⟩⟩

end BupApp.Lib.Segments
