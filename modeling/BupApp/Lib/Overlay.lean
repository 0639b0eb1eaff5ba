/-
# BupApp.Lib.Overlay -- files written over files

A store is a partial function from file names to contents, and so is what one copy writes: writing
`w` over `s` keeps of `s` what `w` does not name.  The file says what a sequence of such writes
leaves: for every name the content of the last write of that name.
-/
import Mathlib.Data.List.Basic

namespace BupApp.Lib.Overlay

variable {κ ν : Type*}

/-- `s` with the files of `w` written over it. -/
def overlay (s w : κ → Option ν) : κ → Option ν := fun k => (w k).or (s k)

/-- The store after the writes `ws`, in this order. -/
def overAll (s : κ → Option ν) (ws : List (κ → Option ν)) : κ → Option ν := ws.foldl overlay s

/-- The file `k` is one that both write. -/
def Clash (w w' : κ → Option ν) (k : κ) : Prop := w k ≠ none ∧ w' k ≠ none

theorem overlay_of_some {s w : κ → Option ν} {k : κ} {v : ν} (h : w k = some v) :
    overlay s w k = some v := by
  simp only [overlay, h, Option.or]

theorem overlay_of_none {s w : κ → Option ν} {k : κ} (h : w k = none) : overlay s w k = s k := by
  simp only [overlay, h, Option.or]

theorem overAll_append (s : κ → Option ν) (ws ws' : List (κ → Option ν)) :
    overAll s (ws ++ ws') = overAll (overAll s ws) ws' := List.foldl_append

/-- Writes that do not name a file leave it. -/
theorem overAll_of_untouched {s : κ → Option ν} {ws : List (κ → Option ν)} {k : κ}
    (h : ∀ w ∈ ws, w k = none) : overAll s ws k = s k := by
  induction ws generalizing s with
  | nil => rfl
  | cons w ws ih =>
      have hw : w k = none := h w (by simp)
      have hrest : overAll (overlay s w) ws k = overlay s w k :=
        ih fun w' hw' => h w' (List.mem_cons_of_mem w hw')
      show overAll (overlay s w) ws k = s k
      rw [hrest, overlay_of_none hw]

/-- **The last write of a file is what is found there.** -/
theorem overAll_of_last {s w : κ → Option ν} {ws ws' : List (κ → Option ν)} {k : κ} {v : ν}
    (hw : w k = some v) (hlast : ∀ w' ∈ ws', w' k = none) :
    overAll s (ws ++ w :: ws') k = some v := by
  rw [overAll_append]
  show overAll (overlay (overAll s ws) w) ws' k = some v
  rw [overAll_of_untouched hlast, overlay_of_some hw]

/-- The same, by position. -/
theorem overAll_getElem? {s w : κ → Option ν} {ws : List (κ → Option ν)} {i : ℕ} {k : κ} {v : ν}
    (hi : ws[i]? = some w) (hw : w k = some v)
    (hlast : ∀ j w', i < j → ws[j]? = some w' → w' k = none) : overAll s ws k = some v := by
  obtain ⟨hlt, rfl⟩ := List.getElem?_eq_some_iff.mp hi
  have hsplit : ws = ws.take i ++ ws[i] :: ws.drop (i + 1) := by
    rw [List.getElem_cons_drop, List.take_append_drop]
  rw [hsplit]
  refine overAll_of_last hw fun w' hw' => ?_
  obtain ⟨n, hn⟩ := List.mem_iff_getElem?.mp hw'
  rw [List.getElem?_drop] at hn
  exact hlast (i + 1 + n) w' (by omega) hn

end BupApp.Lib.Overlay
