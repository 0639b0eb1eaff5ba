/-
# BupApp.Lib.Lines -- the lines of a text

A line ends at a newline or at the end of the text; a text that ends in a newline has no further,
empty line behind it.  This is how `std::getline` cuts a text, one call a line, and how a program
reads a file of one record a line.  Appending to a text appends to its lines only when the text is
ended: otherwise the first new line is glued to the last old one.
-/
import Mathlib.Data.List.Infix
import Mathlib.Data.List.TakeWhile

namespace BupApp.Lib.Lines

/-! ## Lines -/

/-- The lines of a text, without their newlines. -/
def lines : List Char → List (List Char)
  | [] => []
  | c :: s =>
      if c = '\n' then [] :: lines s
      else match lines s with
        | [] => [[c]]
        | l :: ls => (c :: l) :: ls

/-- The text is empty or its last line has its newline. -/
def Ended (s : List Char) : Prop := ∀ c ∈ s.getLast?, c = '\n'

instance (s : List Char) : Decidable (Ended s) :=
  match h : s.getLast? with
  | none => isTrue (by simp [Ended, h])
  | some c => decidable_of_iff (c = '\n') (by simp [Ended, h])

@[simp] theorem lines_nil : lines [] = [] := rfl

@[simp] theorem lines_newline (s : List Char) : lines ('\n' :: s) = [] :: lines s := rfl

theorem lines_cons_of_ne {c : Char} (hc : c ≠ '\n') {s l : List Char} {ls : List (List Char)}
    (h : lines s = l :: ls) : lines (c :: s) = (c :: l) :: ls := by
  simp only [lines, if_neg hc, h]

theorem lines_eq_nil_iff {s : List Char} : lines s = [] ↔ s = [] := by
  cases s with
  | nil => simp
  | cons c s =>
      simp only [lines]
      split
      · simp
      · split <;> simp

theorem exists_lines_cons {s : List Char} (h : s ≠ []) : ∃ l ls, lines s = l :: ls := by
  cases hs : lines s with
  | nil => exact absurd (lines_eq_nil_iff.mp hs) h
  | cons l ls => exact ⟨l, ls, rfl⟩

theorem lines_of_not_mem {l : List Char} (hne : l ≠ []) (h : '\n' ∉ l) : lines l = [l] := by
  induction l with
  | nil => exact absurd rfl hne
  | cons c l ih =>
      simp only [List.mem_cons, not_or] at h
      by_cases hl : l = []
      · subst hl
        simp [lines, Ne.symm h.1]
      · exact lines_cons_of_ne (Ne.symm h.1) (ih hl h.2)

/-- A text without a newline is the line in front of the next newline. -/
theorem lines_append_newline {l : List Char} (h : '\n' ∉ l) (s : List Char) :
    lines (l ++ '\n' :: s) = l :: lines s := by
  induction l with
  | nil => rfl
  | cons c l ih =>
      simp only [List.mem_cons, not_or] at h
      exact lines_cons_of_ne (Ne.symm h.1) (ih h.2)

/-! ## Ended texts -/

theorem ended_nil : Ended [] := by simp [Ended]

theorem ended_append_newline (s : List Char) : Ended (s ++ ['\n']) := by simp [Ended]

theorem Ended.tail {c : Char} {s : List Char} (h : Ended (c :: s)) : Ended s := by
  cases s with
  | nil => exact ended_nil
  | cons d s => simpa [Ended] using h

theorem Ended.tail_ne_nil {c : Char} {s : List Char} (h : Ended (c :: s)) (hc : c ≠ '\n') :
    s ≠ [] := by
  rintro rfl
  exact hc (h c rfl)

theorem lines_append {s : List Char} (h : Ended s) (t : List Char) :
    lines (s ++ t) = lines s ++ lines t := by
  induction s with
  | nil => rfl
  | cons c s ih =>
      by_cases hc : c = '\n'
      · subst hc
        rw [List.cons_append, lines_newline, lines_newline, ih h.tail, List.cons_append]
      · obtain ⟨l, ls, hs⟩ := exists_lines_cons (h.tail_ne_nil hc)
        have happ : lines (s ++ t) = l :: (ls ++ lines t) := by
          rw [ih h.tail, hs, List.cons_append]
        rw [List.cons_append, lines_cons_of_ne hc happ, lines_cons_of_ne hc hs, List.cons_append]

theorem ended_cons_iff {c : Char} {s : List Char} (hs : s ≠ []) : Ended (c :: s) ↔ Ended s := by
  obtain ⟨d, s, rfl⟩ := List.exists_cons_of_ne_nil hs
  simp [Ended]

/-- The first line of an ended text stands at its start, with its newline. -/
theorem prefix_of_lines {s l : List Char} {ls : List (List Char)} (h : Ended s)
    (hl : lines s = l :: ls) : l ++ ['\n'] <+: s := by
  induction s generalizing l ls with
  | nil => cases hl
  | cons c s ih =>
      by_cases hc : c = '\n'
      · subst hc
        obtain ⟨rfl, -⟩ := List.cons.inj hl
        exact List.prefix_append ['\n'] s
      · obtain ⟨m, ms, hs⟩ := exists_lines_cons (h.tail_ne_nil hc)
        rw [lines_cons_of_ne hc hs] at hl
        obtain ⟨rfl, -⟩ := List.cons.inj hl
        exact List.cons_prefix_cons.mpr ⟨rfl, ih h.tail hs⟩

/-- Every line of an ended text stands there with its newline. -/
theorem infix_of_mem_lines {s l : List Char} (h : Ended s) (hl : l ∈ lines s) :
    l ++ ['\n'] <:+: s := by
  induction s generalizing l with
  | nil => cases hl
  | cons c s ih =>
      have hrest : ∀ k ∈ lines s, k ++ ['\n'] <:+: c :: s :=
        fun k hk => (ih h.tail hk).trans (List.suffix_cons c s).isInfix
      by_cases hc : c = '\n'
      · subst hc
        rw [lines_newline, List.mem_cons] at hl
        rcases hl with rfl | hl
        · exact (List.prefix_append ['\n'] s).isInfix
        · exact hrest l hl
      · obtain ⟨m, ms, hs⟩ := exists_lines_cons (h.tail_ne_nil hc)
        have hcons := lines_cons_of_ne hc hs
        rw [hcons, List.mem_cons] at hl
        rcases hl with rfl | hl
        · exact (prefix_of_lines h hcons).isInfix
        · exact hrest l (by rw [hs]; exact List.mem_cons_of_mem m hl)

/-! ## What the lines say of the text -/

theorem flatten_lines (s : List Char) : (lines s).flatten = s.filter (· ≠ '\n') := by
  induction s with
  | nil => rfl
  | cons c s ih =>
      by_cases hc : c = '\n'
      · subst hc
        simp [ih]
      · by_cases hs : s = []
        · subst hs
          simp [lines, hc]
        · obtain ⟨l, ls, hls⟩ := exists_lines_cons hs
          rw [hls] at ih
          rw [lines_cons_of_ne hc hls, List.filter_cons_of_pos (by simpa using hc), ← ih]
          rfl

/-- The number of lines: one for each newline, and one for a text that is not ended. -/
theorem length_lines (s : List Char) :
    (lines s).length = s.count '\n' + if Ended s then 0 else 1 := by
  induction s with
  | nil =>
      rw [lines_nil, List.count_nil, if_pos ended_nil]
      rfl
  | cons c s ih =>
      by_cases hs : s = []
      · subst hs
        by_cases hc : c = '\n'
        · subst hc
          rw [lines_newline, lines_nil, List.count_singleton_self,
            if_pos (show Ended ['\n'] from ended_append_newline [])]
          rfl
        · have hopen : ¬ Ended [c] := fun h => hc (h c rfl)
          have hnot : '\n' ∉ [c] := by simpa using Ne.symm hc
          rw [lines_of_not_mem (List.cons_ne_nil c []) hnot, List.count_eq_zero_of_not_mem hnot,
            if_neg hopen]
          rfl
      · have hlast : (if Ended (c :: s) then 0 else 1) = if Ended s then 0 else 1 :=
          if_congr (ended_cons_iff hs) rfl rfl
        rw [hlast]
        by_cases hc : c = '\n'
        · subst hc
          rw [lines_newline, List.length_cons, ih, List.count_cons_self]
          omega
        · obtain ⟨l, ls, hls⟩ := exists_lines_cons hs
          rw [List.count_cons_of_ne hc, ← ih, lines_cons_of_ne hc hls, hls]
          rfl

/-! ## Reading a text line by line -/

/-- `std::getline`: the next line and the text behind it; `none` when no character is left. -/
def getline (s : List Char) : Option (List Char × List Char) :=
  if s = [] then none
  else some (s.takeWhile (· ≠ '\n'), (s.dropWhile (· ≠ '\n')).drop 1)

theorem getline_eq_none_iff {s : List Char} : getline s = none ↔ s = [] := by simp [getline]

/-- One call of `getline` takes the first line. -/
theorem lines_of_getline {s l rest : List Char} (h : getline s = some (l, rest)) :
    lines s = l :: lines rest := by
  simp only [getline, Option.ite_none_left_eq_some, Option.some.injEq, Prod.mk.injEq] at h
  obtain ⟨hne, rfl, rfl⟩ := h
  have hfree : '\n' ∉ s.takeWhile (· ≠ '\n') := by
    intro hmem
    simpa using List.mem_takeWhile_imp hmem
  have hsplit : s.takeWhile (· ≠ '\n') ++ s.dropWhile (· ≠ '\n') = s :=
    List.takeWhile_append_dropWhile
  cases hd : s.dropWhile (· ≠ '\n') with
  | nil =>
      -- the text ends with this line
      rw [hd, List.append_nil] at hsplit
      rw [hsplit] at hfree ⊢
      rw [lines_of_not_mem hne hfree]
      rfl
  | cons c r =>
      obtain rfl : c = '\n' := by
        have hhead := List.head?_dropWhile_not (fun c => decide (c ≠ '\n')) s
        rw [hd] at hhead
        simpa using hhead
      rw [hd] at hsplit
      conv_lhs => rw [← hsplit]
      rw [lines_append_newline hfree]
      rfl

end BupApp.Lib.Lines
