/-
# BupApp.Lib.Text -- byte strings as the C++ library reads them

A byte string is a list of characters, one character for one byte, so every theorem over `List Char`
covers every byte string.  The file has the three readings of a string that programs over
`std::string` rely on: the white-space separated words that an `istream` extracts, the C string that
`c_str()` hands to a C function (the text before the first NUL), and the substring test behind
`find(..) != npos`.
-/
import Mathlib.Data.List.Infix
import Mathlib.Data.List.TakeWhile

namespace BupApp.Lib.Text

/-! ## White-space separated words -/

/-- `isspace` in the "C" locale. -/
def isSpace (c : Char) : Bool :=
  c = ' ' || c = '\t' || c = '\n' || c = '\x0b' || c = '\x0c' || c = '\r'

/-- The words that `istream_iterator<string>` extracts: the maximal runs without white space. -/
def words (s : List Char) : List (List Char) :=
  (s.splitOnP isSpace).filter (· ≠ [])

/-- A space-free non-empty prefix in front of a space is the first word. -/
theorem words_append_space {w s : List Char} {b : Char} (hne : w ≠ [])
    (hw : ∀ c ∈ w, isSpace c = false) (hb : isSpace b = true) :
    words (w ++ b :: s) = w :: words s := by
  rw [words, List.splitOnP_append_cons_of_forall_mem hw b hb, List.filter_cons_of_pos (by simpa)]
  rfl

@[simp] theorem words_nil : words [] = [] := rfl

/-- White space in front of a text is skipped. -/
theorem words_space_append {b : List Char} (hb : ∀ c ∈ b, isSpace c = true) (s : List Char) :
    words (b ++ s) = words s := by
  induction b with
  | nil => rfl
  | cons c b ih =>
      have hc : isSpace c = true := hb c (by simp)
      rw [List.cons_append, words, List.splitOnP_cons_eq_if_modifyHead, if_pos hc]
      exact ih fun d hd => hb d (List.mem_cons_of_mem c hd)

/-- The last word of a text, with the white space behind it. -/
theorem words_word {w b : List Char} (hne : w ≠ []) (hw : ∀ c ∈ w, isSpace c = false)
    (hb : ∀ c ∈ b, isSpace c = true) : words (w ++ b) = [w] := by
  cases b with
  | nil =>
      rw [List.append_nil, words, List.splitOnP_eq_singleton hw]
      simpa using hne
  | cons c b =>
      rw [words_append_space hne hw (hb c (by simp)), ← List.append_nil b,
        words_space_append (fun d hd => hb d (List.mem_cons_of_mem c hd)), words_nil]

/-- A non-empty run of characters that are no white space. -/
structure Word where
  text : List Char
  ne_nil : text ≠ []
  noSpace : ∀ c ∈ text, isSpace c = false

/-- A run of white space. -/
structure Blank where
  text : List Char
  space : ∀ c ∈ text, isSpace c = true

/-! ## The C string of a byte string -/

/-- What a C function sees of `s.c_str()`: the text before the first NUL. -/
def cStr (s : List Char) : List Char := s.takeWhile (· ≠ '\x00')

theorem cStr_eq_self {s : List Char} (h : '\x00' ∉ s) : cStr s = s := by
  rw [cStr, List.takeWhile_eq_self_iff]
  intro c hc
  simp only [ne_eq, decide_eq_true_eq]
  rintro rfl
  exact h hc

/-- Behind a text without a NUL the C string goes on. -/
theorem cStr_append {s : List Char} (h : '\x00' ∉ s) (t : List Char) :
    cStr (s ++ t) = s ++ cStr t := by
  rw [cStr, List.takeWhile_append_of_pos, cStr]
  intro c hc
  simp only [ne_eq, decide_eq_true_eq]
  rintro rfl
  exact h hc

theorem cStr_noNul (s : List Char) : '\x00' ∉ cStr s := by
  intro h
  simpa using List.mem_takeWhile_imp h

theorem cStr_isPrefixOf_self (s : List Char) : cStr s <+: s := List.takeWhile_prefix _

/-! ## Substring test -/

/-- `s.find(sub) != npos`. -/
def contains (sub : List Char) : List Char → Bool
  | [] => sub.isPrefixOf []
  | c :: cs => sub.isPrefixOf (c :: cs) || contains sub cs

theorem contains_eq_true_iff (sub : List Char) :
    ∀ s : List Char, contains sub s = true ↔ sub <:+: s
  | [] => by simp [contains]
  | c :: cs => by
      rw [contains, Bool.or_eq_true, List.isPrefixOf_iff_prefix, contains_eq_true_iff sub cs,
        List.infix_cons_iff]

/-- A substring that avoids the separator lies on one side of it. -/
theorem contains_append_sep {sub a b : List Char} {sep : Char} (hsep : sep ∉ sub) :
    contains sub (a ++ sep :: b) = true ↔ contains sub a = true ∨ contains sub b = true := by
  simp only [contains_eq_true_iff]
  constructor
  · rintro ⟨l, r, h⟩
    rw [List.append_assoc, List.append_eq_append_iff] at h
    rcases h with ⟨m, rfl, hm⟩ | ⟨m, rfl, hm⟩
    · -- the occurrence starts inside `a`; it ends there too, or it would run over `sep`
      rw [List.append_eq_append_iff] at hm
      rcases hm with ⟨k, rfl, hk⟩ | ⟨k, rfl, hk⟩
      · exact Or.inl ⟨l, k, by simp⟩
      · cases k with
        | nil => exact Or.inl ⟨l, [], by simp⟩
        | cons d k =>
            simp only [List.cons_append, List.cons.injEq] at hk
            exact absurd (by simp [hk.1]) hsep
    · cases m with
      | nil =>
          cases sub with
          | nil => exact Or.inl (List.nil_infix)
          | cons d sub =>
              simp only [List.nil_append, List.cons_append, List.cons.injEq] at hm
              exact absurd (by simp [hm.1]) hsep
      | cons d m =>
          simp only [List.cons_append, List.cons.injEq] at hm
          exact Or.inr ⟨m, r, by rw [hm.2]; simp⟩
  · rintro (h | h)
    · exact h.trans (List.prefix_append a _).isInfix
    · exact h.trans ((List.suffix_cons sep b).trans (List.suffix_append a _)).isInfix

end BupApp.Lib.Text
