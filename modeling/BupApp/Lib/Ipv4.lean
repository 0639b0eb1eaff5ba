/-
# BupApp.Lib.Ipv4 -- canonical dotted-quad addresses

`inet_pton(AF_INET, ..)` accepts exactly four decimal octets joined by dots: no sign, no leading
zero, no octet above 255.  What the rest of a development needs from an accepted string is small:
which characters it is made of and that it starts with a digit.
-/
import BupApp.Lib.Text

namespace BupApp.Lib.Ipv4

open BupApp.Lib.Text

/-- The number a digit string denotes. -/
def decimal (o : List Char) : Nat := o.foldl (fun n c => 10 * n + (c.toNat - 48)) 0

/-- One octet: decimal digits without a leading zero, at most 255. -/
def octet (o : List Char) : Bool :=
  o ≠ [] && o.all Char.isDigit && (o.length = 1 || o.head? ≠ some '0') && decimal o ≤ 255

/-- A canonical dotted quad. -/
def dottedQuad (s : List Char) : Bool :=
  match s.splitOn '.' with
  | [a, b, c, d] => octet a && octet b && octet c && octet d
  | _ => false

/-- `inet_pton(AF_INET, src, ..) == 1`; the C function reads `src` up to its first NUL. -/
def inetPton (src : List Char) : Bool := dottedQuad (cStr src)

theorem octet_digits {o : List Char} (h : octet o = true) : ∀ c ∈ o, c.isDigit = true := by
  simp only [octet, Bool.and_eq_true, List.all_eq_true] at h
  exact h.1.1.2

theorem octet_ne_nil {o : List Char} (h : octet o = true) : o ≠ [] := by
  simp only [octet, Bool.and_eq_true, decide_eq_true_eq] at h
  exact h.1.1.1

theorem dottedQuad_parts {s : List Char} (h : dottedQuad s = true) :
    ∃ a b c d, s = a ++ '.' :: (b ++ '.' :: (c ++ '.' :: d)) ∧
      octet a = true ∧ octet b = true ∧ octet c = true ∧ octet d = true := by
  unfold dottedQuad at h
  split at h
  · rename_i a b c d hs
    simp only [Bool.and_eq_true] at h
    refine ⟨a, b, c, d, ?_, h.1.1.1, h.1.1.2, h.1.2, h.2⟩
    have hjoin : List.intercalate ['.'] (s.splitOn '.') = s := List.intercalate_splitOn '.'
    rw [hs] at hjoin
    simpa [List.intercalate] using hjoin.symm
  · exact absurd h (by simp)

theorem dottedQuad_chars {s : List Char} (h : dottedQuad s = true) :
    ∀ c ∈ s, c.isDigit = true ∨ c = '.' := by
  obtain ⟨a, b, c, d, rfl, ha, hb, hc, hd⟩ := dottedQuad_parts h
  intro x hx
  simp only [List.mem_append, List.mem_cons] at hx
  rcases hx with hx | rfl | hx | rfl | hx | rfl | hx
  · exact Or.inl (octet_digits ha x hx)
  · exact Or.inr rfl
  · exact Or.inl (octet_digits hb x hx)
  · exact Or.inr rfl
  · exact Or.inl (octet_digits hc x hx)
  · exact Or.inr rfl
  · exact Or.inl (octet_digits hd x hx)

theorem dottedQuad_head {s : List Char} (h : dottedQuad s = true) :
    ∃ c t, s = c :: t ∧ c.isDigit = true := by
  obtain ⟨a, b, c, d, rfl, ha, -, -, -⟩ := dottedQuad_parts h
  cases a with
  | nil => exact absurd rfl (octet_ne_nil ha)
  | cons x a => exact ⟨x, _, rfl, octet_digits ha x (by simp)⟩

theorem dottedQuad_ne_nil {s : List Char} (h : dottedQuad s = true) : s ≠ [] := by
  obtain ⟨c, t, rfl, -⟩ := dottedQuad_head h
  simp

/-- A character outside the digits and the dot does not occur in a dotted quad. -/
theorem dottedQuad_not_mem {s : List Char} (h : dottedQuad s = true) {c : Char}
    (hd : c.isDigit = false) (hdot : c ≠ '.') : c ∉ s := by
  intro hc
  rcases dottedQuad_chars h c hc with h' | h'
  · rw [hd] at h'
    exact Bool.false_ne_true h'
  · exact hdot h'

theorem dottedQuad_noSpace {s : List Char} (h : dottedQuad s = true) :
    ∀ c ∈ s, isSpace c = false := by
  intro c hc
  rw [Bool.eq_false_iff]
  intro hsp
  simp only [isSpace, Bool.or_eq_true, decide_eq_true_eq] at hsp
  rcases hsp with ((((rfl | rfl) | rfl) | rfl) | rfl) | rfl <;>
    exact dottedQuad_not_mem h (by decide) (by decide) hc

theorem inetPton_of_dottedQuad {s : List Char} (h : dottedQuad s = true) : inetPton s = true := by
  rw [inetPton, cStr_eq_self (dottedQuad_not_mem h (by decide) (by decide))]
  exact h

/-- Without a NUL the C function sees the whole string. -/
theorem dottedQuad_of_inetPton {s : List Char} (hnul : '\x00' ∉ s) (h : inetPton s = true) :
    dottedQuad s = true := by
  rwa [inetPton, cStr_eq_self hnul] at h

theorem inetPton_ne_nil {s : List Char} (h : inetPton s = true) : s ≠ [] := by
  rintro rfl
  exact absurd h (by decide)

example : dottedQuad "192.168.1.10".toList = true := by decide
example : dottedQuad "192.168.01.10".toList = false := by decide

end BupApp.Lib.Ipv4
