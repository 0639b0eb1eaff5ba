/-
# BupApp.Lib.Stdio -- reading a stream of the C library

A stream that is read is the data that is still to come and the way it ends: in end of file, or in a
read error that persists.  Only the first of the two is what `feof` tells, and only once a read has
run into it.  `fgets` reads a piece: a line with its newline, or as much of it as the buffer takes.
Where the data ends in front of the newline it still has the last piece if the stream ends in end of
file, and nothing at all if it ends in an error.
-/
import Mathlib.Data.List.Infix

namespace BupApp.Lib.Stdio

/-! ## Pieces -/

/-- The first `n` characters, or those up to a newline and with it, and the rest; `none` if the text
ends first. -/
def piece : Nat → List Char → Option (List Char × List Char)
  | 0, s => some ([], s)
  | _ + 1, [] => none
  | n + 1, c :: s =>
      if c = '\n' then some ([c], s)
      else (piece n s).map fun p => (c :: p.1, p.2)

/-- A line that fits with its newline, or as much of a line as fits. -/
def IsPiece (n : Nat) (p : List Char) : Prop :=
  ∃ part, '\n' ∉ part ∧ (p = part ++ ['\n'] ∧ part.length < n ∨ p = part ∧ part.length = n)

theorem IsPiece.ne_nil {n : Nat} {p : List Char} (h : IsPiece n p) (hn : 0 < n) : p ≠ [] := by
  obtain ⟨part, -, ⟨rfl, -⟩ | ⟨rfl, hlength⟩⟩ := h
  · simp
  · exact List.length_pos_iff.mp (by omega)

theorem IsPiece.cons {n : Nat} {c : Char} {p : List Char} (hc : c ≠ '\n') (h : IsPiece n p) :
    IsPiece (n + 1) (c :: p) := by
  obtain ⟨part, hpart, ⟨rfl, hlength⟩ | ⟨rfl, hlength⟩⟩ := h
  · exact ⟨c :: part, by simp [hpart, hc.symm], Or.inl ⟨by simp, by simpa using hlength⟩⟩
  · exact ⟨c :: p, by simp [hpart, hc.symm], Or.inr ⟨rfl, by simpa using hlength⟩⟩

theorem isPiece_of_piece {n : Nat} {s p rest : List Char} (h : piece n s = some (p, rest)) :
    IsPiece n p ∧ s = p ++ rest := by
  induction n, s using piece.induct generalizing p with
  | case1 s =>
      simp only [piece, Option.some.injEq, Prod.mk.injEq] at h
      obtain ⟨rfl, rfl⟩ := h
      exact ⟨⟨[], by simp, Or.inr ⟨rfl, rfl⟩⟩, rfl⟩
  | case2 n => cases h
  | case3 n s =>
      simp only [piece, if_true, Option.some.injEq, Prod.mk.injEq] at h
      obtain ⟨rfl, rfl⟩ := h
      exact ⟨⟨[], by simp, Or.inl ⟨rfl, Nat.succ_pos n⟩⟩, rfl⟩
  | case4 n c s hc ih =>
      simp only [piece, if_neg hc, Option.map_eq_some_iff, Prod.mk.injEq] at h
      obtain ⟨⟨q, r⟩, hq, rfl, rfl⟩ := h
      obtain ⟨hpiece, rfl⟩ := ih hq
      exact ⟨hpiece.cons hc, rfl⟩

/-- The rest of a line is read up to its newline. -/
theorem piece_line {n : Nat} {part : List Char} (hpart : '\n' ∉ part) (hn : part.length < n)
    (rest : List Char) : piece n (part ++ '\n' :: rest) = some (part ++ ['\n'], rest) := by
  induction part generalizing n with
  | nil =>
      obtain ⟨n, rfl⟩ := Nat.exists_eq_succ_of_ne_zero (Nat.ne_of_gt hn)
      rfl
  | cons c part ih =>
      obtain ⟨n, rfl⟩ := Nat.exists_eq_succ_of_ne_zero (Nat.ne_of_gt (Nat.zero_lt_of_lt hn))
      simp only [List.mem_cons, not_or] at hpart
      rw [List.cons_append, piece, if_neg (Ne.symm hpart.1), ih hpart.2 (by simpa using hn)]
      rfl

/-- Of a longer one as much is read as fits. -/
theorem piece_full {part : List Char} (hpart : '\n' ∉ part) (rest : List Char) :
    piece part.length (part ++ rest) = some (part, rest) := by
  induction part with
  | nil => rfl
  | cons c part ih =>
      simp only [List.mem_cons, not_or] at hpart
      rw [List.length_cons, List.cons_append, piece, if_neg (Ne.symm hpart.1), ih hpart.2]
      rfl

theorem piece_of_isPiece {n : Nat} {p : List Char} (h : IsPiece n p) (rest : List Char) :
    piece n (p ++ rest) = some (p, rest) := by
  obtain ⟨part, hpart, ⟨rfl, hlength⟩ | ⟨rfl, rfl⟩⟩ := h
  · simpa using piece_line hpart hlength rest
  · exact piece_full hpart rest

/-! ## Streams -/

/-- What comes behind the data of a stream. -/
inductive Ending where
  | endOfFile
  | readError
  deriving DecidableEq, Repr

/-- A stream that is read: the data still to come, its end, and the end-of-file indicator. -/
structure Stream where
  data : List Char
  ending : Ending
  feof : Bool
  deriving DecidableEq, Repr

namespace Stream

/-- A stream that nothing was read from. -/
def opened (data : List Char) (ending : Ending) : Stream := ⟨data, ending, false⟩

/-- `fgets` with a buffer for `size` characters, one of which is the final NUL: what is in the
buffer then, or `none` for the null pointer, and the stream behind it. -/
def fgets (size : Nat) (s : Stream) : Option (List Char) × Stream :=
  match piece (size - 1) s.data with
  | some (buffer, rest) => (some buffer, { s with data := rest })
  | none =>
      match s.ending with
      | .endOfFile => (if s.data = [] then none else some s.data, ⟨[], .endOfFile, true⟩)
      | .readError => (none, { s with data := [] })

/-- How often the stream can be read before `feof` tells its end, if it ends in end of file. -/
def readsLeft (s : Stream) : Nat := s.data.length + if s.feof then 0 else 1

@[simp] theorem opened_feof (data : List Char) (ending : Ending) :
    (opened data ending).feof = false := rfl

@[simp] theorem opened_ending (data : List Char) (ending : Ending) :
    (opened data ending).ending = ending := rfl

/-- A piece in front of the data is read as it is. -/
theorem fgets_of_isPiece (size : Nat) {p : List Char} (h : IsPiece (size - 1) p) {s : Stream}
    {rest : List Char} (hdata : s.data = p ++ rest) :
    s.fgets size = (some p, { s with data := rest }) := by
  simp only [fgets, hdata, piece_of_isPiece h]

/-- All that a read can do: it takes a piece, it takes what is left in front of the end of file and
sets the indicator, or it finds an error and nothing else. -/
theorem fgets_cases {size : Nat} (hsize : 1 < size) (s : Stream) :
    (∃ p rest, p ≠ [] ∧ s.data = p ++ rest ∧
      s.fgets size = (some p, { s with data := rest })) ∨
    (s.ending = .endOfFile ∧ (s.fgets size).1.getD [] = s.data ∧
      (s.fgets size).2 = ⟨[], .endOfFile, true⟩) ∨
    (s.ending = .readError ∧ s.fgets size = (none, { s with data := [] })) := by
  cases hp : piece (size - 1) s.data with
  | some p =>
      obtain ⟨buffer, rest⟩ := p
      obtain ⟨hpiece, hdata⟩ := isPiece_of_piece hp
      exact Or.inl ⟨buffer, rest, hpiece.ne_nil (by omega), hdata, by simp only [fgets, hp]⟩
  | none =>
      cases hending : s.ending with
      | endOfFile =>
          refine Or.inr (Or.inl ⟨rfl, ?_, by simp only [fgets, hp, hending]⟩)
          simp only [fgets, hp, hending]
          split
          · rename_i hnil
            rw [hnil]
            rfl
          · rfl
      | readError => exact Or.inr (Or.inr ⟨rfl, by simp only [fgets, hp, hending]⟩)

/-- Reading does not change the end. -/
theorem fgets_ending {size : Nat} (hsize : 1 < size) (s : Stream) :
    (s.fgets size).2.ending = s.ending := by
  rcases fgets_cases hsize s with ⟨p, rest, -, -, h⟩ | ⟨hending, -, h⟩ | ⟨-, h⟩
  · rw [h]
  · rw [h, hending]
  · rw [h]

/-- In front of the end of file every read gets nearer to it. -/
theorem readsLeft_fgets_lt {size : Nat} (hsize : 1 < size) {s : Stream}
    (hending : s.ending = .endOfFile) (hfeof : s.feof = false) :
    (s.fgets size).2.readsLeft < s.readsLeft := by
  rcases fgets_cases hsize s with ⟨p, rest, hp, hdata, h⟩ | ⟨-, -, h⟩ | ⟨herror, -⟩
  · have hpos := List.length_pos_iff.mpr hp
    rw [h]
    simp only [readsLeft, hdata, List.length_append]
    omega
  · rw [h]
    simp [readsLeft, hfeof]
  · rw [herror] at hending
    cases hending

/-- An error never sets the indicator. -/
theorem fgets_feof_of_readError {size : Nat} (hsize : 1 < size) {s : Stream}
    (herror : s.ending = .readError) : (s.fgets size).2.feof = s.feof := by
  rcases fgets_cases hsize s with ⟨p, rest, -, -, h⟩ | ⟨hending, -⟩ | ⟨-, h⟩
  · rw [h]
  · rw [herror] at hending
    cases hending
  · rw [h]

end Stream

end BupApp.Lib.Stdio
