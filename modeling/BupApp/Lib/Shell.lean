/-
# BupApp.Lib.Shell -- when a string is one simple command, and with which words

The file models the part of the POSIX shell's token recognition that decides whether a string is a
single simple command whose words are fixed by the text alone.  `fields` reads the string character
by character: blanks separate words, backslash and the two kinds of quotes are removed, a newline,
an operator character (`; & | < > ( )`), an unquoted or double-quoted `$` or backquote, and an
unterminated quotation make the result `none`.  A `#` at the start of a word begins a comment.  Tilde
expansion is left undone: a word is reported as it is written.

Pathname expansion depends on the files that exist.  With `glob := true` an unquoted `*`, `?` or `[`
makes the result `none` too; with `glob := false` they are ordinary characters.  Every result holds
for both readings.

`fields_join_iff` is the round trip: words joined by single blanks are read back as the same words
exactly when each of them is `Plain`.  The half that needs an argument is a length count: whatever
the lexer takes out of the text is missing from the words.
-/
import BupApp.Lib.Text

namespace BupApp.Lib.Shell

open BupApp.Lib.Text

/-! ## Token recognition -/

def isBlank (c : Char) : Bool := c = ' ' || c = '\t'

def isOperator (c : Char) : Bool :=
  c = ';' || c = '&' || c = '|' || c = '<' || c = '>' || c = '(' || c = ')'

/-- Starts a parameter expansion, an arithmetic expansion or a command substitution. -/
def isExpansion (c : Char) : Bool := c = '$' || c = '\x60'

/-- Starts a pattern of pathname expansion. -/
def isPattern (c : Char) : Bool := c = '*' || c = '?' || c = '['

/-- Where the lexer is; a word under construction carries its characters so far. -/
inductive Mode where
  | gap                               -- between words
  | inWord (w : List Char)
  | escaped (w : Option (List Char))  -- after an unquoted backslash; `none` at the start of a word
  | single (w : List Char)            -- inside '..'
  | double (w : List Char)            -- inside ".."
  | doubleEscaped (w : List Char)     -- after a backslash inside ".."
  | comment
  deriving DecidableEq, Repr

/-- The mode after a character of an unquoted word `w` that does not end the word. -/
def wordChar (glob : Bool) (w : List Char) (c : Char) : Option Mode :=
  if c = '\'' then some (.single w)
  else if c = '"' then some (.double w)
  else if isExpansion c || (glob && isPattern c) then none
  else some (.inWord (w ++ [c]))

/-- The words of the rest of a command line; `none` when it is not one simple command whose words
the text alone determines. -/
def fields (glob : Bool) : List Char → Mode → Option (List (List Char))
  | [], .gap => some []
  | [], .comment => some []
  | [], .inWord w => some [w]
  | [], _ => none
  | c :: cs, .gap =>
      if isBlank c then fields glob cs .gap
      else if c = '\n' || isOperator c then none
      else if c = '#' then fields glob cs .comment
      else if c = '\\' then fields glob cs (.escaped none)
      else (wordChar glob [] c).bind fun m => fields glob cs m
  | c :: cs, .inWord w =>
      if isBlank c then (fields glob cs .gap).map (w :: ·)
      else if c = '\n' || isOperator c then none
      else if c = '\\' then fields glob cs (.escaped (some w))
      else (wordChar glob w c).bind fun m => fields glob cs m
  | c :: cs, .escaped w =>
      -- a backslash before a newline joins two lines
      if c = '\n' then fields glob cs (match w with | none => .gap | some w => .inWord w)
      else fields glob cs (.inWord (w.getD [] ++ [c]))
  | c :: cs, .single w =>
      if c = '\'' then fields glob cs (.inWord w) else fields glob cs (.single (w ++ [c]))
  | c :: cs, .double w =>
      if c = '"' then fields glob cs (.inWord w)
      else if c = '\\' then fields glob cs (.doubleEscaped w)
      else if isExpansion c then none
      else fields glob cs (.double (w ++ [c]))
  | c :: cs, .doubleEscaped w =>
      if c = '\n' then fields glob cs (.double w)
      else if isExpansion c || c = '"' || c = '\\' then fields glob cs (.double (w ++ [c]))
      else fields glob cs (.double (w ++ ['\\', c]))
  | c :: cs, .comment => if c = '\n' then none else fields glob cs .comment

/-- The reserved words of the shell grammar. -/
def reservedWords : List (List Char) :=
  ["!", "\x7b", "\x7d", "case", "do", "done", "elif", "else", "esac", "fi", "for", "if", "in", "then",
    "until", "while"].map String.toList

/-- A first word that is a command name: no reserved word and no assignment. -/
def isCommandName (w : List Char) : Bool := w ∉ reservedWords && '=' ∉ w

/-- The argument vector of a string that is one simple command. -/
def simpleCommand (glob : Bool) (s : List Char) : Option (List (List Char)) :=
  (fields glob s .gap).filter fun ws => (ws.head?.map isCommandName).getD false

/-- What the shell makes of the C string of `s`. -/
def argv (glob : Bool) (s : List Char) : Option (List (List Char)) := simpleCommand glob (cStr s)

/-! ## Plain words -/

/-- A character without a meaning of its own inside an unquoted word. -/
def plainChar (glob : Bool) (c : Char) : Bool :=
  !(isBlank c || c = '\n' || isOperator c || c = '\\' || c = '\'' || c = '"' || isExpansion c ||
    (glob && isPattern c))

/-- A word that the shell reads as itself. -/
structure Plain (glob : Bool) (w : List Char) : Prop where
  ne_nil : w ≠ []
  chars : ∀ c ∈ w, plainChar glob c = true
  head : w.head? ≠ some '#'

variable {glob : Bool}

theorem plainChar_wordChar {c : Char} (h : plainChar glob c = true) (w : List Char) :
    wordChar glob w c = some (.inWord (w ++ [c])) := by
  simp only [plainChar, Bool.not_eq_true', Bool.or_eq_false_iff, decide_eq_false_iff_not] at h
  obtain ⟨⟨⟨⟨⟨⟨⟨-, -⟩, -⟩, -⟩, hs⟩, hd⟩, he⟩, hp⟩ := h
  simp [wordChar, hs, hd, he, hp]

theorem fields_inWord_plain {c : Char} (h : plainChar glob c = true) (cs w : List Char) :
    fields glob (c :: cs) (.inWord w) = fields glob cs (.inWord (w ++ [c])) := by
  have hw := plainChar_wordChar h w
  simp only [plainChar, Bool.not_eq_true', Bool.or_eq_false_iff, decide_eq_false_iff_not] at h
  obtain ⟨⟨⟨⟨⟨⟨⟨hb, hn⟩, ho⟩, hbs⟩, -⟩, -⟩, -⟩, -⟩ := h
  simp [fields, hb, hn, ho, hbs, hw]

theorem fields_gap_plain {c : Char} (h : plainChar glob c = true) (hc : c ≠ '#')
    (cs : List Char) : fields glob (c :: cs) .gap = fields glob cs (.inWord [c]) := by
  have hw := plainChar_wordChar h []
  simp only [plainChar, Bool.not_eq_true', Bool.or_eq_false_iff, decide_eq_false_iff_not] at h
  obtain ⟨⟨⟨⟨⟨⟨⟨hb, hn⟩, ho⟩, hbs⟩, -⟩, -⟩, -⟩, -⟩ := h
  simp [fields, hb, hn, ho, hbs, hc, hw]

theorem fields_inWord_append {v : List Char} (hv : ∀ c ∈ v, plainChar glob c = true)
    (cs w : List Char) :
    fields glob (v ++ cs) (.inWord w) = fields glob cs (.inWord (w ++ v)) := by
  induction v generalizing w with
  | nil => simp
  | cons c v ih =>
      rw [List.cons_append, fields_inWord_plain (hv c (by simp)),
        ih (fun d hd => hv d (List.mem_cons_of_mem c hd))]
      simp

/-- A plain word is read to its end. -/
theorem fields_gap_word {w : List Char} (h : Plain glob w) (cs : List Char) :
    fields glob (w ++ cs) .gap = fields glob cs (.inWord w) := by
  cases w with
  | nil => exact absurd rfl h.ne_nil
  | cons c w =>
      have hc : c ≠ '#' := by
        rintro rfl
        exact h.head rfl
      rw [List.cons_append, fields_gap_plain (h.chars c (by simp)) hc,
        fields_inWord_append (fun d hd => h.chars d (List.mem_cons_of_mem c hd))]
      rfl

/-! ## Words joined by single blanks -/

/-- The words of a command line, one blank between two of them. -/
def join : List (List Char) → List Char
  | [] => []
  | [w] => w
  | w :: ws => w ++ ' ' :: join ws

theorem fields_join {ws : List (List Char)} (h : ∀ w ∈ ws, Plain glob w) :
    fields glob (join ws) .gap = some ws := by
  induction ws with
  | nil => rfl
  | cons w ws ih =>
      have hw : Plain glob w := h w (by simp)
      cases ws with
      | nil =>
          have hread := fields_gap_word hw []
          rw [List.append_nil] at hread
          rw [join, hread, fields]
      | cons v vs =>
          have hblank : isBlank ' ' = true := rfl
          rw [join, fields_gap_word hw, fields, if_pos hblank,
            ih (fun x hx => h x (List.mem_cons_of_mem w hx))]
          · rfl
          · simp

/-! ## The length count -/

/-- The room words take on a line, one separator for each. -/
def weight : List (List Char) → Nat
  | [] => 0
  | w :: ws => w.length + 1 + weight ws

/-- The room that is left for words: what is under construction, what is to come, and one separator
more when no quotation has to be closed. -/
def room : Mode → List Char → Nat
  | .gap, s => s.length + 1
  | .inWord w, s => w.length + s.length + 1
  | .escaped w, s => (w.getD []).length + s.length + 1
  | .single w, s => w.length + s.length
  | .double w, s => w.length + s.length
  | .doubleEscaped w, s => w.length + s.length + 1
  | .comment, s => s.length + 1

theorem room_wordChar {w : List Char} {c : Char} {m : Mode} (h : wordChar glob w c = some m)
    (cs : List Char) : room m cs ≤ w.length + (c :: cs).length + 1 := by
  unfold wordChar at h
  split at h
  · cases h; simp [room]; omega
  · split at h
    · cases h; simp [room]; omega
    · split at h
      · cases h
      · cases h; simp [room]; omega

/-- The words the lexer finds never take more room than there is. -/
theorem weight_le_room {s : List Char} :
    ∀ {m : Mode} {ws : List (List Char)}, fields glob s m = some ws → weight ws ≤ room m s := by
  induction s with
  | nil =>
      intro m ws h
      cases m <;> simp only [fields, Option.some.injEq, reduceCtorEq] at h <;> subst h <;>
        simp [weight, room]
  | cons c cs ih =>
      intro m ws h
      -- each character takes as much room as it can add to a word
      cases m with
      | gap =>
          simp only [fields] at h
          split_ifs at h
          · exact (ih h).trans (by simp [room])
          · exact (ih h).trans (by simp [room])
          · exact (ih h).trans (by simp [room])
          · obtain ⟨m, hm, hrest⟩ := Option.bind_eq_some_iff.mp h
            exact (ih hrest).trans (by simpa [room] using room_wordChar hm cs)
      | inWord w =>
          simp only [fields] at h
          split_ifs at h
          · obtain ⟨vs, hvs, rfl⟩ := Option.map_eq_some_iff.mp h
            have hle : weight vs ≤ cs.length + 1 := ih hvs
            simp only [weight, room, List.length_cons] at hle ⊢
            omega
          · exact (ih h).trans (by simp [room])
          · obtain ⟨m, hm, hrest⟩ := Option.bind_eq_some_iff.mp h
            exact (ih hrest).trans (by simpa [room] using room_wordChar hm cs)
      | escaped w =>
          simp only [fields] at h
          split_ifs at h
          · cases w with
            | none => exact (ih h).trans (by simp [room])
            | some w => exact (ih h).trans (by simp [room])
          · exact (ih h).trans (by simp [room]; omega)
      | single w =>
          simp only [fields] at h
          split_ifs at h
          · exact (ih h).trans (by simp only [room, List.length_cons]; omega)
          · exact (ih h).trans (by simp [room]; omega)
      | double w =>
          simp only [fields] at h
          split_ifs at h
          · exact (ih h).trans (by simp only [room, List.length_cons]; omega)
          · exact (ih h).trans (by simp only [room, List.length_cons]; omega)
          · exact (ih h).trans (by simp [room]; omega)
      | doubleEscaped w =>
          simp only [fields] at h
          split_ifs at h
          · exact (ih h).trans (by simp only [room, List.length_cons]; omega)
          · exact (ih h).trans (by simp [room]; omega)
          · exact (ih h).trans (by simp [room]; omega)
      | comment =>
          simp only [fields] at h
          split_ifs at h
          exact (ih h).trans (by simp [room])

/-- A character of an unquoted word is plain, or a quotation starts and costs room. -/
theorem wordChar_cases {w : List Char} {c : Char} {m : Mode} (h : wordChar glob w c = some m)
    (hb : isBlank c = false) (hn : (decide (c = '\n') || isOperator c) = false)
    (hbs : c ≠ '\\') :
    (m = .inWord (w ++ [c]) ∧ plainChar glob c = true) ∨
      ∀ cs, room m cs ≤ w.length + cs.length := by
  unfold wordChar at h
  split_ifs at h with hs hd he
  · cases h; exact Or.inr fun cs => by simp [room]
  · cases h; exact Or.inr fun cs => by simp [room]
  · cases h
    simp only [Bool.or_eq_false_iff, decide_eq_false_iff_not] at hn
    simp only [Bool.not_eq_true, Bool.or_eq_false_iff] at he
    exact Or.inl ⟨rfl, by simp [plainChar, hb, hn.1, hn.2, hbs, hs, hd, he.1, he.2]⟩

/-- When the words take all the room there is, the lexer took nothing out of them. -/
theorem plain_of_tight (s : List Char) :
    (∀ ws, fields glob s .gap = some ws → weight ws = s.length + 1 → ∀ w ∈ ws, Plain glob w) ∧
    ∀ w₀ ws, fields glob s (.inWord w₀) = some ws → weight ws = w₀.length + s.length + 1 →
      ∃ v vs, ws = (w₀ ++ v) :: vs ∧ (∀ c ∈ v, plainChar glob c = true) ∧
        ∀ w ∈ vs, Plain glob w := by
  induction s with
  | nil =>
      constructor
      · intro ws h hw
        cases h
        simp [weight] at hw
      · intro w₀ ws h hw
        cases h
        exact ⟨[], [], by simp, by simp, by simp⟩
  | cons c cs ih =>
      obtain ⟨ihGap, ihWord⟩ := ih
      constructor
      · intro ws h hw
        rw [List.length_cons] at hw
        -- every way of losing the character leaves too little room
        have hlost : ∀ {m : Mode}, fields glob cs m = some ws → room m cs ≤ cs.length + 1 →
            False := by
          intro m hm hroom
          have hle := weight_le_room hm
          omega
        simp only [fields] at h
        split_ifs at h with hb hn hc hbs
        · exact (hlost h (by simp [room])).elim
        · exact (hlost h (by simp [room])).elim
        · exact (hlost h (by simp [room])).elim
        · obtain ⟨m, hm, hrest⟩ := Option.bind_eq_some_iff.mp h
          rcases wordChar_cases hm (by simpa using hb) (by simpa using hn) hbs with
            ⟨rfl, hplain⟩ | hroom
          · obtain ⟨v, vs, rfl, hv, hvs⟩ := ihWord [c] ws hrest (by simp at hw ⊢; omega)
            intro w hmem
            rcases List.mem_cons.mp hmem with rfl | hmem
            · refine ⟨by simp, ?_, by simpa using hc⟩
              intro d hd
              rcases List.mem_cons.mp hd with rfl | hd
              · exact hplain
              · exact hv d hd
            · exact hvs w hmem
          · exact (hlost hrest ((hroom cs).trans (by simp))).elim
      · intro w₀ ws h hw
        rw [List.length_cons] at hw
        have hlost : ∀ {m : Mode}, fields glob cs m = some ws →
            room m cs ≤ w₀.length + cs.length + 1 → False := by
          intro m hm hroom
          have hle := weight_le_room hm
          omega
        simp only [fields] at h
        split_ifs at h with hb hn hbs
        · obtain ⟨vs, hvs, rfl⟩ := Option.map_eq_some_iff.mp h
          have htight : weight vs = cs.length + 1 := by
            simp only [weight] at hw ⊢
            omega
          exact ⟨[], vs, by simp, by simp, ihGap vs hvs htight⟩
        · exact (hlost h (by simp [room])).elim
        · obtain ⟨m, hm, hrest⟩ := Option.bind_eq_some_iff.mp h
          rcases wordChar_cases hm (by simpa using hb) (by simpa using hn) hbs with
            ⟨rfl, hplain⟩ | hroom
          · obtain ⟨v, vs, rfl, hv, hvs⟩ :=
              ihWord (w₀ ++ [c]) ws hrest (by simp at hw ⊢; omega)
            refine ⟨c :: v, vs, by simp, ?_, hvs⟩
            intro d hd
            rcases List.mem_cons.mp hd with rfl | hd
            · exact hplain
            · exact hv d hd
          · exact (hlost hrest ((hroom cs).trans (by omega))).elim

/-! ## The round trip -/

theorem length_join {ws : List (List Char)} (h : ws ≠ []) : (join ws).length + 1 = weight ws := by
  induction ws with
  | nil => exact absurd rfl h
  | cons w ws ih =>
      cases ws with
      | nil => simp [join, weight]
      | cons v vs =>
          have hrest := ih (by simp)
          simp only [join, weight, List.length_append,
            List.length_cons] at hrest ⊢
          omega

/-- **Words joined by blanks are read back exactly when each of them is plain.** -/
theorem fields_join_iff {ws : List (List Char)} (hne : ws ≠ []) :
    fields glob (join ws) .gap = some ws ↔ ∀ w ∈ ws, Plain glob w := by
  refine ⟨fun h => ?_, fields_join⟩
  exact (plain_of_tight (join ws)).1 ws h (length_join hne).symm

theorem mem_join {ws : List (List Char)} {c : Char} (hc : c ≠ ' ') :
    c ∈ join ws ↔ ∃ w ∈ ws, c ∈ w := by
  induction ws with
  | nil => simp [join]
  | cons w ws ih =>
      cases ws with
      | nil => simp [join]
      | cons v vs => simp [join, ih, hc]

/-- The same through `c_str()`: a NUL cuts words off. -/
theorem argv_join_iff {ws : List (List Char)}
    (hname : (ws.head?.map isCommandName).getD false = true) :
    argv glob (join ws) = some ws ↔ ∀ w ∈ ws, Plain glob w ∧ '\x00' ∉ w := by
  have hne : ws ≠ [] := by
    rintro rfl
    exact absurd hname (by simp)
  have hargv : argv glob (join ws) = some ws ↔ fields glob (cStr (join ws)) .gap = some ws := by
    unfold argv simpleCommand
    rw [Option.filter_eq_some_iff]
    exact and_iff_left hname
  rw [hargv]
  constructor
  · intro h
    -- the words fill the line, so nothing of it was cut off
    have hcut : (cStr (join ws)).length = (join ws).length := by
      have hle : weight ws ≤ (cStr (join ws)).length + 1 := weight_le_room h
      have hlen := length_join hne
      have hpre := (cStr_isPrefixOf_self (join ws)).length_le
      omega
    have hwhole : cStr (join ws) = join ws := (cStr_isPrefixOf_self _).eq_of_length hcut
    rw [hwhole, fields_join_iff hne] at h
    intro w hw
    refine ⟨h w hw, fun hnul => ?_⟩
    have hmem : '\x00' ∈ join ws := (mem_join (by decide)).mpr ⟨w, hw, hnul⟩
    rw [← hwhole] at hmem
    exact cStr_noNul (join ws) hmem
  · intro h
    rw [cStr_eq_self]
    · exact fields_join fun w hw => (h w hw).1
    · intro hnul
      obtain ⟨w, hw, hw'⟩ := (mem_join (by decide)).mp hnul
      exact (h w hw).2 hw'

end BupApp.Lib.Shell
