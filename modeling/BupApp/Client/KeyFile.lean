/-
# BupApp.Client.KeyFile -- what installing a key does to authorized_keys

`handlePubKeyMsg` appends the key it was sent unless `isTxtExist` finds it in the file.  That test is
a search for a substring and answers yes for a file that is not there, and appending takes no notice
of how the file ends.  So the key becomes a line of the file exactly when the file is there, its last
line has a newline, and the key is found only where it is a line.

For a replay none of that matters: whatever the test has found, it finds again.
-/
import BupApp.App.Client
import BupApp.Lib.Transition

namespace BupApp.KeyFile

open BupApp.Lib.Lines BupApp.Lib.Text BupApp.Lib.Transition

variable {user : Str}

/-- The file that `handlePubKeyMsg` works on. -/
def authorizedKeys (user : Str) : Str := getFullFilePath serverPublicKeyTarget user

/-! ## One call -/

/-- Where the test finds the key the files stay as they are. -/
theorem handlePubKeyMsg_idle {fs : Files} {msg : Str}
    (h : isTxtExist fs msg (authorizedKeys user) = some true) :
    handlePubKeyMsg user fs msg = some fs := by
  rw [authorizedKeys] at h
  rw [handlePubKeyMsg, h]

theorem handlePubKeyMsg_missing {fs : Files} (h : fs (authorizedKeys user) = none) (msg : Str) :
    handlePubKeyMsg user fs msg = some fs :=
  handlePubKeyMsg_idle (isTxtExist_of_none h msg)

theorem handlePubKeyMsg_found {fs : Files} {text msg : Str}
    (h : fs (authorizedKeys user) = some text) (hfound : contains msg text = true) :
    handlePubKeyMsg user fs msg = some fs :=
  handlePubKeyMsg_idle (by rw [isTxtExist_of_some h, hfound])

theorem handlePubKeyMsg_appended {fs : Files} {text msg : Str}
    (h : fs (authorizedKeys user) = some text) (hnot : contains msg text = false) :
    handlePubKeyMsg user fs msg =
      some (Function.update fs (authorizedKeys user) (some (text ++ msg))) := by
  have htest : isTxtExist fs msg (authorizedKeys user) = some false := by
    rw [isTxtExist_of_some h, hnot]
  rw [authorizedKeys] at htest
  rw [handlePubKeyMsg, htest]
  show some (Function.update fs (authorizedKeys user)
    (some ((fs (authorizedKeys user)).getD [] ++ msg))) = _
  rw [h, Option.getD_some]

/-- The call leaves the files as they are, where the test finds the key, or appends it. -/
theorem handlePubKeyMsg_cases (user : Str) (fs : Files) (msg : Str) :
    (isTxtExist fs msg (authorizedKeys user) = some true ∧ handlePubKeyMsg user fs msg = some fs) ∨
    ∃ text, fs (authorizedKeys user) = some text ∧ handlePubKeyMsg user fs msg =
      some (Function.update fs (authorizedKeys user) (some (text ++ msg))) := by
  cases h : fs (authorizedKeys user) with
  | none => exact Or.inl ⟨isTxtExist_of_none h msg, handlePubKeyMsg_missing h msg⟩
  | some text =>
      cases hfound : contains msg text with
      | true =>
          refine Or.inl ⟨?_, handlePubKeyMsg_found h hfound⟩
          rw [isTxtExist_of_some h, hfound]
      | false => exact Or.inr ⟨text, rfl, handlePubKeyMsg_appended h hfound⟩

/-! ## One line more -/

/-- The lines of the file; a file that is not there has none. -/
def fileLines (fs : Files) (path : Str) : List Str := lines ((fs path).getD [])

/-- After the call the file has its old lines, as they were, and the line `key` behind them if it
was not one of them. -/
structure InstallsLine (user : Str) (fs : Files) (key : Str) (fs' : Files) : Prop where
  lines : fileLines fs' (authorizedKeys user) = fileLines fs (authorizedKeys user) ++
    if key ∈ fileLines fs (authorizedKeys user) then [] else [key]
  whole : key ∈ fileLines fs' (authorizedKeys user)

/-- The file is there; if the key is found in it, then as a line, and if it is not, then the last
line of the file has its newline. -/
def Ready (user : Str) (fs : Files) (key : Str) : Prop :=
  ∃ text, fs (authorizedKeys user) = some text ∧
    (contains (key ++ ['\n']) text = true → key ∈ lines text) ∧
    (contains (key ++ ['\n']) text = false → Ended text)

theorem installsLine_of_ready {fs : Files} {key : Str} (hkey : '\n' ∉ key)
    (h : Ready user fs key) : ∃ fs', handlePubKeyMsg user fs (key ++ ['\n']) = some fs' ∧
      InstallsLine user fs key fs' := by
  obtain ⟨text, htext, hfound, hnot⟩ := h
  cases hc : contains (key ++ ['\n']) text with
  | true =>
      have hmem : key ∈ fileLines fs (authorizedKeys user) := by
        rw [fileLines, htext]
        exact hfound hc
      refine ⟨fs, handlePubKeyMsg_found htext hc, ?_, hmem⟩
      rw [if_pos hmem, List.append_nil]
  | false =>
      have hended : Ended text := hnot hc
      have hold : fileLines fs (authorizedKeys user) = lines text := by
        rw [fileLines, htext]
        rfl
      have hnew : fileLines (Function.update fs (authorizedKeys user)
          (some (text ++ (key ++ ['\n'])))) (authorizedKeys user) = lines text ++ [key] := by
        rw [fileLines, Function.update_self]
        show lines (text ++ (key ++ ['\n'])) = _
        rw [lines_append hended, lines_append_newline hkey]
        rfl
      -- as a line of an ended text the key would have been found
      have hfresh : key ∉ lines text := by
        intro hmem
        have hoccurs := infix_of_mem_lines hended hmem
        rw [← contains_eq_true_iff, hc] at hoccurs
        cases hoccurs
      refine ⟨_, handlePubKeyMsg_appended htext hc, ?_, ?_⟩
      · rw [hnew, hold, if_neg hfresh]
      · rw [hnew]
        exact List.mem_append_right _ (List.mem_singleton_self key)

/-- To a text whose last line has no newline the key is not appended as a line. -/
theorem lines_of_not_ended {text key : Str} (hkey : '\n' ∉ key)
    (hnot : contains (key ++ ['\n']) text = false) (hopen : ¬ Ended text) :
    lines (text ++ (key ++ ['\n'])) ≠ lines text ++ if key ∈ lines text then [] else [key] := by
  intro heq
  split at heq
  · rename_i hmem
    -- the characters of the lines are the same, so the key is the empty line
    have hchars := congrArg List.flatten heq
    rw [List.append_nil, flatten_lines, flatten_lines, List.filter_append,
      List.append_right_eq_self, List.filter_eq_nil_iff] at hchars
    have hnil : key = [] := by
      rw [List.eq_nil_iff_forall_not_mem]
      intro c hc
      have hcn := hchars c (List.mem_append_left _ hc)
      simp only [ne_eq, decide_not, Bool.not_eq_true', decide_eq_false_iff_not, not_not] at hcn
      exact hkey (hcn ▸ hc)
    subst hnil
    have hfree : '\n' ∉ text := by
      intro hc
      obtain ⟨l, r, rfl⟩ := List.append_of_mem hc
      have hoccurs : ['\n'] <:+: l ++ '\n' :: r := ⟨l, r, by simp⟩
      rw [← contains_eq_true_iff] at hoccurs
      exact absurd (hoccurs.symm.trans hnot) (by simp)
    have hne : text ≠ [] := by
      rintro rfl
      exact hopen ended_nil
    rw [lines_of_not_mem hne hfree, List.mem_singleton] at hmem
    exact hne hmem.symm
  · have hlength := congrArg List.length heq
    have hended : Ended (text ++ (key ++ ['\n'])) := by
      rw [← List.append_assoc]
      exact ended_append_newline _
    rw [length_lines, if_pos hended, List.length_append, length_lines, if_neg hopen,
      List.count_append, List.count_append, List.count_eq_zero_of_not_mem hkey] at hlength
    simp at hlength

theorem ready_of_installsLine {fs fs' : Files} {key : Str} (hkey : '\n' ∉ key)
    (hcall : handlePubKeyMsg user fs (key ++ ['\n']) = some fs')
    (h : InstallsLine user fs key fs') : Ready user fs key := by
  cases htext : fs (authorizedKeys user) with
  | none =>
      rw [handlePubKeyMsg_missing htext] at hcall
      obtain rfl := Option.some.inj hcall
      have hwhole := h.whole
      rw [fileLines, htext] at hwhole
      cases hwhole
  | some text =>
      have hold : fileLines fs (authorizedKeys user) = lines text := by
        rw [fileLines, htext]
        rfl
      refine ⟨text, htext, fun hc => ?_, fun hc => ?_⟩
      · rw [handlePubKeyMsg_found htext hc] at hcall
        obtain rfl := Option.some.inj hcall
        have hwhole := h.whole
        rwa [hold] at hwhole
      · rw [handlePubKeyMsg_appended htext hc] at hcall
        obtain rfl := Option.some.inj hcall
        by_contra hopen
        have hlines := h.lines
        rw [hold, fileLines, Function.update_self] at hlines
        exact lines_of_not_ended hkey hc hopen hlines

/-- **A key becomes a line of the file exactly when the file is ready for it.** -/
theorem installsLine_iff_ready {fs : Files} {key : Str} (hkey : '\n' ∉ key) :
    (∃ fs', handlePubKeyMsg user fs (key ++ ['\n']) = some fs' ∧ InstallsLine user fs key fs') ↔
      Ready user fs key := by
  constructor
  · rintro ⟨fs', hcall, hinstalls⟩
    exact ready_of_installsLine hkey hcall hinstalls
  · exact installsLine_of_ready hkey

/-- A user whose file is `file` is sent a key. -/
def InstalledIn (file : Option Str) : Prop :=
  ∃ fs', handlePubKeyMsg "ann".toList (fun _ => file) ("ssh-rsa B".toList ++ ['\n']) = some fs' ∧
    InstallsLine "ann".toList (fun _ => file) "ssh-rsa B".toList fs'

/-- Behind another key, on its own line, it becomes a line. -/
theorem installed_second : InstalledIn (some "ssh-rsa A\n".toList) :=
  (installsLine_iff_ready (by decide +kernel)).mpr
    ⟨"ssh-rsa A\n".toList, rfl, by decide +kernel, by decide +kernel⟩

theorem ready_of_installedIn {file : Option Str} (h : InstalledIn file) :
    Ready "ann".toList (fun _ => file) "ssh-rsa B".toList := by
  obtain ⟨fs', hcall, hinstalls⟩ := h
  exact ready_of_installsLine (by decide +kernel) hcall hinstalls

/-- A file that is not there, one whose last line has no newline, one with the key inside a comment:
in none of them the key becomes a line. -/
theorem not_installedIn : ¬ InstalledIn none ∧ ¬ InstalledIn (some "ssh-rsa A".toList) ∧
    ¬ InstalledIn (some "#ssh-rsa B\n".toList) := by
  refine ⟨fun h => ?_, fun h => ?_, fun h => ?_⟩
  · obtain ⟨text, htext, -⟩ := ready_of_installedIn h
    cases htext
  · obtain ⟨text, htext, -, hnot⟩ := ready_of_installedIn h
    obtain rfl := Option.some.inj htext
    exact absurd (hnot (by decide +kernel)) (by decide +kernel)
  · obtain ⟨text, htext, hfound, -⟩ := ready_of_installedIn h
    obtain rfl := Option.some.inj htext
    exact absurd (hfound (by decide +kernel)) (by decide +kernel)

/-! ## A replay -/

/-- What the file held it holds still, in front of what was added; if there was none there is
none. -/
structure Extends (user : Str) (fs fs' : Files) : Prop where
  missing : fs (authorizedKeys user) = none → fs' (authorizedKeys user) = none
  kept : ∀ text, fs (authorizedKeys user) = some text →
    ∃ text', fs' (authorizedKeys user) = some text' ∧ text <+: text'

theorem Extends.refl (user : Str) (fs : Files) : Extends user fs fs :=
  ⟨id, fun text h => ⟨text, h, List.prefix_refl text⟩⟩

theorem Extends.trans {fs₁ fs₂ fs₃ : Files} (h₁ : Extends user fs₁ fs₂)
    (h₂ : Extends user fs₂ fs₃) : Extends user fs₁ fs₃ := by
  refine ⟨fun h => h₂.missing (h₁.missing h), fun text h => ?_⟩
  obtain ⟨text₂, htext₂, hpre₂⟩ := h₁.kept text h
  obtain ⟨text₃, htext₃, hpre₃⟩ := h₂.kept text₂ htext₂
  exact ⟨text₃, htext₃, hpre₂.trans hpre₃⟩

theorem extends_handlePubKeyMsg {fs fs' : Files} {msg : Str}
    (h : handlePubKeyMsg user fs msg = some fs') : Extends user fs fs' := by
  rcases handlePubKeyMsg_cases user fs msg with ⟨-, hidle⟩ | ⟨text, htext, happend⟩
  · obtain rfl := Option.some.inj (hidle.symm.trans h)
    exact Extends.refl user fs
  · obtain rfl := Option.some.inj (happend.symm.trans h)
    refine ⟨fun hnone => ?_, fun text' htext' => ?_⟩
    · rw [htext] at hnone
      cases hnone
    · obtain rfl := Option.some.inj (htext.symm.trans htext')
      exact ⟨text ++ msg, Function.update_self .., List.prefix_append text msg⟩

/-- The mark that a key message leaves: the test of `handlePubKeyMsg` finds it. -/
def Found (user : Str) (msg : Str) (fs : Files) : Prop :=
  isTxtExist fs msg (authorizedKeys user) = some true

theorem found_of_occurs {fs : Files} {text msg : Str} (h : fs (authorizedKeys user) = some text)
    (hmsg : msg <:+: text) : Found user msg fs := by
  rw [Found, isTxtExist_of_some h, (contains_eq_true_iff ..).mpr hmsg]

theorem occurs_of_found {fs : Files} {text msg : Str} (h : fs (authorizedKeys user) = some text)
    (hfound : Found user msg fs) : msg <:+: text := by
  rw [Found, isTxtExist_of_some h, Option.some.injEq, contains_eq_true_iff] at hfound
  exact hfound

theorem found_handlePubKeyMsg {fs fs' : Files} {msg : Str}
    (h : handlePubKeyMsg user fs msg = some fs') : Found user msg fs' := by
  rcases handlePubKeyMsg_cases user fs msg with ⟨hfound, hidle⟩ | ⟨text, -, happend⟩
  · obtain rfl := Option.some.inj (hidle.symm.trans h)
    exact hfound
  · obtain rfl := Option.some.inj (happend.symm.trans h)
    exact found_of_occurs (Function.update_self ..) (List.suffix_append text msg).isInfix

/-- A text that was found is found in every longer file, and a file that is not there stays so. -/
theorem Found.extends {fs fs' : Files} {msg : Str} (h : Found user msg fs)
    (hext : Extends user fs fs') : Found user msg fs' := by
  cases htext : fs (authorizedKeys user) with
  | none => exact isTxtExist_of_none (hext.missing htext) msg
  | some text =>
      obtain ⟨text', htext', hprefix⟩ := hext.kept text htext
      exact found_of_occurs htext' ((occurs_of_found htext h).trans hprefix.isInfix)

/-- **Key messages extend the file, and replaying any of them leaves it as it is.** -/
theorem replay_changes_nothing (user : Str) (fs : Files) (ks : List Str) :
    ∃ fs', exec (handlePubKeyMsg user) fs ks = some fs' ∧ Extends user fs fs' ∧
      ∀ ks', (∀ k ∈ ks', k ∈ ks) → exec (handlePubKeyMsg user) fs' ks' = some fs' := by
  have htotal : ∀ fs msg, ∃ fs', handlePubKeyMsg user fs msg = some fs' := by
    intro fs msg
    rcases handlePubKeyMsg_cases user fs msg with ⟨-, hidle⟩ | ⟨text, -, happend⟩
    · exact ⟨fs, hidle⟩
    · exact ⟨_, happend⟩
  obtain ⟨fs', hrun⟩ := exists_exec_of_total htotal fs ks
  refine ⟨fs', hrun, ?_, ?_⟩
  · refine inv_exec (I := Extends user fs) ?_ (Extends.refl user fs) hrun
    exact fun fs₁ msg fs₂ h hstep => h.trans (extends_handlePubKeyMsg hstep)
  · intro ks' hks'
    exact exec_again (M := Found user) (fun _ _ _ => found_handlePubKeyMsg)
      (fun _ _ _ _ hstep h => h.extends (extends_handlePubKeyMsg hstep))
      (fun _ _ => handlePubKeyMsg_idle) hrun hks'

end BupApp.KeyFile
