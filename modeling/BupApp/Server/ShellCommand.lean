/-
# BupApp.Server.ShellCommand -- the command that is run against the command that was meant

`handleBackupRequest` pastes a user name, an address, the requested path and the target directory
into one string and hands it to `popen`, that is to a shell.  What was meant is an argument vector:
`scp -r u@x:p T`, or `cp -r p T` when the client runs on the server's own machine.  The shell gets
that vector back exactly when nothing that was pasted in means something to it; no character is
quoted or refused on the way, so an ordinary folder name with a blank is enough to break it.
-/
import BupApp.App.ServerRuns
import BupApp.Lib.Shell

namespace BupApp

open BupApp.Lib.Shell BupApp.Lib.Text BupApp.Lib.Ipv4

/-! ## What was meant -/

/-- The argument vector a command string was meant to have. -/
def Cmnd.args : Cmnd → List Str
  | .scp user subscriberIp backUpPath target =>
      ["scp".toList, "-r".toList,
        user ++ "@".toList ++ subscriberIp ++ ":".toList ++ backUpPath, target]
  | .cp backUpPath target => ["cp".toList, "-r".toList, backUpPath, target]

/-- The arguments that have to reach the command as they are written: all but the local path, whose
tilde the shell may expand. -/
def Cmnd.literalArgs : Cmnd → List Str
  | .scp user subscriberIp backUpPath target => (Cmnd.scp user subscriberIp backUpPath target).args
  | .cp _ target => ["cp".toList, "-r".toList, target]

namespace ShellCommand

/-- The shell reads the command string as one simple command with the arguments that were meant. -/
structure RunsAsMeant (glob : Bool) (cmnd : Cmnd) : Prop where
  argv : argv glob cmnd.text = some cmnd.args
  noTilde : ∀ w ∈ cmnd.literalArgs, w.head? ≠ some '~'

/-- No character of the text means anything to the shell. -/
def Inert (glob : Bool) (w : Str) : Prop := ∀ c ∈ w, plainChar glob c = true ∧ c ≠ '\x00'

instance (glob : Bool) (w : Str) : Decidable (Inert glob w) := List.decidableBAll _ w

/-- The text starts neither a comment nor a tilde expansion. -/
def StartsPlain (w : Str) : Prop := w.head? ≠ some '#' ∧ w.head? ≠ some '~'

/-- What has to hold of the entry and of the path: they are inert, the target is there, and where
user and address are pasted in, they are inert too. -/
structure Harmless (glob : Bool) (cfg : Config) (c : Client) (backUpPath : Str) : Prop where
  path : Inert glob backUpPath
  target : c.backupPath ≠ [] ∧ Inert glob c.backupPath ∧ StartsPlain c.backupPath
  host : c.ip ≠ cfg.localIp → Inert glob c.user ∧ StartsPlain c.user ∧ Inert glob c.ip

variable {glob : Bool}

/-! ## Pieces of a word -/

theorem Inert.append {v w : Str} : Inert glob (v ++ w) ↔ Inert glob v ∧ Inert glob w := by
  simp only [Inert, List.forall_mem_append]

theorem inert_iff {w : Str} :
    Inert glob w ↔ (∀ c ∈ w, plainChar glob c = true) ∧ '\x00' ∉ w := by
  constructor
  · intro h
    exact ⟨fun c hc => (h c hc).1, fun hnul => (h '\x00' hnul).2 rfl⟩
  · rintro ⟨hplain, hnul⟩ c hc
    refine ⟨hplain c hc, ?_⟩
    rintro rfl
    exact hnul hc

/-- A word the shell reads as itself, through the C string as well. -/
theorem plain_iff {w : Str} :
    Plain glob w ∧ '\x00' ∉ w ↔ w ≠ [] ∧ Inert glob w ∧ w.head? ≠ some '#' := by
  rw [inert_iff]
  constructor
  · rintro ⟨h, hnul⟩
    exact ⟨h.ne_nil, ⟨h.chars, hnul⟩, h.head⟩
  · rintro ⟨hne, ⟨hchars, hnul⟩, hhead⟩
    exact ⟨⟨hne, hchars, hhead⟩, hnul⟩

theorem inert_at : Inert glob "@".toList := by
  cases glob <;> decide

theorem inert_colon : Inert glob ":".toList := by
  cases glob <;> decide

theorem inert_scp : Inert glob "scp".toList := by
  cases glob <;> decide

theorem inert_cp : Inert glob "cp".toList := by
  cases glob <;> decide

theorem inert_r : Inert glob "-r".toList := by
  cases glob <;> decide

/-- The word `u@x:p` starts like `u`, or with the `@`. -/
theorem head?_source {u x p : Str} {b : Char} (hb : b ≠ '@') :
    (u ++ "@".toList ++ x ++ ":".toList ++ p).head? ≠ some b ↔ u.head? ≠ some b := by
  cases u with
  | nil => simp [hb.symm]
  | cons d u => simp

/-! ## The command strings -/

theorem join_four (a b c d : Str) :
    join [a, b, c, d] = (a ++ ' ' :: (b ++ [' '])) ++ c ++ [' '] ++ d := by
  simp [join]

/-- A command string is its arguments with single blanks between them. -/
theorem text_eq_join (cmnd : Cmnd) : cmnd.text = join cmnd.args := by
  have hscp : "scp -r ".toList = "scp".toList ++ ' ' :: ("-r".toList ++ [' ']) := by decide
  have hcp : "cp -r ".toList = "cp".toList ++ ' ' :: ("-r".toList ++ [' ']) := by decide
  have hblank : " ".toList = [' '] := by decide
  cases cmnd with
  | scp u x p T =>
      show "scp -r ".toList ++ u ++ "@".toList ++ x ++ ":".toList ++ p ++ " ".toList ++ T =
        join ["scp".toList, "-r".toList, u ++ "@".toList ++ x ++ ":".toList ++ p, T]
      rw [join_four, ← hscp, hblank]
      simp only [List.append_assoc]
  | cp p T =>
      show "cp -r ".toList ++ p ++ " ".toList ++ T = join ["cp".toList, "-r".toList, p, T]
      rw [join_four, ← hcp, hblank]

theorem argv_iff (cmnd : Cmnd) : argv glob cmnd.text = some cmnd.args ↔
    ∀ w ∈ cmnd.args, w ≠ [] ∧ Inert glob w ∧ w.head? ≠ some '#' := by
  have hname : (cmnd.args.head?.map isCommandName).getD false = true := by
    cases cmnd with
    | scp u x p T => exact show isCommandName "scp".toList = true by decide
    | cp p T => exact show isCommandName "cp".toList = true by decide
  rw [text_eq_join, argv_join_iff hname]
  simp only [plain_iff]

/-- The remote command. -/
theorem runsAsMeant_scp {u x p T : Str} :
    RunsAsMeant glob (.scp u x p T) ↔
      Inert glob p ∧ (T ≠ [] ∧ Inert glob T ∧ StartsPlain T) ∧
        (Inert glob u ∧ StartsPlain u ∧ Inert glob x) := by
  have hword : Inert glob (u ++ "@".toList ++ x ++ ":".toList ++ p) ↔
      Inert glob u ∧ Inert glob x ∧ Inert glob p := by
    simp only [Inert.append, inert_at, inert_colon, and_true, and_assoc]
  have hsharp : (u ++ "@".toList ++ x ++ ":".toList ++ p).head? ≠ some '#' ↔
      u.head? ≠ some '#' := head?_source (by decide)
  have htilde : (u ++ "@".toList ++ x ++ ":".toList ++ p).head? ≠ some '~' ↔
      u.head? ≠ some '~' := head?_source (by decide)
  constructor
  · rintro ⟨hargv, hlit⟩
    rw [argv_iff] at hargv
    simp only [Cmnd.args, Cmnd.literalArgs, List.forall_mem_cons] at hargv hlit
    obtain ⟨-, -, ⟨-, hsrc, hsrc'⟩, ⟨hT, hTin, hTs⟩, -⟩ := hargv
    obtain ⟨-, -, hsrc'', hTt, -⟩ := hlit
    obtain ⟨hu, hx, hp⟩ := hword.mp hsrc
    exact ⟨hp, ⟨hT, hTin, hTs, hTt⟩, hu, ⟨hsharp.mp hsrc', htilde.mp hsrc''⟩, hx⟩
  · rintro ⟨hp, ⟨hT, hTin, hTs, hTt⟩, hu, ⟨hus, hut⟩, hx⟩
    refine ⟨(argv_iff _).mpr ?_, ?_⟩
    · simp only [Cmnd.args, List.forall_mem_cons]
      exact ⟨⟨by simp, inert_scp, by decide⟩, ⟨by simp, inert_r, by decide⟩,
        ⟨by simp, hword.mpr ⟨hu, hx, hp⟩, hsharp.mpr hus⟩, ⟨hT, hTin, hTs⟩, by simp⟩
    · simp only [Cmnd.literalArgs, Cmnd.args, List.forall_mem_cons]
      exact ⟨by decide, by decide, htilde.mpr hut, hTt, by simp⟩

/-- The local command; its path is one the server accepted. -/
theorem runsAsMeant_cp {p T : Str} (hp : isBackupMsg p = true) :
    RunsAsMeant glob (.cp p T) ↔ Inert glob p ∧ T ≠ [] ∧ Inert glob T ∧ StartsPlain T := by
  have hhead : p.head? = some '~' := head?_of_isBackupMsg hp
  constructor
  · rintro ⟨hargv, hlit⟩
    rw [argv_iff] at hargv
    simp only [Cmnd.args, Cmnd.literalArgs, List.forall_mem_cons] at hargv hlit
    obtain ⟨-, -, ⟨-, hpin, -⟩, ⟨hT, hTin, hTs⟩, -⟩ := hargv
    obtain ⟨-, -, hTt, -⟩ := hlit
    exact ⟨hpin, hT, hTin, hTs, hTt⟩
  · rintro ⟨hpin, hT, hTin, hTs, hTt⟩
    have hne : p ≠ [] := by
      rintro rfl
      cases hhead
    refine ⟨(argv_iff _).mpr ?_, ?_⟩
    · simp only [Cmnd.args, List.forall_mem_cons]
      exact ⟨⟨by simp, inert_cp, by decide⟩, ⟨by simp, inert_r, by decide⟩,
        ⟨hne, hpin, by rw [hhead]; decide⟩, ⟨hT, hTin, hTs⟩, by simp⟩
    · simp only [Cmnd.literalArgs, List.forall_mem_cons]
      exact ⟨by decide, by decide, hTt, by simp⟩

/-! ## The result -/

/-- **For a request that passes the server's check, the command that is run is the one that was
meant exactly when entry and path are harmless.** -/
theorem runsAsMeant_iff_harmless (glob : Bool) (cfg : Config) (c : Client) (p : Str)
    (hp : isBackupMsg p = true) :
    RunsAsMeant glob (cmndFor cfg c c.ip p) ↔ Harmless glob cfg c p := by
  unfold cmndFor
  by_cases hip : c.ip = cfg.localIp
  · rw [if_neg (not_not.mpr hip), runsAsMeant_cp hp]
    constructor
    · rintro ⟨hpath, htarget⟩
      exact ⟨hpath, htarget, fun hne => absurd hip hne⟩
    · intro h
      exact ⟨h.path, h.target⟩
  · rw [if_pos hip, runsAsMeant_scp]
    constructor
    · rintro ⟨hpath, htarget, hhost⟩
      exact ⟨hpath, htarget, fun _ => hhost⟩
    · intro h
      exact ⟨h.path, h.target, h.host hip⟩

/-! ## Entries of the registry -/

theorem inert_dottedQuad {ip : Str} (h : dottedQuad ip = true) : Inert glob ip := by
  intro c hc
  have hkind := dottedQuad_chars h c hc
  refine ⟨?_, ?_⟩
  · have hother : ∀ d : Char, d.isDigit = false → d ≠ '.' → c ≠ d := by
      rintro d hd hdot rfl
      exact dottedQuad_not_mem h hd hdot hc
    simp only [plainChar, isBlank, isOperator, isExpansion, isPattern]
    simp [hother ' ' (by decide) (by decide), hother '\t' (by decide) (by decide),
      hother '\n' (by decide) (by decide), hother ';' (by decide) (by decide),
      hother '&' (by decide) (by decide), hother '|' (by decide) (by decide),
      hother '<' (by decide) (by decide), hother '>' (by decide) (by decide),
      hother '(' (by decide) (by decide), hother ')' (by decide) (by decide),
      hother '\\' (by decide) (by decide), hother '\'' (by decide) (by decide),
      hother '"' (by decide) (by decide), hother '$' (by decide) (by decide),
      hother '\x60' (by decide) (by decide), hother '*' (by decide) (by decide),
      hother '?' (by decide) (by decide), hother '[' (by decide) (by decide)]
  · rintro rfl
    exact dottedQuad_not_mem h (by decide) (by decide) hc

theorem inert_mainBackupPath : Inert glob mainBackupPath := by
  cases glob <;> decide

/-- For an entry of a dotted-quad address the target never does harm: what is left to ask for is the
user name and the path. -/
theorem harmless_of_registered {cfg : Config} {c : Client} {p : Str}
    (hip : dottedQuad c.ip = true) (htarget : c.backupPath = backupTarget c.ip) :
    Harmless glob cfg c p ↔
      Inert glob p ∧ (c.ip ≠ cfg.localIp → Inert glob c.user ∧ StartsPlain c.user) := by
  have hslash : Inert glob "/".toList := by
    cases glob <;> decide
  have hinert : Inert glob c.backupPath := by
    rw [htarget]
    exact Inert.append.mpr ⟨Inert.append.mpr ⟨inert_mainBackupPath, hslash⟩, inert_dottedQuad hip⟩
  have hhead : c.backupPath.head? = some '/' := by
    rw [htarget]
    rfl
  constructor
  · intro h
    exact ⟨h.path, fun hne => ⟨(h.host hne).1, (h.host hne).2.1⟩⟩
  · rintro ⟨hp, hhost⟩
    refine ⟨hp, ⟨?_, hinert, ?_⟩, fun hne => ⟨(hhost hne).1, (hhost hne).2, inert_dottedQuad hip⟩⟩
    · intro hnil
      rw [hnil] at hhead
      cases hhead
    · rw [StartsPlain, hhead]
      decide

/-! ## Runs -/

/-- A host's entry as `handleNewSubscriber` stores it. -/
def annEntry : Client := ⟨"10.0.0.2".toList, "ann".toList, [], backupTarget "10.0.0.2".toList⟩

/-- A plain folder name is copied as meant, with pathname expansion on. -/
theorem photos_runsAsMeant :
    RunsAsMeant true (cmndFor Server.lanCfg annEntry annEntry.ip "~/photos".toList) :=
  (runsAsMeant_iff_harmless true Server.lanCfg annEntry "~/photos".toList (by decide)).mpr
    ((harmless_of_registered (by decide) rfl).mpr
      ⟨by decide, fun _ =>
        ⟨by decide, by simp only [StartsPlain]; decide⟩⟩)

/-- A folder called `my docs`: the shell finds five arguments, and `docs` is a source of its own. -/
theorem blank_not_runsAsMeant :
    ¬ ∀ (glob : Bool) (cfg : Config) (c : Client) (p : Str), isBackupMsg p = true →
      RunsAsMeant glob (cmndFor cfg c c.ip p) := by
  intro hall
  have hargv := (hall false Server.lanCfg annEntry "~/my docs".toList (by decide)).argv
  have hfive : argv false (cmndFor Server.lanCfg annEntry annEntry.ip "~/my docs".toList).text =
      some ["scp".toList, "-r".toList, "ann@10.0.0.2:~/my".toList, "docs".toList,
        backupTarget "10.0.0.2".toList] := by decide +kernel
  rw [hfive] at hargv
  exact absurd hargv (by decide +kernel)

end ShellCommand

end BupApp
