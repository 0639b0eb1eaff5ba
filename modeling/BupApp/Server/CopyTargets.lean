/-
# BupApp.Server.CopyTargets -- which backups of one client overwrite each other

All backups of a client go into the one directory `handleNewSubscriber` made for its address, each
under the last name of its path, as `cp -r` and `scp -r` place it.  What the files of that directory
hold after any run of the server follows from the order of the commands alone: the last command that
writes a file decides it.  Two requests write a common file exactly when they place their trees at
the same spot and the trees share a name, whatever directories the paths lead through.

What a command copies is read off its string: `copyOf` takes the words the shell finds there and, for
`scp`, what stands behind the host.  Of the two programs the file assumes that a source directory is
copied into an existing target directory, as a tree under its last name.  The path goes to the shell
unquoted, so the results are about runs in which every command is `AsMeant`: nothing pasted into it
means anything to the shell, and the host ends at the first colon.

The contents of the client's disk are parameters: `dirOf` is the directory a path names, `treeAt i d`
what that directory holds when the client's `i`-th command runs, `home` the last name of the home
directory that a tilde prefix stands for.
-/
import BupApp.Server.ShellCommand
import BupApp.Lib.Overlay

namespace BupApp.CopyTargets

open BupApp.Lib.Transition BupApp.Lib.Overlay BupApp.Lib.Shell Server Logged

/-! ## What a command copies -/

/-- The path on the other host in an argument of `scp`: what follows the first colon.  A slash before
it makes the argument a local file, a leading minus an option. -/
def remotePath (w : Str) : Option Str :=
  let host := w.takeWhile (· ≠ ':')
  if host = [] ∨ host.head? = some '-' ∨ '/' ∈ host then none
  else (w.dropWhile (· ≠ ':')).tail?

/-- The source and the target directory of a command line that the shell reads as one recursive copy
into an absolute path. -/
def copyOf (line : Str) : Option (Str × Str) :=
  match argv true line with
  | some [name, flag, source, target] =>
      if flag = "-r".toList ∧ target.head? = some '/' then
        if name = "cp".toList ∧ source.head? ≠ some '-' then some (source, target)
        else if name = "scp".toList ∧ source.head? ≠ some '~' then
          (remotePath source).map (·, target)
        else none
      else none
  | _ => none

/-- The command line means what was pasted together: to the shell, pathname expansion included, and
to `scp`, which takes the user name and the address as its host. -/
structure AsMeant (cmnd : Cmnd) : Prop where
  shell : ShellCommand.RunsAsMeant true cmnd
  host : ∀ user subscriberIp p T, cmnd = .scp user subscriberIp p T →
    user.head? ≠ some '-' ∧ ∀ c ∈ user ++ subscriberIp, c ≠ ':' ∧ c ≠ '/'

/-- The command is the copy of its path to its target directory. -/
def Copies (cmnd : Cmnd) : Prop := copyOf cmnd.text = some (cmnd.source, cmnd.target)

theorem remotePath_source {user subscriberIp p : Str} (huser : user.head? ≠ some '-')
    (hchars : ∀ c ∈ user ++ subscriberIp, c ≠ ':' ∧ c ≠ '/') :
    remotePath (user ++ "@".toList ++ subscriberIp ++ ":".toList ++ p) = some p := by
  have hhost : ∀ c ∈ user ++ "@".toList ++ subscriberIp, c ≠ ':' ∧ c ≠ '/' := by
    intro c hc
    rw [List.mem_append, List.mem_append] at hc
    rcases hc with (hc | hc) | hc
    · exact hchars c (List.mem_append_left _ hc)
    · obtain rfl : c = '@' := by simpa using hc
      decide
    · exact hchars c (List.mem_append_right _ hc)
  have hcolon : ∀ c ∈ user ++ "@".toList ++ subscriberIp, decide (c ≠ ':') = true := fun c hc =>
    decide_eq_true (hhost c hc).1
  have hword : user ++ "@".toList ++ subscriberIp ++ ":".toList ++ p =
      (user ++ "@".toList ++ subscriberIp) ++ ':' :: p := by simp
  have hne : user ++ "@".toList ++ subscriberIp ≠ [] := by simp
  have hhead : (user ++ "@".toList ++ subscriberIp).head? ≠ some '-' := by
    cases user with
    | nil => simp
    | cons d user => simpa using huser
  have hslash : '/' ∉ user ++ "@".toList ++ subscriberIp := fun hc => (hhost '/' hc).2 rfl
  unfold remotePath
  rw [hword, List.takeWhile_append_of_pos hcolon, List.dropWhile_append_of_pos hcolon]
  simp only [ne_eq, not_true_eq_false, decide_false, Bool.false_eq_true, not_false_eq_true,
    List.takeWhile_cons_of_neg, List.dropWhile_cons_of_neg, List.append_nil]
  rw [if_neg (by simp only [hne, hhead, hslash, or_self, not_false_eq_true])]
  rfl

/-- A command that is as it was meant copies its path to its target directory. -/
theorem AsMeant.copies {cmnd : Cmnd} (h : AsMeant cmnd) (hp : isBackupMsg cmnd.source = true)
    (hT : cmnd.target.head? = some '/') : Copies cmnd := by
  unfold Copies copyOf
  rw [h.shell.argv]
  cases cmnd with
  | scp user subscriberIp p T =>
      obtain ⟨huser, hchars⟩ := h.host user subscriberIp p T rfl
      have htilde : (user ++ "@".toList ++ subscriberIp ++ ":".toList ++ p).head? ≠ some '~' :=
        h.shell.noTilde _ (by simp [Cmnd.literalArgs, Cmnd.args])
      have hname : ¬ ("scp".toList = "cp".toList) := by decide
      show (if "-r".toList = "-r".toList ∧ T.head? = some '/' then _ else none) = _
      rw [if_pos ⟨rfl, hT⟩, if_neg fun hcp => hname hcp.1, if_pos ⟨rfl, htilde⟩,
        remotePath_source huser hchars]
      rfl
  | cp p T =>
      have hhead : p.head? = some '~' := head?_of_isBackupMsg hp
      have hminus : p.head? ≠ some '-' := by
        rw [hhead]
        decide
      show (if "-r".toList = "-r".toList ∧ T.head? = some '/' then _ else none) = _
      rw [if_pos ⟨rfl, hT⟩, if_pos ⟨rfl, hminus⟩]
      rfl

/-! ## Where a copy is placed -/

/-- The names between the slashes of a path. -/
def names (p : Str) : List Str := (p.splitOn '/').filter (· ≠ [])

/-- The last name of a path; a bare tilde prefix has the last name of the home directory. -/
def lastName (home : Str → Str) (p : Str) : Str :=
  match (names p).reverse with
  | [] => []
  | [t] => if isBackupMsg t then home t else t
  | t :: _ :: _ => t

/-- `.` and `..` name no entry of their own. -/
def isDots (name : Str) : Bool := name = ".".toList || name = "..".toList

/-- Where in the target directory the copy starts; a source that ends in dots is copied into the
target itself. -/
def place (home : Str → Str) (p : Str) : List Str :=
  if isDots (lastName home p) then [] else [lastName home p]

/-- A file: the directory a command copies to and the names below it. -/
abbrev File := Str × List Str

/-- The files of a directory: contents by relative name. -/
abbrev Tree (ν : Type) := List Str → Option ν

variable {ν δ τ : Type} {cfg : Config}

/-- What the command writes when its source directory holds `tree`. -/
def written (home : Str → Str) (cmnd : Cmnd) (tree : Tree ν) : File → Option ν := fun f =>
  match copyOf cmnd.text with
  | none => none
  | some (source, target) =>
      if f.1 = target then (f.2.dropPrefix? (place home source)).bind tree else none

theorem written_eq_some_iff {home : Str → Str} {cmnd : Cmnd} {tree : Tree ν} {f : File} {v : ν}
    (hcopy : Copies cmnd) : written home cmnd tree f = some v ↔
      ∃ r, f = (cmnd.target, place home cmnd.source ++ r) ∧ tree r = some v := by
  obtain ⟨dir, path⟩ := f
  unfold Copies at hcopy
  simp only [written, hcopy]
  constructor
  · intro h
    split at h
    · rename_i hdir
      obtain ⟨r, hr, hv⟩ := Option.bind_eq_some_iff.mp h
      obtain ⟨p', rfl, hp'⟩ := List.dropPrefix?_eq_some_iff.mp hr
      exact ⟨r, by rw [Prod.mk.injEq, beq_iff_eq.mp hp']; exact ⟨hdir, rfl⟩, hv⟩
    · cases h
  · rintro ⟨r, hf, hv⟩
    rw [Prod.mk.injEq] at hf
    obtain ⟨rfl, rfl⟩ := hf
    rw [if_pos rfl, Option.bind_eq_some_iff]
    exact ⟨r, List.dropPrefix?_eq_some_iff.mpr ⟨_, rfl, by simp⟩, hv⟩

theorem written_ne_none_iff {home : Str → Str} {cmnd : Cmnd} {tree : Tree ν} {f : File}
    (hcopy : Copies cmnd) : written home cmnd tree f ≠ none ↔
      ∃ r, f = (cmnd.target, place home cmnd.source ++ r) ∧ tree r ≠ none := by
  simp only [Option.ne_none_iff_exists', written_eq_some_iff hcopy]
  constructor
  · rintro ⟨v, r, hf, hv⟩
    exact ⟨r, hf, v, hv⟩
  · rintro ⟨r, hf, v, hv⟩
    exact ⟨v, r, hf, hv⟩

/-- Two copies into one directory meet where they place a file of their trees at the same names. -/
theorem clash_iff {home : Str → Str} {c d : Cmnd} {t u : Tree ν} (hc : Copies c) (hd : Copies d)
    (h : c.target = d.target) :
    (∃ f, Clash (written home c t) (written home d u) f) ↔
      ∃ r r', t r ≠ none ∧ u r' ≠ none ∧ place home c.source ++ r = place home d.source ++ r' := by
  simp only [Clash, written_ne_none_iff hc, written_ne_none_iff hd]
  constructor
  · rintro ⟨f, ⟨r, rfl, hr⟩, r', hf, hr'⟩
    exact ⟨r, r', hr, hr', (Prod.mk.inj hf).2⟩
  · rintro ⟨r, r', hr, hr', heq⟩
    exact ⟨_, ⟨r, rfl, hr⟩, r', by rw [h, heq], hr'⟩

/-- For sources with a name of their own: the same last name, and a common name in the trees. -/
theorem place_append_eq_iff {home : Str → Str} {p q : Str} {r r' : List Str}
    (hp : isDots (lastName home p) = false) (hq : isDots (lastName home q) = false) :
    place home p ++ r = place home q ++ r' ↔ lastName home p = lastName home q ∧ r = r' := by
  simp [place, hp, hq]

/-! ## The backups of one client -/

/-- The commands run for a host, in order. -/
def commandsFor (ip : Str) (log : List Effect) : List Cmnd :=
  log.filterMap fun e => match e with
    | .execCmnd _ ip' _ cmnd => if ip' = ip then some cmnd else none
    | _ => none

theorem mem_commandsFor {ip : Str} {log : List Effect} {cmnd : Cmnd} :
    cmnd ∈ commandsFor ip log ↔ ∃ k p, .execCmnd k ip p cmnd ∈ log := by
  simp only [commandsFor, List.mem_filterMap]
  constructor
  · rintro ⟨e, he, hcmnd⟩
    cases e with
    | execCmnd k ip' p c =>
        simp only [Option.ite_none_right_eq_some, Option.some.injEq] at hcmnd
        obtain ⟨rfl, rfl⟩ := hcmnd
        exact ⟨k, p, he⟩
    | _ => simp at hcmnd
  · rintro ⟨k, p, he⟩
    exact ⟨_, he, by simp⟩

/-- What each of the commands writes, every one of them succeeding. -/
def backups (home : Str → Str) (dirOf : Str → δ) (treeAt : Nat → δ → Tree ν) (cmnds : List Cmnd) :
    List (File → Option ν) :=
  cmnds.mapIdx fun i cmnd => written home cmnd (treeAt i (dirOf cmnd.source))

theorem backups_getElem? {home : Str → Str} {dirOf : Str → δ} {treeAt : Nat → δ → Tree ν}
    {cmnds : List Cmnd} {i : Nat} {w : File → Option ν} :
    (backups home dirOf treeAt cmnds)[i]? = some w ↔
      ∃ c, cmnds[i]? = some c ∧ written home c (treeAt i (dirOf c.source)) = w := by
  simp only [backups, List.getElem?_mapIdx, Option.map_eq_some_iff]

/-- Of the backups of one host, for every contents of its disk: -/
structure BackupsKept (home : Str → Str) (dirOf : Str → δ) (treeAt : Nat → δ → Tree ν) (ip : Str)
    (log : List Effect) : Prop where
  /-- They are all copied to its one directory. -/
  target : ∀ c ∈ commandsFor ip log, copyOf c.text = some (c.source, backupTarget ip)
  /-- No command for another host writes there. -/
  others : ∀ ip', ip' ≠ ip → ∀ d ∈ commandsFor ip' log, ∀ (tree : Tree ν) (path : List Str),
    written home d tree (backupTarget ip, path) = none
  /-- Two of them write a common file exactly when both place a file at the same names. -/
  meet : ∀ i j c d, (commandsFor ip log)[i]? = some c → (commandsFor ip log)[j]? = some d →
    ((∃ f, Clash (written home c (treeAt i (dirOf c.source)))
        (written home d (treeAt j (dirOf d.source))) f) ↔
      ∃ r r', treeAt i (dirOf c.source) r ≠ none ∧ treeAt j (dirOf d.source) r' ≠ none ∧
        place home c.source ++ r = place home d.source ++ r')
  /-- For paths that do not end in dots: the last names agree and the trees share a name. -/
  meetNamed : ∀ i j c d, (commandsFor ip log)[i]? = some c → (commandsFor ip log)[j]? = some d →
    isDots (lastName home c.source) = false → isDots (lastName home d.source) = false →
    ((∃ f, Clash (written home c (treeAt i (dirOf c.source)))
        (written home d (treeAt j (dirOf d.source))) f) ↔
      lastName home c.source = lastName home d.source ∧
        ∃ r, treeAt i (dirOf c.source) r ≠ none ∧ treeAt j (dirOf d.source) r ≠ none)
  /-- A file of a backup is recoverable as long as no later backup writes the same file. -/
  latest : ∀ (store : File → Option ν) (i : Nat) (c : Cmnd) (r : List Str) (v : ν),
    (commandsFor ip log)[i]? = some c → treeAt i (dirOf c.source) r = some v →
    (∀ j d, i < j → (commandsFor ip log)[j]? = some d →
      written home d (treeAt j (dirOf d.source)) (backupTarget ip, place home c.source ++ r) =
        none) →
    overAll store (backups home dirOf treeAt (commandsFor ip log))
      (backupTarget ip, place home c.source ++ r) = some v

theorem backupTarget_inj {ip ip' : Str} (h : backupTarget ip = backupTarget ip') : ip = ip' :=
  List.append_cancel_left h

theorem backupTarget_head? (ip : Str) : (backupTarget ip).head? = some '/' := rfl

/-- What has to be known of the commands: each copies its path to the directory of its host. -/
theorem backupsKept_of_copies {home : Str → Str} {dirOf : Str → δ} {treeAt : Nat → δ → Tree ν}
    {ip : Str} {log : List Effect}
    (hcopies : ∀ t, ∀ c ∈ commandsFor t log, Copies c ∧ c.target = backupTarget t) :
    BackupsKept home dirOf treeAt ip log := by
  have hof : ∀ {i : Nat} {c : Cmnd}, (commandsFor ip log)[i]? = some c →
      Copies c ∧ c.target = backupTarget ip := fun hc => hcopies ip _ (List.mem_of_getElem? hc)
  -- two copies of one host meet where the names they place meet
  have hmeet : ∀ {i j : Nat} {c d : Cmnd}, (commandsFor ip log)[i]? = some c →
      (commandsFor ip log)[j]? = some d → ∀ {t u : Tree ν},
      ((∃ f, Clash (written home c t) (written home d u) f) ↔
        ∃ r r', t r ≠ none ∧ u r' ≠ none ∧
          place home c.source ++ r = place home d.source ++ r') := by
    intro i j c d hc hd t u
    exact clash_iff (hof hc).1 (hof hd).1 ((hof hc).2.trans (hof hd).2.symm)
  refine ⟨?_, ?_, ?_, ?_, ?_⟩
  · intro c hc
    obtain ⟨hcopy, htarget⟩ := hcopies ip c hc
    rw [← htarget]
    exact hcopy
  · intro ip' hne d hd tree path
    obtain ⟨hcopy, htarget⟩ := hcopies ip' d hd
    by_contra hw
    obtain ⟨r, hf, -⟩ := (written_ne_none_iff hcopy).mp hw
    rw [htarget, Prod.mk.injEq] at hf
    exact hne (backupTarget_inj hf.1.symm)
  · intro i j c d hc hd
    exact hmeet hc hd
  · intro i j c d hc hd hcn hdn
    rw [hmeet hc hd]
    simp only [place_append_eq_iff hcn hdn]
    constructor
    · rintro ⟨r, r', hr, hr', hname, rfl⟩
      exact ⟨hname, r, hr, hr'⟩
    · rintro ⟨hname, r, hr, hr'⟩
      exact ⟨r, r, hr, hr', hname, rfl⟩
  · intro store i c r v hc hv hlater
    obtain ⟨hcopy, htarget⟩ := hof hc
    have hw : written home c (treeAt i (dirOf c.source))
        (backupTarget ip, place home c.source ++ r) = some v := by
      rw [written_eq_some_iff hcopy]
      exact ⟨r, by rw [htarget], hv⟩
    -- the last backup that writes the file decides, and no later one does
    refine overAll_getElem? (backups_getElem?.mpr ⟨c, hc, rfl⟩) hw ?_
    intro j w hij hj
    obtain ⟨d, hd, rfl⟩ := backups_getElem?.mp hj
    exact hlater j d hij hd

/-- **The backups of one client, after any run of the server whose commands mean what was meant.** -/
theorem backups_kept_until_overwritten {s : Logged τ} {ls : List (Label τ)}
    (hrun : exec (step cfg) ⟨Server.start, []⟩ ls = some s)
    (hmeant : ∀ k t p cmnd, .execCmnd k t p cmnd ∈ s.log → AsMeant cmnd) (ip : Str)
    (home : Str → Str) (dirOf : Str → δ) (treeAt : Nat → δ → Tree ν) :
    BackupsKept home dirOf treeAt ip s.log := by
  refine backupsKept_of_copies fun t c hc => ?_
  obtain ⟨k, p, he⟩ := mem_commandsFor.mp hc
  have hlogged := commandsLogged hrun
  obtain ⟨htarget, hsource⟩ := hlogged.target he
  have hpath : isBackupMsg c.source = true := by
    rw [hsource]
    exact (hlogged.ran k t p c he).1
  have hhead : c.target.head? = some '/' := by
    rw [htarget]
    exact backupTarget_head? t
  exact ⟨(hmeant k t p c he).copies hpath hhead, htarget⟩

/-! ## Runs -/

section Runs

/-- Ann's registration. -/
def registersAnn : Message Unit := ⟨subscibersList, "10.0.0.2 ann".toList, ()⟩

/-- Two of her requests; the directories have the same last name. -/
def workNotes : Message Unit := ⟨"10.0.0.2".toList, "~/work/notes".toList, ()⟩
def homeNotes : Message Unit := ⟨"10.0.0.2".toList, "~/home/notes".toList, ()⟩

/-- The labels of handler `k` from its spawning to a command that succeeds. -/
def handles (k : Nat) (m : Message Unit) : List (Label Unit) :=
  [.consume m, .dispatch, .readTopic k, .readPayload k, .lookup k, .exec k (some true),
    .reply k true]

/-- Registration, then the two requests one after the other. -/
def notesRun : List (Label Unit) :=
  [.consume registersAnn, .dispatch, .subscribe true, .publishKey true, .store] ++
    handles 0 workNotes ++ handles 1 homeNotes

/-- The log of `notesRun`. -/
def notesEnd : Logged Unit :=
  (exec (step lanCfg) ⟨Server.start, []⟩ notesRun).getD ⟨Server.start, []⟩

theorem notesRun_ends : exec (step lanCfg) ⟨Server.start, []⟩ notesRun = some notesEnd := by
  decide +kernel

theorem notesRun_commands : commandsFor "10.0.0.2".toList notesEnd.log =
    [.scp "ann".toList "10.0.0.2".toList "~/work/notes".toList (backupTarget "10.0.0.2".toList),
      .scp "ann".toList "10.0.0.2".toList "~/home/notes".toList
        (backupTarget "10.0.0.2".toList)] := by
  decide +kernel

/-- Both directories hold one file, called `todo`; what is in it tells them apart. -/
def todoAt (_ : Nat) (d : Str) : Tree Str := fun r => if r = ["todo".toList] then some d else none

theorem asMeant_ann {p : Str} (hp : ShellCommand.Inert true p) :
    AsMeant (.scp "ann".toList "10.0.0.2".toList p (backupTarget "10.0.0.2".toList)) := by
  refine ⟨ShellCommand.runsAsMeant_scp.mpr ⟨hp, ?_, ?_⟩, ?_⟩
  · simp only [ShellCommand.StartsPlain]
    decide +kernel
  · simp only [ShellCommand.StartsPlain]
    decide +kernel
  · rintro user subscriberIp p' T heq
    obtain ⟨rfl, rfl, rfl, rfl⟩ := Cmnd.scp.inj heq
    have hchars : ("ann".toList ++ "10.0.0.2".toList).all fun c => c ≠ ':' ∧ c ≠ '/' := by
      decide +kernel
    exact ⟨by decide, fun c hc => of_decide_eq_true (List.all_eq_true.mp hchars c hc)⟩

theorem notesRun_asMeant : ∀ k t p cmnd, .execCmnd k t p cmnd ∈ notesEnd.log → AsMeant cmnd := by
  intro k t p cmnd he
  obtain ⟨-, c, hc, rfl, -⟩ := (commandsLogged notesRun_ends).ran k t p cmnd he
  have hentries : notesEnd.srv.clients = [ShellCommand.annEntry] := by decide +kernel
  rw [hentries, List.mem_singleton] at hc
  subst hc
  have hmem := mem_commandsFor.mpr ⟨k, p, he⟩
  rw [show ShellCommand.annEntry.ip = "10.0.0.2".toList from rfl, notesRun_commands] at hmem
  rcases List.mem_pair.mp hmem with rfl | rfl
  · exact asMeant_ann (by decide)
  · exact asMeant_ann (by decide)

theorem notes_kept : BackupsKept (fun _ => "ann".toList) id todoAt "10.0.0.2".toList notesEnd.log :=
  backups_kept_until_overwritten notesRun_ends notesRun_asMeant "10.0.0.2".toList
    (fun _ => "ann".toList) id todoAt

/-- The backup of the second directory writes a file of the backup of the first. -/
theorem backups_share_files :
    ¬ ∀ (cfg : Config) (s : Logged Unit) (ls : List (Label Unit)),
      exec (step cfg) ⟨Server.start, []⟩ ls = some s →
      ∀ (ip : Str) (home dirOf : Str → Str) (treeAt : Nat → Str → Tree Str) (i j : Nat) (c d : Cmnd),
        (commandsFor ip s.log)[i]? = some c → (commandsFor ip s.log)[j]? = some d →
        dirOf c.source ≠ dirOf d.source →
        ∀ f, ¬ Clash (written home c (treeAt i (dirOf c.source)))
          (written home d (treeAt j (dirOf d.source))) f := by
  intro hall
  have hclash := hall lanCfg notesEnd notesRun notesRun_ends "10.0.0.2".toList
    (fun _ => "ann".toList) id todoAt 0 1 _ _ (by rw [notesRun_commands]; rfl)
    (by rw [notesRun_commands]; rfl) (by decide)
    (backupTarget "10.0.0.2".toList, ["notes".toList, "todo".toList])
  exact hclash (by simp only [Clash]; decide +kernel)

end Runs

end BupApp.CopyTargets
