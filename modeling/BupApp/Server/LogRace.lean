/-
# BupApp.Server.LogRace -- the log of the server and its handler threads

The handlers of the server share one logger.  `GetLogger` makes it on the first call: it finds the
pointer null, assigns it, and opens the file.  Nothing keeps two handlers from finding it null, and
an `ofstream` that is opened while it is open fails, for good: what is written to it afterwards is
lost.  A handler may also find the pointer assigned and write before the file is open.  `Write`
itself makes two insertions into the stream, the text and a newline, and another handler may put its
text between them.

The steps are the accesses to what the handlers share: the test of the pointer, its assignment, the
call of `open` and the insertions.  `log_exact` says of which runs the log keeps every record.  An
insertion is one step; two at the very same time need two threads inside `Write` at once, which is
one of the races the theorem names.
-/
import BupApp.App.Utils
import BupApp.Lib.Transition
import Mathlib.Logic.Function.Basic

namespace BupApp.LogRace

open BupApp.Lib.Text BupApp.Lib.Transition

/-! ## The logger -/

/-- Where a thread is between two records.  `missing` has found `m_pThis` null, `opening` has
assigned it, `got` is about to call `Write`, and `writing` is inside, past the text. -/
inductive LogPc where
  | out
  | missing
  | opening
  | got
  | writing
  deriving DecidableEq

/-- The thread is on its way to `m_Logfile.open`. -/
def LogPc.opens : LogPc → Bool
  | .missing | .opening => true
  | .out | .got | .writing => false

/-- What the log is meant to hold: every text with its newline. -/
def records (texts : List Str) : Str := texts.flatMap (· ++ ['\n'])

@[simp] theorem records_nil : records [] = [] := rfl

@[simp] theorem records_append_singleton (texts : List Str) (text : Str) :
    records (texts ++ [text]) = records texts ++ (text ++ ['\n']) := by
  simp [records]

/-- A text whose first character is not the newline that ends the record before it. -/
def StartsRecord (text : Str) : Prop := ∃ c rest, text = c :: rest ∧ c ≠ '\n'

/-- `file` is what the process has put into its file since it opened it, `fail` the state of the
stream.  `texts` is what each thread has still to log.  Two ghosts: `written` has the texts of all
calls of `Write`, in the order in which they begin, and `inside` the threads between the two
insertions. -/
structure Log (ι : Type*) where
  pThis : Bool
  file : Option Str
  fail : Bool
  pc : ι → LogPc
  texts : ι → List Str
  written : List Str
  inside : List ι

inductive LogLabel (ι : Type*) where
  | check (i : ι)
  | assign (i : ι)
  | openFile (i : ι)
  | text (i : ι)
  | newline (i : ι)
  deriving DecidableEq

variable {ι : Type*} [DecidableEq ι]

namespace Log

def init (texts : ι → List Str) : Log ι := ⟨false, none, false, fun _ => .out, texts, [], []⟩

def goto (s : Log ι) (i : ι) (p : LogPc) : Log ι := { s with pc := Function.update s.pc i p }

/-- `m_pThis == NULL`. -/
def check (s : Log ι) (i : ι) : Log ι := s.goto i (if s.pThis then .got else .missing)

def assign (s : Log ι) (i : ι) : Log ι := { s with pThis := true }.goto i .opening

/-- `m_Logfile.open`: it clears the state of a stream that was not open and fails on one that
was. -/
def openFile (s : Log ι) (i : ι) : Log ι :=
  match s.file with
  | none => { s with file := some [], fail := false }.goto i .got
  | some _ => { s with fail := true }.goto i .got

/-- One insertion: nothing gets into a stream that has failed, and one that is not open fails when
there is something to put in. -/
def insert (s : Log ι) (t : Str) : Log ι :=
  { s with
    file := if s.fail then s.file else s.file.map (· ++ t)
    fail := s.fail || (s.file.isNone && !t.isEmpty) }

/-- The first insertion of `Write` (utils.cpp 45 and 51). -/
def text (s : Log ι) (i : ι) (t : Str) : Log ι :=
  { s.insert t with written := s.written ++ [t], inside := i :: s.inside }.goto i .writing

/-- The second one, of the newline. -/
def newline (s : Log ι) (i : ι) (rest : List Str) : Log ι :=
  { s.insert ['\n'] with
    texts := Function.update s.texts i rest
    inside := s.inside.erase i }.goto i .out

def step (s : Log ι) : LogLabel ι → Option (Log ι)
  | .check i => if s.pc i = .out ∧ s.texts i ≠ [] then some (s.check i) else none
  | .assign i => if s.pc i = .missing then some (s.assign i) else none
  | .openFile i => if s.pc i = .opening then some (s.openFile i) else none
  | .text i =>
      match s.pc i, s.texts i with
      | .got, t :: _ => some (s.text i t)
      | _, _ => none
  | .newline i =>
      match s.pc i, s.texts i with
      | .writing, _ :: rest => some (s.newline i rest)
      | _, _ => none

/-- All threads have logged what they had to. -/
def Done (s : Log ι) : Prop := ∀ i, s.texts i = []

/-- The file has every record, whole and in order. -/
def Complete (s : Log ι) : Prop := s.file.getD [] = records s.written

/-- A thread finds the pointer null behind another one that has, or begins a record before the file
is open or while another thread is inside `Write`. -/
def Races (s : Log ι) : LogLabel ι → Prop
  | .check _ => s.pThis = false ∧ ∃ j, s.pc j = .missing
  | .text _ => s.file = none ∨ ∃ j, s.pc j = .writing
  | _ => False

/-! ## The steps -/

/-- Everything a step can do. -/
inductive Moves (s : Log ι) : LogLabel ι → Log ι → Prop
  | find (i : ι) (hi : s.pc i = .out) (ht : s.texts i ≠ []) (hp : s.pThis = true) :
      Moves s (.check i) (s.goto i .got)
  | miss (i : ι) (hi : s.pc i = .out) (ht : s.texts i ≠ []) (hp : s.pThis = false) :
      Moves s (.check i) (s.goto i .missing)
  | assign (i : ι) (hi : s.pc i = .missing) : Moves s (.assign i) (s.assign i)
  | openFirst (i : ι) (hi : s.pc i = .opening) (hf : s.file = none) :
      Moves s (.openFile i) ({ s with file := some [], fail := false }.goto i .got)
  | openAgain (i : ι) (f : Str) (hi : s.pc i = .opening) (hf : s.file = some f) :
      Moves s (.openFile i) ({ s with fail := true }.goto i .got)
  | text (i : ι) (t : Str) (rest : List Str) (hi : s.pc i = .got)
      (ht : s.texts i = t :: rest) : Moves s (.text i) (s.text i t)
  | newline (i : ι) (t : Str) (rest : List Str) (hi : s.pc i = .writing)
      (ht : s.texts i = t :: rest) : Moves s (.newline i) (s.newline i rest)

theorem step_moves {s s' : Log ι} {l : LogLabel ι} (h : s.step l = some s') : Moves s l s' := by
  cases l with
  | check i =>
      simp only [step] at h
      split at h
      · rename_i hi
        obtain rfl := Option.some.inj h
        by_cases hp : s.pThis = true
        · rw [check, if_pos hp]
          exact .find i hi.1 hi.2 hp
        · rw [check, if_neg hp]
          exact .miss i hi.1 hi.2 (by simpa using hp)
      · cases h
  | assign i =>
      simp only [step] at h
      split at h
      · obtain rfl := Option.some.inj h
        exact .assign i ‹_›
      · cases h
  | openFile i =>
      simp only [step] at h
      split at h
      · obtain rfl := Option.some.inj h
        unfold openFile
        split
        · exact .openFirst i ‹_› ‹_›
        · exact .openAgain i _ ‹_› ‹_›
      · cases h
  | text i =>
      simp only [step] at h
      split at h
      · rename_i t rest hi ht
        obtain rfl := Option.some.inj h
        exact .text i t rest hi ht
      · cases h
  | newline i =>
      simp only [step] at h
      split at h
      · rename_i t rest hi ht
        obtain rfl := Option.some.inj h
        exact .newline i t rest hi ht
      · cases h

@[simp] theorem goto_pc_self (s : Log ι) (i : ι) (p : LogPc) : (s.goto i p).pc i = p :=
  Function.update_self ..

theorem goto_pc_of_ne {i j : ι} (h : j ≠ i) (s : Log ι) (p : LogPc) : (s.goto i p).pc j = s.pc j :=
  Function.update_of_ne h ..

theorem opens_goto {s : Log ι} {i j : ι} {p : LogPc} (hp : p.opens = false)
    (h : ((s.goto i p).pc j).opens = true) : j ≠ i ∧ (s.pc j).opens = true := by
  by_cases hji : j = i
  · subst hji
    rw [goto_pc_self, hp] at h
    cases h
  · rw [goto_pc_of_ne hji] at h
    exact ⟨hji, h⟩

/-- A move between two other places lets nobody into `Write`. -/
theorem writing_goto {s : Log ι} {i : ι} {p : LogPc} (hi : s.pc i ≠ .writing) (hp : p ≠ .writing)
    (j : ι) : (s.goto i p).pc j = .writing ↔ s.pc j = .writing := by
  by_cases hji : j = i
  · subst hji
    rw [goto_pc_self]
    exact iff_of_false hp hi
  · rw [goto_pc_of_ne hji]

/-! ## Without a race nothing is lost -/

/-- The file has whole records, or lacks the newline of the one thread inside `Write`. -/
structure Whole (s : Log ι) : Prop where
  complete : (∀ i, s.pc i ≠ .writing) → s.Complete
  half : ∀ i, s.pc i = .writing → ∃ f, s.file = some f ∧ f ++ ['\n'] = records s.written
  single : ∀ i j, s.pc i = .writing → s.pc j = .writing → i = j

/-- The logger is made once: at most one thread is on its way to `open`, and none once the file is
open. -/
structure OpensOnce (s : Log ι) : Prop where
  sound : s.fail = false
  alone : ∀ i j, (s.pc i).opens = true → (s.pc j).opens = true → i = j
  before : s.file ≠ none → ∀ i, (s.pc i).opens = false
  first : s.pThis = false → s.file = none
  assigned : ∀ i, s.pc i = .opening → s.pThis = true

structure Orderly (s : Log ι) : Prop where
  whole : s.Whole
  once : s.OpensOnce

omit [DecidableEq ι] in
theorem init_orderly (texts : ι → List Str) : (init texts).Orderly := by
  refine ⟨⟨fun _ => rfl, ?_, ?_⟩, rfl, ?_, fun _ _ => rfl, fun _ => rfl, ?_⟩
  · rintro i ⟨⟩
  · rintro i j ⟨⟩
  · rintro i j ⟨⟩
  · rintro i ⟨⟩

/-- A thread goes on outside `Write`, and the file stays. -/
theorem Whole.goto {s : Log ι} (hs : s.Whole) {i : ι} {p : LogPc} (hi : s.pc i ≠ .writing)
    (hp : p ≠ .writing) : (s.goto i p).Whole := by
  have hiff := writing_goto hi hp
  refine ⟨?_, ?_, ?_⟩
  · intro hnone
    exact hs.complete fun j hj => hnone j ((hiff j).mpr hj)
  · intro j hj
    exact hs.half j ((hiff j).mp hj)
  · intro j k hj hk
    exact hs.single j k ((hiff j).mp hj) ((hiff k).mp hk)

/-- A record is begun where no other one is. -/
theorem Whole.text {s : Log ι} (hs : s.Whole) (hsound : s.fail = false) (hopen : s.file ≠ none)
    (hnone : ∀ j, s.pc j ≠ .writing) (i : ι) (t : Str) : (s.text i t).Whole := by
  have honly : ∀ j, (s.text i t).pc j = .writing → j = i := by
    intro j hj
    by_contra hji
    rw [Log.text, goto_pc_of_ne hji] at hj
    exact hnone j hj
  refine ⟨?_, ?_, ?_⟩
  · intro hout
    exact absurd (goto_pc_self _ i .writing) (hout i)
  · intro j _
    obtain ⟨f, hf⟩ := Option.ne_none_iff_exists'.mp hopen
    have hwhole : f = records s.written := by
      have hc := hs.complete hnone
      rwa [Complete, hf] at hc
    refine ⟨f ++ t, ?_, ?_⟩
    · show (if s.fail then s.file else s.file.map (· ++ t)) = some (f ++ t)
      rw [hsound, hf]
      rfl
    · show f ++ t ++ ['\n'] = records (s.written ++ [t])
      rw [records_append_singleton, hwhole, List.append_assoc]
  · intro j k hj hk
    exact (honly j hj).trans (honly k hk).symm

/-- The one record that was begun is ended. -/
theorem Whole.newline {s : Log ι} (hs : s.Whole) (hsound : s.fail = false) {i : ι}
    (hi : s.pc i = .writing) (rest : List Str) : (s.newline i rest).Whole := by
  have hnone : ∀ j, (s.newline i rest).pc j ≠ .writing := by
    intro j hj
    by_cases hji : j = i
    · subst hji
      rw [Log.newline, goto_pc_self] at hj
      cases hj
    · rw [Log.newline, goto_pc_of_ne hji] at hj
      exact hji (hs.single j i hj hi)
  refine ⟨fun _ => ?_, fun j hj => absurd hj (hnone j), fun j k hj => absurd hj (hnone j)⟩
  obtain ⟨f, hf, hrec⟩ := hs.half i hi
  show (if s.fail then s.file else s.file.map (· ++ ['\n'])).getD [] = records s.written
  rw [hsound, hf]
  exact hrec

/-- A thread goes on, and not towards `open`. -/
theorem OpensOnce.goto {s : Log ι} (hs : s.OpensOnce) (i : ι) {p : LogPc} (hp : p.opens = false) :
    (s.goto i p).OpensOnce := by
  refine ⟨hs.sound, ?_, ?_, hs.first, ?_⟩
  · intro j k hj hk
    exact hs.alone j k (opens_goto hp hj).2 (opens_goto hp hk).2
  · intro hf j
    by_contra hj
    have hopens := (opens_goto hp (by simpa using hj)).2
    rw [hs.before hf j] at hopens
    cases hopens
  · intro j hj
    have hopens : ((s.goto i p).pc j).opens = true := by rw [hj]; rfl
    rw [goto_pc_of_ne (opens_goto hp hopens).1] at hj
    exact hs.assigned j hj

omit [DecidableEq ι] in
/-- An insertion into the open file opens nothing. -/
theorem OpensOnce.insert {s : Log ι} (hs : s.OpensOnce) (hopen : s.file ≠ none) (t : Str) :
    (s.insert t).OpensOnce := by
  refine ⟨?_, hs.alone, fun _ => hs.before hopen, ?_, hs.assigned⟩
  · obtain ⟨f, hf⟩ := Option.ne_none_iff_exists'.mp hopen
    simp [Log.insert, hs.sound, hf]
  · exact fun hp => absurd (hs.first hp) hopen

theorem orderly_step {s s' : Log ι} {l : LogLabel ι} (hs : s.Orderly) (hl : ¬ s.Races l)
    (hm : Moves s l s') : s'.Orderly := by
  obtain ⟨hwhole, honce⟩ := hs
  cases hm with
  | find i hi ht hp => exact ⟨hwhole.goto (by simp [hi]) (by simp), honce.goto i rfl⟩
  | miss i hi ht hp =>
      -- nobody else has found the pointer null, or has assigned it
      have hnone : ∀ j, (s.pc j).opens = false := by
        intro j
        cases hj : s.pc j with
        | out => rfl
        | got => rfl
        | writing => rfl
        | missing => exact absurd ⟨hp, j, hj⟩ hl
        | opening =>
            have htrue := honce.assigned j hj
            rw [hp] at htrue
            cases htrue
      have honly : ∀ j, ((s.goto i .missing).pc j).opens = true → j = i := by
        intro j hj
        by_contra hji
        rw [goto_pc_of_ne hji, hnone j] at hj
        cases hj
      refine ⟨hwhole.goto (by simp [hi]) (by simp), honce.sound, ?_, ?_, honce.first, ?_⟩
      · exact fun j k hj hk => (honly j hj).trans (honly k hk).symm
      · exact fun hf => absurd (honce.first hp) hf
      · intro j hj
        obtain rfl := honly j (by rw [hj]; rfl)
        rw [goto_pc_self] at hj
        cases hj
  | assign i hi =>
      have hopens : (s.pc i).opens = true := by rw [hi]; rfl
      have hfile : s.file = none := by
        by_contra hf
        rw [honce.before hf i] at hopens
        cases hopens
      have hold : ∀ j, ((s.assign i).pc j).opens = true → (s.pc j).opens = true := by
        intro j hj
        by_cases hji : j = i
        · rw [hji]
          exact hopens
        · rwa [assign, goto_pc_of_ne hji] at hj
      have hassigned : Whole { s with pThis := true } :=
        ⟨hwhole.complete, hwhole.half, hwhole.single⟩
      refine ⟨hassigned.goto (by simp [hi]) (by simp), honce.sound, ?_,
        fun hf => absurd hfile hf, ?_, fun _ _ => rfl⟩
      · exact fun j k hj hk => honce.alone j k (hold j hj) (hold k hk)
      · rintro ⟨⟩
  | openFirst i hi hf =>
      have hopens : (s.pc i).opens = true := by rw [hi]; rfl
      have hgone : ∀ j, (({ s with file := some [], fail := false }.goto i .got).pc j).opens =
          false := by
        intro j
        by_contra hj
        obtain ⟨hji, hj'⟩ := opens_goto rfl (by simpa using hj)
        exact hji (honce.alone j i hj' hopens)
      have hopened : Whole { s with file := some [], fail := false } := by
        refine ⟨?_, ?_, hwhole.single⟩
        · intro hnone
          have hc := hwhole.complete hnone
          rwa [Complete, hf] at hc
        · intro j hj
          obtain ⟨f, hsome, -⟩ := hwhole.half j hj
          rw [hf] at hsome
          cases hsome
      refine ⟨hopened.goto (by simp [hi]) (by simp), rfl, ?_, fun _ => hgone, ?_, ?_⟩
      · intro j k hj
        rw [hgone j] at hj
        cases hj
      · intro hp
        have htrue := honce.assigned i hi
        rw [show s.pThis = false from hp] at htrue
        cases htrue
      · exact fun _ _ => honce.assigned i hi
  | openAgain i f hi hf =>
      have hopens := honce.before (by rw [hf]; simp) i
      rw [hi] at hopens
      cases hopens
  | text i t rest hi ht =>
      obtain ⟨hopen, hnone⟩ := not_or.mp hl
      have hput := honce.insert hopen t
      have hbegun : OpensOnce { s.insert t with
          written := s.written ++ [t], inside := i :: s.inside } :=
        ⟨hput.sound, hput.alone, hput.before, hput.first, hput.assigned⟩
      exact ⟨hwhole.text honce.sound hopen (fun j hj => hnone ⟨j, hj⟩) i t, hbegun.goto i rfl⟩
  | newline i t rest hi ht =>
      obtain ⟨f, hf, -⟩ := hwhole.half i hi
      have hput := honce.insert (by rw [hf]; simp) ['\n']
      have hended : OpensOnce { s.insert ['\n'] with
          texts := Function.update s.texts i rest, inside := s.inside.erase i } :=
        ⟨hput.sound, hput.alone, hput.before, hput.first, hput.assigned⟩
      exact ⟨hwhole.newline honce.sound hi rest, hended.goto i rfl⟩

/-! ## A race loses or mixes something -/

/-- At the end the file will be, or is already, not what was written: it is too short; it differs
from it at some place; a thread is about to insert into a stream that has failed, or about to open
the file once more, or two threads are. -/
inductive Doomed (s : Log ι) : Prop
  | lost (h : (s.file.getD []).length + s.inside.length < (records s.written).length)
  | mixed (p : Str) (c d : Char) (hcd : c ≠ d) (hf : p ++ [c] <+: s.file.getD [])
      (hw : p ++ [d] <+: records s.written)
  | failed (i : ι) (hi : s.pc i = .got ∨ s.pc i = .writing) (hf : s.file ≠ none)
      (h : s.fail = true)
  | again (i : ι) (hi : (s.pc i).opens = true) (hf : s.file ≠ none)
  | two (i j : ι) (hij : i ≠ j) (hi : (s.pc i).opens = true) (hj : (s.pc j).opens = true)

/-- No more is in the file than was written, less the newlines of the threads inside `Write`; a
thread in the middle has something to write, and what it has starts a record. -/
structure Sound (s : Log ι) : Prop where
  le : (s.file.getD []).length + s.inside.length ≤ (records s.written).length
  nodup : s.inside.Nodup
  mem_inside : ∀ i, i ∈ s.inside ↔ s.pc i = .writing
  busy : ∀ i, s.pc i ≠ .out → s.texts i ≠ []
  texts : ∀ i, ∀ t ∈ s.texts i, StartsRecord t

omit [DecidableEq ι] in
theorem length_insert_le (s : Log ι) (t : Str) :
    ((s.insert t).file.getD []).length ≤ (s.file.getD []).length + t.length := by
  show ((if s.fail then s.file else s.file.map (· ++ t)).getD []).length ≤ _
  split
  · omega
  · cases s.file <;> simp

/-- A step adds no more to the file than to what was written. -/
theorem length_step {s s' : Log ι} {l : LogLabel ι} (hs : s.Sound) (hm : Moves s l s') :
    (s'.file.getD []).length + s'.inside.length + (records s.written).length ≤
      (s.file.getD []).length + s.inside.length + (records s'.written).length := by
  cases hm with
  | openFirst i hi hf =>
      show 0 + s.inside.length + (records s.written).length ≤
        _ + s.inside.length + (records s.written).length
      omega
  | text i t rest hi ht =>
      have hfile : ((s.text i t).file.getD []).length ≤ _ := length_insert_le s t
      have hinside : (s.text i t).inside.length = s.inside.length + 1 := rfl
      have hwritten : (records (s.text i t).written).length =
          (records s.written).length + (t.length + 1) := by
        show (records (s.written ++ [t])).length = _
        simp
      omega
  | newline i t rest hi ht =>
      have hfile : ((s.newline i rest).file.getD []).length ≤ _ := length_insert_le s ['\n']
      have hmem : i ∈ s.inside := (hs.mem_inside i).mpr hi
      have hinside : (s.newline i rest).inside.length = s.inside.length - 1 :=
        List.length_erase_of_mem hmem
      have hpos := List.length_pos_of_mem hmem
      have hwritten : (records (s.newline i rest).written).length =
          (records s.written).length := rfl
      rw [List.length_singleton] at hfile
      omega
  | _ => exact le_refl _

/-- The file and what was written only grow. -/
theorem prefix_step {s s' : Log ι} {l : LogLabel ι} (hm : Moves s l s') :
    s.file.getD [] <+: s'.file.getD [] ∧ records s.written <+: records s'.written := by
  have hinsert : ∀ t, s.file.getD [] <+: (s.insert t).file.getD [] := by
    intro t
    show _ <+: (if s.fail then s.file else s.file.map (· ++ t)).getD []
    split
    · exact List.prefix_refl _
    · cases s.file <;> simp
  cases hm with
  | openFirst i hi hf => exact ⟨by simp [hf], List.prefix_refl _⟩
  | text i t rest hi ht =>
      refine ⟨hinsert t, ?_⟩
      show _ <+: records (s.written ++ [t])
      rw [records_append_singleton]
      exact List.prefix_append _ _
  | newline i t rest hi ht => exact ⟨hinsert ['\n'], List.prefix_refl _⟩
  | _ => exact ⟨List.prefix_refl _, List.prefix_refl _⟩

/-- A file that is open stays open, and a stream that has failed on it stays so. -/
theorem file_step {s s' : Log ι} {l : LogLabel ι} (hm : Moves s l s') (hf : s.file ≠ none) :
    s'.file ≠ none ∧ (s.fail = true → s'.fail = true) := by
  have hinsert : ∀ t, (s.insert t).file ≠ none ∧ (s.fail = true → (s.insert t).fail = true) := by
    intro t
    refine ⟨?_, ?_⟩
    · show (if s.fail then s.file else s.file.map (· ++ t)) ≠ none
      split
      · exact hf
      · simpa using hf
    · intro h
      simp [Log.insert, h]
  cases hm with
  | openFirst i hi hnone => exact absurd hnone hf
  | openAgain => exact ⟨hf, fun _ => rfl⟩
  | text i t rest hi ht => exact hinsert t
  | newline i t rest hi ht => exact hinsert ['\n']
  | _ => exact ⟨hf, id⟩

end Log

/-- Whose step it is. -/
def LogLabel.thread : LogLabel ι → ι
  | .check i | .assign i | .openFile i | .text i | .newline i => i

namespace Log

theorem frame {s s' : Log ι} {l : LogLabel ι} (hm : Moves s l s') {i : ι} (hi : i ≠ l.thread) :
    s'.pc i = s.pc i ∧ s'.texts i = s.texts i := by
  cases hm with
  | newline j t rest hj ht =>
      exact ⟨goto_pc_of_ne hi _ _, Function.update_of_ne hi ..⟩
  | _ => exact ⟨goto_pc_of_ne hi _ _, rfl⟩

/-- What a thread has still to log gets no longer. -/
theorem texts_step {s s' : Log ι} {l : LogLabel ι} (hm : Moves s l s') (i : ι) :
    ∀ t ∈ s'.texts i, t ∈ s.texts i := by
  intro t ht
  by_cases hthread : i = l.thread
  · subst hthread
    cases hm with
    | newline j t' rest hj hts =>
        have hrest : (s.newline j rest).texts j = rest := Function.update_self ..
        show t ∈ s.texts j
        rw [hts]
        exact List.mem_cons_of_mem t' (hrest ▸ ht)
    | _ => exact ht
  · rwa [(frame hm hthread).2] at ht

theorem sound_step {s s' : Log ι} {l : LogLabel ι} (hs : s.Sound) (hm : Moves s l s') :
    s'.Sound := by
  refine ⟨?_, ?_, ?_, ?_, fun i t ht => hs.texts i t (texts_step hm i t ht)⟩
  · have hlen := length_step hs hm
    have hle := hs.le
    omega
  · -- nobody is inside twice
    cases hm with
    | text i t rest hi ht =>
        refine List.nodup_cons.mpr ⟨fun hmem => ?_, hs.nodup⟩
        rw [hs.mem_inside i, hi] at hmem
        cases hmem
    | newline i t rest hi ht => exact hs.nodup.erase i
    | _ => exact hs.nodup
  · -- only `text` and `newline` change who is inside
    intro j
    cases hm with
    | text i t rest hi ht =>
        show j ∈ i :: s.inside ↔ (Log.goto _ i .writing).pc j = .writing
        by_cases hji : j = i
        · subst hji
          simp
        · rw [goto_pc_of_ne hji, List.mem_cons, or_iff_right hji]
          exact hs.mem_inside j
    | newline i t rest hi ht =>
        show j ∈ s.inside.erase i ↔ (Log.goto _ i .out).pc j = .writing
        rw [hs.nodup.mem_erase_iff]
        by_cases hji : j = i
        · subst hji
          simp
        · rw [goto_pc_of_ne hji, and_iff_right hji]
          exact hs.mem_inside j
    | find i hi | miss i hi | assign i hi | openFirst i hi | openAgain i _ hi =>
        refine (hs.mem_inside j).trans (Iff.symm ?_)
        exact writing_goto (by simp [hi]) (by simp) j
  · -- who has come to log has a record left
    intro i hi
    by_cases hthread : i = l.thread
    · subst hthread
      cases hm with
      | find j hj ht hp => exact ht
      | miss j hj ht hp => exact ht
      | assign j hj => exact hs.busy j (by rw [hj]; simp)
      | openFirst j hj hf => exact hs.busy j (by rw [hj]; simp)
      | openAgain j f hj hf => exact hs.busy j (by rw [hj]; simp)
      | text j t rest hj ht => exact hs.busy j (by rw [hj]; simp)
      | newline j t rest hj ht => exact absurd (goto_pc_self _ _ _) hi
    · obtain ⟨hpc, htexts⟩ := frame hm hthread
      rw [hpc] at hi
      rw [htexts]
      exact hs.busy i hi

/-- A thread on its way to `open` stays so, or has opened the file. -/
theorem opens_step {s s' : Log ι} {l : LogLabel ι} (hm : Moves s l s') {i : ι}
    (hi : (s.pc i).opens = true) :
    (s'.pc i).opens = true ∨
      i = l.thread ∧ s'.pc i = .got ∧ s'.file ≠ none ∧ (s.file ≠ none → s'.fail = true) := by
  by_cases hthread : i = l.thread
  · subst hthread
    cases hm with
    | find j hj | miss j hj | text j _ _ hj | newline j _ _ hj =>
        simp [LogLabel.thread, hj, LogPc.opens] at hi
    | assign j hj =>
        left
        show (((s.assign j).pc j).opens) = true
        rw [assign, goto_pc_self]
        rfl
    | openFirst j hj hf => exact Or.inr ⟨rfl, goto_pc_self _ _ _, by simp [goto], (absurd hf ·)⟩
    | openAgain j f hj hf =>
        exact Or.inr ⟨rfl, goto_pc_self _ _ _, by simp [goto, hf], fun _ => rfl⟩
  · left
    rw [(frame hm hthread).1]
    exact hi

omit [DecidableEq ι] in
/-- Nothing gets into a stream that has failed, open or not. -/
theorem insert_of_lost {s : Log ι} (h : s.fail = true ∨ s.file = none) (t : Str) :
    (s.insert t).file.getD [] = s.file.getD [] := by
  show (if s.fail then s.file else s.file.map (· ++ t)).getD [] = _
  rcases h with h | h
  · rw [if_pos h]
  · rw [h, Option.map_none, ite_self]

/-- A record begun there is short of its first character. -/
theorem doomed_text {s : Log ι} (hs : s.Sound) (h : s.fail = true ∨ s.file = none) {i : ι} {t : Str}
    {rest : List Str} (ht : s.texts i = t :: rest) : (s.text i t).Doomed := by
  obtain ⟨c, t', rfl, -⟩ := hs.texts i t (by simp [ht])
  refine .lost ?_
  show ((s.insert (c :: t')).file.getD []).length + (s.inside.length + 1) <
    (records (s.written ++ [c :: t'])).length
  rw [insert_of_lost h, records_append_singleton, List.length_append, List.length_append,
    List.length_cons, List.length_singleton]
  have hle := hs.le
  omega

/-- A record ended there is short of its newline. -/
theorem doomed_newline {s : Log ι} (hs : s.Sound) (h : s.fail = true) {i : ι}
    (hi : s.pc i = .writing) (rest : List Str) : (s.newline i rest).Doomed := by
  have hmem : i ∈ s.inside := (hs.mem_inside i).mpr hi
  refine .lost ?_
  show ((s.insert ['\n']).file.getD []).length + (s.inside.erase i).length <
    (records s.written).length
  rw [insert_of_lost (Or.inl h), List.length_erase_of_mem hmem]
  have hle := hs.le
  have hpos := List.length_pos_of_mem hmem
  omega

theorem doomed_step {s s' : Log ι} {l : LogLabel ι} (hs : s.Sound) (hd : s.Doomed)
    (hm : Moves s l s') : s'.Doomed := by
  cases hd with
  | lost h =>
      have hlen := length_step hs hm
      exact .lost (by omega)
  | mixed p c d hcd hf hw =>
      obtain ⟨hfile, hwritten⟩ := prefix_step hm
      exact .mixed p c d hcd (hf.trans hfile) (hw.trans hwritten)
  | failed i hi hf h =>
      obtain ⟨hf', hfail⟩ := file_step hm hf
      by_cases hthread : i = l.thread
      · -- the insertion that fails
        subst hthread
        cases hm with
        | text j t rest hj ht => exact doomed_text hs (Or.inl h) ht
        | newline j t rest hj ht => exact doomed_newline hs h hj rest
        | find j hj | miss j hj | assign j hj | openFirst j hj | openAgain j _ hj =>
            simp [LogLabel.thread, hj] at hi
      · exact .failed i (by rwa [(frame hm hthread).1]) hf' (hfail h)
  | again i hi hf =>
      have hf' := (file_step hm hf).1
      rcases opens_step hm hi with hi' | ⟨-, hgot, -, hfail⟩
      · exact .again i hi' hf'
      · exact .failed i (Or.inl hgot) hf' (hfail hf)
  | two i j hij hi hj =>
      rcases opens_step hm hi with hi' | ⟨hit, -, hf, -⟩
      · rcases opens_step hm hj with hj' | ⟨-, -, hf, -⟩
        · exact .two i j hij hi' hj'
        · exact .again i hi' hf
      · rcases opens_step hm hj with hj' | ⟨hjt, -⟩
        · exact .again j hj' hf
        · exact absurd (hit.trans hjt.symm) hij

/-- The step of the first race is the beginning of the end. -/
theorem doomed_of_races {s s' : Log ι} {l : LogLabel ι} (hs : s.Sound) (hgood : s.Orderly)
    (hl : s.Races l) (hm : Moves s l s') : s'.Doomed := by
  cases hm with
  | find i hi ht hp =>
      rw [hl.1] at hp
      cases hp
  | miss i hi ht hp =>
      obtain ⟨-, j, hj⟩ := hl
      have hji : j ≠ i := by
        rintro rfl
        rw [hj] at hi
        cases hi
      refine .two i j hji.symm ?_ ?_
      · rw [goto_pc_self]
        rfl
      · rw [goto_pc_of_ne hji, hj]
        rfl
  | text i t rest hi ht =>
      rcases hl with hf | ⟨j, hj⟩
      · exact doomed_text hs (Or.inr hf) ht
      · -- the newline of `j` is due where the text begins
        obtain ⟨f, hf, hrec⟩ := hgood.whole.half j hj
        obtain ⟨c, t', rfl, hc⟩ := hs.texts i t (by simp [ht])
        refine .mixed f c '\n' hc ?_ ?_
        · show _ <+: (if s.fail then s.file else s.file.map (· ++ c :: t')).getD []
          rw [hgood.once.sound, hf]
          exact ⟨t', by simp⟩
        · show _ <+: records (s.written ++ [c :: t'])
          rw [records_append_singleton, ← hrec]
          exact List.prefix_append _ _
  | assign => exact hl.elim
  | openFirst => exact hl.elim
  | openAgain => exact hl.elim
  | newline => exact hl.elim

/-- A file that differs from what was written is not what was written. -/
theorem not_prefix_both {p w : Str} {c d : Char} (hcd : c ≠ d) (hc : p ++ [c] <+: w) :
    ¬ p ++ [d] <+: w := by
  intro hd
  have hle := List.prefix_of_prefix_length_le hc hd (by simp)
  have heq := List.append_cancel_left (hle.eq_of_length (by simp))
  exact hcd (List.singleton_inj.mp heq)

/-- The texts of a handler (_appServer.cpp 244-245). -/
def handlerTexts (reply : Str) : List Str := ["publish reply to client ...".toList, reply]

/-- `Write` of a thread that has got the logger. -/
def writes (i : Bool) : List (LogLabel Bool) := [.text i, .newline i]

/-- Two handlers find the pointer null; the second one's `open` fails. -/
def bothMiss : List (LogLabel Bool) :=
  [.check true, .check false, .assign true, .openFile true] ++ writes true ++
    [.assign false, .openFile false] ++ writes false ++ [.check true] ++ writes true ++
    [.check false] ++ writes false

/-- One handler makes the logger, and the other one comes into its first `Write`. -/
def bothInside : List (LogLabel Bool) :=
  [.check true, .assign true, .openFile true, .text true, .check false, .text false,
    .newline false, .newline true, .check true] ++ writes true ++ [.check false] ++ writes false

example : (exec step (init fun _ => handlerTexts "Msg".toList) bothInside).map
    (fun s => s.file.getD []) = some
      (records ["publish reply to client ...publish reply to client ...".toList, [], "Msg".toList,
        "Msg".toList]) := by
  decide +kernel

end Log

end BupApp.LogRace
