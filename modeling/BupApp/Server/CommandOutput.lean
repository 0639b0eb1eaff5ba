/-
# BupApp.Server.CommandOutput -- reading what a command prints

A handler runs its command through `execCmnd`, which reads the output of the command until `feof`
says that it is over.  Only a stream that ends in end of file ever says so: after a read error
`fgets` returns null, `feof` stays as it was, and the loop, which takes no notice of the null, goes
round for ever.  Then `pclose` is never reached and the client never gets its reply.
-/
import BupApp.App.Server
import BupApp.Lib.Stdio

namespace BupApp.CommandOutput

open BupApp.Lib.Text BupApp.Lib.Stdio

/-! ## execCmnd -/

/-- The pipe of a command and what was read from it. -/
structure Output where
  pipe : Stream
  result : Str
  deriving DecidableEq, Repr

/-- One round of the loop (utils.cpp 213-217): `result += buffer.data()` takes the C string that is
in the buffer. -/
def Output.read (o : Output) : Output :=
  match o.pipe.fgets 128 with
  | (some buffer, pipe) => ⟨pipe, o.result ++ cStr buffer⟩
  | (none, pipe) => ⟨pipe, o.result⟩

/-- The loop with at most `fuel` tests of its condition; `none` if it is still running then. -/
def Output.readAll : Nat → Output → Option Output
  | 0, _ => none
  | fuel + 1, o => if o.pipe.feof then some o else readAll fuel o.read

/-- `execCmnd` (utils.cpp 203-223) with what `popen` returned, `none` for its null pointer; `rc`
says whether the exit status that `pclose` returned is `EXIT_SUCCESS`. -/
def execCmnd (fuel : Nat) (pipe : Option Stream) (rc : Bool) : Option (Except Str Str) :=
  match pipe with
  | none => some (.error "popen() failed!".toList)
  | some pipe =>
      (Output.readAll fuel ⟨pipe, []⟩).map fun _ =>
        .ok (if rc then "succeed!".toList else "failed! ".toList)

/-- The reply of `handleBackupRequest` (_appServer.cpp 241). -/
def reply (fuel : Nat) (pipe : Option Stream) (backUpPath : Str) (rc : Bool) :
    Option (Except Str Str) :=
  (execCmnd fuel pipe rc).map fun text =>
    text.map fun text => "Msg from Server: ".toList ++ backUpPath ++ " backup ".toList ++ text

/-- Whatever was asked for and however the command has ended, the loop ends and the handler has its
reply to send. -/
def SendsBack (pipe : Stream) : Prop :=
  ∀ backUpPath rc, ∃ fuel,
    reply fuel (some pipe) backUpPath rc = some (.ok (replyMsg backUpPath rc))

/-! ## The loop -/

/-- A round appends what the buffer holds, and nothing after a null. -/
theorem read_eq (o : Output) :
    o.read = ⟨(o.pipe.fgets 128).2, o.result ++ cStr ((o.pipe.fgets 128).1.getD [])⟩ := by
  unfold Output.read
  cases o.pipe.fgets 128 with
  | mk buffer pipe =>
      cases buffer with
      | none => simp [cStr]
      | some buffer => rfl

@[simp] theorem read_pipe (o : Output) : o.read.pipe = (o.pipe.fgets 128).2 := by
  rw [read_eq]

/-- A command whose output ends in end of file is read to its end. -/
theorem readAll_of_endOfFile {fuel : Nat} {o : Output} (h : o.pipe.ending = .endOfFile)
    (hfuel : o.pipe.readsLeft < fuel) : ∃ o', o.readAll fuel = some o' := by
  induction fuel generalizing o with
  | zero => exact absurd hfuel (Nat.not_lt_zero _)
  | succ fuel ih =>
      cases hfeof : o.pipe.feof with
      | true => exact ⟨o, by rw [Output.readAll, if_pos hfeof]⟩
      | false =>
          have hless := Stream.readsLeft_fgets_lt (by decide : 1 < 128) h hfeof
          have hending := (Stream.fgets_ending (by decide : 1 < 128) o.pipe).trans h
          rw [Output.readAll, if_neg (by simp [hfeof])]
          exact ih (by rwa [read_pipe]) (by rw [read_pipe]; omega)

/-- One whose output ends in a read error is read for ever. -/
theorem readAll_of_readError {o : Output} (h : o.pipe.ending = .readError)
    (hfeof : o.pipe.feof = false) (fuel : Nat) : o.readAll fuel = none := by
  induction fuel generalizing o with
  | zero => rfl
  | succ fuel ih =>
      have hending := (Stream.fgets_ending (by decide : 1 < 128) o.pipe).trans h
      have hstays := (Stream.fgets_feof_of_readError (by decide : 1 < 128) h).trans hfeof
      rw [Output.readAll, if_neg (by simp [hfeof])]
      exact ih (by rwa [read_pipe]) (by rwa [read_pipe])

/-- There is a reply once the loop has ended. -/
theorem reply_of_readAll {fuel : Nat} {pipe : Stream} {o : Output}
    (h : Output.readAll fuel ⟨pipe, []⟩ = some o) (backUpPath : Str) (rc : Bool) :
    reply fuel (some pipe) backUpPath rc = some (.ok (replyMsg backUpPath rc)) := by
  rw [reply, execCmnd, h]
  rfl

/-- Behind a read error there is none. -/
theorem reply_of_readError {pipe : Stream} (h : pipe.ending = .readError)
    (hfeof : pipe.feof = false) (fuel : Nat) (backUpPath : Str) (rc : Bool) :
    reply fuel (some pipe) backUpPath rc = none := by
  rw [reply, execCmnd, readAll_of_readError (o := ⟨pipe, []⟩) h hfeof fuel]
  rfl

/-- **The handler gets its reply exactly where the output ends in end of file**, whatever the
command has printed. -/
theorem sendsBack_iff (data : Str) (ending : Ending) :
    SendsBack (.opened data ending) ↔ ending = .endOfFile := by
  constructor
  · intro h
    obtain ⟨fuel, hreply⟩ := h [] true
    cases hending : ending with
    | endOfFile => rfl
    | readError =>
        rw [reply_of_readError hending rfl] at hreply
        cases hreply
  · rintro rfl backUpPath rc
    obtain ⟨o, ho⟩ := readAll_of_endOfFile (o := ⟨.opened data .endOfFile, []⟩) rfl
      (Nat.lt_succ_self _)
    exact ⟨_, reply_of_readAll ho backUpPath rc⟩

/-- The output of a command that prints a line and whose pipe cannot be read any further. -/
def brokenPipe : Stream := .opened "scp: connection closed\n".toList .readError

/-- Its handler never gets a reply to send. -/
theorem brokenPipe_not_sendsBack : ¬ SendsBack brokenPipe := by
  intro h
  obtain ⟨fuel, hreply⟩ := h "~/a".toList false
  rw [reply_of_readError rfl rfl] at hreply
  cases hreply

/-! ## What is read -/

/-- A piece in front of the output is appended to the result. -/
theorem read_of_isPiece {p rest : Str} (h : IsPiece 127 p) {o : Output}
    (hdata : o.pipe.data = p ++ rest) :
    o.read = ⟨{ o.pipe with data := rest }, o.result ++ cStr p⟩ := by
  rw [Output.read, Stream.fgets_of_isPiece 128 h hdata]

/-- The loop reads the output piece by piece, in order, and takes one round for each. -/
theorem readAll_pieces {pieces : List Str} (h : ∀ p ∈ pieces, IsPiece 127 p) (rest : Str)
    (ending : Ending) (result : Str) (fuel : Nat) :
    Output.readAll (pieces.length + fuel) ⟨.opened (pieces.flatten ++ rest) ending, result⟩ =
      Output.readAll fuel ⟨.opened rest ending, result ++ (pieces.map cStr).flatten⟩ := by
  induction pieces generalizing result with
  | nil => simp
  | cons p pieces ih =>
      have hread : Output.read ⟨.opened ((p :: pieces).flatten ++ rest) ending, result⟩ =
          ⟨.opened (pieces.flatten ++ rest) ending, result ++ cStr p⟩ :=
        read_of_isPiece (h p (by simp)) (by simp [Stream.opened])
      rw [List.length_cons, Nat.add_right_comm, Output.readAll, if_neg (by simp), hread,
        ih (fun q hq => h q (by simp [hq]))]
      simp

/-- Output without a NUL that ends in end of file is in the result as it was printed. -/
theorem readAll_noNul {fuel : Nat} {o : Output} (h : o.pipe.ending = .endOfFile)
    (hnul : '\x00' ∉ o.pipe.data) (hfeof : o.pipe.feof = true → o.pipe.data = [])
    (hfuel : o.pipe.readsLeft < fuel) :
    o.readAll fuel = some ⟨⟨[], .endOfFile, true⟩, o.result ++ o.pipe.data⟩ := by
  induction fuel generalizing o with
  | zero => exact absurd hfuel (Nat.not_lt_zero _)
  | succ fuel ih =>
      obtain ⟨⟨data, ending, feof⟩, result⟩ := o
      obtain rfl : ending = .endOfFile := h
      cases feof with
      | true =>
          obtain rfl : data = [] := hfeof rfl
          simp [Output.readAll]
      | false =>
          have hless := Stream.readsLeft_fgets_lt (by decide : 1 < 128)
            (s := ⟨data, .endOfFile, false⟩) rfl rfl
          have hlater := Nat.lt_of_lt_of_le hless (Nat.le_of_lt_succ hfuel)
          rw [Output.readAll, if_neg (by simp), read_eq]
          rcases Stream.fgets_cases (by decide : 1 < 128) ⟨data, .endOfFile, false⟩ with
            ⟨p, rest, -, hdata, hread⟩ | ⟨-, hlast, hread⟩ | ⟨herror, -⟩
          · obtain rfl : data = p ++ rest := hdata
            simp only [List.mem_append, not_or] at hnul
            rw [hread] at hlater ⊢
            rw [ih rfl hnul.2 (fun h => by cases h) hlater]
            simp [cStr_eq_self hnul.1]
          · rw [hread] at hlater
            rw [hlast, hread, ih rfl (by simp) (fun _ => rfl) hlater]
            simp [cStr_eq_self hnul]
          · cases herror

end BupApp.CommandOutput
