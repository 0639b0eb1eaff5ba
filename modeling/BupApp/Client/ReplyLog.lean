/-
# BupApp.Client.ReplyLog -- what the log of a client keeps of the messages it was sent

For a message that is not from the private channel `handleServerReplyMsg` logs topic and payload.
For one that is, it prints the local `msgPayload` and gives the logger the member `m_msgPayload`,
which nothing ever assigns: the log gets an empty line.  So of a reply of the server nothing but its
arrival is logged, and the log is faithful only where there is nothing to keep.
-/
import BupApp.Client.KeyWait

namespace BupApp.ReplyLog

open BupApp.Lib.Text BupApp.Lib.Segments BupApp.KeyWait

variable {τ : Type} {privateChnl : Str}

/-! ## A faithful log -/

/-- What is to be logged of a message: the payload, and in front of it the topic if it is not the
private channel. -/
def entry (privateChnl : Str) (m : Message τ) : Str :=
  if m.topic = privateChnl then m.payload else m.topic ++ m.payload

/-- A round logs what it took. -/
def Logged (privateChnl : Str) (d : ReplyRound τ) : Prop :=
  ∃ text ∈ d.written, entry privateChnl d.taken <:+: text

/-- All messages are taken, each is logged by its own round, and the text of the log has their
payloads in their order. -/
structure Faithful (privateChnl : Str) (msgs : List (Message τ)) (r : ReplyRun τ) : Prop where
  takesAll : r.rounds.map (·.taken) = msgs
  own : ∀ d ∈ r.rounds, Logged privateChnl d
  inText : OccursInOrder (msgs.map (·.payload)) (logText r.writes)

/-! ## The text of a log -/

/-- A text that was written is in the log. -/
theorem occurs_logText_of_mem {text : Str} {written : List Str} (h : text ∈ written) :
    text <:+: logText written := by
  obtain ⟨before, after, rfl⟩ := List.append_of_mem h
  exact ⟨logText before, "\n".toList ++ logText after, by simp [logText]⟩

/-- The payload is a part of the entry. -/
theorem payload_occurs_entry (privateChnl : Str) (m : Message τ) :
    m.payload <:+: entry privateChnl m := by
  unfold entry
  split
  · exact List.infix_rfl
  · exact (List.suffix_append m.topic m.payload).isInfix

/-- Rounds that log what they took give a text with the payloads in order. -/
theorem occursInOrder_of_logged {rounds : List (ReplyRound τ)}
    (h : ∀ d ∈ rounds, Logged privateChnl d) (rest : List (Option (Message τ)))
    (reached : Reached) :
    OccursInOrder ((rounds.map (·.taken)).map (·.payload))
      (logText (ReplyRun.writes ⟨rounds, rest, reached⟩)) := by
  induction rounds with
  | nil => trivial
  | cons d rounds ih =>
      obtain ⟨text, hmem, hentry⟩ := h d (by simp)
      have hblock : d.taken.payload <:+: logText (waitingMsg :: d.written) :=
        (payload_occurs_entry privateChnl d.taken).trans
          (hentry.trans (occurs_logText_of_mem (List.mem_cons_of_mem _ hmem)))
      have hlater := ih fun e he => h e (List.mem_cons_of_mem d he)
      have hwrites : ReplyRun.writes ⟨d :: rounds, rest, reached⟩ =
          (waitingMsg :: d.written) ++ ReplyRun.writes ⟨rounds, rest, reached⟩ := by
        simp [ReplyRun.writes]
      rw [hwrites, logText_append]
      exact hlater.cons_block hblock

/-! ## What the loop logs -/

/-- A round of the loop logs its message unless that is a private one with a payload. -/
theorem logged_iff (m : Message τ) :
    Logged privateChnl ⟨m, replyWrites privateChnl m⟩ ↔
      (m.topic = privateChnl → m.payload = []) := by
  by_cases htopic : m.topic = privateChnl
  · -- the one text written is the member, which is empty
    simp [Logged, replyWrites, entry, htopic, m_msgPayload]
  · have hsegment : m.topic ++ m.payload <:+: m.topic ++ m.payload ++ "\n".toList :=
      (List.prefix_append _ _).isInfix
    simp only [Logged, replyWrites, entry, htopic, if_false, false_imp_iff, iff_true]
    exact ⟨_, by simp, hsegment⟩

/-- The log is faithful exactly when every message from the private channel has an empty payload. -/
theorem faithful_iff_private_empty (privateChnl : Str) (msgs : List (Message τ)) :
    Faithful privateChnl msgs (handleServerReplyMsg privateChnl (msgs.map some ++ [none])) ↔
      ∀ m ∈ msgs, m.topic = privateChnl → m.payload = [] := by
  rw [handleServerReplyMsg_null]
  constructor
  · intro h m hm
    exact (logged_iff m).mp (h.own ⟨m, _⟩ (List.mem_map_of_mem hm))
  · intro h
    have hown : ∀ d ∈ msgs.map fun m => ReplyRound.mk m (replyWrites privateChnl m),
        Logged privateChnl d := by
      intro d hd
      obtain ⟨m, hm, rfl⟩ := List.mem_map.mp hd
      exact (logged_iff m).mpr (h m hm)
    have hinText := occursInOrder_of_logged hown [] .returned
    rw [map_taken_map] at hinText
    exact ⟨map_taken_map _ msgs, hown, hinText⟩

/-- A reply of the server, as `handleBackupRequest` publishes it. -/
def succeedReply : Message Unit :=
  ⟨"10.0.0.2".toList, "Msg from Server: ~/a backup succeed!".toList, ()⟩

/-- The reply is taken and its text is not in the log. -/
theorem succeedReply_not_logged :
    ¬ Faithful "10.0.0.2".toList [succeedReply]
      (handleServerReplyMsg "10.0.0.2".toList ([succeedReply].map some ++ [none])) := by
  intro h
  have hin := occursInOrder_singleton.mp h.inText
  rw [← contains_eq_true_iff] at hin
  revert hin
  decide +kernel

/-! ## What the log does not show -/

/-- Two queues that differ in the payloads of private messages only leave the same log. -/
theorem writes_eq_of_agree {msgs others : List (Message τ)}
    (h : List.Forall₂ (fun m o => m.topic = o.topic ∧ (m.topic ≠ privateChnl →
      m.payload = o.payload)) msgs others) :
    (handleServerReplyMsg privateChnl (msgs.map some)).writes =
      (handleServerReplyMsg privateChnl (others.map some)).writes := by
  induction h with
  | nil => rfl
  | @cons m o msgs others hmo _ ih =>
      obtain ⟨htopic, hpayload⟩ := hmo
      have hround : replyWrites privateChnl m = replyWrites privateChnl o := by
        by_cases hm : m.topic = privateChnl
        · simp [replyWrites, hm, htopic.symm]
        · simp [replyWrites, htopic.symm, hm, hpayload hm]
      simp only [ReplyRun.writes, List.append_cancel_right_eq] at ih
      simp only [List.map_cons, handleServerReplyMsg, ReplyRun.writes, List.flatMap_cons, hround,
        ih]

/-! ## Behind the key -/

/-- The loop for the replies takes, in order, what the wait for the key has left: no message is lost
between them. -/
theorem rounds_behind_end {user : Str} {pre : List (Option (Message τ))} {v : Option (Message τ)}
    (hpre : ∀ w ∈ pre, ¬ Ends privateChnl w) (hv : Ends privateChnl v) (msgs : List (Message τ)) :
    (handleServerReplyMsg privateChnl
      (getPublicKeyMsg privateChnl user (pre ++ v :: (msgs.map some ++ [none]))).rest).rounds.map
        (·.taken) = msgs := by
  rw [getPublicKeyMsg_append user hpre, getPublicKeyMsg_ends user hv, handleServerReplyMsg_null]
  exact map_taken_map _ msgs

end BupApp.ReplyLog
