/-
# BupApp.Network.Echo -- who wrote what a client prints?

Requests and replies share a client's private channel.  The server subscribes to it with the no-local
option; the client does not (`clientSetups` passes the default options), so the broker sends every
request back to the client that made it, and `handleServerReplyMsg` prints it as if it were the
server's answer.  The file says exactly when a client hears only from the server: in the runs in
which nobody requests a backup.
-/
import BupApp.App.NetworkSteps

set_option linter.unusedSectionVars false

namespace BupApp.Echo

open BupApp.Lib.Transition BupApp.Lib.PubSub BupApp.Lib.PubSub.Broker Net

variable {ι : Type} [DecidableEq ι] {cfg : NetConfig ι}

/-! ## What a client prints -/

/-- What `handleServerReplyMsg` took in the session: everything after the message in which
`getPublicKeyMsg` found the key. -/
def handleServerReplyMsgTook (privateChnl : Str) (c : AppClient (Stamp ι)) : List (Msg ι) :=
  (c.taken.dropWhile fun m => !acceptsKey privateChnl m).tail

/-- What `handleServerReplyMsg` printed as the result of a backup (_appClient.cpp 208-213). -/
def printed (privateChnl : Str) (c : AppClient (Stamp ι)) : List (Msg ι) :=
  (handleServerReplyMsgTook privateChnl c).filter (·.topic = privateChnl)

/-- The message was published by the server. -/
def ByServer (m : Msg ι) : Prop := m.tag.origin = .key ∨ m.tag.origin = .reply

/-- Clients print what the server wrote, and get no request of theirs back. -/
structure AnsweredByServer (cfg : NetConfig ι) (s : Net ι) : Prop where
  printed : ∀ i, ∀ m ∈ printed (cfg.ip i) (s.clients i), ByServer m
  noEcho : ∀ i, ∀ m ∈ delivered s i, m.tag.origin ≠ .request i

/-- The label is no backup request of a client. -/
def NoRequest : NetLabel ι → Prop
  | .request _ _ => False
  | _ => True

instance : ∀ l : NetLabel ι, Decidable (NoRequest l)
  | .request _ _ => isFalse id
  | .start _ | .stop _ | .register _ _ | .subscribe _ | .take _ | .serverSetups | .serverRestart
  | .server _ => isTrue trivial

theorem printed_subset {x : Str} {c : AppClient (Stamp ι)} {m : Msg ι} (h : m ∈ printed x c) :
    m ∈ c.taken ∧ m.topic = x := by
  obtain ⟨htook, htopic⟩ := List.mem_filter.mp h
  refine ⟨?_, by simpa using htopic⟩
  have hdrop := List.mem_of_mem_tail htook
  exact (List.dropWhile_suffix _).subset hdrop

/-! ## Runs without requests -/

/-- The invariant of the runs without requests. -/
structure Inv (cfg : NetConfig ι) (s : Net ι) : Prop where
  wf : Wf cfg s
  none : ∀ m ∈ s.history, ∀ i, m.tag.origin ≠ .request i

theorem inv_init : Inv cfg (init : Net ι) := ⟨wf_init, by simp [init]⟩

/-- A message of another origin is published. -/
theorem none_snoc {hist : List (Msg ι)} {m' : Msg ι}
    (h : ∀ m ∈ hist, ∀ i, m.tag.origin ≠ .request i) (ho : ∀ i, m'.tag.origin ≠ .request i) :
    ∀ m ∈ hist ++ [m'], ∀ i, m.tag.origin ≠ .request i := by
  intro m hm i
  rcases List.mem_append.mp hm with hm | hm
  · exact h m hm i
  · obtain rfl := List.mem_singleton.mp hm
    exact ho i

theorem Inv.step {s s' : Net ι} {l : NetLabel ι} (h : Inv cfg s) (hl : NoRequest l)
    (hs : Moves cfg s l s') : Inv cfg s' := by
  refine ⟨h.wf.step hs, ?_⟩
  cases hs with
  | register => exact none_snoc h.none (by simp)
  | request => exact hl.elim
  | keySent => exact none_snoc h.none (by simp)
  | reply => exact none_snoc h.none (by simp)
  | _ => exact h.none

theorem Inv.answeredByServer {s : Net ι} (h : Inv cfg s) : AnsweredByServer cfg s where
  printed i m hm := by
    obtain ⟨htaken, htopic⟩ := printed_subset hm
    have hmem := h.wf.taken i m htaken
    have hshape := h.wf.shape m hmem
    unfold Shape at hshape
    split at hshape
    · -- registrations are on the public channel
      exact absurd (htopic.symm.trans hshape.1) (ip_ne_subscibersList cfg i)
    · rename_i j ho
      exact absurd ho (h.none m hmem j)
    · exact Or.inl ‹_›
    · exact Or.inr ‹_›
  noEcho i m hm := by
    rcases List.mem_append.mp hm with hm | hm
    · exact h.none m (h.wf.taken i m hm) i
    · exact h.none m (h.wf.queued _ m hm) i

/-! ## A request comes back -/

/-- The request is in the queue of the client that made it. -/
theorem echo_of_request {s s' : Net ι} {i : ι} {path : Str} (h : Wf cfg s)
    (hs : Moves cfg s (.request i path) s') :
    ∃ m ∈ delivered s' i, m.tag.origin = .request i := by
  cases hs with
  | request hpc =>
      have hforwards : s.broker.forwards (.client i) (.client i) (cfg.ip i) = true := by
        rw [h.forwards_client]
        exact decide_eq_true ⟨Or.inr hpc, rfl⟩
      refine ⟨⟨cfg.ip i, path, ⟨.request i, s.history.length⟩⟩, ?_, rfl⟩
      apply List.mem_append_right
      simp only [Net.publish, queue_publish, hforwards, if_true]
      exact List.mem_append_right _ (by simp)

/-- **Clients hear from the server alone exactly in the runs in which no client requests a
backup.** -/
theorem answeredByServer_iff_noRequest {s : Net ι} {ls : List (NetLabel ι)}
    (hrun : exec (step cfg) init ls = some s) :
    Always (step cfg) (AnsweredByServer cfg) init ls ↔ ∀ i path, .request i path ∉ ls := by
  have hlabels : (∀ i path, .request i path ∉ ls) ↔ ∀ l ∈ ls, NoRequest l := by
    constructor
    · intro h l hl
      cases l with
      | request i path => exact absurd hl (h i path)
      | _ => trivial
    · exact fun h i path hmem => h _ hmem
  rw [hlabels, ← eachStep_labels_iff hrun]
  refine always_iff_eachStep (fun s h => h.answeredByServer)
    (fun s l s' h hl hs => h.step hl (step_moves hs)) ?_ inv_init hrun
  intro s l s' h hs hanswered
  cases l with
  | request i path =>
      obtain ⟨m, hm, ho⟩ := echo_of_request h.wf (step_moves hs)
      exact absurd ho (hanswered.noEcho i m hm)
  | _ => trivial

/-! ## Runs -/

/-- A client registers, gets its key and asks for a backup; the server has not even seen the request
when the client prints it. -/
def askOnce : List (NetLabel Bool) := firstSession ++ [.request true "~/notes".toList, .take true]

/-- The request of `askOnce` as the client gets it back. -/
def ownRequest : Msg Bool := ⟨pair.ip true, "~/notes".toList, ⟨.request true, 2⟩⟩

/-- The client prints its own request as the server's answer. -/
theorem own_request_printed :
    ¬ ∀ (ls : List (NetLabel Bool)) (s : Net Bool), exec (step pair) init ls = some s →
      AnsweredByServer pair s := by
  intro hall
  obtain ⟨s, hs, hprinted⟩ := exists_exec_of_any
    (P := fun s => ownRequest ∈ printed (pair.ip true) (s.clients true))
    (show (exec (step pair) init askOnce).any _ = true by decide +kernel)
  rcases (hall askOnce s hs).printed true ownRequest hprinted with h | h
  · cases h
  · cases h

/-- Without a request the session goes well. -/
theorem firstSession_answered : ∃ s, exec (step pair) init firstSession = some s ∧
    Always (step pair) (AnsweredByServer pair) init firstSession := by
  obtain ⟨s, hs, -⟩ := exists_exec_of_any (P := fun _ : Net Bool => True)
    (show (exec (step pair) init firstSession).any _ = true by decide +kernel)
  refine ⟨s, hs, (answeredByServer_iff_noRequest hs).mpr ?_⟩
  have hnone : ∀ l ∈ firstSession, NoRequest l := by decide
  exact fun i path hmem => hnone _ hmem

end BupApp.Echo
