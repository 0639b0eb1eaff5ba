/-
# BupApp.Network.Gap -- what is lost while a server starts to consume

A server subscribes to the public channel in `serverSetups` and begins to take messages in `working`,
by `start_consuming`.  That call gives the C library an empty function for the messages that arrive
while it makes the queue: a registration that arrives then is received and handed to nobody.

The network with this one more step is what the program with its libraries implements.  A run of it
in which nothing is swallowed is a run of `Net`.
-/
import BupApp.Network.StartUp

set_option linter.unusedSectionVars false

namespace BupApp

open BupApp.Lib.PubSub BupApp.Lib.PubSub.Broker BupApp.Lib.Transition

/-- One step of `Net`, or the loss of the message that is first on its way to the server. -/
inductive GapLabel (ι : Type) where
  | net (l : NetLabel ι)
  | swallow (m : Msg ι)
  deriving DecidableEq, Repr

namespace Net

variable {ι : Type} [DecidableEq ι] {cfg : NetConfig ι}

/-- A server swallows messages before it has taken one. -/
def gapStep (cfg : NetConfig ι) (s : Net ι) : GapLabel ι → Option (Net ι)
  | .net l => s.step cfg l
  | .swallow m =>
      if s.up = true ∧ s.srv.msgPtr = none ∧ (s.broker.queue .server).head? = some m then
        some { s with broker := s.broker.pop .server }
      else none

/-- Everything a step can do. -/
inductive GapMoves (cfg : NetConfig ι) (s : Net ι) : GapLabel ι → Net ι → Prop
  | net {l : NetLabel ι} {s' : Net ι} (h : Moves cfg s l s') : GapMoves cfg s (.net l) s'
  | swallow {m : Msg ι} {rest : List (Msg ι)} (hup : s.up = true) (hptr : s.srv.msgPtr = none)
      (hq : s.broker.queue .server = m :: rest) :
      GapMoves cfg s (.swallow m) { s with broker := s.broker.pop .server }

theorem gapStep_moves {s s' : Net ι} {l : GapLabel ι} (h : s.gapStep cfg l = some s') :
    GapMoves cfg s l s' := by
  cases l with
  | net l => exact .net (step_moves h)
  | swallow m =>
      simp only [gapStep, Option.ite_none_right_eq_some] at h
      obtain ⟨⟨hup, hptr, hhead⟩, h⟩ := h
      obtain ⟨rest, hq⟩ := List.head?_eq_some_iff.mp hhead
      cases h
      exact .swallow hup hptr hq

theorem Wf.gapStep {s s' : Net ι} {l : GapLabel ι} (h : Wf cfg s) (hm : GapMoves cfg s l s') :
    Wf cfg s' := by
  cases hm with
  | net hm => exact h.step hm
  | swallow => exact h.pops .server

theorem wf_of_gapRun {s t : Net ι} {ls : List (GapLabel ι)} (hwf : Wf cfg s)
    (hrun : exec (gapStep cfg) s ls = some t) : Wf cfg t :=
  inv_exec (fun _ _ _ h hs => h.gapStep (gapStep_moves hs)) hwf hrun

/-! ## Runs without a loss -/

/-- What is swallowed in a run. -/
def swallowed : List (GapLabel ι) → List (Msg ι) :=
  List.filterMap fun
    | .swallow m => some m
    | .net _ => none

/-- The steps of the processes. -/
def nets : List (GapLabel ι) → List (NetLabel ι) :=
  List.filterMap fun
    | .net l => some l
    | .swallow _ => none

theorem swallowed_append (ls ls' : List (GapLabel ι)) :
    swallowed (ls ++ ls') = swallowed ls ++ swallowed ls' := List.filterMap_append

theorem nets_append (ls ls' : List (GapLabel ι)) : nets (ls ++ ls') = nets ls ++ nets ls' :=
  List.filterMap_append

@[simp] theorem nets_map_net (ls : List (NetLabel ι)) : nets (ls.map .net) = ls := by
  rw [nets, List.filterMap_map]
  exact List.filterMap_some

@[simp] theorem nets_map_swallow (ms : List (Msg ι)) : nets (ms.map .swallow) = [] := by
  rw [nets, List.filterMap_map]
  exact List.filterMap_none ms

@[simp] theorem swallowed_map_net (ls : List (NetLabel ι)) : swallowed (ls.map .net) = [] := by
  rw [swallowed, List.filterMap_map]
  exact List.filterMap_none ls

@[simp] theorem swallowed_map_swallow (ms : List (Msg ι)) : swallowed (ms.map .swallow) = ms := by
  rw [swallowed, List.filterMap_map]
  exact List.filterMap_some

theorem eq_nets_of_swallowed {ls : List (GapLabel ι)} (h : swallowed ls = []) :
    ls = (nets ls).map .net := by
  induction ls with
  | nil => rfl
  | cons l ls ih =>
      cases l with
      | swallow m => cases h
      | net l => exact congrArg (GapLabel.net l :: ·) (ih h)

theorem exec_nets (s : Net ι) (ls : List (NetLabel ι)) :
    exec (gapStep cfg) s (ls.map .net) = exec (step cfg) s ls := by
  induction ls generalizing s with
  | nil => rfl
  | cons l ls ih =>
      rw [List.map_cons, exec, exec]
      exact congrArg (Option.bind (s.step cfg l)) (funext fun u => ih u)

/-! ## Whom the loss concerns -/

/-- A server that has taken nothing has subscribed to nothing but the public channel. -/
def Young (s : Net ι) : Prop :=
  s.srv.msgPtr = none → ∀ t, s.broker.subs .server t ≠ none → t = subscibersList

theorem young_init : Young (init : Net ι) := by
  intro _ t ht
  simp [init] at ht

theorem Young.congr {s s' : Net ι} (h : Young s) (hptr : s'.srv.msgPtr = none → s.srv.msgPtr = none)
    (hsubs : s'.broker.subs .server = s.broker.subs .server) : Young s' := by
  intro hnone t ht
  rw [hsubs] at ht
  exact h (hptr hnone) t ht

/-- A server keeps what it has taken last. -/
theorem msgPtr_of_acts {τ : Type} {cfg : Config} {s s' : Server τ} {l : Server.Label τ}
    {es : List Effect} (h : Server.Acts cfg s l s' es) (hnn : l.nonNull)
    (hptr : s'.msgPtr = none) : s.msgPtr = none := by
  cases h with
  | consume => cases hptr
  | nullReconnected | nullFailed | nullThrew => exact hnn.elim
  | _ => exact hptr

theorem Young.step {s s' : Net ι} {l : NetLabel ι} (hwf : Wf cfg s) (hm : Moves cfg s l s')
    (h : Young s) : Young s' := by
  cases hm with
  | start hpc => exact h.congr id rfl
  | stop hpc =>
      refine h.congr id (funext fun t => ?_)
      exact (subs_disconnect ..).trans (if_neg (by simp))
  | register hpc => exact h.congr id rfl
  | subscribe hpc =>
      refine h.congr id (funext fun t => ?_)
      exact (subs_subscribe ..).trans (if_neg (by simp))
  | take hq hpc => exact h.congr id rfl
  | request hpc => exact h.congr id rfl
  | serverSetups hup =>
      obtain ⟨-, -, hnone⟩ := hwf.down hup
      -- the one subscription of a server that has taken nothing
      intro _ t ht
      by_contra hne
      refine ht ((subs_subscribe ..).trans ?_)
      rw [if_neg fun heq => hne heq.2]
      exact hnone t
  | serverRestart =>
      intro _ t ht
      refine absurd ((subs_disconnect ..).trans (if_pos rfl)) ht
  | consume => rintro ⟨⟩
  | quiet hup halive hl hnn hacts hes => exact h.congr (msgPtr_of_acts hacts hnn) rfl
  | @srvSubscribe c hup halive hl =>
      -- a server that answers a registration has taken it
      obtain ⟨m, i, hptr, -⟩ := hwf.pending c (by rw [hl]; rfl)
      intro hnone
      rw [show s.srv.msgPtr = none from hnone] at hptr
      cases hptr
  | keySent hup halive hl => exact h.congr id rfl
  | exec hup halive hk => exact h.congr id rfl
  | reply hup halive hk => exact h.congr id rfl

theorem Young.gapStep {s s' : Net ι} {l : GapLabel ι} (h : Young s) (hwf : Wf cfg s)
    (hm : GapMoves cfg s l s') : Young s' := by
  cases hm with
  | net hm => exact h.step hwf hm
  | swallow => exact h.congr id rfl

theorem young_of_gapRun {s : Net ι} {ls : List (GapLabel ι)}
    (hrun : exec (gapStep cfg) init ls = some s) : Young s := by
  refine (inv_exec (I := fun u => Wf cfg u ∧ Young u) ?_ ⟨wf_init, young_init⟩ hrun).2
  rintro u l u' ⟨hwf, hy⟩ hstep
  have hm := gapStep_moves hstep
  exact ⟨hwf.gapStep hm, hy.gapStep hwf hm⟩

/-- The server publishes nothing on the public channel. -/
theorem not_owns_of_gapRun {s : Net ι} {ls : List (GapLabel ι)}
    (hrun : exec (gapStep cfg) init ls = some s) : ¬ s.broker.Owns .server subscibersList := by
  refine (inv_exec (I := fun u => Wf cfg u ∧ ¬ u.broker.Owns .server subscibersList) ?_
    ⟨wf_init, not_owns_empty _ _⟩ hrun).2
  rintro u l u' ⟨hwf, hu⟩ hstep
  have hm := gapStep_moves hstep
  refine ⟨hwf.gapStep hm, ?_⟩
  cases hm with
  | net hm => exact StartUp.not_owns_step hwf hm hu
  | swallow => exact hu

end Net

end BupApp
