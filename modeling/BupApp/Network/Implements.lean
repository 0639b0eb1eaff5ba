/-
# BupApp.Network.Implements -- the network with the libraries implements the network

The program with the library in each process does what `Net` with the gap of `BupApp.Network.Gap`
does: what is in the library's queue counts as still at the broker, and a client whose connection is
lost as connected until it has taken the null.  The two brokers differ as one that has not noticed
yet that connections are gone differs from one that has.
-/
import BupApp.Lib.Lag
import BupApp.Lib.Refinement
import BupApp.Network.Library

set_option linter.unusedSectionVars false

namespace BupApp.LibNet

open BupApp.Lib.Text BupApp.Lib.PubSub BupApp.Lib.Transition
open LostConnection (ArrivedCallback)

variable {ι : Type} [DecidableEq ι]

/-! ## The relation -/

/-- What a process has in its queue, with what is on its way, is its queue at the broker `b`. -/
def Here (s : LibNet ι) (b : Broker (Party ι) Str (Msg ι)) (k : Party ι) : Prop :=
  ∃ ms, s.que k = ms.map some ∧ b.queue k = ms ++ s.net.broker.queue k

/-- A client whose connection is lost has the null behind its messages, unless it was not through
`start_consuming`. -/
def Cut (s : LibNet ι) (b : Broker (Party ι) Str (Msg ι)) (i : ι) : Prop :=
  (∃ ms more, s.que (.client i) = ms.map some ++ [none] ∧ b.queue (.client i) = ms ++ more ∧
    s.consuming (.client i) = true ∧ (s.net.clients i).pc ≠ .stopped) ∨
  (s.consuming (.client i) = false ∧
    ((s.net.clients i).pc = .connected ∨ (s.net.clients i).pc = .registered))

structure Link (s : LibNet ι) (b : Broker (Party ι) Str (Msg ι)) : Prop where
  lags : Broker.Lags s.lost b s.net.broker
  here : ∀ k, s.lost k = false → s.Here b k
  cut : ∀ i, s.lost (.client i) = true → s.Cut b i

/-- `t` is the state of `Net` that `s` amounts to. -/
def Amounts (s : LibNet ι) (t : Net ι) : Prop :=
  t = { s.net with broker := t.broker } ∧ s.Link t.broker

theorem init_amounts : (init : LibNet ι).Amounts Net.init := by
  refine ⟨rfl, Broker.Lags.refl _, ?_, ?_⟩
  · intro k _
    exact ⟨[], rfl, rfl⟩
  · rintro i ⟨⟩

/-- A step that is about one process and its connection. -/
theorem Link.at {s s' : LibNet ι} {b b' : Broker (Party ι) Str (Msg ι)} (h : s.Link b)
    (k : Party ι) (hl : Broker.Lags s'.lost b' s'.net.broker)
    (hq : ∀ j, j ≠ k → s'.que j = s.que j ∧ s'.lost j = s.lost j ∧ s'.callback j = s.callback j ∧
      b'.queue j = b.queue j ∧ s'.net.broker.queue j = s.net.broker.queue j)
    (hc : ∀ i, .client i ≠ k → s'.net.clients i = s.net.clients i)
    (hhere : s'.lost k = false → s'.Here b' k)
    (hcut : ∀ i, k = .client i → s'.lost k = true → s'.Cut b' i) : s'.Link b' := by
  refine ⟨hl, ?_, ?_⟩
  · intro j hj
    by_cases hjk : j = k
    · subst hjk
      exact hhere hj
    · obtain ⟨hque, hlost, -, hb, hn⟩ := hq j hjk
      rw [hlost] at hj
      obtain ⟨ms, hms, hbms⟩ := h.here j hj
      exact ⟨ms, hque.trans hms, by rw [hb, hbms, hn]⟩
  · intro i hi
    by_cases hik : .client i = k
    · subst hik
      exact hcut i rfl hi
    · obtain ⟨hque, hlost, hcall, hb, -⟩ := hq _ hik
      rw [hlost] at hi
      have hcons : s'.consuming (.client i) = s.consuming (.client i) := by
        rw [consuming, hcall]
        rfl
      rcases h.cut i hi with ⟨ms, more, hms, hbms, hthrough, hpc⟩ | ⟨hnot, hpc⟩
      · exact Or.inl ⟨ms, more, hque.trans hms, hb.trans hbms, hcons.trans hthrough,
          by rw [hc i hik]; exact hpc⟩
      · exact Or.inr ⟨hcons.trans hnot, by rw [hc i hik]; exact hpc⟩

/-! ## Calls of the broker -/

section Calls

variable {s : LibNet ι} {b : Broker (Party ι) Str (Msg ι)}

/-- Nothing but the queues at the broker changes, by the same messages at their ends. -/
theorem Link.append {b' : Broker (Party ι) Str (Msg ι)} {n : Net ι} (h : s.Link b)
    (hl : Broker.Lags s.lost b' n.broker) (hc : n.clients = s.net.clients)
    (more : Party ι → List (Msg ι))
    (hq : ∀ k, b'.queue k = b.queue k ++ more k)
    (hn : ∀ k, s.lost k = false → n.broker.queue k = s.net.broker.queue k ++ more k) :
    ({ s with net := n } : LibNet ι).Link b' := by
  refine ⟨hl, ?_, ?_⟩
  · intro k hk
    obtain ⟨ms, hque, hb⟩ := h.here k hk
    exact ⟨ms, hque, by rw [hq, hb, hn k hk, List.append_assoc]⟩
  · intro i hi
    rcases h.cut i hi with ⟨ms, rest, hque, hb, hcons, hpc⟩ | ⟨hcons, hpc⟩
    · refine Or.inl ⟨ms, rest ++ more (.client i), hque, ?_, hcons, ?_⟩
      · rw [hq, hb, List.append_assoc]
      · rw [hc]
        exact hpc
    · refine Or.inr ⟨hcons, ?_⟩
      rw [hc]
      exact hpc

theorem Link.publish (h : s.Link b) {src : Party ι} (hsrc : s.lost src = false) (t p : Str)
    (o : Origin ι) :
    ∃ b', Net.publish { s.net with broker := b } src t p o =
        { s.net.publish src t p o with broker := b' } ∧
      ({ s with net := s.net.publish src t p o } : LibNet ι).Link b' := by
  refine ⟨_, rfl, ?_⟩
  refine h.append (h.lags.publish hsrc t _ _) rfl
    (fun k => if b.forwards src k t then [⟨t, p, ⟨o, s.net.history.length⟩⟩] else []) ?_ ?_
  · intro k
    rw [Broker.queue_publish]
    split
    · rfl
    · rw [List.append_nil]
  · intro k hk
    show (s.net.broker.publish src t (decide (p = [])) _).queue k = _
    rw [Broker.queue_publish, h.lags.forwards hk src t]
    split
    · rfl
    · rw [List.append_nil]

theorem Link.subscribe (cfg : NetConfig ι) (h : s.Link b) {k : Party ι} (hk : s.lost k = false)
    (t : Str) (noLocal : Bool) :
    ∃ b', Net.subscribeTo cfg { s.net with broker := b } k t noLocal =
        { s.net.subscribeTo cfg k t noLocal with broker := b' } ∧
      ({ s with net := s.net.subscribeTo cfg k t noLocal } : LibNet ι).Link b' := by
  refine ⟨_, rfl, ?_⟩
  refine h.append (h.lags.subscribe hk cfg.resendOwn t ⟨noLocal⟩) rfl
    (fun j => if j = k then b.offered cfg.resendOwn k t ⟨noLocal⟩ else []) ?_ ?_
  · intro j
    by_cases hj : j = k
    · subst hj
      rw [Broker.queue_subscribe_self, if_pos rfl]
    · rw [Broker.queue_subscribe_of_ne hj, if_neg hj, List.append_nil]
  · intro j _
    show (s.net.broker.subscribe cfg.resendOwn k t ⟨noLocal⟩).queue j = _
    by_cases hj : j = k
    · subst hj
      rw [Broker.queue_subscribe_self, if_pos rfl, h.lags.offered hk]
    · rw [Broker.queue_subscribe_of_ne hj, if_neg hj, List.append_nil]

theorem Link.effect (cfg : NetConfig ι) (h : s.Link b) (hs : s.lost .server = false) (e : Effect) :
    ∃ b', Net.effect cfg { s.net with broker := b } e =
        { s.net.effect cfg e with broker := b' } ∧
      ({ s with net := s.net.effect cfg e } : LibNet ι).Link b' := by
  cases e with
  | setWill t => exact ⟨b, rfl, h⟩
  | subscribe t => exact h.subscribe cfg hs t true
  | publishKey t p =>
      obtain ⟨b', heq, hlink⟩ := h.publish hs t p .key
      refine ⟨b', ?_, hlink.lags, hlink.here, hlink.cut⟩
      simp only [Net.effect, heq]
  | system cmnd => exact ⟨b, rfl, h⟩
  | execCmnd k t p cmnd => exact ⟨b, rfl, h.lags, h.here, h.cut⟩
  | reply k t p => exact h.publish hs t p .reply

theorem Link.perform (cfg : NetConfig ι) (h : s.Link b) (hs : s.lost .server = false)
    (p : Server (Stamp ι) × List Effect) :
    ∃ b', Net.perform cfg { s.net with broker := b } p =
        { s.net.perform cfg p with broker := b' } ∧
      ({ s with net := s.net.perform cfg p } : LibNet ι).Link b' := by
  obtain ⟨srv, es⟩ := p
  have hfold : ∀ (es : List Effect) (n : Net ι) (b : Broker (Party ι) Str (Msg ι)),
      ({ s with net := n } : LibNet ι).Link b →
      ∃ b', es.foldl (Net.effect cfg) { n with broker := b } =
          { es.foldl (Net.effect cfg) n with broker := b' } ∧
        ({ s with net := es.foldl (Net.effect cfg) n } : LibNet ι).Link b' := by
    intro es
    induction es with
    | nil =>
        intro n b hn
        exact ⟨b, rfl, hn⟩
    | cons e es ih =>
        intro n b hn
        obtain ⟨b₁, heq, hlink⟩ := hn.effect cfg hs e
        obtain ⟨b₂, heq₂, hlink₂⟩ := ih (n.effect cfg e) b₁ hlink
        refine ⟨b₂, ?_, hlink₂⟩
        rw [List.foldl_cons, List.foldl_cons, ← heq₂]
        exact congrArg (List.foldl (Net.effect cfg) · es) heq
  exact hfold es { s.net with srv := srv } b ⟨h.lags, h.here, h.cut⟩

end Calls

/-! ## Each step -/

section Steps

variable {cfg : NetConfig ι} {s s' : LibNet ι} {b : Broker (Party ι) Str (Msg ι)}

/-- Nothing but a callback changes. -/
theorem Link.callbacks (h : s.Link b) (k : Party ι) (hk : s.lost k = false) (c : ArrivedCallback) :
    (s.setCallback k c).Link b := by
  refine h.at k h.lags ?_ (fun _ _ => rfl) (h.here k) ?_
  · intro j hj
    exact ⟨rfl, rfl, Function.update_of_ne hj .., rfl, rfl⟩
  · intro i _ hlost
    rw [show s.lost k = true from hlost] at hk
    cases hk

/-- A message leaves the connection for the queue of its process. -/
theorem Link.arrives (h : s.Link b) {k : Party ι} (hk : s.lost k = false) {m : Msg ι}
    {rest : List (Msg ι)} (hq : s.net.broker.queue k = m :: rest) :
    ({ s.setQue k (s.que k ++ [some m]) with
      net := { s.net with broker := s.net.broker.pop k } } : LibNet ι).Link b := by
  refine h.at k ?_ ?_ (fun _ _ => rfl) ?_ ?_
  · refine h.lags.queues rfl rfl rfl rfl fun j hj => ?_
    refine Broker.queue_pop_of_ne ?_
    rintro rfl
    rw [hk] at hj
    cases hj
  · intro j hj
    exact ⟨Function.update_of_ne hj .., rfl, rfl, rfl, Broker.queue_pop_of_ne hj⟩
  · intro hlost
    obtain ⟨ms, hque, hb⟩ := h.here k hlost
    refine ⟨ms ++ [m], ?_, ?_⟩
    · simp [setQue, hque]
    · rw [hb, hq, Broker.queue_pop_self hq]
      simp
  · intro i _ hlost
    rw [show s.lost k = true from hlost] at hk
    cases hk

/-- A message is swallowed on its way into an empty queue. -/
theorem Link.swallowed (h : s.Link b) {k : Party ι} (hk : s.lost k = false) (hnone : s.que k = [])
    {m : Msg ι} {rest : List (Msg ι)} (hq : s.net.broker.queue k = m :: rest) :
    b.queue k = m :: rest ∧
      ({ s with net := { s.net with broker := s.net.broker.pop k } } : LibNet ι).Link (b.pop k) := by
  obtain ⟨ms, hque, hb⟩ := h.here k hk
  rw [hnone] at hque
  obtain rfl := List.map_eq_nil_iff.mp hque.symm
  rw [List.nil_append, hq] at hb
  refine ⟨hb, h.at k ?_ ?_ (fun _ _ => rfl) ?_ ?_⟩
  · refine h.lags.queues rfl rfl rfl rfl fun j hj => ?_
    refine Broker.queue_pop_of_ne ?_
    rintro rfl
    rw [hk] at hj
    cases hj
  · intro j hj
    exact ⟨rfl, rfl, rfl, Broker.queue_pop_of_ne hj, Broker.queue_pop_of_ne hj⟩
  · intro _
    exact ⟨[], hnone, by rw [Broker.queue_pop_self hb, Broker.queue_pop_self hq, List.nil_append]⟩
  · intro i _ hlost
    rw [show s.lost k = true from hlost] at hk
    cases hk

/-- A connection is lost.  A client that is through `start_consuming` gets the null behind what has
arrived. -/
theorem Link.lose (h : s.Link b) (hstarts : s.Starts) {k : Party ι} (hlost : s.lost k = false)
    (hk : s.connected k = true) :
    ({ s.setQue k (s.queLost k) with
      net := { s.net with broker := s.net.broker.disconnect k }
      lost := Function.update s.lost k true } : LibNet ι).Link b := by
  refine h.at k (h.lags.lose k) ?_ (fun _ _ => rfl) ?_ ?_
  · intro j hj
    exact ⟨Function.update_of_ne hj .., Function.update_of_ne hj .., rfl, rfl,
      Broker.queue_disconnect_of_ne hj⟩
  · intro hlost'
    simp at hlost'
  · rintro i rfl _
    obtain ⟨ms, hque, hb⟩ := h.here _ hlost
    have hrun : (s.net.clients i).pc ≠ .stopped := by simpa [connected] using hk
    by_cases hcons : s.consuming (.client i) = true
    · refine Or.inl ⟨ms, _, ?_, hb, hcons, hrun⟩
      simp [setQue, queLost, hcons, hque]
    · refine Or.inr ⟨Bool.eq_false_iff.mpr hcons, ?_⟩
      show (s.net.clients i).pc = .connected ∨ (s.net.clients i).pc = .registered
      cases hpc : (s.net.clients i).pc with
      | connected => exact Or.inl rfl
      | registered => exact Or.inr rfl
      | stopped => exact absurd hpc hrun
      | waiting => exact absurd (hstarts.through (Or.inl hpc)) hcons
      | working => exact absurd (hstarts.through (Or.inr hpc)) hcons

/-- A client's process changes, and nothing of its connection. -/
theorem Link.setClient (h : s.Link b) (i : ι) (c : AppClient (Stamp ι))
    (hcut : s.lost (.client i) = true → c.pc ≠ .stopped ∧ s.consuming (.client i) = true) :
    ({ s with net := s.net.setClient i c } : LibNet ι).Link b := by
  refine h.at (.client i) h.lags (fun j hj => ⟨rfl, rfl, rfl, rfl, rfl⟩) ?_ (h.here _) ?_
  · intro j hj
    exact Function.update_of_ne (fun hji => hj (by rw [hji])) ..
  · rintro _ ⟨⟩ hlost
    obtain ⟨hpc, hcons⟩ := hcut hlost
    rcases h.cut i hlost with ⟨ms, more, hque, hb, -⟩ | ⟨hnot, -⟩
    · exact Or.inl ⟨ms, more, hque, hb, hcons, by simpa [Net.setClient] using hpc⟩
    · rw [hcons] at hnot
      cases hnot

/-- What a client that waits for messages finds at the head of its queue. -/
theorem Link.head (h : s.Link b) {i : ι}
    (hpc : (s.net.clients i).pc = .waiting ∨ (s.net.clients i).pc = .working)
    {x : Option (Msg ι)} {rest : List (Option (Msg ι))} (hq : s.que (.client i) = x :: rest) :
    (∃ m ms tl, x = some m ∧ b.queue (.client i) = m :: ms ++ tl ∧
      ((s.lost (.client i) = false ∧ rest = ms.map some ∧ tl = s.net.broker.queue (.client i)) ∨
        (s.lost (.client i) = true ∧ rest = ms.map some ++ [none]))) ∨
    (x = none ∧ s.lost (.client i) = true) := by
  cases hlost : s.lost (.client i) with
  | false =>
      obtain ⟨ms, hque, hb⟩ := h.here _ hlost
      rw [hq] at hque
      obtain ⟨m, ms', rfl, rfl, hrest⟩ := List.map_eq_cons_iff.mp hque.symm
      exact Or.inl ⟨m, ms', _, rfl, hb, Or.inl ⟨rfl, hrest.symm, rfl⟩⟩
  | true =>
      rcases h.cut i hlost with ⟨ms, more, hque, hb, -⟩ | ⟨-, hearly⟩
      · rw [hq] at hque
        cases ms with
        | nil => exact Or.inr ⟨(List.cons.inj hque).1, rfl⟩
        | cons m ms' =>
            obtain ⟨rfl, rfl⟩ := List.cons.inj hque
            exact Or.inl ⟨m, ms', more, rfl, hb, Or.inr ⟨rfl, rfl⟩⟩
      · rcases hpc with hpc | hpc <;> simp [hpc] at hearly

/-- A client whose connection is lost comes to an end. -/
theorem Link.cut_off (h : s.Link b) {i : ι} (hne : (s.net.clients i).pc ≠ .stopped)
    (hlost : s.lost (.client i) = true) :
    ∃ t, exec (Net.step cfg) { s.net with broker := b } [.stop i] = some t ∧
      (s.ended i).Amounts t := by
  refine ⟨{ s.net.setClient i { s.net.clients i with pc := .stopped } with
    broker := b.disconnect (.client i) }, ?_, rfl, ?_⟩
  · refine exec_cons_some.mpr ⟨_, ?_, rfl⟩
    simp only [Net.step, if_pos hne]
    rfl
  · refine h.at (.client i) (h.lags.notice hlost) ?_ ?_ ?_ ?_
    · intro j hj
      exact ⟨Function.update_of_ne hj .., Function.update_of_ne hj .., Function.update_of_ne hj ..,
        Broker.queue_disconnect_of_ne hj, rfl⟩
    · intro j hj
      exact Function.update_of_ne (fun hji => hj (by rw [hji])) ..
    · intro _
      refine ⟨[], by simp [ended, gone, setQue, setCallback], ?_⟩
      rw [Broker.queue_disconnect_self]
      exact (h.lags.gone _ hlost).2.symm
    · rintro _ ⟨⟩ hlost'
      simp [ended, gone] at hlost'

/-- Or to nothing any more. -/
theorem Link.comes_to_nothing (h : s.Link b) {i : ι} (hne : (s.net.clients i).pc ≠ .stopped)
    (hlost : s.lost (.client i) = true) :
    ∃ t, exec (Net.step cfg) { s.net with broker := b } [.stop i] = some t ∧
      (s.goesIdle i).Amounts t := by
  obtain ⟨t, ht, hsame, hlink⟩ : ∃ t, exec (Net.step cfg) { s.net with broker := b } [.stop i] =
      some t ∧ (s.ended i).Amounts t := h.cut_off hne hlost
  exact ⟨t, ht, hsame, hlink.lags, hlink.here, hlink.cut⟩

theorem amounts_of {b' : Broker (Party ι) Str (Msg ι)} {l : NetLabel ι} (hlink : s'.Link b')
    (hstep : Net.step cfg { s.net with broker := b } l = some { s'.net with broker := b' }) :
    ∃ t, exec (Net.step cfg) { s.net with broker := b } [l] = some t ∧ s'.Amounts t :=
  ⟨{ s'.net with broker := b' }, exec_cons_some.mpr ⟨_, hstep, rfl⟩, rfl, hlink⟩

/-- A client takes the first message of its queue. -/
theorem Link.take (cfg : NetConfig ι) (h : s.Link b) {i : ι}
    (hpc : Net.Subscribed (s.net.clients i).pc) {m : Msg ι} {rest : List (Option (Msg ι))}
    (hq : s.que (.client i) = some m :: rest) :
    (b.queue (.client i)).head? = some m ∧
      ({ s.setQue (.client i) rest with
        net := s.net.setClient i ((s.net.clients i).take (cfg.ip i) m) } : LibNet ι).Link
          (b.pop (.client i)) := by
  rcases h.head hpc hq with ⟨_, ms, tl, ⟨⟩, hb, hrest⟩ | ⟨⟨⟩, -⟩
  -- the null of a client that is cut off stays behind the messages
  have hpop : (b.pop (.client i)).queue (.client i) = ms ++ tl := Broker.queue_pop_self hb
  refine ⟨by rw [hb]; rfl, ?_⟩
  refine h.at (.client i) (h.lags.queues rfl rfl rfl rfl fun _ _ => rfl) ?_ ?_ ?_ ?_
  · intro j hj
    exact ⟨Function.update_of_ne hj .., rfl, rfl, Broker.queue_pop_of_ne hj, rfl⟩
  · intro j hj
    exact Function.update_of_ne (fun hji => hj (by rw [hji])) ..
  · intro hlost
    rcases hrest with ⟨-, rfl, rfl⟩ | ⟨hlost', -⟩
    · exact ⟨ms, by simp [setQue], hpop⟩
    · rw [show s.lost (.client i) = false from hlost] at hlost'
      cases hlost'
  · rintro _ ⟨⟩ hlost
    rcases hrest with ⟨hlost', -, -⟩ | ⟨-, rfl⟩
    · rw [show s.lost (.client i) = true from hlost] at hlost'
      cases hlost'
    · have hsub : Net.Subscribed ((s.net.clients i).take (cfg.ip i) m).pc :=
        Net.subscribed_take _ m hpc
      refine Or.inl ⟨ms, tl, by simp [setQue], hpop, ?_, ?_⟩
      · rcases h.cut i hlost with ⟨-, -, -, -, hcons, -⟩ | ⟨-, hearly⟩
        · exact hcons
        · rcases hpc with hpc | hpc <;> simp [hpc] at hearly
      · rcases hsub with hsub | hsub <;> simp [Net.setClient, hsub]

theorem take_amounts (h : s.Link b) {i : ι} (hpc : Net.Subscribed (s.net.clients i).pc)
    {m : Msg ι} {rest : List (Option (Msg ι))} (hq : s.que (.client i) = some m :: rest) :
    ∃ t, exec (Net.step cfg) { s.net with broker := b } [.take i] = some t ∧
      ({ s.setQue (.client i) rest with
        net := s.net.setClient i ((s.net.clients i).take (cfg.ip i) m) } : LibNet ι).Amounts t := by
  obtain ⟨hhead, hlink⟩ := h.take cfg hpc hq
  obtain ⟨tl, hb⟩ := List.head?_eq_some_iff.mp hhead
  refine amounts_of hlink ?_
  simp only [Net.step, hb]
  rw [if_pos (by exact hpc)]
  rfl

/-- A step of the server process that takes nothing from its queue. -/
theorem acts_amounts (h : s.Link b) (hserving : s.serving) {l : Server.Label (Stamp ι)}
    (hl : ∀ m, l ≠ .consume m) (hnn : l.nonNull) {p : Server (Stamp ι) × List Effect}
    (hact : s.net.srv.act cfg.server l = some p) :
    ∃ t, exec (Net.step cfg) { s.net with broker := b } [.server l] = some t ∧
      ({ s with net := s.net.perform cfg p } : LibNet ι).Amounts t := by
  obtain ⟨b', heq, hlink⟩ := h.perform cfg hserving.2.1 p
  refine amounts_of hlink ?_
  have hstep : Net.step cfg { s.net with broker := b } (.server l) =
      (s.net.srv.act cfg.server l).map (Net.perform cfg { s.net with broker := b }) := by
    simp only [Net.step, if_pos hserving.1]
    cases l with
    | consume m => exact absurd rfl (hl m)
    | consumeNull r => exact hnn.elim
    | _ => rfl
  rw [hstep, hact, Option.map_some, heq]

/-- The server takes a message. -/
theorem consume_amounts (h : s.Link b) (hserving : s.serving) {m : Msg ι}
    {rest : List (Option (Msg ι))} (hq : s.que .server = some m :: rest)
    {p : Server (Stamp ι) × List Effect} (hact : s.net.srv.act cfg.server (.consume m) = some p) :
    ∃ t, exec (Net.step cfg) { s.net with broker := b } [.server (.consume m)] = some t ∧
      ({ s.setQue .server rest with net := s.net.perform cfg p } : LibNet ι).Amounts t := by
  obtain ⟨ms, hque, hb⟩ := h.here .server hserving.2.1
  rw [hq] at hque
  obtain ⟨m, ms, rfl, ⟨⟩, rfl⟩ := List.map_eq_cons_iff.mp hque.symm
  have hpop : (b.pop .server).queue .server = ms ++ s.net.broker.queue .server :=
    Broker.queue_pop_self hb
  have hlink : (s.setQue .server (ms.map some)).Link (b.pop .server) := by
    refine h.at .server (h.lags.queues rfl rfl rfl rfl fun _ _ => rfl) ?_ (fun _ _ => rfl) ?_ ?_
    · intro j hj
      exact ⟨Function.update_of_ne hj .., rfl, rfl, Broker.queue_pop_of_ne hj, rfl⟩
    · intro _
      exact ⟨ms, by simp [setQue], hpop⟩
    · rintro i ⟨⟩
  obtain ⟨b', heq, hlink'⟩ := hlink.perform cfg hserving.2.1 p
  refine amounts_of hlink' ?_
  have hstep : Net.step cfg { s.net with broker := b } (.server (.consume m)) =
      (s.net.srv.act cfg.server (.consume m)).map
        (Net.perform cfg { s.net with broker := b.pop .server }) := by
    simp only [Net.step, if_pos hserving.1, Net.serverStep, hb, List.cons_append,
      List.head?_cons, if_true]
  rw [hstep, hact, Option.map_some]
  exact congrArg some heq

omit [DecidableEq ι] in
/-- The server's queue holds no null while its connection lasts. -/
theorem Link.no_null (h : s.Link b) (hlost : s.lost .server = false)
    {rest : List (Option (Msg ι))} : s.que .server ≠ none :: rest := by
  obtain ⟨ms, hque, -⟩ := h.here .server hlost
  rw [hque]
  cases ms <;> simp

/-- The process of `k` is stopped or replaced, and the client `i`, if `k` is one, changes. -/
theorem Link.ends (h : s.Link b) (k : Party ι) {n : Net ι}
    (hn : n.broker = s.net.broker.disconnect k)
    (hc : ∀ i, .client i ≠ k → n.clients i = s.net.clients i) :
    ({ s with net := n }.gone k : LibNet ι).Link (b.disconnect k) := by
  refine h.at k ?_ ?_ hc ?_ ?_
  · have hlags := h.lags.disconnect k
    rw [← hn] at hlags
    exact hlags
  · intro j hj
    refine ⟨Function.update_of_ne hj .., Function.update_of_ne hj .., Function.update_of_ne hj ..,
      Broker.queue_disconnect_of_ne hj, ?_⟩
    show n.broker.queue j = _
    rw [hn, Broker.queue_disconnect_of_ne hj]
  · intro _
    refine ⟨[], by simp [gone, setQue, setCallback], ?_⟩
    show (b.disconnect k).queue k = [] ++ n.broker.queue k
    rw [hn, Broker.queue_disconnect_self, Broker.queue_disconnect_self, List.append_nil]
  · rintro i rfl hlost
    simp [gone] at hlost

/-- A client that is not connected goes on as if it had subscribed, when it will be told. -/
theorem subscribe_lost (h : s.Link b) {i : ι} (hpc : (s.net.clients i).pc = .registered)
    (hlost : s.lost (.client i) = true) (hcons : s.consuming (.client i) = true) :
    ∃ t, exec (Net.step cfg) { s.net with broker := b } [.subscribe i] = some t ∧
      (s.setClientPc i .waiting).Amounts t := by
  refine ⟨{ s.net.setClient i { s.net.clients i with pc := .waiting } with
    broker := b.subscribe cfg.resendOwn (.client i) (cfg.ip i) ⟨false⟩ }, ?_, rfl, ?_⟩
  · refine exec_cons_some.mpr ⟨_, ?_, rfl⟩
    simp only [Net.step, if_pos hpc]
    rfl
  · refine h.at (.client i) (h.lags.subscribe_left hlost _ _ _) ?_ ?_ ?_ ?_
    · intro j hj
      exact ⟨rfl, rfl, rfl, Broker.queue_subscribe_of_ne hj _ _ _, rfl⟩
    · intro j hj
      exact Function.update_of_ne (fun hji => hj (by rw [hji])) ..
    · intro hlost'
      rw [show s.lost (.client i) = false from hlost'] at hlost
      cases hlost
    · rintro _ ⟨⟩ _
      rcases h.cut i hlost with ⟨ms, more, hque, hb, -⟩ | ⟨hnot, -⟩
      · refine Or.inl ⟨ms, more ++ b.offered cfg.resendOwn (.client i) (cfg.ip i) ⟨false⟩, hque,
          ?_, hcons, by simp [setClientPc, Net.setClient]⟩
        rw [Broker.queue_subscribe_self, hb, List.append_assoc]
      · rw [hcons] at hnot
        cases hnot

/-- A client that is not running has no connection to lose. -/
theorem Link.not_lost_of_stopped (h : s.Link b) {i : ι} (hpc : (s.net.clients i).pc = .stopped) :
    s.lost (.client i) ≠ true := by
  intro hlost
  rcases h.cut i hlost with ⟨ms, more, -, -, -, hne⟩ | ⟨-, hearly⟩
  · exact hne hpc
  · simp [hpc] at hearly

/-- A client or the server acts on a connection that lasts, or a client connects. -/
theorem online_amounts (h : s.Link b) {l : NetLabel ι} (hl : s.goesOn l) {n : Net ι}
    (hn : s.net.step cfg l = some n) :
    ∃ t, exec (Net.step cfg) { s.net with broker := b } [l] = some t ∧
      ({ s with net := n } : LibNet ι).Amounts t := by
  -- the process changes, then its call goes to a broker that agrees about the connection
  have hclient : ∀ i c, s.lost (.client i) = false →
      ({ s with net := s.net.setClient i c } : LibNet ι).Link b := by
    intro i c hk
    refine h.setClient i c fun hlost => ?_
    rw [hk] at hlost
    cases hlost
  cases l with
  | serverSetups =>
      simp only [Net.step, Option.ite_none_right_eq_some] at hn
      obtain ⟨hup, hn⟩ := hn
      cases hn
      have hsets : ({ s with net := { s.net with up := true } } : LibNet ι).Link b :=
        ⟨h.lags, h.here, h.cut⟩
      obtain ⟨b', heq, hlink⟩ := hsets.subscribe cfg hl subscibersList true
      refine amounts_of hlink ?_
      simp only [Net.step, if_pos hup]
      exact congrArg some heq
  | start i =>
      simp only [Net.step, Option.ite_none_right_eq_some] at hn
      obtain ⟨hpc, hn⟩ := hn
      cases hn
      refine amounts_of (h.setClient i _ fun hlost => absurd hlost (h.not_lost_of_stopped hpc)) ?_
      simp only [Net.step, if_pos hpc]
      rfl
  | register i info =>
      simp only [Net.step, Option.ite_none_right_eq_some] at hn
      obtain ⟨hpc, hn⟩ := hn
      cases hn
      obtain ⟨b', heq, hlink⟩ := (hclient i _ hl).publish hl subscibersList
        (subscribeMsg (cfg.ip i) info) (.registration i)
      refine amounts_of hlink ?_
      simp only [Net.step, if_pos hpc]
      exact congrArg some heq
  | subscribe i =>
      simp only [Net.step, Option.ite_none_right_eq_some] at hn
      obtain ⟨hpc, hn⟩ := hn
      cases hn
      obtain ⟨b', heq, hlink⟩ := (hclient i _ hl.1).subscribe cfg hl.1 (cfg.ip i) false
      refine amounts_of hlink ?_
      simp only [Net.step, if_pos hpc]
      exact congrArg some heq
  | request i path =>
      simp only [Net.step, Option.ite_none_right_eq_some] at hn
      obtain ⟨hpc, hn⟩ := hn
      cases hn
      obtain ⟨b', heq, hlink⟩ := h.publish hl.2 (cfg.ip i) path (.request i)
      refine amounts_of hlink ?_
      simp only [Net.step, if_pos hpc]
      exact congrArg some heq
  | stop | take | serverRestart | server => exact hl.elim

/-- A process is stopped or replaced. -/
theorem restart_amounts (h : s.Link b) {l : NetLabel ι} {k : Party ι} (hk : s.ends l = some k)
    {n : Net ι} (hn : s.net.step cfg l = some n) :
    ∃ t, exec (Net.step cfg) { s.net with broker := b } [l] = some t ∧
      ({ s with net := n }.gone k : LibNet ι).Amounts t := by
  rcases ends_cases hk with ⟨rfl, rfl⟩ | ⟨i, rfl, rfl, -⟩
  · cases hn
    exact amounts_of (h.ends .server rfl fun _ _ => rfl) rfl
  · simp only [Net.step, Option.ite_none_right_eq_some] at hn
    obtain ⟨hpc, hn⟩ := hn
    cases hn
    refine amounts_of (h.ends (.client i) rfl ?_) ?_
    · intro j hj
      exact Function.update_of_ne (fun hji => hj (by rw [hji])) ..
    · simp only [Net.step, if_pos hpc]
      rfl

theorem netObs_of_goesOn {l : NetLabel ι} (hl : s.goesOn l) : s.netObs l = [l] := by
  cases l with
  | register i info => exact if_neg (by simp [show s.lost (.client i) = false from hl])
  | subscribe i => exact if_neg (by simp [hl.1])
  | request i path => exact if_neg (by simp [hl.1, hl.2])
  | serverSetups | start => rfl
  | stop | take | serverRestart | server => exact hl.elim

theorem netObs_of_ends {l : NetLabel ι} {k : Party ι} (hk : s.ends l = some k) :
    s.netObs l = [l] := by
  rcases ends_cases hk with ⟨rfl, -⟩ | ⟨i, rfl, -, hidle⟩
  · rfl
  · exact if_neg (by simp [hidle])

end Steps

/-! ## The refinement -/

/-- `t` is the state of `Net` that `s` amounts to, and both are as in a run. -/
structure RunsAs (cfg : NetConfig ι) (s : LibNet ι) (t : Net ι) : Prop where
  amounts : s.Amounts t
  starts : s.Starts
  wf : Net.Wf cfg t

theorem init_runsAs {cfg : NetConfig ι} : RunsAs cfg init Net.init :=
  ⟨init_amounts, init_starts, Net.wf_init⟩

section Runs

variable {cfg : NetConfig ι} {s s' : LibNet ι} {t : Net ι}

theorem RunsAs.wf_of_exec (h : RunsAs cfg s t) {ls : List (GapLabel ι)} {t' : Net ι}
    (ht : exec (Net.gapStep cfg) t ls = some t') : Net.Wf cfg t' := Net.wf_of_gapRun h.wf ht

/-- What a step of a process amounts to in `Net`, it amounts to with the gap. -/
theorem process_amounts (h : s.Amounts t) {l : NetLabel ι} {ls : List (NetLabel ι)}
    (hobs : s.netObs l = ls)
    (hex : ∃ t', exec (Net.step cfg) { s.net with broker := t.broker } ls = some t' ∧
      s'.Amounts t') :
    ∃ t', exec (Net.gapStep cfg) t (s.obs (.process l)) = some t' ∧ s'.Amounts t' := by
  obtain ⟨t', ht', h'⟩ := hex
  refine ⟨t', ?_, h'⟩
  rw [obs, hobs, Net.exec_nets, h.1]
  exact ht'

/-- A message is swallowed.  It was on its way to a server that has taken nothing yet. -/
theorem swallow_amounts (h : RunsAs cfg s t) {k : Party ι} {m : Msg ι} {rest : List (Msg ι)}
    (hlost : s.lost k = false) (hrun : s.running k = true) (hcall : s.callback k = .ignore)
    (hq : s.net.broker.queue k = m :: rest) :
    ∃ t', exec (Net.gapStep cfg) t (s.obs (.deliver k)) = some t' ∧
      ({ s with net := { s.net with broker := s.net.broker.pop k } } : LibNet ι).Amounts t' := by
  have hcons : s.consuming k = false := by simp [consuming, hcall]
  have hobs : s.obs (.deliver k) = [.swallow m] := by simp [obs, swallows, hcall, hq]
  rw [hobs]
  have hlink := h.amounts.2
  cases k with
  | server =>
      obtain ⟨hsrv, hque⟩ := h.starts.server hcons
      obtain ⟨hb, hlink'⟩ := hlink.swallowed hlost hque hq
      have hup : t.up = true ∧ t.srv = Server.start := by
        rw [h.amounts.1]
        exact ⟨by simpa [running, hsrv, Server.start] using hrun, hsrv⟩
      refine ⟨{ t with broker := t.broker.pop .server }, ?_, ?_, hlink'⟩
      · refine exec_cons_some.mpr ⟨_, ?_, rfl⟩
        rw [Net.gapStep, if_pos ⟨hup.1, by rw [hup.2]; rfl, by rw [hb]; rfl⟩]
      · rw [h.amounts.1]
  | client i =>
      -- a client subscribes behind `start_consuming`
      exfalso
      have hns : ¬ Net.Subscribed (t.clients i).pc := by
        intro hsub
        rw [h.amounts.1] at hsub
        rw [h.starts.through hsub] at hcons
        cases hcons
      obtain ⟨ms, -, hb⟩ := hlink.here _ hlost
      rw [h.wf.unsubscribed i hns, hq] at hb
      simp at hb

/-- **The step lemma.**  Every step of the network with the libraries is matched by the step it
amounts to, or by none. -/
theorem moves_amounts (h : RunsAs cfg s t) {l : LibLabel ι} (hm : Moves cfg s l s') :
    ∃ t', exec (Net.gapStep cfg) t (s.obs l) = some t' ∧ s'.Amounts t' := by
  have hsame : t = { s.net with broker := t.broker } := h.amounts.1
  have hlink := h.amounts.2
  have hnone : s'.Amounts t →
      ∃ t', exec (Net.step cfg) { s.net with broker := t.broker } [] = some t' ∧ s'.Amounts t' :=
    fun h' => ⟨t, congrArg some hsame.symm, h'⟩
  cases hm with
  | disable hlost => exact ⟨t, rfl, hsame, hlink.callbacks _ hlost _⟩
  | enable hlost => exact ⟨t, rfl, hsame, hlink.callbacks _ hlost _⟩
  | swallow hlost hrun hcall hq => exact swallow_amounts h hlost hrun hcall hq
  | @arrive k m rest hlost hrun hcons hq =>
      have hobs : s.obs (.deliver k) = [] := by
        have hcall : s.callback k = .onMessageArrived := of_decide_eq_true hcons
        simp [obs, swallows, hcall]
      rw [hobs]
      exact ⟨t, rfl, hsame, hlink.arrives hlost hq⟩
  | lose hlost hk => exact ⟨t, rfl, hsame, hlink.lose h.starts hlost hk⟩
  | online hl hn =>
      exact process_amounts h.amounts (netObs_of_goesOn hl) (online_amounts hlink hl hn)
  | restart hk hn =>
      exact process_amounts h.amounts (netObs_of_ends hk) (restart_amounts hlink hk hn)
  | stopIdle hi =>
      -- the process that ends has been cut off before
      exact process_amounts h.amounts (if_pos hi) (hnone ⟨hsame, hlink.lags, hlink.here, hlink.cut⟩)
  | registerLost hlost hpc =>
      exact process_amounts h.amounts (if_pos hlost) (hlink.cut_off (by simp [hpc]) hlost)
  | subscribeLost hlost hpc hcons =>
      exact process_amounts h.amounts (if_neg (by simp [hcons]))
        (subscribe_lost hlink hpc hlost hcons)
  | subscribeDeaf hlost hpc hcons =>
      exact process_amounts h.amounts (if_pos (by simp [hlost, hcons]))
        (hlink.comes_to_nothing (by simp [hpc]) hlost)
  | requestLost hi => exact process_amounts h.amounts (if_pos hi) (hnone h.amounts)
  | @take i m rest hpc hq =>
      have hobs : s.netObs (.take i) = [.take i] := by simp only [netObs, hq]
      exact process_amounts h.amounts hobs (take_amounts hlink hpc hq)
  | @takeNull i rest hpc hq =>
      have hobs : s.netObs (.take i) = [.stop i] := by simp only [netObs, hq]
      -- a null is in the queue only when the connection is lost
      have hne : (s.net.clients i).pc ≠ .stopped := by
        rcases hpc with hpc | hpc <;> simp [hpc]
      rcases hlink.head hpc hq with ⟨m, ms, tl, ⟨⟩, -, -⟩ | ⟨-, hlost⟩
      exact process_amounts h.amounts hobs (hlink.comes_to_nothing hne hlost)
  | consume hserving hq hact =>
      exact process_amounts h.amounts rfl (consume_amounts hlink hserving hq hact)
  | consumeNull hserving hq => exact absurd hq (hlink.no_null hserving.2.1)
  | acts hserving hl hnn hact =>
      exact process_amounts h.amounts rfl (acts_amounts hlink hserving hl hnn hact)

theorem simulates_net (cfg : NetConfig ι) :
    Simulates (LibNet.step cfg) (Net.gapStep cfg) obs (RunsAs cfg) := by
  constructor
  intro s t l s' h hs
  obtain ⟨t', ht', hamounts⟩ := moves_amounts h (step_moves hs)
  exact ⟨t', ht', hamounts, starts_step h.starts hs, h.wf_of_exec ht'⟩

theorem swallowed_obs (s : LibNet ι) (l : LibLabel ι) : Net.swallowed (s.obs l) = s.swallows l := by
  cases l with
  | process l => exact Net.swallowed_map_net _
  | _ => exact Net.swallowed_map_swallow _

/-- What is swallowed in a run. -/
theorem swallowed_observed {ls : List (LibLabel ι)} (h : exec (LibNet.step cfg) s ls = some s') :
    Net.swallowed (observed (LibNet.step cfg) obs s ls) =
      observed (LibNet.step cfg) swallows s ls := by
  induction ls generalizing s with
  | nil => rfl
  | cons l ls ih =>
      obtain ⟨u, hu, hrest⟩ := exec_cons_some.mp h
      have hhead := swallowed_obs s l
      have htail := ih hrest
      rw [Net.swallowed] at hhead htail
      rw [observed_cons_of_step hu, observed_cons_of_step hu, Net.swallowed, List.filterMap_append,
        hhead, htail]

/-- **The refinement.**  Every run of the network with the libraries, connections lost at any time
included, is a run of `Net` with the gap, with the same processes and the same publications: what one
side hands out in a queue inside a process the other hands out at the broker.  If nothing arrives
in the gap, it is a run of `Net`. -/
theorem refines_net (cfg : NetConfig ι) {ls : List (LibLabel ι)} {s : LibNet ι}
    (hrun : exec (LibNet.step cfg) init ls = some s) :
    ∃ t, exec (Net.gapStep cfg) Net.init (observed (LibNet.step cfg) obs init ls) = some t ∧
      t = { s.net with broker := t.broker } ∧
      (∀ k, s.lost k = false →
        ∃ ms, s.que k = ms.map some ∧ t.broker.queue k = ms ++ s.net.broker.queue k) ∧
      (observed (LibNet.step cfg) swallows init ls = [] →
        exec (Net.step cfg) Net.init (Net.nets (observed (LibNet.step cfg) obs init ls)) =
          some t) := by
  obtain ⟨t, ht, h⟩ := (simulates_net cfg).exec init_runsAs hrun
  refine ⟨t, ht, h.amounts.1, h.amounts.2.here, ?_⟩
  intro hnone
  rw [← swallowed_observed hrun] at hnone
  rw [← Net.exec_nets, ← Net.eq_nets_of_swallowed hnone]
  exact ht

end Runs

/-- The first client of `pair` has its key in its queue when its connection is lost. -/
def keyArrived : List (LibLabel Bool) :=
  [.process .serverSetups, .disable .server, .enable .server, .process (.start true),
    .process (.register true userInfo), .disable (.client true), .enable (.client true),
    .process (.subscribe true), .deliver .server] ++
    (handleRegistration true 0).map .process ++ [.deliver (.client true), .lose (.client true)]

/-- The client takes the key, then the null. -/
def cutOff : List (LibLabel Bool) :=
  keyArrived ++ [.process (.take true), .process (.take true)]

theorem refines_net_cutOff :
    ∃ s t, exec (LibNet.step pair) init cutOff = some s ∧
      exec (Net.step pair) Net.init (firstSession ++ [.stop true]) = some t ∧
      t.clients true = s.net.clients true := by
  obtain ⟨s, hs, -⟩ : ∃ s, exec (LibNet.step pair) init cutOff = some s ∧ s.net.up = true :=
    exists_exec_of_any (by decide +kernel)
  obtain ⟨t, -, hsame, -, hnet⟩ := refines_net pair hs
  have hobs : Net.nets (observed (LibNet.step pair) obs init cutOff) =
      firstSession ++ [.stop true] := by decide +kernel
  have ht := hnet (by decide +kernel)
  rw [hobs] at ht
  exact ⟨s, t, hs, ht, by rw [hsame]⟩

end BupApp.LibNet
