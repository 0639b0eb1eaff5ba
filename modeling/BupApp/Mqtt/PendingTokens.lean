/-
# BupApp.Mqtt.PendingTokens -- what the lists of pending tokens say

The lists hold a token once for each request the C library has accepted on it and not answered, and
once for each thread that has put it in, or is to take it out, and has not got to that yet.  In
particular nothing is left behind by a request that was refused, and an idle client's lists are the
C library's.
-/
import BupApp.Mqtt.AsyncClient

namespace BupApp.Mqtt

open BupApp.Lib.Transition

/-- The token a thread has in a list on its own account. -/
def Work.held : Work → Option Nat
  | .calling t _ | .recalling t | .refused t _ | .answered t => some t
  | .sent _ _ => none

namespace AsyncClient

def pending (c : AsyncClient) : List Nat := c.pendingDeliveryTokens ++ c.pendingTokens

def held (c : AsyncClient) : List Nat := c.work.filterMap Work.held

def typeOf (c : AsyncClient) (t : Nat) : Option TokenType := (c.toks[t]?).map fun e => e.tok.type

/-! ## What a step can do -/

/-- Everything a step can do, with the guards it has passed. -/
inductive Moves (c : AsyncClient) : ClientLabel → AsyncClient → Prop
  | begin (r : Request) : (r.type = .connect → c.work.any connectWork = false) →
      Moves c (.begin r) (c.begin r)
  | unconnected : c.connTok = none → Moves c .reconnect c
  | reconnect (t : Nat) : c.connTok = some t → c.work.any connectWork = false →
      Moves c .reconnect
        { (c.modifyToken t Token.reset).addToken t .connect with work := .recalling t :: c.work }
  | accept (w : Work) (t : Nat) (msgId : Int) (ws : List Work) : w ∈ c.work → w.held = some t →
      (∀ w' ∈ ws, w' = .sent t msgId) →
      Moves c (.accept w msgId) ((c.goOn w ws).handOut t)
  | refuse (w : Work) (t : Nat) : w ∈ c.work → w.held = some t →
      Moves c (.refuse w) (c.goOn w [.refused t (connectWork w)])
  | sent (t : Nat) (msgId : Int) : .sent t msgId ∈ c.work →
      Moves c (.finish (.sent t msgId))
        ((c.modifyToken t fun tok => tok.setMessageId msgId).goOn (.sent t msgId) [])
  | remove (w : Work) (t : Nat) : w ∈ c.work → w.held = some t → connectWork w = false →
      w ≠ .recalling t → Moves c (.finish w) ((c.removeToken t).goOn w [])
  | disconnect (t u : Nat) : .refused t true ∈ c.work → c.connTok = some u →
      Moves c (.finish (.refused t true))
        ({ c.removeToken u with connTok := none }.goOn (.refused t true) [])
  | nothing (t : Nat) : .refused t true ∈ c.work → c.connTok = none →
      Moves c (.finish (.refused t true)) (c.goOn (.refused t true) [])
  | answer (t : Nat) (a : Answer) : t ∈ c.outstanding →
      Moves c (.answer t a)
        { c.modifyToken t (Token.answer · a) with
          outstanding := c.outstanding.erase t, work := .answered t :: c.work }

theorem accept_moves {c c' : AsyncClient} {w : Work} {msgId : Int} (hw : w ∈ c.work)
    (h : c.accept msgId w = some c') : Moves c (.accept w msgId) c' := by
  cases w with
  | calling t r =>
      cases r with
      | publish qos =>
          obtain rfl := Option.some.inj h
          exact .accept _ t msgId [.sent t msgId] hw rfl (by simp)
      | connect version =>
          obtain rfl := Option.some.inj h
          exact .accept _ t msgId [] hw rfl (by simp)
      | disconnect =>
          obtain rfl := Option.some.inj h
          exact .accept _ t msgId [] hw rfl (by simp)
      | subscribe n =>
          obtain rfl := Option.some.inj h
          exact .accept _ t msgId [] hw rfl (by simp)
      | unsubscribe n =>
          obtain rfl := Option.some.inj h
          exact .accept _ t msgId [] hw rfl (by simp)
  | recalling t =>
      obtain rfl := Option.some.inj h
      exact .accept _ t msgId [] hw rfl (by simp)
  | sent t msgId' => cases h
  | refused t b => cases h
  | answered t => cases h

theorem refuse_moves {c c' : AsyncClient} {w : Work} (hw : w ∈ c.work)
    (h : c.refuse w = some c') : Moves c (.refuse w) c' := by
  cases w with
  | calling t r =>
      obtain rfl := Option.some.inj h
      have hkind : decide (r.type = .connect) = connectWork (.calling t r) := by
        cases r <;> rfl
      rw [hkind]
      exact .refuse _ t hw rfl
  | recalling t =>
      obtain rfl := Option.some.inj h
      exact .refuse _ t hw rfl
  | sent t msgId => cases h
  | refused t b => cases h
  | answered t => cases h

theorem finish_moves {c c' : AsyncClient} {w : Work} (hw : w ∈ c.work)
    (h : c.finish w = some c') : Moves c (.finish w) c' := by
  cases w with
  | calling t r => cases h
  | recalling t => cases h
  | sent t msgId =>
      obtain rfl := Option.some.inj h
      exact .sent t msgId hw
  | refused t b =>
      cases b with
      | false =>
          obtain rfl := Option.some.inj h
          exact .remove _ t hw rfl rfl (by simp)
      | true =>
          simp only [finish] at h
          split at h
          · rename_i hconn
            obtain rfl := Option.some.inj h
            exact .nothing t hw hconn
          · rename_i u hconn
            obtain rfl := Option.some.inj h
            exact .disconnect t u hw hconn
  | answered t =>
      obtain rfl := Option.some.inj h
      exact .remove _ t hw rfl rfl (by simp)

theorem step_moves {c c' : AsyncClient} {l : ClientLabel} (h : c.step l = some c') :
    Moves c l c' := by
  cases l with
  | begin r =>
      cases r with
      | connect version =>
          simp only [step] at h
          split at h
          · cases h
          · rename_i hnone
            obtain rfl := Option.some.inj h
            exact .begin _ fun _ => by simpa using hnone
      | disconnect =>
          obtain rfl := Option.some.inj h
          exact .begin _ (by rintro ⟨⟩)
      | publish qos =>
          obtain rfl := Option.some.inj h
          exact .begin _ (by rintro ⟨⟩)
      | subscribe n =>
          obtain rfl := Option.some.inj h
          exact .begin _ (by rintro ⟨⟩)
      | unsubscribe n =>
          obtain rfl := Option.some.inj h
          exact .begin _ (by rintro ⟨⟩)
  | reconnect =>
      simp only [step] at h
      split at h
      · cases h
      · rename_i hnone
        obtain rfl := Option.some.inj h
        unfold reconnect
        split
        · exact .unconnected (by assumption)
        · exact .reconnect _ (by assumption) (by simpa using hnone)
  | accept w msgId =>
      simp only [step] at h
      split at h
      · exact accept_moves (by assumption) h
      · cases h
  | refuse w =>
      simp only [step] at h
      split at h
      · exact refuse_moves (by assumption) h
      · cases h
  | finish w =>
      simp only [step] at h
      split at h
      · exact finish_moves (by assumption) h
      · cases h
  | answer t a =>
      simp only [step] at h
      split at h
      · obtain rfl := Option.some.inj h
        exact .answer t a (by assumption)
      · cases h

/-! ## The lists -/

theorem addToken_pending (c : AsyncClient) (t : Nat) (type : TokenType) :
    (c.addToken t type).pending.Perm (t :: c.pending) := by
  have hother : (c.pendingDeliveryTokens ++ (c.pendingTokens ++ [t])).Perm (t :: c.pending) := by
    rw [← List.append_assoc]
    exact List.perm_append_singleton t _
  cases type with
  | publish =>
      show ((c.pendingDeliveryTokens ++ [t]) ++ c.pendingTokens).Perm _
      rw [List.append_assoc]
      exact List.perm_middle
  | connect => exact hother
  | subscribe => exact hother
  | unsubscribe => exact hother
  | disconnect => exact hother

theorem begin_pending (c : AsyncClient) (r : Request) :
    (c.begin r).pending.Perm (c.toks.length :: c.pending) := by
  cases r with
  | _ => exact addToken_pending _ _ _

theorem removeToken_pending (c : AsyncClient) (t : Nat) :
    (c.removeToken t).pending = c.pending.erase t := by
  unfold removeToken pending
  rw [List.erase_append]
  split
  · rfl
  · rfl

theorem held_perm {c : AsyncClient} {w : Work} (hw : w ∈ c.work) :
    c.held.Perm (w.held.toList ++ (c.work.erase w).filterMap Work.held) := by
  have hperm : c.held.Perm ((w :: c.work.erase w).filterMap Work.held) :=
    (List.perm_cons_erase hw).filterMap _
  rw [List.filterMap_cons] at hperm
  cases hheld : w.held with
  | none =>
      rw [hheld] at hperm
      exact hperm
  | some t =>
      rw [hheld] at hperm
      exact hperm

theorem held_perm_of_some {c : AsyncClient} {w : Work} {t : Nat} (hw : w ∈ c.work)
    (ht : w.held = some t) : c.held.Perm (t :: (c.work.erase w).filterMap Work.held) := by
  have hperm := held_perm hw
  rw [ht] at hperm
  exact hperm

theorem goOn_held (c : AsyncClient) (w : Work) (ws : List Work) :
    (c.goOn w ws).held = ws.filterMap Work.held ++ (c.work.erase w).filterMap Work.held :=
  List.filterMap_append

/-- The lists hold what the C library and the threads have in hand. -/
def Balanced (c : AsyncClient) : Prop := c.pending.Perm (c.outstanding ++ c.held)

theorem Balanced.add {c c' : AsyncClient} {t : Nat} (hc : c.Balanced)
    (hp : c'.pending.Perm (t :: c.pending)) (ho : c'.outstanding = c.outstanding)
    (hh : c'.held = t :: c.held) : c'.Balanced := by
  unfold Balanced
  rw [ho, hh]
  exact hp.trans ((List.Perm.cons t hc).trans List.perm_middle.symm)

theorem Balanced.remove {c c' : AsyncClient} {w : Work} {t : Nat} (hc : c.Balanced)
    (hw : w ∈ c.work) (ht : w.held = some t) (hp : c'.pending = c.pending.erase t)
    (ho : c'.outstanding = c.outstanding)
    (hh : c'.held = (c.work.erase w).filterMap Work.held) : c'.Balanced := by
  have hheld := held_perm_of_some hw ht
  have hall : c.pending.Perm (t :: (c.outstanding ++ (c.work.erase w).filterMap Work.held)) :=
    hc.trans ((List.Perm.append_left _ hheld).trans List.perm_middle)
  unfold Balanced
  rw [hp, ho, hh]
  simpa using hall.erase t

theorem Balanced.keep {c c' : AsyncClient} (hc : c.Balanced) (hp : c'.pending = c.pending)
    (hoh : (c.outstanding ++ c.held).Perm (c'.outstanding ++ c'.held)) : c'.Balanced := by
  unfold Balanced
  rw [hp]
  exact hc.trans hoh

/-! ## The tokens -/

theorem modifyToken_entry (c : AsyncClient) (f : Token → Token) (t u : Nat) :
    (c.modifyToken t f).toks[u]? =
      (c.toks[u]?).map fun e => if t = u then { e with tok := f e.tok } else e := by
  unfold modifyToken
  rw [List.getElem?_modify]
  rfl

theorem modifyToken_typeOf {c : AsyncClient} {f : Token → Token}
    (hf : ∀ tok, (f tok).type = tok.type) (t u : Nat) : (c.modifyToken t f).typeOf u = c.typeOf u := by
  unfold typeOf
  rw [modifyToken_entry, Option.map_map]
  cases c.toks[u]? with
  | none => rfl
  | some e =>
      simp only [Option.map_some, Function.comp_apply]
      split
      · rw [hf]
      · rfl

theorem modifyToken_qosOf (c : AsyncClient) (f : Token → Token) (t u : Nat) :
    (c.modifyToken t f).qosOf u = c.qosOf u := by
  unfold qosOf
  rw [modifyToken_entry]
  cases c.toks[u]? with
  | none => rfl
  | some e =>
      simp only [Option.map_some, Option.bind_some]
      split
      · rfl
      · rfl

theorem begin_toks (c : AsyncClient) (r : Request) :
    (c.begin r).toks = c.toks ++ [r.entry c.mqttVersion] := by
  cases r <;> rfl

theorem begin_typeOf_new (c : AsyncClient) (r : Request) :
    (c.begin r).typeOf c.toks.length = some r.type := by
  unfold typeOf
  rw [begin_toks, List.getElem?_concat_length]
  rfl

theorem begin_typeOf {c : AsyncClient} (r : Request) {t : Nat} {type : TokenType}
    (h : c.typeOf t = some type) : (c.begin r).typeOf t = some type := by
  unfold typeOf at h ⊢
  obtain ⟨e, he, -⟩ := Option.map_eq_some_iff.mp h
  have hlt : t < c.toks.length := (List.getElem?_eq_some_iff.mp he).1
  rw [begin_toks, List.getElem?_append_left hlt]
  exact h

/-! ## One connect at a time -/

/-- At most one thread is in a connect, and its token is the connect token. -/
structure OneConnect (c : AsyncClient) : Prop where
  tok : ∀ w ∈ c.work, connectWork w = true → ∃ t, w.held = some t ∧ c.connTok = some t
  one : c.work.countP connectWork ≤ 1

theorem OneConnect.of_erase {c c' : AsyncClient} {w : Work} (hc : c.OneConnect)
    (hwork : c'.work = c.work.erase w)
    (htok : c'.connTok = c.connTok ∨ (w ∈ c.work ∧ connectWork w = true)) : c'.OneConnect := by
  have hcount : c'.work.countP connectWork ≤ 1 := by
    rw [hwork]
    exact Nat.le_trans List.erase_sublist.countP_le hc.one
  refine ⟨?_, hcount⟩
  intro v hv hvc
  rcases htok with htok | ⟨hw, hwc⟩
  · rw [htok]
    rw [hwork] at hv
    exact hc.tok v (List.mem_of_mem_erase hv) hvc
  · -- the connect that ends was the only one
    exfalso
    have htwo : c.work.countP connectWork = (c.work.erase w).countP connectWork + 1 := by
      rw [(List.perm_cons_erase hw).countP_eq, List.countP_cons_of_pos hwc]
    have hpos : 0 < (c.work.erase w).countP connectWork := by
      rw [← hwork]
      exact List.countP_pos_iff.mpr ⟨v, hv, hvc⟩
    have hone := hc.one
    omega

theorem OneConnect.of_cons {c c' : AsyncClient} {v : Work} (hc : c.OneConnect)
    (hwork : c'.work = v :: c.work) (hv : connectWork v = false)
    (htok : c'.connTok = c.connTok) : c'.OneConnect := by
  refine ⟨?_, ?_⟩
  · intro w hw hwc
    rw [hwork] at hw
    rw [htok]
    rcases List.mem_cons.mp hw with rfl | hw
    · rw [hv] at hwc
      cases hwc
    · exact hc.tok w hw hwc
  · rw [hwork, List.countP_cons_of_neg (by simp [hv])]
    exact hc.one

theorem begin_oneConnect {c : AsyncClient} (hc : c.OneConnect) (r : Request)
    (hr : r.type = .connect → c.work.any connectWork = false) : (c.begin r).OneConnect := by
  cases r with
  | connect version =>
      have hnone : ∀ w ∈ c.work, ¬ connectWork w = true := by
        simpa using hr rfl
      refine ⟨?_, ?_⟩
      · intro w hw hwc
        rcases List.mem_cons.mp hw with rfl | hw
        · exact ⟨c.toks.length, rfl, rfl⟩
        · exact absurd hwc (hnone w hw)
      · have hcount : (Work.calling c.toks.length (.connect version) :: c.work).countP
            connectWork = 0 + 1 := by
          rw [List.countP_cons_of_pos rfl, List.countP_eq_zero.mpr hnone]
        exact Nat.le_of_eq hcount
  | disconnect => exact hc.of_cons rfl rfl rfl
  | publish qos => exact hc.of_cons rfl rfl rfl
  | subscribe n => exact hc.of_cons rfl rfl rfl
  | unsubscribe n => exact hc.of_cons rfl rfl rfl

/-- A refusal moves a thread on with the token it has. -/
theorem refuse_oneConnect {c : AsyncClient} (hc : c.OneConnect) {w : Work} {t : Nat}
    (hw : w ∈ c.work) (ht : w.held = some t) :
    (c.goOn w [.refused t (connectWork w)]).OneConnect := by
  cases hkind : connectWork w with
  | false =>
      have herase : ({ c with work := c.work.erase w } : AsyncClient).OneConnect :=
        hc.of_erase rfl (Or.inl rfl)
      exact herase.of_cons rfl rfl rfl
  | true =>
      obtain ⟨u, hu, hconn⟩ := hc.tok w hw hkind
      obtain rfl : t = u := Option.some.inj (ht.symm.trans hu)
      refine ⟨?_, ?_⟩
      · intro v hv hvc
        rcases List.mem_cons.mp hv with rfl | hv
        · exact ⟨t, rfl, hconn⟩
        · exact hc.tok v (List.mem_of_mem_erase hv) hvc
      · show (Work.refused t true :: c.work.erase w).countP connectWork ≤ 1
        rw [List.countP_cons_of_pos rfl, ← List.countP_cons_of_pos (p := connectWork) hkind,
          ← (List.perm_cons_erase hw).countP_eq]
        exact hc.one

theorem removeToken_frame (c : AsyncClient) (t : Nat) :
    (c.removeToken t).toks = c.toks ∧ (c.removeToken t).work = c.work ∧
      (c.removeToken t).connTok = c.connTok ∧ (c.removeToken t).outstanding = c.outstanding ∧
      (c.removeToken t).userCallback = c.userCallback := by
  unfold removeToken
  split
  · exact ⟨rfl, rfl, rfl, rfl, rfl⟩
  · exact ⟨rfl, rfl, rfl, rfl, rfl⟩

theorem goOn_removeToken_work (c : AsyncClient) (t : Nat) (w : Work) :
    ((c.removeToken t).goOn w []).work = c.work.erase w := by
  show (c.removeToken t).work.erase w = _
  rw [(removeToken_frame c t).2.1]

theorem oneConnect_step {c c' : AsyncClient} {l : ClientLabel} (hc : c.OneConnect)
    (hm : Moves c l c') : c'.OneConnect := by
  cases hm with
  | begin r hr => exact begin_oneConnect hc r hr
  | unconnected hconn => exact hc
  | reconnect t hconn hnone => exact hc.of_cons rfl rfl rfl
  | accept w t msgId ws hw ht hws =>
      have herase : ({ c with work := c.work.erase w } : AsyncClient).OneConnect :=
        hc.of_erase rfl (Or.inl rfl)
      refine ⟨?_, ?_⟩
      · intro v hv hvc
        rcases List.mem_append.mp hv with hv | hv
        · rw [hws v hv] at hvc
          cases hvc
        · exact herase.tok v hv hvc
      · show (ws ++ c.work.erase w).countP connectWork ≤ 1
        -- what a call leaves to do when it is accepted is no connect
        have hzero : ws.countP connectWork = 0 := by
          refine List.countP_eq_zero.mpr fun v hv => ?_
          rw [hws v hv]
          simp [connectWork]
        rw [List.countP_append, hzero, Nat.zero_add]
        exact herase.one
  | refuse w t hw ht => exact refuse_oneConnect hc hw ht
  | sent t msgId hw => exact hc.of_erase rfl (Or.inl rfl)
  | remove w t hw ht hkind hne =>
      exact hc.of_erase (goOn_removeToken_work c t w) (Or.inl (removeToken_frame c t).2.2.1)
  | disconnect t u hw hconn =>
      refine hc.of_erase (w := .refused t true) ?_ (Or.inr ⟨hw, rfl⟩)
      show (c.removeToken u).work.erase _ = _
      rw [(removeToken_frame c u).2.1]
  | nothing t hw hconn => exact hc.of_erase rfl (Or.inl rfl)
  | answer t a ht => exact hc.of_cons rfl rfl rfl

theorem balanced_step {c c' : AsyncClient} {l : ClientLabel} (hc : c.Balanced)
    (hone : c.OneConnect) (hm : Moves c l c') : c'.Balanced := by
  cases hm with
  | begin r hr =>
      refine hc.add (begin_pending c r) ?_ ?_
      · cases r <;> rfl
      · cases r <;> rfl
  | unconnected hconn => exact hc
  | reconnect t hconn hnone => exact hc.add (addToken_pending _ _ _) rfl rfl
  | accept w t msgId ws hw ht hws =>
      refine hc.keep rfl ?_
      have hws' : ws.filterMap Work.held = [] := by
        rw [List.filterMap_eq_nil_iff]
        intro v hv
        rw [hws v hv]
        rfl
      have hheld := held_perm_of_some hw ht
      show (c.outstanding ++ c.held).Perm (t :: c.outstanding ++ (c.goOn w ws).held)
      rw [goOn_held, hws', List.nil_append]
      exact (List.Perm.append_left _ hheld).trans List.perm_middle
  | refuse w t hw ht =>
      refine hc.keep rfl (List.Perm.append_left _ ?_)
      rw [goOn_held]
      exact held_perm_of_some hw ht
  | sent t msgId hw =>
      refine hc.keep rfl (List.Perm.append_left _ ?_)
      rw [goOn_held]
      exact held_perm hw
  | remove w t hw ht hkind hne =>
      refine hc.remove hw ht (removeToken_pending c t) (removeToken_frame c t).2.2.2.1 ?_
      rw [goOn_held, (removeToken_frame c t).2.1]
      rfl
  | disconnect t u hw hconn =>
      -- with one connect under way `connTok` is the token of this disconnect
      obtain ⟨v, hv, hvconn⟩ := hone.tok _ hw rfl
      obtain rfl : t = v := Option.some.inj hv
      obtain rfl : u = t := Option.some.inj (hconn.symm.trans hvconn)
      refine hc.remove hw rfl (removeToken_pending c u) (removeToken_frame c u).2.2.2.1 ?_
      rw [goOn_held]
      show [].filterMap Work.held ++ ((c.removeToken u).work.erase _).filterMap Work.held = _
      rw [(removeToken_frame c u).2.1]
      rfl
  | nothing t hw hconn =>
      obtain ⟨v, -, hvconn⟩ := hone.tok _ hw rfl
      rw [hconn] at hvconn
      cases hvconn
  | answer t a ht =>
      refine hc.keep rfl ?_
      show (c.outstanding ++ c.held).Perm (c.outstanding.erase t ++ t :: c.held)
      exact (((List.perm_cons_erase ht).append_right _).trans List.perm_middle.symm)

/-! ## Which token is in which list -/

theorem begin_typeOf_cases {c : AsyncClient} {r : Request} {t : Nat} {type : TokenType}
    (h : (c.begin r).typeOf t = some type) :
    c.typeOf t = some type ∨ t = c.toks.length ∧ type = r.type := by
  by_cases hlt : t < c.toks.length
  · left
    unfold typeOf at h ⊢
    rw [begin_toks, List.getElem?_append_left hlt] at h
    exact h
  · by_cases heq : t = c.toks.length
    · subst heq
      rw [begin_typeOf_new] at h
      exact Or.inr ⟨rfl, (Option.some.inj h).symm⟩
    · exfalso
      unfold typeOf at h
      rw [begin_toks, List.getElem?_eq_none (by simp; omega)] at h
      cases h

theorem typeOf_lt {c : AsyncClient} {t : Nat} {type : TokenType} (h : c.typeOf t = some type) :
    t < c.toks.length := by
  obtain ⟨e, he, -⟩ := Option.map_eq_some_iff.mp h
  exact (List.getElem?_eq_some_iff.mp he).1

/-- The quality of service of a token's message, where there is one. -/
theorem begin_qosOf {c : AsyncClient} (r : Request) {t : Nat} (h : t < c.toks.length) :
    (c.begin r).qosOf t = c.qosOf t := by
  unfold qosOf
  rw [begin_toks, List.getElem?_append_left h]

/-- A step forgets no token and changes no token's type and message. -/
theorem moves_toks {c c' : AsyncClient} {l : ClientLabel} (hm : Moves c l c') {t : Nat}
    {type : TokenType} (h : c.typeOf t = some type) :
    c'.typeOf t = some type ∧ c'.qosOf t = c.qosOf t := by
  have hsame : ∀ d : AsyncClient, d.toks = c.toks →
      d.typeOf t = some type ∧ d.qosOf t = c.qosOf t := by
    intro d hd
    unfold typeOf qosOf at *
    rw [hd]
    exact ⟨h, rfl⟩
  have hmod : ∀ (f : Token → Token) (u : Nat), (∀ tok, (f tok).type = tok.type) →
      (c.modifyToken u f).typeOf t = some type ∧ (c.modifyToken u f).qosOf t = c.qosOf t := by
    intro f u hf
    exact ⟨(modifyToken_typeOf hf u t).trans h, modifyToken_qosOf c f u t⟩
  cases hm with
  | begin r hr => exact ⟨begin_typeOf r h, begin_qosOf r (typeOf_lt h)⟩
  | unconnected hconn => exact hsame _ rfl
  | reconnect u hconn hnone => exact hmod Token.reset u fun _ => rfl
  | accept w u msgId ws hw ht hws => exact hsame _ rfl
  | refuse w u hw ht => exact hsame _ rfl
  | sent u msgId hw => exact hmod (fun tok => tok.setMessageId msgId) u fun _ => rfl
  | remove w u hw ht hkind hne => exact hsame _ (removeToken_frame c u).1
  | disconnect u v hw hconn => exact hsame _ (removeToken_frame c v).1
  | nothing u hw hconn => exact hsame _ rfl
  | answer u a hu => exact hmod _ u fun tok => Token.answer_type tok a

/-- The delivery tokens are in their own list. -/
structure Sorted (c : AsyncClient) : Prop where
  delivery : ∀ t ∈ c.pendingDeliveryTokens, c.typeOf t = some .publish
  other : ∀ t ∈ c.pendingTokens, ∃ type, c.typeOf t = some type ∧ type ≠ .publish
  conn : ∀ t, c.connTok = some t → c.typeOf t = some .connect

theorem Sorted.of_subset {c c' : AsyncClient} {l : ClientLabel} (hc : c.Sorted)
    (hm : Moves c l c') (hd : c'.pendingDeliveryTokens ⊆ c.pendingDeliveryTokens)
    (ho : c'.pendingTokens ⊆ c.pendingTokens)
    (hconn : ∀ t, c'.connTok = some t → c.connTok = some t) : c'.Sorted := by
  refine ⟨?_, ?_, ?_⟩
  · intro t ht
    exact (moves_toks hm (hc.delivery t (hd ht))).1
  · intro t ht
    obtain ⟨type, htype, hne⟩ := hc.other t (ho ht)
    exact ⟨type, (moves_toks hm htype).1, hne⟩
  · intro t ht
    exact (moves_toks hm (hc.conn t (hconn t ht))).1

theorem removeToken_subset (c : AsyncClient) (t : Nat) :
    (c.removeToken t).pendingDeliveryTokens ⊆ c.pendingDeliveryTokens ∧
      (c.removeToken t).pendingTokens ⊆ c.pendingTokens := by
  unfold removeToken
  split
  · exact ⟨fun _ => List.mem_of_mem_erase, fun _ h => h⟩
  · exact ⟨fun _ h => h, fun _ => List.mem_of_mem_erase⟩

/-- A new token of one of the other types. -/
theorem Sorted.begin_other {c : AsyncClient} (hc : c.Sorted) {r : Request}
    (hm : Moves c (.begin r) (c.begin r)) (hr : r.type ≠ .publish)
    (hd : (c.begin r).pendingDeliveryTokens = c.pendingDeliveryTokens)
    (ho : (c.begin r).pendingTokens = c.pendingTokens ++ [c.toks.length])
    (hconn : ∀ t, (c.begin r).connTok = some t →
      c.connTok = some t ∨ t = c.toks.length ∧ r.type = .connect) : (c.begin r).Sorted := by
  refine ⟨?_, ?_, ?_⟩
  · intro t ht
    rw [hd] at ht
    exact (moves_toks hm (hc.delivery t ht)).1
  · intro t ht
    rw [ho] at ht
    rcases List.mem_append.mp ht with ht | ht
    · obtain ⟨type, htype, hne⟩ := hc.other t ht
      exact ⟨type, (moves_toks hm htype).1, hne⟩
    · rw [List.mem_singleton.mp ht]
      exact ⟨r.type, begin_typeOf_new c r, hr⟩
  · intro t ht
    rcases hconn t ht with hold | ⟨rfl, hrc⟩
    · exact (moves_toks hm (hc.conn t hold)).1
    · rw [begin_typeOf_new, hrc]

theorem sorted_step {c c' : AsyncClient} {l : ClientLabel} (hc : c.Sorted) (hm : Moves c l c') :
    c'.Sorted := by
  have hm' := hm
  cases hm with
  | begin r hr =>
      cases r with
      | publish qos =>
          refine ⟨?_, ?_, ?_⟩
          · intro t ht
            rcases List.mem_append.mp ht with ht | ht
            · exact (moves_toks hm' (hc.delivery t ht)).1
            · rw [List.mem_singleton.mp ht]
              exact begin_typeOf_new c (.publish qos)
          · intro t ht
            obtain ⟨type, htype, hne⟩ := hc.other t ht
            exact ⟨type, (moves_toks hm' htype).1, hne⟩
          · intro t ht
            exact (moves_toks hm' (hc.conn t ht)).1
      | connect version =>
          refine hc.begin_other hm' (by simp [Request.type]) rfl rfl ?_
          intro t ht
          exact Or.inr ⟨(Option.some.inj ht).symm, rfl⟩
      | disconnect =>
          exact hc.begin_other hm' (by simp [Request.type]) rfl rfl fun t ht => Or.inl ht
      | subscribe n =>
          exact hc.begin_other hm' (by simp [Request.type]) rfl rfl fun t ht => Or.inl ht
      | unsubscribe n =>
          exact hc.begin_other hm' (by simp [Request.type]) rfl rfl fun t ht => Or.inl ht
  | unconnected hconn => exact hc
  | reconnect t hconn hnone =>
      -- the token of a reconnect is that of the connect it repeats
      refine ⟨?_, ?_, ?_⟩
      · intro u hu
        exact (moves_toks hm' (hc.delivery u hu)).1
      · intro u hu
        rcases List.mem_append.mp hu with hu | hu
        · obtain ⟨type, htype, hne⟩ := hc.other u hu
          exact ⟨type, (moves_toks hm' htype).1, hne⟩
        · rw [List.mem_singleton.mp hu]
          exact ⟨.connect, (moves_toks hm' (hc.conn t hconn)).1, by simp⟩
      · intro u hu
        exact (moves_toks hm' (hc.conn u hu)).1
  | accept w t msgId ws hw ht hws =>
      exact hc.of_subset hm' (fun _ h => h) (fun _ h => h) fun _ h => h
  | refuse w t hw ht => exact hc.of_subset hm' (fun _ h => h) (fun _ h => h) fun _ h => h
  | sent t msgId hw => exact hc.of_subset hm' (fun _ h => h) (fun _ h => h) fun _ h => h
  | remove w t hw ht hkind hne =>
      refine hc.of_subset hm' (removeToken_subset c t).1 (removeToken_subset c t).2 ?_
      intro u hu
      rw [← (removeToken_frame c t).2.2.1]
      exact hu
  | disconnect t u hw hconn =>
      refine hc.of_subset hm' (removeToken_subset c u).1 (removeToken_subset c u).2 ?_
      rintro v ⟨⟩
  | nothing t hw hconn => exact hc.of_subset hm' (fun _ h => h) (fun _ h => h) fun _ h => h
  | answer t a ht => exact hc.of_subset hm' (fun _ h => h) (fun _ h => h) fun _ h => h

/-! ## Runs -/

/-- What every step keeps. -/
structure Wf (c : AsyncClient) : Prop where
  balanced : c.Balanced
  oneConnect : c.OneConnect
  sorted : c.Sorted

theorem wf_step {c c' : AsyncClient} {l : ClientLabel} (hc : c.Wf) (h : c.step l = some c') :
    c'.Wf :=
  have hm := step_moves h
  ⟨balanced_step hc.balanced hc.oneConnect hm, oneConnect_step hc.oneConnect hm,
    sorted_step hc.sorted hm⟩

theorem init_wf (userCallback : Bool) : (init userCallback).Wf :=
  ⟨List.Perm.refl [], ⟨by simp [init], by simp [init]⟩, ⟨by simp [init], by simp [init],
    by simp [init]⟩⟩

theorem exec_wf {userCallback : Bool} {ls : List ClientLabel} {c : AsyncClient}
    (h : exec step (init userCallback) ls = some c) : c.Wf :=
  inv_exec (fun _ _ _ hu hstep => wf_step hu hstep) (init_wf userCallback) h

/-- The token is one of a publish. -/
def isDelivery (c : AsyncClient) (t : Nat) : Bool := decide (c.typeOf t = some .publish)

theorem Sorted.pendingDeliveryTokens_eq {c : AsyncClient} (hc : c.Sorted) :
    c.pendingDeliveryTokens = c.pending.filter c.isDelivery := by
  have hall : c.pendingDeliveryTokens.filter c.isDelivery = c.pendingDeliveryTokens := by
    rw [List.filter_eq_self]
    intro t ht
    exact decide_eq_true (hc.delivery t ht)
  have hnone : c.pendingTokens.filter c.isDelivery = [] := by
    rw [List.filter_eq_nil_iff]
    intro t ht
    obtain ⟨type, htype, hne⟩ := hc.other t ht
    simp [isDelivery, htype, hne]
  rw [pending, List.filter_append, hall, hnone, List.append_nil]

/-- The one and the many agree. -/
theorem getPendingDeliveryToken_eq (c : AsyncClient) (msgId : Int) :
    c.getPendingDeliveryToken msgId =
      c.getPendingDeliveryTokens.find? fun t => c.msgIdOf t = msgId := by
  rw [getPendingDeliveryToken, getPendingDeliveryTokens, List.find?_filter]
  by_cases hid : msgId > 0
  · rw [if_pos hid]
    congr 1
    funext t
    by_cases ht : c.msgIdOf t = msgId <;> simp [ht, hid]
  · rw [if_neg hid, eq_comm, List.find?_eq_none]
    rintro t - h
    simp only [decide_eq_true_eq] at h
    omega

/-- In every state of every run, with any number of threads in requests and callbacks: each token
is pending once for each request the C library has yet to answer on it and once for each thread that
is to take it out.  While no thread is in between, the delivery tokens that
`get_pending_delivery_tokens` finds are those of the publishes the C library has yet to answer, and
`get_pending_delivery_token` finds one of them by its message id whenever there is one. -/
theorem pending_exact {userCallback : Bool} {ls : List ClientLabel} {c : AsyncClient}
    (h : exec step (init userCallback) ls = some c) :
    (∀ t, c.pending.count t = c.outstanding.count t + c.held.count t) ∧
      (c.work = [] → c.getPendingDeliveryTokens.Perm
          (c.outstanding.filter fun t => c.isDelivery t ∧ c.msgIdOf t > 0) ∧
        ∀ msgId, match c.getPendingDeliveryToken msgId with
          | some t => t ∈ c.outstanding ∧ c.isDelivery t ∧ c.msgIdOf t = msgId
          | none => ∀ t ∈ c.outstanding, c.isDelivery t → c.msgIdOf t = msgId → msgId ≤ 0) := by
  have hwf := exec_wf h
  constructor
  · intro t
    rw [hwf.balanced.count_eq, List.count_append]
  · intro hwork
    have hperm : c.pending.Perm c.outstanding := by
      have hb := hwf.balanced
      rw [Balanced, held, hwork, List.filterMap_nil, List.append_nil] at hb
      exact hb
    have hpred : (fun t => decide (c.msgIdOf t > 0) && c.isDelivery t) =
        fun t => decide (c.isDelivery t = true ∧ c.msgIdOf t > 0) := by
      funext t
      rw [Bool.and_comm, Bool.decide_and, Bool.decide_eq_true]
    have hfound : c.getPendingDeliveryTokens.Perm
        (c.outstanding.filter fun t => c.isDelivery t ∧ c.msgIdOf t > 0) := by
      rw [getPendingDeliveryTokens, hwf.sorted.pendingDeliveryTokens_eq, List.filter_filter, hpred]
      exact hperm.filter _
    have hmem : ∀ {t}, t ∈ c.getPendingDeliveryTokens ↔
        t ∈ c.outstanding ∧ c.isDelivery t ∧ c.msgIdOf t > 0 := by
      intro t
      rw [hfound.mem_iff, List.mem_filter, decide_eq_true_eq]
    refine ⟨hfound, fun msgId => ?_⟩
    rw [getPendingDeliveryToken_eq]
    split
    · rename_i t ht
      obtain ⟨hout, hdel, -⟩ := hmem.mp (List.mem_of_find?_eq_some ht)
      have hid := List.find?_some ht
      exact ⟨hout, hdel, of_decide_eq_true hid⟩
    · rename_i hnone
      intro t hout hdel hid
      by_contra hpos
      have hin := hmem.mpr ⟨hout, hdel, by omega⟩
      exact List.find?_eq_none.mp hnone t hin (decide_eq_true hid)

/-- A publish that is accepted, while the answer to a second one is being worked off. -/
def twoPublishes : List ClientLabel :=
  [.begin (.publish 1), .accept (.calling 0 (.publish 1)) 7, .begin (.publish 1),
    .finish (.sent 0 7), .accept (.calling 1 (.publish 1)) 8, .answer 1 (.success none),
    .finish (.sent 1 8), .finish (.answered 1)]

theorem pending_exact_twoPublishes :
    ∃ c, exec step (init true) twoPublishes = some c ∧
      c.pending.count 0 = c.outstanding.count 0 + c.held.count 0 ∧
      c.getPendingDeliveryTokens.Perm
        (c.outstanding.filter fun t => c.isDelivery t ∧ c.msgIdOf t > 0) := by
  obtain ⟨c, hc, hwork⟩ : ∃ c, exec step (init true) twoPublishes = some c ∧ c.work = [] :=
    exists_exec_of_any (by decide +kernel)
  have h := pending_exact hc
  exact ⟨c, hc, h.1 0, (h.2 hwork).1⟩

end AsyncClient

end BupApp.Mqtt
