/-
# BupApp.Mqtt.Completion -- who is told that a request is over, and who may wait for ever

A publish of quality of service one or more is reported to the user callback when its token leaves
the list, whether the message was delivered, the C library answered with a failure, or refused to
send it at all.

A token that its caller holds is complete or will be completed by the C library, with one exception.
`reconnect` clears the connect token before the C library is asked; when the C library refuses,
nobody is left to complete it.
-/
import BupApp.Mqtt.PendingTokens

namespace BupApp.Mqtt.AsyncClient

open BupApp.Lib.Transition

/-! ## `delivery_complete` -/

/-- With a user callback, a publish of quality one or more is still pending or has been reported,
once altogether; nothing else is reported. -/
structure Reported (c : AsyncClient) : Prop where
  once : c.userCallback = true → ∀ t, c.typeOf t = some .publish → 0 < c.qosOf t →
    c.delivered.count t + c.pendingDeliveryTokens.count t = 1
  only : ∀ t ∈ c.delivered, c.typeOf t = some .publish ∧ 0 < c.qosOf t

/-- A step that leaves the reports and the delivery tokens alone. -/
theorem Reported.keep {c c' : AsyncClient} {l : ClientLabel} (hc : c.Reported)
    (hm : Moves c l c') (hold : ∀ t, c'.typeOf t = some .publish → c.typeOf t = some .publish)
    (hcb : c'.userCallback = c.userCallback) (hd : c'.delivered = c.delivered)
    (hp : c'.pendingDeliveryTokens = c.pendingDeliveryTokens) : c'.Reported := by
  refine ⟨?_, ?_⟩
  · intro h t ht hqos
    rw [hcb] at h
    rw [hd, hp]
    have hq := (moves_toks hm (hold t ht)).2
    exact hc.once h t (hold t ht) (by omega)
  · intro t ht
    rw [hd] at ht
    obtain ⟨htype, hqos⟩ := hc.only t ht
    obtain ⟨htype', hqos'⟩ := moves_toks hm htype
    exact ⟨htype', by omega⟩

theorem begin_typeOf_old {c : AsyncClient} {r : Request} (hr : r.type ≠ .publish) {t : Nat}
    (h : (c.begin r).typeOf t = some .publish) : c.typeOf t = some .publish := by
  rcases begin_typeOf_cases h with hold | ⟨-, hnew⟩
  · exact hold
  · exact absurd hnew.symm hr

theorem Reported.publish {c : AsyncClient} (hc : c.Reported) (hs : c.Sorted) (qos : Nat) :
    (c.begin (.publish qos)).Reported := by
  have hfresh : c.typeOf c.toks.length ≠ some .publish := by
    intro h
    exact Nat.lt_irrefl _ (typeOf_lt h)
  have hm : Moves c (.begin (.publish qos)) (c.begin (.publish qos)) := .begin _ (by rintro ⟨⟩)
  refine ⟨?_, ?_⟩
  · intro hcb t ht hqos
    show c.delivered.count t + (c.pendingDeliveryTokens ++ [c.toks.length]).count t = 1
    rw [List.count_append]
    rcases begin_typeOf_cases ht with hold | ⟨rfl, -⟩
    · have hne : c.toks.length ≠ t := Nat.ne_of_gt (typeOf_lt hold)
      have hq := (moves_toks hm hold).2
      have honce := hc.once hcb t hold (by omega)
      rw [List.count_singleton, beq_false_of_ne hne]
      simpa using honce
    · have hnotDelivered : c.toks.length ∉ c.delivered := fun h => hfresh (hc.only _ h).1
      have hnotPending : c.toks.length ∉ c.pendingDeliveryTokens := fun h =>
        hfresh (hs.delivery _ h)
      rw [List.count_eq_zero_of_not_mem hnotDelivered, List.count_eq_zero_of_not_mem hnotPending,
        List.count_singleton_self]
  · intro t ht
    obtain ⟨htype, hqos⟩ := hc.only t ht
    obtain ⟨htype', hqos'⟩ := moves_toks hm htype
    exact ⟨htype', by omega⟩

/-- What leaves the list of delivery tokens is reported. -/
theorem Reported.removeToken {c : AsyncClient} (hc : c.Reported) (hs : c.Sorted) (t : Nat) :
    (c.removeToken t).Reported := by
  obtain ⟨htoks, -, -, -, hcb⟩ := removeToken_frame c t
  have htype : ∀ u, (c.removeToken t).typeOf u = c.typeOf u := by
    intro u
    unfold typeOf
    rw [htoks]
  have hqos : ∀ u, (c.removeToken t).qosOf u = c.qosOf u := by
    intro u
    unfold qosOf
    rw [htoks]
  by_cases hmem : t ∈ c.pendingDeliveryTokens
  · have hp : (c.removeToken t).pendingDeliveryTokens = c.pendingDeliveryTokens.erase t := by
      rw [AsyncClient.removeToken, if_pos hmem]
    have hd : (c.removeToken t).delivered =
        if c.userCallback = true ∧ c.qosOf t > 0 then c.delivered ++ [t] else c.delivered := by
      rw [AsyncClient.removeToken, if_pos hmem]
    refine ⟨?_, ?_⟩
    · intro h u hu hq
      rw [hcb] at h
      rw [htype] at hu
      rw [hqos] at hq
      have honce := hc.once h u hu hq
      rw [hp, hd]
      -- what is taken off the list is put among the delivered
      by_cases hut : u = t
      · subst hut
        have hpos : 0 < c.pendingDeliveryTokens.count u := List.count_pos_iff.mpr hmem
        rw [if_pos ⟨h, hq⟩, List.count_append, List.count_singleton_self, List.count_erase_self]
        omega
      · have hdel : (if c.userCallback = true ∧ c.qosOf t > 0 then c.delivered ++ [t]
            else c.delivered).count u = c.delivered.count u := by
          split
          · rw [List.count_append, List.count_singleton, beq_false_of_ne (Ne.symm hut)]
            simp
          · rfl
        rw [hdel, List.count_erase_of_ne hut]
        exact honce
    · intro u hu
      rw [htype, hqos]
      rw [hd] at hu
      split at hu
      · rename_i hreport
        rcases List.mem_append.mp hu with hu | hu
        · exact hc.only u hu
        · rw [List.mem_singleton.mp hu]
          exact ⟨hs.delivery t hmem, hreport.2⟩
      · exact hc.only u hu
  · have hp : (c.removeToken t).pendingDeliveryTokens = c.pendingDeliveryTokens := by
      rw [AsyncClient.removeToken, if_neg hmem]
    have hd : (c.removeToken t).delivered = c.delivered := by
      rw [AsyncClient.removeToken, if_neg hmem]
    refine ⟨?_, ?_⟩
    · intro h u hu hq
      rw [hp, hd]
      exact hc.once (hcb ▸ h) u (htype u ▸ hu) (hqos u ▸ hq)
    · intro u hu
      rw [htype, hqos]
      exact hc.only u (hd ▸ hu)

theorem reported_step {c c' : AsyncClient} {l : ClientLabel} (hc : c.Reported) (hs : c.Sorted)
    (hm : Moves c l c') : c'.Reported := by
  have hm' := hm
  cases hm with
  | begin r hr =>
      cases r with
      | publish qos => exact hc.publish hs qos
      | connect version =>
          exact hc.keep hm' (fun t => begin_typeOf_old (by simp [Request.type])) rfl rfl rfl
      | disconnect =>
          exact hc.keep hm' (fun t => begin_typeOf_old (by simp [Request.type])) rfl rfl rfl
      | subscribe n =>
          exact hc.keep hm' (fun t => begin_typeOf_old (by simp [Request.type])) rfl rfl rfl
      | unsubscribe n =>
          exact hc.keep hm' (fun t => begin_typeOf_old (by simp [Request.type])) rfl rfl rfl
  | unconnected hconn => exact hc
  | reconnect u hconn hnone =>
      refine hc.keep hm' (fun t ht => ?_) rfl rfl rfl
      exact (modifyToken_typeOf (f := Token.reset) (fun _ => rfl) u t) ▸ ht
  | accept w u msgId ws hw ht hws => exact hc.keep hm' (fun t ht => ht) rfl rfl rfl
  | refuse w u hw ht => exact hc.keep hm' (fun t ht => ht) rfl rfl rfl
  | sent u msgId hw =>
      refine hc.keep hm' (fun t ht => ?_) rfl rfl rfl
      exact (modifyToken_typeOf (f := fun tok => tok.setMessageId msgId) (fun _ => rfl) u t) ▸ ht
  | remove w u hw ht hkind hne =>
      have h := hc.removeToken hs u
      exact ⟨h.once, h.only⟩
  | disconnect u v hw hconn =>
      have h := hc.removeToken hs v
      exact ⟨h.once, h.only⟩
  | nothing u hw hconn => exact hc.keep hm' (fun t ht => ht) rfl rfl rfl
  | answer u a hu =>
      refine hc.keep hm' (fun t ht => ?_) rfl rfl rfl
      exact (modifyToken_typeOf (fun tok => Token.answer_type tok a) u t) ▸ ht

theorem userCallback_step {c c' : AsyncClient} {l : ClientLabel} (hm : Moves c l c') :
    c'.userCallback = c.userCallback := by
  cases hm with
  | begin r hr => cases r <;> rfl
  | remove w u hw ht hkind hne => exact (removeToken_frame c u).2.2.2.2
  | disconnect u v hw hconn => exact (removeToken_frame c v).2.2.2.2
  | _ => rfl

/-- With a user callback, in every state of every run: `delivery_complete` has been called once for
each publish of quality one or more that neither the C library nor a thread has in hand any more,
and for nothing else. -/
theorem delivered_exact {ls : List ClientLabel} {c : AsyncClient}
    (h : exec step (init true) ls = some c) (t : Nat) :
    c.delivered.count t =
      if c.typeOf t = some .publish ∧ 0 < c.qosOf t ∧ t ∉ c.outstanding ∧ t ∉ c.held then 1
      else 0 := by
  have hinv : c.Wf ∧ c.Reported ∧ c.userCallback = true := by
    refine inv_exec (I := fun u => u.Wf ∧ u.Reported ∧ u.userCallback = true) ?_ ?_ h
    · rintro u l v ⟨hwf, hrep, hcb⟩ hstep
      have hm := step_moves hstep
      exact ⟨wf_step hwf hstep, reported_step hrep hwf.sorted hm,
        (userCallback_step hm).trans hcb⟩
    · refine ⟨init_wf true, ⟨?_, by simp [init]⟩, rfl⟩
      intro _ t ht
      simp [typeOf, init] at ht
  obtain ⟨hwf, hrep, hcb⟩ := hinv
  have hmem : t ∈ c.pending ↔ t ∈ c.outstanding ∨ t ∈ c.held := by
    rw [hwf.balanced.mem_iff, List.mem_append]
  by_cases hpub : c.typeOf t = some .publish ∧ 0 < c.qosOf t
  · obtain ⟨htype, hqos⟩ := hpub
    have honce := hrep.once hcb t htype hqos
    have hpending : t ∈ c.pending ↔ t ∈ c.pendingDeliveryTokens := by
      rw [hwf.sorted.pendingDeliveryTokens_eq, List.mem_filter]
      simp [isDelivery, htype]
    by_cases hin : t ∈ c.pendingDeliveryTokens
    · have hpos : 0 < c.pendingDeliveryTokens.count t := List.count_pos_iff.mpr hin
      have hhand := hmem.mp (hpending.mpr hin)
      rw [if_neg (by tauto)]
      omega
    · have hzero : c.pendingDeliveryTokens.count t = 0 := List.count_eq_zero_of_not_mem hin
      have hhand : ¬ (t ∈ c.outstanding ∨ t ∈ c.held) := fun hh => hin (hpending.mp (hmem.mpr hh))
      rw [if_pos ⟨htype, hqos, fun ho => hhand (Or.inl ho), fun hh => hhand (Or.inr hh)⟩]
      omega
  · have hnot : t ∉ c.delivered := fun hd => hpub (hrep.only t hd)
    rw [if_neg fun hall => hpub ⟨hall.1, hall.2.1⟩]
    exact List.count_eq_zero_of_not_mem hnot

theorem delivered_exact_twoPublishes :
    ∃ c, exec step (init true) twoPublishes = some c ∧ c.delivered.count 1 =
      if c.typeOf 1 = some .publish ∧ 0 < c.qosOf 1 ∧ 1 ∉ c.outstanding ∧ 1 ∉ c.held then 1
      else 0 := by
  obtain ⟨c, hc, -⟩ : ∃ c, exec step (init true) twoPublishes = some c ∧ c.delivered = [1] :=
    exists_exec_of_any (by decide +kernel)
  exact ⟨c, hc, delivered_exact hc 1⟩

/-! ## Waiting for ever -/

def isComplete (c : AsyncClient) (t : Nat) : Bool :=
  ((c.toks[t]?).map fun e => e.tok.complete).getD false

/-- Whoever waits for a token it was given gets an end: the token is complete, or the C library has
yet to answer, or a thread is about to ask it again. -/
def Live (c : AsyncClient) : Prop :=
  ∀ t ∈ c.handedOut, c.isComplete t = true ∨ t ∈ c.outstanding ∨ .recalling t ∈ c.work

/-- The C library refuses a reconnect, with the token cleared already and no other call of the C
library under way that could complete it. -/
def Abandons (c : AsyncClient) : ClientLabel → Prop
  | .refuse (.recalling t) =>
      c.isComplete t = false ∧ t ∉ c.outstanding ∧ .recalling t ∉ c.work.erase (.recalling t)
  | _ => False

instance (c : AsyncClient) : ∀ l, Decidable (c.Abandons l)
  | .refuse (.recalling t) =>
      inferInstanceAs (Decidable (c.isComplete t = false ∧ t ∉ c.outstanding ∧ _))
  | .refuse (.calling _ _) | .refuse (.sent _ _) | .refuse (.refused _ _) | .refuse (.answered _)
  | .begin _ | .reconnect | .accept _ _ | .finish _ | .answer _ _ => isFalse id

/-- The connect token was handed out, or its connect is under way. -/
structure Handed (c : AsyncClient) : Prop where
  conn : ∀ t, c.connTok = some t →
    t ∈ c.handedOut ∨ ∃ w ∈ c.work, connectWork w = true ∧ w.held = some t
  recalling : ∀ t, .recalling t ∈ c.work → t ∈ c.handedOut

theorem Handed.keep {c c' : AsyncClient} (hc : c.Handed) (hout : c.handedOut ⊆ c'.handedOut)
    (htok : ∀ t, c'.connTok = some t → c.connTok = some t)
    (hconn : ∀ v ∈ c.work, connectWork v = true → ∀ t, v.held = some t →
      t ∈ c'.handedOut ∨ ∃ w ∈ c'.work, connectWork w = true ∧ w.held = some t)
    (hrec : ∀ t, .recalling t ∈ c'.work → .recalling t ∈ c.work) : c'.Handed := by
  refine ⟨?_, fun t ht => hout (hc.recalling t (hrec t ht))⟩
  intro t ht
  rcases hc.conn t (htok t ht) with hold | ⟨v, hv, hvc, hvt⟩
  · exact Or.inl (hout hold)
  · exact hconn v hv hvc t hvt

theorem Handed.begin {c : AsyncClient} (hc : c.Handed) (r : Request) : (c.begin r).Handed := by
  have hother : ∀ c' : AsyncClient, c'.handedOut = c.handedOut → c'.connTok = c.connTok →
      c'.work = .calling c.toks.length r :: c.work → c'.Handed := by
    intro c' hout htok hwork
    refine hc.keep (by rw [hout]; exact fun _ h => h) (by rw [htok]; exact fun _ h => h) ?_ ?_
    · intro v hv hvc t hvt
      exact Or.inr ⟨v, by rw [hwork]; exact List.mem_cons_of_mem _ hv, hvc, hvt⟩
    · intro t ht
      rw [hwork] at ht
      simpa using ht
  cases r with
  | connect version =>
      refine ⟨?_, ?_⟩
      · intro t ht
        obtain rfl : c.toks.length = t := Option.some.inj ht
        exact Or.inr ⟨_, List.mem_cons_self, rfl, rfl⟩
      · intro t ht
        rcases List.mem_cons.mp ht with ht | ht
        · cases ht
        · exact hc.recalling t ht
  | disconnect => exact hother _ rfl rfl rfl
  | publish qos => exact hother _ rfl rfl rfl
  | subscribe n => exact hother _ rfl rfl rfl
  | unsubscribe n => exact hother _ rfl rfl rfl

/-- A thread that is in no connect leaves. -/
theorem Handed.leave {c c' : AsyncClient} {w : Work} (hc : c.Handed)
    (hkind : connectWork w = false) (hout : c'.handedOut = c.handedOut)
    (htok : c'.connTok = c.connTok) (hwork : c'.work = c.work.erase w) : c'.Handed := by
  refine hc.keep (by rw [hout]; exact fun _ h => h) (by rw [htok]; exact fun _ h => h) ?_ ?_
  · intro v hv hvc t hvt
    have hne : v ≠ w := by
      rintro rfl
      rw [hkind] at hvc
      cases hvc
    exact Or.inr ⟨v, by rw [hwork]; exact (List.mem_erase_of_ne hne).mpr hv, hvc, hvt⟩
  · intro t ht
    rw [hwork] at ht
    exact List.mem_of_mem_erase ht

theorem removeToken_handedOut (c : AsyncClient) (t : Nat) :
    (c.removeToken t).handedOut = c.handedOut := by
  unfold removeToken
  split
  · rfl
  · rfl

theorem handed_step {c c' : AsyncClient} {l : ClientLabel} (hc : c.Handed)
    (hm : Moves c l c') : c'.Handed := by
  cases hm with
  | begin r hr => exact hc.begin r
  | unconnected hconn => exact hc
  | reconnect t hconn hnone =>
      -- no connect is under way, so its token was handed out before
      have ht : t ∈ c.handedOut := by
        rcases hc.conn t hconn with hold | ⟨w, hw, hwc, -⟩
        · exact hold
        · exact absurd hwc (by simpa using (List.any_eq_false.mp hnone) w hw)
      refine ⟨?_, ?_⟩
      · intro u hu
        obtain rfl : t = u := Option.some.inj (hconn.symm.trans hu)
        exact Or.inl ht
      · intro u hu
        rcases List.mem_cons.mp hu with hu | hu
        · obtain rfl : u = t := by simpa using hu
          exact ht
        · exact hc.recalling u hu
  | accept w t msgId ws hw ht hws =>
      refine hc.keep (fun _ h => List.mem_cons_of_mem _ h) (fun _ h => h) ?_ ?_
      · intro v hv hvc u hvu
        by_cases hvw : v = w
        · subst hvw
          obtain rfl : t = u := Option.some.inj (ht.symm.trans hvu)
          exact Or.inl List.mem_cons_self
        · exact Or.inr ⟨v, List.mem_append_right _ ((List.mem_erase_of_ne hvw).mpr hv), hvc, hvu⟩
      · intro u hu
        rcases List.mem_append.mp hu with hu | hu
        · exact absurd (hws _ hu) (by simp)
        · exact List.mem_of_mem_erase hu
  | refuse w t hw ht =>
      refine hc.keep (fun _ h => h) (fun _ h => h) ?_ ?_
      · intro v hv hvc u hvu
        -- a refused connect is in hand of the thread that takes its token back
        by_cases hvw : v = w
        · subst hvw
          obtain rfl : t = u := Option.some.inj (ht.symm.trans hvu)
          exact Or.inr ⟨.refused t (connectWork v), List.mem_cons_self, by rw [hvc]; rfl, rfl⟩
        · exact Or.inr ⟨v, List.mem_cons_of_mem _ ((List.mem_erase_of_ne hvw).mpr hv), hvc, hvu⟩
      · intro u hu
        rcases List.mem_cons.mp hu with hu | hu
        · cases hu
        · exact List.mem_of_mem_erase hu
  | sent t msgId hw => exact hc.leave rfl rfl rfl rfl
  | remove w t hw ht hkind hne =>
      exact hc.leave hkind (removeToken_handedOut c t) (removeToken_frame c t).2.2.1
        (goOn_removeToken_work c t w)
  | disconnect t u hw hconn =>
      refine ⟨by rintro v ⟨⟩, ?_⟩
      intro v hv
      have hmem : .recalling v ∈ (c.removeToken u).work := List.mem_of_mem_erase hv
      rw [(removeToken_frame c u).2.1] at hmem
      show v ∈ (c.removeToken u).handedOut
      rw [removeToken_handedOut]
      exact hc.recalling v hmem
  | nothing t hw hconn =>
      refine ⟨?_, fun v hv => hc.recalling v (List.mem_of_mem_erase hv)⟩
      intro v hv
      rw [show c.connTok = some v from hv] at hconn
      cases hconn
  | answer t a ht =>
      refine hc.keep (fun _ h => h) (fun _ h => h) ?_ ?_
      · intro v hv hvc u hvu
        exact Or.inr ⟨v, List.mem_cons_of_mem _ hv, hvc, hvu⟩
      · intro u hu
        simpa using hu

theorem begin_isComplete (c : AsyncClient) (r : Request) (t : Nat) :
    (c.begin r).isComplete t = c.isComplete t := by
  unfold isComplete
  rw [begin_toks]
  by_cases hlt : t < c.toks.length
  · rw [List.getElem?_append_left hlt]
  · rw [List.getElem?_eq_none (by omega : c.toks.length ≤ t)]
    by_cases heq : t = c.toks.length
    · subst heq
      rw [List.getElem?_concat_length]
      rfl
    · rw [List.getElem?_eq_none (by simp; omega)]

theorem modifyToken_isComplete_ne (c : AsyncClient) (f : Token → Token) {t u : Nat} (h : u ≠ t) :
    (c.modifyToken t f).isComplete u = c.isComplete u := by
  unfold isComplete
  rw [modifyToken_entry]
  simp only [if_neg (Ne.symm h), Option.map_id']

theorem modifyToken_isComplete {c : AsyncClient} {f : Token → Token}
    (hf : ∀ tok, tok.complete = true → (f tok).complete = true) {t u : Nat}
    (h : c.isComplete u = true) : (c.modifyToken t f).isComplete u = true := by
  by_cases hut : u = t
  · subst hut
    unfold isComplete at h ⊢
    rw [modifyToken_entry]
    cases he : c.toks[u]? with
    | none =>
        rw [he] at h
        cases h
    | some e =>
        rw [he] at h
        simp only [Option.map_some, if_true, Option.getD_some] at h ⊢
        exact hf _ h
  · rw [modifyToken_isComplete_ne c f hut]
    exact h

theorem answer_isComplete {c : AsyncClient} {t : Nat} {type : TokenType}
    (h : c.typeOf t = some type) (a : Answer) :
    (c.modifyToken t (Token.answer · a)).isComplete t = true := by
  obtain ⟨e, he, -⟩ := Option.map_eq_some_iff.mp h
  unfold isComplete
  rw [modifyToken_entry, he]
  simp only [Option.map_some, if_true, Option.getD_some]
  exact Token.answer_complete e.tok a

/-- A token that the C library has yet to answer is one of the client's. -/
theorem Wf.typeOf_outstanding {c : AsyncClient} (hc : c.Wf) {t : Nat} (h : t ∈ c.outstanding) :
    ∃ type, c.typeOf t = some type := by
  have hp : t ∈ c.pending := hc.balanced.mem_iff.mpr (List.mem_append_left _ h)
  rcases List.mem_append.mp hp with hp | hp
  · exact ⟨.publish, hc.sorted.delivery t hp⟩
  · obtain ⟨type, htype, -⟩ := hc.sorted.other t hp
    exact ⟨type, htype⟩

/-- A step that takes nothing away that a token is live by. -/
theorem Live.keep {c c' : AsyncClient} (hc : c.Live) (hout : c'.handedOut = c.handedOut)
    (hcomp : ∀ t, c.isComplete t = true → c'.isComplete t = true)
    (hlib : c.outstanding ⊆ c'.outstanding)
    (hwork : ∀ t, .recalling t ∈ c.work → .recalling t ∈ c'.work) : c'.Live := by
  intro t ht
  rw [hout] at ht
  rcases hc t ht with h | h | h
  · exact Or.inl (hcomp t h)
  · exact Or.inr (Or.inl (hlib h))
  · exact Or.inr (Or.inr (hwork t h))

theorem removeToken_isComplete (c : AsyncClient) (t u : Nat) :
    (c.removeToken t).isComplete u = c.isComplete u := by
  unfold isComplete
  rw [(removeToken_frame c t).1]

/-- A step keeps every token live, one that abandons the connect token apart. -/
theorem live_step {c c' : AsyncClient} {l : ClientLabel} (hc : c.Live) (hwf : c.Wf)
    (ha : ¬ c.Abandons l) (hm : Moves c l c') : c'.Live := by
  cases hm with
  | begin r hr =>
      have hcomp : ∀ t, c.isComplete t = true → (c.begin r).isComplete t = true := by
        intro t ht
        rw [begin_isComplete]
        exact ht
      cases r with
      | _ => exact hc.keep rfl hcomp (fun _ h => h) fun _ h => List.mem_cons_of_mem _ h
  | unconnected hconn => exact hc
  | reconnect t hconn hnone =>
      intro u hu
      by_cases hut : u = t
      · subst hut
        exact Or.inr (Or.inr List.mem_cons_self)
      · rcases hc u hu with h | h | h
        · left
          show (c.modifyToken t Token.reset).isComplete u = true
          rw [modifyToken_isComplete_ne c _ hut]
          exact h
        · exact Or.inr (Or.inl h)
        · exact Or.inr (Or.inr (List.mem_cons_of_mem _ h))
  | accept w t msgId ws hw ht hws =>
      intro u hu
      rcases List.mem_cons.mp hu with rfl | hu
      · exact Or.inr (Or.inl List.mem_cons_self)
      · rcases hc u hu with h | h | h
        · exact Or.inl h
        · exact Or.inr (Or.inl (List.mem_cons_of_mem _ h))
        · by_cases hwu : .recalling u = w
          · subst hwu
            obtain rfl : u = t := Option.some.inj ht
            exact Or.inr (Or.inl List.mem_cons_self)
          · exact Or.inr (Or.inr (List.mem_append_right _ ((List.mem_erase_of_ne hwu).mpr h)))
  | refuse w t hw ht =>
      intro u hu
      rcases hc u hu with h | h | h
      · exact Or.inl h
      · exact Or.inr (Or.inl h)
      · by_cases hwu : .recalling u = w
        · -- the reconnect that is refused: something else must complete the token
          subst hwu
          by_contra hnone
          refine ha ⟨?_, ?_, ?_⟩
          · exact eq_false_of_ne_true fun hcomp => hnone (Or.inl hcomp)
          · exact fun hout => hnone (Or.inr (Or.inl hout))
          · exact fun hrec => hnone (Or.inr (Or.inr (List.mem_cons_of_mem _ hrec)))
        · exact Or.inr (Or.inr (List.mem_cons_of_mem _ ((List.mem_erase_of_ne hwu).mpr h)))
  | sent t msgId hw =>
      refine hc.keep rfl ?_ (fun _ h => h) fun u h => (List.mem_erase_of_ne (by simp)).mpr h
      intro u hu
      exact modifyToken_isComplete (f := fun tok => tok.setMessageId msgId) (fun _ h => h) hu
  | remove w t hw ht hkind hne =>
      refine hc.keep (removeToken_handedOut c t) ?_ ?_ ?_
      · intro u hu
        exact (removeToken_isComplete c t u).trans hu
      · exact fun u hu => (removeToken_frame c t).2.2.2.1 ▸ hu
      · intro u hu
        have hwu : .recalling u ≠ w := by
          rintro rfl
          obtain rfl : u = t := Option.some.inj ht
          exact hne rfl
        rw [goOn_removeToken_work]
        exact (List.mem_erase_of_ne hwu).mpr hu
  | disconnect t v hw hconn =>
      refine hc.keep (removeToken_handedOut c v) ?_ ?_ ?_
      · intro u hu
        exact (removeToken_isComplete c v u).trans hu
      · exact fun u hu => (removeToken_frame c v).2.2.2.1 ▸ hu
      · intro u hu
        show .recalling u ∈ (c.removeToken v).work.erase _
        rw [(removeToken_frame c v).2.1]
        exact (List.mem_erase_of_ne (by simp)).mpr hu
  | nothing t hw hconn =>
      exact hc.keep rfl (fun _ h => h) (fun _ h => h) fun u h =>
        (List.mem_erase_of_ne (by simp)).mpr h
  | answer t a ht =>
      intro u hu
      by_cases hut : u = t
      · subst hut
        obtain ⟨type, htype⟩ := hwf.typeOf_outstanding ht
        exact Or.inl (answer_isComplete htype a)
      · rcases hc u hu with h | h | h
        · left
          show (c.modifyToken t (Token.answer · a)).isComplete u = true
          rw [modifyToken_isComplete_ne c _ hut]
          exact h
        · exact Or.inr (Or.inl ((List.mem_erase_of_ne hut).mpr h))
        · exact Or.inr (Or.inr (List.mem_cons_of_mem _ h))

/-- A step that abandons the connect token leaves whoever waits for it waiting. -/
theorem not_abandons_of_live {c c' : AsyncClient} {l : ClientLabel} (hh : c.Handed)
    (h : c.step l = some c') (hc' : c'.Live) : ¬ c.Abandons l := by
  intro ha
  unfold Abandons at ha
  split at ha
  · rename_i t
    obtain ⟨hcomp, hout, hrec⟩ := ha
    simp only [step] at h
    split at h
    · rename_i hmem
      obtain rfl := Option.some.inj h
      rcases hc' t (hh.recalling t hmem) with hl | hl | hl
      · have heq : c.isComplete t = true := hl
        rw [hcomp] at heq
        cases heq
      · exact hout hl
      · rcases List.mem_cons.mp hl with hl | hl
        · cases hl
        · exact hrec hl
    · cases h
  · exact ha

/-- In every run, with any number of threads: whoever waits for a token that a request has returned
is always going to get an end, if and only if the C library never refuses a reconnect while nothing
else is under way that completes the connect token. -/
theorem live_exact {userCallback : Bool} {ls : List ClientLabel} {c : AsyncClient}
    (h : exec step (init userCallback) ls = some c) :
    Always step Live (init userCallback) ls ↔
      EachStep step (fun u l => ¬ u.Abandons l) (init userCallback) ls := by
  refine always_iff_eachStep (I := fun u => u.Live ∧ u.Wf ∧ u.Handed) (fun u hu => hu.1) ?_ ?_ ?_ h
  · rintro u l v ⟨hlive, hwf, hh⟩ ha hstep
    have hm := step_moves hstep
    exact ⟨live_step hlive hwf ha hm, wf_step hwf hstep, handed_step hh hm⟩
  · rintro u l v ⟨-, -, hh⟩ hstep hlive
    exact not_abandons_of_live hh hstep hlive
  · refine ⟨by rintro t ⟨⟩, init_wf userCallback, ?_⟩
    exact ⟨by rintro t ⟨⟩, by rintro t ⟨⟩⟩

/-- A connection that is made, and a reconnect the C library refuses. -/
def refusedReconnect : List ClientLabel :=
  [.begin (.connect 0), .accept (.calling 0 (.connect 0)) 1, .answer 0 (.success none),
    .finish (.answered 0), .reconnect, .refuse (.recalling 0)]

theorem live_exact_refusedReconnect : ¬ Always step Live (init true) refusedReconnect := by
  obtain ⟨c, hc, -⟩ : ∃ c, exec step (init true) refusedReconnect = some c ∧ c.handedOut = [0] :=
    exists_exec_of_any (by decide +kernel)
  rw [live_exact hc]
  decide +kernel

end BupApp.Mqtt.AsyncClient
