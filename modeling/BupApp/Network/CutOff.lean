/-
# BupApp.Network.CutOff -- what a lost connection leaves

A client whose connection is lost is not told so; it finds the null when it has taken the messages
that had arrived.  Nothing that anybody does in the meantime adds to them or takes from them, and
when it has taken the null it takes nothing more.

The server is told at once and ends, or is never told.  So its loop never sees the null it tests for:
`checkReconnect`, with `tryReconnect` and the new subscription in it, and what follows the loop are
never run.
-/
import BupApp.Network.Implements

namespace BupApp.LibNet

open BupApp.Lib.Text BupApp.Lib.PubSub BupApp.Lib.Transition

variable {ι : Type} [DecidableEq ι] {cfg : NetConfig ι}

/-! ## The server -/

theorem loop_step {s s' : Net ι} {l : NetLabel ι} (hm : Net.Moves cfg s l s')
    (h : s.srv.loop ≠ .left) : s'.srv.loop ≠ .left := by
  cases hm with
  | quiet hup halive hl hnn hacts hes =>
      cases hacts with
      | consume => exact absurd rfl (hl _)
      | nullReconnected => exact hnn.elim
      | nullFailed => exact hnn.elim
      | nullThrew => exact hnn.elim
      | handler hk hmove => exact h
      | crashes hc => exact h
      | _ => simp
  | serverRestart => simp [Server.start]
  | consume => simp
  | srvSubscribe => simp [Net.subscribeTo]
  | keySent => simp [Net.publish]
  | exec => exact h
  | reply => exact h
  | _ => exact h

theorem loop_gapStep {s s' : Net ι} {l : GapLabel ι} (hm : Net.GapMoves cfg s l s')
    (h : s.srv.loop ≠ .left) : s'.srv.loop ≠ .left := by
  cases hm with
  | net hm => exact loop_step hm h
  | swallow => exact h

theorem consumeNull_refused {s : LibNet ι} {t : Net ι} (h : s.Amounts t) (r : Server.Reconnect) :
    s.step cfg (.process (.server (.consumeNull r))) = none := by
  cases hs : s.step cfg (.process (.server (.consumeNull r))) with
  | none => rfl
  | some s' =>
      cases step_moves hs with
      | online hl => exact hl.elim
      | restart hk => cases hk
      | consumeNull hserving hq => exact absurd hq (h.2.no_null hserving.2.1)
      | acts hserving hl hnn => exact hnn.elim

theorem loop_ne_left {ls : List (LibLabel ι)} {s : LibNet ι}
    (h : exec (LibNet.step cfg) init ls = some s) : s.net.srv.loop ≠ .left := by
  obtain ⟨t, ht, hs⟩ := (simulates_net cfg).exec init_runsAs h
  have hleft : t.srv.loop ≠ .left :=
    inv_exec (I := fun u : Net ι => u.srv.loop ≠ .left)
      (fun _ _ _ hu hstep => loop_gapStep (Net.gapStep_moves hstep) hu)
      (by simp [Net.init, Server.start]) ht
  rw [hs.amounts.1] at hleft
  exact hleft

/-- In every run, connections lost at any time included: the server's loop is never given a null and
never left. -/
theorem server_exits {ls : List (LibLabel ι)} {s : LibNet ι}
    (h : exec (LibNet.step cfg) init ls = some s) :
    (∀ r, .process (.server (.consumeNull r)) ∉ ls) ∧ s.net.srv.loop ≠ .left := by
  constructor
  · intro r hmem
    obtain ⟨pre, post, rfl⟩ := List.append_of_mem hmem
    obtain ⟨u, hu, hrest⟩ := exec_append_some.mp h
    obtain ⟨v, hv, -⟩ := exec_cons_some.mp hrest
    obtain ⟨t, -, hruns⟩ := (simulates_net cfg).exec init_runsAs hu
    rw [consumeNull_refused hruns.amounts r] at hv
    cases hv
  · exact loop_ne_left h

theorem server_exits_keyArrived :
    ∃ s, exec (LibNet.step pair) init keyArrived = some s ∧
      (∀ r, .process (.server (.consumeNull r)) ∉ keyArrived) ∧ s.net.srv.loop ≠ .left := by
  obtain ⟨s, hs, -⟩ : ∃ s, exec (LibNet.step pair) init keyArrived = some s ∧ s.net.up = true :=
    exists_exec_of_any (by decide +kernel)
  exact ⟨s, hs, server_exits hs⟩

/-! ## What the others do -/

/-- The client that takes a step. -/
def actor : NetLabel ι → Option ι
  | .start i | .stop i | .register i _ | .subscribe i | .take i | .request i _ => some i
  | .serverSetups | .serverRestart | .server _ => none

theorem clients_of_ne {s s' : Net ι} {l : NetLabel ι} {i : ι} (hm : Net.Moves cfg s l s')
    (hl : actor l ≠ some i) : s'.clients i = s.clients i := by
  have hother : ∀ {j c}, some j ≠ some i → (s.setClient j c).clients i = s.clients i :=
    fun hj => Function.update_of_ne (fun hij => hj (congrArg some hij.symm)) ..
  cases hm with
  | start | stop | register | subscribe | take => exact hother hl
  | _ => rfl

/-- Nothing about the client `i` and its connection is different. -/
structure Same (i : ι) (s s' : LibNet ι) : Prop where
  client : s'.net.clients i = s.net.clients i
  que : s'.que (.client i) = s.que (.client i)
  callback : s'.callback (.client i) = s.callback (.client i)
  lost : s'.lost (.client i) = s.lost (.client i)
  idle : s'.idle i = s.idle i

omit [DecidableEq ι] in
theorem same_of_net {s : LibNet ι} {n : Net ι} {i : ι} (h : n.clients i = s.net.clients i) :
    Same i s { s with net := n } := ⟨h, rfl, rfl, rfl, rfl⟩

theorem same_of_que {s : LibNet ι} {k : Party ι} {i : ι} (hk : .client i ≠ k) {n : Net ι}
    (hn : n.clients i = s.net.clients i) (q : List (Option (Msg ι))) :
    Same i s { s.setQue k q with net := n } :=
  ⟨hn, setQue_of_ne hk, rfl, rfl, rfl⟩

theorem same_of_gone {s : LibNet ι} {k : Party ι} {i : ι} (hk : .client i ≠ k) {n : Net ι}
    (hn : n.clients i = s.net.clients i) : Same i s ({ s with net := n }.gone k) :=
  ⟨hn, gone_que_of_ne hk, gone_callback_of_ne hk, Function.update_of_ne hk .., rfl⟩

/-- Another client goes idle, or an idle one ends. -/
theorem Same.idles {s s' : LibNet ι} {i j : ι} (h : Same i s s') (hj : i ≠ j) (b : Bool) :
    Same i s { s' with idle := Function.update s'.idle j b } :=
  ⟨h.client, h.que, h.callback, h.lost, (Function.update_of_ne hj ..).trans h.idle⟩

theorem same_of_ended {s : LibNet ι} {i j : ι} (hj : i ≠ j) : Same i s (s.ended j) :=
  same_of_gone (by simpa using hj) (Function.update_of_ne hj ..)

/-- The client `i` does nothing, and its connection is not touched. -/
def Apart (i : ι) : LibLabel ι → Prop
  | .process l => actor l ≠ some i
  | .disable k | .enable k | .deliver k | .lose k => .client i ≠ k

/-- A step of somebody else. -/
theorem same_of_apart {s s' : LibNet ι} {l : LibLabel ι} {i : ι} (hl : Apart i l)
    (hm : Moves cfg s l s') : Same i s s' := by
  have hne : ∀ {j}, some j ≠ some i → i ≠ j := fun hj hij => hj (congrArg some hij.symm)
  have hsame : Same i s s := ⟨rfl, rfl, rfl, rfl, rfl⟩
  have hperf : ∀ p, (s.net.perform cfg p).clients i = s.net.clients i :=
    fun p => congrFun (perform_clients s.net p) i
  cases hm with
  | disable | enable => exact ⟨rfl, rfl, setCallback_of_ne hl, rfl, rfl⟩
  | swallow => exact ⟨rfl, rfl, rfl, rfl, rfl⟩
  | arrive => exact ⟨rfl, setQue_of_ne hl, rfl, rfl, rfl⟩
  | lose => exact ⟨rfl, setQue_of_ne hl, rfl, Function.update_of_ne hl .., rfl⟩
  | online hgoes hn => exact same_of_net (clients_of_ne (Net.step_moves hn) hl)
  | @restart l k n hk hn =>
      refine same_of_gone ?_ (clients_of_ne (Net.step_moves hn) hl)
      rintro rfl
      rcases ends_cases hk with ⟨-, ⟨⟩⟩ | ⟨j, rfl, ⟨⟩, -⟩
      exact hl rfl
  | stopIdle => exact hsame.idles (hne hl) false
  | registerLost => exact same_of_ended (hne hl)
  | subscribeLost => exact same_of_net (Function.update_of_ne (hne hl) ..)
  | subscribeDeaf => exact (same_of_ended (hne hl)).idles (hne hl) true
  | requestLost => exact hsame
  | take => exact same_of_que (by simpa using hne hl) (Function.update_of_ne (hne hl) ..) _
  | takeNull => exact (same_of_ended (hne hl)).idles (hne hl) true
  | consume => exact same_of_que (by simp) (hperf _) _
  | consumeNull => exact same_of_que (by simp) (hperf _) _
  | acts => exact same_of_net (hperf _)

/-! ## A client -/

/-- The client `i` is cut off, with the messages `ms` still to take. -/
structure CutOff (s : LibNet ι) (i : ι) (ms : List (Msg ι)) : Prop where
  lost : s.lost (.client i) = true
  consuming : s.consuming (.client i) = true
  busy : s.idle i = false
  past : (s.net.clients i).pc ≠ .stopped ∧ (s.net.clients i).pc ≠ .connected
  que : s.que (.client i) = ms.map some ++ [none]

/-- The client `i` runs and takes nothing any more. -/
structure Idle (s : LibNet ι) (i : ι) : Prop where
  idle : s.idle i = true
  stopped : (s.net.clients i).pc = .stopped

omit [DecidableEq ι] in
theorem CutOff.same {s s' : LibNet ι} {i : ι} {ms : List (Msg ι)} (h : s.CutOff i ms)
    (hs : Same i s s') : s'.CutOff i ms := by
  refine ⟨hs.lost.trans h.lost, ?_, hs.idle.trans h.busy, ?_, hs.que.trans h.que⟩
  · rw [LibNet.consuming, hs.callback]
    exact h.consuming
  · rw [hs.client]
    exact h.past

/-- A step other than its own takes leaves a client that is cut off as it is. -/
theorem CutOff.frame {s s' : LibNet ι} {i : ι} {ms : List (Msg ι)} {l : LibLabel ι}
    (h : s.CutOff i ms) (hl : l ≠ .process (.stop i)) (htake : l ≠ .process (.take i))
    (hm : Moves cfg s l s') :
    s'.CutOff i ms ∧ (s'.net.clients i).taken = (s.net.clients i).taken := by
  by_cases hapart : Apart i l
  · have hsame := same_of_apart hapart hm
    exact ⟨h.same hsame, by rw [hsame.client]⟩
  have hself : ∀ {j}, ¬ (some j ≠ some i) → j = i := by
    intro j hj
    exact Option.some.inj (not_not.mp hj)
  -- nothing happens on a connection that is lost
  have hconn : ∀ {k}, s.lost k = false → .client i ≠ k := by
    rintro _ hk rfl
    rw [h.lost] at hk
    cases hk
  cases hm with
  | disable hlost | enable hlost | swallow hlost | arrive hlost | lose hlost =>
      exact absurd (hconn hlost) hapart
  | @online l n hgoes hn =>
      exfalso
      cases l with
      | start j =>
          obtain rfl := hself hapart
          simp [Net.step, h.past.1] at hn
      | register j info =>
          obtain rfl := hself hapart
          exact hconn hgoes rfl
      | subscribe j =>
          obtain rfl := hself hapart
          exact hconn hgoes.1 rfl
      | request j path =>
          obtain rfl := hself hapart
          exact hconn hgoes.2 rfl
      | serverSetups => exact hapart (by simp [Apart, actor])
      | stop | take | serverRestart | server => exact hgoes.elim
  | restart hk hn =>
      rcases ends_cases hk with ⟨rfl, -⟩ | ⟨j, rfl, -, -⟩
      · exact absurd (by simp [Apart, actor]) hapart
      · obtain rfl := hself hapart
        exact absurd rfl hl
  | stopIdle =>
      obtain rfl := hself hapart
      exact absurd rfl hl
  | registerLost hlost hpc =>
      -- a client that registers has no queue yet
      obtain rfl := hself hapart
      exact absurd hpc h.past.2
  | @subscribeLost j hlost hpc hcons =>
      obtain rfl := hself hapart
      -- the subscription throws, and the client comes to wait for its key
      have hclient : (s.setClientPc j .waiting).net.clients j =
          { s.net.clients j with pc := .waiting } := Function.update_self ..
      exact ⟨⟨h.lost, h.consuming, h.busy, by simp [hclient], h.que⟩, by rw [hclient]⟩
  | subscribeDeaf hlost hpc hcons =>
      obtain rfl := hself hapart
      rw [h.consuming] at hcons
      cases hcons
  | requestLost => exact ⟨h, rfl⟩
  | take | takeNull =>
      obtain rfl := hself hapart
      exact absurd rfl htake
  | consume | consumeNull | acts => exact absurd (by simp [Apart, actor]) hapart

/-- A take of a client that is cut off. -/
theorem CutOff.take {s s' : LibNet ι} {i : ι} {ms : List (Msg ι)} (h : s.CutOff i ms)
    (hm : Moves cfg s (.process (.take i)) s') :
    match ms with
    | [] => s'.Idle i ∧ (s'.net.clients i).taken = (s.net.clients i).taken
    | m :: rest => s'.CutOff i rest ∧
        (s'.net.clients i).taken = (s.net.clients i).taken ++ [m] := by
  cases hm with
  | online hgoes => exact hgoes.elim
  | restart hk => cases hk
  | @take _ m rest hpc hq =>
      rw [h.que] at hq
      cases ms with
      | nil => cases hq
      | cons m rest =>
          cases hq
          have hsub : Net.Subscribed ((s.net.clients i).take (cfg.ip i) m).pc :=
            Net.subscribed_take _ m hpc
          have htaken : ((s.net.clients i).take (cfg.ip i) m).taken =
              (s.net.clients i).taken ++ [m] := by
            unfold AppClient.take
            split <;> rfl
          have hclient : (s.net.setClient i ((s.net.clients i).take (cfg.ip i) m)).clients i =
              (s.net.clients i).take (cfg.ip i) m := Function.update_self ..
          refine ⟨⟨h.lost, h.consuming, h.busy, ?_, Function.update_self ..⟩, ?_⟩
          · rw [hclient]
            rcases hsub with hpc | hpc <;> simp [hpc]
          · rw [hclient, htaken]
  | takeNull hpc hq =>
      rw [h.que] at hq
      cases ms with
      | cons m rest => cases hq
      | nil =>
          have hclient : ((s.goesIdle i).net.clients i) = { s.net.clients i with pc := .stopped } :=
            Function.update_self ..
          exact ⟨⟨Function.update_self .., by rw [hclient]⟩, by rw [hclient]⟩

/-- A client that takes nothing any more goes on so until its process ends. -/
theorem Idle.step {s s' : LibNet ι} {i : ι} {l : LibLabel ι} (h : s.Idle i)
    (hl : l ≠ .process (.stop i)) (hm : Moves cfg s l s') :
    l ≠ .process (.take i) ∧ s'.Idle i ∧ s'.net.clients i = s.net.clients i := by
  by_cases hapart : Apart i l
  · have hsame := same_of_apart hapart hm
    refine ⟨?_, ⟨hsame.idle.trans h.idle, ?_⟩, hsame.client⟩
    · rintro rfl
      exact hapart rfl
    · rw [hsame.client]
      exact h.stopped
  -- what is left are its own steps; of a process that counts as stopped only requests go on
  have hself : ∀ {j}, ¬ (some j ≠ some i) → j = i := by
    intro j hj
    exact Option.some.inj (not_not.mp hj)
  have hconn : s.connected (.client i) = false := by simp [connected, h.stopped]
  have hgone : ∀ {pc}, (s.net.clients i).pc = pc → pc = .stopped := by
    intro pc hpc
    rw [← hpc, h.stopped]
  cases hm with
  | disable hlost hk | enable hlost hk =>
      obtain rfl := not_not.mp hapart
      simp [starting, h.stopped] at hk
  | swallow hlost hrun | arrive hlost hrun =>
      obtain rfl := not_not.mp hapart
      simp [running, hconn] at hrun
  | lose hlost hk =>
      obtain rfl := not_not.mp hapart
      simp [hconn] at hk
  | @online l n hgoes hn =>
      exfalso
      cases l with
      | start j =>
          obtain rfl := hself hapart
          simp [goesOn, h.idle] at hgoes
      | register j | subscribe j =>
          obtain rfl := hself hapart
          simp [Net.step, h.stopped] at hn
      | request j path =>
          obtain rfl := hself hapart
          simp [goesOn, h.idle] at hgoes
      | serverSetups => exact hapart (by simp [Apart, actor])
      | stop | take | serverRestart | server => exact hgoes.elim
  | restart hk hn =>
      rcases ends_cases hk with ⟨rfl, -⟩ | ⟨j, rfl, -, -⟩
      · exact absurd (by simp [Apart, actor]) hapart
      · obtain rfl := hself hapart
        exact absurd rfl hl
  | stopIdle =>
      obtain rfl := hself hapart
      exact absurd rfl hl
  | registerLost hlost hpc | subscribeLost hlost hpc | subscribeDeaf hlost hpc =>
      obtain rfl := hself hapart
      cases hgone hpc
  | requestLost => exact ⟨by simp, h, rfl⟩
  | take hpc | takeNull hpc =>
      obtain rfl := hself hapart
      rcases hpc with hpc | hpc <;> cases hgone hpc
  | consume | consumeNull | acts => exact absurd (by simp [Apart, actor]) hapart

theorem Idle.run {s t : LibNet ι} {i : ι} {ls : List (LibLabel ι)} (h : s.Idle i)
    (hls : .process (.stop i) ∉ ls) (hrun : exec (LibNet.step cfg) s ls = some t) :
    .process (.take i) ∉ ls ∧ t.Idle i ∧ t.net.clients i = s.net.clients i := by
  induction ls generalizing s with
  | nil =>
      obtain rfl := Option.some.inj hrun
      exact ⟨List.not_mem_nil, h, rfl⟩
  | cons l ls ih =>
      obtain ⟨u, hu, hrest⟩ := exec_cons_some.mp hrun
      rw [List.mem_cons, not_or] at hls
      obtain ⟨hne, hidle, hclient⟩ := h.step (Ne.symm hls.1) (step_moves hu)
      obtain ⟨hmem, ht, hclient'⟩ := ih hidle hls.2 hrest
      refine ⟨?_, ht, hclient'.trans hclient⟩
      rw [List.mem_cons, not_or]
      exact ⟨Ne.symm hne, hmem⟩

/-- How a client comes to be idle. -/
theorem idle_cases {s s' : LibNet ι} {l : LibLabel ι} (hm : Moves cfg s l s') :
    s'.idle = s.idle ∨ (∃ j, s' = s.goesIdle j) ∨
      ∃ j, l = .process (.stop j) ∧ s'.idle = Function.update s.idle j false := by
  cases hm with
  | stopIdle => exact Or.inr (Or.inr ⟨_, rfl, rfl⟩)
  | subscribeDeaf => exact Or.inr (Or.inl ⟨_, rfl⟩)
  | takeNull => exact Or.inr (Or.inl ⟨_, rfl⟩)
  | _ => exact Or.inl rfl

theorem stopped_of_idle {ls : List (LibLabel ι)} {s : LibNet ι}
    (h : exec (LibNet.step cfg) init ls = some s) {i : ι} (hi : s.idle i = true) :
    (s.net.clients i).pc = .stopped := by
  refine inv_exec (I := fun u : LibNet ι => ∀ i, u.idle i = true → (u.net.clients i).pc = .stopped)
    ?_ (fun i hi => by cases hi) h i hi
  intro u l v hidle hv i hi
  have hstep : u.idle i = true → l ≠ .process (.stop i) → (v.net.clients i).pc = .stopped :=
    fun h hl => (Idle.step ⟨h, hidle i h⟩ hl (step_moves hv)).2.1.stopped
  -- the step makes nobody idle, or one client, or ends one that was
  rcases idle_cases (step_moves hv) with hsame | ⟨j, rfl⟩ | ⟨j, rfl, hset⟩
  · rw [hsame] at hi
    refine hstep hi ?_
    rintro rfl
    simp only [LibNet.step, hi, if_true] at hv
    cases hv
    have hfalse := congrFun hsame i
    simp [hi] at hfalse
  · by_cases hij : i = j
    · subst hij
      simp [goesIdle, ended, gone, setQue, setCallback, setClientPc, Net.setClient]
    · rw [show (u.goesIdle j).idle i = u.idle i from Function.update_of_ne hij ..] at hi
      rw [show (u.goesIdle j).net.clients i = u.net.clients i from Function.update_of_ne hij ..]
      exact hidle i hi
  · by_cases hij : i = j
    · subst hij
      rw [hset, Function.update_self] at hi
      cases hi
    · rw [hset, Function.update_of_ne hij] at hi
      exact hstep hi (by simpa using Ne.symm hij)

/-- What is left of a client that was cut off with the messages `ms`, after it has taken `n` times,
`taken` being what it had taken before. -/
structure After (t : LibNet ι) (i : ι) (ms taken : List (Msg ι)) (n : Nat) : Prop where
  le : n ≤ ms.length + 1
  taken : (t.net.clients i).taken = taken ++ ms.take n
  more : n ≤ ms.length → t.CutOff i (ms.drop n)
  idle : n = ms.length + 1 → t.Idle i

theorem CutOff.after {s t : LibNet ι} {i : ι} {ms : List (Msg ι)} {ls : List (LibLabel ι)}
    (h : s.CutOff i ms) (hls : .process (.stop i) ∉ ls)
    (hrun : exec (LibNet.step cfg) s ls = some t) :
    t.After i ms (s.net.clients i).taken (ls.count (.process (.take i))) := by
  induction ls generalizing s ms with
  | nil =>
      obtain rfl := Option.some.inj hrun
      refine ⟨Nat.zero_le _, by simp, fun _ => h, ?_⟩
      simp
  | cons l ls ih =>
      obtain ⟨u, hu, hrest⟩ := exec_cons_some.mp hrun
      rw [List.mem_cons, not_or] at hls
      by_cases htake : l = .process (.take i)
      · subst htake
        rw [List.count_cons_self]
        have hnext := h.take (step_moves hu)
        cases ms with
        | nil =>
            -- the null: from here on nothing is taken
            obtain ⟨hidle, htaken⟩ := hnext
            obtain ⟨hmem, hidle', hclient⟩ := hidle.run hls.2 hrest
            rw [List.count_eq_zero_of_not_mem hmem]
            refine ⟨le_refl _, ?_, fun hle => absurd hle (by simp), fun _ => hidle'⟩
            rw [hclient, htaken, List.take_nil, List.append_nil]
        | cons m rest =>
            obtain ⟨hcut, htaken⟩ := hnext
            have hafter := ih hcut hls.2 hrest
            refine ⟨Nat.succ_le_succ hafter.le, ?_, ?_, ?_⟩
            · rw [hafter.taken, htaken, List.append_assoc]
              rfl
            · exact fun hle => hafter.more (Nat.le_of_succ_le_succ hle)
            · exact fun hn => hafter.idle (Nat.succ.inj hn)
      · rw [List.count_cons_of_ne htake]
        obtain ⟨hcut, htaken⟩ := h.frame (Ne.symm hls.1) htake (step_moves hu)
        rw [← htaken]
        exact ih hcut hls.2 hrest

end BupApp.LibNet
