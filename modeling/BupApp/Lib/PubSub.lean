/-
# BupApp.Lib.PubSub -- a publish/subscribe broker with retained messages

Connections subscribe to topics and publish on them.  A publication goes to the queue of every
connection that subscribes to its topic at that moment, and stays as the retained message of the
topic until the next one replaces it (or deletes it, when it is published to erase).  Every subscribe
call is offered the retained message, a repeated one too.

A subscription with `noLocal` is not sent what its own connection publishes.  Whether that holds for
a retained message of its own as well is left to the parameter `resendOwn`.  A message stays its
publisher's own as long as the connection lasts: the one that replaces it is a stranger to it.
-/
import Mathlib.Data.List.Basic
import Mathlib.Logic.Function.Basic

set_option linter.unusedSectionVars false

namespace BupApp.Lib.PubSub

/-- The options of a subscription. -/
structure Sub where
  noLocal : Bool
  deriving DecidableEq, Repr

/-- The broker's state, for connections `κ`, topics `θ` and messages `μ`. -/
structure Broker (κ θ μ : Type*) where
  subs : κ → θ → Option Sub
  retained : θ → Option (Option κ × μ)
  queue : κ → List μ

variable {κ θ μ : Type*} [DecidableEq κ] [DecidableEq θ]

namespace Broker

/-- Nobody is connected and nothing is retained. -/
def empty : Broker κ θ μ := ⟨fun _ _ => none, fun _ => none, fun _ => []⟩

/-- The retained message of a topic. -/
def kept (b : Broker κ θ μ) (t : θ) : Option μ := (b.retained t).map Prod.snd

/-- A publication of `src` on `t` goes to `k`. -/
def forwards (b : Broker κ θ μ) (src k : κ) (t : θ) : Bool :=
  match b.subs k t with
  | none => false
  | some s => !(s.noLocal && k = src)

/-- `src` publishes `m` on `t`, to be retained; with `erase` the retained message is deleted. -/
def publish (b : Broker κ θ μ) (src : κ) (t : θ) (erase : Bool) (m : μ) : Broker κ θ μ where
  subs := b.subs
  retained := Function.update b.retained t (if erase then none else some (some src, m))
  queue k := if b.forwards src k t then b.queue k ++ [m] else b.queue k

/-- What a subscribe call of `k` to `t` is sent at once. -/
def offered (b : Broker κ θ μ) (resendOwn : Bool) (k : κ) (t : θ) (s : Sub) : List μ :=
  match b.retained t with
  | none => []
  -- without `resendOwn` a `noLocal` subscriber is not sent its own message back
  | some (src, m) => if s.noLocal && src = some k && !resendOwn then [] else [m]

/-- `k` subscribes to `t`. -/
def subscribe (b : Broker κ θ μ) (resendOwn : Bool) (k : κ) (t : θ) (s : Sub) : Broker κ θ μ where
  subs := Function.update b.subs k (Function.update (b.subs k) t (some s))
  retained := b.retained
  queue := Function.update b.queue k (b.queue k ++ b.offered resendOwn k t s)

/-- The connection `k` ends, with its subscriptions and what was still to be delivered. -/
def disconnect (b : Broker κ θ μ) (k : κ) : Broker κ θ μ where
  subs := Function.update b.subs k fun _ => none
  retained t := (b.retained t).map fun r => (if r.1 = some k then none else r.1, r.2)
  queue := Function.update b.queue k []

/-- `k` takes the first message of its queue. -/
def pop (b : Broker κ θ μ) (k : κ) : Broker κ θ μ :=
  { b with queue := Function.update b.queue k (b.queue k).tail }

variable {b : Broker κ θ μ} {k : κ} {t : θ}

/-! ## Retained messages -/

@[simp] theorem kept_empty (t : θ) : (empty : Broker κ θ μ).kept t = none := rfl

@[simp] theorem kept_publish (src : κ) (t t' : θ) (erase : Bool) (m : μ) :
    (b.publish src t erase m).kept t' =
      if t' = t then (if erase then none else some m) else b.kept t' := by
  by_cases h : t' = t
  · subst h
    cases erase <;> simp [kept, publish]
  · simp [kept, publish, h]

@[simp] theorem kept_subscribe (r : Bool) (k : κ) (t t' : θ) (s : Sub) :
    (b.subscribe r k t s).kept t' = b.kept t' := rfl

@[simp] theorem kept_disconnect (k : κ) (t' : θ) : (b.disconnect k).kept t' = b.kept t' := by
  simp only [kept, disconnect, Option.map_map]
  rfl

@[simp] theorem kept_pop (k : κ) (t' : θ) : (b.pop k).kept t' = b.kept t' := rfl

/-- What is offered is the retained message. -/
theorem kept_of_mem_offered {r : Bool} {s : Sub} {m : μ} (h : m ∈ b.offered r k t s) :
    b.kept t = some m := by
  unfold offered at h
  split at h
  · cases h
  · rename_i src m' hr
    split at h
    · cases h
    · rw [kept, hr, List.mem_singleton.mp h]
      rfl

/-- At most one message is offered. -/
theorem length_offered_le (r : Bool) (k : κ) (t : θ) (s : Sub) : (b.offered r k t s).length ≤ 1 := by
  unfold offered
  split
  · exact Nat.zero_le 1
  · split
    · exact Nat.zero_le 1
    · exact Nat.le_refl 1

theorem offered_of_kept_none {r : Bool} {s : Sub} (h : b.kept t = none) :
    b.offered r k t s = [] := by
  rw [List.eq_nil_iff_forall_not_mem]
  intro m hm
  rw [kept_of_mem_offered hm] at h
  cases h

/-- Without `noLocal` the retained message is always offered. -/
theorem offered_of_local {r : Bool} {m : μ} (h : b.kept t = some m) :
    b.offered r k t ⟨false⟩ = [m] := by
  obtain ⟨⟨src, m'⟩, hr, rfl⟩ := Option.map_eq_some_iff.mp h
  simp [offered, hr]

/-- The retained message of `t` is `k`'s own. -/
def Owns (b : Broker κ θ μ) (k : κ) (t : θ) : Prop := ∃ m, b.retained t = some (some k, m)

theorem offered_of_not_owns {r : Bool} {s : Sub} {m : μ} (h : b.kept t = some m)
    (ho : ¬ b.Owns k t) : b.offered r k t s = [m] := by
  obtain ⟨⟨src, m'⟩, hr, rfl⟩ := Option.map_eq_some_iff.mp h
  have hsrc : src ≠ some k := by
    rintro rfl
    exact ho ⟨m', hr⟩
  simp [offered, hr, hsrc]

theorem not_owns_empty (k : κ) (t : θ) : ¬ (empty : Broker κ θ μ).Owns k t := by
  rintro ⟨m, hm⟩
  cases hm

/-- Only `k`'s own publications on the topic make it own the retained message. -/
theorem owns_of_publish {src : κ} {t' : θ} {erase : Bool} {m : μ}
    (h : (b.publish src t' erase m).Owns k t) (hne : src ≠ k ∨ t' ≠ t) : b.Owns k t := by
  obtain ⟨x, hx⟩ := h
  by_cases ht : t = t'
  · -- the retained message is the new one, and its publisher is not `k`
    subst ht
    have hsrc := hne.resolve_right fun hself => hself rfl
    simp only [publish, Function.update_self] at hx
    split at hx
    · cases hx
    · simp only [Option.some.injEq, Prod.mk.injEq] at hx
      exact absurd hx.1 hsrc
  · simp only [publish, Function.update_of_ne ht] at hx
    exact ⟨x, hx⟩

theorem owns_of_disconnect {k' : κ} (h : (b.disconnect k').Owns k t) : b.Owns k t := by
  obtain ⟨x, hx⟩ := h
  obtain ⟨⟨src, m⟩, hr, hmap⟩ := Option.map_eq_some_iff.mp hx
  simp only [Prod.mk.injEq] at hmap
  obtain ⟨hsrc, rfl⟩ := hmap
  split at hsrc
  · cases hsrc
  · exact ⟨m, by rw [hr, hsrc]⟩

/-! ## Queues -/

@[simp] theorem queue_empty (k : κ) : (empty : Broker κ θ μ).queue k = [] := rfl

@[simp] theorem queue_publish (src : κ) (t : θ) (erase : Bool) (m : μ) (k : κ) :
    (b.publish src t erase m).queue k =
      if b.forwards src k t then b.queue k ++ [m] else b.queue k := rfl

theorem queue_subscribe_self (r : Bool) (k : κ) (t : θ) (s : Sub) :
    (b.subscribe r k t s).queue k = b.queue k ++ b.offered r k t s := by
  simp [subscribe]

theorem queue_subscribe_of_ne {k' : κ} (h : k' ≠ k) (r : Bool) (t : θ) (s : Sub) :
    (b.subscribe r k t s).queue k' = b.queue k' := by
  simp [subscribe, Function.update_of_ne h]

theorem queue_disconnect_self (k : κ) : (b.disconnect k).queue k = [] := by
  simp [disconnect]

theorem queue_disconnect_of_ne {k' : κ} (h : k' ≠ k) : (b.disconnect k).queue k' = b.queue k' := by
  simp [disconnect, Function.update_of_ne h]

theorem queue_pop_self {m : μ} {ms : List μ} (h : b.queue k = m :: ms) : (b.pop k).queue k = ms := by
  simp [pop, h]

theorem queue_pop_of_ne {k' : κ} (h : k' ≠ k) : (b.pop k).queue k' = b.queue k' := by
  simp [pop, Function.update_of_ne h]

theorem mem_queue_publish {src : κ} {erase : Bool} {m x : μ}
    (h : x ∈ (b.publish src t erase m).queue k) : x ∈ b.queue k ∨ x = m := by
  rw [queue_publish] at h
  split at h
  · simpa using h
  · exact Or.inl h

theorem mem_queue_subscribe {r : Bool} {s : Sub} {k' : κ} {x : μ}
    (h : x ∈ (b.subscribe r k t s).queue k') :
    x ∈ b.queue k' ∨ (k' = k ∧ x ∈ b.offered r k t s) := by
  by_cases hk : k' = k
  · subst hk
    rw [queue_subscribe_self, List.mem_append] at h
    exact h.imp_right fun hx => ⟨rfl, hx⟩
  · rw [queue_subscribe_of_ne hk] at h
    exact Or.inl h

theorem mem_queue_disconnect {k' : κ} {x : μ} (h : x ∈ (b.disconnect k).queue k') :
    x ∈ b.queue k' := by
  by_cases hk : k' = k
  · subst hk
    rw [queue_disconnect_self] at h
    cases h
  · rwa [queue_disconnect_of_ne hk] at h

theorem mem_queue_pop {k' : κ} {x : μ} (h : x ∈ (b.pop k).queue k') : x ∈ b.queue k' := by
  by_cases hk : k' = k
  · subst hk
    rw [show (b.pop k').queue k' = (b.queue k').tail by simp [pop]] at h
    exact List.mem_of_mem_tail h
  · rwa [queue_pop_of_ne hk] at h

/-- An empty queue stays empty. -/
theorem queue_pop_eq_nil {k' : κ} (h : b.queue k' = []) : (b.pop k).queue k' = [] := by
  rw [List.eq_nil_iff_forall_not_mem]
  intro x hx
  have hmem := mem_queue_pop hx
  rw [h] at hmem
  cases hmem

/-! ## Subscriptions -/

@[simp] theorem subs_empty (k : κ) (t : θ) : (empty : Broker κ θ μ).subs k t = none := rfl

@[simp] theorem subs_publish (src : κ) (t : θ) (erase : Bool) (m : μ) :
    (b.publish src t erase m).subs = b.subs := rfl

@[simp] theorem subs_pop (k : κ) : (b.pop k).subs = b.subs := rfl

theorem subs_subscribe (r : Bool) (k k' : κ) (t t' : θ) (s : Sub) :
    (b.subscribe r k t s).subs k' t' = if k' = k ∧ t' = t then some s else b.subs k' t' := by
  by_cases hk : k' = k
  · subst hk
    by_cases ht : t' = t
    · subst ht
      simp [subscribe]
    · simp [subscribe, ht]
  · simp [subscribe, hk]

theorem subs_disconnect (k k' : κ) (t' : θ) :
    (b.disconnect k).subs k' t' = if k' = k then none else b.subs k' t' := by
  by_cases hk : k' = k
  · subst hk
    simp [disconnect]
  · simp [disconnect, hk]

theorem forwards_eq_false_of_none {src : κ} (h : b.subs k t = none) :
    b.forwards src k t = false := by
  simp [forwards, h]

theorem forwards_eq_true {src : κ} {s : Sub} (h : b.subs k t = some s)
    (hs : s.noLocal = true → k ≠ src) : b.forwards src k t = true := by
  cases hn : s.noLocal with
  | false => simp [forwards, h, hn]
  | true => simp [forwards, h, hn, hs hn]

/-- A connection with `noLocal` gets nothing of its own. -/
theorem forwards_self {s : Sub} (h : b.subs k t = some s) (hs : s.noLocal = true) :
    b.forwards k k t = false := by
  simp [forwards, h, hs]

end Broker

end BupApp.Lib.PubSub
