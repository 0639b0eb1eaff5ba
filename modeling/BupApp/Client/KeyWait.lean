/-
# BupApp.Client.KeyWait -- which messages the wait for the key takes

`getPublicKeyMsg` goes on over every message that is no key and stops at the first that is one, or
at a null.  So it takes the shortest beginning of the queue that ends in such a value, hands over
the key if that is what it ended with, and leaves the rest to `handleServerReplyMsg`.

In the network of `BupApp.App.Network` a client takes its messages one by one, without a list of
them to look at; the last theorem says that it does the same.
-/
import BupApp.App.Network
import BupApp.Lib.Segments

namespace BupApp.KeyWait

open BupApp.Lib.Text BupApp.Lib.Segments

variable {τ : Type}

/-! ## What the wait takes -/

/-- A value that ends the wait: a null, or a key on the private channel. -/
def Ends (privateChnl : Str) : Option (Message τ) → Prop
  | none => True
  | some m => m.topic = privateChnl ∧ keyType <:+: m.payload

/-- What the last value is handed to, if it is a message. -/
def handing (user : Str) : Option (Message τ) → List Call
  | none => []
  | some m => [.handlePubKeyMsg m.payload user]

/-- The wait takes the shortest beginning that ends it, hands over the key at its end and leaves the
rest; if nothing ends it, it goes on waiting. -/
structure TakesNoMore (privateChnl user : Str) (values : List (Option (Message τ)))
    (r : ClientRun τ) : Prop where
  stops : ∀ pre v, ShortestTo (Ends privateChnl) (pre ++ [v]) values →
    r.reached = .returned ∧ values = pre ++ [v] ++ r.rest ∧
      r.calls = List.replicate (pre.length + 1) .consumeMessage ++ handing user v
  waits : (¬ ∃ pre v, ShortestTo (Ends privateChnl) (pre ++ [v]) values) →
    r.reached = .waiting ∧ r.rest = [] ∧
      r.calls = List.replicate (values.length + 1) .consumeMessage

theorem acceptsKey_eq_true_iff (privateChnl : Str) (m : Message τ) :
    acceptsKey privateChnl m = true ↔ Ends privateChnl (some m) := by
  simp [acceptsKey, isMsgTypeOf, contains_eq_true_iff, Ends]

/-- A value that does not end the wait is a message, and no key. -/
theorem exists_of_not_ends {privateChnl : Str} {v : Option (Message τ)}
    (h : ¬ Ends privateChnl v) : ∃ m, v = some m ∧ acceptsKey privateChnl m = false := by
  cases v with
  | none => exact absurd trivial h
  | some m =>
      rw [← acceptsKey_eq_true_iff, Bool.not_eq_true] at h
      exact ⟨m, rfl, h⟩

/-- The wait goes on over everything that does not end it. -/
theorem getPublicKeyMsg_append {privateChnl : Str} (user : Str)
    {pre : List (Option (Message τ))} (hpre : ∀ v ∈ pre, ¬ Ends privateChnl v)
    (later : List (Option (Message τ))) :
    getPublicKeyMsg privateChnl user (pre ++ later) =
      { getPublicKeyMsg privateChnl user later with
        calls := List.replicate pre.length .consumeMessage ++
          (getPublicKeyMsg privateChnl user later).calls } := by
  induction pre with
  | nil => rfl
  | cons v pre ih =>
      obtain ⟨m, rfl, hm⟩ := exists_of_not_ends (hpre v (by simp))
      rw [List.cons_append, getPublicKeyMsg_other hm, ih fun w hw => hpre w (by simp [hw])]
      simp [List.replicate_succ]

/-- A value that ends the wait is the last one it takes. -/
theorem getPublicKeyMsg_ends {privateChnl : Str} (user : Str) {v : Option (Message τ)}
    (h : Ends privateChnl v) (post : List (Option (Message τ))) :
    getPublicKeyMsg privateChnl user (v :: post) =
      ⟨.consumeMessage :: handing user v, post, .returned⟩ := by
  cases v with
  | none => rfl
  | some m => exact getPublicKeyMsg_key ((acceptsKey_eq_true_iff privateChnl m).mpr h) post

/-- `getPublicKeyMsg` takes no more than it needs, whatever the queue holds. -/
theorem getPublicKeyMsg_takesNoMore (privateChnl user : Str) (values : List (Option (Message τ))) :
    TakesNoMore privateChnl user values (getPublicKeyMsg privateChnl user values) where
  stops pre v hshort := by
    obtain ⟨pre', v', post, heq, rfl, hv, hpre⟩ := hshort.exists_split
    obtain ⟨rfl, rfl⟩ := List.append_singleton_inj.mp heq
    rw [getPublicKeyMsg_append user hpre, getPublicKeyMsg_ends user hv]
    refine ⟨rfl, by simp, ?_⟩
    simp [List.replicate_succ']
  waits hnoShort := by
    have hnone := (forall_not_or_shortestTo (Ends privateChnl) values).resolve_right hnoShort
    have h := getPublicKeyMsg_append user hnone []
    rw [List.append_nil] at h
    rw [h]
    refine ⟨rfl, rfl, ?_⟩
    simp [getPublicKeyMsg, List.replicate_succ']

/-! ## One message at a time -/

/-- The texts that were handed to `handlePubKeyMsg`. -/
def handed (calls : List Call) : List Str :=
  calls.filterMap fun
    | .handlePubKeyMsg msg _ => some msg
    | _ => none

/-- A client that works takes everything and hands over nothing. -/
theorem foldl_take_of_working {privateChnl : Str} {c : AppClient τ} (h : c.pc = .working)
    (msgs : List (Message τ)) :
    msgs.foldl (AppClient.take privateChnl) c = { c with taken := c.taken ++ msgs } := by
  induction msgs generalizing c with
  | nil => simp
  | cons m msgs ih =>
      have hlater := ih (c := { c with taken := c.taken ++ [m] }) h
      rw [List.foldl_cons, AppClient.take_other (by simp [h]), hlater]
      simp

/-- A client of the network that waits does with its messages, one by one, what `getPublicKeyMsg`
does with the queue: it works when that returns and is handed the same key. -/
theorem foldl_take_of_waiting {privateChnl : Str} (user : Str) {c : AppClient τ}
    (h : c.pc = .waiting) (msgs : List (Message τ)) :
    let r := getPublicKeyMsg privateChnl user (msgs.map some)
    msgs.foldl (AppClient.take privateChnl) c =
      { c with
        pc := if r.reached = .returned then .working else .waiting
        taken := c.taken ++ msgs
        installed := c.installed ++ handed r.calls } := by
  induction msgs generalizing c with
  | nil => simp [getPublicKeyMsg, handed, h.symm]
  | cons m msgs ih =>
      cases hm : acceptsKey privateChnl m with
      | true =>
          rw [List.foldl_cons, AppClient.take_key ⟨h, hm⟩, foldl_take_of_working rfl,
            List.map_cons, getPublicKeyMsg_key hm]
          simp [handed]
      | false =>
          have hlater := ih (c := { c with taken := c.taken ++ [m] }) h
          rw [List.foldl_cons, AppClient.take_other (by simp [hm]), hlater, List.map_cons,
            getPublicKeyMsg_other hm]
          simp [handed]

end BupApp.KeyWait
