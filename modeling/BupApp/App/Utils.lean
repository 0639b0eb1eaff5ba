/-
# BupApp.App.Utils -- the parts of utils.cpp that the server and the clients share

`utils::client` is both the entry of the server's registry and the decoder of a registration: its
constructor splits the message into white-space separated tokens and takes each field only for one
exact number of tokens.  The first token is read without a check that there is one; that read past
the end of an empty vector is `none` here.
-/
import BupApp.Lib.Text
import BupApp.Lib.Ipv4

namespace BupApp

open BupApp.Lib.Text BupApp.Lib.Ipv4

/-- `std::string`: one character for one byte. -/
abbrev Str := List Char

/-- `isIP4` (utils.cpp 117-123). -/
def isIP4 (msgTopic : Str) : Bool := inetPton msgTopic

/-- `utils::client`. -/
structure Client where
  ip : Str
  user : Str
  pwd : Str
  backupPath : Str
  deriving DecidableEq, Repr

namespace Client

/-- The constructor `client::client(std::string msg)` (utils.cpp 66-77); `none` is the read of
`tokens[0]` when there is no token. -/
def ofMsg (msg : Str) : Option Client :=
  let tokens := words msg
  match tokens[0]? with
  | none => none
  | some t => some {
      ip := if isIP4 t then t else []
      user := if tokens.length = 2 then tokens.getD 1 [] else []
      pwd := if tokens.length = 3 then tokens.getD 2 [] else []
      backupPath := [] }

/-- `client::operator==` (utils.cpp 107-110): the user and the ip, nothing else. -/
def beq (c d : Client) : Bool := c.user = d.user && c.ip = d.ip

/-- `client::setBackupTarget` (utils.cpp 186-189). -/
def setBackupTarget (c : Client) (path : Str) : Client := { c with backupPath := path }

@[simp] theorem setBackupTarget_ip (c : Client) (p : Str) : (c.setBackupTarget p).ip = c.ip := rfl
@[simp] theorem setBackupTarget_user (c : Client) (p : Str) :
    (c.setBackupTarget p).user = c.user := rfl
@[simp] theorem setBackupTarget_backupPath (c : Client) (p : Str) :
    (c.setBackupTarget p).backupPath = p := rfl

theorem ofMsg_eq_none_iff (msg : Str) : ofMsg msg = none ↔ words msg = [] := by
  unfold ofMsg
  cases words msg with
  | nil => simp
  | cons t ts => simp

/-- The sentinel of `searchForClient` cannot be built: the empty message has no token. -/
theorem ofMsg_empty : ofMsg [] = none := rfl

theorem ofMsg_ip {msg : Str} {c : Client} (h : ofMsg msg = some c) :
    ∃ t ts, words msg = t :: ts ∧ c.ip = if isIP4 t then t else [] := by
  unfold ofMsg at h
  cases hw : words msg with
  | nil => simp [hw] at h
  | cons t ts =>
      simp only [hw, List.getElem?_cons_zero, Option.some.injEq] at h
      exact ⟨t, ts, rfl, by rw [← h]⟩

/-- The ip of a decoded registration is empty or was accepted by `isIP4`. -/
theorem ofMsg_ip_cases {msg : Str} {c : Client} (h : ofMsg msg = some c) :
    c.ip = [] ∨ isIP4 c.ip = true := by
  obtain ⟨t, ts, -, hip⟩ := ofMsg_ip h
  cases ht : isIP4 t with
  | true => exact Or.inr (by rw [hip, ht]; simpa using ht)
  | false => exact Or.inl (by rw [hip, ht]; rfl)

/-- A message whose first token is an address decodes to an entry of that address. -/
theorem ofMsg_of_words {msg t : Str} {ts : List Str} (hw : words msg = t :: ts)
    (ht : isIP4 t = true) : ∃ c, ofMsg msg = some c ∧ c.ip = t := by
  cases hc : ofMsg msg with
  | none => rw [ofMsg_eq_none_iff, hw] at hc; exact absurd hc (by simp)
  | some c =>
      obtain ⟨t', ts', hw', hip⟩ := ofMsg_ip hc
      rw [hw, List.cons.injEq] at hw'
      refine ⟨c, rfl, ?_⟩
      rw [hip, ← hw'.1, ht, if_pos rfl]

end Client

/-- The registration a client publishes: its address, a space and the line its user typed
(`appClient::setClientInfo`, _appClient.cpp 45-54). -/
def subscribeMsg (localIp clientInfo : Str) : Str := localIp ++ " ".toList ++ clientInfo

theorem words_subscribeMsg {ip : Str} (h : dottedQuad ip = true) (info : Str) :
    words (subscribeMsg ip info) = ip :: words info := by
  rw [subscribeMsg, List.append_assoc]
  exact words_append_space (dottedQuad_ne_nil h) (dottedQuad_noSpace h) (by decide)

/-- The server decodes a client's registration to an entry of the client's address. -/
theorem ofMsg_subscribeMsg {ip : Str} (h : dottedQuad ip = true) (info : Str) :
    ∃ c, Client.ofMsg (subscribeMsg ip info) = some c ∧ c.ip = ip :=
  Client.ofMsg_of_words (words_subscribeMsg h info) (inetPton_of_dottedQuad h)

end BupApp
