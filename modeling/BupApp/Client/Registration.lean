/-
# BupApp.Client.Registration -- is a registration read as it was typed?

The client puts its address and a space in front of the line its user typed, and both sides decode
the result with the constructor of `utils::client`.  That takes the user only out of a message of two
words and the password only out of one of three.  So a line with a name alone comes out as it went
in, however it is spaced, and a line with a password loses the name.
-/
import BupApp.App.Client

namespace BupApp.Registration

open BupApp.Lib.Text BupApp.Lib.Ipv4

/-! ## What is typed -/

/-- A user name and perhaps a password, with white space around and between them. -/
structure TypedLine where
  user : Word
  pwd : Option Word
  before : Blank
  between : Blank
  after : Blank
  separated : between.text ≠ []

namespace TypedLine

/-- The line. -/
def text (t : TypedLine) : Str :=
  t.before.text ++ (t.user.text ++
    match t.pwd with
    | none => t.after.text
    | some p => t.between.text ++ (p.text ++ t.after.text))

/-- The password, empty when none was typed. -/
def password (t : TypedLine) : Str := (t.pwd.map Word.text).getD []

theorem words_text (t : TypedLine) :
    words t.text = t.user.text :: (t.pwd.map Word.text).toList := by
  rw [text, words_space_append t.before.space]
  cases t.pwd with
  | none => exact words_word t.user.ne_nil t.user.noSpace t.after.space
  | some p =>
      obtain ⟨b, bs, hb⟩ := List.exists_cons_of_ne_nil t.separated
      have hspace : ∀ c ∈ b :: bs, isSpace c = true := by
        rw [← hb]
        exact t.between.space
      show words (t.user.text ++ (t.between.text ++ (p.text ++ t.after.text))) = _
      rw [hb, List.cons_append,
        words_append_space t.user.ne_nil t.user.noSpace (hspace b (by simp)),
        words_space_append fun c hc => hspace c (List.mem_cons_of_mem b hc),
        words_word p.ne_nil p.noSpace t.after.space]
      rfl

end TypedLine

/-! ## Both sides -/

/-- The client holds exactly the address and what was typed. -/
structure Decoded (ip : Str) (t : TypedLine) (c : Client) : Prop where
  ip : c.ip = ip
  user : c.user = t.user.text
  pwd : c.pwd = t.password

/-- The registration is decoded to what was typed, in `setClientInfo` and where the server handles
it. -/
structure RoundTrip (ip : Str) (t : TypedLine) : Prop where
  client : ∃ m_subscribeMsg m_clientInfo,
    setClientInfo ip t.text = some (m_subscribeMsg, m_clientInfo) ∧ Decoded ip t m_clientInfo
  server : ∀ s : Server Unit, ∃ m_subscribeMsg m_clientInfo currClient,
    setClientInfo ip t.text = some (m_subscribeMsg, m_clientInfo) ∧
    (s.enterNewSubscriber m_subscribeMsg).1.loop = .subscribing currClient ∧
    Decoded ip t currClient

/-- What becomes of a typed line: the user is lost when there is a password. -/
theorem ofMsg_typed {ip : Str} (h : dottedQuad ip = true) (t : TypedLine) :
    Client.ofMsg (subscribeMsg ip t.text) =
      some ⟨ip, if t.pwd = none then t.user.text else [], t.password, []⟩ := by
  have hip : isIP4 ip = true := inetPton_of_dottedQuad h
  rw [Client.ofMsg, words_subscribeMsg h, t.words_text, TypedLine.password]
  cases t.pwd with
  | none => simp [hip]
  | some p => simp [hip]

/-- **A registration comes out as it was typed exactly when no password was typed.** -/
theorem roundTrip_iff {ip : Str} (h : dottedQuad ip = true) (t : TypedLine) :
    RoundTrip ip t ↔ t.pwd = none := by
  have hset : setClientInfo ip t.text = some (subscribeMsg ip t.text,
      ⟨ip, if t.pwd = none then t.user.text else [], t.password, []⟩) := by
    rw [setClientInfo, ofMsg_typed h]
    rfl
  constructor
  · rintro ⟨⟨msg, c, hc, hdec⟩, -⟩
    obtain ⟨-, rfl⟩ := Prod.mk.inj (Option.some.inj (hset.symm.trans hc))
    by_contra hpwd
    have huser := hdec.user
    rw [if_neg hpwd] at huser
    exact t.user.ne_nil huser.symm
  · intro hpwd
    rw [if_pos hpwd] at hset
    have hdec : Decoded ip t ⟨ip, t.user.text, t.password, []⟩ := ⟨rfl, rfl, rfl⟩
    refine ⟨⟨_, _, hset, hdec⟩, fun s => ⟨_, _, _, hset, ?_, hdec⟩⟩
    rw [Server.enterNewSubscriber, ofMsg_typed h, if_pos hpwd]

/-! ## Two lines -/

/-- A text of one word. -/
def ann : Word := ⟨"ann".toList, by simp, by simp [isSpace]⟩

def secret : Word := ⟨"s3cret".toList, by simp, by simp [isSpace]⟩

def blank : Blank := ⟨" \t".toList, by simp [isSpace]⟩

/-- A name alone, with white space around it. -/
def nameOnly : TypedLine := ⟨ann, none, blank, blank, blank, by simp [blank]⟩

theorem nameOnly_roundTrip : RoundTrip "10.0.0.2".toList nameOnly :=
  (roundTrip_iff (by decide +kernel) nameOnly).mpr rfl

/-- A name and a password, one blank between them. -/
def nameAndPwd : TypedLine :=
  ⟨ann, some secret, ⟨[], by simp⟩, ⟨" ".toList, by simp [isSpace]⟩, ⟨[], by simp⟩, by simp⟩

/-- The user of `nameAndPwd` is lost. -/
theorem user_lost : ¬ ∀ (ip : Str) (t : TypedLine), dottedQuad ip = true → RoundTrip ip t := by
  intro hall
  obtain ⟨⟨msg, c, hc, hdec⟩, -⟩ := hall "10.0.0.2".toList nameAndPwd (by decide +kernel)
  have hset : (setClientInfo "10.0.0.2".toList nameAndPwd.text).map (fun p => p.2.user) =
      some [] := by decide +kernel
  rw [hc, Option.map_some, hdec.user] at hset
  cases hset

end BupApp.Registration
