/-
# BupApp.Server.Mkdir -- what a registration can make the shell do

`handleNewSubscriber` pastes the address of a registration into a `mkdir` command and hands it to
`system`, that is to a shell.  The payload may hold any bytes.  What reaches the shell is the text up
to the first NUL, and up to there the address is one that `isIP4` has seen: four numbers and three
dots, or nothing at all.
-/
import BupApp.App.ServerRuns

namespace BupApp.Mkdir

open BupApp.Lib.Transition BupApp.Lib.Text BupApp.Lib.Ipv4 Server

variable {τ : Type} {cfg : Config}

/-- The address in a registration: the C string of its first token when that is a dotted quad, and
nothing otherwise. -/
def address (msgPayload : Str) : Str :=
  match words msgPayload with
  | t :: _ => if dottedQuad (cStr t) then cStr t else []
  | [] => []

theorem address_cases (p : Str) : address p = [] ∨ dottedQuad (address p) = true := by
  unfold address
  split
  · split
    · exact Or.inr ‹_›
    · exact Or.inl rfl
  · exact Or.inl rfl

/-- An address is made of digits and dots. -/
theorem address_chars {p : Str} {c : Char} (hc : c ∈ address p) : c.isDigit = true ∨ c = '.' := by
  rcases address_cases p with hnil | hquad
  · rw [hnil] at hc
    cases hc
  · exact dottedQuad_chars hquad c hc

/-- The C string of the ip that `client::client` stores. -/
theorem cStr_ip {p : Str} {c : Client} (hc : Client.ofMsg p = some c) : cStr c.ip = address p := by
  obtain ⟨t, ts, hw, hip⟩ := Client.ofMsg_ip hc
  have hcheck : isIP4 t = dottedQuad (cStr t) := rfl
  rw [hip, address, hw, hcheck]
  show _ = if dottedQuad (cStr t) = true then cStr t else []
  split
  · rfl
  · rfl

/-- The command of an entry, as the shell gets it. -/
theorem cStr_mkdir (ip : Str) : cStr ("mkdir ".toList ++ backupTarget ip) =
    "mkdir ".toList ++ (mainBackupPath ++ "/".toList ++ cStr ip) := by
  have hmkdir : '\x00' ∉ "mkdir ".toList := by decide
  have hpath : '\x00' ∉ mainBackupPath ++ "/".toList := by decide
  rw [backupTarget, cStr_append hmkdir, cStr_append hpath]

/-- The loop calls `system` when it stores an entry. -/
theorem system_of_acts {s s' : Server τ} {l : Label τ} {es : List Effect}
    (h : Acts cfg s l s' es) {x : Str} (hx : .system x ∈ es) :
    ∃ c, s.loop.client? = some c ∧ x = "mkdir ".toList ++ backupTarget c.ip := by
  cases h with
  | @stored c hl =>
      simp only [List.mem_singleton, Effect.system.injEq] at hx
      exact ⟨c, by rw [hl]; rfl, hx⟩
  | handler hk hmove => cases hmove <;> simp at hx
  | _ => simp at hx

/-- **A registration cannot inject a command**: whatever its payload, the text that reaches the shell
is the `mkdir` of the backup directory with an address, made of digits and dots, or with nothing. -/
theorem mkdir_of_registration {s s' : Server τ} {ls : List (Label τ)} {l : Label τ}
    {es : List Effect} {x : Str} (hrun : exec (next cfg) Server.start ls = some s)
    (hact : s.act cfg l = some (s', es)) (hx : .system x ∈ es) :
    ∃ m, s.msgPtr = some m ∧ m.topic = subscibersList ∧
      cStr x = "mkdir ".toList ++ (mainBackupPath ++ "/".toList ++ address m.payload) ∧
      (address m.payload = [] ∨ dottedQuad (address m.payload) = true) ∧
      ∀ c ∈ address m.payload, c.isDigit = true ∨ c = '.' := by
  have hdecoding : Decoding s := by
    refine inv_exec (fun s l s' h hs => ?_) Decoding.start hrun
    obtain ⟨es, hacts⟩ := next_acts hs
    exact h.step hacts
  obtain ⟨c, hc, rfl⟩ := system_of_acts (act_acts hact) hx
  obtain ⟨m, hm, ht, hdec⟩ := hdecoding c hc
  refine ⟨m, hm, ht, ?_, address_cases m.payload, fun c hc => address_chars hc⟩
  rw [cStr_mkdir, cStr_ip hdec]

/-! ## A run -/

/-- A registration with a shell command behind a NUL in its first token. -/
def hostile : Message Unit := registrationWith "10.0.0.2\x00;reboot ann;reboot"

/-- The registration up to its `mkdir`. -/
def hostileRun : List (Label Unit) :=
  [.consume hostile, .dispatch, .subscribe true, .publishKey true]

/-- Only the address of `hostile` reaches the shell. -/
theorem hostile_mkdir : ∃ (s s' : Server Unit) (x : Str),
    exec (next lanCfg) Server.start hostileRun = some s ∧
    s.act lanCfg .store = some (s', [.system x]) ∧
    cStr x = "mkdir /home/shiranlupo/Desktop/bupAppBackup/10.0.0.2".toList := by
  obtain ⟨s, hs, hptr, hsome⟩ := exists_exec_of_any
    (P := fun s : Server Unit => s.msgPtr = some hostile ∧
      (s.act lanCfg .store).any (fun p => decide (p.2 = [.system ("mkdir ".toList ++
        backupTarget "10.0.0.2\x00;reboot".toList)])) = true)
    (show (exec (next lanCfg) Server.start hostileRun).any _ = true by decide +kernel)
  obtain ⟨⟨s', es⟩, hact, hes⟩ := (Option.any_eq_true ..).mp hsome
  obtain rfl := of_decide_eq_true hes
  refine ⟨s, s', _, hs, hact, ?_⟩
  obtain ⟨m, hm, -, hcmnd, -, -⟩ := mkdir_of_registration hs hact (List.mem_singleton_self _)
  obtain rfl := Option.some.inj (hptr.symm.trans hm)
  rw [hcmnd]
  decide +kernel

end BupApp.Mkdir
