/-
# BupApp.Server.Lookup -- looking a client up in the registry

`searchForClient` finds the first entry of an ip.  Where there is none it signals that with
`client("")`, and the constructor reads the first token of a message without one.  The test
`isClientExist(string)` builds the same client to compare with before it searches at all, so it has
no result for any registry; the test for a whole client needs no such sentinel and works.
-/
import BupApp.App.ServerSteps

namespace BupApp.Lookup

open Server

/-! ## Total and in agreement with membership -/

/-- The search has a result: the first entry with the ip, or one without ip and user. -/
structure SearchAgrees (clients : List Client) (ip : Str) : Prop where
  found : ∀ before c after, clients = before ++ c :: after → c.ip = ip →
    (∀ d ∈ before, d.ip ≠ ip) → searchForClient clients ip = some c
  missed : (∀ c ∈ clients, c.ip ≠ ip) →
    ∃ d, searchForClient clients ip = some d ∧ d.ip = [] ∧ d.user = []

/-- All three functions have a result and agree with each other. -/
structure LookupAgrees (clients : List Client) (ip : Str) : Prop
    extends SearchAgrees clients ip where
  exists_iff : ∃ b, isClientExistIp clients ip = some b ∧ (b = true ↔ ∃ c ∈ clients, c.ip = ip)
  stored : ∀ c ∈ clients, c.ip ≠ [] →
    isClientExistIp clients c.ip = some true ∧ isClientExist clients c = true
  implies : isClientExistIp clients ip = some true →
    ∃ c, c.ip = ip ∧ isClientExist clients c = true

/-! ## What the functions do -/

/-- The first entry with the ip is found. -/
theorem searchForClient_first {before after : List Client} {c : Client}
    (hbefore : ∀ d ∈ before, d.ip ≠ c.ip) :
    searchForClient (before ++ c :: after) c.ip = some c := by
  have hfind : (before ++ c :: after).find? (·.ip = c.ip) = some c := by
    rw [List.find?_eq_some_iff_append]
    exact ⟨by simp, before, after, rfl, by simpa using hbefore⟩
  simp only [searchForClient, hfind]

/-- The sentinel comes first: there is no result, whatever the registry holds. -/
theorem isClientExistIp_eq_none (clients : List Client) (ip : Str) :
    isClientExistIp clients ip = none := by
  rw [isClientExistIp, Client.ofMsg_empty]
  rfl

/-- Two clients are one to the test for a whole client if the ip and the user agree. -/
theorem isClientExist_iff_ip_user {clients : List Client} {c : Client} :
    isClientExist clients c = true ↔ ∃ d ∈ clients, d.ip = c.ip ∧ d.user = c.user := by
  simp only [isClientExist_iff, Client.beq, Bool.and_eq_true, decide_eq_true_eq,
    and_comm (a := _ = c.user)]

/-- It knows what is stored. -/
theorem isClientExist_of_mem {clients : List Client} {c : Client} (h : c ∈ clients) :
    isClientExist clients c = true :=
  isClientExist_iff_ip_user.mpr ⟨c, h, rfl, rfl⟩

/-- The search keeps its promise exactly for the ips of the registry. -/
theorem searchAgrees_iff (clients : List Client) (ip : Str) :
    SearchAgrees clients ip ↔ ∃ c ∈ clients, c.ip = ip := by
  constructor
  · intro h
    by_contra hnobody
    have hmiss : ∀ c ∈ clients, c.ip ≠ ip := fun c hc hip => hnobody ⟨c, hc, hip⟩
    obtain ⟨d, hd, -⟩ := h.missed hmiss
    rw [searchForClient_eq_none_iff.mpr hmiss] at hd
    cases hd
  · rintro ⟨c, hc, hip⟩
    refine ⟨?_, fun hmiss => absurd hip (hmiss c hc)⟩
    rintro before first after rfl rfl hbefore
    exact searchForClient_first hbefore

/-- **No registry meets it**: the test for an ip never has a result, and the search has none for an
ip that nobody has; it keeps its own part exactly for the others. -/
theorem not_lookupAgrees (clients : List Client) (ip : Str) :
    ¬ LookupAgrees clients ip ∧ (SearchAgrees clients ip ↔ ∃ c ∈ clients, c.ip = ip) := by
  refine ⟨fun h => ?_, searchAgrees_iff clients ip⟩
  obtain ⟨b, hb, -⟩ := h.exists_iff
  rw [isClientExistIp_eq_none] at hb
  cases hb

/-- A registry with one client. -/
def oneClient : List Client := [⟨"10.0.0.2".toList, "ann".toList, [], []⟩]

/-- A search for another host finds nobody, and cannot say so. -/
theorem oneClient_not_lookupAgrees : ¬ LookupAgrees oneClient "10.0.0.3".toList := by
  intro h
  have hmiss : searchForClient oneClient "10.0.0.3".toList = none := by decide
  obtain ⟨d, hd, -⟩ := h.missed (by decide)
  rw [hmiss] at hd
  cases hd

end BupApp.Lookup
