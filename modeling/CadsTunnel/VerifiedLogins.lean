import CadsTunnel.LoginGate

/-! Verified addresses at the gate. The identity provider's word for an address is asked for
once, when a login is allowed because the address is on the list; the list is asked again at
every visit. A login that was allowed because anyone was leaves a session behind that the
list lets in later, whether or not the address was verified. -/
namespace CadsTunnel.VerifiedLogins
open OrderedMap Words Sql SplitText SessionTokens TunnelStore LoginGate
open ChannelAck (stripPrefix)
open Std (ExtTreeMap)

/- No unverified address comes back while the hostname lets anyone in. -/
def Careful (s : Gate) (call : Call) : Prop :=
  match call.request with
  | .callback headers _ _ (.ok identity) _ =>
    ∀ host path, (cookieValue headers gateTargetCookie).bind (splitOnce '|') = some (host,path) →
      allowAnyLoginForHostname host s.store = true → identity.emailVerified = true
  | _ => True

section Runs
variable (config : Config) (mac sha256 : Bytes → Hash)

/- Whoever is let in with a login session while only the list counts has a verified address. -/
def VerifiedEntry (calls : List Call) (call : Call) : Prop :=
  ∀ headers queryHost bearer now token claims host, call.request = .check headers queryHost bearer now →
    visited headers queryHost = some host → (run config mac sha256 calls).store.requireLogin host = true →
    (step config mac sha256 (run config mac sha256 calls) call).1 = .ok (.admitted claims.email) →
    cookieValue headers gateSessionCookie = some token → verifyGateSession mac token now = some claims → claims.host = host →
    stripPrefix gateShareSubjectPrefix claims.email.toList = none →
    allowAnyLoginForHostname host (run config mac sha256 calls).store = false →
    ∃ identity exp, claims = ⟨host,identity.email.getD "",some identity.subject⟩ ∧
      Earlier calls (LoggedIn config mac sha256 host identity exp) ∧ identity.emailVerified = true

variable {config} {mac} {sha256} {calls : List Call}

/- A login of a careful run was verified, whatever allowed it. -/
theorem loginVerified (required : config.requireVerifiedEmail = true) (careful : Machine.along (step config mac sha256) Careful {} calls)
    {host : String} {identity : ExchangedIdentity} {exp : UInt64} (login : Earlier calls (LoggedIn config mac sha256 host identity exp)) :
    identity.emailVerified = true := by
  obtain ⟨earlier,call,later,rfl,login⟩ := login
  obtain ⟨-,cautious,-⟩ := Machine.alongAppend.mp careful
  cases login with
  | completed returned started ends allowed opened =>
    rcases allowed with anyone | ⟨-,verified⟩
    · exact cautious _ _ returned anyone
    · exact verified required

theorem verifiedLogins {call : Call} (required : config.requireVerifiedEmail = true)
    (honest : Machine.along (step config mac sha256) (Honest mac) {} (calls ++ [call]))
    (careful : Machine.along (step config mac sha256) Careful {} calls) : VerifiedEntry config mac sha256 calls call := by
  intro headers queryHost bearer now token claims host asks visits gated admitted carried accepted bound mail strict
  obtain ⟨request,faults⟩ := call
  cases asks
  obtain ⟨exp,-,origin⟩ := sessionOrigin honest carried accepted
  rcases origin with ⟨identity,same,-,login⟩ | ⟨linkId,same,-⟩
  · rw [bound] at same login
    exact ⟨identity,exp,same,login,loginVerified required careful login⟩
  · have named : claims.email = gateShareSubjectPrefix ++ linkId := congrArg GateSessionClaims.email same
    rw [named, sharedSubject] at mail
    contradiction

end Runs
theorem verifiedLoginsWitness :
    VerifiedEntry openGate everyOther (fun _ => default) guestLogin guestVisit :=
  verifiedLogins rfl guestHonest ⟨trivial,trivial,fun _ _ _ _ => rfl,trivial⟩

/- Anyone may come, and someone with an unverified address does; then only the list counts,
and the address is put on it. -/
def anyGuest (_ : Store) : Store where
  tables := { tunnels := (∅ : BTreeMap String TunnelRow).insert "t" ⟨"o","n",some "h.x",0,"r",.rot,none,none,.none,none,none,false,true,false,none,false,false,0,none,none,.off,none⟩ }
  allowAny := (∅ : BTreeMap String Bool).insert "t" true

def listOnly (s : Store) : Store :=
  let off := (perform (setAllowAnyLogin "o" "t" false) s []).2
  { off with tables := (perform (Satellites.loginAllowlistAdd "o" "t" "e@x" 7) off.tables []).2 }

def unverifiedLogin : List Call :=
  [⟨.owner anyGuest,[]⟩,⟨.start "h.x" none (Vector.replicate 16 0),[]⟩,⟨guestReturn false,[]⟩,⟨.owner listOnly,[]⟩]

/- These calls are honest, and leave the gate open to him by the list alone. -/
theorem unverifiedEnded : Machine.along (step openGate everyOther (fun _ => default)) (Honest everyOther) {} (unverifiedLogin ++ [guestVisit]) ∧
    (run openGate everyOther (fun _ => default) unverifiedLogin).store.requireLogin "h.x" = true ∧
    emailAllowedForHostname "h.x" "e@x" (run openGate everyOther (fun _ => default) unverifiedLogin).store = true ∧
    allowAnyLoginForHostname "h.x" (run openGate everyOther (fun _ => default) unverifiedLogin).store = false := by
  refine ⟨⟨oneNamed (by decide +kernel),trivial,guestReturns (by decide +kernel),oneNamed (by rw [guestReturned]; decide +kernel),
    guestVisits (by rw [guestReturned]; decide +kernel),trivial⟩,?_⟩
  have calls : unverifiedLogin = [⟨.owner anyGuest,[]⟩,⟨.start "h.x" none (Vector.replicate 16 0),[]⟩] ++ [⟨guestReturn false,[]⟩] ++
      [⟨.owner listOnly,[]⟩] := rfl
  have ended (first : List Call) : run openGate everyOther (fun _ => default) (first ++ [⟨.owner listOnly,[]⟩]) =
      (step openGate everyOther (fun _ => default) (run openGate everyOther (fun _ => default) first) ⟨.owner listOnly,[]⟩).2 :=
    Machine.runNext _ _ _
  rw [calls, ended, guestBack]
  decide +kernel

theorem unverifiedHonest : Machine.along (step openGate everyOther (fun _ => default)) (Honest everyOther) {} (unverifiedLogin ++ [guestVisit]) :=
  unverifiedEnded.1

theorem listEnters :
    (run openGate everyOther (fun _ => default) unverifiedLogin).store.requireLogin "h.x" = true ∧
      (step openGate everyOther (fun _ => default) (run openGate everyOther (fun _ => default) unverifiedLogin) guestVisit).1 = .ok (.admitted "e@x") ∧
      allowAnyLoginForHostname "h.x" (run openGate everyOther (fun _ => default) unverifiedLogin).store = false :=
  ⟨unverifiedEnded.2.1,guestVisited unverifiedEnded.2.1 (.inr unverifiedEnded.2.2.1),unverifiedEnded.2.2.2⟩

theorem listAdmitsUnverified : ¬∀ calls call, Machine.along (step openGate everyOther (fun _ => default)) (Honest everyOther) {} (calls ++ [call]) →
    VerifiedEntry openGate everyOther (fun _ => default) calls call := by
  intro entries
  obtain ⟨gated,admitted,strict⟩ := listEnters
  obtain ⟨_,_,mail,carries,visits,_⟩ := guestFacts
  have accepted : verifyGateSession everyOther (signGateSessionForSubject everyOther "h.x" "e@x" "s" 28805) 100 = some ⟨"h.x","e@x",some "s"⟩ :=
    (subjectRoundTrip "h.x" "e@x" "s" 28805).trans (if_pos (by decide))
  have entry := entries unverifiedLogin guestVisit unverifiedHonest guestSession (some "h.x") none 100
    (signGateSessionForSubject everyOther "h.x" "e@x" "s" 28805) ⟨"h.x","e@x",some "s"⟩ "h.x" rfl visits gated admitted carries accepted rfl mail
    strict
  obtain ⟨identity,exp,-,⟨earlier,call,later,made,login⟩,verified⟩ := entry
  cases login with
  | completed returned started ends allowed opened =>
    have among : _ ∈ unverifiedLogin := made ▸ List.mem_append_right earlier List.mem_cons_self
    simp only [unverifiedLogin, guestReturn, List.mem_cons, List.not_mem_nil, or_false, Call.mk.injEq, Request.callback.injEq, Except.ok.injEq,
      reduceCtorEq, false_and, false_or, or_false] at among
    rw [among.1.2.2.2.1] at verified
    exact Bool.false_ne_true verified

end CadsTunnel.VerifiedLogins
