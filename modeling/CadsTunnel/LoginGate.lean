import CadsTunnel.ChannelAcks
import CadsTunnel.Satellites
import CadsTunnel.SessionTokens

/-! The login gate in front of the hostnames that require a login. A visitor is sent to the
identity provider and comes back with a session for the hostname he set out from, or he
redeems a share link of it. The session is a cookie of the whole zone, so every request asks
the gate, and the gate asks the store what is allowed now. -/
namespace CadsTunnel.LoginGate
open OrderedMap Words Sql SplitText SessionTokens TunnelStore
open ChannelStore (toAsciiLowercase)
open ChannelAck (stripPrefix)
open Hostnames (normalizeHostname)
open Satellites (requireLoginForHostname)
open ShareLinks (redeemShareLink shareLinkActive honored)
open Std (ExtTreeMap)

/- The column `allow_any_login` stands beside the other columns of the tunnels. -/
structure Store where
  tables : Tables := {}
  allowAny : BTreeMap String Bool := ∅

def Store.requireLogin (hostname : String) (s : Store) : Bool := requireLoginForHostname hostname s.tables

def allowAnyLoginForHostname (hostname : String) (s : Store) : Bool :=
  ((firstRow (fun _ t => t.hostname.any (fun h => nocase h hostname)) s.tables.tunnels).map (fun e => s.allowAny[e.1]?.getD false)).getD false

def emailAllowedForHostname (hostname email : String) (s : Store) : Bool :=
  hasRow (fun k _ => nocase k.1 hostname && k.2 = toAsciiLowercase email) s.tables.loginAllowlist

def setAllowAnyLogin (subject tunnelId : String) (enabled : Bool) : Session Store SqlError Bool :=
  execute (fun s =>
    if (owned tunnelId subject s.tables).isSome then (true,{ s with allowAny := s.allowAny.insert tunnelId enabled }) else (false,s))

/- The store, and what the key has been used to mint. -/
structure Gate where
  store : Store := {}
  signed : List Minted := []

abbrev Work (α : Type) := Session Gate SqlError α

def inTables {α : Type} (x : TunnelStore.Work α) : Work α := fun (s,faults) =>
  let (answer,(tables,rest)) := x (s.store.tables,faults)
  (answer,({ s with store := { s.store with tables } },rest))

/- `matches!(…, Ok(true))` and `unwrap_or(false)`. -/
def sure (x : Work Bool) : Work Bool := do
  let answer ← attempt x
  pure (answer.toOption.getD false)

/- `HeaderValue::to_str` and `HeaderValue::from_str`. -/
def headerText (value : Bytes) : Option String := if value.all (fun b => (32 ≤ b && b < 127) || b = 9) then fromUtf8 value else none

def headerValue (s : String) : Option String := if (asBytes s).all (fun b => (32 ≤ b && b ≠ 127) || b = 9) then some s else none

structure Headers where
  cookie : Option Bytes := none
  forwardedHost : Option Bytes := none
  forwardedUri : Option Bytes := none

def gateStateCookie : String := "__Host-ct_gate_state"
def gateTargetCookie : String := "ct_gate_target"
def gateSessionCookie : String := "ct_gate_session"
def gateSessionTtlSecs : UInt64 := 8 * 60 * 60
def gateShareSubjectPrefix : String := "share:"
def maxShareTokenLen : Nat := 128

def cookieValue (headers : Headers) (name : String) : Option String := do
  let raw ← headers.cookie.bind headerText
  (raw.toList.splitOn ';').findSome? (fun part =>
    ((stripPrefix name (Hostnames.trim part)).bind (stripPrefix "=")).map String.ofList)

def isReturnByte (b : UInt8) : Bool := 33 ≤ b && b ≤ 126 && b ≠ 59 && b ≠ 44

def safeReturnPath (path : Option String) : String :=
  (path.filter (fun p => p.toList.head? = some '/' && (asBytes p).all isReturnByte)).getD "/"

def unreserved (b : UInt8) : Bool :=
  (65 ≤ b && b ≤ 90) || (97 ≤ b && b ≤ 122) || (48 ≤ b && b ≤ 57) || b = 45 || b = 46 || b = 95 || b = 126

def urlencode (s : String) : String :=
  .ofList ((asBytes s).flatMap (fun b =>
    if unreserved b then [Char.ofNat b.toNat] else ['%',(Hex.digit (b >>> 4)).toUpper,(Hex.digit (b &&& 0x0f)).toUpper]))

structure ExchangedIdentity where
  subject : String
  email : Option String
  emailVerified : Bool

/- What the portal's sign-in configuration gives the gate: `gate_redirect_uri` and `gate_public_host`. -/
structure PortalOidc where
  redirectUri : Option String
  publicHost : Option String

structure Config where
  oidc : Option PortalOidc
  cookieDomain : Option String
  requireVerifiedEmail : Bool := false

inductive Response where
  | admitted (email : String)
  | signIn (state target : String)
  | session (token location : String) (maxAge : UInt64)
  | toLogin (location : String)
  | refused (status : Nat) (body : String)
  | forgotten (status : Nat) (body : String)
  | csrfExpired (retryUrl : String)
  | accessDenied (host : String)
  | shareDenied (host : String)
  | storeFailed (e : SqlError)
  | done
  deriving DecidableEq

def gateUnconfigured : Response := .refused 503 "Browser-Plane login gate is not configured on this deployment"

def gateCsrfMismatch (headers : Headers) : Response :=
  match (cookieValue headers gateTargetCookie).bind (splitOnce '|') with
  | some (host,returnPath) => .csrfExpired ("/gate/start?host=" ++ urlencode host ++ "&return=" ++ urlencode returnPath)
  | none => .refused 403 "invalid or missing CSRF state"

section Handlers
variable (config : Config) (mac sha256 : Bytes → Hash)

def mint (m : Minted) : Work String := memory (fun s => (m.token mac,{ s with signed := m :: s.signed }))

/- The nonce is what the random generator gives. -/
def gateStart (host : String) (returnPath : Option String) (nonce : Vector UInt8 16) : Work Response :=
  let host := toAsciiLowercase host
  match config.oidc, config.cookieDomain with
  | some cfg, some _ => do
    let gated ← attempt (select (fun s => s.store.requireLogin host))
    match gated with
    | .error e => pure (.storeFailed e)
    | .ok false => pure (.refused 404 "this hostname does not require login")
    | .ok true =>
      match cfg.redirectUri with
      | none => pure gateUnconfigured
      | some _ =>
        let target := host ++ "|" ++ safeReturnPath returnPath
        let state ← mint mac (.state nonce target)
        pure (.signIn state target)
  | _, _ => pure gateUnconfigured

/- A visitor who came back: the login is allowed for the hostname, or it is not. -/
def completeLogin (host returnPath : String) (identity : ExchangedIdentity) (now : UInt64) : Work Response := do
  let email := identity.email.getD ""
  let listed ← sure (select (fun s => emailAllowedForHostname host email s.store))
  let emailAllowlisted := listed && (!config.requireVerifiedEmail || identity.emailVerified)
  let anyone ← sure (select (fun s => allowAnyLoginForHostname host s.store))
  if !(anyone || emailAllowlisted) then pure (.accessDenied host)
  else
    let token ← mint mac (.gate ⟨host,email,some identity.subject⟩ (now + gateSessionTtlSecs))
    pure (.session token ("https://" ++ host ++ returnPath) gateSessionTtlSecs)

/- The answer of the identity provider to the code comes as an input. -/
def gateCallback (headers : Headers) (code state : Option String) (exchange : Except String ExchangedIdentity) (now : UInt64) : Work Response :=
  match config.oidc, config.cookieDomain with
  | some cfg, some _ =>
    let code := code.getD ""
    let state := state.getD ""
    if code.isEmpty || state.isEmpty then pure (.refused 400 "missing code or state")
    else if cookieValue headers gateStateCookie ≠ some state then pure (gateCsrfMismatch headers)
    else
      match cookieValue headers gateTargetCookie with
      | none => pure (.refused 400 "missing gate target -- please retry from the original link")
      | some target =>
        if !stateBindsTarget mac state target then pure (.forgotten 403 "gate target does not match this login")
        else
          match splitOnce '|' target with
          | none => pure (.refused 400 "malformed gate target")
          | some (host,returnPath) =>
            match cfg.redirectUri, exchange with
            | none, _ => pure gateUnconfigured
            | some _, .error _ => pure (.forgotten 502 "sign-in failed")
            | some _, .ok identity => completeLogin config mac host returnPath identity now
  | _, _ => pure gateUnconfigured

def gateShare (host : String) (token returnPath : Option String) (now : UInt64) : Work Response :=
  let host := toAsciiLowercase host
  match config.cookieDomain with
  | none => pure gateUnconfigured
  | some _ => do
    let gated ← attempt (select (fun s => s.store.requireLogin host))
    match gated with
    | .error e => pure (.storeFailed e)
    | .ok false => pure (.refused 404 "this hostname does not require login")
    | .ok true =>
      let token := token.getD ""
      if token.isEmpty || maxShareTokenLen < (asBytes token).length then pure (.shareDenied host)
      else
        let redeemed ← attempt (inTables (redeemShareLink sha256 host token now))
        match redeemed with
        | .error _ => pure (.refused 500 "share link lookup failed")
        | .ok none => pure (.shareDenied host)
        | .ok (some link) =>
          let exp := max link.expiresAt (now + 1)
          let session ← mint mac (.gate ⟨host,gateShareSubjectPrefix ++ link.linkId,none⟩ exp)
          pure (.session session ("https://" ++ host ++ safeReturnPath returnPath) (exp - now))

/- Any account, or the one on the list. -/
def admits (host subject : String) : Work Bool := do
  let anyone ← sure (select (fun s => allowAnyLoginForHostname host s.store))
  if anyone then pure true else sure (select (fun s => emailAllowedForHostname host subject s.store))

def stillAuthorized (host email : String) (now : UInt64) : Work Bool :=
  match stripPrefix gateShareSubjectPrefix email.toList with
  | some linkId => sure (inTables (shareLinkActive (.ofList linkId) host now))
  | none => admits host email

def visited (headers : Headers) (queryHost : Option String) : Option String :=
  ((headers.forwardedHost.bind headerText).or queryHost).map toAsciiLowercase

/- The bearer token comes as the subject it was verified for. -/
def gateCheck (headers : Headers) (queryHost bearer : Option String) (now : UInt64) : Work Response :=
  match visited headers queryHost with
  | none => pure (.refused 400 "")
  | some host => do
    let gated ← attempt (select (fun s => s.store.requireLogin host))
    match gated with
    | .error _ => pure (.refused 500 "")
    | .ok false => pure (.admitted "")
    | .ok true =>
      let claims := ((cookieValue headers gateSessionCookie).bind (fun token => verifyGateSession mac token now)).filter (fun c => c.host = host)
      let stays ← (claims.elim (pure false) (fun c => stillAuthorized host c.email now) : Work Bool)
      match if stays then claims.bind (fun c => headerValue c.email) else none with
      | some email => pure (.admitted email)
      | none =>
        let trusted ← (bearer.elim (pure false) (fun subject => admits host subject) : Work Bool)
        match if trusted then bearer.bind headerValue else none with
        | some subject => pure (.admitted subject)
        | none =>
          match config.oidc.bind PortalOidc.publicHost with
          | none => pure (.refused 401 "")
          | some gateHost =>
            let returnPath := ((headers.forwardedUri.bind headerText).filter (fun p => p.toList.head? = some '/')).getD "/"
            pure (.toLogin ("https://" ++ gateHost ++ "/gate/start?host=" ++ urlencode host ++ "&return=" ++ urlencode returnPath))

inductive Request where
  | start (host : String) (returnPath : Option String) (nonce : Vector UInt8 16)
  | callback (headers : Headers) (code state : Option String) (exchange : Except String ExchangedIdentity) (now : UInt64)
  | share (host : String) (token returnPath : Option String) (now : UInt64)
  | check (headers : Headers) (queryHost bearer : Option String) (now : UInt64)
  | portal (claims : SessionClaims) (exp : UInt64)
  | owner (change : Store → Store)

structure Call where
  request : Request
  faults : List Bool := []

/- The portal signs its own sessions with the same key, and whoever writes to the store may
leave it as he likes. -/
def Request.work : Request → Work Response
  | .start host returnPath nonce => gateStart config mac host returnPath nonce
  | .callback headers code state exchange now => gateCallback config mac headers code state exchange now
  | .share host token returnPath now => gateShare config mac sha256 host token returnPath now
  | .check headers queryHost bearer now => gateCheck config mac headers queryHost bearer now
  | .portal claims exp => do
    let token ← mint mac (.portal claims exp)
    pure (.session token "" 0)
  | .owner change => memory (fun s => (.done,{ s with store := change s.store }))

def step (s : Gate) (call : Call) : Except SqlError Response × Gate := perform (call.request.work config mac sha256) s call.faults

def run (calls : List Call) : Gate := Machine.run (step config mac sha256) {} calls

end Handlers
/- The stored hostnames are hostnames, in whatever case. -/
def Named (s : Store) : Prop :=
  ∀ (id : String) (row : TunnelRow) (h : String), s.tables.tunnels[id]? = some row → row.hostname = some h →
    normalizeHostname h = some (toAsciiLowercase h)

section Histories
variable (config : Config) (mac sha256 : Bytes → Hash)

/- A tag that fits has been made with the key, and no address of the identity provider looks
like a share link. -/
def Honest (s : Gate) (call : Call) : Prop :=
  match call.request with
  | .callback headers _ state exchange _ =>
    (∀ target nonce tag, cookieValue headers gateTargetCookie = some target → splitOnce '.' (state.getD "") = some (nonce,tag) →
      tag = targetTag mac nonce target → ∃ m ∈ s.signed, m.message = targetMessage nonce target) ∧
    ∀ identity, exchange = .ok identity → stripPrefix gateShareSubjectPrefix (identity.email.getD "").toList = none
  | .check headers _ _ _ =>
    ∀ token payload tagHex, cookieValue headers gateSessionCookie = some token → rsplitOnce '.' token = some (payload,tagHex) →
      Hex.decode tagHex = some (mac (gateSessionMessage payload)).toList → ∃ m ∈ s.signed, m.message = gateSessionMessage payload
  | .owner change => Named (change s.store)
  | _ => True

/- A call among those made so far, together with those before it. -/
def Earlier (calls : List Call) (happened : List Call → Call → Prop) : Prop :=
  ∃ earlier call later, calls = earlier ++ call :: later ∧ happened earlier call

/- A visitor was sent to the identity provider from the host. -/
inductive StartedFor (host state : String) (earlier : List Call) : Call → Prop where
  | sent {h : String} {returnPath : Option String} {nonce : Vector UInt8 16} {faults : List Bool} (asked : toAsciiLowercase h = host)
      (opened : (step config mac sha256 (run config mac sha256 earlier) ⟨.start h returnPath nonce,faults⟩).1 =
        .ok (.signIn state (host ++ "|" ++ safeReturnPath returnPath))) :
      StartedFor host state earlier ⟨.start h returnPath nonce,faults⟩

def allowedAt (host : String) (identity : ExchangedIdentity) (s : Store) : Prop :=
  allowAnyLoginForHostname host s = true ∨
    emailAllowedForHostname host (identity.email.getD "") s = true ∧ (config.requireVerifiedEmail = true → identity.emailVerified = true)

/- He came back with the state of that start, was allowed, and got a session. -/
inductive LoggedIn (host : String) (identity : ExchangedIdentity) (exp : UInt64) (earlier : List Call) : Call → Prop where
  | completed {headers : Headers} {code : Option String} {state path location : String} {time : UInt64} {faults : List Bool}
      (returned : (cookieValue headers gateTargetCookie).bind (splitOnce '|') = some (host,path))
      (started : Earlier earlier (StartedFor config mac sha256 host state)) (ends : exp = time + gateSessionTtlSecs)
      (allowed : allowedAt config host identity (run config mac sha256 earlier).store)
      (opened : (step config mac sha256 (run config mac sha256 earlier) ⟨.callback headers code (some state) (.ok identity) time,faults⟩).1 =
        .ok (.session (signGateSessionForSubject mac host (identity.email.getD "") identity.subject exp) location gateSessionTtlSecs)) :
      LoggedIn host identity exp earlier ⟨.callback headers code (some state) (.ok identity) time,faults⟩

/- He redeemed a link of the host. -/
inductive Redeemed (host linkId : String) (exp : UInt64) (earlier : List Call) : Call → Prop where
  | opened {h token location : String} {returnPath : Option String} {time : UInt64} {faults : List Bool} {l : ShareLinkRow}
      (asked : toAsciiLowercase h = host) (found : (run config mac sha256 earlier).store.tables.shareLinks[linkId]? = some l)
      (same : l.tokenHash = ShareLinks.shareLinkTokenHash sha256 token) (honors : honored host (run config mac sha256 earlier).store.tables l)
      (live : ShareLinks.isActive l (asI64 time))
      (opened : (step config mac sha256 (run config mac sha256 earlier) ⟨.share h (some token) returnPath time,faults⟩).1 =
        .ok (.session (signGateSession mac host (gateShareSubjectPrefix ++ linkId) exp) location (exp - time))) :
      Redeemed host linkId exp earlier ⟨.share h (some token) returnPath time,faults⟩

/- Where what was minted comes from. -/
def Origin (calls : List Call) : Minted → Prop
  | .state nonce target => ∃ host path, target = host ++ "|" ++ path ∧ '|' ∉ host.toList ∧ (0 : UInt8) ∉ asBytes target ∧
      Earlier calls (StartedFor config mac sha256 host (boundState mac nonce target))
  | .gate claims exp =>
      (∃ identity, claims = ⟨claims.host,identity.email.getD "",some identity.subject⟩ ∧
        stripPrefix gateShareSubjectPrefix claims.email.toList = none ∧ Earlier calls (LoggedIn config mac sha256 claims.host identity exp)) ∨
      ∃ linkId, claims = ⟨claims.host,gateShareSubjectPrefix ++ linkId,none⟩ ∧ Earlier calls (Redeemed config mac sha256 claims.host linkId exp)
  | .portal _ _ => True

structure Grounded (calls : List Call) (s : Gate) : Prop where
  reached : s = run config mac sha256 calls
  named : Named s.store
  origins : ∀ m ∈ s.signed, Origin config mac sha256 calls m

end Histories
section Texts

theorem plainChar {c : Char} (plain : Hostnames.labelChar c = true ∨ c = '.') : c ≠ '|' ∧ 0 < c.toNat ∧ c.toNat < 128 := by
  obtain label | rfl := plain
  · simp only [Hostnames.labelChar, Char.isAlphanum, Char.isAlpha, Char.isUpper, Char.isLower, Char.isDigit, Bool.or_eq_true,
      Bool.and_eq_true, decide_eq_true_eq, beq_iff_eq, ge_iff_le, UInt32.le_iff_toNat_le] at label
    change ((65 ≤ c.toNat ∧ c.toNat ≤ 90 ∨ 97 ≤ c.toNat ∧ c.toNat ≤ 122) ∨ 48 ≤ c.toNat ∧ c.toNat ≤ 57) ∨ c = '-' at label
    obtain alphanumeric | rfl := label
    · refine ⟨?_,by omega,by omega⟩
      rintro rfl
      revert alphanumeric
      decide
    · decide
  · decide

theorem plainText {s : String} (plain : ∀ c ∈ s.toList, Hostnames.labelChar c = true ∨ c = '.') : '|' ∉ s.toList ∧ (0 : UInt8) ∉ asBytes s := by
  refine ⟨fun mem => (plainChar (plain _ mem)).1 rfl,fun mem => ?_⟩
  have bytes := asBytesAscii (fun c mem => (plainChar (plain c mem)).2.2)
  rw [String.ofList_toList] at bytes
  rw [bytes] at mem
  obtain ⟨c,inside,zero⟩ := List.mem_map.mp mem
  obtain ⟨-,positive,small⟩ := plainChar (plain c inside)
  have value := congrArg UInt8.toNat zero
  simp only [Nat.toUInt8, UInt8.toNat_ofNat', UInt8.toNat_zero] at value
  omega

/- A hostname that the gate knows is in canonical form once it is in lower case. -/
theorem gatedPlain {s : Store} (named : Named s) {host : String} (gated : s.requireLogin (toAsciiLowercase host) = true) :
    '|' ∉ (toAsciiLowercase host).toList ∧ (0 : UInt8) ∉ asBytes (toAsciiLowercase host) := by
  obtain ⟨id,row,h,found,has,same⟩ := Satellites.gatedTunnel gated
  have canonical := named id row h found has
  rw [nocase, decide_eq_true_eq, ChannelStore.lowercaseTwice] at same
  rw [← same] at canonical
  exact plainText (fun c mem => Hostnames.normalizedPlain canonical mem)

theorem safePathClean (path : Option String) : (0 : UInt8) ∉ asBytes (safeReturnPath path) := by
  intro mem
  rw [safeReturnPath] at mem
  cases kept : path.filter (fun p => p.toList.head? = some '/' && (asBytes p).all isReturnByte) with
  | none =>
    rw [kept] at mem
    revert mem
    decide
  | some p =>
    rw [kept] at mem
    obtain ⟨-,plain⟩ := Option.filter_eq_some_iff.mp kept
    rw [Bool.and_eq_true] at plain
    have graphic := List.all_eq_true.mp plain.2 0 mem
    revert graphic
    decide

end Texts
section Effects
variable {config : Config} {mac sha256 : Bytes → Hash} {s : Gate}

/- The current answers of the store. -/
def Admitted (host subject : String) (s : Store) : Prop := allowAnyLoginForHostname host s = true ∨ emailAllowedForHostname host subject s = true

def LinkLive (linkId host : String) (now : UInt64) (s : Store) : Prop :=
  ∃ l : ShareLinkRow, s.tables.shareLinks[linkId]? = some l ∧ honored host s.tables l ∧ l.revokedAt = none ∧ asI64 now < l.expiresAt

def Authorized (host email : String) (now : UInt64) (s : Store) : Prop :=
  match stripPrefix gateShareSubjectPrefix email.toList with
  | some linkId => LinkLive (.ofList linkId) host now s
  | none => Admitted host email s

/- A question to the store: it does not fail, changes nothing, and a yes is true. -/
def Tells (x : Work Bool) (s : Gate) (fact : Prop) : Prop :=
  Ends x s (fun
    | .ok yes, m => m = s ∧ (yes = true → fact)
    | .error _, _ => False)

/- What a request may do: it mints nothing and leaves the gate as it is, or it does one of these. -/
inductive Effect (config : Config) (mac sha256 : Bytes → Hash) (s : Gate) : Request → Except SqlError Response → Gate → Prop where
  | idle {request : Request} {r : Except SqlError Response} : Effect config mac sha256 s request r s
  | started {host : String} {returnPath : Option String} {nonce : Vector UInt8 16}
      (gated : s.store.requireLogin (toAsciiLowercase host) = true) :
      Effect config mac sha256 s (.start host returnPath nonce)
        (.ok (.signIn (boundState mac nonce (toAsciiLowercase host ++ "|" ++ safeReturnPath returnPath))
          (toAsciiLowercase host ++ "|" ++ safeReturnPath returnPath)))
        { s with signed := .state nonce (toAsciiLowercase host ++ "|" ++ safeReturnPath returnPath) :: s.signed }
  | loggedIn {headers : Headers} {code : Option String} {state target host returnPath : String} {identity : ExchangedIdentity} {now : UInt64}
      (carried : cookieValue headers gateTargetCookie = some target) (binds : stateBindsTarget mac state target = true)
      (parts : splitOnce '|' target = some (host,returnPath)) (allowed : allowedAt config host identity s.store) :
      Effect config mac sha256 s (.callback headers code (some state) (.ok identity) now)
        (.ok (.session (signGateSessionForSubject mac host (identity.email.getD "") identity.subject (now + gateSessionTtlSecs))
          ("https://" ++ host ++ returnPath) gateSessionTtlSecs))
        { s with signed := .gate ⟨host,identity.email.getD "",some identity.subject⟩ (now + gateSessionTtlSecs) :: s.signed }
  | redeemed {host token : String} {returnPath : Option String} {now : UInt64} {linkId : String} {l : ShareLinkRow} {tables : Tables}
      (found : s.store.tables.shareLinks[linkId]? = some l) (same : l.tokenHash = ShareLinks.shareLinkTokenHash sha256 token)
      (honors : honored (toAsciiLowercase host) s.store.tables l) (live : ShareLinks.isActive l (asI64 now))
      (tunnels : tables.tunnels = s.store.tables.tunnels) :
      Effect config mac sha256 s (.share host (some token) returnPath now)
        (.ok (.session (signGateSession mac (toAsciiLowercase host) (gateShareSubjectPrefix ++ linkId) (max (asU64 l.expiresAt) (now + 1)))
          ("https://" ++ toAsciiLowercase host ++ safeReturnPath returnPath) (max (asU64 l.expiresAt) (now + 1) - now)))
        { store := { s.store with tables }
          signed := .gate ⟨toAsciiLowercase host,gateShareSubjectPrefix ++ linkId,none⟩ (max (asU64 l.expiresAt) (now + 1)) :: s.signed }
  | portal {claims : SessionClaims} {exp : UInt64} {r : Except SqlError Response} :
      Effect config mac sha256 s (.portal claims exp) r { s with signed := .portal claims exp :: s.signed }
  | owner {change : Store → Store} {r : Except SqlError Response} :
      Effect config mac sha256 s (.owner change) r { s with store := change s.store }

theorem endsSure {α : Type} {f : Gate → Bool} {next : Bool → Work α} {post : Except SqlError α → Gate → Prop} (fails : Ends (next false) s post)
    (goes : Ends (next (f s)) s post) : Ends (sure (select f) >>= next) s post := by
  unfold sure
  rw [bind_assoc]
  refine endsAttempt (endsLast (endsSelect ?_ (endsPure ?_)))
  · exact fails
  · exact goes

theorem endsGated {α : Type} {host : String} {next : Except SqlError Bool → Work α} {post : Except SqlError α → Gate → Prop}
    (fails : Ends (next (.error .failure)) s post) (goes : Ends (next (.ok (s.store.requireLogin host))) s post) :
    Ends (attempt (select (fun s => s.store.requireLogin host)) >>= next) s post :=
  endsAttempt (endsLast (endsSelect fails (endsPure goes)))

theorem endsInTables {α : Type} {x : TunnelStore.Work α} {post : Except SqlError α → Gate → Prop}
    (ends : Ends x s.store.tables (fun r tables => post r { s with store := { s.store with tables } })) : Ends (inTables x) s post :=
  fun faults => ends faults

theorem startEnds (host : String) (returnPath : Option String) (nonce : Vector UInt8 16) :
    Ends (gateStart config mac host returnPath nonce) s (Effect config mac sha256 s (.start host returnPath nonce)) := by
  unfold gateStart
  split
  case h_2 => exact endsPure .idle
  case h_1 cfg _ _ _ =>
    refine endsGated (endsPure .idle) ?_
    cases gated : s.store.requireLogin (toAsciiLowercase host) with
    | false => exact endsPure .idle
    | true =>
      cases cfg.redirectUri with
      | none => exact endsPure .idle
      | some uri => exact endsMemory (endsPure (.started gated))

theorem loginEnds {headers : Headers} {code : Option String} {state target host returnPath : String} {identity : ExchangedIdentity} {now : UInt64}
    (carried : cookieValue headers gateTargetCookie = some target) (binds : stateBindsTarget mac state target = true)
    (parts : splitOnce '|' target = some (host,returnPath)) :
    Ends (completeLogin config mac host returnPath identity now) s
      (Effect config mac sha256 s (.callback headers code (some state) (.ok identity) now)) := by
  unfold completeLogin
  have minted : ∀ listed anyone : Bool,
      (listed = true → emailAllowedForHostname host (identity.email.getD "") s.store = true) →
      (anyone = true → allowAnyLoginForHostname host s.store = true) →
      Ends (if !(anyone || listed && (!config.requireVerifiedEmail || identity.emailVerified)) then pure (.accessDenied host)
        else do
          let token ← mint mac (.gate ⟨host,identity.email.getD "",some identity.subject⟩ (now + gateSessionTtlSecs))
          pure (.session token ("https://" ++ host ++ returnPath) gateSessionTtlSecs)) s
        (Effect config mac sha256 s (.callback headers code (some state) (.ok identity) now)) := by
    intro listed anyone lists any
    split
    case isTrue => exact endsPure .idle
    case isFalse allowed =>
      refine endsMemory (endsPure (.loggedIn carried binds parts ?_))
      rw [Bool.not_eq_true', Bool.not_eq_false, Bool.or_eq_true, Bool.and_eq_true, Bool.or_eq_true, Bool.not_eq_true'] at allowed
      rcases allowed with all | ⟨here,verified⟩
      · exact .inl (any all)
      · refine .inr ⟨lists here,fun required => ?_⟩
        rcases verified with off | verified
        · rw [required] at off
          contradiction
        · exact verified
  have anyone : ∀ listed : Bool, (listed = true → emailAllowedForHostname host (identity.email.getD "") s.store = true) →
      Ends (do
        let anyone ← sure (select (fun s => allowAnyLoginForHostname host s.store))
        if !(anyone || listed && (!config.requireVerifiedEmail || identity.emailVerified)) then pure (.accessDenied host)
        else
          let token ← mint mac (.gate ⟨host,identity.email.getD "",some identity.subject⟩ (now + gateSessionTtlSecs))
          pure (.session token ("https://" ++ host ++ returnPath) gateSessionTtlSecs)) s
        (Effect config mac sha256 s (.callback headers code (some state) (.ok identity) now)) :=
    fun listed lists => endsSure (minted listed false lists nofun) (minted listed _ lists id)
  exact endsSure (anyone false nofun) (anyone _ id)

theorem callbackEnds (headers : Headers) (code state : Option String) (exchange : Except String ExchangedIdentity) (now : UInt64) :
    Ends (gateCallback config mac headers code state exchange now) s (Effect config mac sha256 s (.callback headers code state exchange now)) := by
  unfold gateCallback
  split
  case h_2 => exact endsPure .idle
  case h_1 cfg _ _ _ =>
    dsimp only
    split
    case isTrue => exact endsPure .idle
    case isFalse given =>
      split
      case isTrue => exact endsPure .idle
      case isFalse =>
        split
        case h_1 => exact endsPure .idle
        case h_2 target carried =>
          split
          case isTrue => exact endsPure .idle
          case isFalse binds =>
            rw [Bool.not_eq_true', Bool.not_eq_false] at binds
            split
            case h_1 => exact endsPure .idle
            case h_2 host path parts =>
              split
              case h_1 => exact endsPure .idle
              case h_2 => exact endsPure .idle
              case h_3 identity _ =>
                cases state with
                | none => exact absurd (Bool.or_true _) given
                | some state => exact loginEnds carried binds parts

theorem shareEnds (host : String) (token returnPath : Option String) (now : UInt64) :
    Ends (gateShare config mac sha256 host token returnPath now) s (Effect config mac sha256 s (.share host token returnPath now)) := by
  unfold gateShare
  dsimp only
  split
  case h_1 => exact endsPure .idle
  case h_2 =>
    refine endsGated (endsPure .idle) ?_
    cases s.store.requireLogin (toAsciiLowercase host) with
    | false => exact endsPure .idle
    | true =>
      dsimp only
      split
      case isTrue => exact endsPure .idle
      case isFalse given =>
        cases token with
        | none => exact absurd rfl given
        | some token =>
          refine endsAttempt (endsInTables (endsMono (ShareLinks.redeemEnds (toAsciiLowercase host) token now) ?_))
          intro r tables effect
          rcases r with e | _ | link
          · cases effect
            exact endsPure .idle
          · cases effect
            exact endsPure .idle
          · cases effect with
            | idle negative => exact absurd (negative _ rfl) (by simp [ShareLinks.LinkAnswer.positive])
            | redeemed found same honors live => exact endsMemory (endsPure (.redeemed found same honors live rfl))

theorem endsTells {α : Type} {x : Work Bool} {fact : Prop} {next : Bool → Work α} {post : Except SqlError α → Gate → Prop} (tells : Tells x s fact)
    (goes : ∀ yes : Bool, (yes = true → fact) → Ends (next yes) s post) : Ends (x >>= next) s post := by
  refine endsBind (fun yes m => m = s ∧ (yes = true → fact)) (endsMono tells ?_) ?_
  · rintro (e | yes) m told
    · contradiction
    · exact told
  · rintro yes m ⟨rfl,told⟩
    exact goes yes told

theorem tellsNo {fact : Prop} : Tells (pure false) s fact := endsPure ⟨rfl,nofun⟩

theorem tellsMono {x : Work Bool} {fact weaker : Prop} (tells : Tells x s fact) (implies : fact → weaker) : Tells x s weaker := by
  refine endsMono tells ?_
  rintro (e | yes) m told
  · exact told
  · exact ⟨told.1,fun holds => implies (told.2 holds)⟩

theorem headerSame {text value : String} (carried : headerValue text = some value) : text = value := by
  obtain ⟨-,same⟩ := Option.ite_none_right_eq_some.mp carried
  exact Option.some.inj same

theorem tellsSure {f : Gate → Bool} {fact : Prop} (holds : f s = true → fact) : Tells (sure (select f)) s fact := by
  refine endsLast (endsSure ?_ ?_)
  · exact endsPure ⟨rfl,nofun⟩
  · exact endsPure ⟨rfl,holds⟩

theorem admitsTells (host subject : String) : Tells (admits host subject) s (Admitted host subject s.store) := by
  unfold admits
  refine endsTells (@tellsSure s _ (allowAnyLoginForHostname host s.store = true) id) ?_
  intro yes told
  split
  case isTrue all => exact endsPure ⟨rfl,fun _ => .inl (told all)⟩
  case isFalse => exact tellsSure .inr

theorem stillTells (host email : String) (now : UInt64) : Tells (stillAuthorized host email now) s (Authorized host email now s.store) := by
  unfold stillAuthorized Authorized
  split
  case h_2 => exact admitsTells host email
  case h_1 linkId _ =>
    unfold sure
    refine endsAttempt (endsInTables (endsMono (@ShareLinks.activeEnds (fun _ => default) _ (.ofList linkId) host now) ?_))
    intro r tables effect
    rcases r with e | yes
    · cases effect
      exact endsPure ⟨rfl,nofun⟩
    · cases effect with
      | idle negative => exact endsPure ⟨rfl,fun yes => by cases yes; exact absurd (negative _ rfl) (by simp [ShareLinks.LinkAnswer.positive])⟩
      | active found honors unrevoked live => exact endsPure ⟨rfl,fun _ => ⟨_,found,honors,unrevoked,live⟩⟩

/- Why the gate lets a request through to a hostname that requires a login. -/
theorem checkEnds (headers : Headers) (queryHost bearer : Option String) (now : UInt64) :
    Ends (gateCheck config mac headers queryHost bearer now) s (fun r m => m = s ∧
      ∀ email host, r = .ok (.admitted email) → visited headers queryHost = some host → s.store.requireLogin host = true →
        (∃ token claims, cookieValue headers gateSessionCookie = some token ∧ verifyGateSession mac token now = some claims ∧
          claims.host = host ∧ claims.email = email ∧ Authorized host email now s.store) ∨
        bearer = some email ∧ Admitted host email s.store) := by
  unfold gateCheck
  split
  case h_1 unnamed => exact endsPure ⟨rfl,fun _ _ _ names => by rw [unnamed] at names; contradiction⟩
  case h_2 host names =>
    refine endsGated (endsPure ⟨rfl,fun _ _ other => by cases other⟩) ?_
    cases gated : s.store.requireLogin host with
    | false =>
      refine endsPure ⟨rfl,fun _ _ _ other off => ?_⟩
      cases names.symm.trans other
      rw [gated] at off
      contradiction
    | true =>
      have entered : ∀ claims, ((cookieValue headers gateSessionCookie).bind (fun token => verifyGateSession mac token now)).filter
          (fun c => c.host = host) = some claims →
          ∃ token, cookieValue headers gateSessionCookie = some token ∧ verifyGateSession mac token now = some claims ∧ claims.host = host := by
        intro claims kept
        obtain ⟨verified,bound⟩ := Option.filter_eq_some_iff.mp kept
        obtain ⟨token,cookie,verified⟩ := Option.bind_eq_some_iff.mp verified
        exact ⟨token,cookie,verified,of_decide_eq_true bound⟩
      dsimp only
      generalize ((cookieValue headers gateSessionCookie).bind (fun token => verifyGateSession mac token now)).filter
        (fun c => c.host = host) = session at entered ⊢
      have stays : Tells (session.elim (pure false) (fun c => stillAuthorized host c.email now)) s
          (∃ c, session = some c ∧ Authorized host c.email now s.store) := by
        cases session with
        | none => exact tellsNo
        | some c => exact tellsMono (stillTells host c.email now) (fun authorized => ⟨c,rfl,authorized⟩)
      have trusted : Tells (bearer.elim (pure false) (fun subject => admits host subject)) s
          (∃ subject, bearer = some subject ∧ Admitted host subject s.store) := by
        cases bearer with
        | none => exact tellsNo
        | some subject => exact tellsMono (admitsTells host subject) (fun admitted => ⟨subject,rfl,admitted⟩)
      refine endsTells stays ?_
      intro yes told
      split
      case h_1 email carried =>
        obtain ⟨stayed,carried⟩ := Option.ite_none_right_eq_some.mp carried
        refine endsPure ⟨rfl,?_⟩
        intro _ other answered visits _
        cases answered
        cases names.symm.trans visits
        obtain ⟨c,known,authorized⟩ := told stayed
        rw [known, Option.bind_some] at carried
        obtain ⟨token,cookie,verified,bound⟩ := entered c known
        cases headerSame carried
        exact .inl ⟨token,c,cookie,verified,bound,rfl,authorized⟩
      case h_2 =>
        refine endsTells trusted ?_
        intro yes told
        split
        case h_1 subject carried =>
          obtain ⟨trusts,carried⟩ := Option.ite_none_right_eq_some.mp carried
          refine endsPure ⟨rfl,?_⟩
          intro _ other answered visits _
          cases answered
          cases names.symm.trans visits
          obtain ⟨_,known,admitted⟩ := told trusts
          rw [known, Option.bind_some] at carried
          cases headerSame carried
          exact .inr ⟨known,admitted⟩
        case h_2 =>
          split
          · exact endsPure ⟨rfl,fun _ _ other => by cases other⟩
          · exact endsPure ⟨rfl,fun _ _ other => by cases other⟩

theorem stepEffect (s : Gate) (call : Call) : Effect config mac sha256 s call.request (step config mac sha256 s call).1 (step config mac sha256 s call).2 := by
  obtain ⟨request,faults⟩ := call
  cases request with
  | start => exact startEnds _ _ _ faults
  | callback => exact callbackEnds _ _ _ _ _ faults
  | share => exact shareEnds _ _ _ _ faults
  | portal => exact .portal
  | owner => exact .owner
  | check headers queryHost bearer now =>
    have same : (step config mac sha256 s ⟨.check headers queryHost bearer now,faults⟩).2 = s :=
      (checkEnds headers queryHost bearer now faults).1
    rw [same]
    exact .idle

end Effects
section Runs
variable {config : Config} {mac sha256 : Bytes → Hash} {s : Gate} {calls : List Call}

theorem earlierNext {happened : List Call → Call → Prop} (before : Earlier calls happened) (call : Call) : Earlier (calls ++ [call]) happened := by
  obtain ⟨earlier,former,later,rfl,holds⟩ := before
  exact ⟨earlier,former,later ++ [call],by rw [List.append_assoc]; rfl,holds⟩

theorem earlierNow {happened : List Call → Call → Prop} {call : Call} (holds : happened calls call) : Earlier (calls ++ [call]) happened :=
  ⟨calls,call,[],rfl,holds⟩

theorem originNext {m : Minted} (origin : Origin config mac sha256 calls m) (call : Call) : Origin config mac sha256 (calls ++ [call]) m := by
  cases m with
  | portal => trivial
  | state nonce target =>
    obtain ⟨host,path,same,plain,clean,started⟩ := origin
    exact ⟨host,path,same,plain,clean,earlierNext started call⟩
  | gate claims exp =>
    rcases origin with ⟨identity,same,mail,login⟩ | ⟨linkId,same,link⟩
    · exact .inl ⟨identity,same,mail,earlierNext login call⟩
    · exact .inr ⟨linkId,same,earlierNext link call⟩

/- The one zero byte of the message stands between nonce and target. -/
theorem zeroSplits {a b a' b' : Bytes} (first : (0 : UInt8) ∉ a) (second : (0 : UInt8) ∉ b) (same : a ++ [0] ++ b = a' ++ [0] ++ b') :
    a = a' ∧ b = b' := by
  rw [List.append_assoc, List.append_assoc] at same
  rcases List.append_eq_append_iff.mp same with ⟨c,longer,rest⟩ | ⟨c,longer,rest⟩
  · cases c with
    | nil => exact ⟨by simpa using longer.symm,by simpa using rest⟩
    | cons x c =>
      obtain ⟨-,inside⟩ := List.cons.inj rest
      have whole : b = c ++ ([0] ++ b') := inside
      exact absurd (by rw [whole]; simp) second
  · cases c with
    | nil => exact ⟨by simpa using longer,by simpa using rest.symm⟩
    | cons x c =>
      obtain ⟨zero,-⟩ := List.cons.inj rest
      exact absurd (longer ▸ by simp [← zero]) first

theorem hexZeroless (bytes : Bytes) : (0 : UInt8) ∉ asBytes (Hex.encode bytes) :=
  (plainText (fun c mem => .inl (by rw [Hostnames.labelChar, hexPlain bytes c mem, Bool.true_or]))).2

theorem targetMade {m : Minted} {nonce target : String} (origin : Origin config mac sha256 calls m) (made : m.message = targetMessage nonce target) :
    ∃ random : Vector UInt8 16, m = .state random target ∧ nonce = Hex.encode random.toList := by
  cases m with
  | portal claims exp =>
    have third := congrArg (·[3]?) made
    rw [Minted.message, sessionMessage, targetMessage, List.append_assoc, List.append_assoc,
      List.getElem?_append_left (by decide), List.getElem?_append_left (by decide)] at third
    exact absurd third (by decide)
  | gate claims exp =>
    have eighth := congrArg (·[8]?) made
    rw [Minted.message, gateSessionMessage, targetMessage, List.append_assoc, List.append_assoc,
      List.getElem?_append_left (by decide), List.getElem?_append_left (by decide)] at eighth
    exact absurd eighth (by decide)
  | state random started =>
    obtain ⟨_,_,-,-,clean,-⟩ := origin
    rw [Minted.message, targetMessage, targetMessage, List.append_assoc, List.append_assoc, List.append_assoc, List.append_assoc] at made
    have rest := List.append_cancel_left made
    rw [← List.append_assoc, ← List.append_assoc] at rest
    obtain ⟨nonces,targets⟩ := zeroSplits (hexZeroless random.toList) clean rest
    cases asBytesInjective targets
    exact ⟨random,rfl,(asBytesInjective nonces).symm⟩

theorem bar : "|" = String.singleton '|' := by decide

theorem startedOrigin {host : String} {returnPath : Option String} {nonce : Vector UInt8 16} {faults : List Bool}
    (named : Named (run config mac sha256 calls).store)
    (gated : (run config mac sha256 calls).store.requireLogin (toAsciiLowercase host) = true)
    (opened : (step config mac sha256 (run config mac sha256 calls) ⟨.start host returnPath nonce,faults⟩).1 =
      .ok (.signIn (boundState mac nonce (toAsciiLowercase host ++ "|" ++ safeReturnPath returnPath))
        (toAsciiLowercase host ++ "|" ++ safeReturnPath returnPath))) :
    Origin config mac sha256 (calls ++ [⟨.start host returnPath nonce,faults⟩])
      (.state nonce (toAsciiLowercase host ++ "|" ++ safeReturnPath returnPath)) := by
  obtain ⟨plain,clean⟩ := gatedPlain named gated
  refine ⟨toAsciiLowercase host,safeReturnPath returnPath,rfl,plain,?_,earlierNow (.sent rfl opened)⟩
  have bytes : asBytes (toAsciiLowercase host ++ "|" ++ safeReturnPath returnPath) =
      asBytes (toAsciiLowercase host) ++ asBytes "|" ++ asBytes (safeReturnPath returnPath) := by
    simp [asBytes]
  rw [bytes, List.mem_append, List.mem_append]
  rintro ((host | middle) | path)
  · exact clean host
  · revert middle
    decide
  · exact safePathClean returnPath path

/- The state has been made for the target, and so for its host. -/
theorem boundHost {state target host returnPath : String}
    (origins : ∀ m ∈ s.signed, Origin config mac sha256 calls m)
    (unforged : ∀ nonce tag, splitOnce '.' state = some (nonce,tag) → tag = targetTag mac nonce target →
      ∃ m ∈ s.signed, m.message = targetMessage nonce target)
    (binds : stateBindsTarget mac state target = true) (parts : splitOnce '|' target = some (host,returnPath)) :
    Earlier calls (StartedFor config mac sha256 host state) := by
  obtain ⟨⟨nonce,tag⟩,cuts,equal⟩ := (Option.any_eq_true _ _).mp binds
  have fits := asBytesInjective (ctEqIff.mp equal)
  obtain ⟨m,mem,made⟩ := unforged nonce tag cuts fits
  obtain ⟨random,rfl,rfl⟩ := targetMade (origins m mem) made
  obtain ⟨origin,path,rfl,plain,-,started⟩ := origins _ mem
  rw [bar, splitFirst plain] at parts
  cases parts
  have whole : state = boundState mac random (host ++ "|" ++ returnPath) := by
    rw [(splitParts cuts).1, fits, boundState, dot]
  rw [whole]
  exact started

theorem groundedNext {call : Call} (honest : Honest mac s call) (grounded : Grounded config mac sha256 calls s) :
    Grounded config mac sha256 (calls ++ [call]) (step config mac sha256 s call).2 := by
  obtain ⟨reached,named,origins⟩ := grounded
  subst reached
  have next : (step config mac sha256 (run config mac sha256 calls) call).2 = run config mac sha256 (calls ++ [call]) :=
    (Machine.runNext _ calls call).symm
  have kept : ∀ m ∈ (run config mac sha256 calls).signed, Origin config mac sha256 (calls ++ [call]) m :=
    fun m mem => originNext (origins m mem) call
  have effect : Effect config mac sha256 _ call.request _ _ := stepEffect (run config mac sha256 calls) call
  obtain ⟨request,faults⟩ := call
  generalize out : step config mac sha256 (run config mac sha256 calls) ⟨request,faults⟩ = answer at next effect ⊢
  have answered := congrArg Prod.fst out
  obtain ⟨r,m⟩ := answer
  cases effect with
  | idle => exact ⟨next,named,kept⟩
  | started gated => exact ⟨next,named,List.forall_mem_cons.mpr ⟨startedOrigin named gated answered,kept⟩⟩
  | owner => exact ⟨next,honest,kept⟩
  | portal => exact ⟨next,named,List.forall_mem_cons.mpr ⟨trivial,kept⟩⟩
  | loggedIn carried binds parts allowed =>
    refine ⟨next,named,List.forall_mem_cons.mpr ⟨.inl ⟨_,rfl,honest.2 _ rfl,earlierNow ?_⟩,kept⟩⟩
    have started := boundHost origins (fun nonce tag => honest.1 _ nonce tag carried) binds parts
    have returned := (congrArg (fun target => target.bind (splitOnce '|')) carried).trans parts
    exact .completed returned started rfl allowed answered
  | redeemed found same honors live tunnels =>
    refine ⟨next,?_,List.forall_mem_cons.mpr ⟨.inr ⟨_,rfl,earlierNow ?_⟩,kept⟩⟩
    · intro id row h here has
      rw [tunnels] at here
      exact named id row h here has
    · exact .opened rfl found same honors live answered

theorem groundedRun (honest : Machine.along (step config mac sha256) (Honest mac) {} calls) :
    Grounded config mac sha256 calls (run config mac sha256 calls) := by
  induction calls using List.reverseRecOn with
  | nil => exact ⟨rfl,fun _ _ _ found => by simp [run, Machine.run] at found,by simp [run, Machine.run]⟩
  | append_singleton calls call ih =>
    obtain ⟨before,last,-⟩ := Machine.alongAppend.mp honest
    have next : (step config mac sha256 (run config mac sha256 calls) call).2 = run config mac sha256 (calls ++ [call]) :=
      (Machine.runNext _ calls call).symm
    exact next ▸ groundedNext last (ih before)

theorem sharedSubject (linkId : String) : stripPrefix gateShareSubjectPrefix (gateShareSubjectPrefix ++ linkId).toList = some linkId.toList := by
  rw [stripPrefix, String.toList_append, if_pos (List.prefix_append _ _), List.drop_left]

/- A session that is let in was minted by a login for its host, or by a link of it. -/
theorem sessionOrigin {headers : Headers} {queryHost bearer : Option String} {now : UInt64} {faults : List Bool} {token : String}
    {claims : GateSessionClaims}
    (honest : Machine.along (step config mac sha256) (Honest mac) {} (calls ++ [⟨.check headers queryHost bearer now,faults⟩]))
    (carried : cookieValue headers gateSessionCookie = some token) (accepted : verifyGateSession mac token now = some claims) :
    ∃ exp, now < exp ∧ Origin config mac sha256 calls (.gate claims exp) := by
  obtain ⟨before,last,-⟩ := Machine.alongAppend.mp honest
  obtain ⟨payload,tagHex,cuts,decoded⟩ := gateAccepted accepted
  obtain ⟨m,mem,made⟩ := last token payload tagHex carried cuts decoded
  obtain ⟨exp,rfl,-,live⟩ := gateMade cuts decoded made accepted
  exact ⟨exp,live,(groundedRun before).origins _ mem⟩

end Runs
/- Whom the gate lets through to a hostname that requires a login. -/
theorem gateAdmits {config : Config} {mac sha256 : Bytes → Hash} {calls : List Call} {headers : Headers} {queryHost bearer : Option String}
    {now : UInt64} {faults : List Bool} {host email : String}
    (honest : Machine.along (step config mac sha256) (Honest mac) {} (calls ++ [⟨.check headers queryHost bearer now,faults⟩]))
    (visits : visited headers queryHost = some host) (gated : (run config mac sha256 calls).store.requireLogin host = true)
    (admitted : (step config mac sha256 (run config mac sha256 calls) ⟨.check headers queryHost bearer now,faults⟩).1 = .ok (.admitted email)) :
    (∃ identity exp, identity.email.getD "" = email ∧ Earlier calls (LoggedIn config mac sha256 host identity exp) ∧ now < exp ∧
      Admitted host email (run config mac sha256 calls).store) ∨
    (∃ linkId exp, email = gateShareSubjectPrefix ++ linkId ∧ Earlier calls (Redeemed config mac sha256 host linkId exp) ∧
      LinkLive linkId host now (run config mac sha256 calls).store) ∨
    bearer = some email ∧ Admitted host email (run config mac sha256 calls).store := by
  obtain ⟨-,reasons⟩ := checkEnds headers queryHost bearer now faults
  rcases reasons email host admitted visits gated with ⟨token,claims,carried,accepted,rfl,rfl,authorized⟩ | ⟨known,listed⟩
  case inr => exact .inr (.inr ⟨known,listed⟩)
  obtain ⟨exp,live,origin⟩ := sessionOrigin honest carried accepted
  rcases origin with ⟨identity,same,mail,login⟩ | ⟨linkId,same,link⟩
  · rw [Authorized, mail] at authorized
    exact .inl ⟨identity,exp,(congrArg GateSessionClaims.email same).symm,login,live,authorized⟩
  · have named : claims.email = gateShareSubjectPrefix ++ linkId := congrArg GateSessionClaims.email same
    rw [Authorized, named, sharedSubject] at authorized
    dsimp only at authorized
    rw [String.ofList_toList] at authorized
    exact .inr (.inl ⟨linkId,exp,named,link,authorized⟩)

/- One hostname with one guest, and his way in. -/
def oneGuest (_ : Store) : Store where
  tables := {
    tunnels := (∅ : BTreeMap String TunnelRow).insert "t" ⟨"o","n",some "h.x",0,"r",.rot,none,none,.none,none,none,false,true,false,none,false,false,0,none,none,.off,none⟩
    loginAllowlist := (∅ : BTreeMap (String × String) AllowRow).insert ("h.x","e@x") ⟨"o",0⟩ }

def openGate : Config := ⟨some ⟨some "https://g/gate/callback",some "g"⟩,some ".x",true⟩

def guestState : String := boundState everyOther (Vector.replicate 16 0) "h.x|/"

def guestReturn (verified : Bool) : Request :=
  .callback { cookie := some (asBytes ("__Host-ct_gate_state=" ++ guestState ++ "; ct_gate_target=h.x|/")) } (some "c") (some guestState)
    (.ok ⟨"s",some "e@x",verified⟩) 5

def guestSession : Headers := { cookie := some (asBytes ("ct_gate_session=" ++ signGateSessionForSubject everyOther "h.x" "e@x" "s" 28805)) }

def guestVisit : Call := ⟨.check guestSession (some "h.x") none 100,[]⟩

def guestLogin : List Call := [⟨.owner oneGuest,[]⟩,⟨.start "H.x" none (Vector.replicate 16 0),[]⟩,⟨guestReturn true,[]⟩]

theorem oneNamed {s : Store}
    (names : ∀ e ∈ s.tables.tunnels.toList, e.2.hostname.all (fun h => normalizeHostname h = some (toAsciiLowercase h))) : Named s := by
  intro id row h here has
  have canonical := names (id,row) (Std.ExtTreeMap.mem_toList_iff_getElem?_eq_some.mpr here)
  rw [has] at canonical
  exact of_decide_eq_true canonical

theorem cookiePlain {s name : String} (plain : (asBytes s).all (fun b => (32 ≤ b && b < 127) || b = 9) = true) :
    cookieValue { cookie := some (asBytes s) } name = (s.toList.splitOn ';').findSome? (fun part =>
      ((stripPrefix name (Hostnames.trim part)).bind (stripPrefix "=")).map String.ofList) := by
  rw [cookieValue, Option.bind_some, headerText, if_pos plain, fromUtf8Bytes]
  rfl

/- What the texts of the guest come to. -/
theorem guestTexts : (asBytes ("__Host-ct_gate_state=" ++ guestState ++ "; ct_gate_target=h.x|/")).all (fun b => (32 ≤ b && b < 127) || b = 9) = true ∧
    (asBytes ("ct_gate_session=" ++ signGateSessionForSubject everyOther "h.x" "e@x" "s" 28805)).all (fun b => (32 ≤ b && b < 127) || b = 9) = true ∧
    ("c".isEmpty || guestState.isEmpty) = false ∧ splitOnce '|' "h.x|/" = some ("h.x","/") ∧
    stripPrefix gateShareSubjectPrefix "e@x".toList = none ∧ headerValue "e@x" = some "e@x" ∧ visited guestSession (some "h.x") = some "h.x" := by
  decide +kernel

theorem guestCookies : cookieValue { cookie := some (asBytes ("__Host-ct_gate_state=" ++ guestState ++ "; ct_gate_target=h.x|/")) } gateTargetCookie = some "h.x|/" ∧
    cookieValue { cookie := some (asBytes ("__Host-ct_gate_state=" ++ guestState ++ "; ct_gate_target=h.x|/")) } gateStateCookie = some guestState ∧
    cookieValue guestSession gateSessionCookie = some (signGateSessionForSubject everyOther "h.x" "e@x" "s" 28805) := by
  have target := @cookiePlain _ gateTargetCookie guestTexts.1
  have binding := @cookiePlain _ gateStateCookie guestTexts.1
  have session : cookieValue guestSession gateSessionCookie = _ := @cookiePlain _ gateSessionCookie guestTexts.2.1
  refine ⟨?_,?_,?_⟩
  · refine target.trans ?_
    simp only [String.toList_append, guestState, boundState, targetTag, Hex.encode, String.toList_ofList]
    decide +kernel
  · refine binding.trans ?_
    simp only [String.toList_append, guestState, boundState, targetTag, Hex.encode, String.toList_ofList]
    decide +kernel
  · refine session.trans ?_
    simp only [String.toList_append, signGateSessionForSubject, subjectPayload, hex, Hex.encode, String.toList_ofList]
    decide +kernel

/- A state binds the target it was made for. -/
theorem bindsOwn (mac : Bytes → Hash) (nonce : Vector UInt8 16) (target : String) :
    stateBindsTarget mac (boundState mac nonce target) target = true := by
  have cuts : splitOnce '.' (boundState mac nonce target) = some (Hex.encode nonce.toList,targetTag mac (Hex.encode nonce.toList) target) := by
    rw [boundState, dot, splitFirst (hexClean nonce.toList).2]
  rw [stateBindsTarget, cuts, Option.any_some]
  exact ctEqIff.mpr rfl

/- The way back from the identity provider comes to the decision on the guest. -/
theorem guestReturned (s : Gate) (verified : Bool) :
    step openGate everyOther (fun _ => default) s ⟨guestReturn verified,[]⟩ =
      perform (completeLogin openGate everyOther "h.x" "/" ⟨"s",some "e@x",verified⟩ 5) s [] := by
  have binds : stateBindsTarget everyOther guestState "h.x|/" = true := bindsOwn everyOther _ _
  rw [step, Call.request, guestReturn, Request.work, gateCallback]
  simp only [openGate, Option.getD_some, guestTexts.2.2.1, guestCookies.2.1, guestCookies.1, binds, guestTexts.2.2.2.1, Bool.false_eq_true, if_false,
    Bool.not_true, ne_eq, not_true_eq_false]

theorem performAsks {α : Type} (f : Gate → α) {β : Type} (next : Except SqlError α → Work β) (s : Gate) :
    perform (attempt (select f) >>= next) s [] = perform (next (.ok (f s))) s [] := rfl

theorem performAdmits (host subject : String) {β : Type} (next : Bool → Work β) {s : Gate} (admitted : Admitted host subject s.store) :
    perform (admits host subject >>= next) s [] = perform (next true) s [] := by
  have opened : perform (admits host subject >>= next) s [] =
      perform ((if allowAnyLoginForHostname host s.store then pure true
        else sure (select (fun s => emailAllowedForHostname host subject s.store))) >>= next) s [] := rfl
  rw [opened]
  split
  case isTrue => rfl
  case isFalse closed =>
    have listed := admitted.resolve_left closed
    have told : perform (sure (select (fun s : Gate => emailAllowedForHostname host subject s.store)) >>= next) s [] =
      perform (next (emailAllowedForHostname host subject s.store)) s [] := rfl
    rw [told, listed]

/- And his visit to the current answers of the store. -/
theorem guestVisited {s : Gate} (gated : s.store.requireLogin "h.x" = true) (admitted : Admitted "h.x" "e@x" s.store) :
    (step openGate everyOther (fun _ => default) s guestVisit).1 = .ok (.admitted "e@x") := by
  obtain ⟨-,-,-,-,plain,shown,host⟩ := guestTexts
  have accepted : ((cookieValue guestSession gateSessionCookie).bind (fun token => verifyGateSession everyOther token 100)).filter
      (fun c => c.host = "h.x") = some ⟨"h.x","e@x",some "s"⟩ := by
    rw [guestCookies.2.2, Option.bind_some, subjectRoundTrip, if_pos (by decide)]
    rfl
  have account : stillAuthorized "h.x" "e@x" 100 = admits "h.x" "e@x" := by
    rw [stillAuthorized, plain]
  rw [step, Call.request, guestVisit, Request.work, gateCheck, host]
  simp only [accepted, performAsks, gated, Option.elim_some, account, performAdmits _ _ _ admitted, if_true, Option.bind_some, shown]
  rfl
theorem guestBack (calls : List Call) (verified : Bool) : run openGate everyOther (fun _ => default) (calls ++ [⟨guestReturn verified,[]⟩]) =
    (perform (completeLogin openGate everyOther "h.x" "/" ⟨"s",some "e@x",verified⟩ 5) (run openGate everyOther (fun _ => default) calls) []).2 := by
  rw [run, Machine.runNext, guestReturned]
  rfl

theorem stateParts : (splitOnce '.' guestState).map Prod.fst = some (Hex.encode (Vector.replicate 16 0).toList) := by
  rw [guestState, boundState, dot, splitFirst (hexClean (Vector.replicate 16 0).toList).2]
  rfl

theorem guestReturns {s : Gate} {verified : Bool} (minted : .state (Vector.replicate 16 0) "h.x|/" ∈ s.signed) :
    Honest everyOther s ⟨guestReturn verified,[]⟩ := by
  refine ⟨?_,?_⟩
  · intro target nonce tag carried cuts _
    cases Option.some.inj (guestCookies.1.symm.trans carried)
    have parts := stateParts
    have cut : splitOnce '.' guestState = some (nonce,tag) := cuts
    rw [cut] at parts
    cases parts
    exact ⟨_,minted,rfl⟩
  · rintro identity ⟨⟩
    exact guestTexts.2.2.2.2.1

theorem guestVisits {s : Gate} (minted : .gate ⟨"h.x","e@x",some "s"⟩ 28805 ∈ s.signed) : Honest everyOther s guestVisit := by
  intro token payload tagHex carried cuts _
  cases Option.some.inj (guestCookies.2.2.symm.trans carried)
  cases Option.some.inj ((signedSplit _ _).symm.trans cuts)
  exact ⟨_,minted,rfl⟩

/- His calls are honest and leave the gate open to him. -/
theorem guestEnded : Machine.along (step openGate everyOther (fun _ => default)) (Honest everyOther) {} (guestLogin ++ [guestVisit]) ∧
    (run openGate everyOther (fun _ => default) guestLogin).store.requireLogin "h.x" = true ∧
    emailAllowedForHostname "h.x" "e@x" (run openGate everyOther (fun _ => default) guestLogin).store = true := by
  refine ⟨⟨oneNamed (by decide +kernel),trivial,guestReturns (by decide +kernel),guestVisits (by rw [guestReturned]; decide +kernel),trivial⟩,?_⟩
  have calls : guestLogin = [⟨.owner oneGuest,[]⟩,⟨.start "H.x" none (Vector.replicate 16 0),[]⟩] ++ [⟨guestReturn true,[]⟩] := rfl
  rw [calls, guestBack]
  decide +kernel

theorem guestFacts :
    cookieValue { cookie := some (asBytes ("__Host-ct_gate_state=" ++ guestState ++ "; ct_gate_target=h.x|/")) } gateTargetCookie =
      some "h.x|/" ∧
    (splitOnce '.' guestState).map Prod.fst = some (Hex.encode (Vector.replicate 16 0).toList) ∧
    stripPrefix gateShareSubjectPrefix "e@x".toList = none ∧
    cookieValue guestSession gateSessionCookie = some (signGateSessionForSubject everyOther "h.x" "e@x" "s" 28805) ∧
    visited guestSession (some "h.x") = some "h.x" ∧
    (run openGate everyOther (fun _ => default) guestLogin).store.requireLogin "h.x" = true ∧
    (step openGate everyOther (fun _ => default) (run openGate everyOther (fun _ => default) guestLogin) guestVisit).1 = .ok (.admitted "e@x") := by
  obtain ⟨-,-,-,-,plain,-,host⟩ := guestTexts
  obtain ⟨-,gated,listed⟩ := guestEnded
  exact ⟨guestCookies.1,stateParts,plain,guestCookies.2.2,host,gated,guestVisited gated (.inr listed)⟩

theorem guestHonest : Machine.along (step openGate everyOther (fun _ => default)) (Honest everyOther) {} (guestLogin ++ [guestVisit]) :=
  guestEnded.1

theorem gateAdmitsWitness :
    (∃ identity exp, identity.email.getD "" = "e@x" ∧
      Earlier guestLogin (LoggedIn openGate everyOther (fun _ => default) "h.x" identity exp) ∧ 100 < exp ∧
      Admitted "h.x" "e@x" (run openGate everyOther (fun _ => default) guestLogin).store) ∨
    (∃ linkId exp, "e@x" = gateShareSubjectPrefix ++ linkId ∧
      Earlier guestLogin (Redeemed openGate everyOther (fun _ => default) "h.x" linkId exp) ∧
      LinkLive linkId "h.x" 100 (run openGate everyOther (fun _ => default) guestLogin).store) ∨
    none = some "e@x" ∧ Admitted "h.x" "e@x" (run openGate everyOther (fun _ => default) guestLogin).store :=
  gateAdmits guestHonest guestFacts.2.2.2.2.1 guestFacts.2.2.2.2.2.1 guestFacts.2.2.2.2.2.2

end CadsTunnel.LoginGate
