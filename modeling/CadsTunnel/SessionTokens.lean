import CadsTunnel.ChannelObjects
import CadsTunnel.HexText
import CadsTunnel.SplitText

/-! The session tokens of the login gate and of the portal, and the tag that binds a login to
the target it was started for. The three share one key and are told apart by the label in
front of what is tagged. -/
namespace CadsTunnel.SessionTokens
open Words SplitText

/- Without an early exit on the first difference. -/
def ctEq (a b : Bytes) : Bool := a.length = b.length && (a.zip b).foldl (fun acc p => acc ||| (p.1 ^^^ p.2)) 0 = 0

def hex (s : String) : String := Hex.encode (asBytes s)

def unhexText (s : String) : Option String := (Hex.decode s).bind fromUtf8

def gateSessionCtx : Bytes := asBytes "ct-gate-session-v1"
def gateTargetCtx : Bytes := asBytes "ct-gate-target-v1"
def sessionCtx : Bytes := asBytes "ct-portal-session-v1"

def gateSessionMessage (payload : String) : Bytes := gateSessionCtx ++ asBytes payload
def sessionMessage (payload : String) : Bytes := sessionCtx ++ asBytes payload
def targetMessage (nonce target : String) : Bytes := gateTargetCtx ++ asBytes nonce ++ [0] ++ asBytes target

structure GateSessionClaims where
  host : String
  email : String
  subject : Option String
  deriving DecidableEq

structure SessionClaims where
  subject : String
  email : Option String
  deriving DecidableEq

def gatePayload (host email : String) (exp : UInt64) : String := hex host ++ ":" ++ hex email ++ ":" ++ decimal exp

def subjectPayload (host email subject : String) (exp : UInt64) : String :=
  hex host ++ ":" ++ hex email ++ ":" ++ decimal exp ++ ":" ++ hex subject

def sessionPayload (subject : String) (email : Option String) (exp : UInt64) : String :=
  hex subject ++ ":" ++ decimal exp ++ ":" ++ (email.map hex).getD ""

section Tokens
/- The keyed digest under the one key. -/
variable (mac : Bytes → Hash)

def signGateSession (host email : String) (exp : UInt64) : String :=
  let payload := gatePayload host email exp
  payload ++ "." ++ Hex.encode (mac (gateSessionMessage payload)).toList

def signGateSessionForSubject (host email subject : String) (exp : UInt64) : String :=
  let payload := subjectPayload host email subject exp
  payload ++ "." ++ Hex.encode (mac (gateSessionMessage payload)).toList

def signSessionWithEmail (subject : String) (email : Option String) (exp : UInt64) : String :=
  let payload := sessionPayload subject email exp
  payload ++ "." ++ Hex.encode (mac (sessionMessage payload)).toList

def verifyGateSession (token : String) (now : UInt64) : Option GateSessionClaims := do
  let (payload,tagHex) ← rsplitOnce '.' token
  let parts := splitn 4 ':' payload
  let hostHex ← parts[0]?
  let emailHex ← parts[1]?
  let expStr ← parts[2]?
  let subjectHex := parts[3]?
  let exp ← parseU64 expStr
  if exp ≤ now then none
  else
    let tag ← Hex.decode tagHex
    if !ctEq (mac (gateSessionMessage payload)).toList tag then none
    else
      let host ← unhexText hostHex
      let email ← unhexText emailHex
      match subjectHex with
      | none => some ⟨host,email,none⟩
      | some h => do
        let subject ← unhexText h
        some ⟨host,email,some subject⟩

def verifySessionFull (token : String) (now : UInt64) : Option SessionClaims := do
  let (payload,tagHex) ← rsplitOnce '.' token
  let parts := splitn 3 ':' payload
  let subHex ← parts[0]?
  let expStr ← parts[1]?
  let emailHex := parts[2]?.getD ""
  let exp ← parseU64 expStr
  if exp ≤ now then none
  else
    let tag ← Hex.decode tagHex
    if !ctEq (mac (sessionMessage payload)).toList tag then none
    else
      let subject ← unhexText subHex
      some ⟨subject,if emailHex.isEmpty then none else unhexText emailHex⟩

def targetTag (nonce target : String) : String := Hex.encode ((mac (targetMessage nonce target)).toList.take 16)

/- The nonce is the text of what the random generator gives. -/
def boundState (nonce : Vector UInt8 16) (target : String) : String :=
  let nonce := Hex.encode nonce.toList
  nonce ++ "." ++ targetTag mac nonce target

def stateBindsTarget (state target : String) : Bool :=
  (splitOnce '.' state).any (fun (nonce,tag) => ctEq (asBytes tag) (asBytes (targetTag mac nonce target)))

end Tokens
/- What the key has been used to mint: sessions of the gate, sessions of the portal, and the
bound states of logins that have been started. -/
inductive Minted where
  | gate (claims : GateSessionClaims) (exp : UInt64)
  | portal (claims : SessionClaims) (exp : UInt64)
  | state (nonce : Vector UInt8 16) (target : String)
  deriving DecidableEq

namespace Minted

def text : Minted → String
  | gate ⟨host,email,none⟩ exp => gatePayload host email exp
  | gate ⟨host,email,some subject⟩ exp => subjectPayload host email subject exp
  | portal claims exp => sessionPayload claims.subject claims.email exp
  | state nonce _ => Hex.encode nonce.toList

def message : Minted → Bytes
  | state nonce target => targetMessage (Hex.encode nonce.toList) target
  | portal claims exp => sessionMessage (portal claims exp).text
  | gate claims exp => gateSessionMessage (gate claims exp).text

def token (mac : Bytes → Hash) : Minted → String
  | gate ⟨host,email,none⟩ exp => signGateSession mac host email exp
  | gate ⟨host,email,some subject⟩ exp => signGateSessionForSubject mac host email subject exp
  | portal claims exp => signSessionWithEmail mac claims.subject claims.email exp
  | state nonce target => boundState mac nonce target

def tag (mac : Bytes → Hash) : Minted → Bytes
  | state nonce target => (mac (state nonce target).message).toList.take 16
  | portal claims exp => (mac (portal claims exp).message).toList
  | gate claims exp => (mac (gate claims exp).message).toList

end Minted
def payloadOf (token : String) : Option String := (rsplitOnce '.' token).map (·.1)

def tagOf (token : String) : Option Bytes := (rsplitOnce '.' token).bind (fun parts => Hex.decode parts.2)

/- The verifiers tag the payload of what they are shown. -/
def Shown (asked : Set Bytes) (token : String) : Prop :=
  ∀ payload ∈ payloadOf token, gateSessionMessage payload ∈ asked ∧ sessionMessage payload ∈ asked

/- No two of the messages the key is used on collide, in the full tag or, for targets, in the
half that is kept. -/
structure Injective (mac : Bytes → Hash) (asked : Set Bytes) : Prop where
  whole : Set.InjOn mac asked
  half : Set.InjOn (fun message => (mac message).toList.take 16) {message ∈ asked | ∃ nonce target, message = targetMessage nonce target}

section Texts

theorem foldZero (pairs : List (UInt8 × UInt8)) (acc : UInt8) :
    pairs.foldl (fun acc p => acc ||| (p.1 ^^^ p.2)) acc = 0 ↔ acc = 0 ∧ ∀ p ∈ pairs, p.1 = p.2 := by
  induction pairs generalizing acc with
  | nil => simp
  | cons p pairs ih =>
    rw [List.foldl_cons, ih, UInt8.or_eq_zero_iff, UInt8.xor_eq_zero_iff, List.forall_mem_cons, and_assoc]

theorem ctEqIff {a b : Bytes} : ctEq a b = true ↔ a = b := by
  rw [ctEq, Bool.and_eq_true, decide_eq_true_eq, decide_eq_true_eq, foldZero]
  constructor
  · rintro ⟨sized,-,same⟩
    refine List.ext_getElem sized ?_
    intro i left right
    exact same (a[i],b[i]) (List.mem_iff_getElem.mpr ⟨i,by simp [left, right],by simp⟩)
  · rintro rfl
    refine ⟨rfl,rfl,fun p mem => ?_⟩
    obtain ⟨i,inside,rfl⟩ := List.mem_iff_getElem.mp mem
    rw [List.getElem_zip]

theorem digitPlain (n : UInt8) (small : n < 16) : (Hex.digit n).isAlphanum = true := by
  have each : ∀ n < 16, (Hex.digit (.ofNat n)).isAlphanum = true := by decide
  simpa using each n.toNat (UInt8.lt_iff_toNat_lt.mp small)

theorem hexPlain (bytes : Bytes) : ∀ c ∈ (Hex.encode bytes).toList, c.isAlphanum = true := by
  intro c mem
  rw [Hex.encode, String.toList_ofList] at mem
  obtain ⟨b,_,inside⟩ := List.mem_flatMap.mp mem
  rcases List.mem_cons.mp inside with high | low
  · rw [high, digitPlain _ (Hex.highSmall b)]
  · rw [List.mem_singleton.mp low, digitPlain _ (Hex.lowSmall b)]

theorem hexClean (bytes : Bytes) : ':' ∉ (Hex.encode bytes).toList ∧ '.' ∉ (Hex.encode bytes).toList :=
  ⟨fun mem => absurd (hexPlain bytes ':' mem) (by decide),fun mem => absurd (hexPlain bytes '.' mem) (by decide)⟩

theorem hexTextClean (s : String) : ':' ∉ (hex s).toList := (hexClean (asBytes s)).1

theorem decimalClean (n : UInt64) : ':' ∉ (decimal n).toList :=
  fun mem => absurd (decimalDigits n ':' mem) (by decide)

theorem unhexHex (s : String) : unhexText (hex s) = some s := by
  rw [unhexText, hex, Hex.decodeEncode, Option.bind_some, fromUtf8Bytes]

theorem hexEmpty {s : String} (empty : hex s = "") : s = "" := by
  have back := unhexHex s
  rw [empty] at back
  exact (Option.some.inj back).symm

theorem colon : ":" = String.singleton ':' := by decide

theorem gateParts (host email : String) (exp : UInt64) : splitn 4 ':' (gatePayload host email exp) = [hex host,hex email,decimal exp] := by
  have shape : gatePayload host email exp = hex host ++ String.singleton ':' ++ (hex email ++ String.singleton ':' ++ decimal exp) := by
    simp only [gatePayload, colon, String.append_assoc]
  rw [shape, splitnNext (hexTextClean host), splitnNext (hexTextClean email), splitnLast (decimalClean exp)]

theorem subjectParts (host email subject : String) (exp : UInt64) :
    splitn 4 ':' (subjectPayload host email subject exp) = [hex host,hex email,decimal exp,hex subject] := by
  have shape : subjectPayload host email subject exp =
      hex host ++ String.singleton ':' ++ (hex email ++ String.singleton ':' ++ (decimal exp ++ String.singleton ':' ++ hex subject)) := by
    simp only [subjectPayload, colon, String.append_assoc]
  rw [shape, splitnNext (hexTextClean host), splitnNext (hexTextClean email), splitnNext (decimalClean exp)]
  rfl

theorem sessionParts (subject : String) (email : Option String) (exp : UInt64) :
    splitn 3 ':' (sessionPayload subject email exp) = [hex subject,decimal exp,(email.map hex).getD ""] := by
  have shape : sessionPayload subject email exp =
      hex subject ++ String.singleton ':' ++ (decimal exp ++ String.singleton ':' ++ (email.map hex).getD "") := by
    simp only [sessionPayload, colon, String.append_assoc]
  rw [shape, splitnNext (hexTextClean subject), splitnNext (decimalClean exp)]
  rfl

theorem dot : "." = String.singleton '.' := by decide

theorem signedSplit (payload : String) (tag : Bytes) : rsplitOnce '.' (payload ++ "." ++ Hex.encode tag) = some (payload,Hex.encode tag) := by
  rw [dot, splitLast (hexClean tag).2]

theorem tagDecodes {tag : Bytes} : Hex.decode (Hex.encode tag) = some tag := Hex.decodeEncode tag

end Texts
section Verified
variable {mac : Bytes → Hash} {now : UInt64}

theorem gateRoundTrip (host email : String) (exp : UInt64) :
    verifyGateSession mac (signGateSession mac host email exp) now = if now < exp then some ⟨host,email,none⟩ else none := by
  have same : ctEq (mac (gateSessionMessage (gatePayload host email exp))).toList (mac (gateSessionMessage (gatePayload host email exp))).toList = true :=
    ctEqIff.mpr rfl
  simp only [verifyGateSession, signGateSession, signedSplit, Option.bind_eq_bind, Option.bind_some, gateParts, List.getElem?_cons_zero,
    List.getElem?_cons_succ, List.getElem?_nil, parseDecimal, tagDecodes, same, Bool.not_true, Bool.false_eq_true, if_false, unhexHex]
  by_cases live : now < exp
  case pos => rw [if_neg (UInt64.not_le.mpr live), if_pos live]
  case neg => rw [if_pos (UInt64.not_lt.mp live), if_neg live]

theorem subjectRoundTrip (host email subject : String) (exp : UInt64) :
    verifyGateSession mac (signGateSessionForSubject mac host email subject exp) now =
      if now < exp then some ⟨host,email,some subject⟩ else none := by
  have same : ctEq (mac (gateSessionMessage (subjectPayload host email subject exp))).toList
      (mac (gateSessionMessage (subjectPayload host email subject exp))).toList = true := ctEqIff.mpr rfl
  simp only [verifyGateSession, signGateSessionForSubject, signedSplit, Option.bind_eq_bind, Option.bind_some, subjectParts,
    List.getElem?_cons_zero, List.getElem?_cons_succ, parseDecimal, tagDecodes, same, Bool.not_true, Bool.false_eq_true, if_false,
    unhexHex]
  by_cases live : now < exp
  case pos => rw [if_neg (UInt64.not_le.mpr live), if_pos live]
  case neg => rw [if_pos (UInt64.not_lt.mp live), if_neg live]

theorem sessionRoundTrip (subject : String) (email : Option String) (exp : UInt64) :
    verifySessionFull mac (signSessionWithEmail mac subject email exp) now =
      if now < exp then some ⟨subject,email.filter (· ≠ "")⟩ else none := by
  have same : ctEq (mac (sessionMessage (sessionPayload subject email exp))).toList
      (mac (sessionMessage (sessionPayload subject email exp))).toList = true := ctEqIff.mpr rfl
  have emails : (if ((email.map hex).getD "").isEmpty then none else unhexText ((email.map hex).getD "")) = email.filter (· ≠ "") := by
    cases email with
    | none => rfl
    | some e =>
      by_cases empty : e = ""
      case pos => rw [empty]; rfl
      case neg =>
        have filled : ¬ (hex e).isEmpty = true := fun bare => empty (hexEmpty (String.isEmpty_iff.mp bare))
        rw [Option.map_some, Option.getD_some, if_neg filled, unhexHex, Option.filter_some, if_pos (decide_eq_true empty)]
  simp only [verifySessionFull, signSessionWithEmail, signedSplit, Option.bind_eq_bind, Option.bind_some, sessionParts,
    List.getElem?_cons_zero, List.getElem?_cons_succ, Option.getD_some, parseDecimal, tagDecodes, same, Bool.not_true,
    Bool.false_eq_true, if_false, unhexHex, emails]
  by_cases live : now < exp
  case pos => rw [if_neg (UInt64.not_le.mpr live), if_pos live]
  case neg => rw [if_pos (UInt64.not_lt.mp live), if_neg live]

theorem gateReadsBack (claims : GateSessionClaims) (exp : UInt64) :
    verifyGateSession mac ((Minted.gate claims exp).text ++ "." ++ Hex.encode (mac (gateSessionMessage (Minted.gate claims exp).text)).toList)
      now = if now < exp then some claims else none := by
  rcases claims with ⟨host,email,_ | subject⟩
  · exact gateRoundTrip host email exp
  · exact subjectRoundTrip host email subject exp

/- An accepted token splits at its last dot, and what stands behind it is the tag of what
stands before. -/
theorem gateAccepted {token : String} {claims : GateSessionClaims} (accepted : verifyGateSession mac token now = some claims) :
    ∃ payload tagHex, rsplitOnce '.' token = some (payload,tagHex) ∧ Hex.decode tagHex = some (mac (gateSessionMessage payload)).toList := by
  obtain ⟨⟨payload,tagHex⟩,cuts,accepted⟩ := Option.bind_eq_some_iff.mp accepted
  refine ⟨payload,tagHex,cuts,?_⟩
  obtain ⟨_,-,accepted⟩ := Option.bind_eq_some_iff.mp accepted
  obtain ⟨_,-,accepted⟩ := Option.bind_eq_some_iff.mp accepted
  obtain ⟨_,-,accepted⟩ := Option.bind_eq_some_iff.mp accepted
  obtain ⟨_,-,accepted⟩ := Option.bind_eq_some_iff.mp accepted
  split at accepted <;> try contradiction
  obtain ⟨tag,decoded,accepted⟩ := Option.bind_eq_some_iff.mp accepted
  split at accepted <;> try contradiction
  rename_i equal
  rw [Bool.not_eq_true', Bool.not_eq_false] at equal
  rw [decoded, ctEqIff.mp equal]

theorem sessionAccepted {token : String} {claims : SessionClaims} (accepted : verifySessionFull mac token now = some claims) :
    ∃ payload tagHex, rsplitOnce '.' token = some (payload,tagHex) ∧ Hex.decode tagHex = some (mac (sessionMessage payload)).toList := by
  obtain ⟨⟨payload,tagHex⟩,cuts,accepted⟩ := Option.bind_eq_some_iff.mp accepted
  refine ⟨payload,tagHex,cuts,?_⟩
  obtain ⟨_,-,accepted⟩ := Option.bind_eq_some_iff.mp accepted
  obtain ⟨_,-,accepted⟩ := Option.bind_eq_some_iff.mp accepted
  obtain ⟨_,-,accepted⟩ := Option.bind_eq_some_iff.mp accepted
  split at accepted <;> try contradiction
  obtain ⟨tag,decoded,accepted⟩ := Option.bind_eq_some_iff.mp accepted
  split at accepted <;> try contradiction
  rename_i equal
  rw [Bool.not_eq_true', Bool.not_eq_false] at equal
  rw [decoded, ctEqIff.mp equal]

/- The spelling of the tag does not matter. -/
theorem gateSpelling {token token' payload tagHex tagHex' : String} (cuts : rsplitOnce '.' token = some (payload,tagHex))
    (cuts' : rsplitOnce '.' token' = some (payload,tagHex')) (decodes : Hex.decode tagHex = Hex.decode tagHex') :
    verifyGateSession mac token now = verifyGateSession mac token' now := by
  simp only [verifyGateSession, cuts, cuts', Option.bind_eq_bind, Option.bind_some, decodes]

theorem sessionSpelling {token token' payload tagHex tagHex' : String} (cuts : rsplitOnce '.' token = some (payload,tagHex))
    (cuts' : rsplitOnce '.' token' = some (payload,tagHex')) (decodes : Hex.decode tagHex = Hex.decode tagHex') :
    verifySessionFull mac token now = verifySessionFull mac token' now := by
  simp only [verifySessionFull, cuts, cuts', Option.bind_eq_bind, Option.bind_some, decodes]

/- Label by label. -/
theorem labelsApart {payload other : String} : gateSessionMessage payload ≠ sessionMessage other := by
  intro same
  have third := congrArg (·[3]?) same
  rw [gateSessionMessage, sessionMessage] at third
  rw [List.getElem?_append_left (by decide), List.getElem?_append_left (by decide)] at third
  revert third
  decide

theorem gateMessageSame {payload other : String} (same : gateSessionMessage payload = gateSessionMessage other) : payload = other :=
  asBytesInjective (List.append_cancel_left same)

theorem sessionMessageSame {payload other : String} (same : sessionMessage payload = sessionMessage other) : payload = other :=
  asBytesInjective (List.append_cancel_left same)

theorem targetMessageSame {nonce target other : String} (same : targetMessage nonce target = targetMessage nonce other) : target = other := by
  rw [targetMessage, targetMessage, List.append_assoc, List.append_assoc, List.append_assoc, List.append_assoc] at same
  have rest := List.append_cancel_left (List.append_cancel_left same)
  exact asBytesInjective (List.append_cancel_left rest)

theorem sharedTag {message : Bytes} {m : Minted} (same : some (mac message).toList = some (m.tag mac)) : mac message = mac m.message := by
  have tags := Option.some.inj same
  cases m with
  | gate => exact Vector.toList_inj.mp tags
  | portal => exact Vector.toList_inj.mp tags
  | state nonce target =>
    have sizes := congrArg List.length tags
    rw [Minted.tag, List.length_take, Vector.length_toList, Vector.length_toList] at sizes
    contradiction

variable {asked : Set Bytes}

/- What a message of the gate has been made for. -/
theorem gateMade {token payload tagHex : String} {claims : GateSessionClaims} {m : Minted} (cuts : rsplitOnce '.' token = some (payload,tagHex))
    (decoded : Hex.decode tagHex = some (mac (gateSessionMessage payload)).toList) (made : m.message = gateSessionMessage payload)
    (accepted : verifyGateSession mac token now = some claims) : ∃ exp, m = .gate claims exp ∧ payload = m.text ∧ now < exp := by
  cases m with
  | portal other exp => exact absurd made.symm labelsApart
  | state nonce target =>
    have eighth := congrArg (·[8]?) made
    rw [gateSessionMessage, Minted.message, targetMessage, List.append_assoc, List.append_assoc,
      List.getElem?_append_left (by decide), List.getElem?_append_left (by decide)] at eighth
    exact absurd eighth (by decide)
  | gate other exp =>
    cases gateMessageSame made.symm
    have spelled : verifyGateSession mac token now = _ := gateSpelling cuts (signedSplit _ _) (decoded.trans tagDecodes.symm)
    have round := spelled.trans (gateReadsBack other exp)
    obtain ⟨live,same⟩ := Option.ite_none_right_eq_some.mp (round.symm.trans accepted)
    cases Option.some.inj same
    exact ⟨exp,rfl,rfl,live⟩

theorem gateMinted (injective : Set.InjOn mac asked) {minted : List Minted} (within : ∀ m ∈ minted, m.message ∈ asked) {token : String}
    {claims : GateSessionClaims} (shown : Shown asked token) (unforged : ∃ m ∈ minted, tagOf token = some (m.tag mac))
    (accepted : verifyGateSession mac token now = some claims) :
    ∃ exp, .gate claims exp ∈ minted ∧ payloadOf token = some (Minted.gate claims exp).text ∧ now < exp := by
  obtain ⟨payload,tagHex,cuts,decoded⟩ := gateAccepted accepted
  obtain ⟨m,mem,tagged⟩ := unforged
  have payloads : payloadOf token = some payload := by rw [payloadOf, cuts, Option.map_some]
  rw [tagOf, cuts, Option.bind_some, decoded] at tagged
  have same := injective (shown payload payloads).1 (within m mem) (sharedTag tagged)
  obtain ⟨exp,rfl,rfl,live⟩ := gateMade cuts decoded same.symm accepted
  exact ⟨exp,mem,payloads,live⟩

theorem portalMinted (injective : Set.InjOn mac asked) {minted : List Minted} (within : ∀ m ∈ minted, m.message ∈ asked) {token : String}
    {claims : SessionClaims} (shown : Shown asked token) (unforged : ∃ m ∈ minted, tagOf token = some (m.tag mac))
    (accepted : verifySessionFull mac token now = some claims) :
    ∃ email exp, .portal ⟨claims.subject,email⟩ exp ∈ minted ∧ claims.email = email.filter (· ≠ "") ∧
      payloadOf token = some (Minted.portal ⟨claims.subject,email⟩ exp).text ∧ now < exp := by
  obtain ⟨payload,tagHex,cuts,decoded⟩ := sessionAccepted accepted
  obtain ⟨m,mem,tagged⟩ := unforged
  have payloads : payloadOf token = some payload := by rw [payloadOf, cuts, Option.map_some]
  rw [tagOf, cuts, Option.bind_some, decoded] at tagged
  have same := injective (shown payload payloads).2 (within m mem) (sharedTag tagged)
  cases m with
  | gate other exp => exact absurd same.symm labelsApart
  | state nonce target =>
    have third := congrArg (·[3]?) same
    rw [sessionMessage, Minted.message, targetMessage, List.append_assoc, List.append_assoc,
      List.getElem?_append_left (by decide), List.getElem?_append_left (by decide)] at third
    exact absurd third (by decide)
  | portal other exp =>
    cases sessionMessageSame same
    have spelled : verifySessionFull mac token now = _ := sessionSpelling cuts (signedSplit _ _) (decoded.trans tagDecodes.symm)
    have round := spelled.trans (sessionRoundTrip other.subject other.email exp)
    obtain ⟨live,same⟩ := Option.ite_none_right_eq_some.mp (round.symm.trans accepted)
    cases Option.some.inj same
    exact ⟨other.email,exp,mem,rfl,payloads,live⟩

theorem gateTokenPayload {claims : GateSessionClaims} {exp : UInt64} :
    payloadOf ((Minted.gate claims exp).token mac) = some (Minted.gate claims exp).text := by
  rcases claims with ⟨host,email,_ | subject⟩ <;>
    simp only [payloadOf, Minted.token, signGateSession, signGateSessionForSubject, signedSplit, Option.map_some, Minted.text]

theorem portalTokenPayload {claims : SessionClaims} {exp : UInt64} :
    payloadOf ((Minted.portal claims exp).token mac) = some (Minted.portal claims exp).text := by
  simp only [payloadOf, Minted.token, signSessionWithEmail, signedSplit, Option.map_some, Minted.text]

theorem oneVerifier (injective : Set.InjOn mac asked) {token : String} (shown : Shown asked token) {later : UInt64} :
    verifyGateSession mac token now = none ∨ verifySessionFull mac token later = none := by
  rcases gate : verifyGateSession mac token now with _ | claims
  · exact .inl rfl
  rcases portal : verifySessionFull mac token later with _ | session
  · exact .inr rfl
  obtain ⟨payload,tagHex,cuts,decoded⟩ := gateAccepted gate
  obtain ⟨other,otherHex,cuts',decoded'⟩ := sessionAccepted portal
  cases cuts.symm.trans cuts'
  have tags := Vector.toList_inj.mp (Option.some.inj (decoded.symm.trans decoded'))
  obtain ⟨gated,ported⟩ := shown payload (by rw [payloadOf, cuts]; rfl)
  exact absurd (injective gated ported tags) labelsApart

theorem stateBinds (injective : Injective mac asked) {nonce : Vector UInt8 16} {target other : String}
    (started : targetMessage (Hex.encode nonce.toList) target ∈ asked) (checked : targetMessage (Hex.encode nonce.toList) other ∈ asked) :
    stateBindsTarget mac (boundState mac nonce target) other = true ↔ target = other := by
  have cuts : splitOnce '.' (boundState mac nonce target) = some (Hex.encode nonce.toList,targetTag mac (Hex.encode nonce.toList) target) := by
    rw [boundState, dot, splitFirst (hexClean nonce.toList).2]
  rw [stateBindsTarget, cuts, Option.any_some, ctEqIff]
  constructor
  case mpr => rintro rfl; rfl
  case mp =>
    intro same
    have tags := Option.some.inj ((tagDecodes.symm.trans (congrArg Hex.decode (asBytesInjective same))).trans tagDecodes)
    exact targetMessageSame (injective.half ⟨started,_,_,rfl⟩ ⟨checked,_,_,rfl⟩ tags)

end Verified
/- The three formats under one key. -/
theorem sessionTokens {mac : Bytes → Hash} {asked : Set Bytes} (injective : Injective mac asked) :
    (∀ host email exp now,
      verifyGateSession mac (signGateSession mac host email exp) now = if now < exp then some ⟨host,email,none⟩ else none) ∧
    (∀ host email subject exp now,
      verifyGateSession mac (signGateSessionForSubject mac host email subject exp) now =
        if now < exp then some ⟨host,email,some subject⟩ else none) ∧
    (∀ subject email exp now,
      verifySessionFull mac (signSessionWithEmail mac subject email exp) now =
        if now < exp then some ⟨subject,email.filter (· ≠ "")⟩ else none) ∧
    (∀ token now later, Shown asked token → verifyGateSession mac token now = none ∨ verifySessionFull mac token later = none) ∧
    (∀ (minted : List Minted) token now, (∀ m ∈ minted, m.message ∈ asked) → Shown asked token →
      (∃ m ∈ minted, tagOf token = some (m.tag mac)) →
      (∀ claims, verifyGateSession mac token now = some claims →
        ∃ exp, .gate claims exp ∈ minted ∧ payloadOf token = payloadOf ((Minted.gate claims exp).token mac) ∧ now < exp) ∧
      ∀ claims, verifySessionFull mac token now = some claims →
        ∃ email exp, .portal ⟨claims.subject,email⟩ exp ∈ minted ∧ claims.email = email.filter (· ≠ "") ∧
          payloadOf token = payloadOf ((Minted.portal ⟨claims.subject,email⟩ exp).token mac) ∧ now < exp) ∧
    ∀ (nonce : Vector UInt8 16) target other,
      targetMessage (Hex.encode nonce.toList) target ∈ asked → targetMessage (Hex.encode nonce.toList) other ∈ asked →
      (stateBindsTarget mac (boundState mac nonce target) other = true ↔ target = other) := by
  refine ⟨fun host email exp now => gateRoundTrip host email exp,fun host email subject exp now => subjectRoundTrip host email subject exp,
    fun subject email exp now => sessionRoundTrip subject email exp,fun token now later shown => oneVerifier injective.whole shown,
    fun minted token now within shown unforged => ⟨?gate,?portal⟩,fun nonce target other => stateBinds injective⟩
  case gate =>
    intro claims accepted
    obtain ⟨exp,mem,payload,live⟩ := gateMinted injective.whole within shown unforged accepted
    exact ⟨exp,mem,payload.trans gateTokenPayload.symm,live⟩
  case portal =>
    intro claims accepted
    obtain ⟨email,exp,mem,kept,payload,live⟩ := portalMinted injective.whole within shown unforged accepted
    exact ⟨email,exp,mem,kept,payload.trans portalTokenPayload.symm,live⟩

/- A digest that keeps every other byte from the end, and the messages of one host's session and login. -/
def everyOther (message : Bytes) : Hash := .ofFn (fun i => message.reverse.getD (2 * i) 0)

def oneHost : List Bytes :=
  [gateSessionMessage (gatePayload "h" "e" 9),sessionMessage (gatePayload "h" "e" 9),targetMessage "n" "h|/",targetMessage "n" "i|/"]

theorem sessionTokensWitness :
    Injective everyOther {message | message ∈ oneHost} ∧
      verifyGateSession everyOther (signGateSession everyOther "h" "e" 9) 8 = some ⟨"h","e",none⟩ ∧
      verifyGateSession everyOther (signGateSession everyOther "h" "e" 9) 9 = none := by
  have apart : ∀ a ∈ oneHost, ∀ b ∈ oneHost, everyOther a = everyOther b → a = b := by decide +kernel
  have half : ∀ a ∈ oneHost, ∀ b ∈ oneHost, (everyOther a).toList.take 16 = (everyOther b).toList.take 16 → a = b := by decide +kernel
  have injective : Injective everyOther {message | message ∈ oneHost} :=
    ⟨fun a mem b mem' => apart a mem b mem',fun a mem b mem' => half a mem.1 b mem'.1⟩
  obtain ⟨gate,_⟩ := sessionTokens injective
  exact ⟨injective,gate "h" "e" 9 8,gate "h" "e" 9 9⟩

end CadsTunnel.SessionTokens
