import CadsTunnel.ClientHello

/-! Where the edge sends a connection by its ClientHello. The classifier looks the protocols
up one by one in the bytes and stops at the first it looks for; the plain reader gives up
the whole list where its last entry is cut short. -/
namespace CadsTunnel.FrontDoor
open Words AsciiCase ByteReads Read ShortStrings ClientHello

def ctEdgeAlpn := "ct-edge"
def ctEdgeChannelAlpn := "ct-edge-channel"
def ctEdgeChannelKaAlpn := "ct-edge-channel-ka"
def ctEdgeRelayAlpn := "ct-edge-relay"
def ctEdgeChannelFallbackSni := "edge-cdn.invalid"

inductive FrontDoorRoute where
  | edgeRelay
  | channelBroker
  | relayGate
  | proxy (host : String)
  | browserTunnel (host : String)
  | reject
deriving DecidableEq

/- `a || b`: the second is not looked at where the first holds. -/
def either (a b : Read Bool) : Read Bool := do
  let one ← a
  if one then return true
  else b

def alpnHas (exts : Option Bytes) (want : String) : Read Bool :=
  match exts with
  | none => found false
  | some exts => alpnExtensionHas exts want

def sniOf (exts : Option Bytes) : Read (Option String) :=
  match exts with
  | none => found none
  | some exts => (sniFromExtensions exts).optional

def classifyFrontDoor (hello : Bytes) (isTerminateHost : String → Bool) (defaultHost : Option String) : Read FrontDoorRoute := do
  let exts ← (clientHelloExtensions hello).optional
  let edge ← alpnHas exts ctEdgeAlpn
  if edge then return .edgeRelay
  else
    let channel ← either (alpnHas exts ctEdgeChannelAlpn) (alpnHas exts ctEdgeChannelKaAlpn)
    if channel then return .channelBroker
    else
      let relay ← alpnHas exts ctEdgeRelayAlpn
      if relay then return .relayGate
      else
        let sni ← sniOf exts
        match sni with
        | some sni =>
          if eqIgnoreAsciiCase sni ctEdgeChannelFallbackSni then return .channelBroker
          else if isTerminateHost sni then return .proxy (lower sni)
          else return .browserTunnel (lower sni)
        | none =>
          let web ← either (alpnHas exts "http/1.1") (alpnHas exts "h2")
          match web, defaultHost with
          | true, some d => return .proxy (lower d)
          | _, _ => return .reject

/- The documented order, on the name and the protocols a client sends. -/
def precedence (sni : Option String) (alpn : List String) (isTerminateHost : String → Bool) (defaultHost : Option String) : FrontDoorRoute :=
  if ctEdgeAlpn ∈ alpn then .edgeRelay
  else if ctEdgeChannelAlpn ∈ alpn ∨ ctEdgeChannelKaAlpn ∈ alpn then .channelBroker
  else if ctEdgeRelayAlpn ∈ alpn then .relayGate
  else match sni with
    | some name =>
      if eqIgnoreAsciiCase name ctEdgeChannelFallbackSni then .channelBroker
      else if isTerminateHost name then .proxy (lower name)
      else .browserTunnel (lower name)
    | none => match defaultHost with
      | some host => if "http/1.1" ∈ alpn ∨ "h2" ∈ alpn then .proxy (lower host) else .reject
      | none => .reject

section Parsed
variable {es : List (UInt16 × Bytes)} {names : List Bytes} {tail : Bytes}

/- The host name in the first server_name extension. -/
def Sent (es : List (UInt16 × Bytes)) (sent : Option String) : Prop :=
  ∀ name, sent = some name ↔ ∃ data, first es 0x0000 = some data ∧ HostName data name

/- The protocols in the first ALPN extension, and an entry cut short behind them. -/
def Shown (es : List (UInt16 × Bytes)) (names : List Bytes) (tail : Bytes) : Prop :=
  (∃ data, first es 0x0010 = some data ∧ Listed data names tail) ∨
    (∀ data, first es 0x0010 = some data → ∀ names tail, ¬ Listed data names tail) ∧ names = [] ∧ tail = []

theorem sniName (name : String) (short : ∀ e ∈ es, e.2.length < 2 ^ 16) :
    sniFromExtensions (block es) = found name ↔ ∃ data, first es 0x0000 = some data ∧ HostName data name := by
  rw [sniFromExtensions, findFirst short]
  cases first es 0x0000 with
  | none => simp
  | some data => simp [hostNameRead]

theorem sniSent (short : ∀ e ∈ es, e.2.length < 2 ^ 16) :
    ∃ sent, Sent es sent ∧ (sniFromExtensions (block es)).optional = found sent := by
  have read (name : String) := sniName name short
  cases sni : sniFromExtensions (block es) with
  | outside => exact absurd sni (sniInside _)
  | absent =>
    refine ⟨none,fun name => ?_,rfl⟩
    rw [← read, sni]
    simp
  | found sent =>
    refine ⟨some sent,fun name => ?_,rfl⟩
    rw [← read, sni, Option.some_inj, Read.found.injEq]

theorem someShown (es : List (UInt16 × Bytes)) : ∃ names tail, Shown es names tail := by
  by_cases listed : ∃ data names tail, first es 0x0010 = some data ∧ Listed data names tail
  · obtain ⟨data,names,tail,at',listed⟩ := listed
    exact ⟨names,tail,.inl ⟨data,at',listed⟩⟩
  · exact ⟨[],[],.inr ⟨fun data at' names tail list => listed ⟨data,names,tail,at',list⟩,rfl,rfl⟩⟩

theorem unlisted {data : Bytes} (none' : ∀ names tail, ¬ Listed data names tail) : innerList data = absent := by
  cases inner : innerList data with
  | outside => exact absurd inner (innerInside data)
  | absent => rfl
  | found list =>
    obtain ⟨names,tail,listed⟩ := listedInner inner
    exact absurd listed (none' names tail)

/- A reader of the list comes to the names and what is behind them, or to nothing at all. -/
theorem alpnFound {α : Type} (short : ∀ e ∈ es, e.2.length < 2 ^ 16) (shown : Shown es names tail) (f : Bytes → Read α) :
    (∀ name ∈ names, name.length < 256) ∧ ShortStrings.read tail = none ∧
      (findExtension (block es) 0x0010 (fun edata => innerList edata >>= f) = f (write names ++ tail) ∨
        findExtension (block es) 0x0010 (fun edata => innerList edata >>= f) = absent ∧ names = [] ∧ tail = []) := by
  rw [findFirst short]
  rcases shown with ⟨data,at',listed⟩ | ⟨none',rfl,rfl⟩
  · refine ⟨listed.1,listed.2.1,.inl ?_⟩
    rw [at', Option.elim_some, innerListed listed, bindFound]
  · refine ⟨by simp,rfl,.inr ⟨?_,rfl,rfl⟩⟩
    cases at' : first es 0x0010 with
    | none => rfl
    | some data =>
      rw [Option.elim_some, unlisted (none' data at')]
      rfl

theorem alpnShown (short : ∀ e ∈ es, e.2.length < 2 ^ 16) (shown : Shown es names tail) (want : String) :
    alpnExtensionHas (block es) want = found (decide (asBytes want ∈ names)) := by
  obtain ⟨small,last,here | ⟨missing,rfl,rfl⟩⟩ := alpnFound short shown fun list => hasFrom list (asBytes want) 0
  · rw [alpnExtensionHas, here, hasNames _ small last (List.drop_zero ..)]
    by_cases mem : asBytes want ∈ names
    · rw [if_pos mem, decide_eq_true mem]
      rfl
    · rw [if_neg mem, decide_eq_false mem]
      split <;> rfl
  · rw [alpnExtensionHas, missing]
    rfl

theorem peekShown (h : Hello) (shown : Shown h.extensions names tail) :
    peekAlpn h.record = found (if tail = [] then names.filterMap fromUtf8 else []) := by
  rw [peekAlpn, blockRecovered]
  change (findExtension (block h.extensions) 0x0010 fun edata => innerList edata >>= fun list => protocolsFrom list 0 []).getD [] = _
  obtain ⟨small,last,here | ⟨missing,rfl,rfl⟩⟩ := alpnFound (helloShort h) shown fun list => protocolsFrom list 0 []
  · rw [here, protocolNames small last (List.drop_zero ..)]
    split <;> rfl
  · rw [missing]
    rfl

theorem textMem (names : List Bytes) (want : String) : want ∈ names.filterMap fromUtf8 ↔ asBytes want ∈ names := by
  rw [List.mem_filterMap]
  constructor
  · rintro ⟨name,mem,text⟩
    rw [fromUtf8Some text]
    exact mem
  · exact fun mem => ⟨_,mem,fromUtf8Bytes want⟩

/- Whatever its list ends in, a hello is sent where the names in front of that send it. -/
theorem classifyShown (h : Hello) {sent : Option String} (shown : Shown h.extensions names tail)
    (sni : (sniFromExtensions (block h.extensions)).optional = found sent) (isTerminateHost : String → Bool) (defaultHost : Option String) :
    classifyFrontDoor h.record isTerminateHost defaultHost =
      found (precedence sent (names.filterMap fromUtf8) isTerminateHost defaultHost) := by
  have has (want : String) : alpnHas (some (block h.extensions)) want = found (decide (asBytes want ∈ names)) :=
    alpnShown (helloShort h) shown want
  have name : sniOf (some (block h.extensions)) = found sent := sni
  have exts : (found (block h.extensions)).optional = found (some (block h.extensions)) := rfl
  rw [classifyFrontDoor, blockRecovered, exts]
  simp only [bindFound, pureFound, has, either, name, precedence, textMem]
  by_cases edge : asBytes ctEdgeAlpn ∈ names
  · simp [edge]
  by_cases channel : asBytes ctEdgeChannelAlpn ∈ names
  · simp [edge, channel]
  by_cases keepalive : asBytes ctEdgeChannelKaAlpn ∈ names
  · simp [edge, channel, keepalive]
  by_cases relay : asBytes ctEdgeRelayAlpn ∈ names
  · simp [edge, channel, keepalive, relay]
  simp only [edge, channel, keepalive, relay, decide_false, Bool.false_eq_true, if_false, or_self, bindFound]
  cases sent with
  | some name =>
    dsimp only
    split
    · rfl
    · split <;> rfl
  | none =>
    by_cases http : asBytes "http/1.1" ∈ names
    · cases defaultHost <;> simp [http]
    · by_cases second : asBytes "h2" ∈ names <;> cases defaultHost <;> simp [http, second]

end Parsed

section Routing

/- Protocols that leave the route as the name alone makes it. -/
def Harmless (sent : Option String) (alpn : List String) : Prop :=
  ctEdgeAlpn ∉ alpn ∧
    if ctEdgeChannelAlpn ∈ alpn ∨ ctEdgeChannelKaAlpn ∈ alpn then ∃ name, sent = some name ∧ eqIgnoreAsciiCase name ctEdgeChannelFallbackSni
    else ctEdgeRelayAlpn ∉ alpn ∧ (sent = none → "http/1.1" ∉ alpn ∧ "h2" ∉ alpn)

/- The route where no protocol is offered. -/
def nameRoute (sent : Option String) (isTerminateHost : String → Bool) : FrontDoorRoute :=
  match sent with
  | some name =>
    if eqIgnoreAsciiCase name ctEdgeChannelFallbackSni then .channelBroker
    else if isTerminateHost name then .proxy (lower name)
    else .browserTunnel (lower name)
  | none => .reject

theorem bareRoute (sent : Option String) (isTerminateHost : String → Bool) (defaultHost : Option String) :
    precedence sent [] isTerminateHost defaultHost = nameRoute sent isTerminateHost := by
  cases sent <;> cases defaultHost <;> simp [precedence, nameRoute]

theorem harmlessRoute (sent : Option String) (alpn : List String) :
    (∀ isTerminateHost defaultHost, precedence sent alpn isTerminateHost defaultHost = precedence sent [] isTerminateHost defaultHost) ↔
      Harmless sent alpn := by
  constructor
  · intro same
    have route := same (fun _ => false) (some "")
    rw [bareRoute] at route
    unfold precedence nameRoute at route
    have edge : ctEdgeAlpn ∉ alpn := by
      intro mem
      rw [if_pos mem] at route
      cases sent with
      | some name =>
        dsimp only at route
        split at route <;> cases route
      | none => cases route
    rw [if_neg edge] at route
    refine ⟨edge,?_⟩
    split
    · rename_i channel
      rw [if_pos channel] at route
      cases sent with
      | some name =>
        dsimp only at route
        split at route
        · rename_i fallback
          exact ⟨name,rfl,fallback⟩
        · cases route
      | none => cases route
    · rename_i channel
      rw [if_neg channel] at route
      have relay : ctEdgeRelayAlpn ∉ alpn := by
        intro mem
        rw [if_pos mem] at route
        cases sent with
        | some name =>
          dsimp only at route
          split at route <;> cases route
        | none => cases route
      refine ⟨relay,?_⟩
      rintro rfl
      rw [if_neg relay] at route
      dsimp only at route
      split at route
      · cases route
      · rename_i web
        exact not_or.mp web
  · rintro ⟨edge,rest⟩ isTerminateHost defaultHost
    rw [bareRoute]
    unfold precedence nameRoute
    rw [if_neg edge]
    split at rest
    · rename_i channel
      obtain ⟨name,rfl,fallback⟩ := rest
      simp [channel, fallback]
    · rename_i channel
      obtain ⟨relay,web⟩ := rest
      cases sent with
      | some name => simp [channel, relay]
      | none =>
        obtain ⟨http,second⟩ := web rfl
        cases defaultHost <;> simp [channel, relay, http, second]

theorem cutRejected {h : Hello} {cut : Bytes} (front : cut <+: h.record) (short : cut ≠ h.record) (isTerminateHost : String → Bool)
    (defaultHost : Option String) : classifyFrontDoor cut isTerminateHost defaultHost = found .reject := by
  have nothing : clientHelloExtensions cut = absent := by
    rw [clientHelloExtensions, cutAbsent h front short]
    rfl
  rw [classifyFrontDoor, nothing]
  rfl

theorem eitherInside {a b : Read Bool} (one : Inside a) (other : Inside b) : Inside (either a b) := by
  refine bindInside one fun value _ => ?_
  split
  · exact foundInside _
  · exact other

theorem classifyInside (buf : Bytes) (isTerminateHost : String → Bool) (defaultHost : Option String) :
    Inside (classifyFrontDoor buf isTerminateHost defaultHost) := by
  refine bindInside (optionalInside (extensionsInside buf)) fun exts _ => ?_
  have has (want : String) : Inside (alpnHas exts want) := by
    cases exts with
    | none => exact foundInside _
    | some exts => exact alpnInside exts want
  have name : Inside (sniOf exts) := by
    cases exts with
    | none => exact foundInside _
    | some exts => exact optionalInside (sniInside exts)
  refine bindInside (has _) fun edge _ => ?_
  split
  · exact foundInside _
  refine bindInside (eitherInside (has _) (has _)) fun channel _ => ?_
  split
  · exact foundInside _
  refine bindInside (has _) fun relay _ => ?_
  split
  · exact foundInside _
  refine bindInside name fun sni _ => ?_
  split
  · split
    · exact foundInside _
    · split <;> exact foundInside _
  · refine bindInside (eitherInside (has _) (has _)) fun web _ => ?_
    split <;> exact foundInside _

/- A predicate that does not look at letter case, as the classifier asks for, may as well be
asked about the name as the reader gives it. -/
theorem caseBlind {isTerminateHost : String → Bool} (blind : ∀ name, isTerminateHost (lower name) = isTerminateHost name) (sent : Option String)
    (alpn : List String) (defaultHost : Option String) :
    precedence (sent.map lower) alpn isTerminateHost defaultHost = precedence sent alpn isTerminateHost defaultHost := by
  cases sent with
  | none => rfl
  | some name => simp only [precedence, Option.map_some, eqLower, blind, lowerTwice]

theorem sniRead (h : Hello) (host : String) : peekSni h.record = found host ↔
    ∃ data name, first h.extensions 0x0000 = some data ∧ HostName data name ∧ host = lower name := by
  have read (name : String) := sniName name (helloShort h)
  rw [peekSni, blockRecovered, bindFound, bindEq]
  constructor
  · rintro ⟨name,sni,same⟩
    cases same
    obtain ⟨data,at',host⟩ := (read name).mp sni
    exact ⟨data,name,at',host,rfl⟩
  · rintro ⟨data,name,at',host,rfl⟩
    exact ⟨name,(read name).mpr ⟨data,at',host⟩,rfl⟩

/- The name as it is sent, or as the plain reader gives it to a predicate that does not look
at letter case, as the classifier asks of it. -/
def Reported (sent sni : Option String) (isTerminateHost : String → Bool) : Prop :=
  sni = sent ∨ sni = sent.map lower ∧ ∀ name, isTerminateHost (lower name) = isTerminateHost name

/- The classifier agrees with the documented order on the two parsed values. -/
def Agrees (h : Hello) (sent : Option String) : Prop :=
  ∀ sni alpn isTerminateHost defaultHost, Reported sent sni isTerminateHost → peekAlpn h.record = found alpn →
    classifyFrontDoor h.record isTerminateHost defaultHost = found (precedence sni alpn isTerminateHost defaultHost)

theorem reportedRoute {sent sni : Option String} {isTerminateHost : String → Bool} (reported : Reported sent sni isTerminateHost)
    (alpn : List String) (defaultHost : Option String) :
    precedence sni alpn isTerminateHost defaultHost = precedence sent alpn isTerminateHost defaultHost := by
  rcases reported with rfl | ⟨rfl,blind⟩
  · rfl
  · exact caseBlind blind sent alpn defaultHost

theorem agreesIff (h : Hello) {sent : Option String} {names : List Bytes} {tail : Bytes} (shown : Shown h.extensions names tail)
    (sni : (sniFromExtensions (block h.extensions)).optional = found sent) :
    Agrees h sent ↔ (tail ≠ [] → Harmless sent (names.filterMap fromUtf8)) := by
  have peek := peekShown h shown
  have classified := classifyShown h shown sni
  constructor
  · intro agrees some'
    rw [if_neg some'] at peek
    refine (harmlessRoute sent _).mp fun isTerminateHost defaultHost => ?_
    have same := agrees sent [] isTerminateHost defaultHost (.inl rfl) peek
    rw [classified] at same
    exact Read.found.inj same
  · intro harmless sni alpn isTerminateHost defaultHost reported peeked
    rw [reportedRoute reported, classified]
    rw [peek] at peeked
    cases peeked
    split
    · rfl
    · rename_i some'
      rw [(harmlessRoute sent _).mpr (harmless some') isTerminateHost defaultHost]

theorem frontDoor (h : Hello) :
    clientHelloExtensions h.record = found (block h.extensions) ∧
    (∀ host, peekSni h.record = found host ↔ ∃ data name, first h.extensions 0x0000 = some data ∧ HostName data name ∧ host = lower name) ∧
    (∀ cut, cut <+: h.record → cut ≠ h.record → ∀ isTerminateHost defaultHost,
      classifyFrontDoor cut isTerminateHost defaultHost = found .reject) ∧
    (∀ buf isTerminateHost defaultHost, Inside (clientHelloExtensions buf) ∧ Inside (peekSni buf) ∧ Inside (peekAlpn buf) ∧
      Inside (classifyFrontDoor buf isTerminateHost defaultHost)) ∧
    ∃ sent names tail, Sent h.extensions sent ∧ Shown h.extensions names tail ∧
      peekAlpn h.record = found (if tail = [] then names.filterMap fromUtf8 else []) ∧
      (Agrees h sent ↔ (tail ≠ [] → Harmless sent (names.filterMap fromUtf8))) := by
  obtain ⟨sent,named,sni⟩ := sniSent (helloShort h)
  obtain ⟨names,tail,shown⟩ := someShown h.extensions
  exact ⟨blockRecovered h,sniRead h,fun cut => cutRejected,fun buf term host => ⟨extensionsInside buf,peekSniInside buf,peekAlpnInside buf,
    classifyInside buf term host⟩,sent,names,tail,named,shown,peekShown h shown,agreesIff h shown sni⟩

/- The tunnel's protocol, and behind it five bytes announced of which none is there. -/
def cutList : Bytes := [0,9,7,99,116,45,101,100,103,101,5]

def cutHello : Hello where
  recordVersion := 0x0301
  version := 0x0303
  random := .replicate 32 0
  sessionId := []
  cipherSuites := [0x1301]
  compression := [0]
  extensions := [(0x0010,cutList)]
  sessionShort := sessionless
  compressionShort := uncompressed
  recordShort := by decide

theorem protocolLost : ¬ ∀ (h : Hello) (sent : Option String), Sent h.extensions sent → Agrees h sent := by
  intro claim
  obtain ⟨sent,named,sni⟩ := sniSent (helloShort cutHello)
  have shown : Shown cutHello.extensions [asBytes "ct-edge"] [5] :=
    .inl ⟨cutList,rfl,by decide,by decide,[],by decide,by decide⟩
  have harmless := (agreesIff cutHello shown sni).mp (claim cutHello sent named) (List.cons_ne_nil _ _)
  exact harmless.1 ((textMem _ _).mpr (by decide))

end Routing
end CadsTunnel.FrontDoor
