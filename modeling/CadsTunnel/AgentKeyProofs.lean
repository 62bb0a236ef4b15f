import CadsTunnel.AgentKeyExchange
import CadsTunnel.Duties
import CadsTunnel.EdgeAgentKeys
import CadsTunnel.EdgeConnections

/-! The proof of the agent key on many connections at once. Each stream draws a challenge of its
own and takes what the network gives it for a binding and a signature; the registry judges
the proof by its pins. Under enforcement whoever serves a token has answered a challenge of
this edge with the pinned key, and no answer serves twice. -/
namespace CadsTunnel.Edge.Proofs
open Words Program
open Bindings (Primitives Signature SignedAgentBinding registrationChallengeBytes)

/- What was signed so far, by which key. -/
abbrev Signed := List (Key × Bytes)

abbrev Act (H : Type) := Program.Act (Call H) Call.Reply Signed

/- The registry, what was signed, and the streams under way, each on a connection. -/
structure Site (H : Type) where
  edge : EdgeState H := {}
  signed : Signed := []
  handles : List H := []
  streams : List (Program (Call H) Call.Reply Served) := []

/- A stream is opened, goes on by one call with what the world says to it, a key is used, or another task uses the registry. -/
inductive Turn (H : Type) where
  | arrive (handle : H)
  | stream (i : Nat) (world : World)
  | sign (key : Key) (message : Bytes)
  | other (op : Op H)

section Site
variable {H : Type} [DecidableEq H] (crypto : Primitives) (challenge : Challenge)

def Site.step (s : Site H) : Turn H → List (Act H) × Site H
  | .arrive handle => ([],{ s with handles := s.handles ++ [handle], streams := s.streams ++ [(serveConnection crypto challenge).run] })
  | .stream i world =>
    match s.handles[i]?, s.streams[i]? with
    | some me, some (.call c next) =>
      let (reply,shared) := perform crypto me { edge := s.edge } c world
      ([⟨i,s.signed,c,reply⟩],{ s with edge := shared.edge, streams := s.streams.set i (next reply) })
    | _, _ => ([],s)
  | .sign key message => ([],{ s with signed := s.signed ++ [(key,message)] })
  | .other op => ([],{ s with edge := s.edge.apply (agentKeyTokenHash crypto) op })

def run (turns : List (Turn H)) : Site H := Machine.run (Site.step crypto challenge) {} turns

def acts (turns : List (Turn H)) : List (Act H) :=
  Machine.log (Site.step crypto challenge) (fun s turn => (s.step crypto challenge turn).1) {} turns

end Site

section Handshakes
variable {H : Type}

/- What a handshake has exchanged. -/
structure Handshake where
  nonce : Vector UInt8 32
  issuers : List Key
  now : UInt64
  signed : SignedAgentBinding
  signature : Signature

/- The stream went through the handshake for the token. -/
structure Passed (crypto : Primitives) (before : List (Act H)) (i : Nat) (token : RoutingToken) (proven : ProvenKey) (h : Handshake) : Prop where
  drawn : Program.Asked before i .fillBytes h.nonce
  listed : Program.Asked before i .agentKeyIssuers h.issuers
  clock : Program.Asked before i .unixNow h.now
  presented : ∃ (n : Nat) (bytes : Vector UInt8 n), n ≤ maxBindingLen ∧ Program.Asked before i (.readExact .bindingBytes n) (.ok bytes) ∧
    Bindings.decode bytes.toList = .ok h.signed
  answered : Program.Asked before i (.readExact .signature 64) (.ok h.signature)
  verified : Bindings.verifyRegistration crypto h.issuers h.signed token.toList h.nonce h.signature h.now = .ok ()
  proven : proven = ⟨h.signed.binding.agentPubkey,h.signed.binding.issuedAt⟩

/- The stream has not registered anything yet. -/
def Silent (before : List (Act H)) (i : Nat) : Prop := ∀ act ∈ before, act.who = i → ¬act.call.registers

/- What has to come before a call: before a registration with a proof, the handshake. -/
def Due (crypto : Primitives) (before : List (Act H)) (i : Nat) : Call H → Prop
  | .registerWithCandidateChecked token _ _ proof => Silent before i ∧ ∀ proven, proof = some proven → ∃ h, Passed crypto before i token proven h
  | _ => True

variable {crypto : Primitives} {challenge : Challenge} {before after : List (Act H)} {i : Nat} {token : RoutingToken}

theorem passedMono (more : before ⊆ after) {proven : ProvenKey} {h : Handshake} (passed : Passed crypto before i token proven h) :
    Passed crypto after i token proven h := by
  obtain ⟨n,bytes,short,presented,decoded⟩ := passed.presented
  exact ⟨askedMono more passed.drawn,askedMono more passed.listed,askedMono more passed.clock,⟨n,bytes,short,askedMono more presented,decoded⟩,
    askedMono more passed.answered,passed.verified,passed.proven⟩

theorem dueLater (before after : List (Act H)) (i : Nat) (c : Call H) (later : Later i before after) (due : Due crypto before i c) :
    Due crypto after i c := by
  cases c with
  | registerWithCandidateChecked token candidate mode proof =>
    refine ⟨fun act mem mine => due.1 act (later.own act mem mine) mine,?_⟩
    intro proven given
    obtain ⟨h,passed⟩ := due.2 proven given
    exact ⟨h,passedMono later.more passed⟩
  | _ => trivial

theorem silentNext (silent : Silent before i) (stamp : Signed) (c : Call H) (reply : c.Reply) (quiet : ¬c.registers) :
    Silent (before ++ [⟨i,stamp,c,reply⟩]) i := by
  intro act mem mine
  obtain old | last := List.mem_append.mp mem
  · exact silent act old mine
  · rw [List.mem_singleton.mp last]
    exact quiet

theorem fulfilsQuiet {α : Type} {p : Program (Call H) Call.Reply α} (quiet : Quiet p) : Fulfils (Due crypto) i p before := by
  induction p generalizing before with
  | done a => trivial
  | call c next ih =>
    refine ⟨?_,fun stamp reply => ih reply (quiet.2 reply trivial)⟩
    cases c with
    | registerWithCandidateChecked => exact absurd trivial quiet.1
    | _ => trivial

variable {α : Type}

theorem fulfilsWithin {late : String} {r : Except Failure α} {f : α → Serve H (Option (RoutingToken × Nat))}
    (next : ∀ a, r = .ok a → Fulfils (Due crypto) i (f a).run before) : Fulfils (Due crypto) i (within late r >>= f).run before := by
  rcases r with (_ | _) | a
  · trivial
  · trivial
  · exact next a rfl

theorem quietAdmission (token : RoutingToken) (admitted : Except AgentKeyReason (Nat × List H)) :
    Quiet (admission token admitted : Serve H _).run := by
  rcases admitted with reason | ⟨reg,removed⟩
  · exact quietRefusal
  · refine quietTry ?_ (fun _ => quietTry (quietAnswer _) (fun _ => trivial))
    induction removed with
    | nil => trivial
    | cons old rest ih => exact quietQuery not_false (fun _ => ih)

theorem fulfilsRegister {candidate : SocketAddr} {mode : AgentKeyMode} {proof : Option ProvenKey} (silent : Silent before i)
    (passed : ∀ proven, proof = some proven → ∃ h, Passed crypto before i token proven h) :
    Fulfils (Due crypto) i (query (Call.registerWithCandidateChecked token candidate mode proof) >>= admission token : Serve H _).run before :=
  keepsQuery ⟨silent,passed⟩ (fun _ admitted => fulfilsQuiet (quietAdmission token admitted))

theorem fulfilsAgent (silent : Silent before i) : Fulfils (Due crypto) i (serveAgent : Serve H _).run before := by
  refine keepsQuery trivial fun s1 read => fulfilsWithin fun token _ => ?_
  have silent := silentNext silent s1 (.readExact .token 32) read not_false
  refine keepsQuery trivial fun s2 remote => keepsQuery trivial fun s3 mode => fulfilsRegister ?_ nofun
  exact silentNext (silentNext silent s2 .remoteAddress remote not_false) s3 (.agentKeyModeFor token) mode not_false

/- A step of the handshake that fails ends it without a proof. -/
theorem keepsHandshake {β : Type} {post : Except AgentKeyReason β → List (Act H) → Prop} (failed : ∀ e, post (.error e) before)
    {r : Except Failure α} {f : α → Fallible (Call H) Call.Reply AgentKeyReason β}
    (next : ∀ a, r = .ok a → Keeps (Due crypto) i post (f a).run before) : Keeps (Due crypto) i post (handshake r >>= f).run before := by
  cases r with
  | error e => exact failed .timeout
  | ok a => exact next a rfl

/- What a handshake that ended well has exchanged. -/
theorem keepsProve {issuers : List Key} {now : UInt64} (silent : Silent before i) (listed : Program.Asked before i .agentKeyIssuers issuers)
    (clock : Program.Asked before i .unixNow now) :
    Keeps (Due crypto) i (fun r l => Silent l i ∧ ∀ proven, r = .ok proven → ∃ h, Passed crypto l i token proven h)
      (proveAgentKey crypto token issuers now).run before := by
  refine keepsQuery trivial fun s1 nonce => keepsQuery trivial fun s2 written => ?_
  have silent := silentNext silent s1 .fillBytes nonce not_false
  have silent := silentNext silent s2 (.writeAll .nonce (Vector.toList nonce)) written not_false
  refine keepsHandshake (fun e => ⟨silent,nofun⟩) fun _ _ => keepsQuery trivial fun s3 read => ?_
  have silent := silentNext silent s3 (.readExact .lenBytes 2) read not_false
  refine keepsHandshake (fun e => ⟨silent,nofun⟩) fun lenBytes _ => ?_
  dsimp only
  split
  · exact ⟨silent,nofun⟩
  · rename_i short
    refine keepsQuery trivial fun s4 read => ?_
    have silent := silentNext silent s4 (.readExact .bindingBytes (readBE lenBytes.toList)) read not_false
    refine keepsHandshake (fun e => ⟨silent,nofun⟩) fun bytes got => keepsQuery trivial fun s5 sent => ?_
    have silent := silentNext silent s5 (.readExact .signature 64) sent not_false
    refine keepsHandshake (fun e => ⟨silent,nofun⟩) fun signature signed => ?_
    split
    · exact ⟨silent,nofun⟩
    · rename_i binding decoded
      split
      · exact ⟨silent,nofun⟩
      · rename_i verified
        refine ⟨silent,?_⟩
        rintro _ ⟨⟩
        subst got signed
        refine ⟨⟨nonce,issuers,now,binding,signature⟩,?_⟩
        constructor
        case drawn => exact ⟨s1,by simp⟩
        case listed => exact askedMono (by intro a mem; simp [mem]) listed
        case clock => exact askedMono (by intro a mem; simp [mem]) clock
        case presented => exact ⟨_,bytes,Nat.le_of_not_lt short,⟨s4,by simp⟩,decoded⟩
        case answered => exact ⟨s5,by simp⟩
        case verified => exact verified
        case proven => rfl

theorem fulfilsProven (silent : Silent before i) : Fulfils (Due crypto) i (serveProven crypto : Serve H _).run before := by
  refine keepsQuery trivial fun s1 read => fulfilsWithin fun token _ => ?_
  refine keepsQuery trivial fun s2 mode => keepsQuery trivial fun s3 issuers => ?_
  refine keepsQuery trivial fun s4 remote => keepsQuery trivial fun s5 now => ?_
  have silent := silentNext silent s1 (.readExact .token 32) read not_false
  have silent := silentNext silent s2 (.agentKeyModeFor token) mode not_false
  have silent := silentNext silent s3 .agentKeyIssuers issuers not_false
  have silent := silentNext silent s4 .remoteAddress remote not_false
  have silent := silentNext silent s5 .unixNow now not_false
  refine keepsBind (p := (ExceptT.lift _ : Serve H _).run) (keepsBind (keepsMono ?_ (keepsProve silent ⟨s3,by simp⟩ ⟨s5,by simp⟩)))
  rintro (reason | proven) l ⟨silent,passed⟩
  · exact fulfilsQuiet quietRefusal
  · refine fulfilsRegister silent ?_
    rintro _ ⟨⟩
    exact passed proven rfl

theorem fulfilsConnection (silent : Silent before i) : Fulfils (Due crypto) i (serveConnection crypto challenge : Serve H _).run before := by
  refine keepsQuery trivial fun s1 accepted => fulfilsWithin fun _ _ => keepsQuery trivial fun s2 read => fulfilsWithin fun role _ => ?_
  have silent := silentNext silent s1 .acceptBi accepted not_false
  have silent := silentNext silent s2 (.readExact .role 1) read not_false
  unfold dispatch
  split
  · exact fulfilsAgent silent
  · exact fulfilsProven silent
  · exact fulfilsQuiet (quietClient crypto challenge)
  · exact fulfilsQuiet quietDirect
  · exact fulfilsQuiet quietHost
  · exact fulfilsQuiet quietDirectQuery
  · exact fulfilsQuiet quietWhoami
  · exact fulfilsQuiet quietRevoke
  · trivial

end Handshakes
section Tunnels
variable {H : Type} {agentKeyTokenHash : RoutingToken → Key}

/- A live registration that was proven. -/
def Serving (t : Tunnel H) (e : Nat × H) : Prop := e ∈ t.live ∧ e.1 ∈ t.proven

/- The key of the pin. -/
def pinnedKey (t : Tunnel H) : Option Key := (t.pin.bind AgentKeyPin.pin).map ProvenKey.key

def Op.admits : Op H → Bool
  | .registerWithCandidateChecked .. => true
  | _ => false

/- An accepted proof is for the pinned key, the first one pins its own. -/
theorem acceptedKey {entry after : AgentKeyPin} {proof : ProvenKey} (outcome : EdgeState.pinProven entry proof = (.accepted,after)) :
    after.provenIds = entry.provenIds ∧ after.pin.map ProvenKey.key = some proof.key ∧
      ∀ before, entry.pin = some before → before.key = proof.key := by
  unfold EdgeState.pinProven at outcome
  split at outcome
  case h_1 absent =>
    cases (Prod.mk.inj outcome).2
    exact ⟨rfl,rfl,fun before pinned => by simp [absent] at pinned⟩
  case h_2 current pinned =>
    split at outcome
    case isTrue same =>
      have moved := (Prod.mk.inj outcome).2
      refine ⟨?_,?_,fun before held => by cases Option.some.inj (pinned.symm.trans held); exact same⟩
      · split at moved <;> subst moved <;> rfl
      · split at moved <;> subst moved
        · rfl
        · rw [pinned, Option.map_some, same]
    case isFalse => split at outcome <;> (try split at outcome) <;> exact absurd (Prod.mk.inj outcome).1 (by simp)

theorem servingFewer {t u : Tunnel H} (fewer : ∀ e ∈ u.live, e ∈ t.live) (same : u.pin = t.pin) {e : Nat × H} (serving : Serving u e) :
    Serving t e ∧ pinnedKey u = pinnedKey t := by
  obtain ⟨live,proven⟩ := serving
  rw [Tunnel.proven, same] at proven
  exact ⟨⟨fewer e live,proven⟩,by rw [pinnedKey, same, pinnedKey]⟩

theorem servingDropped {t : Tunnel H} {id : Nat} {e : Nat × H} (serving : Serving ((t.forget id).dropped id) e) :
    Serving t e ∧ pinnedKey ((t.forget id).dropped id) = pinnedKey t := by
  have pin : ((t.forget id).dropped id).pin = t.pin.map (fun pin => { pin with provenIds := pin.provenIds.erase id }) := by
    unfold Tunnel.dropped
    split
    · rfl
    · split <;> rfl
  have fewer : ∀ e ∈ ((t.forget id).dropped id).live, e ∈ t.live := by
    intro e mem
    unfold Tunnel.dropped at mem
    split at mem
    · exact (List.mem_filter.mp mem).1
    · split at mem <;> exact absurd mem List.not_mem_nil
  obtain ⟨live,proven⟩ := serving
  rw [Tunnel.proven, pin] at proven
  refine ⟨⟨fewer e live,?_⟩,?_⟩
  · rw [Tunnel.proven]
    cases found : t.pin with
    | none => simp [found] at proven
    | some entry =>
      simp only [found, Option.map_some, Option.getD_some, Std.ExtTreeSet.mem_erase] at proven ⊢
      exact proven.2
  · rw [pinnedKey, pin, pinnedKey]
    cases t.pin <;> rfl

/- Only an admission adds to what serves, or changes the pinned key while something serves. -/
theorem servingEffect {s : EdgeState H} {op : Op H} {token : RoutingToken} {t : Tunnel H} (effect : EdgeState.Effect agentKeyTokenHash s op token t)
    (checked : op.checked) (counted : s.registrations.Counted) (listed : ∀ id ∈ (s.tunnel token).proven, id ∈ (s.tunnel token).live.map Prod.fst)
    (keyed : ∀ e, Serving (s.tunnel token) e → pinnedKey (s.tunnel token) ≠ none)
    {e : Nat × H} (serving : Serving t e) :
    (Serving (s.tunnel token) e ∧ pinnedKey t = pinnedKey (s.tunnel token)) ∨
      ∃ (handle : H) (candidate : SocketAddr) (mode : AgentKeyMode) (proven : ProvenKey) (now : UInt64),
        op = .registerWithCandidateChecked token handle candidate mode (some proven) now ∧ e = (s.registrations.nextReg,handle) ∧
          pinnedKey t = some proven.key := by
  have member : ∀ (entry : AgentKeyPin) (id other : Nat), other ∈ entry.provenIds.insert id ↔ other = id ∨ other ∈ entry.provenIds := by
    intro entry id other
    rw [Std.ExtTreeSet.mem_insert, Std.compare_eq_iff_eq]
    exact or_congr_left eq_comm
  cases effect with
  | same => exact .inl ⟨serving,rfl⟩
  | registered unchecked => exact absurd checked (by simp [unchecked])
  | @admitted mode handle candidate proof now _ call valid admission =>
    have fresh : s.registrations.nextReg ∉ (s.tunnel token).proven := by
      intro proven
      obtain ⟨other,mem,same⟩ := List.mem_map.mp (listed _ proven)
      have issued := Registrations.liveIssued counted mem
      omega
    obtain ⟨live,proven⟩ := serving
    cases admission with
    | unproven lenient =>
      obtain old | new := List.mem_append.mp live
      · exact .inl ⟨⟨old,proven⟩,rfl⟩
      · rw [List.mem_singleton.mp new] at proven
        exact absurd proven fresh
    | @accepted key entry given outcome =>
      obtain ⟨ids,pinned,sameKey⟩ := acceptedKey outcome
      have now' : pinnedKey { (s.tunnel token).registered s.registrations.nextReg handle now with
          candidate := some candidate, pin := some { entry with provenIds := entry.provenIds.insert s.registrations.nextReg } } = some key.key := pinned
      have before : (s.tunnel token).proven = ((s.tunnel token).pin.getD {}).provenIds := by
        rw [Tunnel.proven]
        cases (s.tunnel token).pin <;> rfl
      obtain old | new := List.mem_append.mp live
      · left
        have older : e.1 ∈ (s.tunnel token).proven := by
          obtain last | kept := (member entry _ _).mp proven
          · have issued := Registrations.liveIssued counted old
            omega
          · rwa [before, ← ids]
        refine ⟨⟨old,older⟩,now'.trans ?_⟩
        have pin := keyed e ⟨old,older⟩
        rw [pinnedKey] at pin ⊢
        cases found : (s.tunnel token).pin with
        | none => simp [found] at pin
        | some held =>
          rw [found, Option.getD_some] at sameKey
          rw [Option.bind_some]
          cases current : held.pin with
          | none => simp [found, current] at pin
          | some last => rw [Option.map_some, sameKey last current]
      · right
        exact ⟨handle,candidate,mode,key,now,given ▸ call,List.mem_singleton.mp new,now'⟩
    | @repinned key entry given outcome =>
      obtain ⟨rfl,_⟩ := EdgeState.pinRepinned outcome
      exact .inr ⟨handle,candidate,mode,key,now,given ▸ call,List.mem_singleton.mp live,rfl⟩
  | parked lenient valid => exact .inl (servingFewer (fun _ mem => mem) rfl serving)
  | unparked fewer => exact .inl (servingFewer (fun _ mem => mem) rfl serving)
  | hosts changed => exact .inl (servingFewer (fun _ mem => mem) rfl serving)
  | direct changed => exact .inl (servingFewer (fun _ mem => mem) rfl serving)
  | dropped => exact .inl (servingDropped serving)
  | torn => exact absurd serving.1 List.not_mem_nil
  | revoked call => exact absurd serving.1 List.not_mem_nil
  | seeded unguarded => exact .inl (servingFewer (fun _ mem => mem) rfl serving)
  | enforced switch newly => exact .inl (@servingFewer _ (s.tunnel token) (s.tunnel token).enforced (fun _ mem => (List.mem_filter.mp mem).1) rfl e serving)
  | swept kept => exact .inl (servingFewer (fun _ mem => mem) rfl serving)

end Tunnels

section Runs
variable {H : Type} [DecidableEq H] {crypto : Primitives} {challenge : Challenge} {trace later : List (Act H)} {s : Site H}

/- A stream has registered it, with a proof of the key, on its connection. -/
def Backed (trace : List (Act H)) (handles : List H) (token : RoutingToken) (e : Nat × H) (key : Option Key) : Prop :=
  ∃ (i : Nat) (candidate : SocketAddr) (mode : AgentKeyMode) (proven : ProvenKey) (removed : List H),
    Program.Asked trace i (.registerWithCandidateChecked token candidate mode (some proven)) (.ok (e.1,removed)) ∧ handles[i]? = some e.2 ∧
      key = some proven.key

structure Accounted (crypto : Primitives) (trace : List (Act H)) (s : Site H) : Prop where
  ops : ∃ ops : List (Op H), (∀ op ∈ ops, op.checked) ∧ s.edge = EdgeState.run (agentKeyTokenHash crypto) {} ops
  even : s.handles.length = s.streams.length
  dutiful : Dutiful (Due crypto) trace s.streams
  backed : ∀ token e, Serving (s.edge.tunnel token) e → Backed trace s.handles token e (pinnedKey (s.edge.tunnel token))

/- The calls of a stream are checked steps of the registry, if they are steps at all. -/
theorem performOp (me : H) (s : Shared H) (c : Call H) (world : World) :
    (perform crypto me s c world).2.edge = s.edge ∨ ∃ op : Op H, op.checked ∧
      (perform crypto me s c world).2.edge = s.edge.apply (agentKeyTokenHash crypto) op ∧
      ∀ token handle candidate mode proof now, op = .registerWithCandidateChecked token handle candidate mode proof now →
        c = .registerWithCandidateChecked token candidate mode proof ∧ handle = me := by
  cases c with
  | registerWithCandidateChecked token candidate mode proof =>
    refine .inr ⟨.registerWithCandidateChecked token me candidate mode proof world.now,rfl,rfl,?_⟩
    rintro _ _ _ _ _ _ ⟨⟩
    exact ⟨rfl,rfl⟩
  | deliverToTcpAgentDraining token => exact .inr ⟨.deliverToTcpAgentDraining token world.late,rfl,rfl,nofun⟩
  | noteRelay token clientToAgent agentToClient => exact .inr ⟨.noteRelay token clientToAgent agentToClient world.now,rfl,rfl,nofun⟩
  | advertiseDirect token addr cert => exact .inr ⟨.advertiseDirect token addr cert world.order,rfl,rfl,nofun⟩
  | registerHost host token => exact .inr ⟨.registerHost host token,rfl,rfl,nofun⟩
  | revokeToken token => exact .inr ⟨.revokeToken token world.now,rfl,rfl,nofun⟩
  | _ => exact .inl rfl

omit [DecidableEq H] in
theorem backedMore (more : trace ⊆ later) {handles all : List H} (kept : handles <+: all) {token : RoutingToken} {e : Nat × H} {key : Option Key}
    (backed : Backed trace handles token e key) : Backed later all token e key := by
  obtain ⟨i,candidate,mode,proven,removed,asked,there,same⟩ := backed
  refine ⟨i,candidate,mode,proven,removed,askedMono more asked,?_,same⟩
  obtain ⟨rest,rfl⟩ := kept
  rw [List.getElem?_append_left (List.getElem?_eq_some_iff.mp there).1]
  exact there

/- What a checked step of the registry leaves serving was serving before, or is what the step has admitted. -/
omit [DecidableEq H] in
theorem backedOp (accounted : Accounted crypto trace s) {op : Op H} (checked : op.checked) (more : trace ⊆ later)
    (admitted : ∀ token handle candidate mode proven now, op = .registerWithCandidateChecked token handle candidate mode (some proven) now →
      ∀ key, Serving ((s.edge.apply (agentKeyTokenHash crypto) op).tunnel token) (s.edge.registrations.nextReg,handle) → key = some proven.key →
        Backed later s.handles token (s.edge.registrations.nextReg,handle) key) (token : RoutingToken) (e : Nat × H)
    (serving : Serving ((s.edge.apply (agentKeyTokenHash crypto) op).tunnel token) e) :
    Backed later s.handles token e (pinnedKey ((s.edge.apply (agentKeyTokenHash crypto) op).tunnel token)) := by
  obtain ⟨ops,all,same⟩ := accounted.ops
  have counted : s.edge.registrations.Counted := same ▸ (EdgeState.soundRun (agentKeyTokenHash crypto) ops).counted
  have listed : ∀ id ∈ (s.edge.tunnel token).proven, id ∈ (s.edge.tunnel token).live.map Prod.fst := by
    rw [same]
    exact (EdgeState.keyedRun (agentKeyTokenHash crypto) all token).live
  have keyed : ∀ e, Serving (s.edge.tunnel token) e → pinnedKey (s.edge.tunnel token) ≠ none := by
    intro e serving
    obtain ⟨i,candidate,mode,proven,removed,asked,there,key⟩ := accounted.backed token e serving
    rw [key]
    exact Option.some_ne_none _
  obtain ⟨old,key⟩ | ⟨handle,candidate,mode,proven,now,rfl,rfl,key⟩ :=
    servingEffect (EdgeState.effect (agentKeyTokenHash crypto) counted op token) checked counted listed keyed serving
  · rw [key]
    exact backedMore more List.prefix_rfl (accounted.backed token e old)
  · exact admitted token handle candidate mode proven now rfl _ serving key

/- The other tasks do not register agents, and what they park they check. -/
def Turn.Passive : Turn H → Prop
  | .other op => op.checked ∧ Op.admits op = false
  | _ => True

/- What a registering call has admitted it has answered with its id. -/
theorem registeredReply (counted : s.edge.registrations.Counted) {me : H} {token : RoutingToken} {candidate : SocketAddr} {mode : AgentKeyMode}
    {proof : Option ProvenKey} {world : World}
    (live : (s.edge.registrations.nextReg,me) ∈ ((perform crypto me { edge := s.edge }
      (.registerWithCandidateChecked token candidate mode proof) world).2.edge.tunnel token).live) :
    ∃ removed, (perform crypto me { edge := s.edge } (.registerWithCandidateChecked token candidate mode proof) world).1 =
      .ok (s.edge.registrations.nextReg,removed) := by
  obtain ⟨_,_,_,⟨_,same,_⟩ | ⟨r,origin,⟨removed,given⟩,_⟩⟩ :=
    EdgeState.checkedParts (agentKeyTokenHash crypto) s.edge token me candidate mode proof world.now rfl
  · have here : (s.edge.registrations.nextReg,me) ∈ s.edge.registrations.live token := same ▸ live
    have issued := Registrations.liveIssued counted here
    omega
  · have next : (s.edge.registrations.removeAll token).2.nextReg = s.edge.registrations.nextReg := by
      unfold Registrations.removeAll
      split
      · rfl
      · split <;> rfl
    obtain rfl | rfl := origin
    · exact ⟨removed,given⟩
    · exact ⟨removed,by rw [← next]; exact given⟩

theorem accountedStep (accounted : Accounted crypto trace s) {turn : Turn H} (passive : turn.Passive) :
    Accounted crypto (trace ++ (s.step crypto challenge turn).1) (s.step crypto challenge turn).2 := by
  obtain ⟨ops,all,same⟩ := accounted.ops
  have counted : s.edge.registrations.Counted := same ▸ (EdgeState.soundRun (agentKeyTokenHash crypto) ops).counted
  have applied {op : Op H} (checked : op.checked) : ∃ ops : List (Op H), (∀ op ∈ ops, op.checked) ∧
      s.edge.apply (agentKeyTokenHash crypto) op = EdgeState.run (agentKeyTokenHash crypto) {} ops := by
    refine ⟨ops ++ [op],?_,by rw [EdgeState.run, Machine.runNext, same]; rfl⟩
    intro o mem
    obtain old | last := List.mem_append.mp mem
    · exact all o old
    · exact List.mem_singleton.mp last ▸ checked
  cases turn with
  | arrive handle =>
    rw [Site.step, List.append_nil]
    refine ⟨⟨ops,all,same⟩,by simp [accounted.even],?_,?_⟩
    · exact dutifulArrive accounted.dutiful (fun _ silent => fulfilsConnection (fun act mem mine => absurd mine (silent act mem)))
    · exact fun token e serving => backedMore (List.Subset.refl _) (List.prefix_append _ _) (accounted.backed token e serving)
  | sign key message =>
    rw [Site.step, List.append_nil]
    exact ⟨⟨ops,all,same⟩,accounted.even,accounted.dutiful,accounted.backed⟩
  | other op =>
    rw [Site.step, List.append_nil]
    refine ⟨applied passive.1,accounted.even,accounted.dutiful,?_⟩
    refine backedOp accounted passive.1 (List.Subset.refl _) ?_
    rintro token handle candidate mode proven now rfl
    exact absurd passive.2 (by simp [Op.admits])
  | stream i world =>
    cases onto : s.handles[i]? with
    | none =>
      rw [Site.step, onto, List.append_nil]
      exact accounted
    | some me =>
      cases found : s.streams[i]? with
      | none =>
        rw [Site.step, onto, found, List.append_nil]
        exact accounted
      | some p =>
        cases p with
        | done served =>
          rw [Site.step, onto, found, List.append_nil]
          exact accounted
        | call c next =>
          rw [Site.step, onto, found]
          dsimp only
          have more := List.subset_append_left trace [⟨i,s.signed,c,(perform crypto me { edge := s.edge } c world).1⟩]
          have dutiful := dutifulCall dueLater accounted.dutiful found s.signed (perform crypto me { edge := s.edge } c world).1
          obtain still | ⟨op,checked,moved,registers⟩ := performOp me { edge := s.edge } c world
          · refine ⟨still ▸ ⟨ops,all,same⟩,by simp [accounted.even],dutiful,?_⟩
            rw [still]
            exact fun token e serving => backedMore more List.prefix_rfl (accounted.backed token e serving)
          · refine ⟨moved ▸ applied checked,by simp [accounted.even],dutiful,?_⟩
            dsimp only
            rw [moved]
            refine backedOp accounted checked more ?_
            intro token handle candidate mode proven now called key serving same
            obtain ⟨rfl,rfl⟩ := registers token handle candidate mode (some proven) now called
            rw [← moved] at serving
            obtain ⟨removed,answered⟩ := registeredReply counted serving.1
            refine ⟨i,candidate,mode,proven,removed,⟨s.signed,?_⟩,onto,same⟩
            rw [answered]
            simp

theorem accountedRun {turns : List (Turn H)} (passive : ∀ turn ∈ turns, turn.Passive) :
    Accounted crypto (acts crypto challenge turns) (run crypto challenge turns) := by
  induction turns using List.reverseRecOn with
  | nil =>
    refine ⟨⟨[],by simp,rfl⟩,rfl,dutifulStart,?_⟩
    rintro token e ⟨live,-⟩
    simp [run, Machine.run, EdgeState.tunnel, Registrations.live, OrderedMap.queueAt] at live
  | append_singleton turns turn ih =>
    rw [acts, Machine.logNext, run, Machine.runNext]
    exact accountedStep (ih fun t mem => passive t (List.mem_append_left _ mem)) (passive turn (by simp))

/- The challenge that a call draws, and the signatures that a reply brings in. -/
def drawn (act : Act H) : Option (Vector UInt8 32) :=
  match act with
  | ⟨_,_,.fillBytes,nonce⟩ => some nonce
  | _ => none

def brought (act : Act H) : List Signature :=
  match act with
  | ⟨_,_,.readExact .signature _,.ok bytes⟩ => (Slices.toArray 64 bytes.toList).toList
  | ⟨_,_,.readExact .bindingBytes _,.ok bytes⟩ =>
    match Bindings.decode bytes.toList with
    | .ok signed => [signed.signature]
    | .error _ => []
  | _ => []

/- A signature that holds under an honest key comes from its use. -/
def Unforged (crypto : Primitives) (honest : Key → Prop) (trace : List (Act H)) : Prop :=
  ∀ act ∈ trace, ∀ signature ∈ brought act, ∀ key message, honest key → crypto.verifyStrict key message signature = true →
    (key,message) ∈ act.stamp

/- No challenge is drawn twice, and none was answered before it is drawn. -/
structure Unpredicted (trace : List (Act H)) : Prop where
  once : (trace.filterMap drawn).Nodup
  unanswered : ∀ act ∈ trace, ∀ nonce ∈ drawn act, ∀ key token, (key,registrationChallengeBytes nonce token) ∉ act.stamp

/- A live registration of a token, the stream it was made on and what the handshake there has exchanged. -/
structure Vouched (crypto : Primitives) (honest : Key → Prop) (trace : List (Act H)) (s : Site H) (token : RoutingToken) (e : Nat × H) (i : Nat)
    (h : Handshake) : Prop where
  connection : s.handles[i]? = some e.2
  registered : ∃ (candidate : SocketAddr) (mode : AgentKeyMode) (removed : List H), Program.Asked trace i
    (.registerWithCandidateChecked token candidate mode (some ⟨h.signed.binding.agentPubkey,h.signed.binding.issuedAt⟩)) (.ok (e.1,removed))
  passed : Passed crypto trace i token ⟨h.signed.binding.agentPubkey,h.signed.binding.issuedAt⟩ h
  pinned : (s.edge.pinOf token).map ProvenKey.key = some h.signed.binding.agentPubkey
  current : h.signed.binding.tokenHash = crypto.sha256 token.toList ∧ h.now < h.signed.binding.expiresAt
  minted : (∀ issuer ∈ h.issuers, honest issuer) → ∃ issuer ∈ h.issuers, ∃ act ∈ trace, act.who = i ∧
    (issuer,h.signed.binding.signingBytes) ∈ act.stamp
  answered : honest h.signed.binding.agentPubkey → ∃ drawn read, (⟨i,drawn,.fillBytes,h.nonce⟩ : Act H) ∈ trace ∧
    (⟨i,read,.readExact .signature 64,.ok h.signature⟩ : Act H) ∈ trace ∧
    (h.signed.binding.agentPubkey,registrationChallengeBytes h.nonce token.toList) ∈ read ∧
    (h.signed.binding.agentPubkey,registrationChallengeBytes h.nonce token.toList) ∉ drawn

omit [DecidableEq H] in
/- A challenge belongs to one stream. -/
theorem drawnOnce (unpredicted : Unpredicted trace) {i j : Nat} {nonce : Vector UInt8 32} (first : Program.Asked trace i .fillBytes nonce)
    (second : Program.Asked trace j .fillBytes nonce) : i = j := by
  obtain ⟨s1,mem⟩ := first
  obtain ⟨s2,mem'⟩ := second
  by_contra other
  have : Std.Symm (fun a b : Act H => ∀ x, drawn a = some x → ∀ y, drawn b = some y → x ≠ y) :=
    ⟨fun a b differ x there y here => (differ y here x there).symm⟩
  have apart := (List.pairwise_filterMap.mp unpredicted.once).forall mem mem' (fun same => other (congrArg Program.Act.who same))
  exact apart nonce rfl nonce rfl rfl

omit [DecidableEq H] in
/- And a registration, too. -/
theorem registersOnce {streams : List (Program (Call H) Call.Reply Served)} (dutiful : Dutiful (Due crypto) trace streams) {first second : Act H}
    (mem : first ∈ trace) (mem' : second ∈ trace) (one : first.call.registers) (two : second.call.registers) (same : first.who = second.who) :
    first = second := by
  have single : ∀ before i (c : Call H), c.registers → Due crypto before i c → ∀ act ∈ before, act.who = i → ¬act.call.registers := by
    intro before i c registers due
    cases c with
    | registerWithCandidateChecked => exact due.1
    | _ => exact absurd registers not_false
  obtain ⟨before,after,split⟩ := List.append_of_mem mem
  rw [split, List.mem_append, List.mem_cons] at mem'
  obtain early | here | late := mem'
  · obtain ⟨a,b,rest⟩ := List.append_of_mem early
    have order : trace = a ++ second :: b ++ first :: after := by rw [split, rest]
    exact absurd same.symm (dutifulOnce dutiful single order two one)
  · exact here.symm
  · obtain ⟨a,b,rest⟩ := List.append_of_mem late
    have order : trace = before ++ first :: a ++ second :: b := by rw [split, rest, List.append_assoc, List.cons_append]
    exact absurd same (dutifulOnce dutiful single order one two)

theorem bindingVerified {crypto : Primitives} {issuers : List Key} {signed : SignedAgentBinding} {token : Bytes} {nonce : Vector UInt8 32}
    {signature : Signature} {now : UInt64} (verified : Bindings.verifyRegistration crypto issuers signed token nonce signature now = .ok ()) :
    signed.binding.tokenHash = crypto.sha256 token ∧ now < signed.binding.expiresAt ∧
      (∃ issuer ∈ issuers, crypto.verifyStrict issuer signed.binding.signingBytes signed.signature = true) ∧
      crypto.verifyStrict signed.binding.agentPubkey (registrationChallengeBytes nonce token) signature = true := by
  rw [Bindings.verifyRegistration, Machine.bindOk] at verified
  obtain ⟨_,bound,rest⟩ := verified
  rw [Bindings.verifyBinding] at bound
  split at bound <;> try contradiction
  split at bound <;> try contradiction
  rename_i hashed
  split at bound <;> try contradiction
  rename_i current
  split at bound <;> try contradiction
  split at bound <;> try contradiction
  rename_i minted
  refine ⟨not_not.mp hashed,UInt64.not_le.mp current,?_,?_⟩
  · obtain ⟨issuer,mem,holds⟩ := List.any_eq_true.mp minted
    rw [Bool.and_eq_true] at holds
    exact ⟨issuer,mem,holds.2⟩
  · dsimp only at rest
    split at rest
    · contradiction
    · split at rest <;> try contradiction
      rename_i right
      simpa using right

/- Under enforcement whoever serves a token has answered a challenge of the edge with the pinned key, under a binding of the token to
that key; and no challenge serves for two registrations. -/
theorem agentKeyServed {honest : Key → Prop} {turns : List (Turn H)} (passive : ∀ turn ∈ turns, turn.Passive)
    (unforged : Unforged crypto honest (acts crypto challenge turns)) (unpredicted : Unpredicted (acts crypto challenge turns)) :
    (∀ token, (run crypto challenge turns).edge.agentKeyModeFor (agentKeyTokenHash crypto) token = .enforce →
      ∀ e ∈ (run crypto challenge turns).edge.registrations.live token, ∃ i h,
        Vouched crypto honest (acts crypto challenge turns) (run crypto challenge turns) token e i h) ∧
    ∀ token token' e e' i i' h h', Vouched crypto honest (acts crypto challenge turns) (run crypto challenge turns) token e i h →
      Vouched crypto honest (acts crypto challenge turns) (run crypto challenge turns) token' e' i' h' → h.nonce = h'.nonce →
        token = token' ∧ e = e' := by
  have accounted : Accounted crypto (acts crypto challenge turns) (run crypto challenge turns) := accountedRun passive
  constructor
  · intro token strict e live
    obtain ⟨ops,checked,same⟩ := accounted.ops
    have keyed := EdgeState.keyedRun (agentKeyTokenHash crypto) checked token
    rw [← same] at keyed
    obtain ⟨i,candidate,mode,proven,removed,asked,there,pinned⟩ := accounted.backed token e ⟨live,keyed.proven strict e live⟩
    obtain ⟨stamp,mem⟩ := asked
    obtain ⟨before,after,split⟩ := List.append_of_mem mem
    obtain ⟨h,passed⟩ := (accounted.dutiful.made before _ after split).2 proven rfl
    have passed := passedMono (split ▸ List.subset_append_left _ _) passed
    obtain ⟨hashed,current,⟨issuer,among,minted⟩,answered⟩ := bindingVerified passed.verified
    obtain rfl := passed.proven
    refine ⟨i,h,?_⟩
    constructor
    case connection => exact there
    case registered => exact ⟨candidate,mode,removed,stamp,mem⟩
    case passed => exact passed
    case pinned => exact pinned
    case current => exact ⟨hashed,current⟩
    case minted =>
      intro all
      obtain ⟨n,bytes,-,⟨read,there⟩,decoded⟩ := passed.presented
      exact ⟨issuer,among,_,there,rfl,unforged _ there h.signed.signature (by simp [brought, decoded]) issuer _
        (all issuer among) minted⟩
    case answered =>
      intro trusted
      obtain ⟨drawn,drew⟩ := passed.drawn
      obtain ⟨read,there⟩ := passed.answered
      have sent : h.signature ∈ brought (⟨i,read,.readExact .signature 64,.ok h.signature⟩ : Act H) := by
        obtain ⟨v,same,bytes⟩ := Slices.toArraySome h.signature.length_toList
        rw [brought, same, Vector.toList_inj.mp bytes]
        simp
      exact ⟨drawn,read,drew,there,unforged _ there _ sent _ _ trusted answered,unpredicted.unanswered _ drew h.nonce rfl _ _⟩
  · intro token token' e e' i i' h h' vouched vouched' same
    obtain rfl : i = i' := drawnOnce unpredicted vouched.passed.drawn (same ▸ vouched'.passed.drawn)
    obtain ⟨candidate,mode,removed,stamp,mem⟩ := vouched.registered
    obtain ⟨candidate',mode',removed',stamp',mem'⟩ := vouched'.registered
    have connection := vouched.connection
    rw [vouched'.connection] at connection
    have once := registersOnce accounted.dutiful mem mem' trivial trivial rfl
    generalize (⟨h.signed.binding.agentPubkey,h.signed.binding.issuedAt⟩ : ProvenKey) = proven at once
    generalize (⟨h'.signed.binding.agentPubkey,h'.signed.binding.issuedAt⟩ : ProvenKey) = proven' at once
    obtain ⟨id,handle⟩ := e
    obtain ⟨id',handle'⟩ := e'
    cases Option.some.inj connection
    cases once
    exact ⟨rfl,rfl⟩

def issuerKey : Key :=
  #v[102,190,126,51,44,122,69,51,50,189,157,10,127,125,176,85,245,197,239,26,6,173,166,109,152,179,159,182,129,12,71,58]

def agentKey : Key :=
  #v[11,81,58,217,180,146,64,21,202,9,2,237,7,144,68,211,172,93,190,194,48,111,6,148,140,16,218,142,182,227,159,45]

/- A binding of the token 0101..01 to the key of the agent, with the issuer's signature. -/
def mintedBinding : SignedAgentBinding where
  binding := ⟨"t",EdgeState.sampleHash (.replicate 32 1),agentKey,100,1000⟩
  signature := #v[213,86,27,140,67,44,29,59,7,103,148,115,215,66,15,169,96,78,151,112,180,204,221,210,144,100,141,235,136,100,26,239,
    211,6,210,104,148,50,23,205,34,193,205,73,123,189,166,156,18,106,209,37,234,102,137,63,229,33,160,95,183,223,20,4]

def answerBytes : Bytes := registrationChallengeBytes (.replicate 32 5) (List.replicate 32 1)

/- The agent's signature of the challenge 0505..05 for the token. -/
def answerSignature : Signature :=
  #v[89,179,49,39,214,251,180,182,134,186,171,29,189,142,46,161,221,34,39,237,254,128,29,229,201,152,107,187,132,69,35,33,
    235,112,41,229,208,122,79,17,102,90,105,206,151,201,140,231,165,222,101,126,37,42,126,247,67,99,154,234,4,174,220,0]

def signatures : List ((Key × Bytes) × Signature) :=
  [((issuerKey,mintedBinding.binding.signingBytes),mintedBinding.signature),((agentKey,answerBytes),answerSignature)]

/- The hash of the token and the two signatures. -/
def sampleCrypto : Primitives where
  sha256 _ := EdgeState.sampleHash (.replicate 32 1)
  validKey key := key = issuerKey ∨ key = agentKey
  verifyStrict key message signature := ((key,message),signature) ∈ signatures

def sampleChallenge : Challenge := ⟨.replicate 16 0,0⟩

def sent (bytes : Bytes) : World := { received := fun n => (Slices.toArray n bytes).elim (.error .broken) .ok }

/- An agent proves its key while enforcement is on; another stream presents the same binding and the same answer. -/
def proving : List (Turn Nat) :=
  let handshake (i : Nat) (random : Vector UInt8 32) : List (Turn Nat) :=
    [.arrive (i + 7),.stream i {},.stream i (sent [86]),.stream i (sent (.replicate 32 1)),.stream i {},.stream i {},.stream i {},
      .stream i { now := 500 },.stream i { random },.stream i {}]
  let answered (i : Nat) : List (Turn Nat) :=
    [.stream i (sent [0,149]),.stream i (sent mintedBinding.encode),.stream i (sent answerSignature.toList),.stream i {},.stream i {},.stream i {}]
  [.other (.setAgentKeyPolicy { default := .enforce, issuers := [issuerKey] }),.sign issuerKey mintedBinding.binding.signingBytes] ++
    handshake 0 (.replicate 32 5) ++ [.sign agentKey answerBytes] ++ answered 0 ++ handshake 1 (.replicate 32 6) ++ answered 1

/- What precedes the token in the text that is signed. -/
def challengeFront (nonce : Vector UInt8 32) : Bytes := Preimage.delimited (asBytes "ct-agent-reg:v1") ++ nonce.toList

theorem challengeSigned (nonce : Vector UInt8 32) (token : Bytes) : (registrationChallengeBytes nonce token).take 51 = challengeFront nonce := by
  have size : (challengeFront nonce).length = 51 := by
    rw [challengeFront, List.length_append, Vector.length_toList]
    rfl
  have whole : registrationChallengeBytes nonce token = challengeFront nonce ++ Preimage.delimited token := by
    simp [registrationChallengeBytes, challengeFront, Preimage.finish]
  rw [whole, List.take_left' size]

theorem provingServed :
    (run sampleCrypto sampleChallenge proving).edge.registrations.live (.replicate 32 1) = [(1,7)] ∧ ∃ i h, Vouched sampleCrypto (fun _ => True)
      (acts sampleCrypto sampleChallenge proving) (run sampleCrypto sampleChallenge proving) (.replicate 32 1) (1,7) i h := by
  have passive : ∀ turn ∈ proving, turn.Passive := by
    simp [proving, Turn.Passive, Op.checked, Op.admits]
  have unforged : Unforged sampleCrypto (fun _ => True) (acts sampleCrypto sampleChallenge proving) := by
    have used : ∀ act ∈ acts sampleCrypto sampleChallenge proving, ∀ signature ∈ brought act, ∀ entry ∈ signatures, entry.2 = signature →
        entry.1 ∈ act.stamp := by decide +kernel
    intro act mem signature there key message _ verified
    exact used act mem signature there _ (of_decide_eq_true verified) rfl
  have unpredicted : Unpredicted (acts sampleCrypto sampleChallenge proving) := by
    have apart : ∀ act ∈ acts sampleCrypto sampleChallenge proving, ∀ nonce ∈ drawn act, ∀ entry ∈ act.stamp,
        entry.2.take 51 ≠ challengeFront nonce := by decide +kernel
    exact ⟨by decide +kernel,fun act mem nonce draws key token there => apart act mem nonce draws _ there (challengeSigned nonce token)⟩
  exact ⟨by decide +kernel,(agentKeyServed passive unforged unpredicted).1 _ (by decide +kernel) _ (by decide +kernel)⟩

end Runs
end CadsTunnel.Edge.Proofs
