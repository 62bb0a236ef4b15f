import CadsTunnel.EdgeConnections

/-! The loop over the control streams of an agent. It goes on as long as every stream
arrives in time, names a known role, is well formed and is answered; one that does not ends
it while the connection is open, and no later stream is read. -/
namespace CadsTunnel.Edge
open Program
open Bindings (Primitives)

/- The reads and the write of the key handshake: their failure is answered, not returned. -/
def Field.forgiving : Field → Bool
  | .nonce | .lenBytes | .bindingBytes | .signature => true
  | _ => false

section Fine
variable {H : Type} (crypto : Primitives) (challenge : Challenge)

/- What the handlers ask of the fields they read. -/
def Field.wellFormed {n : Nat} (field : Field) (bytes : Vector UInt8 n) : Prop :=
  match field with
  | .role => Char.ofNat (bytes.toList.headD 0).toNat ∈ ['A','V','C','D','H','P','W','R']
  | .hl => Words.readBE bytes.toList ≠ 0 ∧ Words.readBE bytes.toList ≤ 253
  | .host => (Words.fromUtf8 bytes.toList).isSome
  | .addrBuf => ((Words.fromUtf8 bytes.toList).bind SocketText.parse).isSome
  | .req => (checkRequest crypto challenge bytes.toList).toBool
  | _ => True

/- A reply that lets the stream go on. -/
def Fine : (c : Call H) → c.Reply → Prop
  | .acceptBi, r => r = .ok ()
  | .finish, r => r = .ok ()
  | .writeAll field _, r => field.forgiving ∨ r = .ok ()
  | .readExact field n, r => field.forgiving ∨ ∃ bytes : Vector UInt8 n, r = .ok bytes ∧ field.wellFormed crypto challenge bytes
  | .isResolvable _, r => r = true
  | .rendezvousAllowed _, r => r = true
  | .routes _, r => r ≠ []
  | .openBi _ others, r => others = [] → r = .ok ()
  | .relay _, r => ∃ counts, r = .ok counts
  | _, _ => True

abbrev Succeeds {α Error : Type} (x : Fallible (Call H) Call.Reply Error α) : Prop :=
  Paths (fun _ => True) (Fine crypto challenge) (fun r => ∃ a, r = .ok a) x.run

variable {crypto challenge}
variable {α : Type} {n : Nat}

theorem succeedsPure (a : α) : Succeeds crypto challenge (pure a : Serve H α) := ⟨a,rfl⟩

theorem succeedsQuery {c : Call H} {f : c.Reply → Serve H α}
    (next : ∀ reply, Fine crypto challenge c reply → Succeeds crypto challenge (f reply)) :
    Succeeds crypto challenge (query c >>= f) := ⟨trivial,next⟩

theorem succeedsTry {β : Type} {x : Serve H α} {f : α → Serve H β} (first : Succeeds crypto challenge x)
    (next : ∀ a, Succeeds crypto challenge (f a)) : Succeeds crypto challenge (x >>= f) := by
  refine pathsBind first ?_
  rintro r ⟨a,rfl⟩
  exact next a

/- Any program, as long as nothing depends on its end. -/
theorem pathsAny (p : Program (Call H) Call.Reply α) : Paths (fun _ => True) (Fine crypto challenge) (fun _ => True) p := by
  induction p with
  | done a => trivial
  | call c next ih => exact ⟨trivial,fun reply _ => ih reply⟩

theorem succeedsRead {field : Field} {f : Vector UInt8 n → Serve H α} (strict : field.forgiving = false)
    (next : ∀ bytes : Vector UInt8 n, field.wellFormed crypto challenge bytes → Succeeds crypto challenge (f bytes)) :
    Succeeds crypto challenge (readExact field n >>= f) := by
  refine pathsTry (fun bytes => field.wellFormed crypto challenge bytes) ?_ next
  refine ⟨trivial,?_⟩
  intro reply fine
  obtain ⟨bytes,rfl,form⟩ := fine.resolve_left (by simp [strict])
  exact form

theorem succeedsWithin {field : Field} {late : String} {f : Vector UInt8 n → Serve H α} (strict : field.forgiving = false)
    (next : ∀ bytes : Vector UInt8 n, field.wellFormed crypto challenge bytes → Succeeds crypto challenge (f bytes)) :
    Succeeds crypto challenge (query (Call.readExact field n) >>= fun read => within late read >>= f) := by
  refine succeedsQuery ?_
  intro reply fine
  obtain ⟨bytes,rfl,form⟩ := fine.resolve_left (by simp [strict])
  exact next bytes form

theorem succeedsWrite {field : Field} (strict : field.forgiving = false) (bytes : Words.Bytes) :
    Succeeds crypto challenge (writeAll field bytes : Serve H Unit) := by
  refine succeedsQuery ?_
  intro reply fine
  obtain rfl := fine.resolve_left (by simp [strict])
  exact ⟨(),rfl⟩

theorem succeedsFinish : Succeeds crypto challenge (finish : Serve H Unit) := by
  refine succeedsQuery ?_
  rintro reply rfl
  exact ⟨(),rfl⟩

theorem succeedsAnswer (text : String) : Succeeds crypto challenge (answer text : Serve H Unit) :=
  succeedsTry (succeedsWrite rfl _) (fun _ => succeedsFinish)

theorem succeedsRefusal : Succeeds crypto challenge (do answer "NO"; pure none : Serve H (Option (RoutingToken × Nat))) :=
  succeedsTry (succeedsAnswer _) (fun _ => succeedsPure _)

theorem succeedsAdmission (token : RoutingToken) (admitted : Except AgentKeyReason (Nat × List H)) :
    Succeeds crypto challenge (admission token admitted) := by
  rcases admitted with reason | ⟨reg,removed⟩
  · exact succeedsRefusal
  · refine succeedsTry ?_ (fun _ => succeedsTry (succeedsAnswer _) (fun _ => succeedsPure _))
    induction removed with
    | nil => exact succeedsPure ()
    | cons old rest ih => exact succeedsQuery (fun _ _ => ih)

theorem succeedsAgent : Succeeds crypto challenge (serveAgent : Serve H _) := by
  refine succeedsWithin rfl (fun token _ => ?_)
  refine succeedsQuery (fun remote _ => succeedsQuery (fun mode _ => ?_))
  exact succeedsQuery (fun admitted _ => succeedsAdmission token admitted)

theorem succeedsProven : Succeeds crypto challenge (serveProven crypto : Serve H _) := by
  refine succeedsWithin rfl (fun token _ => ?_)
  refine succeedsQuery (fun mode _ => succeedsQuery (fun issuers _ => ?_))
  refine succeedsQuery (fun remote _ => succeedsQuery (fun now _ => ?_))
  refine succeedsTry (pathsBind (pathsAny _) (fun proof _ => ⟨proof,rfl⟩)) (fun proof => ?_)
  split
  · exact succeedsRefusal
  · exact succeedsQuery (fun admitted _ => succeedsAdmission token admitted)

theorem succeedsOpen (total : Nat) (last : Failure) {agents : List H} (some' : agents ≠ []) :
    Succeeds crypto challenge (openFirst total last agents) := by
  induction agents generalizing last with
  | nil => exact absurd rfl some'
  | cons agent others ih =>
    refine succeedsQuery (fun opened fine => ?_)
    split
    · exact succeedsPure ()
    · refine ih _ (fun none' => ?_)
      exact nomatch fine none'

theorem succeedsStream (token : RoutingToken) : Succeeds crypto challenge (openAgentStream token : Serve H _) := by
  refine succeedsQuery (fun agents fine => ?_)
  split
  · exact absurd rfl fine
  · exact succeedsOpen _ _ fine

theorem succeedsRelayed (token : RoutingToken) : Succeeds crypto challenge (relayed token : Serve H _) := by
  refine succeedsQuery ?_
  rintro reply ⟨counts,rfl⟩
  exact succeedsQuery (fun _ _ => succeedsPure none)

theorem succeedsRoute (token : RoutingToken) : Succeeds crypto challenge (routeClient token : Serve H _) := by
  refine succeedsQuery (fun parked _ => ?_)
  split
  · refine succeedsQuery (fun slot _ => ?_)
    split
    · exact succeedsPure none
    · exact succeedsTry (succeedsStream token) (fun _ => succeedsRelayed token)
  · refine pathsTry (fun opened => ∃ done : Unit, opened = .ok done) (pathsBind (succeedsStream token) ?_) ?_
    · rintro opened ⟨done,rfl⟩
      exact ⟨done,rfl⟩
    · rintro opened ⟨done,rfl⟩
      exact succeedsRelayed token

theorem succeedsClient : Succeeds crypto challenge (serveClient crypto challenge : Serve H _) := by
  refine succeedsTry (succeedsWrite rfl _) (fun _ => succeedsWithin rfl (fun req proof => ?_))
  split
  case h_1 reason refused => exact absurd proof (by simp [Field.wellFormed, refused, Except.toBool])
  case h_2 token accepted =>
    refine succeedsQuery ?_
    rintro reply rfl
    refine succeedsQuery ?_
    rintro reply rfl
    exact succeedsRoute token

theorem succeedsDirect : Succeeds crypto challenge (serveDirect : Serve H _) := by
  refine succeedsRead rfl (fun token _ => succeedsRead rfl (fun al _ => succeedsRead rfl (fun addrBuf form => ?_)))
  refine succeedsRead rfl (fun cl _ => succeedsRead rfl (fun cert _ => ?_))
  split
  case h_1 invalid => exact absurd form (by simp [Field.wellFormed, invalid])
  case h_2 text valid =>
    split
    case h_1 invalid => exact absurd form (by simp [Field.wellFormed, valid, invalid])
    case h_2 => exact succeedsQuery (fun ok _ => succeedsTry (succeedsAnswer _) (fun _ => succeedsPure none))

theorem succeedsHost : Succeeds crypto challenge (serveHost : Serve H _) := by
  refine succeedsRead rfl (fun token _ => succeedsRead rfl (fun hl size => ?_))
  dsimp only
  split
  case isTrue invalid =>
    obtain empty | long := invalid
    · exact absurd empty size.1
    · exact absurd size.2 (Nat.not_le.mpr long)
  case isFalse =>
    refine succeedsRead rfl (fun host form => ?_)
    split
    case h_1 invalid => exact absurd form (by simp [Field.wellFormed, invalid])
    case h_2 =>
      refine succeedsQuery (fun allowed _ => ?_)
      split
      · exact succeedsRefusal
      · refine succeedsQuery (fun bound _ => ?_)
        split
        · exact succeedsTry (succeedsAnswer _) (fun _ => succeedsPure none)
        · exact succeedsRefusal

theorem succeedsDirectQuery : Succeeds crypto challenge (serveDirectQuery : Serve H _) := by
  refine succeedsRead rfl (fun token _ => succeedsQuery (fun endpoint _ => ?_))
  split
  · refine succeedsTry (succeedsWrite rfl _) (fun _ => succeedsTry (succeedsWrite rfl _) (fun _ => ?_))
    refine succeedsTry (succeedsWrite rfl _) (fun _ => succeedsTry (succeedsWrite rfl _) (fun _ => ?_))
    exact succeedsTry succeedsFinish (fun _ => succeedsPure none)
  · exact succeedsTry (succeedsWrite rfl _) (fun _ => succeedsTry succeedsFinish (fun _ => succeedsPure none))

theorem succeedsWhoami : Succeeds crypto challenge (serveWhoami : Serve H _) := by
  refine succeedsQuery (fun remote _ => ?_)
  refine succeedsTry (succeedsWrite rfl _) (fun _ => succeedsTry (succeedsWrite rfl _) (fun _ => ?_))
  exact succeedsTry succeedsFinish (fun _ => succeedsPure none)

theorem succeedsRevoke : Succeeds crypto challenge (serveRevoke : Serve H _) := by
  refine succeedsRead rfl (fun auth _ => succeedsRead rfl (fun token _ => succeedsQuery (fun ok _ => ?_)))
  split
  · exact succeedsQuery (fun _ _ => succeedsTry (succeedsAnswer _) (fun _ => succeedsPure none))
  · exact succeedsRefusal

theorem succeedsConnection : Succeeds crypto challenge (serveConnection crypto challenge : Serve H _) := by
  refine succeedsQuery ?_
  rintro reply rfl
  refine succeedsWithin rfl (fun role known => ?_)
  have byte : role.toList.headD 0 = role[0] := by
    obtain ⟨⟨list⟩,size⟩ := role
    obtain ⟨b,rfl⟩ := List.length_eq_one_iff.mp size
    rfl
  rw [Field.wellFormed, byte] at known
  unfold dispatch
  split
  · exact succeedsAgent
  · exact succeedsProven
  · exact succeedsClient
  · exact succeedsDirect
  · exact succeedsHost
  · exact succeedsDirectQuery
  · exact succeedsWhoami
  · exact succeedsRevoke
  · simp_all

end Fine

/- The agent that the first stream has registered, while the task knows it. -/
def Phase.agent {H : Type} : Phase H → Option (RoutingToken × Nat)
  | .later token reg _ => some (token,reg)
  | .waiting registered => registered
  | _ => none

def Phase.serving {H : Type} : Phase H → Bool
  | .first _ | .later .. => true
  | _ => false

namespace AcceptTask
variable {H : Type} [DecidableEq H] (crypto : Primitives) (challenge : Challenge) (me : H)

/- While the connection is open, every call of a later stream gets a reply that lets the stream go on. -/
def goesOn (t : AcceptTask H) : Event H → Prop
  | .turn world =>
    match t.phase with
    | .later _ _ (.call c _) => t.shared.isOpen → Fine crypto challenge c (perform crypto me t.shared c world).1
    | _ => True
  | _ => True

/- While the connection is open, the loop has not ended and will not with the stream at hand. -/
def Looping (phase : Phase H) : Prop :=
  match phase with
  | .later _ _ p => Paths (fun _ => True) (Fine crypto challenge) (fun served => ∃ next, served = .ok next) p
  | .waiting (some _) | .finished => False
  | _ => True

variable {crypto challenge me}

theorem performOpen {s : Shared H} {c : Call H} {world : World} (after : (perform crypto me s c world).2.isOpen) : s.isOpen := by
  cases c with
  | close old => exact (Bool.and_eq_true _ _ ▸ after : _ ∧ _).1
  | _ => exact after

theorem loopingTurn {t : AcceptTask H} {world : World} (met : goesOn crypto challenge me t (.turn world))
    (looping : t.shared.isOpen → Looping crypto challenge t.phase)
    (after : (t.turn crypto challenge me world).shared.isOpen) :
    Looping crypto challenge (t.turn crypto challenge me world).phase := by
  obtain ⟨s,phase⟩ := t
  match phase with
  | .first (.done served) =>
    rcases served with _ | _ | ⟨token,reg⟩
    · trivial
    · trivial
    · exact succeedsConnection
  | .first (.call c next) => trivial
  | .later token reg (.done served) =>
    obtain ⟨next,rfl⟩ := looping after
    exact succeedsConnection
  | .later token reg (.call c next) =>
    have before := performOpen after
    exact (looping before).2 _ (met before)
  | .grace => exact absurd after (by simp [turn])
  | .waiting registered =>
    simp only [turn] at after ⊢
    split at after
    case isTrue isOpen =>
      rw [if_pos isOpen]
      exact looping isOpen
    case isFalse closed => exact absurd after closed
  | .finished => exact looping after

theorem loopingStep {t : AcceptTask H} {event : Event H} (met : goesOn crypto challenge me t event)
    (looping : t.shared.isOpen → Looping crypto challenge t.phase)
    (after : (step crypto challenge me t event).2.shared.isOpen) :
    Looping crypto challenge (step crypto challenge me t event).2.phase := by
  cases event with
  | turn world => exact loopingTurn met looping after
  | other op =>
    simp only [step] at after ⊢
    split
    case isTrue own =>
      rw [if_pos own] at after
      exact looping after
    case isFalse foreign =>
      rw [if_neg foreign] at after
      exact looping after
  | disconnect => exact absurd after (by simp [step])

variable (crypto challenge me)

/- In every state in which the connection is open the task has not finished, and if the first stream registered an agent it is
in the loop. -/
theorem controlStreamsServed {events : List (Event H)}
    (met : Machine.along (step crypto challenge me) (goesOn crypto challenge me) (start crypto challenge) events)
    (isOpen : (run crypto challenge me events).shared.isOpen) :
    (run crypto challenge me events).phase.isFinished = false ∧
    ∀ agent, (run crypto challenge me events).phase.agent = some agent → (run crypto challenge me events).phase.serving := by
  have first : (start crypto challenge : AcceptTask H).shared.isOpen →
      Looping crypto challenge (start crypto challenge : AcceptTask H).phase := fun _ => trivial
  have looping : (run crypto challenge me events).shared.isOpen → Looping crypto challenge (run crypto challenge me events).phase :=
    Machine.runAlong (fun t : AcceptTask H => t.shared.isOpen → Looping crypto challenge t.phase)
      (fun _ _ met looping => loopingStep met looping) first met
  have last := looping isOpen
  generalize (run crypto challenge me events).phase = phase at last
  match phase with
  | .first p => exact ⟨rfl,nofun⟩
  | .later token reg p => exact ⟨rfl,fun _ _ => rfl⟩
  | .grace => exact ⟨rfl,nofun⟩
  | .waiting none => exact ⟨rfl,nofun⟩
  | .waiting (some agent) => exact absurd last id
  | .finished => exact absurd last id

/- An agent registers and then binds the hostname `a.b` on a stream of its own. -/
theorem hostBindServed :
    let t := run sampleCrypto sampleChallenge (0 : Nat)
      (registersAs 65 ++ [ready,hears [72],hears (.replicate 32 1),hears [0,3],hears [97,46,98],ready,ready,ready,ready,ready])
    t.phase.isFinished = false ∧ ∀ agent, t.phase.agent = some agent → t.phase.serving :=
  controlStreamsServed sampleCrypto sampleChallenge 0
    ⟨trivial,trivial,trivial,trivial,trivial,trivial,trivial,trivial,trivial,
      fun _ => rfl,fun _ => .inr ⟨_,rfl,by unfold Field.wellFormed; decide +kernel⟩,fun _ => .inr ⟨_,rfl,trivial⟩,
      fun _ => .inr ⟨_,rfl,by unfold Field.wellFormed; decide +kernel⟩,
      fun _ => .inr ⟨_,rfl,by unfold Field.wellFormed; decide +kernel⟩,
      fun _ => trivial,fun _ => trivial,fun _ => .inr rfl,fun _ => rfl,trivial,trivial⟩
    (by decide +kernel)

/- Ten seconds without a further stream end the loop; the connection is open and nobody reads the hostname bind that follows. -/
theorem idleStreamsUnread : ¬∀ events : List (Event Nat), (run sampleCrypto sampleChallenge 0 events).shared.isOpen →
    ∀ agent, (run sampleCrypto sampleChallenge 0 events).phase.agent = some agent →
      (run sampleCrypto sampleChallenge 0 events).phase.serving := by
  intro served
  have reads := served (registersAs 65 ++ [.turn { transport := .error .elapsed },ready]) (by decide +kernel) (.replicate 32 1,1)
    (by decide +kernel)
  exact absurd reads (by decide +kernel)

end AcceptTask
end CadsTunnel.Edge
