import CadsTunnel.EdgeServe

/-! Registrations and the connections they were made through. A task whose first stream is
the only one that registers, and whose answer to it arrives, takes that registration with
it when it ends. A later stream that registers again, or an answer that is lost, leaves one
behind. -/
namespace CadsTunnel.Edge
open Program
open Bindings (Primitives)

section Held
variable {H : Type} (me : H)

/- No registration of this connection, and at most one. -/
def Unheld (s : Shared H) : Prop := ∀ token id, (id,me) ∉ s.edge.registrations.live token

def HeldOnly (token : RoutingToken) (id : Nat) (s : Shared H) : Prop :=
  ∀ other i, (i,me) ∈ s.edge.registrations.live other → other = token ∧ i = id

/- What the others may do to the registrations of this connection: remove them. -/
def Fewer (s m : Shared H) : Prop := ∀ token id, (id,me) ∈ m.edge.registrations.live token → (id,me) ∈ s.edge.registrations.live token

theorem fewerRefl (s : Shared H) : Fewer me s s := fun _ _ mem => mem

theorem fewerTrans (a b c : Shared H) (first : Fewer me a b) (next : Fewer me b c) : Fewer me a c :=
  fun token id mem => first token id (next token id mem)

variable {me}

theorem unheldFewer {s m : Shared H} (fewer : Fewer me s m) (unheld : Unheld me s) : Unheld me m :=
  fun token id mem => unheld token id (fewer token id mem)

theorem heldFewer {token : RoutingToken} {id : Nat} {s m : Shared H} (fewer : Fewer me s m) (held : HeldOnly me token id s) :
    HeldOnly me token id m := fun other i mem => held other i (fewer other i mem)

theorem heldUnheld {s : Shared H} (unheld : Unheld me s) (token : RoutingToken) (id : Nat) : HeldOnly me token id s :=
  fun other i mem => absurd mem (unheld other i)

/- An entry that a step leaves was there before, or it is its own. -/
theorem liveRearranged {handle : Option H} {r next : Registrations H} (change : Rearranged handle r next) {token : RoutingToken}
    {e : Nat × H} (mem : e ∈ next.live token) : e ∈ r.live token ∨ handle = some e.2 := by
  induction change with
  | same => exact .inl mem
  | registered before own owner ih =>
    rw [Registrations.liveRegister] at mem
    split at mem
    case isTrue same =>
      subst same
      obtain old | rfl := (List.mem_append.mp mem).imp_right List.mem_singleton.mp
      · exact ih old
      · exact .inr own
    case isFalse => exact ih mem
  | removedId before owner id ih =>
    rw [Registrations.liveRemoveId] at mem
    split at mem
    case isTrue same => subst same; exact ih (List.mem_filter.mp mem).1
    case isFalse => exact ih mem
  | removedAll before owner ih =>
    rw [Registrations.liveRemoveAll] at mem
    split at mem
    case isTrue => exact absurd mem List.not_mem_nil
    case isFalse => exact ih mem
  | evicted before owner proven ih =>
    rw [Registrations.liveEvict] at mem
    split at mem
    case isTrue same => subst same; exact ih (List.mem_filter.mp mem).1
    case isFalse => exact ih mem

theorem fewerApply (crypto : Primitives) {s m : Shared H} (op : Op H) (foreign : op.handle ≠ some me)
    (applied : m.edge = s.edge.apply (agentKeyTokenHash crypto) op) : Fewer me s m := by
  intro token id mem
  rw [applied] at mem
  exact (liveRearranged (EdgeState.rearranged _ s.edge op) mem).resolve_right foreign

end Held

def Call.registers {H : Type} : Call H → Prop
  | .registerWithCandidateChecked .. => True
  | _ => False

section Calls
variable {H : Type} [DecidableEq H] {crypto : Primitives} {me : H}

theorem fewerPerform (s : Shared H) {c : Call H} (world : World) (quiet : ¬c.registers) :
    Fewer me s (perform crypto me s c world).2 := by
  cases c with
  | registerWithCandidateChecked => exact absurd trivial quiet
  | deliverToTcpAgentDraining token =>
    exact fewerApply crypto (.deliverToTcpAgentDraining token world.late) nofun rfl
  | advertiseDirect token addr cert => exact fewerApply crypto (.advertiseDirect token addr cert world.order) nofun rfl
  | registerHost host token => exact fewerApply crypto (.registerHost host token) nofun rfl
  | revokeToken token => exact fewerApply crypto (.revokeToken token world.now) nofun rfl
  | _ => exact fewerRefl me s

end Calls

section Quiet
variable {H : Type}

/- Programs that make no registering call, whatever they are answered. -/
def Quiet {α : Type} (p : Program (Call H) Call.Reply α) : Prop := Paths (fun c => ¬c.registers) (fun _ _ => True) (fun _ => True) p

variable {α β Error : Type}

theorem quietTry {x : Fallible (Call H) Call.Reply Error α} {f : α → Fallible (Call H) Call.Reply Error β} (first : Quiet x.run)
    (next : ∀ a, Quiet (f a).run) : Quiet (x >>= f).run := by
  refine pathsBind first ?_
  rintro (e | a) _
  · trivial
  · exact next a

theorem quietQuery {c : Call H} {f : c.Reply → Fallible (Call H) Call.Reply Error β} (quiet : ¬c.registers)
    (next : ∀ reply, Quiet (f reply).run) : Quiet (query c >>= f).run := ⟨quiet,fun reply _ => next reply⟩

theorem quietWithin (late : String) (r : Except Failure α) : Quiet (within late r : Serve H α).run := by
  rcases r with (_ | _) | _ <;> trivial

theorem quietUntimed (r : Except Failure α) : Quiet (untimed r : Serve H α).run := by
  cases r <;> trivial

theorem quietRead (field : Field) (n : Nat) : Quiet (readExact field n : Serve H _).run :=
  quietQuery not_false (fun _ => quietUntimed _)

theorem quietWrite (field : Field) (bytes : Words.Bytes) : Quiet (writeAll field bytes : Serve H _).run :=
  quietQuery not_false (fun _ => quietUntimed _)

theorem quietFinish : Quiet (finish : Serve H _).run := quietQuery not_false (fun _ => quietUntimed _)

theorem quietAnswer (text : String) : Quiet (answer text : Serve H _).run :=
  quietTry (quietWrite _ _) (fun _ => quietFinish)

theorem quietRefusal : Quiet (do answer "NO"; pure none : Serve H (Option (RoutingToken × Nat))).run :=
  quietTry (quietAnswer _) (fun _ => trivial)

theorem quietHandshake {α : Type} (r : Except Failure α) :
    Quiet (handshake r : Fallible (Call H) Call.Reply AgentKeyReason α).run := by
  cases r <;> trivial

theorem quietProve (crypto : Primitives) (token : RoutingToken) (issuers : List Key) (now : UInt64) :
    Quiet (proveAgentKey crypto token issuers now : Fallible (Call H) Call.Reply AgentKeyReason ProvenKey).run := by
  refine quietQuery not_false (fun nonce => ?_)
  refine quietQuery not_false (fun written => quietTry (quietHandshake written) (fun _ => ?_))
  refine quietQuery not_false (fun read => quietTry (quietHandshake read) (fun lenBytes => ?_))
  dsimp only
  split
  · trivial
  · refine quietQuery not_false (fun read => quietTry (quietHandshake read) (fun bindingBytes => ?_))
    refine quietQuery not_false (fun read => quietTry (quietHandshake read) (fun signature => ?_))
    split
    · trivial
    · split <;> trivial

theorem quietOpen (total : Nat) (last : Failure) (agents : List H) : Quiet (openFirst total last agents).run := by
  induction agents generalizing last with
  | nil => trivial
  | cons agent others ih =>
    refine quietQuery not_false (fun opened => ?_)
    split
    · trivial
    · exact ih _

theorem quietStream (token : RoutingToken) : Quiet (openAgentStream token : Serve H _).run := by
  refine quietQuery not_false (fun agents => ?_)
  split
  · trivial
  · exact quietOpen _ _ _

theorem quietRelayed (token : RoutingToken) : Quiet (relayed token : Serve H _).run := by
  refine quietQuery not_false (fun copied => quietTry (quietUntimed copied) (fun _ => ?_))
  exact quietQuery not_false (fun _ => trivial)

theorem quietRoute (token : RoutingToken) : Quiet (routeClient token : Serve H _).run := by
  refine quietQuery not_false (fun parked => ?_)
  split
  · refine quietQuery not_false (fun slot => ?_)
    split
    · trivial
    · exact quietTry (quietStream token) (fun _ => quietRelayed token)
  · refine quietTry (x := ExceptT.lift _) (pathsBind (quietStream token) (fun _ _ => trivial)) (fun opened => ?_)
    split
    · exact quietRelayed token
    · refine quietTry ?_ (fun delivered => ?_)
      · refine quietQuery not_false (fun found => ?_)
        split
        · exact quietQuery not_false (fun _ => trivial)
        · trivial
      · split
        · trivial
        · exact quietQuery not_false (fun _ => trivial)

theorem quietClient (crypto : Primitives) (challenge : Challenge) : Quiet (serveClient crypto challenge : Serve H _).run := by
  refine quietTry (quietWrite _ _) (fun _ => ?_)
  refine quietQuery not_false (fun read => quietTry (quietWithin _ read) (fun req => ?_))
  split
  · trivial
  · refine quietQuery not_false (fun resolvable => ?_)
    split
    · trivial
    · refine quietQuery not_false (fun allowed => ?_)
      split
      · trivial
      · exact quietRoute _

theorem quietDirect : Quiet (serveDirect : Serve H _).run := by
  refine quietTry (quietRead _ _) (fun token => quietTry (quietRead _ _) (fun al => ?_))
  refine quietTry (quietRead _ _) (fun addrBuf => quietTry (quietRead _ _) (fun cl => ?_))
  refine quietTry (quietRead _ _) (fun cert => ?_)
  split
  · trivial
  · split
    · trivial
    · exact quietQuery not_false (fun ok => quietTry (quietAnswer _) (fun _ => trivial))

theorem quietHost : Quiet (serveHost : Serve H _).run := by
  refine quietTry (quietRead _ _) (fun token => quietTry (quietRead _ _) (fun hl => ?_))
  dsimp only
  split
  · trivial
  · refine quietTry (quietRead _ _) (fun host => ?_)
    split
    · trivial
    · refine quietQuery not_false (fun allowed => ?_)
      split
      · exact quietRefusal
      · refine quietQuery not_false (fun bound => ?_)
        split
        · exact quietTry (quietAnswer _) (fun _ => trivial)
        · exact quietRefusal

theorem quietDirectQuery : Quiet (serveDirectQuery : Serve H _).run := by
  refine quietTry (quietRead _ _) (fun token => quietQuery not_false (fun endpoint => ?_))
  split
  · refine quietTry (quietWrite _ _) (fun _ => quietTry (quietWrite _ _) (fun _ => ?_))
    refine quietTry (quietWrite _ _) (fun _ => quietTry (quietWrite _ _) (fun _ => ?_))
    exact quietTry quietFinish (fun _ => trivial)
  · exact quietTry (quietWrite _ _) (fun _ => quietTry quietFinish (fun _ => trivial))

theorem quietWhoami : Quiet (serveWhoami : Serve H _).run := by
  refine quietQuery not_false (fun remote => quietTry (quietWrite _ _) (fun _ => quietTry (quietWrite _ _) (fun _ => ?_)))
  exact quietTry quietFinish (fun _ => trivial)

theorem quietRevoke : Quiet (serveRevoke : Serve H _).run := by
  refine quietTry (quietRead _ _) (fun auth => quietTry (quietRead _ _) (fun token => quietQuery not_false (fun ok => ?_)))
  split
  · exact quietQuery not_false (fun _ => quietTry (quietAnswer _) (fun _ => trivial))
  · exact quietRefusal

end Quiet

section First
variable {H : Type} [DecidableEq H] (crypto : Primitives) (me : H)

/- A write or a finish that fails. -/
def Call.breaks {H : Type} (c : Call H) (world : World) : Bool :=
  match c with
  | .writeAll .. | .finish => !world.transport.toBool
  | _ => false

/- While the connection has a registration, the answer arrives. -/
def Acknowledged (s : Shared H) (c : Call H) (world : World) : Prop := c.breaks world → Unheld me s

/- What the first stream leaves: the registration it returns, or none. -/
def Returned : Served → Shared H → Prop
  | .ok (some (token,reg)), s => HeldOnly me token reg s
  | _, s => Unheld me s

abbrev Leaves {α : Type} (post : α → Shared H → Prop) (p : Program (Call H) Call.Reply α) (s : Shared H) : Prop :=
  Holds (perform crypto me) (Fewer me) (Acknowledged me) post p s

variable {crypto me}

omit [DecidableEq H] in
theorem returnedUnheld (served : Served) {s : Shared H} (unheld : Unheld me s) : Returned me served s := by
  rcases served with _ | _ | ⟨token,reg⟩
  · exact unheld
  · exact unheld
  · exact heldUnheld unheld token reg

theorem leavesQuiet {α : Type} {post : α → Shared H → Prop} {p : Program (Call H) Call.Reply α} (quiet : Quiet p) {s : Shared H}
    (unheld : Unheld me s) (weaker : ∀ a s, Unheld me s → post a s) : Leaves crypto me post p s := by
  refine holdsMono (fun a s both => weaker a s both.2) (holdsPaths (Unheld me) ?_ ?_ (fun _ _ _ => trivial) quiet unheld)
  · exact fun s m fewer => unheldFewer fewer
  · exact fun s c world allowed => unheldFewer (fewerPerform s world allowed)

/- A quiet part before the registration. -/
theorem leavesThen {α : Type} {x : Serve H α} {f : α → Serve H (Option (RoutingToken × Nat))} (quiet : Quiet x.run) {s : Shared H}
    (unheld : Unheld me s) (next : ∀ a m, Unheld me m → Leaves crypto me (Returned me) (f a).run m) :
    Leaves crypto me (Returned me) (x >>= f).run s := by
  refine holdsTry (fun _ s => Unheld me s) (leavesQuiet quiet unheld ?_) next
  rintro (e | a) m holds
  · exact holds
  · exact holds

theorem leavesQuery {c : Call H} {f : c.Reply → Serve H (Option (RoutingToken × Nat))} (quiet : ¬c.registers) {s : Shared H}
    (unheld : Unheld me s) (next : ∀ reply m, Unheld me m → Leaves crypto me (Returned me) (f reply).run m) :
    Leaves crypto me (Returned me) (query c >>= f).run s := by
  have alone : Quiet (query c : Serve H c.Reply).run := ⟨quiet,fun _ _ => trivial⟩
  exact leavesThen alone unheld next

/- What the answer to a registration leaves. -/
def Acked (me : H) (token : RoutingToken) (reg : Nat) : Except ServeError Unit → Shared H → Prop
  | .ok _, s => HeldOnly me token reg s
  | .error _, s => Unheld me s

theorem leavesSent {token : RoutingToken} {reg : Nat} {s : Shared H} (held : HeldOnly me token reg s) {world : World}
    (met : world.transport.toBool = false → Unheld me s) :
    Leaves crypto me (Acked me token reg) (untimed world.transport).run s := by
  cases sent : world.transport with
  | error e => exact met (by rw [sent]; rfl)
  | ok => exact held

theorem leavesAnswer {token : RoutingToken} {reg : Nat} (text : String) {s : Shared H} (held : HeldOnly me token reg s) :
    Leaves crypto me (Acked me token reg) (answer text).run s := by
  refine holdsTry (fun _ s => HeldOnly me token reg s) ?_ ?_
  · refine holdsQuery (fun m world fewer met => ?_)
    refine holdsMono ?_ (leavesSent (heldFewer fewer held) (fun failed => met (by simp [Call.breaks, failed])))
    rintro (e | a) n holds <;> exact holds
  · intro _ n heldNow
    refine holdsQuery (fun m world fewer met => ?_)
    exact leavesSent (heldFewer fewer heldNow) (fun failed => met (by simp [Call.breaks, failed]))

theorem leavesClosed {token : RoutingToken} {reg : Nat} (removed : List H) {s : Shared H} (held : HeldOnly me token reg s) :
    Leaves crypto me (Acked me token reg) (removed.forM (fun old => (query (Call.close old) : Serve H Unit))).run s := by
  induction removed generalizing s with
  | nil => exact held
  | cons old rest ih =>
    refine holdsQuery (fun m world fewer met => ?_)
    exact ih (heldFewer fewer held)

/- What the registering call leaves. -/
def Admitted (me : H) (token : RoutingToken) : Except AgentKeyReason (Nat × List H) → Shared H → Prop
  | .error _, s => Unheld me s
  | .ok (reg,_), s => HeldOnly me token reg s

theorem leavesAdmission {token : RoutingToken} {admitted : Except AgentKeyReason (Nat × List H)} {s : Shared H}
    (outcome : Admitted me token admitted s) :
    Leaves crypto me (Returned me) (admission token admitted).run s := by
  rcases admitted with reason | ⟨reg,removed⟩
  · exact leavesQuiet quietRefusal outcome (fun served m => returnedUnheld served)
  · refine holdsTry (fun _ s => HeldOnly me token reg s) ?_ ?_
    · refine holdsMono ?_ (leavesClosed removed outcome)
      rintro (e | a) n holds <;> exact holds
    · intro _ n heldNow
      refine holdsTry (fun _ s => HeldOnly me token reg s) ?_ (fun _ _ last => last)
      refine holdsMono ?_ (leavesAnswer "OK" heldNow)
      rintro (e | a) m holds <;> exact holds

/- The one call that registers, from a state without a registration of this connection. -/
theorem performRegister {s : Shared H} (unheld : Unheld me s) (token : RoutingToken) (candidate : SocketAddr) (mode : AgentKeyMode)
    (proof : Option ProvenKey) (world : World) :
    Admitted me token (perform crypto me s (.registerWithCandidateChecked token candidate mode proof) world).1
      (perform crypto me s (.registerWithCandidateChecked token candidate mode proof) world).2 := by
  obtain ⟨_,_,_,⟨⟨reason,refused⟩,same,_⟩ | ⟨r,origin,⟨removed,given⟩,registered,_⟩⟩ :=
    EdgeState.checkedParts (agentKeyTokenHash crypto) s.edge token me candidate mode proof world.now rfl
  · simp only [perform, refused]
    intro other i mem
    rw [same] at mem
    exact unheld other i mem
  · simp only [perform, given]
    intro other i mem
    rw [registered, Registrations.liveRegister] at mem
    have before : ∀ entry ∈ r.live other, entry.2 ≠ me := by
      rintro ⟨j,h⟩ listed rfl
      obtain rfl | rfl := origin
      · exact unheld other j listed
      · rw [Registrations.liveRemoveAll] at listed
        split at listed
        · exact absurd listed List.not_mem_nil
        · exact unheld other j listed
    split at mem
    case isTrue same =>
      subst same
      obtain old | own := (List.mem_append.mp mem).imp_right List.mem_singleton.mp
      · exact absurd rfl (before _ old)
      · exact ⟨rfl,congrArg Prod.fst own⟩
    case isFalse => exact absurd rfl (before _ mem)

theorem leavesRegister {token : RoutingToken} {candidate : SocketAddr} {mode : AgentKeyMode} {proof : Option ProvenKey}
    {s : Shared H} (unheld : Unheld me s) :
    Leaves crypto me (Returned me) (query (Call.registerWithCandidateChecked token candidate mode proof) >>= admission token).run s :=
  holdsQuery (fun _ world fewer _ => leavesAdmission (performRegister (unheldFewer fewer unheld) token candidate mode proof world))

theorem leavesAgent {s : Shared H} (unheld : Unheld me s) : Leaves crypto me (Returned me) serveAgent.run s := by
  refine leavesQuery (by exact not_false) unheld (fun read m unheld => ?_)
  refine leavesThen (quietWithin _ read) unheld (fun token m unheld => ?_)
  refine leavesQuery (by exact not_false) unheld (fun remote m unheld => ?_)
  refine leavesQuery (by exact not_false) unheld (fun mode m unheld => ?_)
  exact leavesRegister unheld

theorem leavesProven {s : Shared H} (unheld : Unheld me s) : Leaves crypto me (Returned me) (serveProven crypto).run s := by
  refine leavesQuery (by exact not_false) unheld (fun read m unheld => ?_)
  refine leavesThen (quietWithin _ read) unheld (fun token m unheld => ?_)
  refine leavesQuery (by exact not_false) unheld (fun mode m unheld => ?_)
  refine leavesQuery (by exact not_false) unheld (fun issuers m unheld => ?_)
  refine leavesQuery (by exact not_false) unheld (fun remote m unheld => ?_)
  refine leavesQuery (by exact not_false) unheld (fun now m unheld => ?_)
  refine leavesThen (x := ExceptT.lift _) (pathsBind (quietProve crypto token issuers now) (fun _ _ => trivial)) unheld
    (fun proof m unheld => ?_)
  split
  · exact leavesQuiet quietRefusal unheld (fun served m => returnedUnheld served)
  · exact leavesRegister unheld

theorem leavesConnection (challenge : Challenge) {s : Shared H} (unheld : Unheld me s) :
    Leaves crypto me (Returned me) (serveConnection crypto challenge).run s := by
  have others : ∀ {x : Serve H (Option (RoutingToken × Nat))}, Quiet x.run → ∀ {m}, Unheld me m →
      Leaves crypto me (Returned me) x.run m :=
    fun quiet _ unheld => leavesQuiet quiet unheld (fun served m => returnedUnheld served)
  refine leavesQuery (by exact not_false) unheld (fun accepted m unheld => ?_)
  refine leavesThen (quietWithin _ accepted) unheld (fun _ m unheld => ?_)
  refine leavesQuery (by exact not_false) unheld (fun read m unheld => ?_)
  refine leavesThen (quietWithin _ read) unheld (fun role m unheld => ?_)
  unfold dispatch
  split
  · exact leavesAgent unheld
  · exact leavesProven unheld
  · exact others (quietClient crypto challenge) unheld
  · exact others quietDirect unheld
  · exact others quietHost unheld
  · exact others quietDirectQuery unheld
  · exact others quietWhoami unheld
  · exact others quietRevoke unheld
  · exact others (by trivial) unheld

end First

namespace EdgeState
variable {H : Type} (agentKeyTokenHash : RoutingToken → Key)

/- A registration that is turned away: the token is revoked, or it enforces keys and the proof is missing or does not fit
its pin. -/
def refuses (s : EdgeState H) (token : RoutingToken) (mode : AgentKeyMode) (proof : Option ProvenKey) : Prop :=
  s.isRevoked token ∨ s.agentKeyModeLocked agentKeyTokenHash token mode = .enforce ∧
    ∀ key, proof = some key → ∃ reason, (pinProven (s.agentPins[token]?.getD {}) key).1 = .rejected reason

theorem refusedKeeps {s : EdgeState H} {token : RoutingToken} {mode : AgentKeyMode} {proof : Option ProvenKey}
    (refused : s.refuses agentKeyTokenHash token mode proof) (handle : H) (candidate : SocketAddr) (now : UInt64) :
    (s.registerWithCandidateChecked agentKeyTokenHash token handle candidate mode proof now).2.registrations = s.registrations := by
  simp only [registerWithCandidateChecked]
  split
  case isTrue => rfl
  case isFalse valid =>
    obtain ⟨enforced,unfit⟩ := refused.resolve_left valid
    cases proof with
    | none => rw [if_pos enforced]
    | some key =>
      obtain ⟨reason,rejected⟩ := unfit key rfl
      simp only [pinProvenLocked, rejected]
      rw [if_pos enforced]

end EdgeState

namespace AcceptTask
variable {H : Type} [DecidableEq H] (crypto : Primitives) (challenge : Challenge) (me : H)

/- The answer to the registration of the first stream arrives, and no later stream registers. -/
def disposes (t : AcceptTask H) : Event H → Prop
  | .turn world =>
    match t.phase with
    | .first (.call c _) => Acknowledged me t.shared c world
    | .later _ _ (.call (.registerWithCandidateChecked token _ mode proof) _) =>
      t.shared.edge.refuses (agentKeyTokenHash crypto) token mode proof
    | _ => True
  | _ => True

/- What each phase still has to give back. -/
def Owes : Phase H → Shared H → Prop
  | .first p, s => Leaves crypto me (Returned me) p s
  | .later token reg _, s => HeldOnly me token reg s
  | .waiting (some (token,reg)), s => HeldOnly me token reg s
  | _, s => Unheld me s

variable {crypto challenge me}

theorem owesFewer {phase : Phase H} {s m : Shared H} (fewer : Fewer me s m) (owes : Owes crypto me phase s) :
    Owes crypto me phase m := by
  have stable : ∀ served s m, Fewer me s m → Returned me served s → Returned me served m := by
    rintro (_ | _ | ⟨token,reg⟩) s m fewer returned
    · exact unheldFewer fewer returned
    · exact unheldFewer fewer returned
    · exact heldFewer fewer returned
  match phase with
  | .first p => exact holdsStable (fewerTrans me) stable fewer owes
  | .later token reg p => exact heldFewer fewer owes
  | .waiting (some (token,reg)) => exact heldFewer fewer owes
  | .waiting none => exact unheldFewer fewer owes
  | .grace => exact unheldFewer fewer owes
  | .finished => exact unheldFewer fewer owes

omit [DecidableEq H] in
theorem owesEvicted {token : RoutingToken} {reg : Nat} {s : Shared H} (held : HeldOnly me token reg s) (now : UInt64) :
    Unheld me { s with edge := s.edge.removeRegistration token reg now } := by
  intro other i mem
  obtain ⟨_,left,_⟩ := EdgeState.removeRegistrationParts s.edge token reg now rfl
  simp only [left, Registrations.liveRemoveId] at mem
  split at mem
  case isTrue same =>
    subst same
    obtain ⟨listed,other⟩ := List.mem_filter.mp mem
    exact absurd (held _ i listed).2 (by simpa using other)
  case isFalse different => exact different (held other i mem).1

theorem owesTurn {t : AcceptTask H} {world : World} (met : disposes crypto me t (.turn world))
    (owes : Owes crypto me t.phase t.shared) :
    Owes crypto me (t.turn crypto challenge me world).phase (t.turn crypto challenge me world).shared := by
  obtain ⟨s,phase⟩ := t
  match phase with
  | .first (.done served) =>
    rcases served with _ | _ | ⟨token,reg⟩
    · exact owes
    · exact owes
    · exact owes
  | .first (.call c next) => exact owes s world (fewerRefl me s) met
  | .later token reg (.done served) =>
    cases served with
    | error e => exact owes
    | ok next => exact owes
  | .later token reg (.call c next) =>
    by_cases registers : c.registers
    · cases c with
      | registerWithCandidateChecked owner candidate mode proof =>
        have same := EdgeState.refusedKeeps (agentKeyTokenHash crypto) met me candidate world.now
        intro other i mem
        simp only [turn, perform, same] at mem
        exact owes other i mem
      | _ => exact absurd registers not_false
    · exact heldFewer (fewerPerform s world registers) owes
  | .grace => exact owes
  | .waiting registered =>
    simp only [turn]
    split
    · exact owes
    · cases registered with
      | none => exact owes
      | some held => exact owesEvicted owes world.now
  | .finished => exact owes

theorem owesStep {t : AcceptTask H} {event : Event H} (met : disposes crypto me t event) (owes : Owes crypto me t.phase t.shared) :
    Owes crypto me (step crypto challenge me t event).2.phase (step crypto challenge me t event).2.shared := by
  cases event with
  | turn world => exact owesTurn met owes
  | other op =>
    simp only [step]
    split
    case isTrue => exact owes
    case isFalse foreign => exact owesFewer (fewerApply crypto op foreign rfl) owes
  | disconnect =>
    have fewer : Fewer me t.shared { t.shared with isOpen := false } := fun _ _ mem => mem
    exact owesFewer fewer owes

variable (crypto challenge me)

theorem registrationsEvicted {events : List (Event H)}
    (met : Machine.along (step crypto challenge me) (disposes crypto me) (start crypto challenge) events)
    (ended : (run crypto challenge me events).phase.isFinished) :
    ∀ token id, (id,me) ∉ (run crypto challenge me events).shared.edge.registrations.live token := by
  have fresh : Unheld me ({} : Shared H) := fun _ _ mem => nomatch mem
  have first : Owes crypto me (start crypto challenge : AcceptTask H).phase (start crypto challenge : AcceptTask H).shared :=
    leavesConnection challenge fresh
  have owes : Owes crypto me (run crypto challenge me events).phase (run crypto challenge me events).shared :=
    Machine.runAlong (fun t : AcceptTask H => Owes crypto me t.phase t.shared) (fun _ _ met owes => owesStep met owes) first met
  revert owes ended
  cases (run crypto challenge me events).phase with
  | finished => exact fun _ unheld => unheld
  | first p => exact fun ended => nomatch ended
  | later token reg p => exact fun ended => nomatch ended
  | grace => exact fun ended => nomatch ended
  | waiting registered => exact fun ended => nomatch ended

/- Turns for the runs below: a call that goes well, bytes that arrive, and a failing transport. -/
def ready : Event H := .turn {}
def hears (bytes : Words.Bytes) : Event H := .turn { received := fun _ => .ok (.ofFn (fun i => bytes.getD i 0)) }
def broken : Event H := .turn { transport := .error .broken }

/- An agent's stream: the role, the token 0101..01, the look at the policy, the registration and its answer. -/
def registersAs (role : UInt8) : List (Event H) := [ready,hears [role],hears (.replicate 32 1),ready,ready,ready,ready,ready,ready]

/- The hash is the one of that token. -/
def sampleCrypto : Primitives where
  sha256 _ := EdgeState.sampleHash (.replicate 32 1)
  validKey _ := true
  verifyStrict _ _ _ := false

def sampleChallenge : Challenge := ⟨.replicate 16 0,16⟩

/- One registration, the end of the connection, and the eviction; another agent's registration stays. -/
theorem registrationEvicted :
    let t := run sampleCrypto sampleChallenge (0 : Nat)
      (registersAs 65 ++ [.other (.register (.replicate 32 1) 1 5),.disconnect,broken,ready,ready])
    t.shared.edge.registrations.live (.replicate 32 1) = [(2,1)] ∧ ∀ token id, (id,0) ∉ t.shared.edge.registrations.live token :=
  ⟨by decide +kernel,registrationsEvicted sampleCrypto sampleChallenge 0
    ⟨nofun,nofun,nofun,nofun,nofun,nofun,nofun,nofun,trivial,trivial,trivial,trivial,trivial,trivial,trivial⟩
    (by decide +kernel)⟩

theorem registrationLeaked : ¬∀ events : List (Event Nat), (run sampleCrypto sampleChallenge 0 events).phase.isFinished →
    ∀ token id, (id,0) ∉ (run sampleCrypto sampleChallenge 0 events).shared.edge.registrations.live token := by
  intro evicted
  have gone := evicted (registersAs 65 ++ registersAs 65 ++ [.disconnect,broken,ready,ready]) (by decide +kernel) (.replicate 32 1) 2
  exact absurd gone (by decide +kernel)

end AcceptTask
end CadsTunnel.Edge
