import CadsTunnel.EdgeAccounts
import CadsTunnel.EdgeRevocation

/-! The bytes of a session over whole runs. As long as the age sweep drops no marked and no
owing ledger, the mark stays at or below the counters, and a row ends with what was
unflushed when it opened plus what was relayed while it was open. -/
namespace CadsTunnel.Edge
open OrderedMap Words
open Std (ExtTreeMap)

namespace Account

def unflushedIn (a : Account) : Nat := a.bytes.1.toNat - a.mark.1.toNat
def unflushedOut (a : Account) : Nat := a.bytes.2.toNat - a.mark.2.toNat

/- The mark is at or below the counters, these are small enough for the store, and only the newest row may be open. -/
structure Kept (a : Account) : Prop where
  working : a.working = true
  markIn : a.mark.1 ≤ a.bytes.1
  markOut : a.mark.2 ≤ a.bytes.2
  smallIn : a.bytes.1.toNat < 2 ^ 63
  smallOut : a.bytes.2.toNat < 2 ^ 63
  older : ∀ v ∈ a.volumes.tail, v.closed

theorem onOpenTail {change : Volume → Volume} {volumes : List Volume} (older : ∀ v ∈ volumes.tail, v.closed) :
    (onOpen change volumes).tail = volumes.tail := by
  cases volumes with
  | nil => rfl
  | cons first rest => exact onOpenClosed change (List.all_eq_true.mpr older)

theorem deltaExact {current mark : UInt64} (below : mark ≤ current) (small : current.toNat < 2 ^ 63) :
    TunnelHistory.clampI64 (saturatingSub current mark) = current.toNat - mark.toNat := by
  rw [TunnelHistory.clampI64, saturatingSubExact below]
  omega

theorem markMeets {current mark : UInt64} (below : mark ≤ current) (nothing : saturatingSub current mark = 0) : mark = current := by
  have exact' := saturatingSubExact below
  have order := UInt64.le_iff_toNat_le.mp below
  rw [nothing] at exact'
  apply UInt64.toNat_inj.mp
  simp at exact'
  omega

/- A flush moves what is unflushed into the open row and the mark up to the counters. -/
theorem flushExact {a : Account} (kept : a.Kept) :
    a.flush = { a with
      mark := a.bytes
      volumes := onOpen (fun v => { v with
        bytesIn := v.bytesIn + a.unflushedIn
        bytesOut := v.bytesOut + a.unflushedOut }) a.volumes } := by
  have deltaIn := deltaExact kept.markIn kept.smallIn
  have deltaOut := deltaExact kept.markOut kept.smallOut
  simp only [flush]
  split
  case isTrue idle =>
    obtain stopped | none' := idle
    · exact absurd kept.working (by simp [stopped])
    · have markIn := markMeets kept.markIn none'.1
      have markOut := markMeets kept.markOut none'.2
      have mark : a.mark = a.bytes := Prod.ext markIn markOut
      have columns : onOpen (fun v => { v with bytesIn := v.bytesIn + a.unflushedIn, bytesOut := v.bytesOut + a.unflushedOut })
          a.volumes = a.volumes := by
        refine (List.map_congr_left (fun v _ => ?_)).trans (List.map_id _)
        simp [unflushedIn, unflushedOut, mark]
      rw [columns]
      exact congrArg (fun marked => { a with mark := marked }) mark
  case isFalse => simp only [Volume.grown, deltaIn, deltaOut, unflushedIn, unflushedOut]

theorem keptFlush {a : Account} (kept : a.Kept) : a.flush.Kept := by
  rw [flushExact kept]
  exact ⟨kept.working,UInt64.le_refl _,UInt64.le_refl _,kept.smallIn,kept.smallOut,fun v mem => kept.older v (onOpenTail kept.older ▸ mem)⟩

theorem keptClose {a : Account} (kept : a.Kept) : a.close.Kept := by
  refine ⟨kept.working,kept.markIn,kept.markOut,kept.smallIn,kept.smallOut,?_⟩
  simp only [close, kept.working, if_true]
  exact fun v mem => kept.older v (onOpenTail kept.older ▸ mem)

theorem keptEvict {a : Account} (kept : a.Kept) : a.evict.Kept :=
  ⟨kept.working,UInt64.le_refl _,UInt64.le_refl _,by simp [evict],by simp [evict],(keptClose kept).older⟩

theorem keptConnect {a : Account} (kept : a.Kept) (now : UInt64) : (a.connect now).Kept := by
  refine ⟨kept.working,kept.markIn,kept.markOut,kept.smallIn,kept.smallOut,?_⟩
  simp only [connect]
  split
  case isTrue vacant =>
    rw [Bool.and_eq_true] at vacant
    exact List.all_eq_true.mp vacant.2
  case isFalse => exact kept.older

theorem relayExact {v sent : UInt64} (small : v.toNat + sent.toNat < 2 ^ 63) : (v + sent).toNat = v.toNat + sent.toNat := by
  rw [UInt64.toNat_add]
  omega

theorem keptRelay {a : Account} (kept : a.Kept) {sent received : UInt64} (now : UInt64)
    (smallIn : a.bytes.1.toNat + sent.toNat < 2 ^ 63) (smallOut : a.bytes.2.toNat + received.toNat < 2 ^ 63) :
    (a.relay sent received now).Kept := by
  have markIn := UInt64.le_iff_toNat_le.mp kept.markIn
  have markOut := UInt64.le_iff_toNat_le.mp kept.markOut
  have exactIn := relayExact smallIn
  have exactOut := relayExact smallOut
  refine ⟨kept.working,?_,?_,?_,?_,kept.older⟩
  · rw [UInt64.le_iff_toNat_le]; simp only [relay, exactIn]; omega
  · rw [UInt64.le_iff_toNat_le]; simp only [relay, exactOut]; omega
  · simp only [relay, exactIn]; exact smallIn
  · simp only [relay, exactOut]; exact smallOut

theorem keptForget {a : Account} (kept : a.Kept) (unmarked : a.mark = (0,0)) : a.forget.Kept :=
  ⟨kept.working,by simp [forget, unmarked],by simp [forget, unmarked],by simp [forget],by simp [forget],kept.older⟩

/- The newest row is open, and with what is unflushed it stands at a total. -/
def OpenAt (older : List Volume) (totalIn totalOut : Nat) (a : Account) : Prop :=
  ∃ v, a.volumes = v :: older ∧ v.closed = false ∧ v.bytesIn + a.unflushedIn = totalIn ∧ v.bytesOut + a.unflushedOut = totalOut

/- The row is closed at a total, under the rows that came later. -/
def ClosedAt (older : List Volume) (totalIn totalOut : Nat) (a : Account) : Prop :=
  ∃ newer, a.volumes = newer ++ ⟨true,totalIn,totalOut⟩ :: older

theorem openFlush {older : List Volume} {x y : Nat} {a : Account} (kept : a.Kept) (isOpen : OpenAt older x y a) :
    OpenAt older x y a.flush := by
  obtain ⟨v,rows,unclosed,totalIn,totalOut⟩ := isOpen
  have closed : older.all Volume.closed := List.all_eq_true.mpr (by simpa [rows] using kept.older)
  rw [flushExact kept]
  refine ⟨{ v with bytesIn := v.bytesIn + a.unflushedIn, bytesOut := v.bytesOut + a.unflushedOut },?_,unclosed,?_,?_⟩
  · simp only [rows, onOpen, List.map_cons, unclosed, Bool.false_eq_true, if_false]
    exact congrArg _ (onOpenClosed _ closed)
  · simpa [unflushedIn] using totalIn
  · simpa [unflushedOut] using totalOut

theorem openClose {older : List Volume} {x y : Nat} {a : Account} (kept : a.Kept) (isOpen : OpenAt older x y a) :
    a.flush.close.volumes = ⟨true,x,y⟩ :: older := by
  obtain ⟨v,rows,unclosed,totalIn,totalOut⟩ := openFlush kept isOpen
  have works := (keptFlush kept).working
  have flat : a.flush.unflushedIn = 0 ∧ a.flush.unflushedOut = 0 := by
    rw [flushExact kept]
    simp [unflushedIn, unflushedOut]
  have closed : older.all Volume.closed := List.all_eq_true.mpr (by simpa [rows] using (keptFlush kept).older)
  rw [flat.1] at totalIn
  rw [flat.2] at totalOut
  simp only [close, works, if_true, rows, onOpen, List.map_cons, unclosed, Bool.false_eq_true, if_false,
    ← totalIn, ← totalOut, Nat.add_zero]
  exact congrArg _ (onOpenClosed _ closed)

theorem openRelay {older : List Volume} {x y : Nat} {a : Account} (kept : a.Kept) {sent received : UInt64} (now : UInt64)
    (smallIn : a.bytes.1.toNat + sent.toNat < 2 ^ 63) (smallOut : a.bytes.2.toNat + received.toNat < 2 ^ 63)
    (isOpen : OpenAt older x y a) : OpenAt older (x + sent.toNat) (y + received.toNat) (a.relay sent received now) := by
  obtain ⟨v,rows,unclosed,totalIn,totalOut⟩ := isOpen
  have markIn := UInt64.le_iff_toNat_le.mp kept.markIn
  have markOut := UInt64.le_iff_toNat_le.mp kept.markOut
  refine ⟨v,rows,unclosed,?_,?_⟩
  · simp only [unflushedIn, relay, relayExact smallIn] at totalIn ⊢
    omega
  · simp only [unflushedOut, relay, relayExact smallOut] at totalOut ⊢
    omega

theorem openConnect {older : List Volume} {x y : Nat} {a : Account} (now : UInt64) (isOpen : OpenAt older x y a) :
    OpenAt older x y (a.connect now) := by
  obtain ⟨v,rows,unclosed,totals⟩ := isOpen
  refine ⟨v,?_,unclosed,totals⟩
  simp [connect, rows, unclosed]

theorem openForget {older : List Volume} {x y : Nat} {a : Account}
    (nothing : a.bytes = (0,0) ∨ a.volumes.all Volume.closed) (isOpen : OpenAt older x y a) : OpenAt older x y a.forget := by
  obtain ⟨v,rows,unclosed,totals⟩ := isOpen
  obtain empty | closed := nothing
  · refine ⟨v,rows,unclosed,?_⟩
    simpa [unflushedIn, unflushedOut, forget, empty] using totals
  · simp [rows, unclosed] at closed

theorem closedMap {older : List Volume} {x y : Nat} {a b : Account} {change : Volume → Volume} (closed : ClosedAt older x y a)
    (shut : older.all Volume.closed) (moved : b.volumes = onOpen change a.volumes) : ClosedAt older x y b := by
  obtain ⟨newer,rows⟩ := closed
  refine ⟨onOpen change newer,?_⟩
  rw [moved, rows]
  simp only [onOpen, List.map_append, List.map_cons, if_true]
  exact congrArg _ (congrArg _ (onOpenClosed _ shut))

end Account
/- The bytes a step relays for a token, in each direction. -/
def Op.relayed {H : Type} (op : Op H) (token : RoutingToken) : Nat × Nat :=
  match op with
  | .noteRelay owner clientToAgent agentToClient _ => if owner = token then (clientToAgent.toNat,agentToClient.toNat) else (0,0)
  | _ => (0,0)

namespace EdgeState
variable {H : Type} (agentKeyTokenHash : RoutingToken → Key)

def account (s : EdgeState H) (token : RoutingToken) : Account := s.sessions.account token

/- All that a step without a relay for the token can do to its ledger. -/
inductive Booked (s : EdgeState H) (op : Op H) (token : RoutingToken) : Account → Prop where
  | same : Booked s op token (s.account token)
  | connected {now : UInt64} : Booked s op token ((s.account token).connect now)
  | flushed : Booked s op token (s.account token).flush
  | closed : Booked s op token (s.account token).flush.close
  | evicted : Booked s op token (s.account token).flush.evict
  | forgotten {now maxAgeSecs : UInt64} (call : op = .ageOutStaleHistory now maxAgeSecs)
      (stale : token ∈ s.sessions.stale s.isLive now maxAgeSecs) : Booked s op token (s.account token).forget
  | replaced {a : Account} (call : (∃ history, op = .setTunnelHistory history) ∨ ∃ failing, op = .historyFails failing) :
      Booked s op token a

theorem bookedAs {s : EdgeState H} {op : Op H} {token : RoutingToken} {after a : Account} (same : after = a)
    (step : Booked s op token a) : Booked s op token after := same ▸ step

theorem bookedConnected {s : EdgeState H} {op : Op H} (owner : RoutingToken) (now : UInt64) (transport : Transport)
    (token : RoutingToken) : Booked s op token ((s.sessions.noteConnected owner now transport).account token) := by
  rw [Sessions.accountConnected]
  split
  case isTrue same => subst same; exact .connected
  case isFalse => exact .same

theorem bookedDisconnected {s : EdgeState H} {op : Op H} (owner : RoutingToken) (now : UInt64) (reason : CloseReason)
    (token : RoutingToken) : Booked s op token ((s.sessions.disconnect owner now reason).account token) := by
  rw [Sessions.accountDisconnect]
  split
  case isTrue same => subst same; exact .closed
  case isFalse => exact .same

theorem policySessions (s : EdgeState H) (next : AgentKeyPolicy) :
    (s.setAgentKeyPolicy agentKeyTokenHash next).2.sessions = s.sessions :=
  policyInvariant agentKeyTokenHash s next (fun m => m.sessions = s.sessions) rfl (fun _ _ _ same => same)

theorem booked (s : EdgeState H) (op : Op H) (token : RoutingToken) :
    op.relayed token = (0,0) ∧ Booked s op token ((s.apply agentKeyTokenHash op).account token) ∨
    ∃ sent received now, op = .noteRelay token sent received now ∧
      (s.apply agentKeyTokenHash op).account token = (s.account token).relay sent received now := by
  cases op with
  | noteRelay owner sent received now =>
    have step := Sessions.accountRelay s.sessions owner sent received now token
    by_cases same : owner = token
    · subst same
      rw [if_pos rfl] at step
      exact .inr ⟨sent,received,now,rfl,step⟩
    · rw [if_neg (Ne.symm same)] at step
      exact .inl ⟨by simp [Op.relayed, same],bookedAs step .same⟩
  | register owner handle now => exact .inl ⟨rfl,bookedConnected owner now .quic token⟩
  | registerWithCandidate owner handle candidate now => exact .inl ⟨rfl,bookedConnected owner now .quic token⟩
  | registerUnlessRevoked owner handle now =>
    refine .inl ⟨rfl,?_⟩
    simp only [apply, registerUnlessRevoked]
    split
    · exact .same
    · exact bookedConnected owner now .quic token
  | registerWithCandidateUnlessRevoked owner handle candidate now =>
    refine .inl ⟨rfl,?_⟩
    simp only [apply, registerWithCandidateUnlessRevoked]
    split
    · exact .same
    · exact bookedConnected owner now .quic token
  | registerWithCandidateChecked owner handle candidate mode proof now =>
    refine .inl ⟨rfl,?_⟩
    obtain ⟨_,_,_,⟨_,_,same⟩ | ⟨_,_,_,_,connected⟩⟩ := checkedParts agentKeyTokenHash s owner handle candidate mode proof now rfl
    · simp only [apply, account, same]
      exact .same
    · simp only [apply, account, connected]
      exact bookedConnected owner now .quic token
  | parkTcpAgent owner now => exact .inl ⟨rfl,bookedConnected owner now .tcpFallback token⟩
  | parkTcpAgentUnlessRevoked owner now =>
    refine .inl ⟨rfl,?_⟩
    simp only [apply, parkTcpAgentUnlessRevoked]
    split
    · exact .same
    · exact bookedConnected owner now .tcpFallback token
  | parkTcpAgentChecked owner mode now =>
    refine .inl ⟨rfl,?_⟩
    simp only [apply, parkTcpAgentChecked]
    split
    · exact .same
    · split
      · exact .same
      · exact bookedConnected owner now .tcpFallback token
  | registerHost host owner =>
    refine .inl ⟨rfl,?_⟩
    simp only [apply, registerHost]
    split
    · exact .same
    · split
      · exact .same
      · split <;> exact .same
  | advertiseDirect owner addr cert order =>
    refine .inl ⟨rfl,?_⟩
    simp only [apply, advertiseDirect]
    split
    · exact .same
    · split
      · exact .same
      · split <;> exact .same
  | removeRegistration owner id now =>
    refine .inl ⟨rfl,?_⟩
    obtain ⟨_,_,_,⟨_,same⟩ | ⟨_,ended⟩⟩ := removeRegistrationParts s owner id now rfl
    · simp only [apply, account, same]
      exact .same
    · simp only [apply, account, ended]
      exact bookedDisconnected owner now .registrationClosed token
  | remove owner now => exact .inl ⟨rfl,bookedDisconnected owner now .removed token⟩
  | revokeToken owner now => exact .inl ⟨rfl,bookedDisconnected owner now .revoked token⟩
  | setAgentKeyPolicy next =>
    refine .inl ⟨rfl,?_⟩
    simp only [apply, account, policySessions]
    exact .same
  | reloadAgentKeyPolicyFromFile file =>
    refine .inl ⟨rfl,?_⟩
    have switched := reloadCases agentKeyTokenHash s file
    simp only [apply, account]
    obtain same | ⟨_,_,_,_,switch⟩ := switched
    · rw [same]
      exact .same
    · rw [switch, policySessions]
      exact .same
  | flushTunnelHistory now idleEvictSecs =>
    refine .inl ⟨rfl,?_⟩
    obtain flushed | evicted := Sessions.accountFlush s.sessions s.isLive now idleEvictSecs token
    · exact bookedAs flushed .flushed
    · exact bookedAs evicted .evicted
  | ageOutStaleHistory now maxAgeSecs =>
    refine .inl ⟨rfl,?_⟩
    obtain ⟨stale,gone⟩ | ⟨_,same⟩ := Sessions.accountAgeOut s.sessions s.isLive now maxAgeSecs token
    · exact bookedAs gone (.forgotten rfl stale)
    · exact bookedAs same .same
  | setTunnelHistory history => exact .inl ⟨rfl,.replaced (.inl ⟨history,rfl⟩)⟩
  | historyFails failing => exact .inl ⟨rfl,.replaced (.inr ⟨failing,rfl⟩)⟩
  | _ => exact .inl ⟨rfl,.same⟩

/- The age sweep drops no token with a mark and none that owes its open row bytes, the counters stay in the range of the
store, and the store stays the one it was and answers. -/
def accountable (s : EdgeState H) : Op H → Prop
  | .noteRelay token clientToAgent agentToClient _ =>
    (s.account token).bytes.1.toNat + clientToAgent.toNat < 2 ^ 63 ∧ (s.account token).bytes.2.toNat + agentToClient.toNat < 2 ^ 63
  | .ageOutStaleHistory now maxAgeSecs => ∀ token ∈ s.sessions.stale s.isLive now maxAgeSecs,
    (s.account token).mark = (0,0) ∧ ((s.account token).bytes = (0,0) ∨ (s.account token).volumes.all Volume.closed)
  | .setTunnelHistory _ => False
  | .historyFails _ => False
  | _ => True

theorem keptStep {s : EdgeState H} {op : Op H} (met : s.accountable op) {token : RoutingToken} (kept : (s.account token).Kept) :
    ((s.apply agentKeyTokenHash op).account token).Kept := by
  obtain ⟨_,step⟩ | ⟨sent,received,now,rfl,after⟩ := booked agentKeyTokenHash s op token
  · generalize (s.apply agentKeyTokenHash op).account token = a at step
    cases step with
    | same => exact kept
    | connected => exact Account.keptConnect kept _
    | flushed => exact Account.keptFlush kept
    | closed => exact Account.keptClose (Account.keptFlush kept)
    | evicted => exact Account.keptEvict (Account.keptFlush kept)
    | forgotten call stale =>
      subst call
      exact Account.keptForget kept (met token stale).1
    | replaced call => obtain ⟨_,rfl⟩ | ⟨_,rfl⟩ := call <;> exact absurd met id
  · exact after ▸ Account.keptRelay kept now met.1 met.2

/- A step leaves the open row open at its total, grown by what it relays, or closes it there. -/
theorem openStep {s : EdgeState H} {op : Op H} (met : s.accountable op) {token : RoutingToken} (kept : (s.account token).Kept)
    {older : List Volume} {x y : Nat} (isOpen : Account.OpenAt older x y (s.account token)) :
    Account.OpenAt older (x + (op.relayed token).1) (y + (op.relayed token).2) ((s.apply agentKeyTokenHash op).account token) ∨
    ((s.apply agentKeyTokenHash op).account token).volumes = ⟨true,x,y⟩ :: older := by
  obtain ⟨quiet,step⟩ | ⟨sent,received,now,rfl,after⟩ := booked agentKeyTokenHash s op token
  · rw [quiet, Nat.add_zero, Nat.add_zero]
    generalize (s.apply agentKeyTokenHash op).account token = a at step
    cases step with
    | same => exact .inl isOpen
    | connected => exact .inl (Account.openConnect _ isOpen)
    | flushed => exact .inl (Account.openFlush kept isOpen)
    | closed => exact .inr (Account.openClose kept isOpen)
    | evicted => exact .inr (Account.openClose kept isOpen)
    | forgotten call stale =>
      subst call
      exact .inl (Account.openForget (met token stale).2 isOpen)
    | replaced call => obtain ⟨_,rfl⟩ | ⟨_,rfl⟩ := call <;> exact absurd met id
  · have amount : (Op.noteRelay token sent received now : Op H).relayed token = (sent.toNat,received.toNat) := by
      simp [Op.relayed]
    rw [amount, after]
    exact .inl (Account.openRelay kept now met.1 met.2 isOpen)

theorem closedStep {s : EdgeState H} {op : Op H} (met : s.accountable op) {token : RoutingToken} (kept : (s.account token).Kept)
    {older : List Volume} (shut : older.all Volume.closed) {x y : Nat} (closed : Account.ClosedAt older x y (s.account token)) :
    Account.ClosedAt older x y ((s.apply agentKeyTokenHash op).account token) := by
  obtain ⟨_,step⟩ | ⟨sent,received,now,rfl,after⟩ := booked agentKeyTokenHash s op token
  · generalize (s.apply agentKeyTokenHash op).account token = a at step
    have flushed := Account.closedMap closed shut (congrArg Account.volumes (Account.flushExact kept))
    have ended : Account.ClosedAt older x y (s.account token).flush.close :=
      Account.closedMap flushed shut (if_pos (Account.keptFlush kept).working)
    cases step with
    | same => exact closed
    | @connected now =>
      obtain ⟨newer,rows⟩ := closed
      simp only [Account.ClosedAt, Account.connect]
      split
      · exact ⟨_ :: newer,by rw [rows]; rfl⟩
      · exact ⟨newer,rows⟩
    | flushed => exact flushed
    | closed => exact ended
    | evicted => exact ended
    | forgotten call stale => exact closed
    | replaced call => obtain ⟨_,rfl⟩ | ⟨_,rfl⟩ := call <;> exact absurd met id
  · exact after ▸ closed

/- The registry after boot: nothing registered, and a store without an open row. -/
def booted (rows : List SessionRow) : EdgeState H := { sessions := { tunnelHistory := some { rows := rows } } }

def sessionOpen (s : EdgeState H) (token : RoutingToken) : Bool := !(s.account token).volumes.all Volume.closed

theorem keptBooted {rows : List SessionRow} (ended : ∀ row ∈ rows, row.disconnectedAt.isSome) (token : RoutingToken) :
    ((booted rows : EdgeState H).account token).Kept := by
  refine ⟨rfl,?_,?_,?_,?_,?_⟩
  · simp [account, booted, Sessions.account]
  · simp [account, booted, Sessions.account]
  · simp [account, booted, Sessions.account]
  · simp [account, booted, Sessions.account]
  · intro v mem
    obtain ⟨row,listed,rfl⟩ := List.mem_map.mp (List.mem_of_mem_tail mem)
    exact ended row (List.mem_filter.mp listed).1

theorem keptRun {s : EdgeState H} {ops : List (Op H)} (met : Machine.along (step agentKeyTokenHash) accountable s ops)
    {token : RoutingToken} (kept : (s.account token).Kept) : ((run agentKeyTokenHash s ops).account token).Kept :=
  Machine.runAlong (fun s : EdgeState H => (s.account token).Kept) (fun _ _ met kept => keptStep agentKeyTokenHash met kept) kept met

/- Only a connection opens a row, and it starts with what was unflushed. -/
theorem openingStep {s : EdgeState H} {op : Op H} (met : s.accountable op) {token : RoutingToken} (kept : (s.account token).Kept)
    (before : s.sessionOpen token = false) (after : (s.apply agentKeyTokenHash op).sessionOpen token) :
    Account.OpenAt (s.account token).volumes (s.account token).unflushedIn (s.account token).unflushedOut
      ((s.apply agentKeyTokenHash op).account token) := by
  have shut : (s.account token).volumes.all Volume.closed := by simpa [sessionOpen] using before
  have flushed : (s.account token).flush.volumes = (s.account token).volumes := by
    rw [Account.flushExact kept]
    exact Account.onOpenClosed _ shut
  have ended : (s.account token).flush.close.volumes = (s.account token).volumes := by
    refine (if_pos (Account.keptFlush kept).working).trans ?_
    rw [flushed]
    exact Account.onOpenClosed _ shut
  have still : ∀ a : Account, a.volumes = (s.account token).volumes → (!a.volumes.all Volume.closed) = false := by
    intro a same
    rw [same, shut]
    rfl
  unfold sessionOpen at after
  obtain ⟨_,step⟩ | ⟨sent,received,now,rfl,relayed⟩ := booked agentKeyTokenHash s op token
  · generalize (s.apply agentKeyTokenHash op).account token = a at step after
    cases step with
    | same => exact absurd after (by simp [still _ rfl])
    | connected =>
      refine ⟨⟨false,0,0⟩,?_,rfl,?_,?_⟩
      · simp [Account.connect, kept.working, shut]
      · exact Nat.zero_add _
      · exact Nat.zero_add _
    | flushed => exact absurd after (by simp [still _ flushed])
    | closed => exact absurd after (by simp [still _ ended])
    | evicted =>
      have evicted : (s.account token).flush.evict.volumes = (s.account token).volumes := ended
      exact absurd after (by simp [still _ evicted])
    | forgotten call stale =>
      have same : (s.account token).forget.volumes = (s.account token).volumes := rfl
      exact absurd after (by simp [still _ same])
    | replaced call => obtain ⟨_,rfl⟩ | ⟨_,rfl⟩ := call <;> exact absurd met id
  · have same : ((s.apply agentKeyTokenHash (.noteRelay token sent received now)).account token).volumes =
        (s.account token).volumes := by rw [relayed]; rfl
    exact absurd after (by simp [still _ same])

theorem closingStep {s : EdgeState H} {op : Op H} (met : s.accountable op) {token : RoutingToken} (kept : (s.account token).Kept)
    {older : List Volume} {x y : Nat} (isOpen : Account.OpenAt older x y (s.account token))
    (after : (s.apply agentKeyTokenHash op).sessionOpen token = false) :
    ((s.apply agentKeyTokenHash op).account token).volumes = ⟨true,x,y⟩ :: older := by
  obtain ⟨v,rows,unclosed,_⟩ | rows := openStep agentKeyTokenHash met kept isOpen
  · exact absurd after (by simp [sessionOpen, rows, unclosed])
  · exact rows

/- The bytes a run relays for a token. -/
def relayedIn (ops : List (Op H)) (token : RoutingToken) : Nat := (ops.map (fun op => (op.relayed token).1)).sum
def relayedOut (ops : List (Op H)) (token : RoutingToken) : Nat := (ops.map (fun op => (op.relayed token).2)).sum

theorem openRun {s : EdgeState H} {during : List (Op H)} {token : RoutingToken}
    (met : Machine.along (step agentKeyTokenHash) accountable s during) (kept : (s.account token).Kept)
    (held : Machine.along (step agentKeyTokenHash) (fun s op => (s.apply agentKeyTokenHash op).sessionOpen token) s during)
    {older : List Volume} (shut : older.all Volume.closed) {x y : Nat} (isOpen : Account.OpenAt older x y (s.account token)) :
    Account.OpenAt older (x + relayedIn during token) (y + relayedOut during token)
      ((run agentKeyTokenHash s during).account token) := by
  induction during generalizing s x y with
  | nil => exact isOpen
  | cons op rest ih =>
    have next := keptStep agentKeyTokenHash met.1 kept
    obtain grown | ended := openStep agentKeyTokenHash met.1 kept isOpen
    · have last := ih met.2 next held.2 grown
      simp only [relayedIn, relayedOut, List.map_cons, List.sum_cons] at last ⊢
      rwa [Nat.add_assoc, Nat.add_assoc] at last
    · exact absurd held.1 (by simp [sessionOpen, ended, shut])

theorem closedRun {s : EdgeState H} {later : List (Op H)} {token : RoutingToken}
    (met : Machine.along (step agentKeyTokenHash) accountable s later) (kept : (s.account token).Kept) {older : List Volume}
    (shut : older.all Volume.closed) {x y : Nat} (closed : Account.ClosedAt older x y (s.account token)) :
    Account.ClosedAt older x y ((run agentKeyTokenHash s later).account token) := by
  induction later generalizing s with
  | nil => exact closed
  | cons op rest ih =>
    exact ih met.2 (keptStep agentKeyTokenHash met.1 kept) (closedStep agentKeyTokenHash met.1 kept shut closed)

/- In every state the mark is at or below the counters. A row that one step opens, that stays open during some steps and that
the next one closes has, then and ever after, the bytes that were unflushed before and those relayed meanwhile. -/
theorem sessionBytesExact {rows : List SessionRow} (ended : ∀ row ∈ rows, row.disconnectedAt.isSome) {ops : List (Op H)}
    (met : Machine.along (step agentKeyTokenHash) accountable (booted rows) ops) (token : RoutingToken) :
    (((run agentKeyTokenHash (booted rows) ops).account token).mark.1 ≤
        ((run agentKeyTokenHash (booted rows) ops).account token).bytes.1 ∧
      ((run agentKeyTokenHash (booted rows) ops).account token).mark.2 ≤
        ((run agentKeyTokenHash (booted rows) ops).account token).bytes.2) ∧
    ∀ before opening during closing later, ops = before ++ opening :: (during ++ closing :: later) →
      let s := run agentKeyTokenHash (booted rows) before
      let r := s.apply agentKeyTokenHash opening
      s.sessionOpen token = false → r.sessionOpen token →
      Machine.along (step agentKeyTokenHash) (fun s op => (s.apply agentKeyTokenHash op).sessionOpen token) r during →
      ((run agentKeyTokenHash r during).apply agentKeyTokenHash closing).sessionOpen token = false →
      ∃ newer, ((run agentKeyTokenHash (booted rows) ops).account token).volumes = newer ++
        ⟨true,(s.account token).unflushedIn + relayedIn during token,(s.account token).unflushedOut + relayedOut during token⟩ ::
          (s.account token).volumes := by
  have boot := keptBooted (H := H) ended token
  have final := keptRun agentKeyTokenHash met boot
  refine ⟨⟨final.markIn,final.markOut⟩,?_⟩
  intro before opening during closing later split s r vacant opened held closed
  subst split
  obtain ⟨first,⟨metOpening,rest⟩⟩ := Machine.alongAppend.mp met
  obtain ⟨metDuring,⟨metClosing,metLater⟩⟩ := Machine.alongAppend.mp rest
  have kept : (s.account token).Kept := keptRun agentKeyTokenHash first boot
  have keptOpen : (r.account token).Kept := keptStep agentKeyTokenHash metOpening kept
  have shut : (s.account token).volumes.all Volume.closed := by simpa [sessionOpen] using vacant
  have start := openingStep agentKeyTokenHash metOpening kept vacant opened
  have grown := openRun agentKeyTokenHash metDuring keptOpen held shut start
  have keptEnd := keptRun agentKeyTokenHash metDuring keptOpen
  have stop := closingStep agentKeyTokenHash metClosing keptEnd grown closed
  have whole : run agentKeyTokenHash (booted rows) (before ++ opening :: (during ++ closing :: later)) =
      run agentKeyTokenHash ((run agentKeyTokenHash r during).apply agentKeyTokenHash closing) later := by
    rw [run, Machine.runAppend]
    exact Machine.runAppend _ during (closing :: later)
  rw [whole]
  exact closedRun agentKeyTokenHash metLater (keptStep agentKeyTokenHash metClosing keptEnd) shut ⟨[],stop⟩

/- A session with a flush in its middle, closed by a removal; the flush loop then drops the idle ledger before the age sweep. -/
theorem sessionBytesFlushed :
    let token : RoutingToken := .replicate 32 1
    ∃ newer, ((run sampleHash (booted [] : EdgeState Unit) [.register token () 0,.noteRelay token 5 7 1,.flushTunnelHistory 2 100,
        .noteRelay token 1 2 3,.remove token 4,.flushTunnelHistory 200 100,.ageOutStaleHistory 300 100]).account token).volumes =
      newer ++ ⟨true,6,9⟩ :: [] := by
  intro token
  have met : Machine.along (step sampleHash) accountable (booted [] : EdgeState Unit) [.register token () 0,.noteRelay token 5 7 1,
      .flushTunnelHistory 2 100,.noteRelay token 1 2 3,.remove token 4,.flushTunnelHistory 200 100,.ageOutStaleHistory 300 100] :=
    ⟨trivial,by unfold accountable; decide +kernel,trivial,by unfold accountable; decide +kernel,trivial,trivial,
      by unfold accountable; decide +kernel,trivial⟩
  exact (sessionBytesExact sampleHash (List.forall_mem_nil _) met token).2 [] (.register token () 0)
    [.noteRelay token 5 7 1,.flushTunnelHistory 2 100,.noteRelay token 1 2 3] (.remove token 4)
    [.flushTunnelHistory 200 100,.ageOutStaleHistory 300 100] rfl (by decide +kernel) (by decide +kernel)
    ⟨by decide +kernel,by decide +kernel,by decide +kernel,trivial⟩ (by decide +kernel)

/- The age sweep drops the counters of a closed session and leaves its mark, which swallows the bytes of the next session. -/
theorem sessionBytesSwallowed :
    let token : RoutingToken := .replicate 32 1
    let stale : EdgeState Unit := run sampleHash (booted []) [.register token () 0,.noteRelay token 5 7 1,.remove token 2,
      .ageOutStaleHistory 100 10]
    ¬(stale.account token).mark.1 ≤ (stale.account token).bytes.1 ∧
    ((run sampleHash stale [.register token () 101,.noteRelay token 3 4 102,.remove token 103]).account token).volumes =
      [⟨true,0,0⟩,⟨true,5,7⟩] := by
  decide +kernel

end EdgeState
end CadsTunnel.Edge
