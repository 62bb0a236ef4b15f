import CadsTunnel.EdgeRegistrations
import CadsTunnel.Machine

/-! The session accounting of the edge: relayed bytes per token, the mark up to which they
are in the durable record, and the rows of that record. A relay only counts in memory; a
flush writes what lies above the mark into the open row, and two sweeps forget tokens that
are no longer live. The four maps are keyed by token and no step mixes two tokens. -/
namespace CadsTunnel.Edge
open OrderedMap Words
open Std (ExtTreeMap)

inductive Transport where
  | quic
  | tcpFallback
  deriving DecidableEq, Repr

inductive CloseReason where
  | registrationClosed
  | removed
  | revoked
  | idleEvicted
  deriving DecidableEq, Repr

/- One row of `tunnel_sessions`. The table holds the token as hex text, which is one-to-one. The counters are 64-bit signed
columns; a sum beyond them leaves the integers, so nothing below is claimed there. -/
structure SessionRow where
  routingToken : RoutingToken
  transport : Transport
  connectedAt : Int64
  disconnectedAt : Option Int64 := none
  reason : Option CloseReason := none
  bytesIn : Nat := 0
  bytesOut : Nat := 0
  lastFlush : Int64
  deriving DecidableEq

def SessionRow.isOpen (row : SessionRow) (token : RoutingToken) : Bool :=
  row.routingToken = token && row.disconnectedAt.isNone

/- The rows by descending id. While the store is failing every statement returns an error and writes nothing. -/
structure TunnelHistory where
  rows : List SessionRow := []
  failing : Bool := false

namespace TunnelHistory

def openSessionExists (h : TunnelHistory) (token : RoutingToken) : Option Bool :=
  if h.failing then none else some (h.rows.any (·.isOpen token))

def moveTransport (token : RoutingToken) (transport : Transport) : List SessionRow → List SessionRow
  | [] => []
  | row :: older =>
    if row.isOpen token then { row with transport := transport } :: older
    else row :: moveTransport token transport older

def openSession (h : TunnelHistory) (token : RoutingToken) (transport : Transport) (now : UInt64) : TunnelHistory :=
  if h.failing then h
  else if h.rows.any (·.isOpen token) then { h with rows := moveTransport token transport h.rows }
  else { h with rows := {
      routingToken := token
      transport := transport
      connectedAt := now.toInt64
      lastFlush := now.toInt64 } :: h.rows }

/- An UPDATE of the open rows of a token. -/
def updateOpen (h : TunnelHistory) (token : RoutingToken) (change : SessionRow → SessionRow) : TunnelHistory :=
  { h with rows := h.rows.map (fun row => if row.isOpen token then change row else row) }

def closeSession (h : TunnelHistory) (token : RoutingToken) (now : UInt64) (reason : CloseReason) : TunnelHistory :=
  if h.failing then h
  else h.updateOpen token (fun row => { row with
    disconnectedAt := some now.toInt64
    reason := some reason
    lastFlush := now.toInt64 })

def clampI64 (v : UInt64) : Nat := min v.toNat (2 ^ 63 - 1)

def addSessionBytes (h : TunnelHistory) (token : RoutingToken) (deltaIn deltaOut : UInt64) (now : UInt64) :
    Option (Bool × TunnelHistory) :=
  if h.failing then none
  else some (h.rows.any (·.isOpen token),h.updateOpen token (fun row => { row with
    bytesIn := row.bytesIn + clampI64 deltaIn
    bytesOut := row.bytesOut + clampI64 deltaOut
    lastFlush := now.toInt64 }))

end TunnelHistory

structure Sessions where
  tunnelBytes : HashMap RoutingToken (UInt64 × UInt64) := ∅
  connectedSince : HashMap RoutingToken UInt64 := ∅
  lastSeen : HashMap RoutingToken UInt64 := ∅
  flushedBytes : HashMap RoutingToken (UInt64 × UInt64) := ∅
  tunnelHistory : Option TunnelHistory := none

namespace Sessions

def noteConnected (s : Sessions) (token : RoutingToken) (now : UInt64) (transport : Transport) : Sessions :=
  { s with
    connectedSince := s.connectedSince.insert token (s.connectedSince[token]?.getD now)
    lastSeen := s.lastSeen.insert token now
    tunnelHistory := s.tunnelHistory.map (fun history => history.openSession token transport now) }

/- The counters are plain `+=` on 64 bits. -/
def noteRelay (s : Sessions) (token : RoutingToken) (clientToAgent agentToClient now : UInt64) : Sessions :=
  let entry := s.tunnelBytes[token]?.getD (0,0)
  { s with
    tunnelBytes := s.tunnelBytes.insert token (entry.1 + clientToAgent,entry.2 + agentToClient)
    lastSeen := s.lastSeen.insert token now }

/- Whether a row was written. On a store error nothing is marked. -/
def flushTokenBytes (s : Sessions) (now : UInt64) (token : RoutingToken) : Bool × Sessions :=
  match s.tunnelHistory, s.tunnelBytes[token]? with
  | some history, some current =>
    let flushed := s.flushedBytes[token]?.getD (0,0)
    let deltaIn := saturatingSub current.1 flushed.1
    let deltaOut := saturatingSub current.2 flushed.2
    if deltaIn = 0 ∧ deltaOut = 0 then (false,s)
    else
      match history.addSessionBytes token deltaIn deltaOut now with
      | none => (false,s)
      | some (written,history) =>
        (written,{ s with
          flushedBytes := s.flushedBytes.insert token current
          tunnelHistory := some history })
  | _, _ => (false,s)

def closeTunnelSession (s : Sessions) (token : RoutingToken) (now : UInt64) (reason : CloseReason) : Sessions :=
  let s := (s.flushTokenBytes now token).2
  { s with tunnelHistory := s.tunnelHistory.map (fun history => history.closeSession token now reason) }

/- The end of a streak on the two teardown paths. -/
def disconnect (s : Sessions) (token : RoutingToken) (now : UInt64) (reason : CloseReason) : Sessions :=
  { s with connectedSince := s.connectedSince.erase token }.closeTunnelSession token now reason

/- `live` is whether the token has a registration or a parked slot, which a sweep looks up. -/
def stale (s : Sessions) (live : RoutingToken → Bool) (now maxAgeSecs : UInt64) : List RoutingToken :=
  (s.lastSeen.toList.filter (fun e => maxAgeSecs < saturatingSub now e.2 && !live e.1)).map Prod.fst

def ageOutStaleHistory (s : Sessions) (live : RoutingToken → Bool) (now maxAgeSecs : UInt64) : Nat × Sessions :=
  let stale := s.stale live now maxAgeSecs
  (stale.length,stale.foldl (fun s token => { s with
    lastSeen := s.lastSeen.erase token
    tunnelBytes := s.tunnelBytes.erase token }) s)

/- One token of the eviction pass; whether it was evicted. -/
def evictIdle (live : RoutingToken → Bool) (now idleEvictSecs : UInt64) (s : Sessions) (token : RoutingToken) :
    Bool × Sessions :=
  let seen := s.lastSeen[token]?
  let idle := seen.all (fun seen => idleEvictSecs ≤ saturatingSub now seen)
  if !idle || live token then (false,s)
  else
    let closed := s.tunnelHistory.map (fun history =>
      if history.openSessionExists token = some true then history.closeSession token (seen.getD now) .idleEvicted
      else history)
    (true,{
      tunnelBytes := s.tunnelBytes.erase token
      connectedSince := s.connectedSince.erase token
      lastSeen := s.lastSeen.erase token
      flushedBytes := s.flushedBytes.erase token
      tunnelHistory := closed })

def flushTunnelHistory (s : Sessions) (live : RoutingToken → Bool) (now idleEvictSecs : UInt64) : (Nat × Nat) × Sessions :=
  if s.tunnelHistory.isNone then ((0,0),s)
  else
    let tokensWithBytes := s.tunnelBytes.keys
    let (flushed,s) := Machine.tally (fun s token => s.flushTokenBytes now token) s tokensWithBytes
    let candidates := (s.lastSeen.keys ++ tokensWithBytes ++ s.connectedSince.keys ++ s.flushedBytes.keys).dedup
    let (evicted,s) := Machine.tally (evictIdle live now idleEvictSecs) s candidates
    ((flushed,evicted),s)

/- What each function does to the start of a streak. -/
@[simp] theorem sinceConnected (s : Sessions) (token : RoutingToken) (now : UInt64) (transport : Transport)
    (other : RoutingToken) : (s.noteConnected token now transport).connectedSince[other]? =
      if other = token then some (s.connectedSince[token]?.getD now) else s.connectedSince[other]? :=
  lookupInsert s.connectedSince token other _

@[simp] theorem sinceRelay (s : Sessions) (token : RoutingToken) (sent received now : UInt64) :
    (s.noteRelay token sent received now).connectedSince = s.connectedSince := rfl

@[simp] theorem sinceFlushToken (s : Sessions) (now : UInt64) (token : RoutingToken) :
    (s.flushTokenBytes now token).2.connectedSince = s.connectedSince := by
  unfold flushTokenBytes
  split
  · dsimp only
    split
    · rfl
    · split <;> rfl
  · rfl

@[simp] theorem sinceDisconnect (s : Sessions) (token : RoutingToken) (now : UInt64) (reason : CloseReason)
    (other : RoutingToken) : (s.disconnect token now reason).connectedSince[other]? =
      if other = token then none else s.connectedSince[other]? := by
  simp only [disconnect, closeTunnelSession, sinceFlushToken]
  exact lookupErase s.connectedSince token other

@[simp] theorem sinceAgeOut (s : Sessions) (live : RoutingToken → Bool) (now maxAgeSecs : UInt64) :
    (s.ageOutStaleHistory live now maxAgeSecs).2.connectedSince = s.connectedSince := by
  simp only [ageOutStaleHistory]
  generalize s.stale live now maxAgeSecs = stale
  induction stale generalizing s with
  | nil => rfl
  | cons token rest ih => exact ih _

/- A sweep keeps the streaks of the live tokens. -/
theorem sinceFlush (s : Sessions) {live : RoutingToken → Bool} (now idleEvictSecs : UInt64) {token : RoutingToken}
    (alive : live token) :
    (s.flushTunnelHistory live now idleEvictSecs).2.connectedSince[token]? = s.connectedSince[token]? := by
  have flushed : ∀ (keys : List RoutingToken) (s : Sessions),
      (keys.foldl (fun s token => (s.flushTokenBytes now token).2) s).connectedSince = s.connectedSince := by
    intro keys
    induction keys with
    | nil => intro s; rfl
    | cons first rest ih => intro s; rw [List.foldl_cons, ih, sinceFlushToken]
  have evicted : ∀ (keys : List RoutingToken) (s : Sessions),
      (keys.foldl (fun s token => (evictIdle live now idleEvictSecs s token).2) s).connectedSince[token]? =
        s.connectedSince[token]? := by
    intro keys
    induction keys with
    | nil => intro s; rfl
    | cons first rest ih =>
      intro s
      rw [List.foldl_cons, ih]
      simp only [evictIdle]
      split
      · rfl
      · rename_i gone
        have different : token ≠ first := by
          rintro rfl
          simp [alive] at gone
        exact (lookupErase s.connectedSince first token).trans (if_neg different)
  unfold flushTunnelHistory
  split
  · rfl
  · simp only [Machine.tallyState]
    rw [evicted, flushed]

end Sessions
end CadsTunnel.Edge
