import CadsTunnel.EdgeSessions

/-! The session accounting seen from one token: a small ledger of the counters, the mark and
the byte columns of its rows. Every function of the sessions is one step of every ledger,
and the loops of the two sweeps visit each ledger once. -/
namespace CadsTunnel.Edge
open OrderedMap Words
open Std (ExtTreeMap)

/- The byte columns of a row. -/
structure Volume where
  closed : Bool
  bytesIn : Nat
  bytesOut : Nat
  deriving DecidableEq

/- The store adds a difference as a signed 64-bit number. -/
def Volume.grown (v : Volume) (deltaIn deltaOut : UInt64) : Volume :=
  { v with
    bytesIn := v.bytesIn + TunnelHistory.clampI64 deltaIn
    bytesOut := v.bytesOut + TunnelHistory.clampI64 deltaOut }

def SessionRow.volume (row : SessionRow) : Volume := ⟨row.disconnectedAt.isSome,row.bytesIn,row.bytesOut⟩

def TunnelHistory.volumes (h : TunnelHistory) (token : RoutingToken) : List Volume :=
  (h.rows.filter (fun row => row.routingToken = token)).map SessionRow.volume

/- What the sessions hold for one token; a missing counter or mark is zero. -/
structure Account where
  working : Bool
  bytes : UInt64 × UInt64
  mark : UInt64 × UInt64
  seen : Option UInt64
  volumes : List Volume

namespace Account

def connect (a : Account) (now : UInt64) : Account :=
  { a with
    seen := some now
    volumes := if a.working && a.volumes.all Volume.closed then ⟨false,0,0⟩ :: a.volumes else a.volumes }

def relay (a : Account) (sent received now : UInt64) : Account :=
  { a with
    bytes := (a.bytes.1 + sent,a.bytes.2 + received)
    seen := some now }

/- The columns of the open rows grow, or the open rows close. -/
def onOpen (change : Volume → Volume) (volumes : List Volume) : List Volume :=
  volumes.map (fun v => if v.closed then v else change v)

theorem onOpenClosed (change : Volume → Volume) {volumes : List Volume} (closed : volumes.all Volume.closed) :
    onOpen change volumes = volumes := by
  refine (List.map_congr_left (fun v mem => ?_)).trans (List.map_id volumes)
  exact if_pos (List.all_eq_true.mp closed v mem)

def flush (a : Account) : Account :=
  let deltaIn := saturatingSub a.bytes.1 a.mark.1
  let deltaOut := saturatingSub a.bytes.2 a.mark.2
  if a.working = false ∨ deltaIn = 0 ∧ deltaOut = 0 then a
  else { a with
    mark := a.bytes
    volumes := onOpen (fun v => v.grown deltaIn deltaOut) a.volumes }

def close (a : Account) : Account :=
  { a with volumes := if a.working then onOpen (fun v => { v with closed := true }) a.volumes else a.volumes }

def forget (a : Account) : Account := { a with bytes := (0,0), seen := none }

def evict (a : Account) : Account := { a.close with bytes := (0,0), mark := (0,0), seen := none }

end Account

namespace TunnelHistory

theorem volumesMove (token : RoutingToken) (transport : Transport) (rows : List SessionRow) (other : RoutingToken) :
    (({ rows := moveTransport token transport rows } : TunnelHistory).volumes other) = ({ rows := rows } : TunnelHistory).volumes other := by
  simp only [volumes]
  induction rows with
  | nil => rfl
  | cons row older ih =>
    rw [moveTransport]
    split
    · simp only [List.filter_cons]
      split <;> rfl
    · simp only [List.filter_cons]
      split
      · rw [List.map_cons, List.map_cons, ih]
      · exact ih

theorem openVolumes (h : TunnelHistory) (token : RoutingToken) :
    h.rows.any (·.isOpen token) = !(h.volumes token).all Volume.closed := by
  simp only [volumes, List.all_map, List.all_filter, List.not_all_eq_any_not]
  congr 1
  funext row
  simp only [SessionRow.isOpen, SessionRow.volume, Function.comp]
  cases row.disconnectedAt <;> by_cases same : row.routingToken = token <;> simp [same]

/- An update of the open rows that keeps their token, seen in the columns. -/
theorem volumesUpdate (h : TunnelHistory) (token : RoutingToken) {change : SessionRow → SessionRow} (columns : Volume → Volume)
    (owner : ∀ row, (change row).routingToken = row.routingToken)
    (acts : ∀ row, (change row).volume = columns row.volume) (other : RoutingToken) :
    (h.updateOpen token change).volumes other =
      if other = token then Account.onOpen columns (h.volumes token) else h.volumes other := by
  have kept : (fun row : SessionRow => decide (row.routingToken = other)) ∘
      (fun row => if row.isOpen token then change row else row) = fun row => decide (row.routingToken = other) := by
    funext row
    simp only [Function.comp]
    split <;> simp only [owner]
  simp only [volumes, updateOpen, Account.onOpen]
  rw [List.filter_map, kept, List.map_map]
  split
  case isTrue same =>
    subst same
    rw [List.map_map]
    refine List.map_congr_left (fun row mem => ?_)
    have mine : row.routingToken = other := by simpa using (List.mem_filter.mp mem).2
    simp only [Function.comp, SessionRow.isOpen, mine, decide_true, Bool.true_and]
    have column : row.volume.closed = row.disconnectedAt.isSome := rfl
    cases ended : row.disconnectedAt with
    | none => simp [column, ended, acts]
    | some until' => simp [column, ended]
  case isFalse different =>
    refine List.map_congr_left (fun row mem => ?_)
    have theirs : row.routingToken = other := by simpa using (List.mem_filter.mp mem).2
    simp [SessionRow.isOpen, theirs, different]

theorem openFailing (h : TunnelHistory) (token : RoutingToken) (transport : Transport) (now : UInt64) :
    (h.openSession token transport now).failing = h.failing := by
  unfold openSession
  split
  · rfl
  · split <;> rfl

theorem volumesOpen (h : TunnelHistory) (token : RoutingToken) (transport : Transport) (now : UInt64) (other : RoutingToken) :
    (h.openSession token transport now).volumes other =
      if other = token then
        if !h.failing && (h.volumes token).all Volume.closed then ⟨false,0,0⟩ :: h.volumes token else h.volumes token
      else h.volumes other := by
  have occupied := openVolumes h token
  unfold openSession
  cases failing : h.failing with
  | true =>
    simp only [if_true, Bool.not_true, Bool.false_and, Bool.false_eq_true, if_false]
    split
    case isTrue same => rw [same]
    case isFalse => rfl
  | false =>
    simp only [Bool.false_eq_true, if_false, Bool.not_false, Bool.true_and, occupied]
    cases vacant : (h.volumes token).all Volume.closed with
    | true =>
      simp only [Bool.not_true, Bool.false_eq_true, if_false, if_true]
      by_cases same : other = token
      · subst same
        simp [volumes, SessionRow.volume]
      · simp [volumes, same, Ne.symm same]
    | false =>
      simp only [Bool.not_false, if_true, Bool.false_eq_true, if_false]
      refine Eq.trans (volumesMove token transport h.rows other) ?_
      split
      case isTrue same => rw [same]; rfl
      case isFalse => rfl

theorem volumesClose (h : TunnelHistory) (token : RoutingToken) (now : UInt64) (reason : CloseReason) (other : RoutingToken) :
    (h.closeSession token now reason).volumes other =
      if other = token then
        if !h.failing then Account.onOpen (fun v => { v with closed := true }) (h.volumes token) else h.volumes token
      else h.volumes other := by
  unfold closeSession
  cases failing : h.failing with
  | true =>
    simp only [if_true, Bool.not_true, Bool.false_eq_true, if_false]
    split
    case isTrue same => rw [same]
    case isFalse => rfl
  | false =>
    simp only [Bool.false_eq_true, if_false, Bool.not_false, if_true]
    refine volumesUpdate h token (fun v => { v with closed := true }) ?_ ?_ other
    · intro row; rfl
    · intro row; rfl

theorem closeFailing (h : TunnelHistory) (token : RoutingToken) (now : UInt64) (reason : CloseReason) :
    (h.closeSession token now reason).failing = h.failing := by
  unfold closeSession
  split <;> rfl

theorem volumesAdd {h next : TunnelHistory} {token : RoutingToken} {deltaIn deltaOut now : UInt64} {written : Bool}
    (ok : h.addSessionBytes token deltaIn deltaOut now = some (written,next)) (other : RoutingToken) :
    h.failing = false ∧ next.failing = false ∧ next.volumes other =
      if other = token then Account.onOpen (fun v => v.grown deltaIn deltaOut) (h.volumes token) else h.volumes other := by
  unfold addSessionBytes at ok
  split at ok <;> try contradiction
  rename_i works
  have works : h.failing = false := by simpa using works
  cases (Prod.mk.inj (Option.some.inj ok)).2
  refine ⟨works,works,volumesUpdate h token (fun v => v.grown deltaIn deltaOut) ?_ ?_ other⟩
  · intro row; rfl
  · intro row; rfl

end TunnelHistory

namespace Sessions

def account (s : Sessions) (token : RoutingToken) : Account where
  working := s.tunnelHistory.any (fun history => !history.failing)
  bytes := s.tunnelBytes[token]?.getD (0,0)
  mark := s.flushedBytes[token]?.getD (0,0)
  seen := s.lastSeen[token]?
  volumes := (s.tunnelHistory.map (fun history => history.volumes token)).getD []

theorem accountRelay (s : Sessions) (token : RoutingToken) (sent received now : UInt64) (other : RoutingToken) :
    (s.noteRelay token sent received now).account other =
      if other = token then (s.account token).relay sent received now else s.account other := by
  simp only [account, noteRelay, Account.relay, lookupInsert]
  split
  case isTrue same => subst same; rfl
  case isFalse => rfl

/- A call of the store on one token, seen in the ledgers. -/
theorem accountStore (s : Sessions) (token : RoutingToken) {call : TunnelHistory → TunnelHistory}
    (act : Bool → List Volume → List Volume) (quiet : act false [] = []) (failing : ∀ h, (call h).failing = h.failing)
    (acts : ∀ h other, (call h).volumes other =
      if other = token then act (!h.failing) (h.volumes token) else h.volumes other) (other : RoutingToken) :
    { s with tunnelHistory := s.tunnelHistory.map call }.account other =
      if other = token then { s.account token with volumes := act (s.account token).working (s.account token).volumes }
      else s.account other := by
  obtain ⟨_,_,_,_,history⟩ := s
  simp only [account]
  cases history with
  | none =>
    split
    case isTrue same => subst same; simp [quiet]
    case isFalse => rfl
  | some store =>
    simp only [Option.map_some, Option.any_some, Option.getD_some, failing, acts]
    split
    case isTrue same => subst same; rfl
    case isFalse => rfl

theorem accountConnected (s : Sessions) (token : RoutingToken) (now : UInt64) (transport : Transport) (other : RoutingToken) :
    (s.noteConnected token now transport).account other =
      if other = token then (s.account token).connect now else s.account other := by
  have opened := accountStore { s with lastSeen := s.lastSeen.insert token now } token
    (fun working volumes => if working && volumes.all Volume.closed then ⟨false,0,0⟩ :: volumes else volumes) rfl
    (fun h => TunnelHistory.openFailing h token transport now) (fun h => TunnelHistory.volumesOpen h token transport now) other
  refine Eq.trans opened ?_
  simp only [account, Account.connect, lookupInsert]
  split
  case isTrue => rfl
  case isFalse => rfl

theorem nothingAbove (v : UInt64) : saturatingSub 0 v = 0 := by
  unfold saturatingSub
  split
  case isTrue bound =>
    have zero : v = 0 := UInt64.le_zero_iff.mp bound
    rw [zero]
    rfl
  case isFalse => rfl

theorem accountFlushToken (s : Sessions) (now : UInt64) (token other : RoutingToken) :
    (s.flushTokenBytes now token).2.account other = if other = token then (s.account token).flush else s.account other := by
  have idle : (s.account token).flush = s.account token →
      s.account other = if other = token then (s.account token).flush else s.account other := by
    intro same
    split
    case isTrue mine => rw [mine, same]
    case isFalse => rfl
  unfold flushTokenBytes
  split
  case h_1 history current store counted =>
    have working : (s.account token).working = !history.failing := by simp [account, store]
    have bytes : (s.account token).bytes = current := by simp [account, counted]
    have volumes : (s.account token).volumes = history.volumes token := by simp [account, store]
    dsimp only
    split
    case isTrue none' =>
      refine idle ?_
      rw [Account.flush, bytes]
      exact if_pos (.inr none')
    case isFalse some' =>
      split
      case h_1 refused =>
        have failing : history.failing = true := by
          by_contra works
          simp [TunnelHistory.addSessionBytes, works] at refused
        exact idle (if_pos (.inl (by simp [working, failing])))
      case h_2 written next booked =>
        obtain ⟨works,still,after⟩ := TunnelHistory.volumesAdd booked other
        have grown : (s.account token).flush = { s.account token with
            mark := current
            volumes := Account.onOpen (fun v => v.grown (saturatingSub current.1 (s.account token).mark.1)
              (saturatingSub current.2 (s.account token).mark.2)) (history.volumes token) } := by
          rw [Account.flush, ← bytes, volumes]
          refine if_neg ?_
          rintro (stopped | none')
          · simp [working, works] at stopped
          · exact some' (bytes ▸ none')
        rw [grown]
        simp only [account, lookupInsert, Option.map_some, Option.getD_some, Option.any_some, store, after, still, works]
        split
        case isTrue mine => subst mine; rfl
        case isFalse => rfl
  case h_2 missing =>
    refine idle ?_
    cases store : s.tunnelHistory with
    | none => exact if_pos (.inl (by simp [account, store]))
    | some history =>
      cases counted : s.tunnelBytes[token]? with
      | some current => exact absurd counted (missing history current store)
      | none =>
        refine if_pos (.inr ?_)
        simp [account, counted, nothingAbove]

theorem accountDisconnect (s : Sessions) (token : RoutingToken) (now : UInt64) (reason : CloseReason) (other : RoutingToken) :
    (s.disconnect token now reason).account other =
      if other = token then (s.account token).flush.close else s.account other := by
  have flushed := accountFlushToken { s with connectedSince := s.connectedSince.erase token } now token
  rw [disconnect, closeTunnelSession]
  generalize ({ s with connectedSince := s.connectedSince.erase token }.flushTokenBytes now token).2 = f at flushed
  have closed := accountStore f token
    (fun working volumes => if working then Account.onOpen (fun v => { v with closed := true }) volumes else volumes) rfl
    (fun h => TunnelHistory.closeFailing h token now reason) (fun h => TunnelHistory.volumesClose h token now reason) other
  refine Eq.trans closed ?_
  rw [flushed, if_pos rfl, flushed]
  split <;> rfl

theorem accountAgeOut (s : Sessions) (live : RoutingToken → Bool) (now maxAgeSecs : UInt64) (token : RoutingToken) :
    token ∈ s.stale live now maxAgeSecs ∧
      (s.ageOutStaleHistory live now maxAgeSecs).2.account token = (s.account token).forget ∨
    token ∉ s.stale live now maxAgeSecs ∧ (s.ageOutStaleHistory live now maxAgeSecs).2.account token = s.account token := by
  have distinct : (s.stale live now maxAgeSecs).Nodup :=
    (keysNodup s.lastSeen).sublist (List.filter_sublist.map Prod.fst)
  refine Machine.foldlView (fun s : Sessions => s.account token) token Account.forget ?_ ?_ distinct s
  · intro s
    simp [account, Account.forget]
  · intro s other different
    simp only [account, lookupErase, if_neg (Ne.symm different)]

/- The eviction closes the open row if there is one. -/
def closeIdle (token : RoutingToken) (closedAt : UInt64) (history : TunnelHistory) : TunnelHistory :=
  if history.openSessionExists token = some true then history.closeSession token closedAt .idleEvicted else history

theorem closeIdleFailing (token : RoutingToken) (closedAt : UInt64) (history : TunnelHistory) :
    (closeIdle token closedAt history).failing = history.failing := by
  unfold closeIdle
  split
  · exact TunnelHistory.closeFailing history token closedAt .idleEvicted
  · rfl

theorem closeIdleVolumes (token : RoutingToken) (closedAt : UInt64) (history : TunnelHistory) (other : RoutingToken) :
    (closeIdle token closedAt history).volumes other =
      if other = token then
        if !history.failing then Account.onOpen (fun v => { v with closed := true }) (history.volumes token)
        else history.volumes token
      else history.volumes other := by
  unfold closeIdle
  split
  case isTrue => exact TunnelHistory.volumesClose history token closedAt .idleEvicted other
  case isFalse shut =>
    split
    case isFalse => rfl
    case isTrue same =>
      subst same
      split
      case isFalse => rfl
      case isTrue works =>
        have works : history.failing = false := by simpa using works
        have closed : (history.volumes other).all Volume.closed := by
          simpa [TunnelHistory.openSessionExists, works, TunnelHistory.openVolumes] using shut
        exact (Account.onOpenClosed _ closed).symm

theorem accountEvict (live : RoutingToken → Bool) (now idleEvictSecs : UInt64) (s : Sessions) (token other : RoutingToken) :
    (evictIdle live now idleEvictSecs s token).2.account other =
      if other = token then
        if !(s.account token).seen.all (fun seen => idleEvictSecs ≤ saturatingSub now seen) || live token then s.account token
        else (s.account token).evict
      else s.account other := by
  unfold evictIdle
  dsimp only
  change _ = if other = token then
    if (!(s.lastSeen[token]?).all (fun seen => idleEvictSecs ≤ saturatingSub now seen) || live token) = true then _ else _ else _
  split
  case isTrue =>
    split
    case isTrue same => rw [same]
    case isFalse => rfl
  case isFalse =>
    have closed := accountStore s token
      (fun working volumes => if working then Account.onOpen (fun v => { v with closed := true }) volumes else volumes) rfl
      (closeIdleFailing token (s.lastSeen[token]?.getD now)) (closeIdleVolumes token (s.lastSeen[token]?.getD now)) other
    generalize moved : ({ s with tunnelHistory := s.tunnelHistory.map (closeIdle token (s.lastSeen[token]?.getD now)) } : Sessions) = m
      at closed
    have same : s.tunnelHistory.map (closeIdle token (s.lastSeen[token]?.getD now)) = m.tunnelHistory := by rw [← moved]
    have parts : s.tunnelBytes = m.tunnelBytes ∧ s.lastSeen = m.lastSeen ∧ s.flushedBytes = m.flushedBytes := by
      rw [← moved]
      exact ⟨rfl,rfl,rfl⟩
    refine Eq.trans (b := if other = token then { m.account other with bytes := (0,0), mark := (0,0), seen := none }
      else m.account other) ?_ ?_
    · change (Sessions.mk _ _ _ _ (s.tunnelHistory.map (closeIdle token (s.lastSeen[token]?.getD now)))).account other = _
      rw [same, parts.1, parts.2.1, parts.2.2]
      simp only [account, lookupErase]
      split <;> rfl
    · rw [closed]
      split <;> rfl

theorem flushIdle {a : Account} (nothing : a.bytes = (0,0)) : a.flush = a := by
  refine if_pos (.inr ?_)
  simp [nothing, nothingAbove]

/- A flush round is a flush of every ledger, and of some an eviction after it. -/
theorem accountFlush (s : Sessions) (live : RoutingToken → Bool) (now idleEvictSecs : UInt64) (token : RoutingToken) :
    (s.flushTunnelHistory live now idleEvictSecs).2.account token = (s.account token).flush ∨
    (s.flushTunnelHistory live now idleEvictSecs).2.account token = (s.account token).flush.evict := by
  have written : ∀ s : Sessions, (s.tunnelBytes.keys.foldl (fun s token => (s.flushTokenBytes now token).2) s).account token =
      (s.account token).flush := by
    intro s
    have each := Machine.foldlView (f := fun (s : Sessions) token => (s.flushTokenBytes now token).2)
      (fun s => s.account token) token Account.flush (fun s => by rw [accountFlushToken, if_pos rfl])
      (fun s other different => by rw [accountFlushToken, if_neg (Ne.symm different)]) s.tunnelBytes.nodup_keys s
    obtain ⟨_,flushed⟩ | ⟨absent,same⟩ := each
    · exact flushed
    · have nothing : (s.account token).bytes = (0,0) := by
        have missing : s.tunnelBytes[token]? = none := ExtTreeMap.getElem?_eq_none (fun found => absent (ExtTreeMap.mem_keys.mpr found))
        simp [account, missing]
      exact same.trans (flushIdle nothing).symm
  have swept : ∀ (candidates : List RoutingToken) (s : Sessions), candidates.Nodup →
      (candidates.foldl (fun s token => (evictIdle live now idleEvictSecs s token).2) s).account token = s.account token ∨
      (candidates.foldl (fun s token => (evictIdle live now idleEvictSecs s token).2) s).account token = (s.account token).evict := by
    intro candidates s distinct
    have each := Machine.foldlView (f := fun (s : Sessions) token => (evictIdle live now idleEvictSecs s token).2)
      (fun s => s.account token) token
      (fun a => if !a.seen.all (fun seen => idleEvictSecs ≤ saturatingSub now seen) || live token then a else a.evict)
      (fun s => by rw [accountEvict, if_pos rfl]) (fun s other different => by rw [accountEvict, if_neg (Ne.symm different)])
      distinct s
    obtain ⟨_,acted⟩ | ⟨_,same⟩ := each
    · rw [acted]
      split
      · exact .inl rfl
      · exact .inr rfl
    · exact .inl same
  unfold flushTunnelHistory
  split
  case isTrue missing =>
    left
    have stopped : (s.account token).working = false := by
      rw [Option.isNone_iff_eq_none] at missing
      simp [account, missing]
    exact (if_pos (.inl stopped)).symm
  case isFalse =>
    simp only [Machine.tallyState]
    rw [← written s]
    exact swept _ _ (List.nodup_dedup _)

end Sessions

end CadsTunnel.Edge
