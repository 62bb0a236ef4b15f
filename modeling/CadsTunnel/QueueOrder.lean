import CadsTunnel.CaBudget
import CadsTunnel.Machine

/-! The queue of the hostnames that wait for a slot, in the order in which they joined it.
The order comes from a time in the row that the calls set, clear or leave behind: a hostname
that is opted back in has the time it had before, or none. -/
namespace CadsTunnel.QueueOrder
open OrderedMap Sql TunnelStore CertStore
open CaBudget (rowNamed)
open Std (ExtTreeMap)

structure CertAdmission where
  status : Status
  assignedCa : Option String
  claimState : ClaimState
  claimDeadline : Option Int
  queuePosition : Option Nat
  certClaimOptOut : Bool

/- The rows counted as in line before a time. -/
def ahead (queuedAt : Int) (_ : String) (r : TunnelRow) : Bool :=
  r.status = .gelb && r.claimState = .none && r.queuedAt.any (· < queuedAt) && !r.certClaimOptOut

def certAdmissionForHostname (hostname : String) : Work (Option CertAdmission) := do
  let row ← select (rowOf hostname)
  match row with
  | none => pure none
  | some (_,r) =>
    let admission (position : Option Nat) : CertAdmission := ⟨r.status,r.assignedCa,r.claimState,r.claimDeadline,position,r.certClaimOptOut⟩
    if r.status = .gelb && r.claimState = .none && !r.certClaimOptOut then
      match r.queuedAt with
      | some queuedAt =>
        let position ← select (fun s => (s.tunnels.filter (ahead queuedAt)).size)
        pure (some (admission (some position)))
      | none => pure (some (admission none))
    else pure (some (admission none))

inductive Op where
  | enterGelbQueue (hostname : String)
  | lapseExpiredClaims
  | requeueLegacyLapsedClaims
  | reclaimCertSlot (subject hostname : String)
  | setCertClaimOptOut (subject tunnelId : String) (enabled : Bool)
  | offerClaim (hostname ca : String) (deadline : Int)
  | recordIssuanceComplete (hostname domain : String)

def Op.work (now : Int) : Op → Work Unit
  | .enterGelbQueue hostname => do
    let _ ← CertStore.enterGelbQueue hostname now
  | .lapseExpiredClaims => do
    let _ ← CertStore.lapseExpiredClaims now
  | .requeueLegacyLapsedClaims => do
    let _ ← CertStore.requeueLegacyLapsedClaims now
  | .reclaimCertSlot subject hostname => do
    let _ ← CertStore.reclaimCertSlot subject hostname now
  | .setCertClaimOptOut subject tunnelId enabled => do
    let _ ← CertStore.setCertClaimOptOut subject tunnelId enabled
  | .offerClaim hostname ca deadline => do
    let _ ← CertStore.offerClaim hostname ca now deadline
  | .recordIssuanceComplete hostname domain => do
    let _ ← CertStore.recordIssuanceComplete hostname domain now

structure Call where
  op : Op
  now : Int
  faults : List Bool := []

/- The tables, the time of the last call, and when each tunnel last joined the queue. -/
structure State where
  tables : Tables
  clock : Int
  joined : String → Option Int

def listed (s : Tables) (id : String) : Bool := s.tunnels[id]?.any waiting

def step (s : State) (call : Call) : Except SqlError Unit × State :=
  let (answer,tables) := perform (call.op.work call.now) s.tables call.faults
  (answer,⟨tables,call.now,fun id => if listed tables id && !listed s.tables id then some call.now else s.joined id⟩)

section Rows

/- Which rows a call writes to, and what. -/
def Op.touches (now : Int) : Op → String → TunnelRow → Bool
  | .enterGelbQueue hostname => inRot hostname
  | .lapseExpiredClaims => expired now
  | .requeueLegacyLapsedClaims => legacyLapsed
  | .reclaimCertSlot subject hostname => reclaimable subject hostname
  | .setCertClaimOptOut subject tunnelId _ => fun k r => k = tunnelId && r.subject = subject
  | .offerClaim hostname _ _ => unassigned hostname
  | .recordIssuanceComplete hostname _ => completable hostname

def Op.change (now : Int) : Op → TunnelRow → TunnelRow
  | .enterGelbQueue _ => queued now
  | .lapseExpiredClaims => lapsed now
  | .requeueLegacyLapsedClaims => requeued now
  | .reclaimCertSlot _ _ => requeued now
  | .setCertClaimOptOut _ _ enabled => fun r => { r with certClaimOptOut := enabled }
  | .offerClaim _ ca deadline => offered ca now deadline
  | .recordIssuanceComplete _ _ => completed

def Op.completes : Op → Bool
  | .recordIssuanceComplete _ _ => true
  | _ => false

/- A row of the store as its calls leave it. -/
structure Tidy (clock : Int) (r : TunnelRow) : Prop where
  named : r.hostname = none → r.status = .rot
  assigned : r.assignedCa ≠ none → r.claimState = .offered ∨ r.status = .gruen
  past : ∀ t, r.queuedAt = some t → t ≤ clock

variable {op : Op} {now clock : Int} {id : String} {r : TunnelRow}

theorem waitingIff (r : TunnelRow) : waiting r ↔ r.status = .gelb ∧ r.claimState = .none ∧ r.assignedCa = none ∧ r.certClaimOptOut = false := by
  simp [waiting, and_assoc]

theorem hitHostname {hostname : String} {rest : Bool} (hit : (decide (r.hostname = some hostname) && rest) = true) :
    r.hostname ≠ none ∧ rest = true := by
  rw [Bool.and_eq_true, decide_eq_true_eq] at hit
  exact ⟨by rw [hit.1]; exact Option.some_ne_none _,hit.2⟩

theorem tidyChange (tidy : Tidy clock r) (later : clock < now) (hit : op.touches now id r) : Tidy now (op.change now r) := by
  have past : ∀ t, r.queuedAt = some t → t ≤ now := fun t queued => (tidy.past t queued).trans later.le
  have fresh : ∀ t, some now = some t → t ≤ now := fun t same => (Option.some.inj same).ge
  cases op with
  | enterGelbQueue hostname =>
    obtain ⟨some',red⟩ := hitHostname hit
    refine ⟨fun none' => absurd none' some',fun assigned => .inl ?_,fresh⟩
    exact (tidy.assigned assigned).resolve_right (by rw [of_decide_eq_true red]; decide)
  | lapseExpiredClaims =>
    refine ⟨tidy.named,fun assigned => absurd rfl assigned,fun t queued => ?_⟩
    change (if r.certClaimOptOut then none else some now) = some t at queued
    split at queued
    · contradiction
    · exact fresh t queued
  | requeueLegacyLapsedClaims | reclaimCertSlot =>
    refine ⟨tidy.named,fun assigned => .inr ?_,fresh⟩
    have lapsed : r.claimState = .lapsed := by
      simp only [Op.touches, legacyLapsed, reclaimable, Bool.and_eq_true, decide_eq_true_eq] at hit
      first
      | exact hit.1
      | exact hit.2
    exact (tidy.assigned assigned).resolve_left (by rw [lapsed]; decide)
  | setCertClaimOptOut subject tunnelId enabled => exact ⟨tidy.named,tidy.assigned,past⟩
  | offerClaim hostname ca deadline => exact ⟨fun none' => absurd none' (hitHostname hit).1,fun _ => .inl rfl,past⟩
  | recordIssuanceComplete hostname domain => exact ⟨fun none' => absurd none' (hitHostname hit).1,fun _ => .inr rfl,past⟩

theorem hitWaits (hit : op.touches now id r) (before : waiting r) : (∃ subject tunnelId enabled, op = .setCertClaimOptOut subject tunnelId enabled) ∨
    ∃ hostname ca deadline, op = .offerClaim hostname ca deadline := by
  obtain ⟨yellow,open',-,-⟩ := (waitingIff r).mp before
  cases op with
  | setCertClaimOptOut subject tunnelId enabled => exact .inl ⟨subject,tunnelId,enabled,rfl⟩
  | offerClaim hostname ca deadline => exact .inr ⟨hostname,ca,deadline,rfl⟩
  | enterGelbQueue => simp [Op.touches, inRot, yellow] at hit
  | lapseExpiredClaims => simp [Op.touches, expired, open'] at hit
  | requeueLegacyLapsedClaims => simp [Op.touches, legacyLapsed, open'] at hit
  | reclaimCertSlot => simp [Op.touches, reclaimable, open'] at hit
  | recordIssuanceComplete => simp [Op.touches, completable, yellow, open'] at hit

/- Who waits before and after a call keeps the time of queueing. -/
theorem waitsOn (hit : op.touches now id r) (before : waiting r) (after : waiting (op.change now r)) :
    (op.change now r).queuedAt = r.queuedAt := by
  obtain ⟨subject,tunnelId,enabled,rfl⟩ | ⟨hostname,ca,deadline,rfl⟩ := hitWaits hit before
  · rfl
  · simp [Op.change, waiting, offered] at after

/- Who joins gets the time of the call, unless by opting back in. -/
theorem joinsWith (hit : op.touches now id r) (after : waiting (op.change now r)) :
    (op.change now r).queuedAt = some now ∨ ∃ subject tunnelId, op = .setCertClaimOptOut subject tunnelId false ∧ id = tunnelId ∧
      (op.change now r).queuedAt = r.queuedAt := by
  obtain ⟨yellow,open',free,out⟩ := (waitingIff _).mp after
  cases op with
  | enterGelbQueue | requeueLegacyLapsedClaims | reclaimCertSlot => exact .inl rfl
  | lapseExpiredClaims =>
    refine .inl ?_
    change r.certClaimOptOut = false at out
    change (if r.certClaimOptOut then none else some now) = some now
    rw [out]
    rfl
  | setCertClaimOptOut subject tunnelId enabled =>
    cases enabled with
    | true => contradiction
    | false =>
      rw [Op.touches, Bool.and_eq_true, decide_eq_true_eq] at hit
      exact .inr ⟨subject,tunnelId,rfl,hit.1,rfl⟩
  | offerClaim => contradiction
  | recordIssuanceComplete => contradiction

theorem hostnameKept (op : Op) (now : Int) (r : TunnelRow) : (op.change now r).hostname = r.hostname := by
  cases op <;> rfl

end Rows

section Steps
variable {s : State} {call : Call}

/- A call that has failed before it wrote. -/
def Call.failed (call : Call) : Bool := call.faults.headD false

theorem workTables (op : Op) (now : Int) (other : op.completes = false) (s : Tables) (faults : List Bool) :
    (perform (op.work now) s faults).2 = if faults.headD false then s else Tables.updated (op.touches now) (op.change now) s := by
  cases op with
  | recordIssuanceComplete => contradiction
  | enterGelbQueue | lapseExpiredClaims | requeueLegacyLapsedClaims | reclaimCertSlot | setCertClaimOptOut | offerClaim =>
    simp only [Op.work, CertStore.enterGelbQueue, CertStore.lapseExpiredClaims, CertStore.requeueLegacyLapsedClaims, CertStore.reclaimCertSlot,
      CertStore.setCertClaimOptOut, CertStore.offerClaim, updateOwned, updateRows, bind_assoc, pure_bind]
    rw [performExecute]
    split <;> rfl

/- What becomes of the rows. -/
theorem stepRows (s : State) (call : Call) : ∃ wrote : Bool, (call.op.completes = false → wrote = !call.failed) ∧
    ∀ id, (step s call).2.tables.tunnels[id]? = s.tables.tunnels[id]?.map fun r =>
      if wrote && call.op.touches call.now id r then call.op.change call.now r else r := by
  cases done : call.op.completes with
  | false =>
    refine ⟨!call.failed,fun _ => rfl,fun id => ?_⟩
    change (perform (call.op.work call.now) s.tables call.faults).2.tunnels[id]? = _
    rw [workTables _ _ done]
    cases failed : call.faults.headD false with
    | true =>
      simp only [Call.failed, failed, Bool.not_true, Bool.false_and, Bool.false_eq_true, if_false, if_true]
      exact Option.map_id'.symm
    | false =>
      simp only [Call.failed, failed, Bool.not_false, Bool.true_and, Bool.false_eq_true, if_false]
      exact lookupUpdatedRow _ _ _ _
  | true =>
    cases op : call.op with
    | recordIssuanceComplete hostname domain =>
      have updated (id : String) : (Tables.updated (completable hostname) CertStore.completed s.tables).tunnels[id]? =
          s.tables.tunnels[id]?.map fun r => if completable hostname id r then CertStore.completed r else r := lookupUpdatedRow _ _ _ _
      obtain ⟨m,same⟩ : ∃ m, (step s call).2.tables = m := ⟨_,rfl⟩
      have completed : Completed hostname domain call.now s.tables m := by
        have whole : Ends (Op.work call.now (.recordIssuanceComplete hostname domain)) s.tables
            (fun _ m => Completed hostname domain call.now s.tables m) := endsGives (completeEnds hostname domain call.now)
        rw [← op] at whole
        exact same ▸ whole call.faults
      rw [same]
      cases completed with
      | idle => exact ⟨false,fun other => by contradiction,fun id => by simp⟩
      | uncounted => exact ⟨true,fun other => by contradiction,fun id => updated id⟩
      | counted => exact ⟨true,fun other => by contradiction,fun id => updated id⟩
    | enterGelbQueue | lapseExpiredClaims | requeueLegacyLapsedClaims | reclaimCertSlot | setCertClaimOptOut | offerClaim =>
      rw [op] at done
      contradiction

/- A hostname joins the queue by a call. -/
def joins (call : Call) (id : String) (r : TunnelRow) : Bool :=
  !call.failed && call.op.touches call.now id r && !waiting r && waiting (call.op.change call.now r)

structure Kept (s : State) : Prop where
  distinct : Distinct s.tables.tunnels
  tidy : ∀ (id : String) (r : TunnelRow), s.tables.tunnels[id]? = some r → Tidy s.clock r
  timed : ∀ (id : String) (r : TunnelRow), s.tables.tunnels[id]? = some r → waiting r → ∃ t q, s.joined id = some t ∧ r.queuedAt = some q ∧ t ≤ s.clock
  apart : ∀ (a b : String) (r t : TunnelRow), s.tables.tunnels[a]? = some r → s.tables.tunnels[b]? = some t → waiting r → waiting t → a ≠ b →
    ∀ j k q p, s.joined a = some j → s.joined b = some k → r.queuedAt = some q → t.queuedAt = some p → j < k ∧ q < p ∨ k < j ∧ p < q

/- A call adds one hostname at most, and opts one back in only with a time later than those
of all that wait. -/
structure Fair (s : State) (call : Call) : Prop where
  one : ∀ (a b : String) (r t : TunnelRow), s.tables.tunnels[a]? = some r → s.tables.tunnels[b]? = some t → joins call a r → joins call b t → a = b
  last : ∀ (subject id : String) (r : TunnelRow), call.op = .setCertClaimOptOut subject id false → s.tables.tunnels[id]? = some r →
    joins call id r → ∃ q, r.queuedAt = some q ∧
      ∀ (b : String) (t : TunnelRow), s.tables.tunnels[b]? = some t → waiting t → ∀ p, t.queuedAt = some p → p < q

/- What becomes of a row that waits after a call. -/
theorem waitsAfter (s : State) (call : Call) {id : String} {r : TunnelRow} (found : (step s call).2.tables.tunnels[id]? = some r) (waits : waiting r) :
    ∃ old, s.tables.tunnels[id]? = some old ∧
      (waiting old ∧ r.queuedAt = old.queuedAt ∧ (step s call).2.joined id = s.joined id ∨
        joins call id old ∧ r = call.op.change call.now old ∧ (step s call).2.joined id = some call.now) := by
  obtain ⟨wrote,when,rows⟩ := stepRows s call
  have now : listed (step s call).2.tables id = true := by simp [listed, found, waits]
  rw [rows id] at found
  obtain ⟨old,before,same⟩ := Option.map_eq_some_iff.mp found
  have was : listed s.tables id = waiting old := by simp [listed, before]
  have stamp : (step s call).2.joined id = if waiting old then s.joined id else some call.now := by
    change (if listed (step s call).2.tables id && !listed s.tables id then some call.now else s.joined id) = _
    rw [now, was]
    cases waiting old <;> rfl
  refine ⟨old,before,?_⟩
  split at same
  case isFalse =>
    rw [same] at stamp ⊢
    rw [waits] at stamp
    exact .inl ⟨waits,rfl,stamp⟩
  case isTrue both =>
    obtain ⟨written,hit⟩ := (Bool.and_eq_true _ _).mp both
    subst same
    cases already : waiting old with
    | true =>
      rw [already] at stamp
      exact .inl ⟨rfl,waitsOn hit already waits,stamp⟩
    | false =>
      rw [already] at stamp
      refine .inr ⟨?_,rfl,stamp⟩
      have other : call.op.completes = false := by
        cases op : call.op with
        | recordIssuanceComplete =>
          rw [op] at waits
          contradiction
        | enterGelbQueue | lapseExpiredClaims | requeueLegacyLapsedClaims | reclaimCertSlot | setCertClaimOptOut | offerClaim => rfl
      rw [when other] at written
      simp [joins, written, hit, already, waits]

/- A hostname that joins waits from then on. -/
theorem joinedAfter {s : State} {call : Call} {id : String} {r : TunnelRow} (found : s.tables.tunnels[id]? = some r) (joined : joins call id r) :
    (step s call).2.tables.tunnels[id]? = some (call.op.change call.now r) ∧ waiting (call.op.change call.now r) ∧
      (step s call).2.joined id = some call.now := by
  obtain ⟨wrote,when,rows⟩ := stepRows s call
  simp only [joins, Bool.and_eq_true, Bool.not_eq_true'] at joined
  obtain ⟨⟨⟨ran,hit⟩,before⟩,waits⟩ := joined
  have other : call.op.completes = false := by
    cases op : call.op with
    | recordIssuanceComplete =>
      rw [op] at waits
      contradiction
    | enterGelbQueue | lapseExpiredClaims | requeueLegacyLapsedClaims | reclaimCertSlot | setCertClaimOptOut | offerClaim => rfl
  have written : wrote = true := by rw [when other, ran]; rfl
  have after : (step s call).2.tables.tunnels[id]? = some (call.op.change call.now r) := by
    rw [rows id, found, Option.map_some, written, hit]
    rfl
  refine ⟨after,waits,?_⟩
  have now : listed (step s call).2.tables id = true := by simp [listed, after, waits]
  have was : listed s.tables id = false := by simp [listed, found, before]
  change (if listed (step s call).2.tables id && !listed s.tables id then some call.now else s.joined id) = _
  rw [now, was]
  rfl

theorem distinctNext (distinct : Distinct s.tables.tunnels) (call : Call) : Distinct (step s call).2.tables.tunnels := by
  obtain ⟨wrote,when,rows⟩ := stepRows s call
  refine distinctKept distinct ?_
  intro id r found
  rw [rows id] at found
  obtain ⟨old,before,rfl⟩ := Option.map_eq_some_iff.mp found
  refine ⟨old,before,?_⟩
  split
  · exact hostnameKept _ _ _
  · rfl

theorem keptNext (kept : Kept s) (later : s.clock < call.now) (fair : Fair s call) : Kept (step s call).2 := by
  obtain ⟨wrote,when,rows⟩ := stepRows s call
  have tidy : ∀ (id : String) (r : TunnelRow), (step s call).2.tables.tunnels[id]? = some r → Tidy call.now r := by
    intro id r found
    rw [rows id] at found
    obtain ⟨old,before,rfl⟩ := Option.map_eq_some_iff.mp found
    have was := kept.tidy id old before
    split
    case isTrue hit => exact tidyChange was later ((Bool.and_eq_true _ _).mp hit).2
    case isFalse => exact ⟨was.named,was.assigned,fun t queued => (was.past t queued).trans later.le⟩
  /- Who joins has the time of the call, or one after all that wait. -/
  have behind (a b : String) (r t : TunnelRow) (here : s.tables.tunnels[a]? = some r) (there : s.tables.tunnels[b]? = some t) (joined : joins call a r)
      (waits : waiting t) : ∃ q, (call.op.change call.now r).queuedAt = some q ∧ ∀ p, t.queuedAt = some p → p < q := by
    have written := joined
    simp only [joins, Bool.and_eq_true, Bool.not_eq_true'] at written
    obtain timed | ⟨subject,tunnelId,op,rfl,same⟩ := joinsWith written.1.1.2 written.2
    · exact ⟨call.now,timed,fun p queued => ((kept.tidy b t there).past p queued).trans_lt later⟩
    · obtain ⟨q,queued,last⟩ := fair.last subject a r op here joined
      exact ⟨q,same.trans queued,last b t there waits⟩
  refine ⟨distinctNext kept.distinct call,tidy,?_,?_⟩
  · intro id r found waits
    obtain ⟨old,before,⟨waited,queued,stamp⟩ | ⟨joined,rfl,stamp⟩⟩ := waitsAfter s call found waits
    · obtain ⟨t,q,since,time,past⟩ := kept.timed id old before waited
      exact ⟨t,q,stamp.trans since,queued.trans time,past.trans later.le⟩
    · have written := joined
      simp only [joins, Bool.and_eq_true, Bool.not_eq_true'] at written
      obtain timed | ⟨subject,tunnelId,op,rfl,same⟩ := joinsWith written.1.1.2 written.2
      · exact ⟨call.now,call.now,stamp,timed,le_rfl⟩
      · obtain ⟨q,queued,_⟩ := fair.last subject id old op before joined
        exact ⟨call.now,q,stamp,same.trans queued,le_rfl⟩
  · intro a b r t here there first second apart j k q p since since' time time'
    obtain ⟨r',before,left⟩ := waitsAfter s call here first
    obtain ⟨t',before',right⟩ := waitsAfter s call there second
    obtain ⟨waited,queued,stamp⟩ | ⟨joined,rfl,stamp⟩ := left <;> obtain ⟨waited',queued',stamp'⟩ | ⟨joined',rfl,stamp'⟩ := right
    · exact kept.apart a b r' t' before before' waited waited' apart j k q p (stamp ▸ since) (stamp' ▸ since') (queued ▸ time) (queued' ▸ time')
    · obtain ⟨j',_,since'',_,past⟩ := kept.timed a r' before waited
      obtain ⟨p',stands,last⟩ := behind b a t' r' before' before joined' waited
      rw [stamp, since''] at since
      rw [stamp'] at since'
      rw [stands] at time'
      cases since
      cases since'
      cases time'
      exact .inl ⟨past.trans_lt later,last q (queued ▸ time)⟩
    · obtain ⟨k',_,since'',_,past⟩ := kept.timed b t' before' waited'
      obtain ⟨q',stands,last⟩ := behind a b r' t' before before' joined waited'
      rw [stamp', since''] at since'
      rw [stamp] at since
      rw [stands] at time
      cases since
      cases since'
      cases time
      exact .inr ⟨past.trans_lt later,last p (queued' ▸ time')⟩
    · exact absurd (fair.one a b r' t' before before' joined joined') apart

end Steps

section Listings
variable {s : State} {rows : List (String × TunnelRow)} {names : List String} {id : String} {r : TunnelRow}

/- How many rows are in line before a time. -/
def place (s : Tables) (queuedAt : Int) : Nat := (s.tunnels.filter (ahead queuedAt)).size

/- The list names the rows that wait in the order in which they joined, and every one of them is told its index. -/
structure Listing (s : State) (rows : List (String × TunnelRow)) (names : List String) : Prop where
  listed : perform gelbQueueFifo s.tables [] = (.ok names,s.tables)
  waiting : rows.Perm (s.tables.tunnels.toList.filter (fun e => CertStore.waiting e.2))
  named : rows.map (fun e => e.2.hostname) = names.map some
  ordered : rows.Pairwise (fun a b => ∃ j k, s.joined a.1 = some j ∧ s.joined b.1 = some k ∧ j ≤ k)
  placed : ∀ (i : Nat) (name : String), names[i]? = some name → ∃ admission,
    perform (certAdmissionForHostname name) s.tables [] = (.ok (some admission),s.tables) ∧ admission.queuePosition = some i

def InOrder (s : State) : Prop := ∃ rows names, Listing s rows names

/- Before an element of a sorted list stand as many as are below it. -/
theorem countBelow {α : Type} {key : α → Int} {xs : List α} (sorted : xs.Pairwise (fun a b => key a < key b)) {i : Nat} {x : α} (here : xs[i]? = some x) :
    xs.countP (fun a => key a < key x) = i := by
  induction xs generalizing i with
  | nil => contradiction
  | cons first rest ih =>
    obtain ⟨below,rest'⟩ := List.pairwise_cons.mp sorted
    cases i with
    | zero =>
      cases Option.some.inj here
      rw [List.countP_eq_zero]
      intro a mem
      rcases List.mem_cons.mp mem with rfl | later
      · simp
      · simpa using (below a later).le
    | succ i =>
      rw [List.getElem?_cons_succ] at here
      rw [List.countP_cons_of_pos (by simpa using below x (List.mem_of_getElem? here)), ih rest' here]

theorem waitsIff : (id,r) ∈ s.tables.tunnels.toList.filter (fun e => CertStore.waiting e.2) ↔ s.tables.tunnels[id]? = some r ∧ CertStore.waiting r := by
  rw [List.mem_filter, Std.ExtTreeMap.mem_toList_iff_getElem?_eq_some]

theorem aheadIff {clock : Int} (tidy : Tidy clock r) (q : Int) : ahead q id r = (CertStore.waiting r && decide (r.queuedAt.any (· < q))) := by
  unfold ahead CertStore.waiting
  cases ca : r.assignedCa with
  | none => simp [Bool.and_assoc, Bool.and_comm]
  | some _ =>
    obtain offers | green := tidy.assigned (by rw [ca]; exact Option.some_ne_none _)
    · simp [offers]
    · simp [green]

theorem placeCount (kept : Kept s) (waiting : rows.Perm (s.tables.tunnels.toList.filter (fun e => CertStore.waiting e.2))) (q : Int) :
    place s.tables q = rows.countP (fun e => e.2.queuedAt.any (· < q)) := by
  have same : s.tables.tunnels.toList.filter (fun e => ahead q e.1 e.2) =
      (s.tables.tunnels.toList.filter (fun e => CertStore.waiting e.2)).filter (fun e => e.2.queuedAt.any (· < q)) := by
    rw [List.filter_filter]
    refine List.filter_congr ?_
    intro e mem
    have found : s.tables.tunnels[e.1]? = some e.2 := Std.ExtTreeMap.mem_toList_iff_getElem?_eq_some.mp mem
    rw [aheadIff (kept.tidy e.1 e.2 found), Bool.and_comm]
    simp
  rw [place, ← Std.ExtTreeMap.length_toList, Std.ExtTreeMap.toList_filter, same, waiting.countP_eq, List.countP_eq_length_filter]

theorem performAdmission (distinct : Distinct s.tables.tunnels) (found : s.tables.tunnels[id]? = some r) {name : String}
    (named : r.hostname = some name) (waits : CertStore.waiting r) :
    perform (certAdmissionForHostname name) s.tables [] =
      (.ok (some ⟨r.status,r.assignedCa,r.claimState,r.claimDeadline,r.queuedAt.map (place s.tables),r.certClaimOptOut⟩),s.tables) := by
  have row : rowOf name s.tables = some (id,r) := rowNamed distinct found named
  obtain ⟨yellow,open',_,out⟩ := (waitingIff r).mp waits
  unfold certAdmissionForHostname
  rw [select, performStatement, row]
  simp only [List.headD_nil, Bool.false_eq_true, if_false]
  rw [if_pos (by simp [yellow, open', out])]
  cases r.queuedAt with
  | none => rfl
  | some queuedAt => rfl

/- Where a row that waits stands. -/
theorem listedPlace (distinct : Distinct s.tables.tunnels) (listing : Listing s rows names) (found : s.tables.tunnels[id]? = some r)
    (waits : CertStore.waiting r) : ∃ i q, rows[i]? = some (id,r) ∧ r.queuedAt = some q ∧ place s.tables q = i := by
  have mem : (id,r) ∈ rows := listing.waiting.mem_iff.mpr (waitsIff.mpr ⟨found,waits⟩)
  obtain ⟨i,here⟩ := List.getElem?_of_mem mem
  have named : (names.map some)[i]? = some r.hostname := by rw [← listing.named, List.getElem?_map, here]; rfl
  rw [List.getElem?_map] at named
  obtain ⟨name,at',same⟩ := Option.map_eq_some_iff.mp named
  obtain ⟨admission,answer,position⟩ := listing.placed i name at'
  rw [performAdmission distinct found same.symm waits] at answer
  cases answer
  obtain ⟨q,queued,place⟩ := Option.map_eq_some_iff.mp position
  exact ⟨i,q,here,queued,place⟩

theorem namesOfSome {sorted : List TunnelRow} (named : ∀ r ∈ sorted, r.hostname ≠ none) : ∃ names, namesOf sorted = .ok names ∧
    sorted.map TunnelRow.hostname = names.map some := by
  induction sorted with
  | nil => exact ⟨[],rfl,rfl⟩
  | cons r rest ih =>
    obtain ⟨head,later⟩ := List.forall_mem_cons.mp named
    obtain ⟨names,rest',same⟩ := ih later
    obtain ⟨hostname,first⟩ := Option.ne_none_iff_exists'.mp head
    refine ⟨hostname :: names,?_,?_⟩
    · rw [namesOf, first, rest']
      rfl
    · rw [List.map_cons, List.map_cons, first, same]

theorem performQueue (s : Tables) (names : List String)
    (listed : namesOf (((s.tunnels.toList.map Prod.snd).filter CertStore.waiting).mergeSort queueOrder) = .ok names) :
    perform gelbQueueFifo s [] = (.ok names,s) := by
  unfold perform gelbQueueFifo statement
  simp only [List.headD_nil, Bool.false_eq_true, if_false, listed]
  rfl

theorem queueSorted (xs : List TunnelRow) : (xs.mergeSort queueOrder).Pairwise (fun a b => queueOrder a b) := by
  refine List.pairwise_mergeSort ?_ ?_ xs
  · intro a b c first second
    rw [queueOrder, decide_eq_true_eq] at first second ⊢
    exact first.trans second
  · intro a b
    simp only [queueOrder, Bool.or_eq_true, decide_eq_true_eq]
    exact le_total _ _

/- Where everyone has a time of their own, and in the order of joining, the list is in order. -/
theorem keptInOrder (kept : Kept s) : InOrder s := by
  let entries := s.tables.tunnels.toList.filter (fun e => CertStore.waiting e.2)
  let rows := entries.mergeSort (fun a b => queueOrder a.2 b.2)
  have perm : rows.Perm entries := List.mergeSort_perm _ _
  have sorted : rows.map Prod.snd = ((s.tables.tunnels.toList.map Prod.snd).filter CertStore.waiting).mergeSort queueOrder := by
    rw [List.filter_map]
    exact List.map_mergeSort (fun _ _ _ _ => rfl)
  have here : ∀ e ∈ rows, s.tables.tunnels[e.1]? = some e.2 ∧ CertStore.waiting e.2 := fun e mem => waitsIff.mp (perm.mem_iff.mp mem)
  have named : ∀ r ∈ rows.map Prod.snd, r.hostname ≠ none := by
    intro r mem none'
    obtain ⟨e,within,rfl⟩ := List.mem_map.mp mem
    obtain ⟨found,waits⟩ := here e within
    have red := (kept.tidy e.1 e.2 found).named none'
    rw [((waitingIff e.2).mp waits).1] at red
    contradiction
  obtain ⟨names,listed,same⟩ := namesOfSome named
  have apart : rows.Pairwise (fun a b => a.1 ≠ b.1) := by
    have keys : (rows.map Prod.fst).Nodup := by
      rw [(perm.map Prod.fst).nodup_iff]
      exact (keysNodup s.tables.tunnels).sublist (List.filter_sublist.map _)
    exact List.pairwise_map.mp keys
  have ordered : rows.Pairwise (fun a b => queueOrder a.2 b.2) := by
    have whole := queueSorted ((s.tables.tunnels.toList.map Prod.snd).filter CertStore.waiting)
    rw [← sorted] at whole
    exact List.pairwise_map.mp whole
  have strict : rows.Pairwise (fun a b => (∃ q p, a.2.queuedAt = some q ∧ b.2.queuedAt = some p ∧ q < p) ∧
      ∃ j k, s.joined a.1 = some j ∧ s.joined b.1 = some k ∧ j ≤ k) := by
    refine (apart.and ordered).imp_of_mem ?_
    intro a b mem mem' both
    obtain ⟨found,waits⟩ := here a mem
    obtain ⟨found',waits'⟩ := here b mem'
    obtain ⟨j,q,since,queued,_⟩ := kept.timed a.1 a.2 found waits
    obtain ⟨k,p,since',queued',_⟩ := kept.timed b.1 b.2 found' waits'
    have below : q ≤ p := by
      have before := both.2
      rw [queueOrder, decide_eq_true_eq, queued, queued'] at before
      exact before
    obtain ⟨first,less⟩ | ⟨_,less⟩ := kept.apart a.1 b.1 a.2 b.2 found found' waits waits' both.1 j k q p since since' queued queued'
    · exact ⟨⟨q,p,queued,queued',less⟩,j,k,since,since',first.le⟩
    · exact absurd below less.not_ge
  refine ⟨rows,names,performQueue _ _ (sorted ▸ listed),perm,?_,strict.imp (fun both => both.2),?_⟩
  · rw [← same, List.map_map]
    rfl
  · intro i name at'
    have along : (rows.map (fun e => e.2.hostname))[i]? = some (some name) := by
      have mapped : rows.map (fun e => e.2.hostname) = names.map some := by rw [← same, List.map_map]; rfl
      rw [mapped, List.getElem?_map, at']
      rfl
    rw [List.getElem?_map] at along
    obtain ⟨e,stands,hostname⟩ := Option.map_eq_some_iff.mp along
    obtain ⟨found,waits⟩ := here e (List.mem_of_getElem? stands)
    obtain ⟨_,q,_,queued,_⟩ := kept.timed e.1 e.2 found waits
    refine ⟨_,performAdmission kept.distinct found hostname waits,?_⟩
    have count := @countBelow _ (fun e : String × TunnelRow => e.2.queuedAt.getD 0) _ (strict.imp ?_) _ _ stands
    · have same : rows.countP (fun a => a.2.queuedAt.any (· < q)) = i := by
        refine (List.countP_congr ?_).trans count
        intro a mem
        obtain ⟨found',waits'⟩ := here a mem
        obtain ⟨_,p,_,queued',_⟩ := kept.timed a.1 a.2 found' waits'
        simp [queued, queued']
      change e.2.queuedAt.map (place s.tables) = some i
      rw [queued, Option.map_some, placeCount kept perm, same]
    · intro a b both
      obtain ⟨q',p',first,second,less⟩ := both.1
      simpa [first, second] using less

theorem placeMono (s : Tables) {q p : Int} (below : q ≤ p) : place s q ≤ place s p := by
  have weaker : ∀ e ∈ s.tunnels.toList, ahead q e.1 e.2 = true → ahead p e.1 e.2 = true := by
    intro e _ before
    simp only [ahead, Bool.and_eq_true, Option.any_eq_true, decide_eq_true_eq] at before ⊢
    obtain ⟨⟨placed,t,queued,less⟩,out⟩ := before
    exact ⟨⟨placed,t,queued,less.trans_le below⟩,out⟩
  have counted (t : Int) : place s t = s.tunnels.toList.countP (fun e => ahead t e.1 e.2) := by
    rw [place, ← Std.ExtTreeMap.length_toList, Std.ExtTreeMap.toList_filter, List.countP_eq_length_filter]
  rw [counted, counted]
  exact List.countP_mono_left weaker

theorem pairedAt {α : Type} {rel : α → α → Prop} {xs : List α} (paired : xs.Pairwise rel) {i j : Nat} (below : i < j) {x y : α}
    (first : xs[i]? = some x) (second : xs[j]? = some y) : rel x y := by
  obtain ⟨inside,rfl⟩ := List.getElem?_eq_some_iff.mp first
  obtain ⟨inside',rfl⟩ := List.getElem?_eq_some_iff.mp second
  exact List.pairwise_iff_getElem.mp paired i j inside inside' below

/- Of two that are listed, the one that joined before the other has the earlier time. -/
theorem listedTimes (distinct : Distinct s.tables.tunnels) (inOrder : InOrder s) {a b : String} {r t : TunnelRow}
    (here : s.tables.tunnels[a]? = some r) (there : s.tables.tunnels[b]? = some t) (first : waiting r) (second : waiting t) (apart : a ≠ b) :
    ∃ j k q p, s.joined a = some j ∧ s.joined b = some k ∧ r.queuedAt = some q ∧ t.queuedAt = some p ∧ (j ≤ k ∧ q < p ∨ k ≤ j ∧ p < q) := by
  obtain ⟨rows,names,listing⟩ := inOrder
  obtain ⟨i,q,at',queued,stands⟩ := listedPlace distinct listing here first
  obtain ⟨i',p,at'',queued',stands'⟩ := listedPlace distinct listing there second
  have different : i ≠ i' := by
    rintro rfl
    rw [at'] at at''
    cases Option.some.inj at''
    exact apart rfl
  obtain below | above := Nat.lt_or_gt_of_ne different
  · obtain ⟨j,k,since,since',before⟩ := pairedAt listing.ordered below at' at''
    refine ⟨j,k,q,p,since,since',queued,queued',.inl ⟨before,?_⟩⟩
    by_contra late
    have mono := placeMono s.tables (not_lt.mp late)
    omega
  · obtain ⟨k,j,since',since,before⟩ := pairedAt listing.ordered above at'' at'
    refine ⟨j,k,q,p,since,since',queued,queued',.inr ⟨before,?_⟩⟩
    by_contra late
    have mono := placeMono s.tables (not_lt.mp late)
    omega

theorem fairBefore (kept : Kept s) {call : Call} (later : s.clock < call.now) (inOrder : InOrder (step s call).2) : Fair s call := by
  have distinct := distinctNext kept.distinct call
  constructor
  · intro a b r t here there first second
    by_contra apart
    obtain ⟨found,waits,stamp⟩ := joinedAfter here first
    obtain ⟨found',waits',stamp'⟩ := joinedAfter there second
    simp only [joins, Bool.and_eq_true, Bool.not_eq_true'] at first second
    obtain ⟨j,k,q,p,_,_,queued,queued',order⟩ := listedTimes distinct inOrder found found' waits waits' apart
    obtain timed | ⟨subject,tunnelId,op,rfl,_⟩ := joinsWith first.1.1.2 waits
    · obtain timed' | ⟨subject,tunnelId,op,rfl,_⟩ := joinsWith second.1.1.2 waits'
      · rw [timed] at queued
        rw [timed'] at queued'
        cases queued
        cases queued'
        omega
      · have hit := first.1.1.2
        rw [op, Op.touches, Bool.and_eq_true, decide_eq_true_eq] at hit
        exact apart hit.1
    · have hit := second.1.1.2
      rw [op, Op.touches, Bool.and_eq_true, decide_eq_true_eq] at hit
      exact apart hit.1.symm
  · intro subject id r op here joined
    obtain ⟨found,waits,stamp⟩ := joinedAfter here joined
    have kept' : (call.op.change call.now r).queuedAt = r.queuedAt := by rw [op]; rfl
    obtain ⟨rows,names,listing⟩ := inOrder
    obtain ⟨_,q,_,queued,_⟩ := listedPlace distinct listing found waits
    refine ⟨q,kept' ▸ queued,?_⟩
    intro b t there waiting p queued'
    have apart : id ≠ b := by
      rintro rfl
      rw [here] at there
      cases there
      simp [joins, waiting] at joined
    have found' : (step s call).2.tables.tunnels[b]? = some t := by
      obtain ⟨wrote,_,after⟩ := stepRows s call
      rw [after b, there, Option.map_some, if_neg]
      rw [op, Op.touches]
      simp [Ne.symm apart]
    have stamp' : (step s call).2.joined b = s.joined b := by
      change (if listed (step s call).2.tables b && !listed s.tables b then some call.now else s.joined b) = _
      rw [if_neg (by simp [listed, there, waiting])]
    obtain ⟨k,_,since,_,past⟩ := kept.timed b t there waiting
    obtain ⟨j',k',q',p',since',since'',time,time',order⟩ := listedTimes distinct ⟨rows,names,listing⟩ found found' waits waiting apart
    rw [stamp] at since'
    rw [stamp', since] at since''
    rw [queued] at time
    rw [queued'] at time'
    cases since'
    cases since''
    cases time
    cases time'
    omega

/- Nobody waits, and the rows are as the calls leave them. -/
structure Start (s : State) : Prop where
  distinct : Distinct s.tables.tunnels
  tidy : ∀ (id : String) (r : TunnelRow), s.tables.tunnels[id]? = some r → Tidy s.clock r
  idle : ∀ (id : String) (r : TunnelRow), s.tables.tunnels[id]? = some r → ¬waiting r

theorem startKept (start : Start s) : Kept s :=
  ⟨start.distinct,start.tidy,fun id r found waits => absurd waits (start.idle id r found),
    fun a _ r _ found _ waits => absurd waits (start.idle a r found)⟩

def Timely (s : State) (call : Call) : Prop := s.clock < call.now

/- The list is in order, and everyone is told their index in it, as long as and only as long as the
calls add one hostname at a time and opt one back in only with a time later than all that wait. -/
theorem queueInOrder (start : Start s) {calls : List Call} (timely : Machine.along step Timely s calls) :
    (∀ k, InOrder (Machine.run step s (calls.take k))) ↔ Machine.along step Fair s calls := by
  have kept := startKept start
  clear start
  induction calls generalizing s with
  | nil =>
    refine ⟨fun _ => trivial,fun _ k => ?_⟩
    rw [List.take_nil]
    exact keptInOrder kept
  | cons call rest ih =>
    constructor
    · intro inOrder
      have fair := fairBefore kept timely.1 (inOrder 1)
      exact ⟨fair,(ih timely.2 (keptNext kept timely.1 fair)).mp (fun k => inOrder (k + 1))⟩
    · intro fair k
      cases k with
      | zero => exact keptInOrder kept
      | succ k => exact (ih timely.2 (keptNext kept timely.1 fair.1)).mpr fair.2 k

def red (hostname : String) : TunnelRow := { subject := "anna", name := "web", hostname := some hostname, createdAt := 0, routingToken := hostname }

def opening : State := ⟨{ tunnels := ((∅ : BTreeMap String TunnelRow).insert "1" (red "a.example")).insert "2" (red "b.example") },0,fun _ => none⟩

theorem openingRows {id : String} {r : TunnelRow} (found : opening.tables.tunnels[id]? = some r) :
    id = "1" ∧ r = red "a.example" ∨ id = "2" ∧ r = red "b.example" := by
  simp only [opening, lookupInsert] at found
  split at found
  case isTrue same => exact .inr ⟨same,(Option.some.inj found).symm⟩
  case isFalse =>
    split at found
    case isTrue same => exact .inl ⟨same,(Option.some.inj found).symm⟩
    case isFalse => simp at found

theorem openingStart : Start opening := by
  refine ⟨?_,?_,?_⟩
  · intro a b r t h here there named also
    obtain ⟨rfl,rfl⟩ | ⟨rfl,rfl⟩ := openingRows here <;> obtain ⟨rfl,rfl⟩ | ⟨rfl,rfl⟩ := openingRows there <;> try rfl
    all_goals
      rw [← also] at named
      exact absurd named (by decide)
  · intro id r found
    obtain ⟨rfl,rfl⟩ | ⟨rfl,rfl⟩ := openingRows found
    all_goals exact ⟨fun _ => rfl,fun assigned => absurd rfl assigned,fun t queued => by contradiction⟩
  · intro id r found
    obtain ⟨rfl,rfl⟩ | ⟨rfl,rfl⟩ := openingRows found <;> decide

instance timelyDecidable (s : State) (call : Call) : Decidable (Timely s call) := inferInstanceAs (Decidable (s.clock < call.now))

def entered : List Call := [{ op := .enterGelbQueue "a.example", now := 1 },{ op := .enterGelbQueue "b.example", now := 2 }]

theorem queueInOrderEntered : (∀ k, InOrder (Machine.run step opening (entered.take k))) ↔ Machine.along step Fair opening entered :=
  queueInOrder openingStart (by decide +kernel)

/- An owner who opts out before the offer lapses, and back in after another has entered, comes first. -/
def overtaking : List Call :=
  [{ op := .enterGelbQueue "a.example", now := 1 },{ op := .offerClaim "a.example" "letsencrypt" 5, now := 2 },
    { op := .setCertClaimOptOut "anna" "1" true, now := 3 },{ op := .lapseExpiredClaims, now := 6 },
    { op := .enterGelbQueue "b.example", now := 7 },{ op := .setCertClaimOptOut "anna" "1" false, now := 8 }]

theorem queueOvertaken : ¬ ∀ (s : State) (calls : List Call), Start s → Machine.along step Timely s calls → InOrder (Machine.run step s calls) := by
  intro claim
  obtain ⟨rows,names,listing⟩ := claim opening overtaking openingStart (by decide +kernel)
  have distinct : Distinct (Machine.run step opening overtaking).tables.tunnels :=
    Machine.runInvariant (fun s : State => Distinct s.tables.tunnels) (fun _ call kept => distinctNext kept call) openingStart.distinct overtaking
  have parked : (Machine.run step opening overtaking).tables.tunnels["1"]?.any (fun r => waiting r && r.queuedAt.isNone) = true := by decide +kernel
  obtain ⟨r,found,untimed⟩ := Option.any_eq_true _ _ |>.mp parked
  obtain ⟨waits,none'⟩ := (Bool.and_eq_true _ _).mp untimed
  obtain ⟨_,q,_,queued,_⟩ := listedPlace distinct listing found waits
  rw [queued] at none'
  contradiction

end Listings
end CadsTunnel.QueueOrder
