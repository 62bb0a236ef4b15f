import CadsTunnel.TunnelStore

/-! The way of a hostname to a certificate of its own: red while the edge does not know it,
yellow while it waits for a slot at a certificate authority or holds one, green once a
certificate was issued; and the ledger of the issuances. -/
namespace CadsTunnel.CertStore
open OrderedMap Sql TunnelStore
open Std (ExtTreeMap)

def minIssuanceLogIntervalSecs : Int := 24 * 60 * 60

/- Everything but the first label, unless there are at most two. -/
def registeredDomain (hostname : String) : String :=
  let labels := hostname.toList.splitOn '.'
  if labels.length ≤ 2 then hostname else .ofList (['.'].intercalate labels.tail)

def Tables.updated (touches : String → TunnelRow → Bool) (change : TunnelRow → TunnelRow) (s : Tables) : Tables :=
  { s with tunnels := (updateWhere touches change s.tunnels).2 }

/- `UPDATE subject_tunnels SET … WHERE …`. -/
def updateRows (touches : String → TunnelRow → Bool) (change : TunnelRow → TunnelRow) : Work Nat :=
  execute (fun s => ((updateWhere touches change s.tunnels).1,Tables.updated touches change s))

def inRot (hostname : String) (_ : String) (r : TunnelRow) : Bool := r.hostname = some hostname && r.status = .rot

def queued (now : Int) (r : TunnelRow) : TunnelRow := { r with status := .gelb, queuedAt := some now }

def enterGelbQueue (hostname : String) (now : Int) : Work Bool := do
  let affected ← updateRows (inRot hostname) (queued now)
  pure (affected > 0)

def setCertClaimOptOut (subject tunnelId : String) (enabled : Bool) : Work Bool :=
  updateOwned subject tunnelId (fun r => { r with certClaimOptOut := enabled })

/- Waiting for a slot, and not opted out. -/
def waiting (r : TunnelRow) : Bool := r.status = .gelb && r.claimState = .none && r.assignedCa.isNone && !r.certClaimOptOut

def namesOf : List TunnelRow → Except SqlError (List String)
  | [] => .ok []
  | r :: rest =>
    match r.hostname with
    | none => .error (.conversion "hostname")
    | some hostname => (namesOf rest).map (hostname :: ·)

def queueOrder (a b : TunnelRow) : Bool := a.queuedAt.getD (-2 ^ 63 - 1) ≤ b.queuedAt.getD (-2 ^ 63 - 1)

/- The rows without a time of queueing come first. -/
def gelbQueueFifo : Work (List String) :=
  statement (fun s => (namesOf (((s.tunnels.toList.map Prod.snd).filter waiting).mergeSort queueOrder)).map (fun names => (names,s)))

def unassigned (hostname : String) (_ : String) (r : TunnelRow) : Bool := r.hostname = some hostname && r.assignedCa.isNone

def offered (ca : String) (now deadline : Int) (r : TunnelRow) : TunnelRow :=
  { r with assignedCa := some ca, claimState := .offered, claimOfferedAt := some now, claimDeadline := some deadline }

def offerClaim (hostname ca : String) (now deadline : Int) : Work Bool := do
  let affected ← updateRows (unassigned hostname) (offered ca now deadline)
  pure (affected > 0)

def expired (now : Int) (_ : String) (r : TunnelRow) : Bool := r.claimState = .offered && r.claimDeadline.any (· < now)

def lapsed (now : Int) (r : TunnelRow) : TunnelRow :=
  { r with
    claimState := .none, assignedCa := none, claimOfferedAt := none, claimDeadline := none
    queuedAt := if r.certClaimOptOut then none else some now }

def lapseExpiredClaims (now : Int) : Work Nat := updateRows (expired now) (lapsed now)

def legacyLapsed (_ : String) (r : TunnelRow) : Bool := r.claimState = .lapsed && !r.certClaimOptOut

def requeued (now : Int) (r : TunnelRow) : TunnelRow := { r with claimState := .none, queuedAt := some now }

def requeueLegacyLapsedClaims (now : Int) : Work Nat := updateRows legacyLapsed (requeued now)

def reclaimable (subject hostname : String) (_ : String) (r : TunnelRow) : Bool :=
  r.hostname = some hostname && r.subject = subject && r.claimState = .lapsed

def reclaimCertSlot (subject hostname : String) (now : Int) : Work Bool := do
  let affected ← updateRows (reclaimable subject hostname) (requeued now)
  pure (affected > 0)

def rowOf (hostname : String) (s : Tables) : Option (String × TunnelRow) := firstRow (fun _ r => r.hostname = some hostname) s.tunnels

def completable (hostname : String) (_ : String) (r : TunnelRow) : Bool :=
  r.hostname = some hostname && (r.status = .gruen || (r.status = .gelb && r.claimState = .offered))

def completed (r : TunnelRow) : TunnelRow :=
  { r with status := .gruen, claimState := .none, claimOfferedAt := none, claimDeadline := none, pendingRevert := true }

/- The last entry of a hostname in the ledger. -/
def lastIssued (hostname : String) (s : Tables) : Option Int :=
  (((s.issuanceLog.toList.map Prod.snd).filter (fun r => r.hostname = hostname)).map IssuanceRow.issuedAt).max?

def loggedRecently (hostname : String) (now : Int) (s : Tables) : Bool := (lastIssued hostname s).any (fun last => now - last < minIssuanceLogIntervalSecs)

def Tables.logged (ca domain hostname : String) (now : Int) (s : Tables) : Tables :=
  { s with issuanceLog := s.issuanceLog.insert (s.issuanceSeq + 1) ⟨ca,domain,hostname,now⟩, issuanceSeq := s.issuanceSeq + 1 }

def recordIssuanceComplete (hostname domain : String) (now : Int) : Work (Option String) :=
  transaction (do
    let ca ← select (fun s => (rowOf hostname s).bind (fun e => e.2.assignedCa))
    let rows ← updateRows (completable hostname) completed
    if rows = 0 then pure (.commit none)
    else
      match ca with
      | none => pure (.commit none)
      | some ca =>
        let recently ← select (loggedRecently hostname now)
        if recently then pure (.commit (some ca))
        else
          execute (fun s => ((),Tables.logged ca domain hostname now s))
          pure (.commit (some ca)))

def pruneAcmeIssuanceLog (cutoff : Int) : Work Nat :=
  execute (fun s =>
    let (n,rows) := deleteWhere (fun _ r => r.issuedAt < cutoff) s.issuanceLog
    (n,{ s with issuanceLog := rows }))

def issued (ca domain : String) (since : Int) (s : Tables) : Nat :=
  (s.issuanceLog.filter (fun _ r => r.ca = ca && r.domain = domain && r.issuedAt ≥ since)).size

def reserved (ca domain : String) (s : Tables) : Nat :=
  (s.tunnels.filter (fun _ r => r.assignedCa = some ca && r.claimState = .offered && r.hostname.any (fun h => registeredDomain h = domain))).size

def caBudgetUsage (ca domain : String) (since : Int) : Work (Int × Int) := do
  let used ← select (issued ca domain since)
  let reserved ← select (CertStore.reserved ca domain)
  pure (used,reserved)

section Calls
variable {s : Tables} {touches : String → TunnelRow → Bool} {change : TunnelRow → TunnelRow}

theorem updateRowsEnds {β : Type} {next : Nat → Work β} {post : Except SqlError β → Tables → Prop} (fails : post (.error .failure) s)
    (goes : Ends (next (updateWhere touches change s.tunnels).1) (Tables.updated touches change s) post) :
    Ends (updateRows touches change >>= next) s post := endsExecute fails goes

theorem lookupUpdatedRow (touches : String → TunnelRow → Bool) (change : TunnelRow → TunnelRow) (s : Tables) (id : String) :
    (Tables.updated touches change s).tunnels[id]? = s.tunnels[id]?.map (fun r => if touches id r then change r else r) :=
  lookupUpdated touches change s.tunnels id

/- What recording a completed issuance may do. -/
inductive Completed (hostname domain : String) (now : Int) (s : Tables) : Tables → Prop where
  | idle : Completed hostname domain now s s
  | uncounted (same : ∀ ca, (rowOf hostname s).bind (fun e => e.2.assignedCa) = some ca →
        (∃ (id : String) (r : TunnelRow), s.tunnels[id]? = some r ∧ completable hostname id r) → loggedRecently hostname now s) :
      Completed hostname domain now s (Tables.updated (completable hostname) completed s)
  | counted {ca : String} (assigned : (rowOf hostname s).bind (fun e => e.2.assignedCa) = some ca) :
      Completed hostname domain now s (Tables.logged ca domain hostname now (Tables.updated (completable hostname) completed s))

theorem completeEnds (hostname domain : String) (now : Int) :
    Ends (recordIssuanceComplete hostname domain now) s (fun _ m => Completed hostname domain now s m) := by
  unfold recordIssuanceComplete
  refine endsTransaction .idle (endsSelect .idle (updateRowsEnds .idle ?_))
  split
  case isTrue untouched =>
    refine endsPure (.uncounted ?_)
    rintro ca _ ⟨id,r,found,hit⟩
    have touched : hasRow (completable hostname) s.tunnels = true := hasRowIff.mpr ⟨id,r,found,hit⟩
    rw [hasRow, decide_eq_true_eq] at touched
    exact absurd untouched (Nat.pos_iff_ne_zero.mp touched)
  case isFalse =>
    cases assigned : (rowOf hostname s).bind (fun e => e.2.assignedCa) with
    | none => exact endsPure (.uncounted (fun ca same => by rw [assigned] at same; contradiction))
    | some ca =>
      refine endsSelect .idle ?_
      cases recently : loggedRecently hostname now s with
      | true =>
        have here : loggedRecently hostname now (Tables.updated (completable hostname) completed s) = true := recently
        rw [here]
        exact endsPure (.uncounted (fun _ _ _ => recently))
      | false =>
        have here : loggedRecently hostname now (Tables.updated (completable hostname) completed s) = false := recently
        rw [here]
        exact endsExecute .idle (endsPure (.counted assigned))

end Calls
end CadsTunnel.CertStore
