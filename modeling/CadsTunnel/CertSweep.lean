import CadsTunnel.CertStore

/-! The sweep that offers free slots at the certificate authorities to those who wait. It
reads the queue once and then takes one hostname after the other: it picks an authority
that the budget leaves room at, and opens an offer. Anyone else may write to the table
between two of its steps. -/
namespace CadsTunnel.CertSweep
open Sql TunnelStore CertStore

def budgetWindowSecs : Int := 7 * 24 * 3600

def claimWindowSecs : Int := 48 * 3600

structure CaProfile where
  name : String
  requiresEab : Bool

def letsEncrypt : CaProfile := ⟨"letsencrypt",false⟩

def budgetFor (caName : String) : Int :=
  if caName = "letsencrypt" then 40
  else if caName = "zerossl" then 200
  else if caName = "google-trust-services" then 40
  else 0

/- The authorities in turn, and what credentials the deployment has for them. -/
variable (rotation : List CaProfile) (eabLookup : String → Option String × Option String)

def better (headroom : Int) (best : Option (String × Int)) : Bool := best.all (fun b => headroom > b.2)

def pickOne (domain : String) (since : Int) (best : Option (String × Int)) (ca : CaProfile) : Work (Option (String × Int)) :=
  if ca.requiresEab && ((eabLookup ca.name).1.isNone || (eabLookup ca.name).2.isNone) then pure best
  else do
    let budget := budgetFor ca.name
    let (used,reserved) ← caBudgetUsage ca.name domain since
    let headroom := budget - used - reserved
    if headroom > 0 && better headroom best then pure (some (ca.name,headroom)) else pure best

def pickCaWith (domain : String) (now : Int) : Work (Option String) := do
  let best ← rotation.foldlM (pickOne eabLookup domain (now - budgetWindowSecs)) none
  pure (best.map Prod.fst)

/- What the sweep still has before it, and the time it began at. -/
inductive Sweep where
  | idle
  | listed (now : Int) (queue : List String)
  | picked (now : Int) (hostname ca : String) (queue : List String)

/- The next step of the sweep. -/
def Sweep.work (now : Int) : Sweep → Work Sweep
  | .idle => do
    let queue ← gelbQueueFifo
    pure (.listed now queue)
  | .listed _ [] => pure .idle
  | .listed now (hostname :: queue) => do
    let picked ← attempt (pickCaWith rotation eabLookup (registeredDomain hostname) now)
    match picked with
    | .ok (some ca) => pure (.picked now hostname ca queue)
    | .ok none => pure .idle
    | .error _ => pure (.listed now queue)
  | .picked now hostname ca queue => do
    let _ ← attempt (offerClaim hostname ca now (now + claimWindowSecs))
    pure (.listed now queue)

inductive Op where
  | lifecycle (op : Lifecycle)
  | enterGelbQueue (hostname : String)
  | setCertClaimOptOut (subject tunnelId : String) (enabled : Bool)
  | lapseExpiredClaims
  | requeueLegacyLapsedClaims
  | reclaimCertSlot (subject hostname : String)
  | recordIssuanceComplete (hostname : String)
  | pruneAcmeIssuanceLog (cutoff : Int)

inductive Answer where
  | lifecycle (answer : LifecycleAnswer)
  | done (changed : Bool)
  | rows (n : Nat)
  | completed (ca : Option String)
  | swept
  deriving DecidableEq

def Op.work (now : Int) : Op → Work Answer
  | .lifecycle op => do
    let answer ← op.work
    pure (.lifecycle answer)
  | .enterGelbQueue hostname => do
    let done ← CertStore.enterGelbQueue hostname now
    pure (.done done)
  | .setCertClaimOptOut subject tunnelId enabled => do
    let done ← CertStore.setCertClaimOptOut subject tunnelId enabled
    pure (.done done)
  | .lapseExpiredClaims => do
    let rows ← CertStore.lapseExpiredClaims now
    pure (.rows rows)
  | .requeueLegacyLapsedClaims => do
    let rows ← CertStore.requeueLegacyLapsedClaims now
    pure (.rows rows)
  | .reclaimCertSlot subject hostname => do
    let done ← CertStore.reclaimCertSlot subject hostname now
    pure (.done done)
  | .recordIssuanceComplete hostname => do
    let ca ← CertStore.recordIssuanceComplete hostname (registeredDomain hostname) now
    pure (.completed ca)
  | .pruneAcmeIssuanceLog cutoff => do
    let rows ← CertStore.pruneAcmeIssuanceLog cutoff
    pure (.rows rows)

/- A call to the store, or the sweep, which there is one of, goes on. -/
inductive Act where
  | store (op : Op)
  | sweep

structure Call where
  act : Act
  now : Int
  faults : List Bool := []

structure State where
  tables : Tables := {}
  sweep : Sweep := .idle

def step (s : State) (call : Call) : Except SqlError Answer × State :=
  match call.act with
  | .store op =>
    let (answer,tables) := perform (op.work call.now) s.tables call.faults
    (answer,{ s with tables })
  | .sweep =>
    match perform (s.sweep.work rotation eabLookup call.now) s.tables call.faults with
    | (.ok sweep,tables) => (.ok .swept,⟨tables,sweep⟩)
    | (.error e,tables) => (.error e,{ s with tables })

def run (calls : List Call) : State := Machine.run (step rotation eabLookup) {} calls

/- What a call to the store may do to the tables. -/
inductive Stored (now : Int) (s : Tables) : Op → Tables → Prop where
  | idle {op : Op} : Stored now s op s
  | moved {op : Lifecycle} {m : Tables} (moved : Moved s m) : Stored now s (.lifecycle op) m
  | queued {hostname : String} : Stored now s (.enterGelbQueue hostname) (Tables.updated (inRot hostname) (queued now) s)
  | opted {subject tunnelId : String} {enabled : Bool} :
      Stored now s (.setCertClaimOptOut subject tunnelId enabled)
        (Tables.updated (fun k r => k = tunnelId && r.subject = subject) (fun r => { r with certClaimOptOut := enabled }) s)
  | lapsed : Stored now s .lapseExpiredClaims (Tables.updated (expired now) (lapsed now) s)
  | requeued : Stored now s .requeueLegacyLapsedClaims (Tables.updated legacyLapsed (requeued now) s)
  | reclaimed {subject hostname : String} :
      Stored now s (.reclaimCertSlot subject hostname) (Tables.updated (reclaimable subject hostname) (requeued now) s)
  | completed {hostname : String} {m : Tables} (completed : Completed hostname (registeredDomain hostname) now s m) :
      Stored now s (.recordIssuanceComplete hostname) m
  | pruned {cutoff : Int} :
      Stored now s (.pruneAcmeIssuanceLog cutoff) { s with issuanceLog := (deleteWhere (fun _ r => r.issuedAt < cutoff) s.issuanceLog).2 }

/- Where the budget leaves room for one more certificate. -/
def Room (ca domain : String) (since : Int) (s : Tables) : Prop := (issued ca domain since s + reserved ca domain s : Int) < budgetFor ca

/- And a step of the sweep. -/
inductive Swept (now : Int) (s : Tables) : Sweep → Sweep → Tables → Prop where
  | kept {sweep : Sweep} : Swept now s sweep sweep s
  | began {queue : List String} (names : namesOf (((s.tunnels.toList.map Prod.snd).filter waiting).mergeSort queueOrder) = .ok queue) :
      Swept now s .idle (.listed now queue) s
  | ended {began : Int} {queue : List String} : Swept now s (.listed began queue) .idle s
  | picked {began : Int} {hostname ca : String} {queue : List String} (room : Room ca (registeredDomain hostname) (began - budgetWindowSecs) s) :
      Swept now s (.listed began (hostname :: queue)) (.picked began hostname ca queue) s
  | skipped {began : Int} {hostname : String} {queue : List String} : Swept now s (.listed began (hostname :: queue)) (.listed began queue) s
  | missed {began : Int} {hostname ca : String} {queue : List String} : Swept now s (.picked began hostname ca queue) (.listed began queue) s
  | offered {began : Int} {hostname ca : String} {queue : List String} :
      Swept now s (.picked began hostname ca queue) (.listed began queue)
        (Tables.updated (unassigned hostname) (offered ca began (began + claimWindowSecs)) s)

section Calls
variable {s : Tables} {rotation : List CaProfile} {eabLookup : String → Option String × Option String}

theorem storeEnds (op : Op) (now : Int) : Ends (op.work now) s (fun _ m => Stored now s op m) := by
  cases op with
  | lifecycle op => exact endsGives (endsMono (lifecycleEnds op) (fun _ _ moved => .moved moved))
  | enterGelbQueue hostname => exact endsGives (updateRowsEnds .idle (endsPure .queued))
  | setCertClaimOptOut subject tunnelId enabled => exact endsGives (endsExecute .idle (endsPure .opted))
  | lapseExpiredClaims => exact endsGives (endsLast (updateRowsEnds .idle (endsPure .lapsed)))
  | requeueLegacyLapsedClaims => exact endsGives (endsLast (updateRowsEnds .idle (endsPure .requeued)))
  | reclaimCertSlot subject hostname => exact endsGives (updateRowsEnds .idle (endsPure .reclaimed))
  | recordIssuanceComplete hostname => exact endsGives (endsMono (completeEnds hostname _ now) (fun _ _ completed => .completed completed))
  | pruneAcmeIssuanceLog cutoff => exact endsGives (endsLast (endsExecute .idle (endsPure .pruned)))

theorem pickOneEnds (domain : String) (since : Int) (best : Option (String × Int)) (ca : CaProfile)
    (room : ∀ b, best = some b → Room b.1 domain since s) :
    Ends (pickOne eabLookup domain since best ca) s (fun r m => m = s ∧ ∀ best b, r = .ok best → best = some b → Room b.1 domain since s) := by
  have kept : ∀ next b, (Except.ok best : Except SqlError _) = .ok next → next = some b → Room b.1 domain since s := by
    rintro next b ⟨⟩ found
    exact room b found
  unfold pickOne
  split
  case isTrue => exact endsPure ⟨rfl,kept⟩
  case isFalse =>
    dsimp only
    rw [caBudgetUsage]
    simp only [bind_assoc, pure_bind]
    refine endsSelect ⟨rfl,nofun⟩ (endsSelect ⟨rfl,nofun⟩ ?_)
    split
    case isFalse => exact endsPure ⟨rfl,kept⟩
    case isTrue left =>
      refine endsPure ⟨rfl,?_⟩
      rintro next b ⟨⟩ ⟨⟩
      rw [Bool.and_eq_true, decide_eq_true_eq] at left
      have headroom := left.1
      show (issued ca.name domain since s + reserved ca.name domain s : Int) < budgetFor ca.name
      omega

/- Who is picked has room for one more. -/
theorem pickEnds (domain : String) (now : Int) : Ends (pickCaWith rotation eabLookup domain now) s (fun r m =>
    m = s ∧ ∀ ca, r = .ok (some ca) → Room ca domain (now - budgetWindowSecs) s) := by
  unfold pickCaWith
  refine endsBind (fun best m => m = s ∧ ∀ b, best = some b → Room b.1 domain (now - budgetWindowSecs) s) ?_ ?_
  · refine endsLoop (fun _ best m => m = s ∧ ∀ b, best = some b → Room b.1 domain (now - budgetWindowSecs) s) ⟨rfl,nofun⟩ ?_ ?_
    · rintro before ca after best _ _ ⟨rfl,room⟩
      refine endsMono (pickOneEnds domain _ best ca room) ?_
      rintro r _ ⟨rfl,also⟩
      cases r with
      | error e => exact ⟨rfl,nofun⟩
      | ok next => exact ⟨rfl,fun b found => also next b rfl found⟩
    · intro best m held
      exact held
  · rintro best _ ⟨rfl,room⟩
    refine endsPure ⟨rfl,?_⟩
    intro ca found
    obtain ⟨b,there,same⟩ := Option.map_eq_some_iff.mp (Except.ok.inj found)
    exact same ▸ room b there

theorem sweepEnds (sweep : Sweep) (now : Int) : Ends (sweep.work rotation eabLookup now) s (fun
    | .ok next, m => Swept now s sweep next m
    | .error _, m => m = s) := by
  match sweep with
  | .idle =>
    refine endsStatement rfl (fun _ _ => rfl) ?_
    intro queue m read
    obtain ⟨names,named,same⟩ := Machine.mapOk.mp read
    cases same
    exact endsPure (.began named)
  | .listed _ [] => exact endsPure .ended
  | .listed began (hostname :: queue) =>
    refine endsAttempt (endsMono (pickEnds _ _) ?_)
    rintro r _ ⟨rfl,room⟩
    match r with
    | .ok (some ca) => exact endsPure (.picked (room ca rfl))
    | .ok none => exact endsPure .ended
    | .error _ => exact endsPure .skipped
  | .picked began hostname ca queue =>
    refine endsAttempt (updateRowsEnds ?_ (endsPure ?_))
    · exact endsPure .missed
    · exact endsPure .offered

/- What a step may do. -/
inductive Stepped (s : State) (call : Call) (m : State) : Prop where
  | store (op : Op) (act : call.act = .store op) (stored : Stored call.now s.tables op m.tables) (same : m.sweep = s.sweep)
  | sweep (act : call.act = .sweep) (swept : Swept call.now s.tables s.sweep m.sweep m.tables)

theorem stepCases (rotation : List CaProfile) (eabLookup : String → Option String × Option String) (s : State) (call : Call) :
    Stepped s call (step rotation eabLookup s call).2 := by
  unfold step
  split
  case h_1 op act => exact .store op act (storeEnds op call.now call.faults) rfl
  case h_2 act =>
    have ended := @sweepEnds s.tables rotation eabLookup s.sweep call.now call.faults
    split
    case h_1 sweep tables went =>
      rw [went] at ended
      exact .sweep act ended
    case h_2 e tables failed =>
      rw [failed] at ended
      refine .sweep act ?_
      show Swept call.now s.tables s.sweep s.sweep tables
      rw [show tables = s.tables from ended]
      exact .kept

end Calls
end CadsTunnel.CertSweep
