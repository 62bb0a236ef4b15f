import CadsTunnel.CertSweep
import CadsTunnel.Unwinding

/-! The age-out of the ledger of issuances. The retention loop deletes every hour the
entries that are older than thirty days; the budget looks back over seven of them, and the
check for a renewal counted twice over one. As long as no clock goes back by the
difference and no pass of the sweep takes that long, nobody but the loop notices it. -/
namespace CadsTunnel.CertSweep
open OrderedMap Sql TunnelStore CertStore
open Std (ExtTreeMap)

def acmeIssuanceLogMaxAgeSecs : Int := 30 * 24 * 3600

/- By how much the age exceeds the widest window. -/
def slackSecs : Int := acmeIssuanceLogMaxAgeSecs - budgetWindowSecs

/- The call that a tick of the retention loop makes. -/
def pruneTick (now : Int) (faults : List Bool) : Call := ⟨.store (.pruneAcmeIssuanceLog (now - acmeIssuanceLogMaxAgeSecs)),now,faults⟩

def Call.prunes (call : Call) : Bool :=
  match call.act with
  | .store (.pruneAcmeIssuanceLog _) => true
  | .store _ => false
  | .sweep => false

/- When the sweep that is under way began. -/
def Sweep.began : Sweep → Option Int
  | .idle => none
  | .listed now _ => some now
  | .picked now _ _ _ => some now

def Tables.withLog (log : BTreeMap Nat IssuanceRow) (s : Tables) : Tables := { s with issuanceLog := log }

/- A ledger that lacks entries of another, which have grown old. -/
structure Thinned (old : Int → Prop) (log full : BTreeMap Nat IssuanceRow) : Prop where
  there : ∀ (id : Nat) (row : IssuanceRow), log[id]? = some row → full[id]? = some row
  kept : ∀ (id : Nat) (row : IssuanceRow), full[id]? = some row → log[id]? = some row ∨ old row.issuedAt

/- Tables that differ in these entries only. -/
def Linked (old : Int → Prop) (s t : Tables) : Prop := ∃ log, s = Tables.withLog log t ∧ Thinned old log t.issuanceLog

section Thinning
variable {old : Int → Prop} {log full : BTreeMap Nat IssuanceRow}

theorem thinnedMono {older : Int → Prop} (thinned : Thinned old log full) (wider : ∀ moment, old moment → older moment) : Thinned older log full :=
  ⟨thinned.there,fun id row found => (thinned.kept id row found).imp_right (wider _)⟩

theorem thinnedInsert (thinned : Thinned old log full) (k : Nat) (row : IssuanceRow) : Thinned old (log.insert k row) (full.insert k row) := by
  constructor
  · intro id r found
    rw [lookupInsert] at found ⊢
    split at found
    case isTrue here => rwa [if_pos here]
    case isFalse other =>
      rw [if_neg other]
      exact thinned.there id r found
  · intro id r found
    rw [lookupInsert] at found ⊢
    split at found
    case isTrue here => exact .inl (by rwa [if_pos here])
    case isFalse other =>
      rw [if_neg other]
      exact thinned.kept id r found

theorem thinnedPruned (thinned : Thinned old log full) {cutoff : Int} (aged : ∀ moment, moment < cutoff → old moment) :
    Thinned old (deleteWhere (fun _ r => r.issuedAt < cutoff) log).2 full := by
  constructor
  · intro id row found
    rw [lookupDeleted, Option.filter_eq_some_iff] at found
    exact thinned.there id row found.1
  · intro id row found
    by_cases late : row.issuedAt < cutoff
    · exact .inr (aged _ late)
    · refine (thinned.kept id row found).imp_left ?_
      intro present
      rw [lookupDeleted, Option.filter_eq_some_iff]
      exact ⟨present,by simpa using late⟩

/- A window that the old entries have left counts the same. -/
theorem issuedThinned (thinned : Thinned old log full) {since : Int} (left : ∀ moment, old moment → moment < since) (ca domain : String) (t : Tables)
    (whole : t.issuanceLog = full) : issued ca domain since (Tables.withLog log t) = issued ca domain since t := by
  subst whole
  unfold issued
  refine congrArg _ (ExtTreeMap.ext_getElem? ?_)
  intro id
  rw [ExtTreeMap.getElem?_filter', ExtTreeMap.getElem?_filter']
  show log[id]?.filter _ = t.issuanceLog[id]?.filter _
  cases found : t.issuanceLog[id]? with
  | none =>
    cases here : log[id]? with
    | none => rfl
    | some row =>
      have also := thinned.there id row here
      rw [found] at also
      contradiction
  | some row =>
    obtain same | aged := thinned.kept id row found
    · rw [same]
    · have behind : ¬row.issuedAt ≥ since := by
        have moved := left _ aged
        omega
      rw [Option.filter_some, if_neg (by simp [behind])]
      cases here : log[id]? with
      | none => rfl
      | some other =>
        have also := thinned.there id other here
        rw [found] at also
        cases also
        rw [Option.filter_some, if_neg (by simp [behind])]

theorem issuedOnIff {hostname : String} {moment : Int} {s : Tables} :
    moment ∈ (((s.issuanceLog.toList.map Prod.snd).filter (fun r => r.hostname = hostname)).map IssuanceRow.issuedAt) ↔
      ∃ (id : Nat) (row : IssuanceRow), s.issuanceLog[id]? = some row ∧ row.hostname = hostname ∧ row.issuedAt = moment := by
  simp only [List.mem_map, List.mem_filter, Prod.exists, decide_eq_true_eq]
  constructor
  · rintro ⟨row,⟨⟨id,_,listed,rfl⟩,named⟩,here⟩
    exact ⟨id,_,ExtTreeMap.mem_toList_iff_getElem?_eq_some.mp listed,named,here⟩
  · rintro ⟨id,row,found,named,here⟩
    exact ⟨row,⟨⟨id,row,ExtTreeMap.mem_toList_iff_getElem?_eq_some.mpr found,rfl⟩,named⟩,here⟩

theorem recentlyIff {hostname : String} {now : Int} {s : Tables} :
    loggedRecently hostname now s = true ↔
      ∃ (id : Nat) (row : IssuanceRow), s.issuanceLog[id]? = some row ∧ row.hostname = hostname ∧ now - row.issuedAt < minIssuanceLogIntervalSecs := by
  rw [loggedRecently, Option.any_eq_true]
  constructor
  · rintro ⟨last,greatest,near⟩
    obtain ⟨id,row,found,named,rfl⟩ := issuedOnIff.mp (List.max?_mem greatest)
    exact ⟨id,row,found,named,by simpa using near⟩
  · rintro ⟨id,row,found,named,near⟩
    have listed := issuedOnIff.mpr ⟨id,row,found,named,rfl⟩
    cases greatest : lastIssued hostname s with
    | none =>
      rw [lastIssued, List.max?_eq_none_iff] at greatest
      rw [greatest] at listed
      contradiction
    | some last =>
      have above : row.issuedAt ≤ last := (List.max?_le_iff greatest).mp (le_refl last) _ listed
      exact ⟨last,rfl,by simp; omega⟩

/- An entry within the interval has not grown old. -/
theorem recentlyThinned {t : Tables} (thinned : Thinned old log t.issuanceLog) {now : Int}
    (left : ∀ moment, old moment → moment ≤ now - minIssuanceLogIntervalSecs) (hostname : String) :
    loggedRecently hostname now (Tables.withLog log t) = loggedRecently hostname now t := by
  rw [Bool.eq_iff_iff, recentlyIff, recentlyIff]
  constructor
  · rintro ⟨id,row,found,rest⟩
    exact ⟨id,row,thinned.there id row found,rest⟩
  · rintro ⟨id,row,found,named,near⟩
    obtain same | aged := thinned.kept id row found
    · exact ⟨id,row,same,named,near⟩
    · have behind := left _ aged
      omega

end Thinning

section Sessions
variable {old : Int → Prop} {α : Type}

theorem linkedMono {older : Int → Prop} {s t : Tables} (link : Linked old s t) (wider : ∀ moment, old moment → older moment) : Linked older s t := by
  obtain ⟨log,same,thinned⟩ := link
  exact ⟨log,same,thinnedMono thinned wider⟩

/- What does not look at the ledger, and what does not write to it. -/
theorem blindAside {f : Tables → α} (aside : ∀ log t, f (Tables.withLog log t) = f t) : Blind (Linked old) (select f : Work α) := by
  refine blindSelect ?_
  rintro _ t ⟨log,rfl,_⟩
  exact aside log t

theorem blindReadAside {f : Tables → Except SqlError α} (aside : ∀ log t, f (Tables.withLog log t) = f t) :
    Blind (Linked old) (statement (fun s => (f s).map (fun a => (a,s))) : Work α) := by
  refine blindRead ?_
  rintro _ t ⟨log,rfl,_⟩
  exact aside log t

theorem blindWrite {f : Tables → α × Tables} (aside : ∀ log t, f (Tables.withLog log t) = ((f t).1,Tables.withLog log (f t).2))
    (kept : ∀ t, (f t).2.issuanceLog = t.issuanceLog) : Blind (Linked old) (execute f : Work α) := by
  refine blindExecute ?_ ?_
  · rintro _ t ⟨log,rfl,_⟩
    rw [aside]
  · rintro _ t ⟨log,rfl,thinned⟩
    rw [aside]
    exact ⟨log,rfl,by rwa [kept]⟩

theorem blindRows (touches : String → TunnelRow → Bool) (change : TunnelRow → TunnelRow) : Blind (Linked old) (updateRows touches change) :=
  blindWrite (fun _ _ => rfl) (fun _ => rfl)

theorem blindInsertTunnel (id : String) (row : TunnelRow) : Blind (Linked old) (insertTunnel id row) := by
  refine blindStatement ?_ ?_
  · rintro _ t ⟨log,rfl,_⟩
    show Except.map _ (if hostnameTaken row.hostname t then _ else (insertRow id row t.tunnels).map _) = _
    split
    · rfl
    · cases insertRow id row t.tunnels <;> rfl
  · rintro _ t a b m n ⟨log,rfl,thinned⟩ ran also
    change (if hostnameTaken row.hostname t then _ else (insertRow id row t.tunnels).map _) = _ at ran
    split at ran <;> try contradiction
    rename_i free
    rw [if_neg free] at also
    obtain ⟨rows,inserted,left⟩ := Machine.mapOk.mp ran
    obtain ⟨rows',also,right⟩ := Machine.mapOk.mp also
    rw [inserted] at also
    cases also
    cases left
    cases right
    exact ⟨log,rfl,thinned⟩

theorem blindCreate (subject name : String) (hostname : Option String) (id routingToken : String) (createdAt : Int) :
    Blind (Linked old) (create subject name hostname id routingToken createdAt) := by
  refine blindBind (blindAside fun _ _ => rfl) ?_
  intro taken
  split
  · exact blindPure _
  · exact blindBind (blindInsertTunnel id _) (fun _ => blindPure _)

theorem blindRevoke (subject id : String) (now : UInt64) : Blind (Linked old) (revoke subject id now) := by
  refine blindTransaction (blindBind (blindAside fun _ _ => rfl) ?_)
  intro row
  cases row with
  | none => exact blindPure _
  | some row =>
    have ends : Blind (Linked old) (do
        execute (fun s => ((),{ s with accessPolicies := (deleteWhere (fun k _ => k = id) s.accessPolicies).2 }))
        execute (fun s => ((),{ s with alerts := (deleteWhere (fun k _ => k = id) s.alerts).2 }))
        execute (fun s => ((),{ s with alertDeliveries := (deleteWhere (fun _ d => d.tunnelId = id) s.alertDeliveries).2 }))
        execute (fun s => ((),{ s with grants := (deleteWhere (fun k _ => k.1 = id) s.grants).2 }))
        execute (fun s => ((),{ s with badges := (deleteWhere (fun k _ => k = id) s.badges).2 }))
        execute (fun s => ((),{ s with bridgeProbes := (deleteWhere (fun k _ => k = id) s.bridgeProbes).2 }))
        execute (fun s => ((),{ s with shareLinks := (deleteWhere (fun _ l => l.tunnelId = id) s.shareLinks).2 }))
        execute (fun s => ((),{ s with revokedTokens := s.revokedTokens.insert row.routingToken (asI64 now) }))
        pure (.commit (some row.routingToken)) : Work (Left (Option String))) := by
      iterate 8 refine blindBind (blindWrite (fun _ _ => rfl) (fun _ => rfl)) (fun _ => ?_)
      exact blindPure _
    refine blindBind (blindWrite (fun _ _ => rfl) (fun _ => rfl)) (fun _ => ?_)
    dsimp only
    split
    · refine blindBind (blindWrite (fun _ _ => rfl) (fun _ => rfl)) (fun _ => ?_)
      exact blindBind (blindWrite (fun _ _ => rfl) (fun _ => rfl)) (fun _ => ends)
    · exact ends

theorem blindTransfer (tunnelId fromSubject toSubject : String) (targetExists : Except SqlError Bool) :
    Blind (Linked old) (transferTunnel tunnelId fromSubject toSubject targetExists) := by
  refine blindTransaction (blindBind (blindAside fun _ _ => rfl) ?_)
  intro row
  cases row with
  | none => exact blindPure _
  | some row =>
    dsimp only
    split
    · exact blindPure _
    split
    · exact blindPure _
    cases targetExists with
    | error e => exact blindThrow e
    | ok there =>
      cases there with
      | false => exact blindPure _
      | true =>
        dsimp only
        iterate 7 refine blindBind (blindWrite (fun _ _ => rfl) (fun _ => rfl)) (fun _ => ?_)
        exact blindBind (blindReadAside fun _ _ => rfl) (fun _ => blindPure _)

theorem blindLifecycle (op : Lifecycle) : Blind (Linked old) op.work := by
  cases op with
  | create subject name hostname id routingToken createdAt => exact blindBind (blindCreate subject name hostname id routingToken createdAt) (fun _ => blindPure _)
  | createIfUnderOwnedLimit subject name hostname max id routingToken createdAt =>
    refine blindBind (blindBind (blindReadAside fun _ _ => rfl) ?_) (fun _ => blindPure _)
    intro ownedCount
    split
    · exact blindPure _
    · exact blindCreate subject name hostname id routingToken createdAt
  | revoke subject id now => exact blindBind (blindRevoke subject id now) (fun _ => blindPure _)
  | transferTunnel tunnelId fromSubject toSubject targetExists => exact blindBind (blindTransfer tunnelId fromSubject toSubject targetExists) (fun _ => blindPure _)

theorem blindComplete {hostname domain : String} {now : Int} (left : ∀ moment, old moment → moment ≤ now - minIssuanceLogIntervalSecs) :
    Blind (Linked old) (recordIssuanceComplete hostname domain now) := by
  refine blindTransaction (blindBind (blindAside fun _ _ => rfl) (fun ca => blindBind (blindRows _ _) ?_))
  intro rows
  split
  · exact blindPure _
  · cases ca with
    | none => exact blindPure _
    | some ca =>
      refine blindBind (blindSelect ?_) ?_
      · rintro _ t ⟨log,rfl,thinned⟩
        exact recentlyThinned thinned left hostname
      · intro recently
        split
        · exact blindPure _
        · refine blindBind (blindExecute (fun _ _ _ => rfl) ?_) (fun _ => blindPure _)
          rintro _ t ⟨log,rfl,thinned⟩
          exact ⟨log.insert (t.issuanceSeq + 1) ⟨ca,domain,hostname,now⟩,rfl,thinnedInsert thinned _ _⟩

theorem blindStore {op : Op} {now : Int} (spares : ∀ cutoff, op ≠ .pruneAcmeIssuanceLog cutoff)
    (left : ∀ moment, old moment → moment ≤ now - minIssuanceLogIntervalSecs) : Blind (Linked old) (op.work now) := by
  cases op with
  | lifecycle op => exact blindBind (blindLifecycle op) (fun _ => blindPure _)
  | enterGelbQueue hostname => exact blindBind (blindBind (blindRows _ _) (fun _ => blindPure _)) (fun _ => blindPure _)
  | setCertClaimOptOut subject tunnelId enabled =>
    exact blindBind (blindBind (blindWrite (fun _ _ => rfl) (fun _ => rfl)) (fun _ => blindPure _)) (fun _ => blindPure _)
  | lapseExpiredClaims => exact blindBind (blindRows _ _) (fun _ => blindPure _)
  | requeueLegacyLapsedClaims => exact blindBind (blindRows _ _) (fun _ => blindPure _)
  | reclaimCertSlot subject hostname => exact blindBind (blindBind (blindRows _ _) (fun _ => blindPure _)) (fun _ => blindPure _)
  | recordIssuanceComplete hostname => exact blindBind (blindComplete left) (fun _ => blindPure _)
  | pruneAcmeIssuanceLog cutoff => exact absurd rfl (spares cutoff)

variable (rotation : List CaProfile) (eabLookup : String → Option String × Option String)

theorem blindPick {domain : String} {now : Int} (left : ∀ moment, old moment → moment < now - budgetWindowSecs) :
    Blind (Linked old) (pickCaWith rotation eabLookup domain now) := by
  refine blindBind (blindLoop ?_ _ _) (fun _ => blindPure _)
  intro best ca
  unfold pickOne
  split
  · exact blindPure _
  · refine blindBind (blindBind (blindSelect ?_) (fun _ => blindBind (blindAside fun _ _ => rfl) (fun _ => blindPure _))) ?_
    · rintro _ t ⟨log,rfl,thinned⟩
      exact issuedThinned thinned left ca.name domain t rfl
    · intro usage
      dsimp only
      split <;> exact blindPure _

theorem blindSweep {sweep : Sweep} {now : Int} (left : ∀ began ∈ sweep.began, ∀ moment, old moment → moment < began - budgetWindowSecs) :
    Blind (Linked old) (sweep.work rotation eabLookup now) := by
  match sweep with
  | .idle => exact blindBind (blindReadAside fun _ _ => rfl) (fun _ => blindPure _)
  | .listed _ [] => exact blindPure _
  | .listed began (hostname :: queue) =>
    refine blindBind (blindAttempt (blindPick rotation eabLookup (left began rfl))) ?_
    intro picked
    match picked with
    | .ok (some ca) => exact blindPure _
    | .ok none => exact blindPure _
    | .error _ => exact blindPure _
  | .picked began hostname ca queue =>
    exact blindBind (blindAttempt (blindBind (blindRows _ _) (fun _ => blindPure _))) (fun _ => blindPure _)

end Sessions

/- A tick deletes by its own clock; no later call is made by one that is behind it by more
than the slack, and no sweep under way began that long ago. -/
def Call.Scheduled (call : Call) : Prop := call.prunes → call = pruneTick call.now call.faults

def Call.Steady (earlier later : Call) : Prop := earlier.prunes → earlier.now - slackSecs ≤ later.now

def Brief (s : State) (call : Call) : Prop := call.prunes → ∀ began ∈ s.sweep.began, call.now - slackSecs ≤ began

instance (earlier later : Call) : Decidable (Call.Steady earlier later) := inferInstanceAs (Decidable (_ → _))

instance (s : State) (call : Call) : Decidable (Brief s call) := inferInstanceAs (Decidable (_ → _))

section Runs
variable {rotation : List CaProfile} {eabLookup : String → Option String × Option String} {calls rest : List Call} {s t : State}

/- What a tick has deleted, as long as nothing that is still to come looks back as far. -/
def Aged (calls rest : List Call) (sweep : Sweep) (moment : Int) : Prop :=
  ∃ tick ∈ calls, tick.prunes ∧ moment < tick.now - acmeIssuanceLogMaxAgeSecs ∧ (∀ call ∈ rest, tick.now - slackSecs ≤ call.now) ∧
    ∀ began ∈ sweep.began, tick.now - slackSecs ≤ began

structure Followed (rotation : List CaProfile) (eabLookup : String → Option String × Option String) (calls rest : List Call) (s t : State) : Prop where
  link : Linked (Aged calls rest s.sweep) s.tables t.tables
  same : s.sweep = t.sweep
  among : rest ⊆ calls
  scheduled : ∀ call ∈ rest, call.Scheduled
  steady : rest.Pairwise Call.Steady
  brief : Machine.along (step rotation eabLookup) Brief s rest

theorem agedBefore {call : Call} {sweep : Sweep} {moment : Int} (aged : Aged calls (call :: rest) sweep moment) :
    moment < call.now - budgetWindowSecs ∧ ∀ began ∈ sweep.began, moment < began - budgetWindowSecs := by
  obtain ⟨tick,_,_,late,coming,underway⟩ := aged
  rw [slackSecs] at coming underway
  have here := coming call List.mem_cons_self
  refine ⟨by omega,?_⟩
  intro began there
  have started := underway began there
  omega

theorem agedNext {call : Call} {sweep next : Sweep} (goes : ∀ began ∈ next.began, began ∈ sweep.began ∨ began = call.now) {moment : Int}
    (aged : Aged calls (call :: rest) sweep moment) : Aged calls rest next moment := by
  obtain ⟨tick,among,prunes,late,coming,underway⟩ := aged
  refine ⟨tick,among,prunes,late,fun c mem => coming c (List.mem_cons_of_mem _ mem),?_⟩
  intro began there
  obtain still | rfl := goes began there
  · exact underway began still
  · exact coming call List.mem_cons_self

theorem sweptBegan {now : Int} {tables m : Tables} {sweep next : Sweep} (swept : Swept now tables sweep next m) :
    ∀ began ∈ next.began, began ∈ sweep.began ∨ began = now := by
  intro began there
  cases swept with
  | kept => exact .inl there
  | began names => exact .inr (Option.some.inj there).symm
  | ended => contradiction
  | picked room => exact .inl there
  | skipped => exact .inl there
  | missed => exact .inl there
  | offered => exact .inl there

/- The window of the check for a double count lies within that of the budget. -/
theorem narrower {now moment : Int} (left : moment < now - budgetWindowSecs) : moment ≤ now - minIssuanceLogIntervalSecs := by
  rw [budgetWindowSecs] at left
  rw [minIssuanceLogIntervalSecs]
  omega

/- Only a step of the sweep moves the time it began at, and to that of the call. -/
theorem stepBegan (s : State) (call : Call) :
    ∀ began ∈ (step rotation eabLookup s call).2.sweep.began, began ∈ s.sweep.began ∨ began = call.now := by
  cases stepCases rotation eabLookup s call with
  | store op act stored same =>
    rw [same]
    exact fun _ there => .inl there
  | sweep act swept => exact sweptBegan swept

theorem stepBlind {old : Int → Prop} {call : Call} (spares : call.prunes = false) (link : Linked old s.tables t.tables) (same : s.sweep = t.sweep)
    (left : ∀ moment, old moment → moment < call.now - budgetWindowSecs)
    (underway : ∀ began ∈ s.sweep.began, ∀ moment, old moment → moment < began - budgetWindowSecs) :
    (step rotation eabLookup s call).1 = (step rotation eabLookup t call).1 ∧
      Linked old (step rotation eabLookup s call).2.tables (step rotation eabLookup t call).2.tables ∧
      (step rotation eabLookup s call).2.sweep = (step rotation eabLookup t call).2.sweep := by
  cases act : call.act with
  | store op =>
    have other : ∀ cutoff, op ≠ .pruneAcmeIssuanceLog cutoff := by
      rintro cutoff rfl
      rw [Call.prunes, act] at spares
      contradiction
    obtain ⟨said,still⟩ := blindPerform (blindStore other (fun moment aged => narrower (left moment aged))) link call.faults
    unfold step
    rw [act]
    exact ⟨said,still,same⟩
  | sweep =>
    obtain ⟨said,still⟩ := blindPerform (@blindSweep old rotation eabLookup s.sweep call.now underway) link call.faults
    obtain ⟨⟨r,m⟩,run⟩ : ∃ out, perform (s.sweep.work rotation eabLookup call.now) s.tables call.faults = out := ⟨_,rfl⟩
    obtain ⟨⟨r',n⟩,run'⟩ : ∃ out, perform (s.sweep.work rotation eabLookup call.now) t.tables call.faults = out := ⟨_,rfl⟩
    rw [run, run'] at said still
    unfold step
    rw [act, ← same]
    dsimp only
    rw [run, run']
    obtain rfl : r = r' := said
    cases r with
    | error e => exact ⟨rfl,still,rfl⟩
    | ok next => exact ⟨rfl,still,rfl⟩

theorem followedVisible {call : Call} (spares : call.prunes = false) (followed : Followed rotation eabLookup calls (call :: rest) s t) :
    (step rotation eabLookup s call).1 = (step rotation eabLookup t call).1 ∧
      Followed rotation eabLookup calls rest (step rotation eabLookup s call).2 (step rotation eabLookup t call).2 := by
  obtain ⟨said,link,same⟩ := @stepBlind rotation eabLookup s t _ call spares followed.link followed.same (fun _ aged => (agedBefore aged).1)
    (fun began there _ aged => (agedBefore aged).2 began there)
  refine ⟨said,?_⟩
  constructor
  case link => exact linkedMono link (fun _ aged => agedNext (stepBegan s call) aged)
  case same => exact same
  case among => exact fun c mem => followed.among (List.mem_cons_of_mem _ mem)
  case scheduled => exact fun c mem => followed.scheduled c (List.mem_cons_of_mem _ mem)
  case steady => exact (List.pairwise_cons.mp followed.steady).2
  case brief => exact followed.brief.2

theorem followedTick {call : Call} (prunes : call.prunes = true) (followed : Followed rotation eabLookup calls (call :: rest) s t) :
    Followed rotation eabLookup calls rest (step rotation eabLookup s call).2 t := by
  have act : call.act = .store (.pruneAcmeIssuanceLog (call.now - acmeIssuanceLogMaxAgeSecs)) :=
    congrArg Call.act (followed.scheduled call List.mem_cons_self prunes)
  obtain ⟨later,steady⟩ := List.pairwise_cons.mp followed.steady
  have still : (step rotation eabLookup s call).2.sweep = s.sweep := by
    unfold step
    rw [act]
  have aged : ∀ moment, moment < call.now - acmeIssuanceLogMaxAgeSecs → Aged calls rest s.sweep moment := fun moment late =>
    ⟨call,followed.among List.mem_cons_self,prunes,late,fun c mem => later c mem prunes,followed.brief.1 prunes⟩
  constructor
  case link =>
    rw [still]
    have link := linkedMono followed.link (fun _ aged => @agedNext calls rest call s.sweep s.sweep (fun _ there => .inl there) _ aged)
    have stored := storeEnds (s := s.tables) (.pruneAcmeIssuanceLog (call.now - acmeIssuanceLogMaxAgeSecs)) call.now call.faults
    have ran : (step rotation eabLookup s call).2.tables =
        (perform (Op.work call.now (.pruneAcmeIssuanceLog (call.now - acmeIssuanceLogMaxAgeSecs))) s.tables call.faults).2 := by
      unfold step
      rw [act]
    rw [← ran] at stored
    obtain ⟨log,linked,thinned⟩ := link
    generalize (step rotation eabLookup s call).2.tables = m at stored
    cases stored with
    | idle => exact ⟨log,linked,thinned⟩
    | pruned => exact ⟨_,by rw [linked]; rfl,thinnedPruned thinned aged⟩
  case same => rw [still, followed.same]
  case among => exact fun c mem => followed.among (List.mem_cons_of_mem _ mem)
  case scheduled => exact fun c mem => followed.scheduled c (List.mem_cons_of_mem _ mem)
  case steady => exact steady
  case brief => exact followed.brief.2

theorem pruningUnseen {calls : List Call} (scheduled : ∀ call ∈ calls, call.Scheduled) (steady : calls.Pairwise Call.Steady)
    (brief : Machine.along (step rotation eabLookup) Brief {} calls) :
    Machine.heard (step rotation eabLookup) Call.prunes {} calls =
        Machine.heard (step rotation eabLookup) Call.prunes {} (calls.filter (!Call.prunes ·)) ∧
      ∃ log, run rotation eabLookup calls =
          ⟨Tables.withLog log (run rotation eabLookup (calls.filter (!Call.prunes ·))).tables,(run rotation eabLookup (calls.filter (!Call.prunes ·))).sweep⟩ ∧
        Thinned (fun moment => ∃ tick ∈ calls, tick.prunes ∧ moment < tick.now - acmeIssuanceLogMaxAgeSecs) log
          (run rotation eabLookup (calls.filter (!Call.prunes ·))).tables.issuanceLog := by
  obtain ⟨same,⟨⟨log,linked,thinned⟩,sweeps,_,_,_,_⟩⟩ := @Machine.unwinding _ _ _ (step rotation eabLookup) Call.prunes (Followed rotation eabLookup calls)
    (fun _ _ _ _ spares followed => followedVisible spares followed) (fun _ _ _ _ prunes followed => followedTick prunes followed) calls {} {}
    ⟨⟨_,rfl,⟨fun _ _ found => found,fun _ _ found => .inl found⟩⟩,rfl,List.Subset.refl _,scheduled,steady,brief⟩
  refine ⟨same,log,?_,thinnedMono thinned ?_⟩
  · exact congrArg₂ State.mk linked sweeps
  · rintro moment ⟨tick,among,prunes,late,_⟩
    exact ⟨tick,among,prunes,late⟩

/- A certificate is issued, aged out and issued again. -/
def renewing : List Call :=
  [⟨.store (.lifecycle (.create "alice" "site" (some "a.example.com") "t1" "r1" 0)),0,[]⟩,⟨.store (.enterGelbQueue "a.example.com"),10,[]⟩,⟨.sweep,20,[]⟩,
    ⟨.sweep,21,[]⟩,⟨.sweep,22,[]⟩,⟨.sweep,23,[]⟩,⟨.store (.recordIssuanceComplete "a.example.com"),30,[]⟩,pruneTick 3600 [],pruneTick 2592031 [],
    ⟨.store (.recordIssuanceComplete "a.example.com"),5184000,[]⟩,⟨.sweep,5184010,[]⟩,pruneTick 5184020 []]

theorem renewingUnseen :
    (Machine.heard (step [letsEncrypt] (fun _ => (none,none))) Call.prunes {} renewing =
        Machine.heard (step [letsEncrypt] (fun _ => (none,none))) Call.prunes {} (renewing.filter (!Call.prunes ·)) ∧
      ∃ log, run [letsEncrypt] (fun _ => (none,none)) renewing =
          ⟨Tables.withLog log (run [letsEncrypt] (fun _ => (none,none)) (renewing.filter (!Call.prunes ·))).tables,
            (run [letsEncrypt] (fun _ => (none,none)) (renewing.filter (!Call.prunes ·))).sweep⟩ ∧
        Thinned (fun moment => ∃ tick ∈ renewing, tick.prunes ∧ moment < tick.now - acmeIssuanceLogMaxAgeSecs) log
          (run [letsEncrypt] (fun _ => (none,none)) (renewing.filter (!Call.prunes ·))).tables.issuanceLog) ∧
      (run [letsEncrypt] (fun _ => (none,none)) renewing).tables.issuanceLog.size = 1 ∧
      (run [letsEncrypt] (fun _ => (none,none)) (renewing.filter (!Call.prunes ·))).tables.issuanceLog.size = 2 :=
  ⟨pruningUnseen (by simp [renewing, Call.Scheduled, Call.prunes, pruneTick]) (by decide +kernel) (by decide +kernel),by decide +kernel,by decide +kernel⟩

end Runs
end CadsTunnel.CertSweep
