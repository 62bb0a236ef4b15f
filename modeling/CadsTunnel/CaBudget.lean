import CadsTunnel.CertSweep
import CadsTunnel.TrailingWindow

/-! The budget of a certificate authority: how many certificates a registered domain may
take of it in a week. The sweep offers a slot only while ledger and open offers leave room.
A first issuance that the ledger leaves out, since it has one of the same hostname from the
day before, is one too many. -/
namespace CadsTunnel.CaBudget
open OrderedMap Sql TunnelStore CertStore CertSweep TrailingWindow
open Std (ExtTreeMap)

/- A hostname has been issued its first certificate. -/
structure Completion where
  ca : String
  domain : String
  issuedAt : Int
  deriving DecidableEq

/- A row with an open offer that turns green. -/
def turned (now : Int) (m : Tables) (e : String × TunnelRow) : Option Completion :=
  if e.2.claimState = .offered && e.2.status ≠ .gruen && m.tunnels[e.1]?.any (fun t => t.status = .gruen) then
    e.2.assignedCa.bind (fun ca => e.2.hostname.map (fun hostname => ⟨ca,registeredDomain hostname,now⟩))
  else none

def firsts (now : Int) (s m : Tables) : List Completion := s.tunnels.toList.filterMap (turned now m)

def recent (ca domain : String) (since : Int) (log : List Completion) : Nat :=
  countSince Completion.issuedAt since (log.filter (fun c => c.ca = ca && c.domain = domain))

/- The ledger is pruned only behind the window. -/
def prudent (call : Call) : Bool :=
  match call.act with
  | .store (.pruneAcmeIssuanceLog cutoff) => cutoff ≤ call.now - budgetWindowSecs
  | _ => true

/- A first issuance for a hostname that the ledger already has an entry of, younger than a day. -/
def uncounted (s : State) (call : Call) : Bool :=
  match call.act with
  | .store (.recordIssuanceComplete hostname) =>
    hasRow (fun _ r => r.hostname = some hostname && r.status = .gelb && r.claimState = .offered) s.tables.tunnels &&
      loggedRecently hostname call.now s.tables
  | _ => false

def Numbered (s : Tables) : Prop := ∀ (id : Nat) (row : IssuanceRow), s.issuanceLog[id]? = some row → id ≤ s.issuanceSeq

section Counts
variable {s m : Tables} {now : Int}

theorem recentLater (ca domain : String) {since later : Int} (forward : since ≤ later) (log : List Completion) :
    recent ca domain later log ≤ recent ca domain since log := countLater forward _

theorem recentAppend (ca domain : String) (since : Int) (log more : List Completion) :
    recent ca domain since (log ++ more) = recent ca domain since log + recent ca domain since more := by
  rw [recent, List.filter_append, countAppend, ← recent, ← recent]

theorem recentOne (ca domain : String) (since : Int) (c : Completion) :
    recent ca domain since [c] = if c.ca = ca ∧ c.domain = domain ∧ since ≤ c.issuedAt then 1 else 0 := by
  unfold recent
  rw [List.filter_singleton]
  by_cases mine : c.ca = ca ∧ c.domain = domain
  · simp [countSince, mine]
  · rw [not_and_or] at mine
    obtain other | other := mine <;> simp [countSince, other]

theorem issuedLater (ca domain : String) {since later : Int} (forward : since ≤ later) (s : Tables) :
    issued ca domain later s ≤ issued ca domain since s := by
  refine sizeLe ?_
  intro k present
  rw [ExtTreeMap.getElem?_filter', Option.isSome_filter] at present ⊢
  obtain ⟨row,found,hit⟩ := (Option.any_eq_true _ _).mp present
  refine (Option.any_eq_true _ _).mpr ⟨row,found,?_⟩
  simp only [Bool.and_eq_true, decide_eq_true_eq] at hit ⊢
  exact ⟨hit.1,by omega⟩

theorem issuedPruned {ca domain : String} {since cutoff : Int} (behind : cutoff ≤ since) :
    issued ca domain since s ≤
      issued ca domain since { s with issuanceLog := (deleteWhere (fun _ r => r.issuedAt < cutoff) s.issuanceLog).2 } := by
  refine sizeLe ?_
  intro k present
  rw [ExtTreeMap.getElem?_filter', Option.isSome_filter] at present ⊢
  obtain ⟨row,found,hit⟩ := (Option.any_eq_true _ _).mp present
  simp only [Bool.and_eq_true, decide_eq_true_eq] at hit
  rw [lookupDeleted, found, Option.filter_some, if_pos (by simp; omega)]
  simpa using hit

theorem issuedLogged (numbered : Numbered s) (ca domain hostname : String) (moment : Int) (also : String) (domain' : String) (since : Int) :
    issued also domain' since (Tables.logged ca domain hostname moment s) =
      issued also domain' since s + if ca = also ∧ domain = domain' ∧ since ≤ moment then 1 else 0 := by
  have fresh : s.issuanceLog[s.issuanceSeq + 1]? = none := by
    cases found : s.issuanceLog[s.issuanceSeq + 1]? with
    | none => rfl
    | some row => exact absurd (numbered _ row found) (by omega)
  unfold issued Tables.logged
  rw [sizeFilterInsert, eraseAbsent fresh]
  simp [and_assoc]

theorem numberedLogged (numbered : Numbered s) (ca domain hostname : String) (moment : Int) : Numbered (Tables.logged ca domain hostname moment s) := by
  intro id row here
  simp only [Tables.logged, lookupInsert] at here ⊢
  split at here
  case isTrue last => omega
  case isFalse =>
    have below := numbered id row here
    omega

def holds (ca domain : String) (r : TunnelRow) : Bool :=
  r.assignedCa = some ca && r.claimState = .offered && r.hostname.any (fun h => registeredDomain h = domain)

/- The open offers once one row is written over. -/
theorem reservedWritten {id : String} {r : TunnelRow} (found : s.tunnels[id]? = some r) (t : TunnelRow) (ca domain : String) :
    reserved ca domain { s with tunnels := s.tunnels.insert id t } + (if holds ca domain r then 1 else 0) =
      reserved ca domain s + if holds ca domain t then 1 else 0 := by
  have before : reserved ca domain s = ((s.tunnels.erase id).filter (fun _ r => holds ca domain r)).size + if holds ca domain r then 1 else 0 := by
    rw [← sizeFilterInsert (fun _ r => holds ca domain r), insertSame found]
    rfl
  have after : reserved ca domain { s with tunnels := s.tunnels.insert id t } =
      ((s.tunnels.erase id).filter (fun _ r => holds ca domain r)).size + if holds ca domain t then 1 else 0 :=
    sizeFilterInsert (fun _ r => holds ca domain r) s.tunnels id t
  omega

/- A statement about the rows with a hostname writes at most one row. -/
theorem writtenNamed (distinct : Distinct s.tunnels) {id hostname : String} {r : TunnelRow} (found : s.tunnels[id]? = some r)
    (named : r.hostname = some hostname) {touches : String → TunnelRow → Bool} {change : TunnelRow → TunnelRow} (hit : touches id r)
    (about : ∀ k t, touches k t → t.hostname = some hostname) :
    (updateWhere touches change s.tunnels).2 = s.tunnels.insert id (change r) := by
  apply ExtTreeMap.ext_getElem?
  intro k
  rw [lookupUpdated, lookupInsert]
  by_cases same : k = id
  · rw [same, found, Option.map_some, if_pos hit, if_pos rfl]
  · rw [if_neg same]
    cases here : s.tunnels[k]? with
    | none => rfl
    | some t =>
      rw [Option.map_some, if_neg]
      intro touched
      exact same (distinct k id t r hostname here found (about k t touched) named)

theorem rowNamed (distinct : Distinct s.tunnels) {id hostname : String} {r : TunnelRow} (found : s.tunnels[id]? = some r)
    (named : r.hostname = some hostname) : rowOf hostname s = some (id,r) := by
  cases first : rowOf hostname s with
  | none => exact absurd (decide_eq_true named) (firstRowNone first found)
  | some e =>
    obtain ⟨k,t⟩ := e
    obtain ⟨here,also⟩ := firstRowSome first
    have same := distinct k id t r hostname here found (of_decide_eq_true also) named
    subst same
    rw [found] at here
    cases Option.some.inj here
    rfl

end Counts

/- Of a change that opens no offer and turns no row green: what a row then is, of what was there. -/
def Calm (old : Option TunnelRow) (r : TunnelRow) : Prop :=
  (r.status = .gruen → ∃ o, old = some o ∧ o.status = .gruen) ∧
    (r.claimState = .offered → ∃ o, old = some o ∧ o.claimState = .offered ∧ o.assignedCa = r.assignedCa ∧ o.hostname = r.hostname)

section Changes
variable {s m : Tables} {now : Int}

theorem calmKept (r : TunnelRow) : Calm (some r) r := ⟨fun green => ⟨r,rfl,green⟩,fun offers => ⟨r,rfl,offers,rfl,rfl⟩⟩

theorem calmMoved (moved : Moved s m) (k : String) (r : TunnelRow) (here : m.tunnels[k]? = some r) : Calm s.tunnels[k]? r := by
  cases moved with
  | idle => exact here ▸ calmKept r
  | @created id row absent free fresh =>
    dsimp only at here
    rw [lookupInsert] at here
    split at here
    case isTrue =>
      cases Option.some.inj here
      obtain ⟨_,_,_,_,_,rfl⟩ := fresh
      exact ⟨nofun,nofun⟩
    case isFalse => exact here ▸ calmKept r
  | revoked now found =>
    simp only [Tables.revoked, lookupErase] at here
    split at here <;> try contradiction
    exact here ▸ calmKept r
  | @transferred id row toSubject found =>
    simp only [Tables.transferred, lookupInsert] at here
    split at here
    case isTrue same =>
      cases Option.some.inj here
      rw [same, found]
      exact calmKept row
    case isFalse => exact here ▸ calmKept r

theorem calmUpdated {touches : String → TunnelRow → Bool} {change : TunnelRow → TunnelRow}
    (calm : ∀ k r, touches k r → Calm (some r) (change r)) (k : String) (r : TunnelRow)
    (here : (Tables.updated touches change s).tunnels[k]? = some r) : Calm s.tunnels[k]? r := by
  rw [lookupUpdatedRow] at here
  obtain ⟨old,found,same⟩ := Option.map_eq_some_iff.mp here
  rw [found]
  split at same
  case isTrue hit => exact same ▸ calm k old hit
  case isFalse => exact same ▸ calmKept old

theorem distinctUpdated (distinct : Distinct s.tunnels) {touches : String → TunnelRow → Bool} {change : TunnelRow → TunnelRow}
    (named : ∀ r, (change r).hostname = r.hostname) : Distinct (Tables.updated touches change s).tunnels := by
  refine distinctKept distinct ?_
  intro k r here
  rw [lookupUpdatedRow] at here
  obtain ⟨old,found,same⟩ := Option.map_eq_some_iff.mp here
  refine ⟨old,found,?_⟩
  split at same
  · exact same ▸ named old
  · exact same ▸ rfl

theorem firstsCalm (settled : ∀ (k : String) (r : TunnelRow), m.tunnels[k]? = some r → r.status = .gruen →
      ∃ o, s.tunnels[k]? = some o ∧ o.status = .gruen) : firsts now s m = [] := by
  unfold firsts
  rw [List.filterMap_eq_nil_iff]
  rintro ⟨k,r⟩ mem
  have found := ExtTreeMap.mem_toList_iff_getElem?_eq_some.mp mem
  rw [turned, if_neg]
  simp only [Bool.and_eq_true, decide_eq_true_eq]
  rintro ⟨⟨_,before⟩,after⟩
  obtain ⟨t,here,green⟩ := (Option.any_eq_true _ _).mp after
  obtain ⟨o,there,already⟩ := settled k t here (of_decide_eq_true green)
  rw [found] at there
  cases Option.some.inj there
  exact before already

theorem reservedCalm (calm : ∀ (k : String) (r : TunnelRow), m.tunnels[k]? = some r → Calm s.tunnels[k]? r) (ca domain : String) :
    reserved ca domain m ≤ reserved ca domain s := by
  refine sizeLe ?_
  intro k present
  rw [ExtTreeMap.getElem?_filter', Option.isSome_filter] at present ⊢
  obtain ⟨r,found,hit⟩ := (Option.any_eq_true _ _).mp present
  simp only [Bool.and_eq_true, decide_eq_true_eq] at hit
  obtain ⟨o,there,offers,same,also⟩ := (calm k r found).2 hit.1.2
  refine (Option.any_eq_true _ _).mpr ⟨o,there,?_⟩
  simp only [offers, same, also, hit.1.1, hit.2, decide_true, Bool.and_self]

/- Only one row can turn. -/
theorem firstsOne {id : String} {r t : TunnelRow} (found : s.tunnels[id]? = some r) (written : m.tunnels = s.tunnels.insert id t) :
    firsts now s m = (turned now m (id,r)).toList := by
  have rest : (s.tunnels.erase id).toList.filterMap (turned now m) = [] := by
    rw [List.filterMap_eq_nil_iff]
    rintro ⟨k,o⟩ mem
    have there := ExtTreeMap.mem_toList_iff_getElem?_eq_some.mp mem
    rw [lookupErase] at there
    split at there <;> try contradiction
    rename_i other
    rw [turned, written, lookupInsert, if_neg other, there, if_neg]
    simp only [Bool.and_eq_true, decide_eq_true_eq, Option.any_some]
    rintro ⟨⟨_,before⟩,after⟩
    exact before after
  have entries := (entriesErase found).filterMap (turned now m)
  rw [List.filterMap_cons, rest] at entries
  unfold firsts
  cases first : turned now m (id,r) with
  | none =>
    rw [first] at entries
    exact List.perm_nil.mp entries
  | some c =>
    rw [first] at entries
    exact List.perm_singleton.mp entries

/- A step of the store whose completions the ledger counts, and that makes room for each. -/
structure Carried (now : Int) (s m : Tables) (more : List Completion) : Prop where
  numbered : Numbered m
  distinct : Distinct m.tunnels
  covered : ∀ ca domain since, now - budgetWindowSecs ≤ since → recent ca domain since more + issued ca domain since s ≤ issued ca domain since m
  lighter : ∀ ca domain since, recent ca domain since more + reserved ca domain m ≤ reserved ca domain s

theorem calmCarried (numbered : Numbered m) (distinct : Distinct m.tunnels)
    (covered : ∀ ca domain since, now - budgetWindowSecs ≤ since → issued ca domain since s ≤ issued ca domain since m)
    (calm : ∀ (k : String) (r : TunnelRow), m.tunnels[k]? = some r → Calm s.tunnels[k]? r) : Carried now s m (firsts now s m) := by
  rw [firstsCalm (fun k r here => (calm k r here).1)]
  refine ⟨numbered,distinct,?_,?_⟩
  · intro ca domain since window
    have more := covered ca domain since window
    show 0 + _ ≤ _
    omega
  · intro ca domain since
    have fewer := reservedCalm calm ca domain
    show 0 + _ ≤ _
    omega

theorem updatedCarried (numbered : Numbered s) (distinct : Distinct s.tunnels) {touches : String → TunnelRow → Bool}
    {change : TunnelRow → TunnelRow} (named : ∀ r, (change r).hostname = r.hostname) (calm : ∀ k r, touches k r → Calm (some r) (change r)) :
    Carried now s (Tables.updated touches change s) (firsts now s (Tables.updated touches change s)) :=
  calmCarried numbered (distinctUpdated distinct named) (fun _ _ _ _ => le_rfl) (calmUpdated calm)

/- The one row that a completed issuance turns green. -/
theorem turnedCompleted {id hostname : String} {r : TunnelRow} (named : r.hostname = some hostname) (offers : r.claimState = .offered)
    (yellow : r.status = .gelb) (here : m.tunnels[id]? = some (completed r)) :
    turned now m (id,r) = r.assignedCa.map (fun ca => ⟨ca,registeredDomain hostname,now⟩) := by
  rw [turned, here, if_pos]
  · rw [named]
    cases r.assignedCa <;> rfl
  · rw [offers, yellow]
    rfl

theorem completable' {hostname id : String} {r : TunnelRow} (hit : completable hostname id r) :
    r.hostname = some hostname ∧ (r.status = .gruen ∨ r.status = .gelb ∧ r.claimState = .offered) := by
  simpa [completable] using hit

/- A renewal, or nothing at all. -/
theorem renewalCarried {hostname : String} (numbered : Numbered s) (distinct : Distinct s.tunnels)
    (renewal : ∀ (id : String) (r : TunnelRow), s.tunnels[id]? = some r → r.hostname = some hostname → r.status = .gelb → r.claimState ≠ .offered)
    (done : Completed hostname (registeredDomain hostname) now s m) : Carried now s m (firsts now s m) := by
  have renamed : Distinct (Tables.updated (completable hostname) completed s).tunnels := distinctUpdated distinct (fun _ => rfl)
  have calm : ∀ k r, completable hostname k r → s.tunnels[k]? = some r → Calm (some r) (completed r) := by
    intro k r hit found
    obtain ⟨named,green | ⟨yellow,offers⟩⟩ := completable' hit
    · exact ⟨fun _ => ⟨r,rfl,green⟩,nofun⟩
    · exact absurd offers (renewal k r found named yellow)
  have quiet : ∀ (k : String) (r : TunnelRow), (Tables.updated (completable hostname) completed s).tunnels[k]? = some r → Calm s.tunnels[k]? r := by
    intro k r here
    rw [lookupUpdatedRow] at here
    obtain ⟨old,found,same⟩ := Option.map_eq_some_iff.mp here
    rw [found]
    split at same
    case isTrue hit => exact same ▸ calm k old hit found
    case isFalse => exact same ▸ calmKept old
  cases done with
  | idle => exact calmCarried numbered distinct (fun _ _ _ _ => le_rfl) (fun k r here => here ▸ calmKept r)
  | uncounted => exact calmCarried numbered renamed (fun _ _ _ _ => le_rfl) quiet
  | @counted ca assigned =>
    refine calmCarried (numberedLogged numbered ca _ hostname now) renamed ?_ quiet
    intro ca' domain' since window
    have more := issuedLogged numbered ca (registeredDomain hostname) hostname now ca' domain' since
    rw [show issued ca' domain' since (Tables.logged ca (registeredDomain hostname) hostname now (Tables.updated (completable hostname) completed s)) =
      issued ca' domain' since (Tables.logged ca (registeredDomain hostname) hostname now s) from rfl]
    omega

/- A first issuance that the ledger takes up. -/
theorem firstCarried {hostname id : String} {r : TunnelRow} (numbered : Numbered s) (distinct : Distinct s.tunnels)
    (found : s.tunnels[id]? = some r) (named : r.hostname = some hostname) (yellow : r.status = .gelb) (offers : r.claimState = .offered)
    (counted : ¬loggedRecently hostname now s) (done : Completed hostname (registeredDomain hostname) now s m) :
    Carried now s m (firsts now s m) := by
  have renamed : Distinct (Tables.updated (completable hostname) completed s).tunnels := distinctUpdated distinct (fun _ => rfl)
  have hit : completable hostname id r := by simp [completable, named, yellow, offers]
  have written := @writtenNamed _ distinct _ _ _ found named _ completed hit (fun k t touched => (completable' touched).1)
  have row := rowNamed distinct found named
  cases done with
  | idle => exact calmCarried numbered distinct (fun _ _ _ _ => le_rfl) (fun k r here => here ▸ calmKept r)
  | uncounted same =>
    have nameless : r.assignedCa = none := by
      cases assigned : r.assignedCa with
      | none => rfl
      | some ca =>
        refine absurd (same ca ?_ ⟨id,r,found,hit⟩) counted
        rw [row]
        exact assigned
    have none' : firsts now s (Tables.updated (completable hostname) completed s) = [] := by
      rw [firstsOne found written, turnedCompleted named offers yellow, nameless]
      · rfl
      · rw [lookupUpdatedRow, found, Option.map_some, if_pos hit]
    rw [none']
    refine ⟨numbered,renamed,fun _ _ _ _ => (Nat.zero_add _).le,?_⟩
    intro ca domain since
    have moved := reservedWritten found (completed r) ca domain
    rw [show holds ca domain (completed r) = false by simp [holds, completed], show holds ca domain r = false by simp [holds, nameless]] at moved
    rw [← written] at moved
    show 0 + _ ≤ _
    exact (Nat.zero_add _).trans_le moved.le
  | @counted ca assigned =>
    rw [row] at assigned
    replace assigned : r.assignedCa = some ca := assigned
    have one : firsts now s (Tables.logged ca (registeredDomain hostname) hostname now (Tables.updated (completable hostname) completed s)) =
        [⟨ca,registeredDomain hostname,now⟩] := by
      rw [firstsOne found written, turnedCompleted named offers yellow, assigned]
      · rfl
      · show (Tables.updated (completable hostname) completed s).tunnels[id]? = _
        rw [lookupUpdatedRow, found, Option.map_some, if_pos hit]
    rw [one]
    refine ⟨numberedLogged numbered ca _ hostname now,renamed,?_,?_⟩
    · intro ca' domain' since window
      rw [show issued ca' domain' since (Tables.logged ca (registeredDomain hostname) hostname now (Tables.updated (completable hostname) completed s)) =
        issued ca' domain' since (Tables.logged ca (registeredDomain hostname) hostname now s) from rfl, issuedLogged numbered, recentOne]
      exact (Nat.add_comm _ _).le
    · intro ca' domain' since
      have moved := reservedWritten found (completed r) ca' domain'
      rw [← written, show holds ca' domain' (completed r) = false by simp [holds, completed]] at moved
      have counts : holds ca' domain' r = (decide (ca = ca') && decide (registeredDomain hostname = domain')) := by
        simp [holds, assigned, offers, named]
      rw [counts] at moved
      rw [recentOne]
      change _ + reserved ca' domain' { s with tunnels := (updateWhere (completable hostname) completed s.tunnels).2 } ≤ _
      simp only [Bool.and_eq_true, decide_eq_true_eq] at moved
      split
      case isTrue both =>
        rw [if_pos ⟨both.1,both.2.1⟩] at moved
        simp only [Bool.false_eq_true, if_false] at moved
        omega
      case isFalse =>
        simp only [Bool.false_eq_true, if_false] at moved
        omega

theorem completeCarried {hostname : String} (numbered : Numbered s) (distinct : Distinct s.tunnels)
    (counted : ∀ (id : String) (r : TunnelRow), s.tunnels[id]? = some r → r.hostname = some hostname → r.status = .gelb → r.claimState = .offered →
      ¬loggedRecently hostname now s)
    (done : Completed hostname (registeredDomain hostname) now s m) : Carried now s m (firsts now s m) := by
  by_cases first : ∃ (id : String) (r : TunnelRow), s.tunnels[id]? = some r ∧ r.hostname = some hostname ∧ r.status = .gelb ∧ r.claimState = .offered
  case pos =>
    obtain ⟨id,r,found,named,yellow,offers⟩ := first
    exact firstCarried numbered distinct found named yellow offers (counted id r found named yellow offers) done
  case neg => exact renewalCarried numbered distinct (fun id r found named yellow offers => first ⟨id,r,found,named,yellow,offers⟩) done

theorem storeCarried {op : Op} (numbered : Numbered s) (distinct : Distinct s.tunnels)
    (prudent : ∀ cutoff, op = .pruneAcmeIssuanceLog cutoff → cutoff ≤ now - budgetWindowSecs)
    (counted : ∀ (hostname id : String) (r : TunnelRow), op = .recordIssuanceComplete hostname → s.tunnels[id]? = some r →
      r.hostname = some hostname → r.status = .gelb → r.claimState = .offered → ¬loggedRecently hostname now s)
    (stored : Stored now s op m) : Carried now s m (firsts now s m) := by
  cases stored with
  | idle => exact calmCarried numbered distinct (fun _ _ _ _ => le_rfl) (fun k r here => here ▸ calmKept r)
  | moved moved =>
    have ledger : m.issuanceLog = s.issuanceLog ∧ m.issuanceSeq = s.issuanceSeq := by cases moved <;> exact ⟨rfl,rfl⟩
    refine calmCarried ?_ (distinctMoved distinct moved) ?_ (calmMoved moved)
    · rw [Numbered, ledger.1, ledger.2]
      exact numbered
    · intro ca domain since window
      rw [issued, issued, ledger.1]
  | queued => exact updatedCarried numbered distinct (fun _ => rfl) (fun _ r _ => ⟨nofun,fun offers => ⟨r,rfl,offers,rfl,rfl⟩⟩)
  | opted => exact updatedCarried numbered distinct (fun _ => rfl) (fun _ r _ => calmKept r)
  | lapsed => exact updatedCarried numbered distinct (fun _ => rfl) (fun _ r _ => ⟨fun green => ⟨r,rfl,green⟩,nofun⟩)
  | requeued => exact updatedCarried numbered distinct (fun _ => rfl) (fun _ r _ => ⟨fun green => ⟨r,rfl,green⟩,nofun⟩)
  | reclaimed => exact updatedCarried numbered distinct (fun _ => rfl) (fun _ r _ => ⟨fun green => ⟨r,rfl,green⟩,nofun⟩)
  | @completed hostname _ done => exact completeCarried numbered distinct (fun id r => counted hostname id r rfl) done
  | @pruned cutoff =>
    refine calmCarried ?_ distinct ?_ (fun k r here => here ▸ calmKept r)
    · intro id row here
      rw [lookupDeleted, Option.filter_eq_some_iff] at here
      exact numbered id row here.1
    · intro ca domain since window
      exact issuedPruned (by have behind := prudent cutoff rfl; omega)

end Changes

/- With the open offers, and the one about to be made, the first issuances stay within the budget. -/
structure Within (now : Int) (s : State) (log : List Completion) : Prop where
  numbered : Numbered s.tables
  distinct : Distinct s.tables.tunnels
  begun : ∀ began queue, s.sweep = .listed began queue → began ≤ now
  covered : ∀ ca domain since, now - budgetWindowSecs ≤ since → recent ca domain since log ≤ issued ca domain since s.tables
  bounded : ∀ ca domain, (recent ca domain (now - budgetWindowSecs) log + reserved ca domain s.tables : Int) ≤ budgetFor ca
  ahead : ∀ began hostname ca queue, s.sweep = .picked began hostname ca queue → began ≤ now ∧
    (recent ca (registeredDomain hostname) (now - budgetWindowSecs) log + reserved ca (registeredDomain hostname) s.tables : Int) < budgetFor ca

section Steps
variable {s m : State} {log more : List Completion} {now : Int}

theorem withinEmpty (now : Int) : Within now {} [] where
  numbered id row found := by simp at found
  distinct a b t u h here := by simp at here
  begun := nofun
  covered ca domain since window := Nat.zero_le _
  bounded ca domain := by
    have empty : reserved ca domain {} = 0 := rfl
    rw [empty]
    show (0 : Int) ≤ _
    unfold budgetFor
    split <;> try split <;> try split
    all_goals omega
  ahead := nofun

theorem withinLater {later : Int} (within : Within now s log) (forward : now ≤ later) : Within later s log where
  numbered := within.numbered
  distinct := within.distinct
  begun began queue sweep := (within.begun began queue sweep).trans forward
  covered ca domain since window := within.covered ca domain since (by omega)
  bounded ca domain := by
    have fewer := recentLater ca domain (show now - budgetWindowSecs ≤ later - budgetWindowSecs by omega) log
    have bound := within.bounded ca domain
    omega
  ahead began hostname ca queue sweep := by
    have fewer := recentLater ca (registeredDomain hostname) (show now - budgetWindowSecs ≤ later - budgetWindowSecs by omega) log
    have bound := within.ahead began hostname ca queue sweep
    exact ⟨bound.1.trans forward,by omega⟩

theorem withinCarried (within : Within now s log) (carried : Carried now s.tables m.tables more) (same : m.sweep = s.sweep) :
    Within now m (log ++ more) where
  numbered := carried.numbered
  distinct := carried.distinct
  begun began queue sweep := within.begun began queue (same ▸ sweep)
  covered ca domain since window := by
    have before := within.covered ca domain since window
    have grown := carried.covered ca domain since window
    rw [recentAppend]
    omega
  bounded ca domain := by
    have bound := within.bounded ca domain
    have lighter := carried.lighter ca domain (now - budgetWindowSecs)
    rw [recentAppend]
    omega
  ahead began hostname ca queue sweep := by
    have bound := within.ahead began hostname ca queue (same ▸ sweep)
    have lighter := carried.lighter ca (registeredDomain hostname) (now - budgetWindowSecs)
    rw [recentAppend]
    exact ⟨bound.1,by omega⟩

/- An offer takes one slot of the authority at the domain of the hostname. -/
theorem reservedOffered {t : Tables} (distinct : Distinct t.tunnels) (hostname ca : String) (began deadline : Int) (also domain : String) :
    reserved also domain (Tables.updated (unassigned hostname) (offered ca began deadline) t) ≤
      reserved also domain t + if ca = also ∧ registeredDomain hostname = domain then 1 else 0 := by
  by_cases hit : ∃ (id : String) (r : TunnelRow), t.tunnels[id]? = some r ∧ unassigned hostname id r
  case neg =>
    have same : (updateWhere (unassigned hostname) (offered ca began deadline) t.tunnels).2 = t.tunnels :=
      updatedNone (fun k r found touched => hit ⟨k,r,found,touched⟩) _
    rw [Tables.updated, same]
    exact Nat.le_add_right _ _
  case pos =>
    obtain ⟨id,r,found,touched⟩ := hit
    have named : r.hostname = some hostname := by
      rw [unassigned, Bool.and_eq_true, decide_eq_true_eq] at touched
      exact touched.1
    have written := @writtenNamed _ distinct _ _ _ found named _ (offered ca began deadline) touched (fun k r about => by
      rw [unassigned, Bool.and_eq_true, decide_eq_true_eq] at about
      exact about.1)
    have moved := reservedWritten found (offered ca began deadline r) also domain
    have takes : holds also domain (offered ca began deadline r) = (decide (ca = also) && decide (registeredDomain hostname = domain)) := by
      simp [holds, offered, named]
    rw [takes, ← written] at moved
    simp only [Bool.and_eq_true, decide_eq_true_eq] at moved
    rw [Tables.updated]
    omega

theorem firstsOffered (t : Tables) (hostname ca : String) (began deadline : Int) :
    firsts now t (Tables.updated (unassigned hostname) (offered ca began deadline) t) = [] := by
  refine firstsCalm ?_
  intro k r here green
  rw [lookupUpdatedRow] at here
  obtain ⟨old,found,same⟩ := Option.map_eq_some_iff.mp here
  refine ⟨old,found,?_⟩
  split at same <;> exact (congrArg TunnelRow.status same).trans green

theorem withinSwept (within : Within now s log) (swept : Swept now s.tables s.sweep m.sweep m.tables) :
    Within now m (log ++ firsts now s.tables m.tables) := by
  have quiet : firsts now s.tables s.tables = [] := firstsCalm (fun k r here green => ⟨r,here,green⟩)
  obtain ⟨tables,sweep⟩ := s
  obtain ⟨tables',sweep'⟩ := m
  dsimp only at swept quiet ⊢
  cases swept with
  | kept =>
    rw [quiet, List.append_nil]
    exact within
  | began names =>
    rw [quiet, List.append_nil]
    exact ⟨within.numbered,within.distinct,fun _ _ same => by cases same; exact le_rfl,within.covered,within.bounded,nofun⟩
  | ended =>
    rw [quiet, List.append_nil]
    exact ⟨within.numbered,within.distinct,nofun,within.covered,within.bounded,nofun⟩
  | @picked began hostname ca queue room =>
    rw [quiet, List.append_nil]
    have earlier := within.begun began _ rfl
    refine ⟨within.numbered,within.distinct,nofun,within.covered,within.bounded,?_⟩
    rintro _ _ _ _ ⟨⟩
    have counted := within.covered ca (registeredDomain hostname) (now - budgetWindowSecs) le_rfl
    have older := issuedLater ca (registeredDomain hostname)
      (show began - budgetWindowSecs ≤ now - budgetWindowSecs by omega) tables
    rw [Room] at room
    dsimp only at counted ⊢
    exact ⟨earlier,by omega⟩
  | @skipped began hostname queue =>
    rw [quiet, List.append_nil]
    refine ⟨within.numbered,within.distinct,?_,within.covered,within.bounded,nofun⟩
    rintro _ _ ⟨⟩
    exact within.begun began _ rfl
  | @missed began hostname ca queue =>
    rw [quiet, List.append_nil]
    refine ⟨within.numbered,within.distinct,?_,within.covered,within.bounded,nofun⟩
    rintro _ _ ⟨⟩
    exact (within.ahead began hostname ca queue rfl).1
  | @offered began hostname ca queue =>
    rw [firstsOffered, List.append_nil]
    obtain ⟨earlier,room⟩ := within.ahead began hostname ca queue rfl
    refine ⟨within.numbered,distinctUpdated within.distinct (fun _ => rfl),?_,within.covered,?_,nofun⟩
    · rintro _ _ ⟨⟩
      exact earlier
    · intro also domain
      have taken := reservedOffered within.distinct hostname ca began (began + claimWindowSecs) also domain
      have bound := within.bounded also domain
      dsimp only at room bound taken ⊢
      split at taken
      case isTrue here =>
        obtain ⟨rfl,rfl⟩ := here
        omega
      case isFalse => omega

theorem uncountedFalse {hostname id : String} {r : TunnelRow} {call : Call} (counted : uncounted s call = false)
    (act : call.act = .store (.recordIssuanceComplete hostname)) (found : s.tables.tunnels[id]? = some r) (named : r.hostname = some hostname)
    (yellow : r.status = .gelb) (offers : r.claimState = .offered) : ¬loggedRecently hostname call.now s.tables := by
  intro recently
  rw [uncounted, act] at counted
  dsimp only at counted
  have listed : hasRow (fun _ (r : TunnelRow) => r.hostname = some hostname && r.status = .gelb && r.claimState = .offered) s.tables.tunnels = true :=
    hasRowIff.mpr ⟨id,r,found,by simp [named, yellow, offers]⟩
  rw [listed, recently] at counted
  contradiction

end Steps

section Runs
variable (rotation : List CaProfile) (eabLookup : String → Option String × Option String)

/- The first certificates that a run has handed out. -/
def completions (calls : List Call) : List Completion :=
  Machine.log (step rotation eabLookup) (fun s call => firsts call.now s.tables (step rotation eabLookup s call).2.tables) {} calls

variable {rotation} {eabLookup}

theorem withinStep {s : State} {log : List Completion} {call : Call} (within : Within call.now s log) (behind : prudent call)
    (counted : uncounted s call = false) :
    Within call.now (step rotation eabLookup s call).2 (log ++ firsts call.now s.tables (step rotation eabLookup s call).2.tables) := by
  cases stepCases rotation eabLookup s call with
  | store op act stored same =>
    refine withinCarried within (storeCarried within.numbered within.distinct ?_ ?_ stored) same
    · rintro cutoff rfl
      rw [prudent, act] at behind
      exact of_decide_eq_true behind
    · rintro hostname id r rfl found named yellow offers
      exact uncountedFalse counted act found named yellow offers
  | sweep act swept => exact withinSwept within swept

theorem withinRun {calls : List Call} (forward : calls.Pairwise (fun a b => a.now ≤ b.now)) (behind : ∀ call ∈ calls, prudent call)
    (counted : Machine.along (step rotation eabLookup) (fun s call => uncounted s call = false) {} calls)
    {now : Int} (later : ∀ call ∈ calls, call.now ≤ now) : Within now (run rotation eabLookup calls) (completions rotation eabLookup calls) := by
  induction calls using List.reverseRecOn generalizing now with
  | nil => exact withinEmpty now
  | append_singleton calls call ih =>
    obtain ⟨sorted,_,last⟩ := List.pairwise_append.mp forward
    obtain ⟨before,here⟩ := Machine.alongAppend.mp counted
    have within := ih sorted (fun c mem => behind c (List.mem_append_left _ mem)) before (fun c mem => last c mem call (List.mem_singleton_self _))
    refine withinLater ?_ (later call (by simp))
    rw [run, Machine.runNext, completions, Machine.logNext]
    exact withinStep within (behind call (by simp)) here.1

theorem caBudgetKept (rotation : List CaProfile) (eabLookup : String → Option String × Option String) (calls : List Call)
    (forward : calls.Pairwise (fun a b => a.now ≤ b.now)) (behind : ∀ call ∈ calls, prudent call)
    (counted : Machine.along (step rotation eabLookup) (fun s call => uncounted s call = false) {} calls)
    (now : Int) (later : ∀ call ∈ calls, call.now ≤ now) (ca domain : String) :
    (recent ca domain (now - budgetWindowSecs) (completions rotation eabLookup calls) + reserved ca domain (run rotation eabLookup calls).tables : Int)
      ≤ budgetFor ca := (withinRun forward behind counted later).bounded ca domain

/- One hostname from its creation to its certificate, and away again. -/
def round (now : Int) : List Call :=
  ([.store (.lifecycle (.create "anna" "web" (some "www.example.org") "t" "k" now)),.store (.enterGelbQueue "www.example.org"),
    .sweep,.sweep,.sweep,.sweep,.store (.recordIssuanceComplete "www.example.org"),
    .store (.lifecycle (.revoke "anna" "t" 0))] : List Act).map (fun act => ⟨act,now,[]⟩)

theorem caBudgetKeptOnce :
    (recent "letsencrypt" "example.org" (86400 - budgetWindowSecs) (completions [letsEncrypt] (fun _ => (none,none)) (round 0 ++ round 86400)) +
      reserved "letsencrypt" "example.org" (run [letsEncrypt] (fun _ => (none,none)) (round 0 ++ round 86400)).tables : Int) ≤ budgetFor "letsencrypt" :=
  caBudgetKept [letsEncrypt] (fun _ => (none,none)) (round 0 ++ round 86400) (by decide) (by decide) (by decide +kernel) 86400 (by decide) _ _

/- The ledger takes up one certificate of a hostname a day, so that the one and forty here all come through. -/
theorem caBudgetExceeded :
    let calls := (List.replicate 41 (round 0)).flatten
    calls.Pairwise (fun a b => a.now ≤ b.now) ∧ (∀ call ∈ calls, prudent call) ∧
      issued "letsencrypt" "example.org" (0 - budgetWindowSecs) (run [letsEncrypt] (fun _ => (none,none)) calls).tables = 1 ∧
      budgetFor "letsencrypt" <
        (recent "letsencrypt" "example.org" (0 - budgetWindowSecs) (completions [letsEncrypt] (fun _ => (none,none)) calls) +
          reserved "letsencrypt" "example.org" (run [letsEncrypt] (fun _ => (none,none)) calls).tables : Int) := by decide +kernel

end Runs
end CadsTunnel.CaBudget
