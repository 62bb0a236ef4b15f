import CadsTunnel.AlertLimits

/-! What a webhook hears of one tunnel. The loop reads an alert, compares what the edge says
with what the alert has kept, and writes back in several statements, some of which a spent
budget skips. What the alert keeps is watched here beside the store: one step of the store
is one step of the watch, and the transitions are what the watch tells. -/
namespace CadsTunnel.AlertTransitions
open OrderedMap Sql TunnelStore AlertStore AlertLimits
open Std (ExtTreeMap)

/- What an alert knows of its tunnel. -/
structure Watch where
  thresholdSecs : Int
  state : AlertState
  stateSince : Int
  lastSeenHint : Option Int
  createdAt : Int
  deriving DecidableEq

def watch (a : AlertRow) : Watch := ⟨a.thresholdSecs,a.state,a.stateSince,a.lastSeenHint,a.createdAt⟩

def watchOf (tunnelId : String) (s : Tables) : Option Watch := s.alerts[tunnelId]?.map watch

/- One answer of the edge, and whether the deliveries of the owner are spent. -/
structure Sighting where
  up : Bool
  limited : Bool
  deriving DecidableEq

/- The time an outage is measured from. -/
def Watch.lastSeen (w : Watch) : Int := w.lastSeenHint.getD w.stateSince

def Watch.transition (w : Watch) (up : Bool) (now : Int) : Option AlertEvent :=
  nextTransition w.state up (if up then now else w.lastSeen) now w.thresholdSecs

def Watch.sinceOf (w : Watch) (event : AlertEvent) (now : Int) : Int := if event = .down then w.lastSeen else now

def Watch.tells (w : Watch) (o : Sighting) (now : Int) : Option AlertEvent := if o.limited then none else w.transition o.up now

def Watch.touched (w : Watch) (up : Bool) (now : Int) : Watch := if up then { w with lastSeenHint := some now } else w

/- One evaluation of the alert. -/
def Watch.after (w : Watch) (o : Sighting) (now : Int) : Watch :=
  match w.transition o.up now with
  | none => if o.up && w.state ≠ .up then { w.touched o.up now with state := .up, stateSince := now } else w.touched o.up now
  | some event =>
    if o.limited then w.touched o.up now
    else { w.touched o.up now with state := stateAfter event w.state, stateSince := w.sinceOf event now }

def Watch.next (w : Watch) (now : Int) (o : Option Sighting) : Watch := o.elim w (fun o => w.after o now)

/- What is told of a tunnel: the event, since when, and when. -/
def Watch.told (w : Watch) (now : Int) (o : Option Sighting) : List (String × Int × Int) :=
  ((o.bind (fun o => w.tells o now)).map (fun event => (event.wire,w.sinceOf event now,now))).toList

/- The alert as it is set. -/
def renewed (thresholdSecs now : Int) (w : Option Watch) : Watch :=
  (w.map (fun w => { w with thresholdSecs, state := .unknown, stateSince := now })).getD ⟨thresholdSecs,.unknown,now,none,now⟩

def spent (subject : String) (now : Int) (s : Tables) : Bool := (deliveriesSince subject (now - 3600) s : Int) ≥ maxDeliveriesPerHour

/- The sighting of a tunnel in a pass over the alerts. -/
def sightingAmong (tunnelId : String) (probe : String → Option Bool) (outcome : String → DeliveryOutcome) (now : Int) :
    List AlertView → Tables → Option Sighting
  | [], _ => none
  | row :: rest, s =>
    if row.tunnelId = tunnelId then (probe row.routingToken).map (fun up => ⟨up,spent row.alert.subject now s⟩)
    else
      match probe row.routingToken with
      | none => sightingAmong tunnelId probe outcome now rest s
      | some up => sightingAmong tunnelId probe outcome now rest (perform (evaluateOne row up (outcome row.tunnelId) now) s []).2

def sighting (tunnelId : String) (s : Tables) (call : Call) : Option Sighting :=
  match call.op with
  | .tick (some probe) outcome => sightingAmong tunnelId probe outcome call.now (enabledAlerts s) s
  | _ => none

/- A call that sets the alert of a tunnel, or deletes it. -/
def updates (tunnelId : String) (s : Tables) (call : Call) : Bool :=
  match call.op, (step s call).1 with
  | .setAlert _ other _ _ _, .ok (.set (some _)) => other = tunnelId
  | .deleteAlert _ other, .ok (.deleted true) => other = tunnelId
  | _, _ => false

/- A call that sets an alert that there is. -/
def renews (s : Tables) (call : Call) : Bool :=
  match (step s call).1 with
  | .ok (.set (some outcome)) => outcome = .updated
  | _ => false

/- The down and up events of a tunnel. -/
def transitions (tunnelId : String) (log : List Sent) : List Sent :=
  log.filter (fun e => e.tunnelId = tunnelId && (e.event = AlertEvent.down.wire || e.event = AlertEvent.up.wire))

def seenUp (tunnelId : String) (s : Tables) (call : Call) : Bool := (sighting tunnelId s call).any Sighting.up

/- When a tunnel was seen up. -/
def sightings (tunnelId : String) (s : Tables) (calls : List Call) : List Int :=
  Machine.log step (fun s call => if seenUp tunnelId s call then [call.now] else []) s calls

/- A tick that observes a tunnel down, with deliveries left, the threshold after it was last seen up, which was before a time. -/
def recalls (tunnelId : String) (u : Int) (s : Tables) (call : Call) : Bool :=
  sighting tunnelId s call = some ⟨false,false⟩ &&
    s.alerts[tunnelId]?.any (fun a => a.lastSeenHint.any (fun hint => hint < u && a.thresholdSecs ≤ saturatingAddI64 call.now (-hint)))

/- No outage is told of too early, nor with a start before the time, unless the tunnel was seen up in between. -/
def StartsFresh (tunnelId : String) (u thresholdSecs : Int) (s : Tables) (calls : List Call) : Prop :=
  ∀ first call rest, calls = first ++ call :: rest → ∀ e ∈ transitions tunnelId (sentBy (Machine.run step s first) call),
    e.event = AlertEvent.down.wire → u + thresholdSecs ≤ e.ts ∧ (u ≤ e.since ∨ sightings tunnelId s first ≠ [])

def alternates (next other : String) : List String → Prop
  | [] => True
  | event :: rest => event = next ∧ alternates other next rest

def heard (e : Sent) : String × Int × Int := (e.event,e.since,e.ts)

section Evaluation
variable {s m : Tables} {now : Int} {tunnelId : String} {row : AlertView}

theorem watchRecorded (ts : Int) (event : String) (status : DeliveryStatus) (detail : Option String) (s : Tables) (other : String) :
    watchOf other (Tables.recorded tunnelId ts event status detail s) = watchOf other s := by
  rw [watchOf, watchOf, Tables.recorded, lookupUpdated, Option.map_map]
  refine congrArg (fun f => Option.map f s.alerts[other]?) ?_
  funext a
  rw [Function.comp_apply]
  split <;> rfl

theorem watchObserved (change : AlertRow → AlertRow) (s : Tables) (other : String) :
    watchOf other (Tables.observed tunnelId change s) =
      if other = tunnelId then s.alerts[other]?.map (fun a => watch (change a)) else watchOf other s := by
  rw [watchOf, Tables.observed, lookupUpdated, Option.map_map]
  by_cases mine : other = tunnelId
  case pos =>
    rw [if_pos mine]
    refine congrArg (fun f => Option.map f s.alerts[other]?) ?_
    funext a
    rw [Function.comp_apply, if_pos (decide_eq_true mine)]
  case neg =>
    rw [if_neg mine, watchOf]
    refine congrArg (fun f => Option.map f s.alerts[other]?) ?_
    funext a
    rw [Function.comp_apply, if_neg (by simpa using mine)]

theorem watchTouched (seenAt : Int) (s : Tables) (other : String) :
    watchOf other (Tables.observed tunnelId (fun a => { a with lastSeenHint := some seenAt }) s) =
      if other = tunnelId then (watchOf other s).map (fun w => { w with lastSeenHint := some seenAt }) else watchOf other s := by
  rw [watchObserved, watchOf, Option.map_map]
  rfl

theorem watchState (state : AlertState) (since : Int) (s : Tables) (other : String) :
    watchOf other (Tables.observed tunnelId (fun a => { a with state, stateSince := since }) s) =
      if other = tunnelId then (watchOf other s).map (fun w => { w with state, stateSince := since }) else watchOf other s := by
  rw [watchObserved, watchOf, Option.map_map]
  rfl

theorem spentYields (subject : String) (now : Int) (s : Tables) : Yields (rateLimited subject now) s (spent subject now s) s := limitedYields _ now s

/- An alert that is seen up spends nothing. -/
theorem spentTouched (subject : String) (now : Int) (seenAt : Int) (s : Tables) :
    spent subject now (Tables.observed tunnelId (fun a => { a with lastSeenHint := some seenAt }) s) = spent subject now s := by
  have owners := @ownerObserved tunnelId (fun a => { a with lastSeenHint := some seenAt }) (fun _ => rfl) s
  rw [spent, spent, deliveriesObserved owners rfl]

theorem skippedWatched (row : AlertView) (event : AlertEvent) (now : Int) (s : Tables) :
    ∃ m, Yields (recordSkippedOnce row event now) s () m ∧ ∀ other, watchOf other m = watchOf other s := by
  have refused := skippedYields row event now s
  split at refused
  case isTrue => exact ⟨s,refused,fun _ => rfl⟩
  case isFalse => exact ⟨_,refused,watchRecorded now _ _ _ s⟩

theorem tellWatched (row : AlertView) (event : AlertEvent) (since : Int) (outcome : DeliveryOutcome) (now : Int) (s : Tables) :
    ∃ m, Yields (AlertLimits.tell row event since outcome now) s
        (if spent row.alert.subject now s then none else some (.of event row since loopAttempts now)) m ∧
      ∀ other, watchOf other m =
        if other = row.tunnelId ∧ ¬spent row.alert.subject now s then
          (watchOf other s).map (fun w => { w with state := stateAfter event row.alert.state, stateSince := since })
        else watchOf other s := by
  unfold AlertLimits.tell
  cases limited : spent row.alert.subject now s with
  | true =>
    obtain ⟨m,refused,kept⟩ := skippedWatched row event now s
    refine ⟨m,yieldsBind (spentYields _ now s) ?_,?_⟩
    · rw [limited]
      exact yieldsBind refused yieldsPure
    · intro other
      rw [kept, if_neg (fun both => both.2 rfl)]
  | false =>
    refine ⟨Tables.observed row.tunnelId (fun a => { a with state := stateAfter event row.alert.state, stateSince := since })
      (Tables.recorded row.tunnelId now event.wire outcome.status (some outcome.detail) s),yieldsBind (spentYields _ now s) ?_,?_⟩
    · rw [limited]
      exact yieldsBind (yieldsAttempt (recordYields _ _ _ _ _ _)) (yieldsBind (yieldsAttempt (setStateYields _ _ _ _)) yieldsPure)
    · intro other
      rw [watchState, watchRecorded]
      simp

/- An outage is told with the time it is measured from. -/
theorem sinceTurned {up : Bool} {event : AlertEvent} (turned : row.transition up now = some event) :
    (if event = .down then row.reference up now else now) = (watch row.alert).sinceOf event now := by
  rw [Watch.sinceOf]
  split
  case isTrue down =>
    subst down
    cases up with
    | false => rfl
    | true =>
      rw [AlertView.transition] at turned
      cases kept : row.alert.state <;> rw [kept] at turned <;> cases turned
  case isFalse => rfl

/- One evaluation of the store is one of the watch. -/
theorem evaluateWatched (seen : watchOf row.tunnelId s = some (watch row.alert)) (up : Bool) (outcome : DeliveryOutcome) (now : Int) :
    ∃ m, Yields (evaluateOne row up outcome now) s
        (((watch row.alert).tells ⟨up,spent row.alert.subject now s⟩ now).map
          (fun event => .of event row ((watch row.alert).sinceOf event now) loopAttempts now)) m ∧
      ∀ other, watchOf other m =
        if other = row.tunnelId then some ((watch row.alert).after ⟨up,spent row.alert.subject now s⟩ now) else watchOf other s := by
  have decided (n : Tables) (limited : spent row.alert.subject now n = spent row.alert.subject now s)
      (noted : ∀ other, watchOf other n = if other = row.tunnelId then some ((watch row.alert).touched up now) else watchOf other s) :
      ∃ m, Yields (match row.transition up now with
          | none => do
            if up && row.alert.state ≠ .up then
              let _ ← attempt (setAlertState row.tunnelId .up now)
            pure none
          | some event => AlertLimits.tell row event (if event = .down then row.reference up now else now) outcome now) n
          (((watch row.alert).tells ⟨up,spent row.alert.subject now s⟩ now).map
            (fun event => .of event row ((watch row.alert).sinceOf event now) loopAttempts now)) m ∧
        ∀ other, watchOf other m =
          if other = row.tunnelId then some ((watch row.alert).after ⟨up,spent row.alert.subject now s⟩ now) else watchOf other s := by
    have same : (watch row.alert).transition up now = row.transition up now := rfl
    have state : (watch row.alert).state = row.alert.state := rfl
    rw [Watch.tells, Watch.after, same, state]
    cases turned : row.transition up now with
    | none =>
      dsimp only
      by_cases turns : up && row.alert.state ≠ .up
      case pos =>
        refine ⟨Tables.observed row.tunnelId (fun a => { a with state := .up, stateSince := now }) n,?_,?_⟩
        · rw [if_pos turns, ite_self, Option.map_none]
          exact yieldsBind (yieldsAttempt (setStateYields _ _ _ _)) yieldsPure
        · intro other
          rw [watchState, noted, if_pos turns]
          split <;> rfl
      case neg =>
        refine ⟨n,?_,?_⟩
        · rw [if_neg turns, ite_self, Option.map_none]
          exact yieldsPure
        · intro other
          rw [noted, if_neg turns]
    | some event =>
      obtain ⟨m,told,kept⟩ := tellWatched row event ((watch row.alert).sinceOf event now) outcome now n
      rw [limited] at told kept
      dsimp only
      rw [sinceTurned turned]
      refine ⟨m,?_,?_⟩
      · cases free : spent row.alert.subject now s <;> rw [free] at told <;> exact told
      · intro other
        rw [kept, noted]
        cases spent row.alert.subject now s <;> by_cases mine : other = row.tunnelId <;> simp [mine]
  unfold evaluateOne
  cases up with
  | false =>
    refine decided s rfl ?_
    intro other
    split
    case isTrue mine => rw [mine, seen]; rfl
    case isFalse => rfl
  | true =>
    obtain ⟨m,yields,kept⟩ := decided (Tables.observed row.tunnelId (fun a => { a with lastSeenHint := some now }) s) (spentTouched _ _ _ _) (by
      intro other
      rw [watchTouched]
      split
      case isTrue mine => rw [mine, seen]; rfl
      case isFalse => rfl)
    exact ⟨m,yieldsBind (yieldsAttempt (touchYields _ _ _)) yields,kept⟩

theorem neverTest (w : Watch) (up : Bool) (now : Int) : w.transition up now ≠ some .test := by
  unfold Watch.transition nextTransition
  split
  case h_4 => split <;> simp
  all_goals simp

theorem toldOne (row : AlertView) (o : Sighting) (now : Int) (tunnelId : String) :
    (transitions tunnelId (((watch row.alert).tells o now).map
        (fun event => Sent.of event row ((watch row.alert).sinceOf event now) loopAttempts now)).toList).map heard =
      if row.tunnelId = tunnelId then (watch row.alert).told now (some o) else [] := by
  rw [Watch.told, Option.bind_some]
  have real : (watch row.alert).tells o now ≠ some .test := by
    rw [Watch.tells]
    split
    · exact fun same => by cases same
    · exact neverTest _ _ _
  cases turned : (watch row.alert).tells o now with
  | none => simp [transitions]
  | some event =>
    have wired : event.wire = AlertEvent.down.wire ∨ event.wire = AlertEvent.up.wire := by
      cases event with
      | down => exact .inl rfl
      | up => exact .inr rfl
      | test => exact absurd turned real
    by_cases mine : row.tunnelId = tunnelId <;> simp [transitions, Sent.of, heard, mine, wired]

theorem unlistedSighting {probe : String → Option Bool} {outcome : String → DeliveryOutcome} {rows : List AlertView}
    (unlisted : tunnelId ∉ rows.map AlertView.tunnelId) (s : Tables) : sightingAmong tunnelId probe outcome now rows s = none := by
  induction rows generalizing s with
  | nil => rfl
  | cons row rest ih =>
    rw [List.map_cons, List.mem_cons, not_or] at unlisted
    rw [sightingAmong, if_neg (fun same => unlisted.1 same.symm)]
    split <;> exact ih unlisted.2 _

theorem transitionsAppend (tunnelId : String) (first later : List Sent) :
    transitions tunnelId (first ++ later) = transitions tunnelId first ++ transitions tunnelId later := List.filter_append ..

/- A pass over the alerts is one step of each watch. -/
theorem evaluateAllWatched {probe : String → Option Bool} {outcome : String → DeliveryOutcome} {rows : List AlertView}
    (distinct : (rows.map AlertView.tunnelId).Nodup) (seen : ∀ row ∈ rows, watchOf row.tunnelId s = some (watch row.alert)) (tunnelId : String) :
    ∃ sent m, Yields (evaluateAll probe outcome now rows) s sent m ∧
      watchOf tunnelId m = (watchOf tunnelId s).map (fun w => w.next now (sightingAmong tunnelId probe outcome now rows s)) ∧
      (transitions tunnelId sent).map heard =
        ((watchOf tunnelId s).map (fun w => w.told now (sightingAmong tunnelId probe outcome now rows s))).getD [] := by
  induction rows generalizing s with
  | nil =>
    refine ⟨[],s,yieldsPure,?_,?_⟩
    · cases watchOf tunnelId s <;> rfl
    · cases watchOf tunnelId s <;> rfl
  | cons row rest ih =>
    rw [List.map_cons, List.nodup_cons] at distinct
    obtain ⟨fresh,distinct⟩ := distinct
    have later : ∀ other ∈ rest, watchOf other.tunnelId s = some (watch other.alert) := fun other mem => seen other (List.mem_cons_of_mem _ mem)
    rw [evaluateAll, sightingAmong]
    cases edge : probe row.routingToken with
    | none =>
      obtain ⟨sent,m,yields,kept,told⟩ := ih distinct later
      by_cases mine : row.tunnelId = tunnelId
      case pos =>
        subst mine
        rw [unlistedSighting fresh] at kept told
        rw [if_pos rfl]
        exact ⟨sent,m,yields,kept,told⟩
      case neg =>
        rw [if_neg mine]
        exact ⟨sent,m,yields,kept,told⟩
    | some up =>
      obtain ⟨m,yields,kept⟩ := evaluateWatched (seen row List.mem_cons_self) up (outcome row.tunnelId) now
      have further : ∀ other ∈ rest, watchOf other.tunnelId m = some (watch other.alert) := by
        intro other mem
        have different : other.tunnelId ≠ row.tunnelId := fun same => fresh (same ▸ List.mem_map.mpr ⟨other,mem,rfl⟩)
        rw [kept, if_neg different]
        exact later other mem
      obtain ⟨more,n,ran,last,told⟩ := ih distinct further
      refine ⟨_,n,yieldsBind yields (yieldsBind ran yieldsPure),?_⟩
      rw [transitionsAppend, List.map_append, told, toldOne, last, kept]
      by_cases mine : row.tunnelId = tunnelId
      case pos =>
        subst mine
        rw [if_pos rfl, if_pos rfl, if_pos rfl, unlistedSighting fresh, seen row List.mem_cons_self]
        exact ⟨rfl,List.append_nil _⟩
      case neg =>
        rw [if_neg mine, if_neg (Ne.symm mine), if_neg mine]
        dsimp only
        rw [yieldsPerform yields]
        exact ⟨rfl,rfl⟩

theorem listedOnce (s : Tables) : ((enabledAlerts s).map AlertView.tunnelId).Nodup := by
  have kept (rows : List (String × AlertRow)) : ((rows.filterMap (viewOf s)).map AlertView.tunnelId).Sublist (rows.map Prod.fst) := by
    induction rows with
    | nil => exact List.Sublist.slnil
    | cons e rest ih =>
      rw [List.filterMap_cons, List.map_cons]
      split
      case h_1 => exact ih.cons _
      case h_2 row found =>
        obtain ⟨_,_,rfl⟩ := Option.map_eq_some_iff.mp found
        exact ih.cons_cons _
  exact (keysNodup s.alerts).sublist ((kept _).trans (List.filter_sublist.map Prod.fst))

theorem listedSeen (s : Tables) : ∀ row ∈ enabledAlerts s, watchOf row.tunnelId s = some (watch row.alert) := by
  intro row listed
  obtain ⟨e,mem,seen⟩ := List.mem_filterMap.mp listed
  have found := ExtTreeMap.mem_toList_iff_getElem?_eq_some.mp (List.mem_filter.mp mem).1
  obtain ⟨named,same,_⟩ := viewOwner found seen
  rw [watchOf, named, found, same, Option.map_some]

end Evaluation

section Steps
variable {s : Tables} {tunnelId : String}

/- What setting an alert does to its watch. -/
theorem setWatched (subject tunnelId webhookUrl : String) (thresholdSecs now : Int) (secretHex : String) :
    Ends (upsertAlert subject tunnelId webhookUrl thresholdSecs now secretHex) s (fun r m =>
      if r.toOption.join.isSome then
        (r.toOption.join = some .updated ↔ (watchOf tunnelId s).isSome) ∧ watchOf tunnelId m = some (renewed thresholdSecs now (watchOf tunnelId s)) ∧
          ∀ other, other ≠ tunnelId → watchOf other m = watchOf other s
      else ∀ other, watchOf other m = watchOf other s) := by
  unfold upsertAlert
  refine endsTransaction (fun _ => rfl) (endsSelect (fun _ => rfl) ?_)
  split
  case isTrue => exact endsPure (fun _ => rfl)
  case isFalse =>
    refine endsSelect (fun _ => rfl) ?_
    split
    case h_1 row found =>
      refine endsExecute (fun _ => rfl) (endsPure ((if_pos rfl).mpr ?_))
      obtain ⟨here,mine⟩ := Option.filter_eq_some_iff.mp found
      have known : watchOf tunnelId s = some (watch row) := by rw [watchOf, here, Option.map_some]
      refine ⟨?_,?_,?_⟩
      · rw [known]
        exact iff_of_true rfl rfl
      · rw [known, watchOf, lookupUpdated, here, Option.map_some, Option.map_some, if_pos (by simpa using mine)]
        rfl
      · intro other different
        rw [watchOf, lookupUpdated, Option.map_map, watchOf]
        refine congrArg (fun f => Option.map f s.alerts[other]?) ?_
        funext a
        rw [Function.comp_apply, if_neg (by simp [different])]
    case h_2 =>
      refine endsInsert (fun _ _ => rfl) ?_
      intro absent
      refine endsPure ((if_pos rfl).mpr ?_)
      have unknown : watchOf tunnelId s = none := by rw [watchOf, absent, Option.map_none]
      refine ⟨?_,?_,?_⟩
      · rw [unknown]
        exact iff_of_false (fun same => by cases same) Bool.false_ne_true
      · rw [unknown, watchOf, lookupInsert, if_pos rfl]
        rfl
      · intro other different
        rw [watchOf, lookupInsert, if_neg different, watchOf]

/- What deleting an alert does to its watch. -/
theorem deleteWatched (subject tunnelId : String) :
    Ends (deleteAlert subject tunnelId) s (fun r m =>
      if r = .ok true then watchOf tunnelId m = none ∧ ∀ other, other ≠ tunnelId → watchOf other m = watchOf other s
      else ∀ other, watchOf other m = watchOf other s) := by
  have kept (other : String) (different : other ≠ tunnelId) (log : BTreeMap Nat DeliveryRow) :
      watchOf other { s with
        alerts := (deleteWhere (fun k a => k = tunnelId && a.subject = subject) s.alerts).2
        alertDeliveries := log } = watchOf other s := by
    rw [watchOf, lookupDeleted, watchOf]
    cases s.alerts[other]? <;> simp [different]
  unfold deleteAlert
  refine endsTransaction (fun _ => rfl) (endsExecute (fun _ => rfl) ?_)
  have touched : (deleteWhere (fun k (a : AlertRow) => k = tunnelId && a.subject = subject) s.alerts).1 =
      if (s.alerts[tunnelId]?.filter (fun a => a.subject = subject)).isSome then 1 else 0 := touchedOne tunnelId _ _
  rw [Option.isSome_filter] at touched
  dsimp only
  split
  case isTrue some' =>
    refine endsExecute (fun _ => rfl) (endsPure ?_)
    rw [decide_eq_true some']
    refine (if_pos rfl).mpr ⟨?_,fun other different => kept other different _⟩
    rw [touched] at some'
    split at some'
    case isTrue mine => rw [watchOf, deletedRow, if_pos mine, lookupErase, if_pos rfl, Option.map_none]
    case isFalse => exact absurd some' (Nat.lt_irrefl 0)
  case isFalse none' =>
    refine endsPure ?_
    rw [decide_eq_false none']
    refine (if_neg (by simp)).mpr ?_
    intro other
    rw [touched] at none'
    have missing : ¬s.alerts[tunnelId]?.any (fun a => a.subject = subject) = true := fun mine => none' (by rw [if_pos mine]; exact Nat.one_pos)
    rw [deletedRow, if_neg missing]

/- A test delivery turns nothing. -/
theorem testWatched (subject other : String) (outcome : DeliveryOutcome) (now : Int) (s : Tables) (tunnelId : String) :
    ∃ answer m, Yields (testAlert subject other outcome now) s answer m ∧ watchOf tunnelId m = watchOf tunnelId s ∧
      transitions tunnelId (Answer.tested answer).sent = [] := by
  have read : Yields (alertRowFor subject other) s
    ((s.alerts[other]?.filter (fun a => a.subject = subject)).bind (fun a => viewOf s (other,a))) s := rfl
  cases known : (s.alerts[other]?.filter (fun a => a.subject = subject)).bind (fun a => viewOf s (other,a)) with
  | none =>
    rw [known] at read
    exact ⟨.unknown,s,yieldsBind read yieldsPure,rfl,rfl⟩
  | some row =>
    rw [known] at read
    cases limited : spent subject now s with
    | true =>
      obtain ⟨m,refused,kept⟩ := skippedWatched row .test now s
      refine ⟨.limited,m,yieldsBind read (yieldsBind (spentYields subject now s) ?_),kept tunnelId,rfl⟩
      rw [limited]
      exact yieldsBind refused yieldsPure
    | false =>
      refine ⟨.delivered (.of .test row row.alert.stateSince 1 now),
        Tables.recorded other now AlertEvent.test.wire outcome.status (some outcome.detail) s,yieldsBind read (yieldsBind (spentYields subject now s) ?_),
        watchRecorded _ _ _ _ s tunnelId,?_⟩
      · rw [limited]
        exact yieldsBind (recordYields _ _ _ _ _ _) yieldsPure
      · simp [transitions, Answer.sent, Sent.of, AlertEvent.wire]

theorem setStep (subject other webhookUrl : String) (thresholdSecs : Int) (secretHex : String) (now : Int) (s : Tables) (tunnelId : String) :
    sentBy s ⟨.setAlert subject other webhookUrl thresholdSecs secretHex,now⟩ = [] ∧
      watchOf tunnelId (step s ⟨.setAlert subject other webhookUrl thresholdSecs secretHex,now⟩).2 =
        if updates tunnelId s ⟨.setAlert subject other webhookUrl thresholdSecs secretHex,now⟩ then
          some (renewed thresholdSecs now (watchOf tunnelId s)) else watchOf tunnelId s := by
  have ends : Ends (Op.work now (.setAlert subject other webhookUrl thresholdSecs secretHex)) s (fun r m => ∃ r' : Except SqlError (Option AlertUpsert),
      r = r'.map .set ∧ if r'.toOption.join.isSome then watchOf other m = some (renewed thresholdSecs now (watchOf other s)) ∧
        ∀ tunnelId, tunnelId ≠ other → watchOf tunnelId m = watchOf tunnelId s
        else ∀ tunnelId, watchOf tunnelId m = watchOf tunnelId s) := by
    refine endsGives (endsMono (setWatched subject other webhookUrl thresholdSecs now secretHex) ?_)
    intro r m held
    refine ⟨r,rfl,?_⟩
    by_cases set : r.toOption.join.isSome
    · rw [if_pos set] at held ⊢
      exact held.2
    · rw [if_neg set] at held ⊢
      exact held
  obtain ⟨r,answered,held⟩ := ends []
  unfold sentBy updates step
  dsimp only
  rw [answered]
  cases r with
  | error e => exact ⟨rfl,held tunnelId⟩
  | ok out =>
    cases out with
    | none => exact ⟨rfl,held tunnelId⟩
    | some out =>
      obtain ⟨here,elsewhere⟩ := held
      refine ⟨rfl,?_⟩
      by_cases mine : tunnelId = other
      · subst mine
        exact here.trans (if_pos (decide_eq_true rfl)).symm
      · exact (elsewhere tunnelId mine).trans (if_neg (fun same => mine (of_decide_eq_true same).symm)).symm

theorem deleteStep (subject other : String) (now : Int) (s : Tables) (tunnelId : String) :
    sentBy s ⟨.deleteAlert subject other,now⟩ = [] ∧
      watchOf tunnelId (step s ⟨.deleteAlert subject other,now⟩).2 =
        if updates tunnelId s ⟨.deleteAlert subject other,now⟩ then none else watchOf tunnelId s := by
  have ends : Ends (Op.work now (.deleteAlert subject other)) s (fun r m => ∃ r' : Except SqlError Bool,
      r = r'.map .deleted ∧ if r' = .ok true then watchOf other m = none ∧ ∀ tunnelId, tunnelId ≠ other → watchOf tunnelId m = watchOf tunnelId s
        else ∀ tunnelId, watchOf tunnelId m = watchOf tunnelId s) :=
    endsGives (endsMono (deleteWatched subject other) (fun r m held => ⟨r,rfl,held⟩))
  obtain ⟨r,answered,held⟩ := ends []
  unfold sentBy updates step
  dsimp only
  rw [answered]
  cases r with
  | error e => exact ⟨rfl,held tunnelId⟩
  | ok done =>
    cases done with
    | false => exact ⟨rfl,held tunnelId⟩
    | true =>
      obtain ⟨here,elsewhere⟩ := held
      refine ⟨rfl,?_⟩
      by_cases mine : tunnelId = other
      · subst mine
        exact here.trans (if_pos (decide_eq_true rfl)).symm
      · exact (elsewhere tunnelId mine).trans (if_neg (fun same => mine (of_decide_eq_true same).symm)).symm

theorem nextUnseen (w : Option Watch) (now : Int) : w.map (fun w => w.next now none) = w := by
  cases w <;> rfl

theorem toldUnseen (w : Option Watch) (now : Int) : (w.map (fun w => w.told now none)).getD [] = [] := by
  cases w <;> rfl

/- A call that does not update the alert is one step of its watch. -/
theorem stepWatched {call : Call} (quiet : updates tunnelId s call = false) :
    watchOf tunnelId (step s call).2 = (watchOf tunnelId s).map (fun w => w.next call.now (sighting tunnelId s call)) ∧
      (transitions tunnelId (sentBy s call)).map heard =
        ((watchOf tunnelId s).map (fun w => w.told call.now (sighting tunnelId s call))).getD [] := by
  obtain ⟨op,now⟩ := call
  cases op with
  | tick probe outcome =>
    cases probe with
    | none =>
      rw [sighting, nextUnseen, toldUnseen]
      exact ⟨rfl,rfl⟩
    | some probe =>
      have read : Yields allEnabledAlerts s (enabledAlerts s) s := rfl
      obtain ⟨sent,m,yields,next⟩ := @evaluateAllWatched s now probe outcome _ (listedOnce s) (listedSeen s) tunnelId
      have whole : Yields (Op.work now (.tick (some probe) outcome)) s (.ticked sent) m := yieldsBind (yieldsBind read yields) yieldsPure
      unfold sentBy step
      dsimp only
      rw [yieldsPerform whole]
      exact next
  | testAlert subject other outcome =>
    obtain ⟨answer,m,yields,kept,silent⟩ := testWatched subject other outcome now s tunnelId
    have whole : Yields (Op.work now (.testAlert subject other outcome)) s (.tested answer) m := yieldsBind yields yieldsPure
    unfold sentBy step
    dsimp only
    rw [yieldsPerform whole, sighting, nextUnseen, toldUnseen]
    exact ⟨kept,by rw [silent]; rfl⟩
  | setAlert subject other webhookUrl thresholdSecs secretHex =>
    obtain ⟨silent,turned⟩ := setStep subject other webhookUrl thresholdSecs secretHex now s tunnelId
    rw [sighting, nextUnseen, toldUnseen, silent, turned, quiet]
    exact ⟨rfl,rfl⟩
  | deleteAlert subject other =>
    obtain ⟨silent,turned⟩ := deleteStep subject other now s tunnelId
    rw [sighting, nextUnseen, toldUnseen, silent, turned, quiet]
    exact ⟨rfl,rfl⟩

/- A call that does leaves no alert, or one that starts anew. -/
theorem stepUpdated {call : Call} (updated : updates tunnelId s call) :
    watchOf tunnelId (step s call).2 = none ∨
      ∃ thresholdSecs, watchOf tunnelId (step s call).2 = some (renewed thresholdSecs call.now (watchOf tunnelId s)) := by
  obtain ⟨op,now⟩ := call
  cases op with
  | tick => cases updated
  | testAlert => cases updated
  | setAlert subject other webhookUrl thresholdSecs secretHex =>
    obtain ⟨_,turned⟩ := setStep subject other webhookUrl thresholdSecs secretHex now s tunnelId
    rw [if_pos updated] at turned
    exact .inr ⟨thresholdSecs,turned⟩
  | deleteAlert subject other =>
    obtain ⟨_,turned⟩ := deleteStep subject other now s tunnelId
    rw [if_pos updated] at turned
    exact .inl turned

end Steps
/- An outage is measured from a time that no sighting is later than. -/
structure Grounded (now : Int) (ups : List Int) (w : Watch) : Prop where
  created : w.createdAt ≤ w.lastSeen
  past : w.lastSeen ≤ now
  latest : ∀ seen ∈ ups, seen ≤ w.lastSeen

structure Informed (tunnelId : String) (now : Int) (ups : List Int) (s : Tables) : Prop where
  past : ∀ seen ∈ ups, seen ≤ now
  grounded : ∀ w, watchOf tunnelId s = some w → Grounded now ups w

section Watches
variable {w : Watch} {now : Int} {o : Sighting} {ups : List Int}

theorem downIff {state : AlertState} {up : Bool} {since thresholdSecs : Int} :
    nextTransition state up since now thresholdSecs = some .down ↔ up = false ∧ state ≠ .down ∧ thresholdSecs ≤ saturatingAddI64 now (-since) := by
  cases up <;> cases state <;> simp [nextTransition]

theorem upIff {state : AlertState} {up : Bool} {since thresholdSecs : Int} :
    nextTransition state up since now thresholdSecs = some .up ↔ up = true ∧ state = .down := by
  cases up <;> cases state <;> simp [nextTransition]

theorem renewedState (thresholdSecs now : Int) (w : Option Watch) : (renewed thresholdSecs now w).state = .unknown := by
  cases w <;> rfl

/- The difference of times in order is not cut below. -/
theorem outlasted (past : w.lastSeen ≤ now) (long : w.thresholdSecs ≤ saturatingAddI64 now (-w.lastSeen)) : w.lastSeen + w.thresholdSecs ≤ now := by
  have lasted : 0 ≤ now + -w.lastSeen := by omega
  have least : min (now + -w.lastSeen) (2 ^ 63 - 1) ≤ now + -w.lastSeen := min_le_left _ _
  have most : (-2 ^ 63 : Int) ≤ min (now + -w.lastSeen) (2 ^ 63 - 1) := le_min (by omega) (by omega)
  rw [saturatingAddI64, max_eq_right most] at long
  omega

theorem afterKept (w : Watch) (o : Sighting) (now : Int) :
    (w.after o now).createdAt = w.createdAt ∧ (w.after o now).thresholdSecs = w.thresholdSecs ∧
      (w.after o now).lastSeenHint = if o.up then some now else w.lastSeenHint := by
  unfold Watch.after Watch.touched
  split
  · split <;> cases o.up <;> exact ⟨rfl,rfl,rfl⟩
  · split <;> cases o.up <;> exact ⟨rfl,rfl,rfl⟩

theorem afterLastSeen (w : Watch) (o : Sighting) (now : Int) : (w.after o now).lastSeen = if o.up then now else w.lastSeen := by
  rw [Watch.lastSeen, (afterKept w o now).2.2]
  split
  case isTrue => rfl
  case isFalse down =>
    cases hint : w.lastSeenHint with
    | some seen => rw [Watch.lastSeen, hint]; rfl
    | none =>
      rw [Watch.lastSeen, hint, Option.getD_none, Option.getD_none, Watch.after, Bool.eq_false_of_not_eq_true down]
      cases turned : w.transition false now with
      | none => rfl
      | some event =>
        dsimp only
        split
        case isTrue => rfl
        case isFalse =>
          cases event with
          | down => rw [Watch.sinceOf, if_pos rfl, Watch.lastSeen, hint, Option.getD_none]
          | up => cases (upIff.mp turned).1
          | test => exact absurd turned (neverTest w false now)

theorem nextKept (w : Watch) (now : Int) (o : Option Sighting) :
    (w.next now o).createdAt = w.createdAt ∧ (w.next now o).thresholdSecs = w.thresholdSecs ∧
      (w.next now o).lastSeenHint = (if o.any Sighting.up then some now else w.lastSeenHint) ∧
      (w.next now o).lastSeen = if o.any Sighting.up then now else w.lastSeen := by
  cases o with
  | none => exact ⟨rfl,rfl,rfl,rfl⟩
  | some o =>
    obtain ⟨created,threshold,hint⟩ := afterKept w o now
    exact ⟨created,threshold,hint,afterLastSeen w o now⟩

theorem wireInjective {a b : AlertEvent} (same : a.wire = b.wire) : a = b := by
  cases a <;> cases b <;> first | rfl | (rw [AlertEvent.wire, AlertEvent.wire] at same; simp at same)

theorem toldSome {o : Option Sighting} {event : String × Int × Int} {kind : AlertEvent} (told : event ∈ w.told now o) (named : event.1 = kind.wire) :
    ∃ up, o = some ⟨up,false⟩ ∧ w.transition up now = some kind ∧ event = (kind.wire,w.sinceOf kind now,now) := by
  rw [Watch.told, Option.mem_toList, Option.map_eq_some_iff] at told
  obtain ⟨known,tells,rfl⟩ := told
  obtain rfl := wireInjective named
  obtain ⟨⟨up,limited⟩,rfl,turned⟩ := Option.bind_eq_some_iff.mp tells
  unfold Watch.tells at turned
  split at turned <;> try contradiction
  rename_i free
  rw [Bool.not_eq_true] at free
  dsimp only at free
  subst free
  exact ⟨up,rfl,turned,rfl⟩

/- What is told of an outage. -/
theorem downTold {o : Option Sighting} {event : String × Int × Int} (told : event ∈ w.told now o) (down : event.1 = AlertEvent.down.wire) :
    o = some ⟨false,false⟩ ∧ w.state ≠ .down ∧ w.thresholdSecs ≤ saturatingAddI64 now (-w.lastSeen) ∧
      event = (AlertEvent.down.wire,w.lastSeen,now) := by
  obtain ⟨up,seen,turned,same⟩ := toldSome told down
  obtain ⟨rfl,new,long⟩ := downIff.mp turned
  exact ⟨seen,new,long,same⟩

theorem upTold {o : Option Sighting} {event : String × Int × Int} (told : event ∈ w.told now o) (up : event.1 = AlertEvent.up.wire) :
    o.any Sighting.up := by
  obtain ⟨_,rfl,turned,_⟩ := toldSome told up
  exact (upIff.mp turned).1

/- The event that an alert waits for, and the one it has told last. -/
def awaited (w : Watch) : AlertEvent := if w.state = .down then .up else .down

def settled (w : Watch) : AlertEvent := if w.state = .down then .down else .up

theorem nextAwaited (w : Watch) (now : Int) (o : Option Sighting) :
    (w.told now o).map Prod.fst = [] ∧ ((w.next now o).state = .down ↔ w.state = .down) ∨
      (w.told now o).map Prod.fst = [(awaited w).wire] ∧ ((w.next now o).state = .down ↔ w.state ≠ .down) := by
  cases o with
  | none => exact .inl ⟨rfl,Iff.rfl⟩
  | some o =>
    obtain ⟨up,limited⟩ := o
    have state (seen : Bool) : (w.touched seen now).state = w.state := by
      unfold Watch.touched
      split <;> rfl
    rw [Watch.told, Watch.next, Option.elim_some, Option.bind_some, Watch.tells, Watch.after]
    cases turned : w.transition up now with
    | none =>
      refine .inl ⟨by rw [ite_self]; rfl,?_⟩
      dsimp only
      split
      case isTrue turns =>
        have up' : up = true := (Bool.and_eq_true_iff.mp turns).1
        have calm : w.state ≠ .down := by
          intro down
          have told : w.transition up now = some .up := upIff.mpr ⟨up',down⟩
          rw [turned] at told
          contradiction
        exact iff_of_false (fun same => by cases same) calm
      case isFalse => rw [state]
    | some event =>
      dsimp only
      cases limited with
      | true => exact .inl ⟨rfl,by rw [if_pos rfl, state]⟩
      | false =>
        refine .inr ?_
        cases event with
        | down =>
          have calm := (downIff.mp turned).2.1
          exact ⟨by rw [awaited, if_neg calm]; rfl,iff_of_true rfl calm⟩
        | up =>
          have down := (upIff.mp turned).2
          exact ⟨by rw [awaited, if_pos down]; rfl,iff_of_false (fun same => by cases same) (not_not_intro down)⟩
        | test => exact absurd turned (neverTest w up now)

theorem groundedNext (grounded : Grounded now ups w) (o : Option Sighting) :
    Grounded now (ups ++ if o.any Sighting.up then [now] else []) (w.next now o) := by
  obtain ⟨created,_,_,last⟩ := nextKept w now o
  have earlier := grounded.created
  have past := grounded.past
  refine ⟨?_,?_,?_⟩
  · rw [created, last]
    split <;> omega
  · rw [last]
    split <;> omega
  · rw [last]
    intro seen mem
    obtain before | here := List.mem_append.mp mem
    · have known := grounded.latest seen before
      split <;> omega
    · split at here
      case isTrue up => rw [if_pos up, List.mem_singleton.mp here]
      case isFalse => contradiction

theorem groundedRenewed {old : Option Watch} (past : ∀ seen ∈ ups, seen ≤ now) (grounded : ∀ w, old = some w → Grounded now ups w) (thresholdSecs : Int) :
    Grounded now ups (renewed thresholdSecs now old) := by
  cases old with
  | none => exact ⟨le_refl _,le_refl _,past⟩
  | some w =>
    obtain ⟨earlier,before,latest⟩ := grounded w rfl
    rw [Watch.lastSeen] at earlier before latest
    cases hint : w.lastSeenHint with
    | none =>
      rw [hint, Option.getD_none] at earlier before
      have last : (renewed thresholdSecs now (some w)).lastSeen = now := by
        rw [renewed, Option.map_some, Option.getD_some, Watch.lastSeen, hint, Option.getD_none]
      refine ⟨?_,last.le,fun seen mem => (past seen mem).trans last.ge⟩
      rw [last]
      exact earlier.trans before
    | some at' =>
      have last : (renewed thresholdSecs now (some w)).lastSeen = w.lastSeenHint.getD w.stateSince := by
        rw [renewed, Option.map_some, Option.getD_some, Watch.lastSeen, hint, Option.getD_some, Option.getD_some]
      exact ⟨last ▸ earlier,last ▸ before,last ▸ latest⟩

end Watches

section Runs
variable {tunnelId : String} {s : Tables} {tunnels : BTreeMap String TunnelRow}

theorem updatesUnseen {call : Call} (updated : updates tunnelId s call) : sighting tunnelId s call = none := by
  obtain ⟨op,now⟩ := call
  cases op with
  | tick => cases updated
  | testAlert => cases updated
  | setAlert => rfl
  | deleteAlert => rfl

theorem stepInformed {call : Call} {ups : List Int} (informed : Informed tunnelId call.now ups s) :
    Informed tunnelId call.now (ups ++ if seenUp tunnelId s call then [call.now] else []) (step s call).2 := by
  refine ⟨?_,?_⟩
  · intro seen mem
    obtain before | here := List.mem_append.mp mem
    · exact informed.past seen before
    · split at here
      case isTrue => exact (List.mem_singleton.mp here).le
      case isFalse => contradiction
  · intro w there
    cases updated : updates tunnelId s call with
    | true =>
      rw [seenUp, updatesUnseen updated, Option.any_none, if_neg Bool.false_ne_true, List.append_nil]
      obtain gone | ⟨thresholdSecs,set⟩ := stepUpdated updated
      · rw [gone] at there
        contradiction
      · rw [set] at there
        cases there
        exact groundedRenewed informed.past informed.grounded thresholdSecs
    | false =>
      rw [(stepWatched updated).1] at there
      obtain ⟨old,known,rfl⟩ := Option.map_eq_some_iff.mp there
      exact groundedNext (informed.grounded old known) _

theorem informedLater {now later : Int} {ups : List Int} (informed : Informed tunnelId now ups s) (forward : now ≤ later) :
    Informed tunnelId later ups s := by
  refine ⟨fun seen mem => (informed.past seen mem).trans forward,?_⟩
  intro w there
  obtain ⟨created,past,latest⟩ := informed.grounded w there
  exact ⟨created,past.trans forward,latest⟩

theorem sightingsNext (s : Tables) (calls : List Call) (call : Call) : sightings tunnelId s (calls ++ [call]) =
    sightings tunnelId s calls ++ if seenUp tunnelId (Machine.run step s calls) call then [call.now] else [] := Machine.logNext ..

/- What is told at any time rests on the sightings until then. -/
theorem runInformed {calls : List Call} (forward : calls.Pairwise (fun a b => a.now ≤ b.now)) {now : Int} (later : ∀ call ∈ calls, call.now ≤ now) :
    Informed tunnelId now (sightings tunnelId { tunnels } calls) (Machine.run step { tunnels } calls) := by
  induction calls using List.reverseRecOn generalizing now with
  | nil =>
    refine ⟨fun seen mem => by contradiction,fun w there => ?_⟩
    simp [watchOf, Machine.run] at there
  | append_singleton calls call ih =>
    obtain ⟨sorted,_,last⟩ := List.pairwise_append.mp forward
    have informed := ih sorted (fun c mem => last c mem call (List.mem_singleton_self _))
    rw [Machine.runNext, sightingsNext]
    exact informedLater (stepInformed informed) (later call (by simp))

theorem logCons (s : Tables) (call : Call) (calls : List Call) :
    transitions tunnelId (Machine.log step sentBy s (call :: calls)) =
      transitions tunnelId (sentBy s call) ++ transitions tunnelId (Machine.log step sentBy (step s call).2 calls) := transitionsAppend ..

theorem heardEvents (log : List Sent) : log.map Sent.event = (log.map heard).map Prod.fst := by
  rw [List.map_map]
  rfl

/- Without an alert nothing is told. -/
theorem runSilent {calls : List Call} (left : Machine.along step (fun s call => updates tunnelId s call = false) s calls)
    (unknown : watchOf tunnelId s = none) : transitions tunnelId (Machine.log step sentBy s calls) = [] := by
  induction calls generalizing s with
  | nil => rfl
  | cons call rest ih =>
    obtain ⟨kept,told⟩ := stepWatched left.1
    rw [unknown] at kept told
    rw [logCons, List.map_eq_nil_iff.mp told, ih left.2 kept, List.nil_append]

theorem runAlternates {calls : List Call} (left : Machine.along step (fun s call => updates tunnelId s call = false) s calls) {w : Watch}
    (known : watchOf tunnelId s = some w) : alternates (awaited w).wire (settled w).wire
      ((transitions tunnelId (Machine.log step sentBy s calls)).map Sent.event) := by
  induction calls generalizing s w with
  | nil => exact trivial
  | cons call rest ih =>
    obtain ⟨kept,told⟩ := stepWatched left.1
    rw [known] at kept told
    have further := ih left.2 kept
    rw [logCons, List.map_append, heardEvents, told, Option.map_some, Option.getD_some]
    obtain ⟨silent,same⟩ | ⟨spoken,turned⟩ := nextAwaited w call.now (sighting tunnelId s call)
    · rw [silent, List.nil_append]
      rwa [awaited, settled, if_congr same rfl rfl, if_congr same rfl rfl] at further
    · rw [spoken, List.singleton_append]
      refine ⟨rfl,?_⟩
      rwa [awaited, settled, if_congr turned rfl rfl, if_congr turned rfl rfl, ite_not, ite_not] at further

/- A run between two updates, with a call in it. -/
theorem runWatched {first rest : List Call} {call : Call}
    (left : Machine.along step (fun s call => updates tunnelId s call = false) s (first ++ call :: rest)) {e : Sent}
    (sent : e ∈ transitions tunnelId (sentBy (Machine.run step s first) call)) :
    ∃ a, (Machine.run step s first).alerts[tunnelId]? = some a ∧ heard e ∈ (watch a).told call.now (sighting tunnelId (Machine.run step s first) call) := by
  obtain ⟨_,told⟩ := stepWatched (Machine.alongAppend.mp left).2.1
  have listed := List.mem_map_of_mem (f := heard) sent
  rw [told, watchOf] at listed
  cases there : (Machine.run step s first).alerts[tunnelId]? with
  | none =>
    rw [there] at listed
    contradiction
  | some a =>
    rw [there] at listed
    exact ⟨a,rfl,listed⟩

theorem alertTransitions (tunnels : BTreeMap String TunnelRow) (before after : List Call) (setting : Call) (tunnelId : String)
    (forward : (before ++ setting :: after).Pairwise (fun a b => a.now ≤ b.now))
    (set : updates tunnelId (Machine.run step { tunnels } before) setting)
    (left : Machine.along step (fun s call => updates tunnelId s call = false) (Machine.run step { tunnels } (before ++ [setting])) after) :
    alternates AlertEvent.down.wire AlertEvent.up.wire
        ((transitions tunnelId (Machine.log step sentBy (Machine.run step { tunnels } (before ++ [setting])) after)).map Sent.event) ∧
      ∀ first call rest, after = first ++ call :: rest →
        ∀ e ∈ transitions tunnelId (sentBy (Machine.run step { tunnels } (before ++ setting :: first)) call),
          (e.event = AlertEvent.down.wire → ∃ a, (Machine.run step { tunnels } (before ++ setting :: first)).alerts[tunnelId]? = some a ∧
            a.createdAt + a.thresholdSecs ≤ call.now ∧
            ∀ seen ∈ sightings tunnelId { tunnels } (before ++ setting :: first), seen + a.thresholdSecs ≤ call.now) ∧
          (e.event = AlertEvent.up.wire → seenUp tunnelId (Machine.run step { tunnels } (before ++ setting :: first)) call) := by
  have informed (first : List Call) (call : Call) (rest : List Call) (split : after = first ++ call :: rest) :
      Informed tunnelId call.now (sightings tunnelId { tunnels } (before ++ setting :: first))
        (Machine.run step { tunnels } (before ++ setting :: first)) := by
    rw [split, ← List.cons_append, ← List.append_assoc] at forward
    obtain ⟨sorted,_,last⟩ := List.pairwise_append.mp forward
    exact runInformed sorted (fun c mem => last c mem call List.mem_cons_self)
  have reached (first : List Call) : Machine.run step (Machine.run step { tunnels } (before ++ [setting])) first =
      Machine.run step { tunnels } (before ++ setting :: first) := by
    rw [← Machine.runAppend, List.append_assoc, List.singleton_append]
  refine ⟨?_,?_⟩
  · rw [Machine.runNext] at left ⊢
    obtain gone | ⟨thresholdSecs,fresh⟩ := stepUpdated set
    · rw [runSilent left gone]
      exact trivial
    · have spoken := runAlternates left fresh
      rwa [awaited, settled, renewedState, if_neg (by decide), if_neg (by decide)] at spoken
  · intro first call rest split e sent
    have known := informed first call rest split
    rw [← reached] at sent known ⊢
    obtain ⟨a,there,told⟩ := runWatched (split ▸ left) sent
    refine ⟨?_,?_⟩
    · intro down
      obtain ⟨_,_,long,_⟩ := downTold told down
      obtain ⟨created,past,latest⟩ := known.grounded (watch a) (by rw [watchOf, there, Option.map_some])
      have due := outlasted past long
      refine ⟨a,there,?_,?_⟩
      · have earlier : a.createdAt ≤ (watch a).lastSeen := created
        have late : (watch a).lastSeen + a.thresholdSecs ≤ call.now := due
        omega
      · intro seen mem
        have before := latest seen mem
        have late : (watch a).lastSeen + a.thresholdSecs ≤ call.now := due
        omega
    · intro up
      exact upTold told up

/- A tunnel whose alert goes off and is set again. -/
def tickCall (up : Bool) (now : Int) : Call := ⟨.tick (some (fun _ => some up)) (fun _ => ⟨true,"HTTP 200 (attempt 1)"⟩),now⟩

theorem alertTransitionsOnce : alternates AlertEvent.down.wire AlertEvent.up.wire ((transitions "t" (Machine.log step sentBy
    (Machine.run step { tunnels := oneTunnel } ([] ++ [setCall])) [tickCall true 30,tickCall false 60,tickCall false 90,tickCall true 100])).map Sent.event) :=
  (alertTransitions oneTunnel [] [tickCall true 30,tickCall false 60,tickCall false 90,tickCall true 100] setCall "t" (by decide) (by decide +kernel)
    (by decide +kernel)).1

/- What an alert keeps until the next update: the threshold, and a start that is not before the last one. -/
structure Renewed (u thresholdSecs : Int) (w : Watch) : Prop where
  threshold : w.thresholdSecs = thresholdSecs
  started : w.lastSeenHint = none → u ≤ w.stateSince

section Updates
variable {u thresholdSecs : Int}

theorem renewedNext {w : Watch} {now : Int} (new : Renewed u thresholdSecs w) (o : Option Sighting) : Renewed u thresholdSecs (w.next now o) := by
  obtain ⟨_,threshold,hint,last⟩ := nextKept w now o
  refine ⟨threshold.trans new.threshold,?_⟩
  intro none'
  rw [hint] at none'
  split at none' <;> try contradiction
  rename_i down
  rw [if_neg down, Watch.lastSeen, Watch.lastSeen, hint, if_neg down, none', Option.getD_none, Option.getD_none] at last
  rw [last]
  exact new.started none'

theorem renewedWatch (thresholdSecs u : Int) (w : Option Watch) : Renewed u thresholdSecs (renewed thresholdSecs u w) := by
  cases w with
  | none => exact ⟨rfl,fun _ => le_refl u⟩
  | some w => exact ⟨rfl,fun _ => le_refl u⟩

/- The alert in a run that starts with the update. -/
structure Running (tunnelId : String) (u thresholdSecs now : Int) (s : Tables) (first : List Call) (w : Watch) : Prop where
  known : watchOf tunnelId (Machine.run step s first) = some w
  renewed : Renewed u thresholdSecs w
  past : w.lastSeen ≤ now
  seen : sightings tunnelId s first ≠ [] → u ≤ w.lastSeen

theorem runRunning {calls : List Call} (forward : calls.Pairwise (fun a b => a.now ≤ b.now)) (since : ∀ call ∈ calls, u ≤ call.now)
    (left : Machine.along step (fun s call => updates tunnelId s call = false) s calls) {w : Watch} (known : watchOf tunnelId s = some w)
    (new : Renewed u thresholdSecs w) (past : w.lastSeen ≤ u) {now : Int} (start : u ≤ now) (later : ∀ call ∈ calls, call.now ≤ now) :
    ∃ w, Running tunnelId u thresholdSecs now s calls w := by
  induction calls using List.reverseRecOn generalizing now with
  | nil => exact ⟨w,known,new,past.trans start,fun seen => absurd rfl seen⟩
  | append_singleton calls call ih =>
    obtain ⟨sorted,_,last⟩ := List.pairwise_append.mp forward
    obtain ⟨before,here⟩ := Machine.alongAppend.mp left
    have here' := since call (by simp)
    have now' := later call (by simp)
    obtain ⟨w,running⟩ := ih sorted (fun c mem => since c (List.mem_append_left _ mem)) before here'
      (fun c mem => last c mem call (List.mem_singleton_self _))
    obtain ⟨kept,_⟩ := stepWatched here.1
    obtain ⟨_,_,_,lastSeen⟩ := nextKept w call.now (sighting tunnelId (Machine.run step s calls) call)
    have earlier := running.past
    refine ⟨w.next call.now (sighting tunnelId (Machine.run step s calls) call),?_,renewedNext running.renewed _,?_,?_⟩
    · rw [Machine.runNext, kept, running.known, Option.map_some]
    · rw [lastSeen]
      split <;> omega
    · rw [sightingsNext, lastSeen, seenUp]
      intro some'
      split
      case isTrue => exact here'
      case isFalse down =>
        rw [if_neg down, List.append_nil] at some'
        exact running.seen some'

theorem recallsIff {call : Call} {a : AlertRow} (there : s.alerts[tunnelId]? = some a) (started : a.lastSeenHint = none → u ≤ a.stateSince) :
    recalls tunnelId u s call ↔ sighting tunnelId s call = some ⟨false,false⟩ ∧ (watch a).lastSeen < u ∧
      a.thresholdSecs ≤ saturatingAddI64 call.now (-(watch a).lastSeen) := by
  rw [recalls, Bool.and_eq_true, decide_eq_true_eq, there, Option.any_some]
  refine and_congr_right fun _ => ?_
  show a.lastSeenHint.any _ = true ↔ a.lastSeenHint.getD a.stateSince < u ∧ a.thresholdSecs ≤ saturatingAddI64 call.now (-(a.lastSeenHint.getD a.stateSince))
  cases hint : a.lastSeenHint with
  | some seen => simp
  | none =>
    have late := started hint
    rw [Option.any_none, Option.getD_none]
    refine iff_of_false Bool.false_ne_true ?_
    omega

/- The alert at a call of a run that starts with the update. -/
theorem callRunning {first rest : List Call} {call : Call} (forward : (first ++ call :: rest).Pairwise (fun a b => a.now ≤ b.now))
    (since : ∀ c ∈ first ++ call :: rest, u ≤ c.now)
    (left : Machine.along step (fun s call => updates tunnelId s call = false) s (first ++ call :: rest)) {w : Watch}
    (known : watchOf tunnelId s = some w) (new : Renewed u thresholdSecs w) (past : w.lastSeen ≤ u) :
    ∃ w, Running tunnelId u thresholdSecs call.now s first w := by
  obtain ⟨sorted,_,last⟩ := List.pairwise_append.mp forward
  exact runRunning sorted (fun c mem => since c (List.mem_append_left _ mem)) (Machine.alongAppend.mp left).1 known new past (since call (by simp))
    (fun c mem => last c mem call List.mem_cons_self)

/- A tick that does not recall tells of no outage from before the update. -/
theorem freshDown {first : List Call} {call : Call} {w : Watch} (running : Running tunnelId u thresholdSecs call.now s first w)
    (calm : recalls tunnelId u (Machine.run step s first) call = false) {event : String × Int × Int}
    (told : event ∈ w.told call.now (sighting tunnelId (Machine.run step s first) call)) (down : event.1 = AlertEvent.down.wire) :
    u + thresholdSecs ≤ event.2.2 ∧ u ≤ event.2.1 := by
  obtain ⟨seen,_,long,rfl⟩ := downTold told down
  have lasted := outlasted running.past long
  rw [running.renewed.threshold] at lasted
  have fresh : u ≤ w.lastSeen := by
    by_contra stale
    obtain ⟨a,there,rfl⟩ := Option.map_eq_some_iff.mp running.known
    rw [(recallsIff there running.renewed.started).mpr ⟨seen,not_le.mp stale,long⟩] at calm
    contradiction
  refine ⟨?_,fresh⟩
  show u + thresholdSecs ≤ call.now
  omega

/- A run that starts fresh has recalled nothing, and tells of no outage before the next sighting. -/
theorem freshCalm {calls : List Call} (forward : calls.Pairwise (fun a b => a.now ≤ b.now)) (since : ∀ call ∈ calls, u ≤ call.now)
    (left : Machine.along step (fun s call => updates tunnelId s call = false) s calls) {w : Watch}
    (known : watchOf tunnelId s = some w) (new : Renewed u thresholdSecs w) (past : w.lastSeen ≤ u) (unknown : w.state ≠ .down)
    (fresh : StartsFresh tunnelId u thresholdSecs s calls) :
    Machine.along step (fun s call => recalls tunnelId u s call = false) s calls ∧
      ∀ w, watchOf tunnelId (Machine.run step s calls) = some w → w.lastSeen < u → w.state ≠ .down := by
  induction calls using List.reverseRecOn with
  | nil =>
    refine ⟨trivial,fun v there _ => ?_⟩
    rw [show Machine.run step s [] = s from rfl, known] at there
    cases there
    exact unknown
  | append_singleton calls call ih =>
    obtain ⟨sorted,_,_⟩ := List.pairwise_append.mp forward
    obtain ⟨before,here,_⟩ := Machine.alongAppend.mp left
    obtain ⟨v,running⟩ := @callRunning _ _ _ _ _ [] _ forward since left _ known new past
    have earlier : StartsFresh tunnelId u thresholdSecs s calls := by
      intro first c rest split
      exact fresh first c (rest ++ [call]) (by rw [split, List.append_assoc, List.cons_append])
    obtain ⟨calm,quiet⟩ := ih sorted (fun c mem => since c (List.mem_append_left _ mem)) before earlier
    obtain ⟨kept,told⟩ := stepWatched here
    rw [running.known, Option.map_some, Option.getD_some] at told
    -- what would be told of a stale outage is refused by the premise
    have silent (event : String × Int × Int) (mem : event ∈ v.told call.now (sighting tunnelId (Machine.run step s calls) call))
        (down : event.1 = AlertEvent.down.wire) : ¬v.lastSeen < u := by
      intro stale
      obtain ⟨_,_,_,rfl⟩ := downTold mem down
      rw [← told] at mem
      obtain ⟨e,sent,same⟩ := List.mem_map.mp mem
      obtain ⟨named,started⟩ := Prod.mk.inj same
      obtain ⟨_,late | seen⟩ := fresh calls call [] rfl e sent named
      · rw [(Prod.mk.inj started).1] at late
        omega
      · have later := running.seen seen
        omega
    have still : recalls tunnelId u (Machine.run step s calls) call = false := by
      obtain ⟨a,there,rfl⟩ := Option.map_eq_some_iff.mp running.known
      by_contra recalled
      obtain ⟨seen,stale,long⟩ := (recallsIff there running.renewed.started).mp (Bool.of_not_eq_false recalled)
      have turned : (watch a).tells ⟨false,false⟩ call.now = some .down := downIff.mpr ⟨rfl,quiet _ running.known stale,long⟩
      refine silent (AlertEvent.down.wire,(watch a).lastSeen,call.now) ?_ rfl stale
      rw [seen, Watch.told, Option.bind_some, turned]
      exact List.mem_singleton_self _
    refine ⟨Machine.alongAppend.mpr ⟨calm,still,trivial⟩,?_⟩
    intro next there stale
    rw [Machine.runNext, kept, running.known] at there
    cases there
    obtain ⟨_,_,_,lastSeen⟩ := nextKept v call.now (sighting tunnelId (Machine.run step s calls) call)
    have now' := since call (by simp)
    rw [lastSeen] at stale
    split at stale
    · omega
    · have before' := quiet v running.known stale
      obtain ⟨_,same⟩ | ⟨spoken,_⟩ := nextAwaited v call.now (sighting tunnelId (Machine.run step s calls) call)
      · exact fun down => before' (same.mp down)
      · intro _
        rw [awaited, if_neg before'] at spoken
        have told' : AlertEvent.down.wire ∈ (v.told call.now (sighting tunnelId (Machine.run step s calls) call)).map Prod.fst := by
          rw [spoken]
          exact List.mem_singleton_self _
        obtain ⟨event,mem,named⟩ := List.mem_map.mp told'
        exact silent event mem named stale

end Updates

theorem freshIff (tunnels : BTreeMap String TunnelRow) (before after : List Call) (subject tunnelId webhookUrl secretHex : String) (thresholdSecs u : Int)
    (forward : (before ++ ⟨.setAlert subject tunnelId webhookUrl thresholdSecs secretHex,u⟩ :: after).Pairwise (fun a b => a.now ≤ b.now))
    (updated : renews (Machine.run step { tunnels } before) ⟨.setAlert subject tunnelId webhookUrl thresholdSecs secretHex,u⟩)
    (left : Machine.along step (fun s call => updates tunnelId s call = false)
      (Machine.run step { tunnels } (before ++ [⟨.setAlert subject tunnelId webhookUrl thresholdSecs secretHex,u⟩])) after) :
    StartsFresh tunnelId u thresholdSecs
        (Machine.run step { tunnels } (before ++ [⟨.setAlert subject tunnelId webhookUrl thresholdSecs secretHex,u⟩])) after ↔
      Machine.along step (fun s call => recalls tunnelId u s call = false)
        (Machine.run step { tunnels } (before ++ [⟨.setAlert subject tunnelId webhookUrl thresholdSecs secretHex,u⟩])) after := by
  have since : ∀ call ∈ after, u ≤ call.now := (List.pairwise_cons.mp (List.pairwise_append.mp forward).2.1).1
  have sorted : after.Pairwise (fun a b => a.now ≤ b.now) := (List.pairwise_cons.mp (List.pairwise_append.mp forward).2.1).2
  have informed : Informed tunnelId u (sightings tunnelId { tunnels } before) (Machine.run step { tunnels } before) :=
    runInformed (List.pairwise_append.mp forward).1 (fun c mem => (List.pairwise_append.mp forward).2.2 c mem _ List.mem_cons_self)
  have set : updates tunnelId (Machine.run step { tunnels } before) ⟨.setAlert subject tunnelId webhookUrl thresholdSecs secretHex,u⟩ = true := by
    unfold renews at updated
    split at updated <;> try contradiction
    rename_i answered
    unfold updates
    rw [answered]
    exact decide_eq_true rfl
  obtain ⟨_,turned⟩ := setStep subject tunnelId webhookUrl thresholdSecs secretHex u (Machine.run step { tunnels } before) tunnelId
  rw [if_pos set, ← Machine.runNext] at turned
  have past := (groundedRenewed informed.past informed.grounded thresholdSecs).past
  have new := renewedWatch thresholdSecs u (watchOf tunnelId (Machine.run step { tunnels } before))
  constructor
  · intro fresh
    refine (freshCalm sorted since left turned new past ?_ fresh).1
    rw [renewedState]
    decide
  · intro calm first call rest split e sent down
    subst split
    obtain ⟨w,running⟩ := callRunning sorted since left turned new past
    obtain ⟨a,there,told⟩ := runWatched left sent
    have same : w = watch a := by
      have known := running.known
      rw [watchOf, there, Option.map_some] at known
      exact (Option.some.inj known).symm
    subst same
    have dated := freshDown running (Machine.alongAppend.mp calm).2.1 told down
    exact ⟨dated.1,.inl dated.2⟩

/- The tunnel is seen up, and its alert set again; the outage after that is told with the old start, and at once. -/
def setAgain : Call := ⟨.setAlert "anna" "t" "https://example.org/hook" 60 "00",1000⟩

theorem freshSightedAgain : StartsFresh "t" 1000 60 (Machine.run step { tunnels := oneTunnel } ([setCall,tickCall true 0] ++ [setAgain]))
    [tickCall true 1001,tickCall false 1030,tickCall false 1061] :=
  (freshIff oneTunnel [setCall,tickCall true 0] [tickCall true 1001,tickCall false 1030,tickCall false 1061] "anna" "t" "https://example.org/hook" "00"
    60 1000 (by decide) (by decide +kernel) (by decide +kernel)).mpr (by decide +kernel)

theorem staleStart : renews (Machine.run step { tunnels := oneTunnel } [setCall,tickCall true 0]) setAgain ∧
    ¬StartsFresh "t" 1000 60 (Machine.run step { tunnels := oneTunnel } ([setCall,tickCall true 0] ++ [setAgain])) [tickCall false 1001] := by
  refine ⟨by decide +kernel,?_⟩
  intro fresh
  have told : (transitions "t" (sentBy (Machine.run step (Machine.run step { tunnels := oneTunnel } ([setCall,tickCall true 0] ++ [setAgain])) [])
      (tickCall false 1001))).map heard = [("tunnel.down",0,1001)] := by decide +kernel
  have listed : ("tunnel.down",(0 : Int),(1001 : Int)) ∈ (transitions "t" (sentBy (Machine.run step (Machine.run step { tunnels := oneTunnel }
      ([setCall,tickCall true 0] ++ [setAgain])) []) (tickCall false 1001))).map heard := by
    rw [told]
    exact List.mem_singleton_self _
  obtain ⟨e,sent,same⟩ := List.mem_map.mp listed
  obtain ⟨early,_⟩ := fresh [] (tickCall false 1001) [] rfl e sent (Prod.mk.inj same).1
  rw [(Prod.mk.inj (Prod.mk.inj same).2).2] at early
  contradiction

end Runs
end CadsTunnel.AlertTransitions
