import CadsTunnel.CanonicalJson
import CadsTunnel.CreditLedger
import CadsTunnel.Hostnames
import CadsTunnel.StableSort

/-! The store of saved installations on its two tables, whose rows stand in the order of their
row ids. What an account sees of it is its shelf: a card for each record, with the record's
stored history. Every operation acts on the shelf of its own account alone. -/
namespace CadsTunnel.Installations
open Sql StableSort
open Ledger (AccountId)

def maxInstallationsPerAccount : Nat := 200
def maxNameChars : Nat := 120
def maxRevisions : Int := 50
def keepRemoved : Nat := 100

inductive Status where
  | draft
  | installed
  | removed
  deriving DecidableEq

structure Component where
  name : String
  sha256 : String

structure Target where
  os : String
  deviceLabel : String
  agentHolderPubkey : Option String

/- The columns that a customer supplies. -/
structure Content where
  name : String
  templateId : String
  templateDigest : String
  values : Json.Value
  valuesDigest : String
  components : List Component
  manifestIds : List String
  target : Target

def blank : Content := ⟨"","","",.object [],"",[],[],⟨"","",none⟩⟩

structure InstallationInput where
  content : Content
  status : Option Status

structure Installation where
  id : String
  content : Content
  status : Status
  createdAt : Int
  updatedAt : Int
  revision : Int

structure RevisionEntry where
  revision : Int
  savedAt : Int
  installation : Installation

structure Row where
  account : AccountId
  record : Installation

structure RevisionRow where
  account : AccountId
  id : String
  entry : RevisionEntry

structure Tables where
  installations : List Row := []
  installationRevisions : List RevisionRow := []

inductive CreateOutcome where
  | created (rec : Installation)
  | limitReached

inductive UpdateOutcome where
  | updated (rec : Installation)
  | notFound
  | conflict (revision : Int)
  | limitReached

inductive DeleteOutcome where
  | removed
  | notFound
  | conflict (revision : Int)

abbrev Work (α : Type) := Session Tables SqlError α

/- The rows of an account. -/
def owned (account : AccountId) (s : Tables) : List Installation := (s.installations.filter (fun row => row.account = account)).map Row.record

def fetch (account : AccountId) (id : String) (s : Tables) : Option Installation := (owned account s).find? (fun rec => rec.id = id)

def active (records : List Installation) : Nat := records.countP (fun rec => rec.status ≠ .removed)

def activeCount (account : AccountId) (s : Tables) : Nat := active (owned account s)

def insertRow (account : AccountId) (rec : Installation) : Work Unit := statement (fun s =>
  if s.installations.any (fun row => row.record.id = rec.id) then .error .constraint
  else .ok ((),{ s with installations := s.installations ++ [⟨account,rec⟩] }))

/- The statements that change or delete rows of one account. -/
def updateRow (account : AccountId) (id : String) (change : Installation → Installation) (s : Tables) : Tables :=
  { s with installations := s.installations.map (fun row =>
    if row.account = account ∧ row.record.id = id then { row with record := change row.record } else row) }

def deleteRows (account : AccountId) (ids : String → Bool) (s : Tables) : Tables :=
  { s with installations := s.installations.filter (fun row => !(row.account = account && ids row.record.id)) }

def deleteRevisions (account : AccountId) (which : String → RevisionEntry → Bool) (s : Tables) : Tables :=
  { s with installationRevisions := s.installationRevisions.filter (fun rev => !(rev.account = account && which rev.id rev.entry)) }

def eraseContent (account : AccountId) (id : String) (now revision : Int) : Work Unit := do
  execute (fun s => ((),updateRow account id (fun rec =>
    { rec with content := blank, status := .removed, updatedAt := now, revision := revision }) s))
  execute (fun s => ((),deleteRevisions account (fun id' _ => id' = id) s))

def tombstone (cur : Installation) (now revision : Int) : Installation :=
  { id := cur.id, content := blank, status := .removed, createdAt := cur.createdAt, updatedAt := now, revision := revision }

/- The removed records behind the newest ones; of two of one time the later row is the newer. -/
def doomed (records : List Installation) : List String :=
  ((descending Installation.updatedAt (records.filter (fun rec => rec.status = .removed)).reverse).drop keepRemoved).map Installation.id

def purgeOldRemoved (account : AccountId) : Work Unit := do
  execute (fun s => ((),deleteRevisions account (fun id _ => id ∈ doomed (owned account s)) s))
  execute (fun s => ((),deleteRows account (fun id => id ∈ doomed (owned account s)) s))

def insertRevision (account : AccountId) (id : String) (entry : RevisionEntry) : Work Unit := statement (fun s =>
  if s.installationRevisions.any (fun rev => rev.id = id ∧ rev.entry.revision = entry.revision) then .error .constraint
  else .ok ((),{ s with installationRevisions := s.installationRevisions ++ [⟨account,id,entry⟩] }))

def archive (account : AccountId) (cur : Installation) (now : Int) : Work Unit := do
  insertRevision account cur.id ⟨cur.revision,now,cur⟩
  execute (fun s => ((),deleteRevisions account (fun id entry => id = cur.id ∧ entry.revision ≤ cur.revision - maxRevisions) s))

def materialize (input : InstallationInput) (id : String) (now : Int) (status : Status) : Installation :=
  { id := id, content := { input.content with name := .ofList (Hostnames.trim input.content.name.toList) }, status := status, createdAt := now,
    updatedAt := now, revision := 1 }

/- The ids of new rows are what the random generator gives. -/
def create (account : AccountId) (input : InstallationInput) (uuid : String) (now : Int) : Work CreateOutcome :=
  transaction (do
    let count ← select (activeCount account)
    if maxInstallationsPerAccount ≤ count then pure (.rollback .limitReached)
    else
      let rec' := materialize input uuid now (input.status.getD .draft)
      insertRow account rec'
      purgeOldRemoved account
      pure (.commit (.created rec')))

/- The record that an update leaves. -/
def revised (input : InstallationInput) (cur : Installation) (now : Int) (status : Status) : Installation :=
  { materialize input cur.id now status with createdAt := cur.createdAt, revision := cur.revision + 1 }

/- What `update` writes after its checks. Ending up removed is a delete, and a tombstone has no content worth archiving. -/
def replace (account : AccountId) (cur : Installation) (input : InstallationInput) (now : Int) (nextStatus : Status) : Work (Left UpdateOutcome) :=
  if nextStatus = .removed then do
    let next := tombstone cur now (cur.revision + 1)
    eraseContent account cur.id now next.revision
    purgeOldRemoved account
    pure (.commit (.updated next))
  else do
    if cur.status ≠ .removed then archive account cur now
    let next := revised input cur now nextStatus
    execute (fun s => ((),updateRow account cur.id (fun rec =>
      { rec with content := next.content, status := next.status, updatedAt := next.updatedAt, revision := next.revision }) s))
    purgeOldRemoved account
    pure (.commit (.updated next))

def update (account : AccountId) (id : String) (expectedRevision : Int) (input : InstallationInput) (now : Int) : Work UpdateOutcome :=
  transaction (do
    match ← select (fetch account id) with
    | none => pure (.rollback .notFound)
    | some cur =>
      if cur.revision ≠ expectedRevision then pure (.rollback (.conflict cur.revision))
      else
        let nextStatus := input.status.getD cur.status
        let full ← if cur.status = .removed ∧ nextStatus ≠ .removed then
            select (fun s => decide (maxInstallationsPerAccount ≤ activeCount account s))
          else pure false
        if full then pure (.rollback .limitReached)
        else replace account cur input now nextStatus)

def softDelete (account : AccountId) (id : String) (expectedRevision : Option Int) (now : Int) : Work DeleteOutcome :=
  transaction (do
    match ← select (fetch account id) with
    | none => pure (.rollback .notFound)
    | some cur =>
      if expectedRevision.any (fun r => r ≠ cur.revision) then pure (.rollback (.conflict cur.revision))
      else if cur.status ≠ .removed then
        eraseContent account cur.id now (cur.revision + 1)
        purgeOldRemoved account
        pure (.commit .removed)
      else pure (.commit .removed))

def copyName (name : String) : String := .ofList (name.toList.take (maxNameChars - " (copy)".length)) ++ " (copy)"

def duplicate (account : AccountId) (id : String) (name : Option String) (uuid : String) (now : Int) : Work (Option CreateOutcome) :=
  transaction (do
    match ← select (fetch account id) with
    | none => pure (.rollback none)
    | some src =>
      if src.status = .removed then pure (.rollback none)
      else
        let count ← select (activeCount account)
        if maxInstallationsPerAccount ≤ count then pure (.rollback (some .limitReached))
        else
          let rec' : Installation := { src with
            id := uuid, content := { src.content with name := name.getD (copyName src.content.name) }
            status := .draft, createdAt := now, updatedAt := now, revision := 1 }
          insertRow account rec'
          purgeOldRemoved account
          pure (.commit (some (.created rec'))))

def deleteAllForAccount (account : AccountId) : Work Nat :=
  transaction (do
    execute (fun s => ((),deleteRevisions account (fun _ _ => true) s))
    let n ← execute (fun s => ((owned account s).length,deleteRows account (fun _ => true) s))
    pure (.commit n))

/- The new rows, one after the other; each input comes with the id drawn for it. -/
def insertAll (account : AccountId) (now : Int) : List (InstallationInput × String) → Work (List Installation)
  | [] => pure []
  | (input,uuid) :: rest => do
    let rec' := materialize input uuid now (input.status.getD .draft)
    insertRow account rec'
    let out ← insertAll account now rest
    pure (rec' :: out)

def importAll (account : AccountId) (inputs : List (InstallationInput × String)) (now : Int) : Work (Option (List Installation)) :=
  transaction (do
    let count ← select (activeCount account)
    if maxInstallationsPerAccount < count + inputs.length then pure (.rollback none)
    else
      let out ← insertAll account now inputs
      purgeOldRemoved account
      pure (.commit (some out)))

/- What the handlers let through to `create` and `import`. -/
abbrev AdmittedInput := { input : InstallationInput // input.status ≠ some .removed }

inductive Op where
  | create (input : AdmittedInput) (uuid : String)
  | update (id : String) (expectedRevision : Int) (input : InstallationInput)
  | softDelete (id : String) (expectedRevision : Option Int)
  | duplicate (id : String) (name : Option String) (uuid : String)
  | importAll (inputs : List (AdmittedInput × String))
  | deleteAllForAccount

inductive Outcome where
  | create (out : CreateOutcome)
  | update (out : UpdateOutcome)
  | softDelete (out : DeleteOutcome)
  | duplicate (out : Option CreateOutcome)
  | importAll (out : Option (List Installation))
  | deleteAllForAccount (n : Nat)

structure Call where
  account : AccountId
  now : Int
  op : Op
  faults : List Bool := []

def unwrapped (inputs : List (AdmittedInput × String)) : List (InstallationInput × String) := inputs.map (fun p => (p.1.val,p.2))

def act (account : AccountId) (now : Int) : Op → Work Outcome
  | .create input uuid => do pure (.create (← create account input uuid now))
  | .update id expectedRevision input => do pure (.update (← update account id expectedRevision input now))
  | .softDelete id expectedRevision => do pure (.softDelete (← softDelete account id expectedRevision now))
  | .duplicate id name uuid => do pure (.duplicate (← duplicate account id name uuid now))
  | .importAll inputs => do pure (.importAll (← importAll account (unwrapped inputs) now))
  | .deleteAllForAccount => do pure (.deleteAllForAccount (← deleteAllForAccount account))

def step (s : Tables) (call : Call) : Except SqlError Outcome × Tables := perform (act call.account call.now call.op) s call.faults

def run (calls : List Call) : Tables := Machine.run step {} calls

/- A record with its stored history, oldest first. -/
structure Card where
  record : Installation
  history : List RevisionEntry := []

def ownedRevisions (account : AccountId) (s : Tables) : List RevisionRow := s.installationRevisions.filter (fun rev => rev.account = account)

def historyIn (revisions : List RevisionRow) (id : String) : List RevisionEntry :=
  (revisions.filter (fun rev => rev.id = id)).map RevisionRow.entry

def shelf (account : AccountId) (s : Tables) : List Card :=
  (owned account s).map (fun rec => ⟨rec,historyIn (ownedRevisions account s) rec.id⟩)

/- Ids are used once, and a history belongs to a record of its account. -/
structure Sound (s : Tables) : Prop where
  distinct : (s.installations.map (fun row => row.record.id)).Nodup
  filed : ∀ rev ∈ s.installationRevisions, ∃ row ∈ s.installations, row.account = rev.account ∧ row.record.id = rev.id

/- From `s` to `m` the shelf of one account has become `cards`, and no other shelf has changed. -/
structure Shelved (account : AccountId) (s m : Tables) (cards : List Card) : Prop where
  own : shelf account m = cards
  others : ∀ other, account ≠ other → shelf other m = shelf other s
  sound : Sound m

def change (id : String) (f : Card → Card) (cards : List Card) : List Card := cards.map (fun c => if c.record.id = id then f c else c)

section Statements
variable {account : AccountId} {s m : Tables} {cards : List Card}

theorem shelvedAs {other : List Card} (shelved : Shelved account s m other) (same : other = cards) : Shelved account s m cards := same ▸ shelved

theorem ownedRecords (shelved : Shelved account s m cards) : owned account m = cards.map Card.record := by
  rw [← shelved.own, shelf, List.map_map]
  exact (List.map_id _).symm

theorem fetchCard (account : AccountId) (id : String) (s : Tables) :
    fetch account id s = ((shelf account s).find? (fun c => c.record.id = id)).map Card.record := by
  rw [shelf, List.find?_map, Option.map_map, fetch]
  exact (congrFun Option.map_id _).symm

theorem sameShelf (other : AccountId) (rows : owned other m = owned other s) (revisions : ownedRevisions other m = ownedRevisions other s) :
    shelf other m = shelf other s := by
  rw [shelf, shelf, rows, revisions]

/- The rows of one account are updated, and those of the others stay. -/
theorem ownedUpdated (account other : AccountId) (id : String) (f : Installation → Installation) (s : Tables) :
    owned other (updateRow account id f s) =
      if account = other then (owned other s).map (fun rec => if rec.id = id then f rec else rec) else owned other s := by
  have rows : (updateRow account id f s).installations.filter (fun row => row.account = other) =
      (s.installations.filter (fun row => row.account = other)).map
        (fun row => if row.account = account ∧ row.record.id = id then { row with record := f row.record } else row) := by
    rw [updateRow, List.filter_map]
    congr 1
    apply List.filter_congr
    intro row _
    dsimp only [Function.comp_apply]
    split <;> rfl
  rw [owned, rows, List.map_map, owned]
  split
  case isTrue same =>
    rw [List.map_map]
    apply List.map_congr_left
    intro row mem
    have here := of_decide_eq_true (List.mem_filter.mp mem).2
    simp only [Function.comp_apply, here, same, true_and]
    split <;> rfl
  case isFalse differ =>
    apply List.map_congr_left
    intro row mem
    have here := of_decide_eq_true (List.mem_filter.mp mem).2
    simp only [Function.comp_apply, here, Ne.symm differ, false_and, if_false]

theorem ownedDeleted (account other : AccountId) (ids : String → Bool) (s : Tables) : owned other (deleteRows account ids s) =
    if account = other then (owned other s).filter (fun rec => !ids rec.id) else owned other s := by
  rw [owned, deleteRows, List.filter_filter, owned]
  split
  case isTrue same =>
    rw [List.filter_map, List.filter_filter]
    congr 1
    apply List.filter_congr
    intro row _
    by_cases here : row.account = other <;> simp [here, same]
  case isFalse differ =>
    congr 1
    apply List.filter_congr
    intro row _
    by_cases here : row.account = other <;> simp [here, Ne.symm differ]

theorem revisionsDeleted (account other : AccountId) (which : String → RevisionEntry → Bool) (s : Tables) :
    ownedRevisions other (deleteRevisions account which s) =
      if account = other then (ownedRevisions other s).filter (fun rev => !which rev.id rev.entry) else ownedRevisions other s := by
  rw [ownedRevisions, deleteRevisions, List.filter_filter, ownedRevisions]
  split
  case isTrue same =>
    rw [List.filter_filter]
    apply List.filter_congr
    intro rev _
    by_cases here : rev.account = other <;> simp [here, same]
  case isFalse differ =>
    apply List.filter_congr
    intro rev _
    by_cases here : rev.account = other <;> simp [here, Ne.symm differ]

theorem ownedIds (sound : Sound s) (account : AccountId) : ((owned account s).map Installation.id).Nodup := by
  rw [owned, List.map_map]
  exact sound.distinct.sublist (List.filter_sublist.map _)

theorem rowShelved (shelved : Shelved account s m cards) (id : String) {f : Installation → Installation} (keeps : ∀ rec, (f rec).id = rec.id) :
    Shelved account s (updateRow account id f m) (change id (fun c => { c with record := f c.record }) cards) := by
  obtain ⟨own,others,sound⟩ := shelved
  refine ⟨?_,fun other differ => ?_,?_,?_⟩
  · have revisions : ownedRevisions account (updateRow account id f m) = ownedRevisions account m := rfl
    rw [shelf, ownedUpdated, if_pos rfl, revisions, List.map_map, ← own, change, shelf, List.map_map]
    apply List.map_congr_left
    intro rec _
    simp only [Function.comp_apply]
    split
    · rw [keeps]
    · rfl
  · rw [← others other differ]
    exact sameShelf other (by rw [ownedUpdated, if_neg differ]) rfl
  · have ids : (updateRow account id f m).installations.map (fun row => row.record.id) = m.installations.map (fun row => row.record.id) := by
      rw [updateRow, List.map_map]
      apply List.map_congr_left
      intro row _
      simp only [Function.comp_apply]
      split
      · exact keeps row.record
      · rfl
    rw [ids]
    exact sound.distinct
  · intro rev mem
    obtain ⟨row,stands,holder,named⟩ := sound.filed rev mem
    refine ⟨_,List.mem_map_of_mem stands,?_⟩
    split
    · exact ⟨holder,(keeps row.record).trans named⟩
    · exact ⟨holder,named⟩

theorem revisionsShelved (shelved : Shelved account s m cards) (which : String → RevisionEntry → Bool) :
    Shelved account s (deleteRevisions account which m)
      (cards.map (fun c => { c with history := c.history.filter (fun e => !which c.record.id e) })) := by
  obtain ⟨own,others,sound⟩ := shelved
  refine ⟨?_,fun other differ => ?_,sound.distinct,fun rev mem => sound.filed rev (List.mem_filter.mp mem).1⟩
  · have rows : owned account (deleteRevisions account which m) = owned account m := rfl
    rw [shelf, revisionsDeleted, if_pos rfl, rows, ← own, shelf, List.map_map]
    apply List.map_congr_left
    intro rec _
    simp only [Function.comp_apply, historyIn, List.filter_map, List.filter_filter]
    congr 2
    apply List.filter_congr
    intro rev _
    by_cases named : rev.id = rec.id <;> simp [named]
  · rw [← others other differ]
    exact sameShelf other rfl (by rw [revisionsDeleted, if_neg differ])

/- A record is deleted after its history. -/
theorem rowsShelved (shelved : Shelved account s m cards) {ids : String → Bool} (bare : ∀ c ∈ cards, ids c.record.id → c.history = []) :
    Shelved account s (deleteRows account ids m) (cards.filter (fun c => !ids c.record.id)) := by
  obtain ⟨own,others,sound⟩ := shelved
  refine ⟨?_,fun other differ => ?_,sound.distinct.sublist (List.filter_sublist.map _),?_⟩
  · have revisions : ownedRevisions account (deleteRows account ids m) = ownedRevisions account m := rfl
    rw [shelf, ownedDeleted, if_pos rfl, revisions, ← own, shelf, List.filter_map]
    rfl
  · rw [← others other differ]
    exact sameShelf other (by rw [ownedDeleted, if_neg differ]) rfl
  · intro rev mem
    obtain ⟨row,stands,holder,named⟩ := sound.filed rev mem
    refine ⟨row,List.mem_filter.mpr ⟨stands,?_⟩,holder,named⟩
    by_contra struck
    obtain ⟨mine,hit⟩ : row.account = account ∧ ids row.record.id = true := by simpa using struck
    have card : ⟨row.record,historyIn (ownedRevisions account m) row.record.id⟩ ∈ cards := by
      rw [← own]
      exact List.mem_map_of_mem (List.mem_map_of_mem (List.mem_filter.mpr ⟨stands,decide_eq_true mine⟩))
    have entry : rev.entry ∈ historyIn (ownedRevisions account m) row.record.id :=
      List.mem_map_of_mem (List.mem_filter.mpr ⟨List.mem_filter.mpr ⟨mem,decide_eq_true (holder.symm.trans mine)⟩,decide_eq_true named.symm⟩)
    have none' : historyIn (ownedRevisions account m) row.record.id = [] := bare _ card hit
    rw [none'] at entry
    exact List.not_mem_nil entry

theorem insertedShelved (shelved : Shelved account s m cards) {rec : Installation} (fresh : ∀ row ∈ m.installations, row.record.id ≠ rec.id) :
    Shelved account s { m with installations := m.installations ++ [⟨account,rec⟩] } (cards ++ [⟨rec,[]⟩]) := by
  obtain ⟨own,others,sound⟩ := shelved
  have unfiled : historyIn (ownedRevisions account m) rec.id = [] := by
    rw [historyIn, List.map_eq_nil_iff, List.filter_eq_nil_iff]
    intro rev mem same
    obtain ⟨row,stands,_,named⟩ := sound.filed rev (List.mem_filter.mp mem).1
    exact fresh row stands (named.trans (of_decide_eq_true same))
  have added : ∀ other, owned other { m with installations := m.installations ++ [⟨account,rec⟩] } =
      owned other m ++ if account = other then [rec] else [] := by
    intro other
    rw [owned, List.filter_append, List.map_append, owned]
    by_cases same : account = other <;> simp [same]
  refine ⟨?_,fun other differ => ?_,?_,?_⟩
  · have revisions : ownedRevisions account { m with installations := m.installations ++ [⟨account,rec⟩] } = ownedRevisions account m := rfl
    rw [shelf, added, if_pos rfl, List.map_append, revisions, ← own, shelf, List.map_singleton, unfiled]
  · rw [← others other differ]
    exact sameShelf other (by rw [added, if_neg differ, List.append_nil]) rfl
  · rw [List.map_append, List.nodup_append]
    refine ⟨sound.distinct,List.nodup_singleton _,?_⟩
    rintro _ mem _ last rfl
    obtain ⟨row,stands,same⟩ := List.mem_map.mp mem
    exact fresh row stands (same.trans (List.mem_singleton.mp last))
  · intro rev mem
    obtain ⟨row,stands,named⟩ := sound.filed rev mem
    exact ⟨row,List.mem_append_left _ stands,named⟩

theorem filedShelved (shelved : Shelved account s m cards) {id : String} {entry : RevisionEntry} (known : ∃ c ∈ cards, c.record.id = id) :
    Shelved account s { m with installationRevisions := m.installationRevisions ++ [⟨account,id,entry⟩] }
      (change id (fun c => { c with history := c.history ++ [entry] }) cards) := by
  have rows := ownedRecords shelved
  obtain ⟨own,others,sound⟩ := shelved
  have added : ∀ other, ownedRevisions other { m with installationRevisions := m.installationRevisions ++ [⟨account,id,entry⟩] } =
      ownedRevisions other m ++ if account = other then [⟨account,id,entry⟩] else [] := by
    intro other
    rw [ownedRevisions, List.filter_append, ownedRevisions]
    by_cases same : account = other <;> simp [same]
  refine ⟨?_,fun other differ => ?_,sound.distinct,?_⟩
  · have same : owned account { m with installationRevisions := m.installationRevisions ++ [⟨account,id,entry⟩] } = owned account m := rfl
    rw [shelf, added, if_pos rfl, same, ← own, change, shelf, List.map_map]
    apply List.map_congr_left
    intro rec _
    simp only [Function.comp_apply, historyIn, List.filter_append, List.map_append]
    by_cases named : rec.id = id <;> simp [named, Ne.symm]
  · rw [← others other differ]
    exact sameShelf other rfl (by rw [added, if_neg differ, List.append_nil])
  · intro rev mem
    obtain old | new := List.mem_append.mp mem
    · exact sound.filed rev old
    · cases List.mem_singleton.mp new
      obtain ⟨c,stands,named⟩ := known
      have record : c.record ∈ owned account m := rows ▸ List.mem_map_of_mem stands
      obtain ⟨row,mine,same⟩ := List.mem_map.mp record
      obtain ⟨present,holder⟩ := List.mem_filter.mp mine
      exact ⟨row,present,of_decide_eq_true holder,(congrArg Installation.id same).trans named⟩

end Statements

/- The cards that a purge leaves. -/
def kept (cards : List Card) : List Card := cards.filter (fun c => c.record.id ∉ doomed (cards.map Card.record))

def erased (now revision : Int) (c : Card) : Card := ⟨tombstone c.record now revision,[]⟩

def archived (now : Int) (c : Card) : List RevisionEntry :=
  (c.history ++ [RevisionEntry.mk c.record.revision now c.record]).filter (fun entry => c.record.revision - maxRevisions < entry.revision)

def renewed (input : InstallationInput) (now : Int) (status : Status) (c : Card) : Card :=
  ⟨revised input c.record now status,if c.record.status = .removed then c.history else archived now c⟩

def find (id : String) (cards : List Card) : Option Card := cards.find? (fun c => c.record.id = id)

def drafts (now : Int) (inputs : List (InstallationInput × String)) : List Installation :=
  inputs.map (fun p => materialize p.1 p.2 now (p.1.status.getD .draft))

def copied (name : Option String) (uuid : String) (now : Int) (src : Installation) : Installation :=
  { src with
    id := uuid, content := { src.content with name := name.getD (copyName src.content.name) }
    status := .draft, createdAt := now, updatedAt := now, revision := 1 }

/- What an operation answers on a shelf, and the shelf it writes before the purge, if it writes. -/
def lay (now : Int) (cards : List Card) : Op → Outcome × Option (List Card)
  | .create input uuid =>
    if maxInstallationsPerAccount ≤ active (cards.map Card.record) then (.create .limitReached,none)
    else
      let rec' := materialize input.val uuid now (input.val.status.getD .draft)
      (.create (.created rec'),some (cards ++ [⟨rec',[]⟩]))
  | .update id expectedRevision input =>
    match find id cards with
    | none => (.update .notFound,none)
    | some c =>
      if c.record.revision ≠ expectedRevision then (.update (.conflict c.record.revision),none)
      else
        let status := input.status.getD c.record.status
        if c.record.status = .removed ∧ status ≠ .removed ∧ maxInstallationsPerAccount ≤ active (cards.map Card.record) then
          (.update .limitReached,none)
        else if status = .removed then
          (.update (.updated (tombstone c.record now (c.record.revision + 1))),some (change id (erased now (c.record.revision + 1)) cards))
        else (.update (.updated (revised input c.record now status)),some (change id (renewed input now status) cards))
  | .softDelete id expectedRevision =>
    match find id cards with
    | none => (.softDelete .notFound,none)
    | some c =>
      if expectedRevision.any (fun r => r ≠ c.record.revision) then (.softDelete (.conflict c.record.revision),none)
      else if c.record.status ≠ .removed then (.softDelete .removed,some (change id (erased now (c.record.revision + 1)) cards))
      else (.softDelete .removed,none)
  | .duplicate id name uuid =>
    match find id cards with
    | none => (.duplicate none,none)
    | some src =>
      if src.record.status = .removed then (.duplicate none,none)
      else if maxInstallationsPerAccount ≤ active (cards.map Card.record) then (.duplicate (some .limitReached),none)
      else (.duplicate (some (.created (copied name uuid now src.record))),some (cards ++ [⟨copied name uuid now src.record,[]⟩]))
  | .importAll inputs =>
    if maxInstallationsPerAccount < active (cards.map Card.record) + inputs.length then (.importAll none,none)
    else
      let recs := drafts now (unwrapped inputs)
      (.importAll (some recs),some (cards ++ recs.map (fun rec => ⟨rec,[]⟩)))
  | .deleteAllForAccount => (.deleteAllForAccount cards.length,some [])

section Cards
variable {cards : List Card} {id : String}

theorem changeChange {f g : Card → Card} (keeps : ∀ c, (g c).record.id = c.record.id) : change id f (change id g cards) = change id (f ∘ g) cards := by
  rw [change, change, change, List.map_map]
  apply List.map_congr_left
  intro c _
  simp only [Function.comp_apply]
  split
  case isTrue named => exact if_pos ((keeps c).trans named)
  case isFalse => rfl

theorem changeCongr {f g : Card → Card} (same : ∀ c ∈ cards, c.record.id = id → f c = g c) : change id f cards = change id g cards := by
  apply List.map_congr_left
  intro c mem
  split
  case isTrue named => exact same c mem named
  case isFalse => rfl

theorem foundOnce (distinct : (cards.map (fun c => c.record.id)).Nodup) {c : Card} (found : find id cards = some c) :
    c ∈ cards ∧ c.record.id = id ∧ ∀ other ∈ cards, other.record.id = id → other = c := by
  have mem : c ∈ cards := List.mem_of_find?_eq_some found
  have named : c.record.id = id := by simpa using List.find?_some found
  refine ⟨mem,named,?_⟩
  intro other stands same
  exact List.inj_on_of_nodup_map distinct stands mem (same.trans named.symm)

end Cards

section Sessions
variable {account : AccountId} {s m : Tables} {cards : List Card} {α : Type} {next : Unit → Work α} {post : Except SqlError α → Tables → Prop}

theorem insertRowEnds (fails : ∀ e m, post (.error e) m) (shelved : Shelved account s m cards) {rec' : Installation}
    (goes : ∀ m', Shelved account s m' (cards ++ [⟨rec',[]⟩]) → Ends (next ()) m' post) : Ends (insertRow account rec' >>= next) m post := by
  refine endsStatement (fails _ _) (fun _ _ => fails _ _) ?_
  intro u m' inserted
  split at inserted <;> try contradiction
  rename_i free
  cases inserted
  refine goes _ (insertedShelved shelved ?_)
  intro row stands same
  exact free (List.any_eq_true.mpr ⟨row,stands,decide_eq_true same⟩)

theorem eraseContentEnds (fails : ∀ e m, post (.error e) m) (shelved : Shelved account s m cards) {id : String} {now revision : Int}
    (goes : ∀ m', Shelved account s m' (change id (erased now revision) cards) → Ends (next ()) m' post) :
    Ends (eraseContent account id now revision >>= next) m post := by
  unfold eraseContent
  rw [bind_assoc]
  refine endsExecute (fails _ _) (endsExecute (fails _ _) (goes _ ?_))
  dsimp only
  refine shelvedAs (revisionsShelved (rowShelved shelved id ?_) _) ?_
  · exact fun _ => rfl
  rw [change, change, List.map_map]
  apply List.map_congr_left
  intro c _
  simp only [Function.comp_apply]
  split
  case isTrue named => simp [erased, tombstone, named]
  case isFalse other => simp [other]

theorem purgeEnds (fails : ∀ e m, post (.error e) m) (shelved : Shelved account s m cards)
    (goes : ∀ m', Shelved account s m' (kept cards) → Ends (next ()) m' post) : Ends (purgeOldRemoved account >>= next) m post := by
  unfold purgeOldRemoved
  rw [bind_assoc]
  refine endsExecute (fails _ _) (endsExecute (fails _ _) (goes _ ?_))
  have records := ownedRecords shelved
  have bare := revisionsShelved shelved (fun id _ => decide (id ∈ doomed (owned account m)))
  have struck := @rowsShelved account s _ _ bare (fun id => decide (id ∈ doomed (owned account m))) (by
    intro c mem hit
    obtain ⟨old,_,rfl⟩ := List.mem_map.mp mem
    rw [List.filter_eq_nil_iff]
    intro _ _
    simp [of_decide_eq_true hit])
  refine shelvedAs struck ?_
  rw [List.filter_map, kept, ← records]
  have untouched : ∀ c : Card, c.record.id ∉ doomed (owned account m) →
      { c with history := c.history.filter (fun _ => !decide (c.record.id ∈ doomed (owned account m))) } = c := by
    intro c live
    simp [live]
  have same : cards.filter ((fun c : Card => !decide (c.record.id ∈ doomed (owned account m))) ∘
      fun c : Card => { c with history := c.history.filter (fun _ => !decide (c.record.id ∈ doomed (owned account m))) }) =
        cards.filter (fun c => c.record.id ∉ doomed (owned account m)) := by
    apply List.filter_congr
    intro c _
    simp
  rw [same]
  refine (List.map_congr_left ?_).trans (List.map_id _)
  intro c mem
  exact untouched c (by simpa using (List.mem_filter.mp mem).2)

theorem archiveEnds (fails : ∀ e m, post (.error e) m) (shelved : Shelved account s m cards) {now : Int} {card : Card}
    (distinct : (cards.map (fun c => c.record.id)).Nodup) (found : find card.record.id cards = some card)
    (goes : ∀ m', Shelved account s m' (change card.record.id (fun c => { c with history := archived now c }) cards) → Ends (next ()) m' post) :
    Ends (archive account card.record now >>= next) m post := by
  obtain ⟨mem,_,once⟩ := foundOnce distinct found
  unfold archive
  rw [bind_assoc]
  refine endsStatement (fails _ _) (fun _ _ => fails _ _) ?_
  intro u m' inserted
  split at inserted <;> try contradiction
  cases inserted
  refine endsExecute (fails _ _) (goes _ ?_)
  dsimp only
  refine shelvedAs (revisionsShelved (filedShelved shelved ⟨card,mem,rfl⟩) _) ?_
  rw [change, change, List.map_map]
  apply List.map_congr_left
  intro c stands
  simp only [Function.comp_apply]
  split
  case isTrue named =>
    rw [once c stands named]
    refine congrArg (Card.mk card.record) (List.filter_congr ?_)
    intro entry _
    have low : decide (entry.revision ≤ card.record.revision - maxRevisions) = !decide (card.record.revision - maxRevisions < entry.revision) := by
      rw [← decide_not, decide_eq_decide, Int.not_lt]
    simpa using low
  case isFalse other => simp [other]

def Written (account : AccountId) (s : Tables) (laid : Option (List Card)) (m : Tables) : Prop :=
  match laid with
  | none => m = s
  | some cards => Shelved account s m (kept cards) ∧ (cards.map (fun c => c.record.id)).Nodup

/- How an operation ends: as it does on the shelf of its account, or with an error and the tables as they were. -/
def Placed (account : AccountId) (s : Tables) {α : Type} (answer : α → Outcome) (laid : Outcome × Option (List Card)) (result : Except SqlError α)
    (m : Tables) : Prop :=
  match result with
  | .ok a => answer a = laid.1 ∧ Written account s laid.2 m
  | .error _ => m = s

theorem shelvedHere (sound : Sound s) (account : AccountId) : Shelved account s s (shelf account s) := ⟨rfl,fun _ _ => rfl,sound⟩

theorem cardRecords (account : AccountId) (s : Tables) : (shelf account s).map Card.record = owned account s := by
  rw [shelf, List.map_map]
  exact List.map_id _

theorem cardIds (sound : Sound s) (account : AccountId) : ((shelf account s).map (fun c => c.record.id)).Nodup := by
  have ids := ownedIds sound account
  rwa [← cardRecords, List.map_map] at ids

def Leaves (account : AccountId) (s : Tables) {β : Type} (answer : β → Outcome) (placed : Outcome × Option (List Card)) :
    Except SqlError (Left β) → Tables → Prop
  | .ok (.commit b), m => Placed account s answer placed (.ok b) m
  | .ok (.rollback b), _ => Placed account s answer placed (.ok b) s
  | .error _, _ => True

theorem placedEnds {β : Type} {answer : β → Outcome} {placed : Outcome × Option (List Card)} {body : Work (Left β)}
    (ends : Ends body s (Leaves account s answer placed)) : Ends (transaction body) s (Placed account s answer placed) := by
  refine endsTransaction rfl (endsMono ends ?_)
  rintro (_ | _ | _) m left
  · exact rfl
  · exact left
  · exact left

/- The ends of a transaction: nothing was to be done, or a write is followed by a purge. -/
theorem stillEnds {β : Type} {answer : β → Outcome} {b : β} {placed : Outcome × Option (List Card)} (places : placed = (answer b,none)) :
    Ends (pure (Left.rollback b)) m (Leaves account s answer placed) := by
  rw [places]
  exact endsPure ⟨rfl,rfl⟩

theorem purgedEnds {β : Type} {answer : β → Outcome} {b : β} {placed : Outcome × Option (List Card)} (shelved : Shelved account s m cards)
    (places : placed = (answer b,some cards)) :
    Ends (do purgeOldRemoved account; pure (Left.commit b)) m (Leaves account s answer placed) := by
  rw [places]
  have distinct := cardIds shelved.sound account
  rw [shelved.own] at distinct
  exact purgeEnds (fun _ _ => trivial) shelved (fun _ purged => endsPure ⟨rfl,purged,distinct⟩)

theorem createEnds (sound : Sound s) (account : AccountId) (now : Int) (input : AdmittedInput) (uuid : String) :
    Ends (create account input uuid now) s (Placed account s .create (lay now (shelf account s) (.create input uuid))) := by
  obtain ⟨placed,places⟩ : ∃ placed, lay now (shelf account s) (.create input uuid) = placed := ⟨_,rfl⟩
  rw [places]
  rw [lay, cardRecords] at places
  unfold create
  refine placedEnds (endsSelect trivial ?_)
  split
  case isTrue full => exact stillEnds (places.symm.trans (if_pos full))
  case isFalse room =>
    exact insertRowEnds (fun _ _ => trivial) (shelvedHere sound account)
      (fun _ inserted => purgedEnds inserted (places.symm.trans (if_neg room)))

theorem softDeleteEnds (sound : Sound s) (account : AccountId) (now : Int) (id : String) (expectedRevision : Option Int) :
    Ends (softDelete account id expectedRevision now) s
      (Placed account s .softDelete (lay now (shelf account s) (.softDelete id expectedRevision))) := by
  obtain ⟨placed,places⟩ : ∃ placed, lay now (shelf account s) (.softDelete id expectedRevision) = placed := ⟨_,rfl⟩
  rw [places]
  rw [lay] at places
  unfold softDelete
  refine placedEnds (endsSelect trivial ?_)
  rw [fetchCard, ← find]
  cases found : find id (shelf account s) with
  | none =>
    rw [found] at places
    exact stillEnds places.symm
  | some c =>
    obtain ⟨_,named,_⟩ := foundOnce (cardIds sound account) found
    simp only [found] at places
    dsimp only [Option.map_some]
    split
    case isTrue stale => exact stillEnds (places.symm.trans (if_pos stale))
    case isFalse fresh =>
      rw [if_neg fresh] at places
      split
      case isTrue live =>
        rw [if_pos live, ← named] at places
        exact eraseContentEnds (fun _ _ => trivial) (shelvedHere sound account) (fun _ erased => purgedEnds erased places.symm)
      case isFalse gone =>
        rw [if_neg gone] at places
        rw [← places]
        exact endsPure ⟨rfl,rfl⟩

theorem duplicateEnds (sound : Sound s) (account : AccountId) (now : Int) (id : String) (name : Option String) (uuid : String) :
    Ends (duplicate account id name uuid now) s (Placed account s .duplicate (lay now (shelf account s) (.duplicate id name uuid))) := by
  obtain ⟨placed,places⟩ : ∃ placed, lay now (shelf account s) (.duplicate id name uuid) = placed := ⟨_,rfl⟩
  rw [places]
  rw [lay] at places
  unfold duplicate
  refine placedEnds (endsSelect trivial ?_)
  rw [fetchCard, ← find]
  cases found : find id (shelf account s) with
  | none =>
    rw [found] at places
    exact stillEnds places.symm
  | some src =>
    simp only [found, cardRecords] at places
    dsimp only [Option.map_some]
    split
    case isTrue gone => exact stillEnds (places.symm.trans (if_pos gone))
    case isFalse live =>
      rw [if_neg live] at places
      refine endsSelect trivial ?_
      split
      case isTrue full => exact stillEnds (places.symm.trans (if_pos full))
      case isFalse room =>
        exact insertRowEnds (fun _ _ => trivial) (shelvedHere sound account)
          (fun _ inserted => purgedEnds inserted (places.symm.trans (if_neg room)))

/- The import stands in one transaction: the first row that is refused undoes the earlier ones. -/
theorem insertAllEnds {β : Type} {next : List Installation → Work β} {post : Except SqlError β → Tables → Prop} (fails : ∀ e m, post (.error e) m)
    {now : Int} {inputs : List (InstallationInput × String)} {m : Tables} {cards : List Card} (shelved : Shelved account s m cards)
    (goes : ∀ m', Shelved account s m' (cards ++ (drafts now inputs).map (fun rec => ⟨rec,[]⟩)) → Ends (next (drafts now inputs)) m' post) :
    Ends (insertAll account now inputs >>= next) m post := by
  induction inputs generalizing m cards next with
  | nil =>
    rw [insertAll, pure_bind]
    exact goes m (by rw [drafts, List.map_nil, List.map_nil, List.append_nil]; exact shelved)
  | cons p rest ih =>
    obtain ⟨input,uuid⟩ := p
    simp only [insertAll, bind_assoc, pure_bind]
    refine insertRowEnds fails shelved ?_
    intro m' inserted
    refine ih inserted ?_
    intro m'' all
    refine goes m'' (shelvedAs all ?_)
    rw [List.append_assoc]
    rfl

theorem importAllEnds (sound : Sound s) (account : AccountId) (now : Int) (inputs : List (AdmittedInput × String)) :
    Ends (importAll account (unwrapped inputs) now) s (Placed account s .importAll (lay now (shelf account s) (.importAll inputs))) := by
  obtain ⟨placed,places⟩ : ∃ placed, lay now (shelf account s) (.importAll inputs) = placed := ⟨_,rfl⟩
  have length : (unwrapped inputs).length = inputs.length := List.length_map _
  rw [places]
  rw [lay, cardRecords, ← length] at places
  unfold importAll
  refine placedEnds (endsSelect trivial ?_)
  split
  case isTrue full => exact stillEnds (places.symm.trans (if_pos full))
  case isFalse room =>
    exact insertAllEnds (fun _ _ => trivial) (shelvedHere sound account)
      (fun _ inserted => purgedEnds inserted (places.symm.trans (if_neg room)))

theorem deleteAllForAccountEnds (sound : Sound s) (account : AccountId) (now : Int) :
    Ends (deleteAllForAccount account) s (Placed account s .deleteAllForAccount (lay now (shelf account s) .deleteAllForAccount)) := by
  rw [lay]
  unfold deleteAllForAccount
  refine placedEnds (endsExecute trivial (endsExecute trivial (endsPure ⟨?_,?_,List.nodup_nil⟩)))
  · exact congrArg Outcome.deleteAllForAccount (List.length_map _).symm
  · dsimp only
    refine shelvedAs (rowsShelved (revisionsShelved (shelvedHere sound account) _) ?_) ?_
    · intro c mem _
      obtain ⟨old,_,rfl⟩ := List.mem_map.mp mem
      exact List.filter_eq_nil_iff.mpr (fun _ _ => by simp)
    · exact List.filter_eq_nil_iff.mpr (fun _ _ => by simp)

/- The columns that an update writes are those of its new record. -/
theorem renewedCard {card : Card} {input : InstallationInput} {now : Int} {status : Status} (distinct : (cards.map (fun c => c.record.id)).Nodup)
    (found : find card.record.id cards = some card) {history : Card → List RevisionEntry}
    (kept : history card = if card.record.status = .removed then card.history else archived now card) :
    change card.record.id (fun c => { c with record := { c.record with
      content := (revised input card.record now status).content, status := (revised input card.record now status).status
      updatedAt := (revised input card.record now status).updatedAt, revision := (revised input card.record now status).revision } })
        (change card.record.id (fun c => ⟨c.record,history c⟩) cards) = change card.record.id (renewed input now status) cards := by
  obtain ⟨_,_,once⟩ := foundOnce distinct found
  refine (changeChange ?_).trans (changeCongr ?_)
  · exact fun _ => rfl
  · intro c mem named
    rw [once c mem named, Function.comp_apply, renewed, ← kept]
    rfl

theorem replaceEnds (sound : Sound s) {card : Card} {input : InstallationInput} {now : Int} {status : Status} {placed : Outcome × Option (List Card)}
    (found : find card.record.id (shelf account s) = some card)
    (places : (if status = .removed then (Outcome.update (.updated (tombstone card.record now (card.record.revision + 1))),
        some (change card.record.id (erased now (card.record.revision + 1)) (shelf account s)))
      else (Outcome.update (.updated (revised input card.record now status)),
        some (change card.record.id (renewed input now status) (shelf account s)))) = placed) : Ends (replace account card.record input now status) s (Leaves account s Outcome.update placed) := by
  have distinct := cardIds sound account
  have shelved := shelvedHere sound account
  have written : ∀ {m : Tables} {history : Card → List RevisionEntry},
      Shelved account s m (change card.record.id (fun c => ⟨c.record,history c⟩) (shelf account s)) →
      (history card = if card.record.status = .removed then card.history else archived now card) →
      placed = (Outcome.update (.updated (revised input card.record now status)),
        some (change card.record.id (renewed input now status) (shelf account s))) → Ends (do
        execute (fun s => ((),updateRow account card.record.id (fun rec => { rec with
          content := (revised input card.record now status).content, status := (revised input card.record now status).status
          updatedAt := (revised input card.record now status).updatedAt
          revision := (revised input card.record now status).revision }) s))
        purgeOldRemoved account
        pure (Left.commit (.updated (revised input card.record now status)))) m (Leaves account s Outcome.update placed) := by
    intro m history written kept places
    refine endsExecute trivial ?_
    dsimp only
    refine purgedEnds (shelvedAs (rowShelved written card.record.id ?_) ?_) places
    · exact fun _ => rfl
    · exact renewedCard distinct found kept
  unfold replace
  split
  case isTrue ends =>
    rw [if_pos ends] at places
    exact eraseContentEnds (fun _ _ => trivial) shelved (fun _ erased => purgedEnds erased places.symm)
  case isFalse stays =>
    rw [if_neg stays] at places
    split
    case isTrue live =>
      refine archiveEnds (fun _ _ => trivial) shelved distinct found ?_
      exact fun _ archived => written archived (if_neg live).symm places.symm
    case isFalse gone =>
      have unchanged : change card.record.id (fun c => ⟨c.record,c.history⟩) (shelf account s) = shelf account s := by
        refine (List.map_congr_left ?_).trans (List.map_id _)
        exact fun c _ => ite_self c
      exact written (shelvedAs shelved unchanged.symm) (if_pos (not_not.mp gone)).symm places.symm

theorem updateEnds (sound : Sound s) (account : AccountId) (now : Int) (id : String) (expectedRevision : Int) (input : InstallationInput) :
    Ends (update account id expectedRevision input now) s
      (Placed account s .update (lay now (shelf account s) (.update id expectedRevision input))) := by
  obtain ⟨placed,places⟩ : ∃ placed, lay now (shelf account s) (.update id expectedRevision input) = placed := ⟨_,rfl⟩
  rw [places]
  rw [lay] at places
  unfold update
  refine placedEnds (endsSelect trivial ?_)
  rw [fetchCard, ← find]
  cases found : find id (shelf account s) with
  | none =>
    rw [found] at places
    exact stillEnds places.symm
  | some card =>
    obtain ⟨_,rfl,_⟩ := foundOnce (cardIds sound account) found
    simp only [found, cardRecords] at places
    dsimp only [Option.map_some]
    split
    case isTrue stale => exact stillEnds (places.symm.trans (if_pos stale))
    case isFalse fresh =>
      rw [if_neg fresh] at places
      split
      case isTrue revival =>
        refine endsSelect trivial ?_
        split
        case isTrue full => exact stillEnds (places.symm.trans (if_pos ⟨revival.1,revival.2,of_decide_eq_true full⟩))
        case isFalse room =>
          rw [if_neg (fun all => room (decide_eq_true all.2.2))] at places
          exact replaceEnds sound found places
      case isFalse same =>
        rw [if_neg (fun all => same ⟨all.1,all.2.1⟩)] at places
        rw [pure_bind, if_neg Bool.false_ne_true]
        exact replaceEnds sound found places

theorem actEnds (sound : Sound s) (account : AccountId) (now : Int) (op : Op) :
    Ends (act account now op) s (Placed account s id (lay now (shelf account s) op)) := by
  have renamed : ∀ {β : Type} {x : Work β} {answer : β → Outcome} {placed : Outcome × Option (List Card)}, Ends x s (Placed account s answer placed) →
      Ends (x >>= fun b => pure (answer b)) s (Placed account s id placed) := by
    intro β x answer placed ends
    refine endsGives (endsMono ends ?_)
    rintro (_ | _) m left
    · exact left
    · exact left
  cases op with
  | create input uuid => exact renamed (createEnds sound account now input uuid)
  | update id expectedRevision input => exact renamed (updateEnds sound account now id expectedRevision input)
  | softDelete id expectedRevision => exact renamed (softDeleteEnds sound account now id expectedRevision)
  | duplicate id name uuid => exact renamed (duplicateEnds sound account now id name uuid)
  | importAll inputs => exact renamed (importAllEnds sound account now inputs)
  | deleteAllForAccount => exact renamed (deleteAllForAccountEnds sound account now)

/- A call fails and changes nothing, or acts on the shelf of its account. -/
theorem stepPlaced (sound : Sound s) (call : Call) : (step s call).2 = s ∧ (∃ e, (step s call).1 = .error e) ∨
    (step s call).1 = .ok (lay call.now (shelf call.account s) call.op).1 ∧
      Written call.account s (lay call.now (shelf call.account s) call.op).2 (step s call).2 := by
  have ran := actEnds sound call.account call.now call.op call.faults
  rw [← step] at ran
  cases result : (step s call).1 with
  | error e =>
    rw [result] at ran
    exact .inl ⟨ran,e,rfl⟩
  | ok out =>
    rw [result] at ran
    exact .inr ⟨congrArg Except.ok ran.1,ran.2⟩

theorem stepSound (sound : Sound s) (call : Call) : Sound (step s call).2 := by
  obtain ⟨same,_⟩ | ⟨_,written⟩ := stepPlaced sound call
  · rw [same]
    exact sound
  · unfold Written at written
    split at written
    · rw [written]
      exact sound
    · exact written.1.sound

theorem runSound (calls : List Call) : Sound (run calls) :=
  Machine.runInvariant Sound (fun _ call sound => stepSound sound call) ⟨by simp,by simp⟩ calls

end Sessions

end CadsTunnel.Installations
