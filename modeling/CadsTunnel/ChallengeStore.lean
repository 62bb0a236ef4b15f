import CadsTunnel.AsciiCase
import CadsTunnel.CanonicalValues
import CadsTunnel.DurableFiles
import CadsTunnel.OrderedMap
import CadsTunnel.ReceiptChain
import CadsTunnel.SplitText

/-! The challenge records that the nameserver answers a certificate authority from. Every change
is written through to a file, under the lock of the change, so that a host that loses power
comes up with records it had, and with none older than the last ones it had on disk. -/
namespace CadsTunnel.ChallengeStore
open OrderedMap Words AsciiCase SplitText DurableFiles

abbrev Records := BTreeMap String (List String)

inductive Mutation where
  | addTxt (name value : String)
  | setTxt (name value : String)
  | clear (name : String)

def Mutation.apply : Mutation → Records → Records
  | .addTxt name value, txt => txt.insert (lower name) (txt[lower name]?.getD [] ++ [value])
  | .setTxt name value, txt => txt.insert (lower name) [value]
  | .clear name, txt => txt.erase (lower name)

def isAsciiUppercase (b : UInt8) : Bool := 65 ≤ b && b ≤ 90

/- The responder asks with a name that is in lower case already. -/
def txt (records : Records) (name : String) : List String :=
  if (asBytes name).any isAsciiUppercase then records[lower name]?.getD [] else records[name]?.getD []

/- `Path::file_stem` and `Path::with_extension` of a file name. -/
def fileStem (name : String) : String := ((rsplitOnce '.' name).filter (·.1 ≠ "")).elim name Prod.fst

def withExtension (extension name : String) : String := fileStem name ++ String.singleton '.' ++ extension

/- `serde_json` for the records; the entries of a hash map stand in an order of its own. -/
structure RecordsText where
  Order : Type
  toVec : Order → Records → Bytes
  fromSlice : Bytes → Option Records
  reads : ∀ order records, fromSlice (toVec order records) = some records
  filled : ∀ order records, toVec order records ≠ []

/- The disk, and the records of the process while one runs. -/
structure Host where
  disk : Disk String UInt8 := {}
  process : Option Records := none

inductive Event (Order : Type) where
  | start (order : Order) (outcomes : List Outcome)
  | mutate (m : Mutation) (order : Order) (outcomes : List Outcome)
  | losePower (back : Nat) (left : Nat → Bytes)

inductive Reply where
  | opened (records : Records)
  | corrupt
  | failed
  | done

section Store
variable (texts : RecordsText) (path : String)

def persistLocked (order : texts.Order) (records : Records) : Io String UInt8 Unit :=
  replace (withExtension "tmp" path) path (texts.toVec order records)

/- A file that is missing or empty holds no records. -/
def load : Option Bytes → Option Records
  | none | some [] => some ∅
  | some bytes => texts.fromSlice bytes

def openStore (order : texts.Order) : Io String UInt8 (Option Records) := do
  let bytes ← call (fun disk => (disk.read path,disk)) (fun _ disk => disk)
  match load texts bytes with
  | none => pure none
  | some records =>
    persistLocked texts path order records
    pure (some records)

def started (disk : Disk String UInt8) : Except Stop (Option Records) → Reply × Host
  | .ok (some records) => (.opened records,⟨disk,some records⟩)
  | .ok none => (.corrupt,⟨disk,none⟩)
  | .error _ => (.failed,⟨disk,none⟩)

/- A change that does not get to the disk is kept in memory and reported. -/
def step (host : Host) : Event texts.Order → Reply × Host
  | .start order outcomes =>
    let opened := openStore texts path order (host.disk,outcomes)
    started opened.2.1 opened.1
  | .mutate m order outcomes =>
    match host.process with
    | none => (.done,host)
    | some records =>
      let persisted := persistLocked texts path order (m.apply records) (host.disk,outcomes)
      (.done,⟨persisted.2.1,if persisted.1 = .error .halted then none else some (m.apply records)⟩)
  | .losePower back left => (.done,⟨host.disk.losePower back left,none⟩)

def run (events : List (Event texts.Order)) : Host := events.foldl (fun host event => (step texts path host event).2) {}

/- The records since the last ones that are on disk for good, the last ones first. -/
def since (host : Host) (records : List Records) : Event texts.Order → List Records
  | .start order outcomes =>
    match (openStore texts path order (host.disk,outcomes)).1 with
    | .ok (some found) => [found]
    | _ => records
  | .mutate m order outcomes =>
    match host.process with
    | none => records
    | some before =>
      if (persistLocked texts path order (m.apply before) (host.disk,outcomes)).1 = .ok () then [m.apply before] else m.apply before :: records
  | .losePower _ _ => records

def track (now : Host × List Records) (event : Event texts.Order) : Host × List Records :=
  ((step texts path now.1 event).2,since texts path now.1 now.2 event)

def unsettled (events : List (Event texts.Order)) : List Records := (events.foldl (track texts path) ({},[∅])).2

end Store
section Names

theorem withExtensionSelf {name extension : String} (clean : '.' ∉ extension.toList) :
    withExtension extension name = name ↔ ∃ stem, stem ≠ "" ∧ name = stem ++ String.singleton '.' ++ extension := by
  have longer : name ++ String.singleton '.' ++ extension ≠ name := by
    intro same
    have lengths := congrArg (fun s => s.toList.length) same
    simp only [String.toList_append, String.toList_singleton, List.length_append, List.length_singleton] at lengths
    omega
  unfold withExtension fileStem
  cases parts : rsplitOnce '.' name with
  | none =>
    constructor
    · intro same
      exact absurd same longer
    · rintro ⟨stem,-,rfl⟩
      rw [splitLast clean] at parts
      contradiction
  | some both =>
    obtain ⟨stem,last⟩ := both
    obtain ⟨whole,-⟩ := splitLastParts parts
    by_cases empty : stem = ""
    · rw [Option.filter_some, if_neg (by simp [empty]), Option.elim_none]
      constructor
      · intro same
        exact absurd same longer
      · rintro ⟨other,filled,same⟩
        rw [same, splitLast clean] at parts
        cases parts
        exact absurd empty filled
    · rw [Option.filter_some, if_pos (by simpa using empty), Option.elim_some]
      constructor
      · intro same
        exact ⟨stem,empty,same.symm⟩
      · rintro ⟨other,filled,same⟩
        rw [same, splitLast clean] at parts
        cases parts
        exact same.symm

end Names
section Recovery
variable {texts : RecordsText} {path : String}

theorem loadWritten (order : texts.Order) (records : Records) : load texts (some (texts.toVec order records)) = some records := by
  cases written : texts.toVec order records with
  | nil => exact absurd written (texts.filled order records)
  | cons b rest => rw [load, ← written, texts.reads]; simp

/- Whatever directory is left, the file reads as some of the records. -/
def Recoverable (texts : RecordsText) (path : String) (disk : Disk String UInt8) (records : List Records) : Prop :=
  Settled (withExtension "tmp" path) path (fun image => ∃ m ∈ records, load texts image = some m) disk

theorem recoverableStart : Recoverable texts path {} [∅] := by
  refine ⟨?_,?_,?_,?_⟩
  · intro dir mem
    cases List.mem_singleton.mp mem
    exact ⟨∅,List.mem_singleton_self _,rfl⟩
  · intro dir mem i goes
    cases List.mem_singleton.mp mem
    contradiction
  · intro dir mem i goes
    cases List.mem_singleton.mp mem
    contradiction
  · intro i goes
    contradiction

theorem recoverablePersisted {disk : Disk String UInt8} {records : List Records} (settled : Recoverable texts path disk records)
    (aside : withExtension "tmp" path ≠ path) (order : texts.Order) (m : Records) (outcomes : List Outcome) :
    Recoverable texts path (persistLocked texts path order m (disk,outcomes)).2.1 (m :: records) ∧
      ((persistLocked texts path order m (disk,outcomes)).1 = .ok () →
        Recoverable texts path (persistLocked texts path order m (disk,outcomes)).2.1 [m]) := by
  obtain ⟨always,ended⟩ := replaceSettles settled aside (texts.toVec order m) outcomes
  constructor
  · refine settledMono always ?_
    rintro image (⟨found,mem,reads⟩ | rfl)
    · exact ⟨found,List.mem_cons_of_mem _ mem,reads⟩
    · exact ⟨m,List.mem_cons_self,loadWritten order m⟩
  · intro done
    refine settledMono (ended done) ?_
    rintro image rfl
    exact ⟨m,List.mem_singleton_self _,loadWritten order m⟩

theorem recoverableRead {disk : Disk String UInt8} {records : List Records} (settled : Recoverable texts path disk records) :
    ∃ m ∈ records, load texts (disk.read path) = some m := settledRead settled

/- Opening reads the records that are there and writes them again. -/
theorem recoverableOpened {disk : Disk String UInt8} {records : List Records} (settled : Recoverable texts path disk records)
    (aside : withExtension "tmp" path ≠ path) (order : texts.Order) (outcomes : List Outcome) :
    Recoverable texts path (openStore texts path order (disk,outcomes)).2.1 records ∧
      (openStore texts path order (disk,outcomes)).1 ≠ .ok none ∧
      ∀ m, (openStore texts path order (disk,outcomes)).1 = .ok (some m) →
        m ∈ records ∧ Recoverable texts path (openStore texts path order (disk,outcomes)).2.1 [m] := by
  obtain ⟨found,mem,reads⟩ := recoverableRead settled
  have opened (rest : List Outcome) : openStore texts path order (disk,.done :: rest) =
      (persistLocked texts path order found >>= fun _ => pure (some found)) (disk,rest) := by
    have started : openStore texts path order (disk,.done :: rest) =
      ((match load texts (disk.read path) with
        | none => pure none
        | some records => do
          persistLocked texts path order records
          pure (some records)) : Io String UInt8 (Option Records)) (disk,rest) := rfl
    rw [started, reads]
  rcases outcomes with - | ⟨- | n,outcomes⟩
  · exact ⟨settled,nofun,nofun⟩
  · rw [opened]
    obtain ⟨always,ended⟩ := recoverablePersisted settled aside order found outcomes
    have same : Recoverable texts path (persistLocked texts path order found (disk,outcomes)).2.1 records := by
      refine settledMono always ?_
      rintro image ⟨m,among,loads⟩
      rcases List.mem_cons.mp among with rfl | later
      · exact ⟨m,mem,loads⟩
      · exact ⟨m,later,loads⟩
    have bound : (persistLocked texts path order found >>= fun _ => pure (some found)) (disk,outcomes) =
      ((persistLocked texts path order found (disk,outcomes)).1.map fun _ => some found,(persistLocked texts path order found (disk,outcomes)).2) := by
      have split : (persistLocked texts path order found >>= fun _ => pure (some found)) (disk,outcomes) =
        (ExceptT.bindCont (fun _ => pure (some found)) (persistLocked texts path order found (disk,outcomes)).1 :
          StateM (Disk String UInt8 × List Outcome) (Except Stop (Option Records))) (persistLocked texts path order found (disk,outcomes)).2 := rfl
      rw [split]
      cases (persistLocked texts path order found (disk,outcomes)).1 <;> rfl
    rw [bound]
    refine ⟨same,?_,?_⟩
    · cases (persistLocked texts path order found (disk,outcomes)).1 <;> simp [Except.map]
    · intro m
      cases result : (persistLocked texts path order found (disk,outcomes)).1 with
      | error stop => simp [Except.map]
      | ok done =>
        intro eq
        simp only [Except.map, Except.ok.injEq, Option.some.injEq] at eq
        exact ⟨eq ▸ mem,eq ▸ ended result⟩
  · exact ⟨settled,nofun,nofun⟩

/- What holds between two events of a host. -/
structure Kept (texts : RecordsText) (path : String) (host : Host) (records : List Records) : Prop where
  recoverable : Recoverable texts path host.disk records
  running : ∀ m, host.process = some m → m ∈ records

theorem keptStep {host : Host} {records : List Records} (kept : Kept texts path host records) (aside : withExtension "tmp" path ≠ path)
    (event : Event texts.Order) : Kept texts path (step texts path host event).2 (since texts path host records event) := by
  cases event with
  | start order outcomes =>
    obtain ⟨same,sound,opened⟩ := recoverableOpened kept.recoverable aside order outcomes
    rw [step, since]
    cases result : (openStore texts path order (host.disk,outcomes)).1 with
    | error stop => exact ⟨same,nofun⟩
    | ok found =>
      cases found with
      | none => exact absurd result sound
      | some m =>
        refine ⟨(opened m result).2,fun other same => ?_⟩
        cases Option.some.inj same
        exact List.mem_singleton_self _
  | mutate m order outcomes =>
    rw [step, since]
    cases running : host.process with
    | none => exact kept
    | some before =>
      obtain ⟨always,ended⟩ := recoverablePersisted kept.recoverable aside order (m.apply before) outcomes
      dsimp only
      have own {other : Records} (same : (if (persistLocked texts path order (m.apply before) (host.disk,outcomes)).1 = .error .halted then none
          else some (m.apply before)) = some other) : other = m.apply before := by
        split at same
        · contradiction
        · exact (Option.some.inj same).symm
      by_cases persisted : (persistLocked texts path order (m.apply before) (host.disk,outcomes)).1 = .ok ()
      · rw [if_pos persisted]
        exact ⟨ended persisted,fun other same => List.mem_singleton.mpr (own same)⟩
      · rw [if_neg persisted]
        exact ⟨always,fun other same => own same ▸ List.mem_cons_self⟩
  | losePower back left => exact ⟨settledLost kept.recoverable back left,nofun⟩

theorem keptRun (aside : withExtension "tmp" path ≠ path) (events : List (Event texts.Order)) :
    Kept texts path (run texts path events) (unsettled texts path events) := by
  have each (now : Host × List Records) (kept : Kept texts path now.1 now.2) :
      Kept texts path (events.foldl (fun host event => (step texts path host event).2) now.1) (events.foldl (track texts path) now).2 := by
    induction events generalizing now with
    | nil => exact kept
    | cons event rest ih => exact ih (track texts path now event) (keptStep kept aside event)
  exact each ({},[∅]) ⟨recoverableStart,nofun⟩

end Recovery
/- The text of the records with their names in order, and a parser that knows such texts and nothing else. -/
def jsonOf (records : Records) : Json.Value := .object (records.toList.map fun e => (e.1,.array (e.2.map .string)))

theorem stringsSorted (values : List String) : Json.sortedItems (values.map .string) = values.map .string := by
  rw [Json.sortedItemsMap, List.map_map]
  rfl

theorem jsonInjective {floats : Json.FloatText} {records others : Records}
    (same : Json.canonicalJson floats (jsonOf records) = Json.canonicalJson floats (jsonOf others)) : records = others := by
  have sorted := Json.canonicalJsonDetermines same
  have kept (m : Records) : Json.sortedMembers (m.toList.map fun e => (e.1,Json.Value.array (e.2.map .string))) =
      m.toList.map fun e => (e.1,Json.Value.array (e.2.map .string)) := by
    rw [Json.sortedMembersMap, List.map_map]
    refine List.map_congr_left fun e _ => ?_
    rw [Function.comp, Json.Value.sorted, stringsSorted]
  rw [jsonOf, jsonOf, Json.Value.sorted, Json.Value.sorted, kept, kept, Json.Value.object.injEq] at sorted
  have perm := ((Json.sortMembersPerm _).symm.trans (sorted ▸ Json.sortMembersPerm _))
  have injective : Function.Injective fun e : String × List String => (e.1,Json.Value.array (e.2.map .string)) := by
    intro a b eq
    obtain ⟨keys,values⟩ := Prod.mk.inj eq
    refine Prod.ext keys (List.map_injective_iff.mpr (fun x y xy => Json.Value.string.inj xy) (Json.Value.array.inj values))
  have entries := (List.map_perm_map_iff injective).mp perm
  apply Std.ExtTreeMap.ext_getElem?
  intro k
  refine Option.ext fun v => ?_
  rw [← Std.ExtTreeMap.mem_toList_iff_getElem?_eq_some, ← Std.ExtTreeMap.mem_toList_iff_getElem?_eq_some]
  exact entries.symm.mem_iff

open Classical in
noncomputable def plainRecords (floats : Json.FloatText) : RecordsText where
  Order := Unit
  toVec _ records := asBytes (Json.canonicalJson floats (jsonOf records))
  fromSlice bytes := if written : ∃ records, asBytes (Json.canonicalJson floats (jsonOf records)) = bytes then some written.choose else none
  reads _ records := by
    have written : ∃ other, asBytes (Json.canonicalJson floats (jsonOf other)) = asBytes (Json.canonicalJson floats (jsonOf records)) :=
      ⟨records,rfl⟩
    rw [dif_pos written, jsonInjective (asBytesInjective written.choose_spec)]
  filled _ records empty := by
    have none' : Json.canonicalJson floats (jsonOf records) = "" := asBytesInjective (by rw [empty]; rfl)
    have chars := congrArg String.toList none'
    rw [Json.canonicalJson, String.toList_ofList, jsonOf, Json.writeCanonical] at chars
    simp at chars

/- A text that no parser of texts reads: it is none. -/
theorem unreadable : (plainRecords Receipts.pointZero).fromSlice [255] = none := by
  refine dif_neg ?_
  rintro ⟨records,same⟩
  have text := fromUtf8Bytes (Json.canonicalJson Receipts.pointZero (jsonOf records))
  rw [same] at text
  exact absurd text (by simp [show fromUtf8 [255] = none by decide +kernel])

section Places
variable (texts : RecordsText) (path : String)

/- A start never comes upon half a file, and the records it comes up with are the last ones that
got to the disk for good or ones that were on their way there. -/
def Recovers : Prop := ∀ (events : List (Event texts.Order)) (order : texts.Order) (outcomes : List Outcome),
  (step texts path (run texts path events) (.start order outcomes)).1 ≠ .corrupt ∧
    ∀ m, (step texts path (run texts path events) (.start order outcomes)).1 = .opened m → m ∈ unsettled texts path events

end Places
section Exactly
variable {texts : RecordsText} {path : String}

theorem recoversAside (aside : withExtension "tmp" path ≠ path) : Recovers texts path := by
  intro events order outcomes
  obtain ⟨-,sound,opened⟩ := recoverableOpened (keptRun aside events).recoverable aside order outcomes
  rw [step]
  cases result : (openStore texts path order ((run texts path events).disk,outcomes)).1 with
  | error stop => exact ⟨nofun,nofun⟩
  | ok found =>
    cases found with
    | none => exact absurd result sound
    | some m =>
      refine ⟨nofun,fun other same => ?_⟩
      cases same
      exact (opened m result).1

/- Where the file written aside is the file itself, it is cut short in its place. -/
theorem tornInPlace (same : withExtension "tmp" path = path) (order : texts.Order) {torn : Bytes} (part : torn ≠ [])
    (unread : texts.fromSlice torn = none) :
    (step texts path (run texts path [.start order [.done,.done],.losePower 0 fun _ => torn]) (.start order [.done])).1 = .corrupt := by
  have left : (run texts path [.start order [.done,.done],.losePower 0 fun _ => torn]).disk.read path = some torn := by
    have ended : (run texts path [.start order [.done,.done],.losePower 0 fun _ => torn]).disk =
        ((Disk.create (withExtension "tmp" path) {}).2).losePower 0 fun _ => torn := rfl
    rw [ended, same]
    simp [Disk.read, Disk.image, Disk.losePower, Disk.create, Disk.directories]
  have loads : load texts (some torn) = none := by
    cases torn with
    | nil => exact absurd rfl part
    | cons b rest => exact unread
  have opened : openStore texts path order ((run texts path [.start order [.done,.done],.losePower 0 fun _ => torn]).disk,[.done]) =
      ((match load texts ((run texts path [.start order [.done,.done],.losePower 0 fun _ => torn]).disk.read path) with
        | none => pure none
        | some records => do
          persistLocked texts path order records
          pure (some records)) : Io String UInt8 (Option Records))
        ((run texts path [.start order [.done,.done],.losePower 0 fun _ => torn]).disk,[]) := rfl
  rw [step, opened, left, loads]
  rfl

theorem recoversExactly (order : texts.Order) (torn : ∃ bytes, bytes ≠ [] ∧ texts.fromSlice bytes = none) :
    Recovers texts path ↔ ¬∃ stem, stem ≠ "" ∧ path = stem ++ String.singleton '.' ++ "tmp" := by
  rw [← withExtensionSelf (by decide)]
  constructor
  · intro recovers same
    obtain ⟨bytes,part,unread⟩ := torn
    exact (recovers _ order _).1 (tornInPlace same order part unread)
  · exact recoversAside

theorem recoversExactlyWitness : Recovers (plainRecords Receipts.pointZero) "acme.json" := by
  refine (recoversExactly () ⟨[255],by decide,unreadable⟩).mpr ?_
  rintro ⟨stem,-,same⟩
  have last := congrArg (fun s => s.toList.getLast?) same
  simp at last

/- What a change makes of the values of a name. -/
def answered (name : String) (values : List String) : Mutation → List String
  | .addTxt changed value => if eqIgnoreAsciiCase changed name then values ++ [value] else values
  | .setTxt changed value => if eqIgnoreAsciiCase changed name then [value] else values
  | .clear changed => if eqIgnoreAsciiCase changed name then [] else values

theorem lowerPlain {name : String} (plain : (asBytes name).any isAsciiUppercase = false) : lower name = name := by
  have each : ∀ c ∈ name.toList, c.toLower = c := by
    intro c mem
    rw [Char.toLower]
    split
    · rename_i upper
      exfalso
      have least : 65 ≤ c.val.toNat := UInt32.le_iff_toNat_le.mp upper.1
      have most : c.val.toNat ≤ 90 := UInt32.le_iff_toNat_le.mp upper.2
      have bytes : asBytes name = name.toList.flatMap String.utf8EncodeChar := by
        rw [← textBytes, String.ofList_toList]
      have one := @asBytesAscii [c] fun d mem => List.mem_singleton.mp mem ▸ most.trans_lt (by decide)
      rw [textBytes] at one
      have encoded : String.utf8EncodeChar c = [c.toNat.toUInt8] := by simpa using one
      have inside : c.toNat.toUInt8 ∈ asBytes name := by
        rw [bytes]
        exact List.mem_flatMap.mpr ⟨c,mem,by simp [encoded]⟩
      have hit := List.any_eq_false.mp plain _ inside
      have value : c.toNat.toUInt8.toNat = c.val.toNat := by
        change c.val.toNat % 256 = c.val.toNat
        omega
      refine hit ?_
      simp only [isAsciiUppercase, Bool.and_eq_true, decide_eq_true_eq, UInt8.le_iff_toNat_le, value]
      exact ⟨least,most⟩
    · rfl
  rw [lower, lowered, List.map_congr_left each, List.map_id', String.ofList_toList]

/- The way without a new text finds the same. -/
theorem txtLower (records : Records) (name : String) : txt records name = records[lower name]?.getD [] := by
  unfold txt
  split
  · rfl
  · rename_i plain
    rw [lowerPlain (by simpa using plain)]

theorem txtApplied (m : Mutation) (records : Records) (name : String) : txt (m.apply records) name = answered name (txt records name) m := by
  have same (changed : String) : eqIgnoreAsciiCase changed name = true ↔ lower name = lower changed := by
    rw [eqIgnoreAsciiCase, decide_eq_true_eq, lower, lower, String.ofList_inj, eq_comm]
  rw [txtLower, txtLower]
  cases m with
  | addTxt changed value =>
    rw [Mutation.apply, answered, lookupInsert]
    by_cases hit : lower name = lower changed
    · rw [if_pos hit, if_pos ((same changed).mpr hit), hit]
      rfl
    · rw [if_neg hit, if_neg (fun eq => hit ((same changed).mp eq))]
  | setTxt changed value =>
    rw [Mutation.apply, answered, lookupInsert]
    by_cases hit : lower name = lower changed
    · rw [if_pos hit, if_pos ((same changed).mpr hit)]
      rfl
    · rw [if_neg hit, if_neg (fun eq => hit ((same changed).mp eq))]
  | clear changed =>
    rw [Mutation.apply, answered, lookupErase]
    by_cases hit : lower name = lower changed
    · rw [if_pos hit, if_pos ((same changed).mpr hit)]
      rfl
    · rw [if_neg hit, if_neg (fun eq => hit ((same changed).mp eq))]

/- While a process runs it answers by the changes it was asked for, whether or not they got to the disk. -/
theorem answersHistory {host : Host} {records later : Records} (running : host.process = some records)
    (writes : List (Mutation × texts.Order × List Outcome))
    (alive : (writes.foldl (fun now w => (step texts path now (.mutate w.1 w.2.1 w.2.2)).2) host).process = some later) (name : String) :
    txt later name = (writes.map Prod.fst).foldl (answered name) (txt records name) := by
  induction writes generalizing host records with
  | nil =>
    rw [List.foldl_nil, running] at alive
    rw [Option.some.inj alive]
    rfl
  | cons w rest ih =>
    have stepped : (step texts path host (.mutate w.1 w.2.1 w.2.2)).2.process = some (w.1.apply records) ∨
        (step texts path host (.mutate w.1 w.2.1 w.2.2)).2.process = none := by
      rw [step, running]
      dsimp only
      split
      · exact .inr rfl
      · exact .inl rfl
    obtain going | ended := stepped
    · rw [ih going alive, List.map_cons, List.foldl_cons, txtApplied]
    · have over' (now : Host) (stopped : now.process = none) :
          (rest.foldl (fun now w => (step texts path now (.mutate w.1 w.2.1 w.2.2)).2) now).process = none := by
        clear ih alive
        induction rest generalizing now with
        | nil => exact stopped
        | cons w rest ih =>
          refine ih _ ?_
          dsimp only
          rw [step, stopped]
          exact stopped
      rw [List.foldl_cons, over' _ ended] at alive
      contradiction

theorem answersHistoryWitness :
    txt ((Mutation.addTxt "_acme-challenge.Host.test" "b").apply ((Mutation.setTxt "_acme-challenge.host.test" "a").apply ∅)) "_ACME-CHALLENGE.HOST.TEST" =
      ["a","b"] :=
  (@answersHistory (plainRecords Receipts.pointZero) "acme.json" ⟨{},some ∅⟩ ∅ _ rfl
    [(.setTxt "_acme-challenge.host.test" "a",(),[.short 0]),(.addTxt "_acme-challenge.Host.test" "b",(),[.done,.done,.done,.done,.short 0])] rfl
    "_ACME-CHALLENGE.HOST.TEST").trans (by decide)

end Exactly
end CadsTunnel.ChallengeStore
