import CadsTunnel.HexText
import CadsTunnel.Installations

/-! What holds of saved installations over whole runs: tombstones are bare, the shelves keep
their limits, a history is the states its record has been in, and accounts are apart. A record
that is deleted may be purged by its own deletion, behind others of the same time. -/
namespace CadsTunnel.Installations
open StableSort
open Ledger (AccountId)

section Purge
variable {cards : List Card}

theorem doomedRemoved {id : String} (hit : id ∈ doomed (cards.map Card.record)) : ∃ c ∈ cards, c.record.status = .removed ∧ c.record.id = id := by
  obtain ⟨rec,dropped,named⟩ := List.mem_map.mp hit
  have listed := (descendingPerm _).mem_iff.mp (List.mem_of_mem_drop dropped)
  obtain ⟨record,gone⟩ := List.mem_filter.mp (List.mem_reverse.mp listed)
  obtain ⟨c,mem,rfl⟩ := List.mem_map.mp record
  exact ⟨c,mem,of_decide_eq_true gone,named⟩

theorem keptLive (distinct : (cards.map (fun c => c.record.id)).Nodup) {c : Card} (mem : c ∈ cards) (live : c.record.status ≠ .removed) :
    c ∈ kept cards := by
  refine List.mem_filter.mpr ⟨mem,decide_eq_true ?_⟩
  intro hit
  obtain ⟨other,stands,gone,named⟩ := doomedRemoved hit
  exact live (List.inj_on_of_nodup_map distinct stands mem named ▸ gone)

theorem keptFew (cards : List Card) : (kept cards).countP (fun c => c.record.status = .removed) ≤ keepRemoved := by
  have sorted : (descending Installation.updatedAt ((cards.map Card.record).filter (fun rec => rec.status = .removed)).reverse).Perm
      ((cards.map Card.record).filter (fun rec => rec.status = .removed)).reverse := descendingPerm _
  have counts : (kept cards).countP (fun c => c.record.status = .removed) =
      (((cards.map Card.record).filter (fun rec => rec.status = .removed)).filter (fun rec => rec.id ∉ doomed (cards.map Card.record))).length := by
    rw [kept, List.countP_eq_length_filter, List.filter_filter, List.filter_filter, List.filter_map, List.length_map]
    congr 1
    apply List.filter_congr
    intro c _
    simp [Bool.and_comm]
  have reordered := ((sorted.trans (List.reverse_perm _)).filter (fun rec => rec.id ∉ doomed (cards.map Card.record))).length_eq
  rw [counts, ← reordered]
  generalize listed : descending Installation.updatedAt ((cards.map Card.record).filter (fun rec => rec.status = .removed)).reverse = xs at *
  have tail : (xs.drop keepRemoved).filter (fun rec => rec.id ∉ doomed (cards.map Card.record)) = [] := by
    rw [List.filter_eq_nil_iff]
    intro rec mem
    have hit : rec.id ∈ doomed (cards.map Card.record) := by
      rw [doomed, listed]
      exact List.mem_map_of_mem mem
    simp [hit]
  rw [← List.take_append_drop keepRemoved xs, List.filter_append, tail, List.append_nil]
  exact (List.length_filter_le _ _).trans (List.length_take_le _ _)

/- The removed records that a purge at `now` puts before the record. -/
def rivals (records : List Installation) (id : String) (now : Int) : Nat :=
  (records.takeWhile (fun rec => rec.id ≠ id)).countP (fun rec => rec.status = .removed ∧ now < rec.updatedAt) +
    (records.dropWhile (fun rec => rec.id ≠ id)).tail.countP (fun rec => rec.status = .removed ∧ now ≤ rec.updatedAt)

/- A card found by its id, between cards of other ids. -/
theorem foundBetween {id : String} {c : Card} (distinct : (cards.map (fun c => c.record.id)).Nodup) (found : find id cards = some c) :
    ∃ before after, cards = before ++ c :: after ∧ c.record.id = id ∧ (∀ other ∈ before, other.record.id ≠ id) ∧
      ∀ other ∈ after, other.record.id ≠ id := by
  obtain ⟨named,before,after,rfl,others⟩ := List.find?_eq_some_iff_append.mp found
  have same : c.record.id = id := by simpa using named
  refine ⟨before,after,rfl,same,fun other mem => by simpa using others other mem,?_⟩
  intro other mem equal
  rw [List.map_append, List.map_cons] at distinct
  exact (List.nodup_cons.mp (List.nodup_append.mp distinct).2.1).1 (List.mem_map.mpr ⟨other,mem,equal.trans same.symm⟩)

theorem changeBetween {id : String} {f : Card → Card} {before after : List Card} {c : Card} (named : c.record.id = id)
    (front : ∀ other ∈ before, other.record.id ≠ id) (back : ∀ other ∈ after, other.record.id ≠ id) :
    change id f (before ++ c :: after) = before ++ f c :: after := by
  have still : ∀ cards : List Card, (∀ other ∈ cards, other.record.id ≠ id) → change id f cards = cards := by
    intro cards others
    exact (List.map_congr_left (fun other mem => if_neg (others other mem))).trans (List.map_id _)
  have parts : change id f (before ++ c :: after) = change id f before ++ (if c.record.id = id then f c else c) :: change id f after := by
    rw [change, List.map_append, List.map_cons]
    rfl
  rw [parts, still before front, still after back, if_pos named]

theorem rivalsBetween {id : String} {now : Int} {before after : List Card} {c : Card} (named : c.record.id = id)
    (front : ∀ other ∈ before, other.record.id ≠ id) : rivals ((before ++ c :: after).map Card.record) id now =
      (before.map Card.record).countP (fun rec => rec.status = .removed ∧ now < rec.updatedAt) +
        (after.map Card.record).countP (fun rec => rec.status = .removed ∧ now ≤ rec.updatedAt) := by
  have ahead : ∀ rec ∈ before.map Card.record, decide (rec.id ≠ id) = true := by
    intro rec mem
    obtain ⟨other,stands,rfl⟩ := List.mem_map.mp mem
    exact decide_eq_true (front other stands)
  have stops : decide (c.record.id ≠ id) = false := by simpa using named
  rw [rivals, List.map_append, List.map_cons, List.takeWhile_append_of_pos ahead, List.dropWhile_append_of_pos ahead,
    List.takeWhile_cons_of_neg (by simpa using stops), List.dropWhile_cons_of_neg (by simpa using stops), List.append_nil, List.tail_cons]

/- A removed record is doomed behind enough removed records that are newer, or as new and in a later row. -/
theorem doomedPlace {before after : List Installation} {rec' : Installation} (distinct : ((before ++ rec' :: after).map Installation.id).Nodup)
    (gone : rec'.status = .removed) : rec'.id ∈ doomed (before ++ rec' :: after) ↔
      keepRemoved ≤ before.countP (fun rec => rec.status = .removed ∧ rec'.updatedAt < rec.updatedAt) +
        after.countP (fun rec => rec.status = .removed ∧ rec'.updatedAt ≤ rec.updatedAt) := by
  have records := List.Nodup.of_map Installation.id distinct
  have removed : (before ++ rec' :: after).filter (fun rec => rec.status = .removed) =
      before.filter (fun rec => rec.status = .removed) ++ rec' :: after.filter (fun rec => rec.status = .removed) := by
    rw [List.filter_append, List.filter_cons_of_pos (by simpa using gone)]
  have reversed : ((before ++ rec' :: after).filter (fun rec => rec.status = .removed)).reverse =
      (after.filter (fun rec => rec.status = .removed)).reverse ++ rec' :: (before.filter (fun rec => rec.status = .removed)).reverse := by
    rw [removed, List.reverse_append, List.reverse_cons, List.append_assoc, List.singleton_append]
  have apart := List.nodup_reverse.mpr (records.filter (fun rec => rec.status = .removed))
  rw [reversed] at apart
  have place := @behindFirst _ _ _ Installation.updatedAt _ _ _ apart keepRemoved
  rw [List.countP_reverse, List.countP_reverse, List.countP_filter, List.countP_filter] at place
  have counts : ∀ (p : Installation → Prop) [DecidablePred p] (xs : List Installation),
      xs.countP (fun rec => rec.status = .removed ∧ p rec) = xs.countP (fun rec => decide (p rec) && decide (rec.status = .removed)) := by
    intro p _ xs
    refine List.countP_congr (fun rec _ => ?_)
    rw [Bool.and_eq_true, decide_eq_true_eq, decide_eq_true_eq, decide_eq_true_eq]
    exact and_comm
  rw [counts, counts, Nat.add_comm, ← place, ← reversed, doomed]
  constructor
  case mpr => exact fun mem => List.mem_map_of_mem mem
  case mp =>
    intro mem
    obtain ⟨other,behind,same⟩ := List.mem_map.mp mem
    have listed := List.mem_reverse.mp ((descendingPerm _).mem_iff.mp (List.mem_of_mem_drop behind))
    have stands := (List.mem_filter.mp listed).1
    have once := List.inj_on_of_nodup_map distinct stands (List.mem_append_right _ List.mem_cons_self) same
    exact once ▸ behind

/- A tombstone outlives its own purge if it has few enough rivals. -/
theorem erasedKept {id : String} {c : Card} {now revision : Int} (distinct : (cards.map (fun c => c.record.id)).Nodup)
    (found : find id cards = some c) :
    erased now revision c ∈ kept (change id (erased now revision) cards) ↔ rivals (cards.map Card.record) id now < keepRemoved := by
  obtain ⟨before,after,rfl,named,front,back⟩ := foundBetween distinct found
  rw [changeBetween named front back, rivalsBetween named front]
  have mem : erased now revision c ∈ before ++ erased now revision c :: after := List.mem_append_right _ List.mem_cons_self
  have ids : ((before.map Card.record ++ (erased now revision c).record :: after.map Card.record).map Installation.id).Nodup := by
    rw [List.map_append, List.map_cons, List.map_map, List.map_map]
    rw [List.map_append, List.map_cons] at distinct
    exact distinct
  have place := doomedPlace ids rfl
  rw [← List.map_cons, ← List.map_append] at place
  rw [kept, List.mem_filter, decide_eq_true_eq, place, Nat.not_le]
  exact and_iff_right mem

end Purge

/- A shelf whose removed records have no content and no history, within its two limits. -/
structure Tidy (cards : List Card) : Prop where
  bare : ∀ c ∈ cards, c.record.status = .removed → c.record.content = blank ∧ c.history = []
  few : active (cards.map Card.record) ≤ maxInstallationsPerAccount
  tombs : cards.countP (fun c => c.record.status = .removed) ≤ keepRemoved

/- A shelf before its purge. -/
structure Filled (cards : List Card) : Prop where
  bare : ∀ c ∈ cards, c.record.status = .removed → c.record.content = blank ∧ c.history = []
  few : active (cards.map Card.record) ≤ maxInstallationsPerAccount

/- The call of a client on one record: the revision it expects, if any, and the status it asks for, if any. -/
structure Write where
  id : String
  expected : Option Int
  status : Option Status

def Op.writes : Op → Option Write
  | .update id expectedRevision input => some ⟨id,some expectedRevision,input.status⟩
  | .softDelete id expectedRevision => some ⟨id,expectedRevision,some .removed⟩
  | _ => none

def Outcome.done : Outcome → Bool
  | .update (.updated _) | .softDelete .removed => true
  | _ => false

/- What an operation writes. -/
inductive Laid (now : Int) (cards : List Card) (op : Op) : List Card → Prop where
  | added {recs : List Installation} (live : ∀ rec ∈ recs, rec.status ≠ .removed)
      (room : active (cards.map Card.record) + recs.length ≤ maxInstallationsPerAccount) (other : op.writes = none) :
      Laid now cards op (cards ++ recs.map (fun rec => ⟨rec,[]⟩))
  | erased {w : Write} {c : Card} {revision : Int} (writes : op.writes = some w) (found : find w.id cards = some c) :
      Laid now cards op (change w.id (erased now revision) cards)
  | renewed {w : Write} {c : Card} {input : InstallationInput} {status : Status} (writes : op.writes = some w) (found : find w.id cards = some c)
      (stays : status ≠ .removed) (room : c.record.status = .removed → active (cards.map Card.record) < maxInstallationsPerAccount) :
      Laid now cards op (change w.id (renewed input now status) cards)
  | emptied : Laid now cards op []

section Limits
variable {cards : List Card}

theorem keptTidy (filled : Filled cards) : Tidy (kept cards) :=
  ⟨fun c mem => filled.bare c (List.mem_filter.mp mem).1,((List.filter_sublist.map _).countP_le).trans filled.few,keptFew cards⟩

theorem draftLive (input : AdmittedInput) (uuid : String) (now : Int) :
    (materialize input.val uuid now (input.val.status.getD .draft)).status ≠ .removed := by
  intro gone
  have admitted := input.property
  cases given : input.val.status with
  | none => simp [materialize, given] at gone
  | some status =>
    rw [given] at admitted
    exact admitted (congrArg some (by simpa [materialize, given] using gone))

theorem filledMore (tidy : Tidy cards) {recs : List Installation} (live : ∀ rec ∈ recs, rec.status ≠ .removed)
    (room : active (cards.map Card.record) + recs.length ≤ maxInstallationsPerAccount) : Filled (cards ++ recs.map (fun rec => ⟨rec,[]⟩)) := by
  constructor
  · intro c mem gone
    obtain old | new := List.mem_append.mp mem
    · exact tidy.bare c old gone
    · obtain ⟨rec,listed,rfl⟩ := List.mem_map.mp new
      exact absurd gone (live rec listed)
  · rw [active, List.map_append, List.countP_append, List.map_map]
    have each : List.map (Card.record ∘ fun rec => ⟨rec,[]⟩) recs = recs := List.map_id _
    rw [each]
    exact (Nat.add_le_add_left List.countP_le_length _).trans room

theorem activeChange {id : String} {c : Card} (distinct : (cards.map (fun c => c.record.id)).Nodup) (found : find id cards = some c) (f : Card → Card) :
    active ((change id f cards).map Card.record) + (if c.record.status ≠ .removed then 1 else 0) =
      active (cards.map Card.record) + (if (f c).record.status ≠ .removed then 1 else 0) := by
  obtain ⟨before,after,rfl,named,front,back⟩ := foundBetween distinct found
  rw [changeBetween named front back]
  simp only [active, List.map_append, List.map_cons, List.countP_append, List.countP_cons, decide_eq_true_eq]
  omega

theorem filledChange {id : String} {f : Card → Card} (distinct : (cards.map (fun c => c.record.id)).Nodup) (tidy : Tidy cards) {c : Card}
    (found : find id cards = some c) (bare : (f c).record.status = .removed → (f c).record.content = blank ∧ (f c).history = [])
    (room : (f c).record.status ≠ .removed → c.record.status = .removed → active (cards.map Card.record) < maxInstallationsPerAccount) :
    Filled (change id f cards) := by
  obtain ⟨_,_,once⟩ := foundOnce distinct found
  constructor
  · intro other mem gone
    obtain ⟨old,stands,rfl⟩ := List.mem_map.mp mem
    by_cases named : old.record.id = id
    · cases once old stands named
      rw [if_pos named] at gone ⊢
      exact bare gone
    · rw [if_neg named] at gone ⊢
      exact tidy.bare old stands gone
  · have counts := activeChange distinct found f
    have few := tidy.few
    split at counts <;> split at counts
    · omega
    · omega
    case isFalse.isTrue gone live =>
      have more := room live (not_not.mp gone)
      omega
    · omega

theorem layLaid {now : Int} {op : Op} {laid : List Card} (lays : (lay now cards op).2 = some laid) : Laid now cards op laid := by
  cases op with
  | create input uuid =>
    rw [lay] at lays
    split at lays
    case isTrue => cases lays
    case isFalse room =>
      cases lays
      exact .added (List.forall_mem_singleton.mpr (draftLive input uuid now)) (Nat.not_le.mp room) rfl
  | update id expectedRevision input =>
    rw [lay] at lays
    split at lays
    case h_1 => cases lays
    case h_2 c found =>
      dsimp only at lays
      split at lays
      case isTrue => cases lays
      case isFalse =>
        split at lays
        case isTrue => cases lays
        case isFalse room =>
          split at lays
          case isTrue =>
            cases lays
            exact .erased (w := ⟨id,_,_⟩) rfl found
          case isFalse stays =>
            cases lays
            refine .renewed (w := ⟨id,_,_⟩) rfl found stays (fun gone => ?_)
            by_contra full
            exact room ⟨gone,stays,Nat.not_lt.mp full⟩
  | softDelete id expectedRevision =>
    rw [lay] at lays
    split at lays
    case h_1 => cases lays
    case h_2 c found =>
      split at lays
      case isTrue => cases lays
      case isFalse =>
        split at lays
        case isTrue =>
          cases lays
          exact .erased (w := ⟨id,_,_⟩) rfl found
        case isFalse => cases lays
  | duplicate id name uuid =>
    rw [lay] at lays
    split at lays
    case h_1 => cases lays
    case h_2 src found =>
      split at lays
      case isTrue => cases lays
      case isFalse =>
        split at lays
        case isTrue => cases lays
        case isFalse room =>
          cases lays
          exact .added (List.forall_mem_singleton.mpr (by simp [copied])) (Nat.not_le.mp room) rfl
  | importAll inputs =>
    rw [lay] at lays
    split at lays
    case isTrue => cases lays
    case isFalse room =>
      cases lays
      refine .added ?_ (by simpa [drafts, unwrapped] using Nat.not_lt.mp room) rfl
      intro rec mem
      obtain ⟨p,listed,rfl⟩ := List.mem_map.mp mem
      obtain ⟨⟨input,uuid⟩,_,rfl⟩ := List.mem_map.mp listed
      exact draftLive input uuid now
  | deleteAllForAccount =>
    cases lays
    exact .emptied

theorem laidFilled (distinct : (cards.map (fun c => c.record.id)).Nodup) (tidy : Tidy cards) {now : Int} {op : Op} {laid : List Card}
    (lays : Laid now cards op laid) : Filled laid := by
  cases lays with
  | added live room => exact filledMore tidy live room
  | erased writes found => exact filledChange distinct tidy found (fun _ => ⟨rfl,rfl⟩) (fun live => absurd rfl live)
  | renewed writes found stays room => exact filledChange distinct tidy found (fun gone => absurd gone stays) (fun _ gone => room gone)
  | emptied => exact ⟨fun _ mem => absurd mem List.not_mem_nil,Nat.zero_le _⟩

/- A card that an operation on other records leaves where it is, unless the whole shelf goes. -/
theorem laidOther {now : Int} {op : Op} {laid : List Card} (lays : Laid now cards op laid) {c : Card} (mem : c ∈ cards)
    (other : ∀ w, op.writes = some w → w.id ≠ c.record.id) : laid = [] ∨ c ∈ laid := by
  cases lays with
  | added => exact .inr (List.mem_append_left _ mem)
  | erased writes => exact .inr (List.mem_map.mpr ⟨c,mem,if_neg (Ne.symm (other _ writes))⟩)
  | renewed writes => exact .inr (List.mem_map.mpr ⟨c,mem,if_neg (Ne.symm (other _ writes))⟩)
  | emptied => exact .inl rfl

/- A card that is live and was not before starts with no history. -/
theorem laidNew {now : Int} {op : Op} {laid : List Card} (tidy : Tidy cards) (lays : Laid now cards op laid) {c : Card} (mem : c ∈ laid)
    (fresh : ∀ old ∈ cards, old.record.id = c.record.id → old.record.status = .removed) : c.history = [] := by
  have old : c ∈ cards → c.history = [] := fun before => (tidy.bare c before (fresh c before rfl)).2
  cases lays with
  | added =>
    obtain before | new := List.mem_append.mp mem
    · exact old before
    · obtain ⟨rec,_,rfl⟩ := List.mem_map.mp new
      rfl
  | erased =>
    obtain ⟨d,before,same⟩ := List.mem_map.mp mem
    split at same
    case isTrue => exact same ▸ rfl
    case isFalse => exact old (same ▸ before)
  | renewed =>
    obtain ⟨d,before,same⟩ := List.mem_map.mp mem
    split at same
    case isTrue =>
      have gone := fresh d before (congrArg (fun c => c.record.id) same)
      rw [← same, renewed, if_pos gone]
      exact (tidy.bare d before gone).2
    case isFalse => exact old (same ▸ before)
  | emptied => exact absurd mem List.not_mem_nil

end Limits

/- How a call that expects the right revision ends on a live record. -/
structure Ended (now : Int) (cards : List Card) (op : Op) (w : Write) (c : Card) : Prop where
  gone : w.expected.any (fun r => r ≠ c.record.revision) = false → w.status = some .removed →
    (lay now cards op).1.done = true ∧ (lay now cards op).2 = some (change w.id (erased now (c.record.revision + 1)) cards)
  stays : w.expected.any (fun r => r ≠ c.record.revision) = false → w.status ≠ some .removed → (lay now cards op).1.done = true ∧
    ∃ input status, op = .update w.id c.record.revision input ∧ status ≠ .removed ∧
      (lay now cards op).2 = some (change w.id (renewed input now status) cards)

section Writes
variable {cards : List Card} {now : Int} {op : Op} {w : Write} {c : Card}

theorem layStale (writes : op.writes = some w) (found : find w.id cards = some c) (stale : w.expected.any (fun r => r ≠ c.record.revision) = true) :
    (lay now cards op).1.done = false ∧ (lay now cards op).2 = none := by
  cases op with
  | update id expectedRevision input =>
    cases writes
    rw [Option.any_some, decide_eq_true_eq] at stale
    simp only [lay, found, if_pos (Ne.symm stale)]
    exact ⟨rfl,trivial⟩
  | softDelete id expectedRevision =>
    cases writes
    simp only [lay, found, if_pos stale]
    exact ⟨rfl,trivial⟩
  | create | duplicate | importAll | deleteAllForAccount => cases writes

theorem layEnded (writes : op.writes = some w) (found : find w.id cards = some c) (live : c.record.status ≠ .removed) : Ended now cards op w c := by
  cases op with
  | update id expectedRevision input =>
    cases writes
    have current : Option.any (fun r => decide (r ≠ c.record.revision)) (some expectedRevision) = false → ¬c.record.revision ≠ expectedRevision := by
      intro fresh differ
      rw [Option.any_some, decide_eq_false_iff_not] at fresh
      exact fresh (Ne.symm differ)
    constructor
    · intro fresh gone
      dsimp only at gone
      simp only [lay, found, if_neg (current fresh), live, false_and, gone, if_false, Option.getD_some, if_true]
      exact ⟨rfl,trivial⟩
    · intro fresh other
      have ends : input.status.getD c.record.status ≠ .removed := by
        intro gone
        cases given : input.status with
        | none => exact live (by simpa [given] using gone)
        | some status => exact other (given.trans (congrArg some (by simpa [given] using gone)))
      refine ⟨?_,input,input.status.getD c.record.status,by rw [not_not.mp (current fresh)],ends,?_⟩
      · simp only [lay, found, if_neg (current fresh), live, false_and, if_false, if_neg ends]
        rfl
      · simp only [lay, found, if_neg (current fresh), live, false_and, if_false, if_neg ends]
  | softDelete id expectedRevision =>
    cases writes
    constructor
    · intro fresh _
      simp only [lay, found, fresh, Bool.false_eq_true, if_false, if_pos live]
      exact ⟨rfl,trivial⟩
    · exact fun _ other => absurd rfl other
  | create | duplicate | importAll | deleteAllForAccount => cases writes

end Writes

/- Entries of revisions that count down from `r`, newest first. -/
def Descends : Int → List RevisionEntry → Prop
  | _, [] => True
  | r, entry :: rest => entry.revision = r ∧ Descends (r - 1) rest

section Histories
variable {r : Int} {entries : List RevisionEntry}

theorem descendsTake (descends : Descends r entries) (n : Nat) : Descends r (entries.take n) := by
  induction n generalizing r entries with
  | zero => exact trivial
  | succ n ih =>
    cases entries with
    | nil => exact trivial
    | cons entry rest => exact ⟨descends.1,ih descends.2⟩

theorem descendsFilter (descends : Descends r entries) (n : Nat) :
    entries.filter (fun entry => r - n < entry.revision) = entries.take n := by
  induction entries generalizing r n with
  | nil => exact List.take_nil.symm
  | cons entry rest ih =>
    obtain ⟨first,descends⟩ := descends
    cases n with
    | zero =>
      have below := ih descends 0
      rw [List.take_zero, List.filter_eq_nil_iff] at below ⊢
      intro other mem
      obtain rfl | later := List.mem_cons.mp mem
      · simp [first]
      · have low := below other later
        simp only [decide_eq_true_eq] at low ⊢
        omega
    | succ n =>
      have rest' := ih descends n
      rw [List.filter_cons_of_pos (by simp [first]), List.take_succ_cons, ← rest']
      congr 1
      apply List.filter_congr
      intro other _
      rw [decide_eq_decide]
      omega

/- A live card's history is what of its past is kept. -/
def Trails (c : Card) (past : List RevisionEntry) : Prop :=
  c.history.reverse = past.take maxRevisions.toNat ∧ Descends (c.record.revision - 1) past

theorem trailsNext {c : Card} {past : List RevisionEntry} (trails : Trails c past) (live : c.record.status ≠ .removed) (input : InstallationInput)
    (now : Int) (status : Status) : Trails (renewed input now status c) (⟨c.record.revision,now,c.record⟩ :: past) := by
  obtain ⟨stored,descends⟩ := trails
  have down : Descends c.record.revision (⟨c.record.revision,now,c.record⟩ :: past) := ⟨rfl,descends⟩
  refine ⟨?_,?_⟩
  · have kept := descendsFilter (descendsTake down (maxRevisions.toNat + 1)) maxRevisions.toNat
    rw [List.take_take, Nat.min_eq_left (Nat.le_succ _), List.take_succ_cons] at kept
    rw [renewed, if_neg live, archived, ← List.filter_reverse, List.reverse_append, List.reverse_singleton, List.singleton_append, stored]
    exact kept
  · have next : (renewed input now status c).record.revision - 1 = c.record.revision := Int.add_sub_cancel _ _
    rw [next]
    exact down

end Histories

def live (account : AccountId) (id : String) (s : Tables) : Option Installation :=
  (fetch account id s).filter (fun rec => rec.status ≠ .removed)

def accepted (result : Except Sql.SqlError Outcome) : Bool :=
  match result with
  | .ok out => out.done
  | .error _ => false

def Op.updates (id : String) : Op → Bool
  | .update id' _ _ => id' = id
  | _ => false

/- The states that a record has left since it was created or revived, newest first. -/
def supersededNext (account : AccountId) (id : String) (s : Tables) (call : Call) (past : List RevisionEntry) : List RevisionEntry :=
  match live account id s, live account id (step s call).2 with
  | some cur, some _ => if call.account = account ∧ call.op.updates id ∧ accepted (step s call).1 then ⟨cur.revision,call.now,cur⟩ :: past else past
  | _, _ => []

def trackedStep (account : AccountId) (id : String) (tracked : Tables × List RevisionEntry) (call : Call) :
    Except Sql.SqlError Outcome × (Tables × List RevisionEntry) :=
  let (answer,next) := step tracked.1 call
  (answer,(next,supersededNext account id tracked.1 call tracked.2))

def superseded (account : AccountId) (id : String) (calls : List Call) : List RevisionEntry :=
  (Machine.run (trackedStep account id) ({},[]) calls).2

section Runs
variable {s m : Tables} {account : AccountId} {id : String}

theorem liveCard : live account id s = ((find id (shelf account s)).filter (fun c => c.record.status ≠ .removed)).map Card.record := by
  rw [live, fetchCard, ← find]
  cases find id (shelf account s) with
  | none => rfl
  | some c =>
    simp only [Option.map_some, Option.filter_some]
    split <;> rfl

theorem liveFound {cur : Installation} (here : live account id s = some cur) :
    ∃ c, find id (shelf account s) = some c ∧ c.record = cur ∧ c.record.status ≠ .removed := by
  rw [liveCard] at here
  obtain ⟨c,filtered,same⟩ := Option.map_eq_some_iff.mp here
  obtain ⟨found,stays⟩ := Option.filter_eq_some_iff.mp filtered
  exact ⟨c,found,same,by simpa using stays⟩

theorem foundLive {c : Card} (found : find id (shelf account s) = some c) (stays : c.record.status ≠ .removed) : live account id s = some c.record := by
  rw [liveCard, found, Option.filter_some, if_pos (by simpa using stays)]
  rfl

theorem tidyNext (sound : Sound s) (tidy : ∀ account, Tidy (shelf account s)) (call : Call) (account : AccountId) :
    Tidy (shelf account (step s call).2) := by
  obtain ⟨same,_⟩ | ⟨_,written⟩ := stepPlaced sound call
  · rw [same]
    exact tidy account
  · unfold Written at written
    split at written
    case h_1 =>
      rw [written]
      exact tidy account
    case h_2 laid lays =>
      by_cases mine : call.account = account
      · rw [← mine, written.1.own]
        exact keptTidy (laidFilled (cardIds sound _) (tidy _) (layLaid lays))
      · rw [written.1.others account mine]
        exact tidy account

theorem emptyTidy : Tidy [] := ⟨fun _ mem => absurd mem List.not_mem_nil,Nat.zero_le _,Nat.zero_le _⟩

theorem runTidy (calls : List Call) (account : AccountId) : Tidy (shelf account (run calls)) := by
  have start : Sound {} ∧ ∀ account, Tidy (shelf account {}) := ⟨⟨by simp,by simp⟩,fun _ => emptyTidy⟩
  have both := Machine.runInvariant (fun s => Sound s ∧ ∀ account, Tidy (shelf account s))
    (fun s call ⟨sound,tidy⟩ => ⟨stepSound sound call,tidyNext sound tidy call⟩) start calls
  exact both.2 account

theorem foundIn {cards : List Card} (distinct : (cards.map (fun c => c.record.id)).Nodup) {c : Card} (mem : c ∈ cards) (named : c.record.id = id) :
    find id cards = some c := by
  cases found : find id cards with
  | none =>
    have none' := List.find?_eq_none.mp found c mem
    simp [named] at none'
  | some other =>
    obtain ⟨_,_,once⟩ := foundOnce distinct found
    rw [once c mem named]

theorem keptFound {cards : List Card} {c : Card} (found : find id (kept cards) = some c) : c ∈ cards ∧ c.record.id = id := by
  refine ⟨(List.mem_filter.mp (List.mem_of_find?_eq_some found)).1,?_⟩
  simpa using List.find?_some found

theorem changedCard {cards : List Card} (distinct : (cards.map (fun c => c.record.id)).Nodup) {c c' : Card} (found : find id cards = some c)
    {f : Card → Card} (mem : c' ∈ change id f cards) (named : c'.record.id = id) : c' = f c := by
  obtain ⟨_,_,once⟩ := foundOnce distinct found
  obtain ⟨d,stands,same⟩ := List.mem_map.mp mem
  split at same
  case isTrue here => rw [← same, once d stands here]
  case isFalse other => exact absurd (same ▸ named) other

/- An update of a live record that is not written is not accepted. -/
theorem unwritten {cards : List Card} {now : Int} {op : Op} {c : Card} (found : find id cards = some c) (live : c.record.status ≠ .removed)
    (lays : (lay now cards op).2 = none) (updates : op.updates id = true) : (lay now cards op).1.done = false := by
  cases op with
  | update id' expectedRevision input =>
    obtain rfl : id' = id := of_decide_eq_true updates
    have ended : Ended now cards (.update id' expectedRevision input) ⟨id',some expectedRevision,input.status⟩ c := layEnded rfl found live
    obtain ⟨gone,stays⟩ := ended
    cases fresh : Option.any (fun r => decide (r ≠ c.record.revision)) (some expectedRevision) with
    | true => exact (@layStale cards now (.update id' expectedRevision input) ⟨id',some expectedRevision,input.status⟩ c rfl found fresh).1
    | false =>
      by_cases ends : input.status = some .removed
      · rw [(gone fresh ends).2] at lays
        cases lays
      · obtain ⟨_,_,_,_,_,laid⟩ := stays fresh ends
        rw [laid] at lays
        cases lays
  | create | softDelete | duplicate | importAll | deleteAllForAccount => cases updates

theorem updatesWrites {op : Op} (updates : op.updates id = true) : ∃ w, op.writes = some w ∧ w.id = id := by
  cases op with
  | update => exact ⟨_,rfl,of_decide_eq_true updates⟩
  | create | softDelete | duplicate | importAll | deleteAllForAccount => cases updates

/- What a tracked record leaves behind: its stored history is the end of its past. -/
def Tracked (account : AccountId) (id : String) (s : Tables) (past : List RevisionEntry) : Prop :=
  ∀ c, find id (shelf account s) = some c → c.record.status ≠ .removed → Trails c past

theorem trackedNext (sound : Sound s) (tidy : ∀ account, Tidy (shelf account s)) {past : List RevisionEntry} (tracked : Tracked account id s past)
    (call : Call) : Tracked account id (step s call).2 (supersededNext account id s call past) := by
  intro c' found' live'
  have distinct := cardIds sound account
  unfold supersededNext
  rw [foundLive found' live']
  -- a record that was not live before has no past
  have new : live account id s = none → Trails c' [] := by
    intro absent
    have before : find id (shelf account s) ≠ some c' := by
      intro same
      rw [foundLive same live'] at absent
      cases absent
    obtain ⟨same,_⟩ | ⟨_,written⟩ := stepPlaced sound call
    · exact absurd (same ▸ found') before
    · unfold Written at written
      split at written
      case h_1 => exact absurd (written ▸ found') before
      case h_2 laid lays =>
        by_cases mine : call.account = account
        · subst mine
          rw [written.1.own] at found'
          obtain ⟨mem,named⟩ := keptFound found'
          have bare : c'.history = [] := by
            refine laidNew (tidy _) (layLaid lays) mem ?_
            intro old stands same
            by_contra stays
            rw [foundLive (foundIn distinct stands (same.trans named)) stays] at absent
            cases absent
          exact ⟨by rw [bare]; rfl,trivial⟩
        · rw [written.1.others account mine] at found'
          exact absurd found' before
  cases here : live account id s with
  | none => exact new here
  | some cur =>
    obtain ⟨c,found,rfl,stays⟩ := liveFound here
    have trails := tracked c found stays
    dsimp only
    have unchanged : find id (shelf account s) = some c' → ¬(call.account = account ∧ call.op.updates id ∧ accepted (step s call).1) →
        Trails c' (if call.account = account ∧ call.op.updates id ∧ accepted (step s call).1 then ⟨c.record.revision,call.now,c.record⟩ :: past
          else past) := by
      intro same quiet
      rw [if_neg quiet]
      cases found.symm.trans same
      exact trails
    obtain ⟨same,e,failed⟩ | ⟨answered,written⟩ := stepPlaced sound call
    · refine unchanged (same ▸ found') ?_
      rintro ⟨_,_,fine⟩
      rw [failed] at fine
      cases fine
    · unfold Written at written
      split at written
      case h_1 lays =>
        refine unchanged (written ▸ found') ?_
        rintro ⟨rfl,updates,fine⟩
        rw [answered, accepted, unwritten found stays lays updates] at fine
        cases fine
      case h_2 laid lays =>
        by_cases mine : call.account = account
        case neg =>
          rw [written.1.others account mine] at found'
          exact unchanged found' (fun all => mine all.1)
        case pos =>
          subst mine
          rw [written.1.own] at found'
          obtain ⟨mem,named⟩ := keptFound found'
          by_cases writes : ∃ w, call.op.writes = some w ∧ w.id = id
          case pos =>
            obtain ⟨w,writes,rfl⟩ := writes
            obtain ⟨gone,stays'⟩ := layEnded writes found stays
            cases fresh : w.expected.any (fun r => decide (r ≠ c.record.revision)) with
            | true =>
              rw [(layStale writes found fresh).2] at lays
              cases lays
            | false =>
              by_cases ends : w.status = some .removed
              · cases lays.symm.trans (gone fresh ends).2
                rw [changedCard distinct found mem named] at live'
                exact absurd rfl live'
              · obtain ⟨fine,input,status,update,_,lays'⟩ := stays' fresh ends
                cases lays.symm.trans lays'
                have updates : call.op.updates w.id = true := by
                  rw [update]
                  exact decide_eq_true rfl
                rw [if_pos ⟨rfl,updates,by rw [answered]; exact fine⟩, changedCard distinct found mem named]
                exact trailsNext trails stays input call.now status
          case neg =>
            obtain rfl | still := laidOther (layLaid lays) (foundOnce distinct found).1
              (fun w given same => writes ⟨w,given,same.trans (foundOnce distinct found).2.1⟩)
            · exact absurd mem List.not_mem_nil
            · have same : c' = c := List.inj_on_of_nodup_map written.2 mem still (named.trans (foundOnce distinct found).2.1.symm)
              exact unchanged (same ▸ found) (fun all => writes (updatesWrites all.2.1))

theorem trackedTables (account : AccountId) (id : String) (calls : List Call) :
    (Machine.run (trackedStep account id) ({},[]) calls).1 = run calls := by
  induction calls using List.reverseRecOn with
  | nil => rfl
  | append_singleton calls call ih =>
    rw [Machine.runNext, run, Machine.runNext, ← run, ← ih]
    rfl

theorem supersededStep (account : AccountId) (id : String) (calls : List Call) (call : Call) :
    superseded account id (calls ++ [call]) = supersededNext account id (run calls) call (superseded account id calls) := by
  rw [superseded, Machine.runNext, ← trackedTables account id calls]
  rfl

theorem runTracked (account : AccountId) (id : String) (calls : List Call) : Tracked account id (run calls) (superseded account id calls) := by
  induction calls using List.reverseRecOn with
  | nil =>
    intro c found
    cases found
  | append_singleton calls call ih =>
    have next : run (calls ++ [call]) = (step (run calls) call).2 := Machine.runNext _ _ _
    rw [supersededStep, next]
    exact trackedNext (runSound calls) (runTidy calls) ih call

end Runs

/- A record that a call ends, with the revision it expects: too few removed records stand before it in the purge that follows. -/
def Survives (s : Tables) (call : Call) : Prop :=
  ∀ w cur, call.op.writes = some w → live call.account w.id s = some cur → w.expected.any (fun r => r ≠ cur.revision) = false →
    w.status = some .removed → rivals (owned call.account s) w.id call.now < keepRemoved

/- A call that is accepted raises the revision of its record by one. -/
def Raises (s : Tables) (call : Call) : Prop :=
  ∀ w cur, call.op.writes = some w → live call.account w.id s = some cur → accepted (step s call).1 = true →
    ∃ rec, fetch call.account w.id (step s call).2 = some rec ∧ rec.revision = cur.revision + 1

section Raising
variable {s : Tables}

open Sql in
/- Where no statement fails, the removal of a live record goes through. -/
theorem removalYields {account : AccountId} {w : Write} {cur : Installation} {now : Int} {op : Op} (writes : op.writes = some w)
    (here : fetch account w.id s = some cur) (stays : cur.status ≠ .removed) (fresh : w.expected.any (fun r => r ≠ cur.revision) = false)
    (ends : w.status = some .removed) : ∃ out m, Yields (act account now op) s out m := by
  cases op with
  | update id expectedRevision input =>
    cases writes
    have same : ¬cur.revision ≠ expectedRevision := by
      rw [Option.any_some, decide_eq_false_iff_not] at fresh
      exact fun differ => fresh (Ne.symm differ)
    dsimp only at here ends
    obtain ⟨a,m,writes⟩ : ∃ a m, Yields (replace account cur input now .removed) s (.commit a) m :=
      ⟨_,_,yieldsBind (yieldsBind rfl rfl) (yieldsBind (yieldsBind rfl rfl) rfl)⟩
    have whole : Yields (update account id expectedRevision input now) s a m := by
      refine yieldsTransaction (yieldsBind rfl ?_)
      rw [here]
      dsimp only
      rw [if_neg same, ends, Option.getD_some, if_neg (fun all => stays all.1)]
      exact yieldsBind rfl writes
    exact ⟨.update a,m,yieldsBind whole rfl⟩
  | softDelete id expectedRevision =>
    cases writes
    dsimp only at here fresh
    obtain ⟨m,writes⟩ : ∃ m, Yields (do
        eraseContent account cur.id now (cur.revision + 1)
        purgeOldRemoved account
        pure (Left.commit DeleteOutcome.removed)) s (.commit .removed) m :=
      ⟨_,yieldsBind (yieldsBind rfl rfl) (yieldsBind (yieldsBind rfl rfl) yieldsPure)⟩
    have whole : Yields (softDelete account id expectedRevision now) s .removed m := by
      refine yieldsTransaction (yieldsBind rfl ?_)
      rw [here]
      dsimp only
      rw [fresh, if_neg Bool.false_ne_true, if_pos stays]
      exact writes
    exact ⟨.softDelete .removed,m,yieldsBind whole rfl⟩
  | create | duplicate | importAll | deleteAllForAccount => cases writes

theorem liveFetched {account : AccountId} {id : String} {cur : Installation} (here : live account id s = some cur) :
    fetch account id s = some cur ∧ cur.status ≠ .removed := by
  obtain ⟨fetched,stays⟩ := Option.filter_eq_some_iff.mp here
  exact ⟨fetched,by simpa using stays⟩

theorem keptFetched {account : AccountId} {id : String} {laid : List Card} {m : Tables} (written : Written account s (some laid) m) {c : Card}
    (mem : c ∈ kept laid) (named : c.record.id = id) : fetch account id m = some c.record := by
  have apart : ((kept laid).map (fun c => c.record.id)).Nodup := written.2.sublist (List.filter_sublist.map _)
  rw [fetchCard, written.1.own, ← find, foundIn apart mem named]
  rfl

theorem raisesIff (sound : Sound s) (call : Call) : (∀ faults, Raises s { call with faults := faults }) ↔ Survives s call := by
  constructor
  case mp =>
    intro raises w cur writes here fresh ends
    obtain ⟨fetched,stays⟩ := liveFetched here
    obtain ⟨c,found,rfl,_⟩ := liveFound here
    obtain ⟨out,m,yields⟩ : ∃ out m, Sql.Yields (act call.account call.now call.op) s out m := removalYields writes fetched stays fresh ends
    have carried : (step s { call with faults := [] }).1 = .ok out := congrArg Prod.fst (Sql.yieldsPerform yields)
    have ended : Ended call.now (shelf call.account s) call.op w c := layEnded writes found stays
    obtain ⟨fine,laid⟩ := ended.gone fresh ends
    obtain ⟨_,e,failed⟩ | ⟨answered,written⟩ := stepPlaced sound { call with faults := [] }
    · rw [carried] at failed
      cases failed
    · obtain ⟨rec,after,_⟩ := raises [] w c.record writes here (by rw [answered]; exact fine)
      rw [laid] at written
      rw [fetchCard, written.1.own, ← find] at after
      obtain ⟨c',found',_⟩ := Option.map_eq_some_iff.mp after
      obtain ⟨mem,named⟩ := keptFound found'
      have same := changedCard (cardIds sound _) found mem named
      have kept := (erasedKept (cardIds sound _) found).mp (same ▸ List.mem_of_find?_eq_some found')
      rwa [cardRecords] at kept
  case mpr =>
    intro survives faults w cur writes here fine
    obtain ⟨c,found,rfl,stays⟩ := liveFound here
    have distinct := cardIds sound call.account
    obtain ⟨mem,named,_⟩ := foundOnce distinct found
    have ended : Ended call.now (shelf call.account s) call.op w c := layEnded writes found stays
    obtain ⟨_,e,failed⟩ | ⟨answered,written⟩ := stepPlaced sound { call with faults := faults }
    · rw [failed] at fine
      cases fine
    · rw [answered] at fine
      cases fresh : w.expected.any (fun r => decide (r ≠ c.record.revision)) with
      | true =>
        rw [accepted, (layStale writes found fresh).1] at fine
        cases fine
      | false =>
        by_cases gone : w.status = some .removed
        · rw [(ended.gone fresh gone).2] at written
          have few := survives w c.record writes here fresh gone
          rw [← cardRecords] at few
          have stands : erased call.now (c.record.revision + 1) c ∈ kept _ := (erasedKept distinct found).mpr few
          exact ⟨_,keptFetched written stands named,rfl⟩
        · obtain ⟨_,input,status,_,live',laid⟩ := ended.stays fresh gone
          rw [laid] at written
          have changed : renewed input call.now status c ∈ change w.id (renewed input call.now status) (shelf call.account s) :=
            List.mem_map.mpr ⟨c,mem,if_pos named⟩
          exact ⟨_,keptFetched written (keptLive written.2 changed live') named,rfl⟩

end Raising

def storedHistory (account : AccountId) (id : String) (s : Tables) : List RevisionEntry := historyIn (ownedRevisions account s) id

section Claims
variable {s : Tables}

theorem bareRows (sound : Sound s) (tidy : ∀ account, Tidy (shelf account s)) {row : Row} (mem : row ∈ s.installations)
    (gone : row.record.status = .removed) : row.record.content = blank ∧ ∀ rev ∈ s.installationRevisions, rev.id ≠ row.record.id := by
  have card : (⟨row.record,storedHistory row.account row.record.id s⟩ : Card) ∈ shelf row.account s :=
    List.mem_map_of_mem (List.mem_map_of_mem (List.mem_filter.mpr ⟨mem,decide_eq_true rfl⟩))
  obtain ⟨content,bare⟩ := (tidy row.account).bare _ card gone
  refine ⟨content,?_⟩
  intro rev filed named
  obtain ⟨other,stands,holder,same⟩ := sound.filed rev filed
  have once : other = row := List.inj_on_of_nodup_map sound.distinct stands mem (same.trans named)
  have entry : rev.entry ∈ storedHistory row.account row.record.id s :=
    List.mem_map_of_mem (List.mem_filter.mpr ⟨List.mem_filter.mpr ⟨filed,decide_eq_true (once ▸ holder).symm⟩,decide_eq_true named⟩)
  have empty : storedHistory row.account row.record.id s = [] := bare
  rw [empty] at entry
  exact List.not_mem_nil entry

theorem staleNothing (sound : Sound s) {call : Call} {w : Write} {cur : Installation} (writes : call.op.writes = some w)
    (here : fetch call.account w.id s = some cur) (stale : w.expected.any (fun r => r ≠ cur.revision) = true) : (step s call).2 = s := by
  rw [fetchCard, ← find] at here
  obtain ⟨c,found,rfl⟩ := Option.map_eq_some_iff.mp here
  obtain ⟨same,_⟩ | ⟨_,written⟩ := stepPlaced sound call
  · exact same
  · rw [(layStale writes found stale).2] at written
    exact written

theorem importWhole (sound : Sound s) (account : AccountId) (now : Int) (inputs : List (AdmittedInput × String)) (faults : List Bool) :
    (∃ recs, (step s ⟨account,now,.importAll inputs,faults⟩).1 = .ok (.importAll (some recs)) ∧ recs = drafts now (unwrapped inputs) ∧
      ∀ rec ∈ recs, fetch account rec.id (step s ⟨account,now,.importAll inputs,faults⟩).2 = some rec) ∨
    (step s ⟨account,now,.importAll inputs,faults⟩).2 = s := by
  obtain ⟨same,_⟩ | ⟨answered,written⟩ := stepPlaced sound ⟨account,now,.importAll inputs,faults⟩
  · exact .inr same
  · dsimp only [lay] at answered written
    split at written
    case isTrue => exact .inr written
    case isFalse room =>
      rw [if_neg room] at answered
      refine .inl ⟨_,answered,rfl,?_⟩
      intro rec mem
      have laid : (⟨rec,[]⟩ : Card) ∈ shelf account s ++ (drafts now (unwrapped inputs)).map (fun rec => ⟨rec,[]⟩) :=
        List.mem_append_right _ (List.mem_map_of_mem mem)
      refine keptFetched written (keptLive written.2 laid ?_) rfl
      obtain ⟨p,listed,rfl⟩ := List.mem_map.mp mem
      obtain ⟨⟨input,uuid⟩,_,rfl⟩ := List.mem_map.mp listed
      exact draftLive input uuid now

theorem apart (sound : Sound s) (call : Call) {other : AccountId} (differ : call.account ≠ other) : shelf other (step s call).2 = shelf other s := by
  obtain ⟨same,_⟩ | ⟨_,written⟩ := stepPlaced sound call
  · rw [same]
  · unfold Written at written
    split at written
    · rw [written]
    · exact written.1.others other differ

/- Two calls that are the same but for their faults, on two stores in which their account has the same shelf. -/
theorem alike {t : Tables} (sound : Sound s) (sound' : Sound t) (call : Call) (faults : List Bool) (same : shelf call.account t = shelf call.account s)
    {out out' : Outcome} (ok : (step s call).1 = .ok out) (ok' : (step t { call with faults := faults }).1 = .ok out') :
    out = out' ∧ shelf call.account (step s call).2 = shelf call.account (step t { call with faults := faults }).2 := by
  obtain ⟨_,e,failed⟩ | ⟨answered,written⟩ := stepPlaced sound call
  · rw [ok] at failed
    cases failed
  · obtain ⟨_,e,failed⟩ | ⟨answered',written'⟩ := stepPlaced sound' { call with faults := faults }
    · rw [ok'] at failed
      cases failed
    · rw [same] at answered' written'
      cases ok.symm.trans answered
      cases ok'.symm.trans answered'
      refine ⟨rfl,?_⟩
      unfold Written at written written'
      split at written <;> rename_i lays
      · rw [lays] at written'
        rw [written, written', same]
      · rw [lays] at written'
        rw [written.1.own, written'.1.own]

/- The invariants of every run. -/
theorem installationStore (calls : List Call) :
    (∀ row ∈ (run calls).installations, row.record.status = .removed →
      row.record.content = blank ∧ ∀ rev ∈ (run calls).installationRevisions, rev.id ≠ row.record.id) ∧
    (∀ account, active (owned account (run calls)) ≤ maxInstallationsPerAccount ∧
      (owned account (run calls)).countP (fun rec => rec.status = .removed) ≤ keepRemoved) ∧
    (∀ call : Call, (∀ faults, Raises (run calls) { call with faults := faults }) ↔ Survives (run calls) call) ∧
    (Machine.along step Survives {} calls → Machine.along step Raises {} calls) ∧
    (∀ call w cur, call.op.writes = some w → fetch call.account w.id (run calls) = some cur →
      w.expected.any (fun r => r ≠ cur.revision) = true → (step (run calls) call).2 = run calls) ∧
    (∀ account id cur, live account id (run calls) = some cur →
      (storedHistory account id (run calls)).reverse = (superseded account id calls).take maxRevisions.toNat) ∧
    (∀ account now inputs faults, (∃ recs, (step (run calls) ⟨account,now,.importAll inputs,faults⟩).1 = .ok (.importAll (some recs)) ∧
        recs = drafts now (unwrapped inputs) ∧
        ∀ rec ∈ recs, fetch account rec.id (step (run calls) ⟨account,now,.importAll inputs,faults⟩).2 = some rec) ∨
      (step (run calls) ⟨account,now,.importAll inputs,faults⟩).2 = run calls) ∧
    ∀ call : Call, (∀ other, call.account ≠ other → shelf other (step (run calls) call).2 = shelf other (run calls)) ∧
      ∀ others faults out out', shelf call.account (run others) = shelf call.account (run calls) → (step (run calls) call).1 = .ok out →
        (step (run others) { call with faults := faults }).1 = .ok out' →
        out = out' ∧ shelf call.account (step (run calls) call).2 = shelf call.account (step (run others) { call with faults := faults }).2 := by
  have sound := runSound calls
  have tidy := runTidy calls
  refine ⟨fun row mem gone => bareRows sound tidy mem gone,fun account => ⟨?few,?tombs⟩,raisesIff sound,?raise,
    fun call w cur writes here stale => staleNothing sound writes here stale,?history,importWhole sound,
    fun call => ⟨fun other differ => apart sound call differ,fun others faults out out' same ok ok' => alike sound (runSound others) call faults same ok ok'⟩⟩
  case few =>
    rw [← cardRecords]
    exact (tidy account).few
  case tombs =>
    rw [← cardRecords, List.countP_map]
    exact (tidy account).tombs
  case raise =>
    refine Machine.alongInvariant Sound (fun _ call sound => stepSound sound call) ?_ ⟨by simp,by simp⟩
    exact fun s call sound survives => (raisesIff sound call).mpr survives call.faults
  case history =>
    intro account id cur here
    obtain ⟨c,found,rfl,stays⟩ := liveFound here
    obtain ⟨mem,named,_⟩ := foundOnce (cardIds sound account) found
    obtain ⟨rec,_,same⟩ := List.mem_map.mp mem
    have trails := (runTracked account id calls c found stays).1
    rw [← trails, ← same, storedHistory]
    congr 2
    exact named.symm.trans (congrArg (fun c => c.record.id) same.symm)

end Claims

/- One account saves one record more than tombstones are kept, and deletes them all in one second, the newest first. -/
section SameSecond
variable {account : AccountId}

theorem keptAll {cards : List Card} (few : cards.countP (fun c => c.record.status = .removed) ≤ keepRemoved) : kept cards = cards := by
  have none' : doomed (cards.map Card.record) = [] := by
    rw [doomed, List.map_eq_nil_iff, List.drop_eq_nil_iff, (descendingPerm _).length_eq, List.length_reverse, List.filter_map, List.length_map]
    rwa [List.countP_eq_length_filter] at few
  rw [kept, none', List.filter_eq_self]
  exact fun _ _ => by simp

open Sql in
theorem insertAllYields {now : Int} {inputs : List (InstallationInput × String)} {s : Tables} (distinct : (inputs.map Prod.snd).Nodup)
    (fresh : ∀ row ∈ s.installations, row.record.id ∉ inputs.map Prod.snd) : ∃ out m, Yields (insertAll account now inputs) s out m := by
  induction inputs generalizing s with
  | nil => exact ⟨[],s,rfl⟩
  | cons p rest ih =>
    obtain ⟨input,uuid⟩ := p
    obtain ⟨new,apart⟩ := List.nodup_cons.mp distinct
    let rec' := materialize input uuid now (input.status.getD .draft)
    have inserted : Yields (insertRow account rec') s () { s with installations := s.installations ++ [⟨account,rec'⟩] } := by
      have free : s.installations.any (fun row => row.record.id = rec'.id) = false := by
        rw [List.any_eq_false]
        intro row mem same
        refine fresh row mem ?_
        rw [of_decide_eq_true same]
        exact List.mem_cons_self
      simp only [Yields, insertRow, statement, free]
      rfl
    obtain ⟨out,m,others⟩ := @ih { s with installations := s.installations ++ [⟨account,rec'⟩] } apart (by
      intro row mem listed
      obtain old | last := List.mem_append.mp mem
      · exact fresh row old (List.mem_cons_of_mem _ listed)
      · cases List.mem_singleton.mp last
        exact new listed)
    exact ⟨rec' :: out,m,yieldsBind inserted (yieldsBind others rfl)⟩

theorem eraseLast {s : Tables} (sound : Sound s) {front tombs : List Card} {c : Card} (here : shelf account s = front ++ c :: tombs)
    (live : ∀ d ∈ front ++ [c], d.record.status ≠ .removed) (few : tombs.length < keepRemoved) :
    shelf account (step s ⟨account,0,.softDelete c.record.id none,[]⟩).2 = front ++ erased 0 (c.record.revision + 1) c :: tombs := by
  have distinct := cardIds sound account
  have stays : c.record.status ≠ .removed := live c (List.mem_append_right _ List.mem_cons_self)
  have mem : c ∈ shelf account s := here ▸ List.mem_append_right _ List.mem_cons_self
  have found := foundIn distinct mem rfl
  have fetched : fetch account c.record.id s = some c.record := by
    rw [fetchCard, ← find, found]
    rfl
  obtain ⟨out,m,yields⟩ := @removalYields s account ⟨c.record.id,none,some .removed⟩ c.record 0 (.softDelete c.record.id none) rfl fetched stays rfl rfl
  have carried : (step s ⟨account,0,.softDelete c.record.id none,[]⟩).1 = .ok out := congrArg Prod.fst (Sql.yieldsPerform yields)
  obtain ⟨_,e,failed⟩ | ⟨_,written⟩ := stepPlaced sound ⟨account,0,.softDelete c.record.id none,[]⟩
  · rw [carried] at failed
    cases failed
  · have ended : Ended 0 (shelf account s) (.softDelete c.record.id none) ⟨c.record.id,none,some .removed⟩ c := layEnded rfl found stays
    rw [(ended.gone rfl rfl).2] at written
    rw [here, List.map_append, List.map_cons, List.nodup_append, List.nodup_cons] at distinct
    obtain ⟨_,⟨behind,_⟩,ahead⟩ := distinct
    have changed : change c.record.id (erased 0 (c.record.revision + 1)) (front ++ c :: tombs) = front ++ erased 0 (c.record.revision + 1) c :: tombs :=
      changeBetween rfl (fun d mem same => ahead _ (List.mem_map_of_mem mem) _ List.mem_cons_self same)
        (fun d mem same => behind (same ▸ List.mem_map_of_mem mem))
    rw [written.1.own, here, changed, keptAll]
    have none' : front.countP (fun c => c.record.status = .removed) = 0 := by
      rw [List.countP_eq_zero]
      exact fun d mem gone => live d (List.mem_append_left _ mem) (of_decide_eq_true gone)
    rw [List.countP_append, none', List.countP_cons]
    have bound := List.countP_le_length (p := fun c : Card => decide (c.record.status = .removed)) (l := tombs)
    split <;> omega

def deletions (account : AccountId) (cards : List Card) : List Call :=
  cards.reverse.map (fun c => ⟨account,0,.softDelete c.record.id none,[]⟩)

theorem deletionsErase {calls : List Call} {front back : List Card} (starts : shelf account (run calls) = front ++ back)
    (live : ∀ c ∈ front ++ back, c.record.status ≠ .removed) (few : back.length ≤ keepRemoved) :
    shelf account (run (calls ++ deletions account back)) = front ++ back.map (fun c => erased 0 (c.record.revision + 1) c) := by
  induction back generalizing front with
  | nil => simpa [deletions] using starts
  | cons c back ih =>
    have earlier := @ih (front ++ [c]) (by rw [starts]; simp) (by simpa using live) (Nat.le_of_succ_le few)
    rw [List.append_assoc, List.singleton_append] at earlier
    have whole : calls ++ deletions account (c :: back) = (calls ++ deletions account back) ++ [⟨account,0,.softDelete c.record.id none,[]⟩] := by
      simp [deletions]
    rw [whole, run, Machine.runNext, ← run]
    exact eraseLast (runSound _) earlier (fun d mem => live d (by simpa using Or.imp_right Or.inl (List.mem_append.mp mem))) (by simpa using few)

def zeros : String := .ofList (.replicate 64 '0')

def plain : AdmittedInput := ⟨⟨⟨"n",zeros,zeros,.object [],zeros,[],[],⟨"linux","",none⟩⟩,none⟩,nofun⟩

def uuid (i : Nat) : String := Hex.encode [.ofNat i] ++ "000000-0000-4000-8000-000000000000"

theorem uuidInjective {i j : Nat} (small : i < 256) (small' : j < 256) (same : uuid i = uuid j) : i = j := by
  have front : Hex.encode [.ofNat i] = Hex.encode [.ofNat j] := by
    have texts := congrArg String.toList same
    rw [uuid, uuid, String.toList_append, String.toList_append, List.append_left_inj] at texts
    exact String.toList_inj.mp texts
  have bytes := Option.some.inj ((Hex.decodeEncode [.ofNat i]).symm.trans ((congrArg Hex.decode front).trans (Hex.decodeEncode [.ofNat j])))
  have byte := congrArg UInt8.toNat (List.cons.inj bytes).1
  rw [UInt8.toNat_ofNat', UInt8.toNat_ofNat'] at byte
  omega

def buyer : AccountId := .replicate 32 7

def saved : List (AdmittedInput × String) := (List.range (keepRemoved + 1)).map (fun i => (plain,uuid i))

def savedCards : List Card := (drafts 0 (unwrapped saved)).map (fun rec => ⟨rec,[]⟩)

theorem savedLive : ∀ c ∈ savedCards, c.record.status ≠ .removed := by
  intro c mem
  obtain ⟨rec,listed,rfl⟩ := List.mem_map.mp mem
  obtain ⟨p,inputs,rfl⟩ := List.mem_map.mp listed
  obtain ⟨⟨input,uuid⟩,_,rfl⟩ := List.mem_map.mp inputs
  exact draftLive input uuid 0

theorem savedShelf : shelf buyer (run [⟨buyer,0,.importAll saved,[]⟩]) = savedCards := by
  have sound : Sound {} := ⟨by simp,by simp⟩
  have ids : (unwrapped saved).map Prod.snd = (List.range (keepRemoved + 1)).map uuid := by
    rw [unwrapped, saved, List.map_map, List.map_map]
    rfl
  have distinct : ((unwrapped saved).map Prod.snd).Nodup := by
    rw [ids]
    refine List.Nodup.map_on ?_ List.nodup_range
    intro i mem j mem' same
    have small := List.mem_range.mp mem
    have small' := List.mem_range.mp mem'
    exact uuidInjective (small.trans (by decide)) (small'.trans (by decide)) same
  have count : (unwrapped saved).length = keepRemoved + 1 := by rw [unwrapped, List.length_map, saved, List.length_map, List.length_range]
  have room : ¬maxInstallationsPerAccount < activeCount buyer {} + (unwrapped saved).length := by
    rw [count]
    decide
  obtain ⟨out,m,inserted⟩ := @insertAllYields buyer 0 _ {} distinct (by simp)
  obtain ⟨m',purged⟩ : ∃ m', Sql.Yields (purgeOldRemoved buyer) m () m' := ⟨_,Sql.yieldsBind rfl rfl⟩
  have whole : Sql.Yields (importAll buyer (unwrapped saved) 0) {} (some out) m' := by
    refine Sql.yieldsTransaction (Sql.yieldsBind rfl ?_)
    rw [if_neg room]
    exact Sql.yieldsBind inserted (Sql.yieldsBind purged rfl)
  have acted : Sql.Yields (act buyer 0 (.importAll saved)) {} (.importAll (some out)) m' := Sql.yieldsBind whole Sql.yieldsPure
  have carried : (step {} ⟨buyer,0,.importAll saved,[]⟩).1 = .ok (.importAll (some out)) := congrArg Prod.fst (Sql.yieldsPerform acted)
  obtain ⟨_,e,failed⟩ | ⟨_,written⟩ := stepPlaced sound ⟨buyer,0,.importAll saved,[]⟩
  · rw [carried] at failed
    cases failed
  · have empty : shelf buyer {} = [] := rfl
    have length : saved.length = (unwrapped saved).length := (List.length_map _).symm
    dsimp only [lay] at written
    rw [cardRecords, length, if_neg (show ¬maxInstallationsPerAccount < active (owned buyer {}) + _ from room), empty, List.nil_append] at written
    have none' : savedCards.countP (fun c => c.record.status = .removed) = 0 := by
      rw [List.countP_eq_zero]
      exact fun c mem gone => savedLive c mem (of_decide_eq_true gone)
    exact written.1.own.trans (keptAll (none'.trans_le (Nat.zero_le _)))

/- The last of them has no tombstone: its own deletion purges it. -/
theorem sameSecondDeletions : ¬∀ (calls : List Call) (call : Call), (calls ++ [call]).Pairwise (fun a b => a.now ≤ b.now) → Raises (run calls) call := by
  intro raises
  have count : savedCards.length = keepRemoved + 1 := by
    rw [savedCards, List.length_map, drafts, List.length_map, unwrapped, List.length_map, saved, List.length_map, List.length_range]
  obtain ⟨c,back,split⟩ : ∃ c back, savedCards = c :: back := List.exists_cons_of_length_eq_add_one count
  rw [split, List.length_cons, Nat.add_right_cancel_iff] at count
  have starts : shelf buyer (run [⟨buyer,0,.importAll saved,[]⟩]) = [c] ++ back := savedShelf.trans split
  have live : ∀ d ∈ c :: back, d.record.status ≠ .removed := split ▸ savedLive
  have deleted := deletionsErase starts live (Nat.le_of_eq count)
  generalize listed : [(⟨buyer,0,.importAll saved,[]⟩ : Call)] ++ deletions buyer back = calls at deleted
  have times : ∀ call ∈ calls, call.now = 0 := by
    intro call mem
    rw [← listed] at mem
    obtain first | later := List.mem_append.mp mem
    · rw [List.mem_singleton.mp first]
    · obtain ⟨d,_,rfl⟩ := List.mem_map.mp later
      rfl
  have distinct := cardIds (runSound calls) buyer
  have found := foundIn distinct (deleted ▸ List.mem_append_left _ List.mem_cons_self : c ∈ shelf buyer (run calls)) rfl
  have few := (raisesIff (runSound calls) ⟨buyer,0,.softDelete c.record.id none,[]⟩).mp (by
    intro faults
    refine raises calls _ (List.pairwise_of_forall_mem_list ?_)
    have last : ∀ call ∈ calls ++ [⟨buyer,0,.softDelete c.record.id none,faults⟩], call.now = 0 := by
      intro call mem
      obtain earlier | here := List.mem_append.mp mem
      · exact times call earlier
      · rw [List.mem_singleton.mp here]
    exact fun a mem b mem' => (last a mem).trans_le (last b mem').ge)
  have rivals' := few ⟨c.record.id,none,some .removed⟩ c.record rfl (foundLive found (live c List.mem_cons_self)) rfl rfl
  have ahead : ∀ d ∈ ([] : List Card), d.record.id ≠ c.record.id := by simp
  rw [← cardRecords, deleted] at rivals'
  have places := @rivalsBetween c.record.id 0 [] (back.map (fun c => erased 0 (c.record.revision + 1) c)) c rfl ahead
  rw [List.nil_append] at places
  have all : ((back.map (fun c => erased 0 (c.record.revision + 1) c)).map Card.record).countP (fun rec => rec.status = .removed ∧ 0 ≤ rec.updatedAt) =
      keepRemoved := by
    rw [List.countP_eq_length.mpr, List.length_map, List.length_map, count]
    intro rec mem
    obtain ⟨d,tomb,rfl⟩ := List.mem_map.mp mem
    obtain ⟨old,_,rfl⟩ := List.mem_map.mp tomb
    exact decide_eq_true ⟨rfl,le_rfl⟩
  rw [List.singleton_append, places, all] at rivals'
  exact absurd rivals' (by simp)

end SameSecond

end CadsTunnel.Installations
