import CadsTunnel.TopologyAuthorization

/-! The rewrite of the stored edges that every opening of the topology store makes: the rows
are folded into lower case in a temporary table, the table of edges is emptied and filled
again. Each statement is committed for itself, and the temporary table goes with its
connection. Earlier releases ordered the ends of an edge as they were spelled. -/
namespace CadsTunnel.TopologyStore
open OrderedMap Words Sql
open ChannelStore (toAsciiLowercase)
open Std (ExtTreeMap)

abbrev EdgeRows := BTreeMap EdgeKey (Option Bytes)

structure Connection where
  edges : EdgeRows
  dedup : Option EdgeRows := none

def loweredKey (k : EdgeKey) : EdgeKey := (k.1,toAsciiLowercase k.2.1,toAsciiLowercase k.2.2)

/- `MAX` passes over `NULL` and compares blobs byte by byte. -/
def maxBlob : Option Bytes → Option Bytes → Option Bytes
  | none,b => b
  | some a,none => some a
  | some a,some b => if a < b then some b else some a

/- `SELECT topology, lower(a), lower(b), MAX(channel_id) … GROUP BY topology, lower(a), lower(b)`. -/
def grouped (rows : List (EdgeKey × Option Bytes)) : EdgeRows :=
  rows.foldl (fun t row => t.insert (loweredKey row.1) (maxBlob (t[loweredKey row.1]?.getD none) row.2)) ∅

/- `INSERT INTO topology_edges … SELECT … FROM topology_edges_405_dedup`. -/
def refill (c : Connection) : Except SqlError (Unit × Connection) :=
  match c.dedup with
  | none => .error .failure
  | some t => if hasRow (fun k _ => c.edges.contains k) t then .error .constraint else .ok ((),{ c with edges := c.edges ∪ t })

def fromConnection : Session Connection SqlError Unit := do
  execute (fun c => ((),{ c with dedup := some (c.dedup.getD (grouped c.edges.toList)) }))
  execute (fun c => ((),{ c with edges := ∅ }))
  statement refill
  statement (fun c => if c.dedup.isSome then .ok ((),{ c with dedup := none }) else .error .failure)

/- What an opening leaves in the file, where the faults say before which statement it stops. -/
def reopen (rows : EdgeRows) (faults : List Bool) : EdgeRows := (perform fromConnection ⟨rows,none⟩ faults).2.edges

def opened (old : EdgeRows) (stopped : List (List Bool)) : EdgeRows := reopen (stopped.foldl reopen old) []

/- The opening stops with the table emptied. -/
def Torn (faults : List Bool) : Prop := faults.take 3 = [false,false,true]

instance (faults : List Bool) : Decidable (Torn faults) := inferInstanceAs (Decidable (_ = _))

/- The ends of an edge in one spelling and order. -/
def joins (k : EdgeKey) (old : EdgeKey) : Prop := edgeKey old.1 old.2.1 old.2.2 = k

/- The wiring is kept: one row for each edge up to the case and the order of its ends, in lower
case and in order, with a channel if one of the merged rows had one; and the owner can remove
it in any spelling. -/
structure Preserves (old new : EdgeRows) : Prop where
  spelled : ∀ (k : EdgeKey) (link : Option Bytes), new[k]? = some link → Lower k.2.1 ∧ Lower k.2.2 ∧ k.2.1 < k.2.2
  covers : ∀ (k : EdgeKey) (link : Option Bytes), old[k]? = some link → ∃ place link', joins place k ∧ new[place]? = some link'
  only : ∀ (k : EdgeKey) (link : Option Bytes), new[k]? = some link → ∃ (k' : EdgeKey) (link' : Option Bytes), old[k']? = some link' ∧ joins k k'
  keeps : ∀ (k place : EdgeKey) (channelId : Bytes) (link : Option Bytes), old[k]? = some (some channelId) → joins place k →
    new[place]? = some link → link.isSome
  given : ∀ (k : EdgeKey) (channelId : Bytes), new[k]? = some (some channelId) → ∃ k' : EdgeKey, old[k']? = some (some channelId) ∧ joins k k'
  removable : ∀ (s : Tables) (topology x y a b owner : String) (link : Option Bytes), s.edges = new → new[(topology,x,y)]? = some link →
    s.topologies[topology]?.any (fun t => t.owner = owner) →
    (toAsciiLowercase a = x ∧ toAsciiLowercase b = y ∨ toAsciiLowercase a = y ∧ toAsciiLowercase b = x) →
    perform (removeEdge owner topology a b) s [] = (.ok true,s.unwired (topology,x,y))

/- What the rewrite does: it merges the rows of one lower-case spelling. -/
structure Lowered (old new : EdgeRows) : Prop where
  covers : ∀ (k : EdgeKey) (link : Option Bytes), old[k]? = some link → ∃ link', new[loweredKey k]? = some link'
  only : ∀ (k : EdgeKey) (link : Option Bytes), new[k]? = some link →
    ∃ (k' : EdgeKey) (link' : Option Bytes), old[k']? = some link' ∧ loweredKey k' = k
  keeps : ∀ (k : EdgeKey) (channelId : Bytes) (link : Option Bytes), old[k]? = some (some channelId) → new[loweredKey k]? = some link → link.isSome
  given : ∀ (k : EdgeKey) (channelId : Bytes), new[k]? = some (some channelId) →
    ∃ k' : EdgeKey, old[k']? = some (some channelId) ∧ loweredKey k' = k

theorem loweredTwice (k : EdgeKey) : loweredKey (loweredKey k) = loweredKey k := by
  have first : toAsciiLowercase (toAsciiLowercase k.2.1) = toAsciiLowercase k.2.1 := lowerTwice k.2.1
  have second : toAsciiLowercase (toAsciiLowercase k.2.2) = toAsciiLowercase k.2.2 := lowerTwice k.2.2
  rw [loweredKey, loweredKey, first, second]

theorem loweredTrans {a b c : EdgeRows} (first : Lowered a b) (second : Lowered b c) : Lowered a c where
  covers k link here := by
    obtain ⟨link',there⟩ := first.covers k link here
    have later := second.covers _ link' there
    rwa [loweredTwice] at later
  only k link here := by
    obtain ⟨k',link',there,same⟩ := second.only k link here
    obtain ⟨k'',link'',earlier,same'⟩ := first.only k' link' there
    exact ⟨k'',link'',earlier,by rw [← same, ← same', loweredTwice]⟩
  keeps k channelId link here last := by
    obtain ⟨link',there⟩ := first.covers k _ here
    obtain ⟨held,rfl⟩ := Option.isSome_iff_exists.mp (first.keeps k channelId link' here there)
    refine second.keeps _ held link there ?_
    rwa [loweredTwice]
  given k channelId here := by
    obtain ⟨k',there,same⟩ := second.given k channelId here
    obtain ⟨k'',earlier,same'⟩ := first.given k' channelId there
    exact ⟨k'',earlier,by rw [← same, ← same', loweredTwice]⟩

/- The rows that are folded, seen from one spelling. -/
structure Folded (rows : List (EdgeKey × Option Bytes)) (t : EdgeRows) : Prop where
  covers : ∀ row ∈ rows, ∃ link, t[loweredKey row.1]? = some link
  only : ∀ (k : EdgeKey) (link : Option Bytes), t[k]? = some link → ∃ row ∈ rows, loweredKey row.1 = k
  keeps : ∀ k channelId link, (k,some channelId) ∈ rows → t[loweredKey k]? = some link → link.isSome
  given : ∀ (k : EdgeKey) (channelId : Bytes), t[k]? = some (some channelId) → ∃ k', (k',some channelId) ∈ rows ∧ loweredKey k' = k

theorem maxBlobSome (a b : Option Bytes) : (maxBlob a b).isSome ↔ a.isSome ∨ b.isSome := by
  cases a <;> cases b <;> simp [maxBlob]
  split <;> rfl

theorem maxBlobGiven {a b : Option Bytes} {channelId : Bytes} (given : maxBlob a b = some channelId) :
    a = some channelId ∨ b = some channelId := by
  cases a with
  | none => exact .inr given
  | some a =>
    cases b with
    | none => exact .inl given
    | some b =>
      rw [maxBlob] at given
      split at given
      · exact .inr given
      · exact .inl given

theorem groupedFolded (rows : List (EdgeKey × Option Bytes)) : Folded rows (grouped rows) := by
  induction rows using List.reverseRecOn with
  | nil => constructor <;> simp [grouped]
  | append_singleton rows row ih =>
    obtain ⟨k,link⟩ := row
    have stepped : grouped (rows ++ [(k,link)]) =
        (grouped rows).insert (loweredKey k) (maxBlob ((grouped rows)[loweredKey k]?.getD none) link) := by
      rw [grouped, List.foldl_append]
      rfl
    constructor
    case covers =>
      intro row mem
      rw [stepped, lookupInsert]
      split
      · exact ⟨_,rfl⟩
      · rename_i other
        rcases List.mem_append.mp mem with earlier | last
        · exact ih.covers row earlier
        · rw [List.mem_singleton.mp last] at other
          contradiction
    case only =>
      intro place now here
      rw [stepped, lookupInsert] at here
      split at here
      case isTrue same => exact ⟨(k,link),by simp,same.symm⟩
      case isFalse =>
        obtain ⟨row,mem,same⟩ := ih.only place now here
        exact ⟨row,List.mem_append_left _ mem,same⟩
    case keeps =>
      intro k' channelId now mem here
      rw [stepped, lookupInsert] at here
      split at here
      case isTrue same =>
        cases Option.some.inj here
        rw [maxBlobSome]
        rcases List.mem_append.mp mem with earlier | last
        · obtain ⟨before,found⟩ := ih.covers _ earlier
          have held := ih.keeps k' channelId before earlier found
          dsimp only at found
          rw [same] at found
          rw [found]
          exact .inl held
        · cases List.mem_singleton.mp last
          exact .inr rfl
      case isFalse other =>
        rcases List.mem_append.mp mem with earlier | last
        · exact ih.keeps k' channelId now earlier here
        · cases List.mem_singleton.mp last
          contradiction
    case given =>
      intro place channelId here
      rw [stepped, lookupInsert] at here
      split at here
      case isTrue same =>
        rcases maxBlobGiven (Option.some.inj here) with before | now
        · cases found : (grouped rows)[loweredKey k]? with
          | none =>
            rw [found] at before
            contradiction
          | some held =>
            rw [found, Option.getD_some] at before
            subst before
            obtain ⟨k',mem,same'⟩ := ih.given _ channelId found
            exact ⟨k',List.mem_append_left _ mem,same'.trans same.symm⟩
        · exact ⟨k,by simp [now],same.symm⟩
      case isFalse =>
        obtain ⟨k',mem,same⟩ := ih.given place channelId here
        exact ⟨k',List.mem_append_left _ mem,same⟩

theorem groupedLowered (old : EdgeRows) : Lowered old (grouped old.toList) := by
  have folded := groupedFolded old.toList
  constructor
  case covers => exact fun k link here => folded.covers (k,link) (ExtTreeMap.mem_toList_iff_getElem?_eq_some.mpr here)
  case only =>
    intro k link here
    obtain ⟨⟨k',link'⟩,mem,same⟩ := folded.only k link here
    exact ⟨k',link',ExtTreeMap.mem_toList_iff_getElem?_eq_some.mp mem,same⟩
  case keeps =>
    intro k channelId link here last
    exact folded.keeps k channelId link (ExtTreeMap.mem_toList_iff_getElem?_eq_some.mpr here) last
  case given =>
    intro k channelId here
    obtain ⟨k',mem,same⟩ := folded.given k channelId here
    exact ⟨k',ExtTreeMap.mem_toList_iff_getElem?_eq_some.mp mem,same⟩

theorem refillEmpty (t : EdgeRows) : refill ⟨∅,some t⟩ = .ok ((),⟨t,some t⟩) := by
  have free : hasRow (fun k (_ : Option Bytes) => (∅ : EdgeRows).contains k) t = false := by
    rw [← Bool.not_eq_true, hasRowIff]
    rintro ⟨k,v,-,taken⟩
    simp at taken
  have whole : (∅ : EdgeRows) ∪ t = t := by
    refine ExtTreeMap.ext_getElem? ?_
    intro k
    rw [ExtTreeMap.getElem?_union, ExtTreeMap.getElem?_empty, Option.or_none]
  simp only [refill, free, Bool.false_eq_true, if_false, whole]

/- The four statements, and what is left where one of them stops. -/
theorem reopenIs (rows : EdgeRows) (faults : List Bool) : reopen rows faults =
    if faults.headD false then rows
    else if faults.tail.headD false then rows
    else if faults.tail.tail.headD false then ∅
    else grouped rows.toList := by
  unfold reopen fromConnection
  rw [performExecute]
  split
  · rfl
  · rw [performExecute]
    split
    · rfl
    · rw [performStatement]
      split
      · rfl
      · dsimp only
        rw [Option.getD_none, refillEmpty]
        dsimp only
        rw [← bind_pure (statement _), performStatement]
        split
        · rfl
        · rfl

theorem tornIff (faults : List Bool) :
    Torn faults ↔ faults.headD false = false ∧ faults.tail.headD false = false ∧ faults.tail.tail.headD false = true := by
  rcases faults with _ | ⟨a,_ | ⟨b,_ | ⟨c,rest⟩⟩⟩ <;> simp [Torn]

theorem reopenCases (rows : EdgeRows) (faults : List Bool) :
    reopen rows faults = rows ∨ Torn faults ∧ reopen rows faults = ∅ ∨ reopen rows faults = grouped rows.toList := by
  rw [reopenIs, tornIff]
  split
  · exact .inl rfl
  · split
    · exact .inl rfl
    · split
      · rename_i first second third
        exact .inr (.inl ⟨⟨(Bool.not_eq_true _).mp first,(Bool.not_eq_true _).mp second,third⟩,rfl⟩)
      · exact .inr (.inr rfl)

theorem reopenTorn {faults : List Bool} (torn : Torn faults) (rows : EdgeRows) : reopen rows faults = ∅ := by
  obtain ⟨first,second,third⟩ := (tornIff faults).mp torn
  rw [reopenIs, first, second, third]
  rfl

theorem groupedEmpty : grouped (∅ : EdgeRows).toList = ∅ := by
  have none : (∅ : EdgeRows).toList = [] := by simp
  rw [none]
  rfl

theorem reopenEmpty (stopped : List (List Bool)) : stopped.foldl reopen (∅ : EdgeRows) = ∅ := by
  induction stopped with
  | nil => rfl
  | cons faults stopped ih =>
    rw [List.foldl_cons]
    rcases reopenCases ∅ faults with same | ⟨-,same⟩ | same
    · rw [same, ih]
    · rw [same, ih]
    · rw [same, groupedEmpty, ih]

/- Openings that are not torn leave the rows or their lower-case form. -/
theorem stoppedLowered (old : EdgeRows) (stopped : List (List Bool)) (whole : ∀ faults ∈ stopped, ¬Torn faults) :
    stopped.foldl reopen old = old ∨ Lowered old (stopped.foldl reopen old) := by
  induction stopped using List.reverseRecOn with
  | nil => exact .inl rfl
  | append_singleton stopped faults ih =>
    have before := ih (fun faults mem => whole faults (List.mem_append_left _ mem))
    rw [List.foldl_append, List.foldl_cons, List.foldl_nil]
    rcases reopenCases (stopped.foldl reopen old) faults with same | ⟨torn,-⟩ | same
    · rw [same]
      exact before
    · exact absurd torn (whole faults (by simp))
    · rw [same]
      rcases before with kept | lowered
      · rw [kept]
        exact .inr (groupedLowered old)
      · exact .inr (loweredTrans lowered (groupedLowered _))

theorem openedLowered (old : EdgeRows) (stopped : List (List Bool)) (whole : ∀ faults ∈ stopped, ¬Torn faults) :
    Lowered old (opened old stopped) := by
  have last : opened old stopped = grouped (stopped.foldl reopen old).toList := by
    rw [opened, reopenIs]
    rfl
  rw [last]
  rcases stoppedLowered old stopped whole with kept | lowered
  · rw [kept]
    exact groupedLowered old
  · exact loweredTrans lowered (groupedLowered _)

/- A torn opening loses every row. -/
theorem openedTorn (old : EdgeRows) {stopped : List (List Bool)} {faults : List Bool} (mem : faults ∈ stopped) (torn : Torn faults) :
    opened old stopped = ∅ := by
  obtain ⟨before,after,rfl⟩ := List.append_of_mem mem
  have emptied : (before ++ faults :: after).foldl reopen old = ∅ := by
    rw [List.foldl_append, List.foldl_cons, reopenTorn torn, reopenEmpty]
  rw [opened, emptied]
  exact reopenEmpty [[]]

theorem loweredOrdered {k : EdgeKey} (ordered : toAsciiLowercase k.2.1 < toAsciiLowercase k.2.2) :
    edgeKey k.1 k.2.1 k.2.2 = loweredKey k := if_pos ordered.le

theorem loweredPreserves {old new : EdgeRows} (lowered : Lowered old new)
    (ordered : ∀ (k : EdgeKey) (link : Option Bytes), old[k]? = some link → toAsciiLowercase k.2.1 < toAsciiLowercase k.2.2) :
    Preserves old new := by
  have spelled : ∀ (k : EdgeKey) (link : Option Bytes), new[k]? = some link → Lower k.2.1 ∧ Lower k.2.2 ∧ k.2.1 < k.2.2 := by
    intro k link here
    obtain ⟨k',link',there,rfl⟩ := lowered.only k link here
    exact ⟨lowerTwice _,lowerTwice _,ordered k' link' there⟩
  constructor
  case spelled => exact spelled
  case covers =>
    intro k link here
    obtain ⟨link',there⟩ := lowered.covers k link here
    exact ⟨loweredKey k,link',loweredOrdered (ordered k link here),there⟩
  case only =>
    intro k link here
    obtain ⟨k',link',there,same⟩ := lowered.only k link here
    exact ⟨k',link',there,(loweredOrdered (ordered k' link' there)).trans same⟩
  case keeps =>
    intro k place channelId link here same there
    have at' : loweredKey k = place := (loweredOrdered (ordered k _ here)).symm.trans same
    exact lowered.keeps k channelId link here (at' ▸ there)
  case given =>
    intro k channelId here
    obtain ⟨k',there,same⟩ := lowered.given k channelId here
    exact ⟨k',there,(loweredOrdered (ordered k' _ there)).trans same⟩
  case removable =>
    rintro s topology x y a b owner link rfl here owned same
    have place := @edgeKeyOf topology _ _ _ _ (spelled _ link here).2.2 same
    have allowed : Yields (ownsTopology owner topology) s (s.topologies[topology]?.any (fun t => t.owner = owner)) s := rfl
    rw [owned] at allowed
    exact place ▸ yieldsPerform (unwireYields allowed (place.symm ▸ here))

/- An opening keeps the wiring exactly if each stored edge is in order when its ends are put
in lower case, and no earlier opening was stopped between the deletion and the insertion while
there was an edge to lose. -/
theorem migrationPreserves (old : EdgeRows) (stopped : List (List Bool)) : Preserves old (opened old stopped) ↔
    (∀ (k : EdgeKey) (link : Option Bytes), old[k]? = some link → toAsciiLowercase k.2.1 < toAsciiLowercase k.2.2) ∧
    ((∃ faults ∈ stopped, Torn faults) → old = ∅) := by
  constructor
  · intro preserves
    have torn : (∃ faults ∈ stopped, Torn faults) → old = ∅ := by
      rintro ⟨faults,mem,torn⟩
      have emptied := openedTorn old mem torn
      by_contra occupied
      obtain ⟨k,present⟩ := not_forall_not.mp (mt ExtTreeMap.eq_empty_iff_forall_not_mem.mpr occupied)
      obtain ⟨link,here⟩ := Option.isSome_iff_exists.mp (ExtTreeMap.mem_iff_isSome_getElem?.mp present)
      obtain ⟨place,link',-,there⟩ := preserves.covers k link here
      rw [emptied] at there
      simp at there
    refine ⟨?_,torn⟩
    intro k link here
    have whole : ∀ faults ∈ stopped, ¬Torn faults := by
      intro faults mem hit
      rw [torn ⟨faults,mem,hit⟩] at here
      simp at here
    obtain ⟨link',there⟩ := (openedLowered old stopped whole).covers k link here
    exact (preserves.spelled _ link' there).2.2
  · rintro ⟨ordered,torn⟩
    by_cases hit : ∃ faults ∈ stopped, Torn faults
    · obtain ⟨faults,mem,tears⟩ := hit
      rw [openedTorn old mem tears, torn ⟨faults,mem,tears⟩]
      constructor <;> simp
    · exact loweredPreserves (openedLowered old stopped (fun faults mem tears => hit ⟨faults,mem,tears⟩)) ordered

/- The ends are in order as they are spelled, and no longer in lower case. -/
def unlowered : EdgeRows := (∅ : EdgeRows).insert ("net","B","a") none

def wiredEdge : EdgeRows := (∅ : EdgeRows).insert ("net","a","b") none

theorem migrationLeavesUnordered :
    ("B" < "a" ∧ ¬Preserves unlowered (opened unlowered [])) ∧
    ("a" < "b" ∧ ¬Preserves wiredEdge (opened wiredEdge [[false,false,true]])) := by
  have emptied : opened wiredEdge [[false,false,true]] = ∅ := openedTorn wiredEdge (List.mem_singleton.mpr rfl) rfl
  refine ⟨⟨by decide,?_⟩,⟨by decide,?_⟩⟩
  · intro preserves
    have here : (opened unlowered [])[(("net","b","a") : EdgeKey)]? = some none := by decide +kernel
    exact absurd (preserves.spelled _ _ here).2.2 (by decide)
  · intro preserves
    obtain ⟨place,link,-,there⟩ := preserves.covers ("net","a","b") none (by decide +kernel)
    rw [emptied] at there
    simp at there

end CadsTunnel.TopologyStore
