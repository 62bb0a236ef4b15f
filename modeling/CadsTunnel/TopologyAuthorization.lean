import CadsTunnel.HexText
import CadsTunnel.ReceiptChain
import CadsTunnel.TopologyStore

/-! The admission gate asks the topology store whether a drawn edge names the channel. The
forward set decodes every edge of a topology; the gate looks the holder up by its text among
the stored ends. Both see the same links, since whatever the order of the writers every edge
is in one spelling and in a topology that exists. -/
namespace CadsTunnel.TopologyStore
open OrderedMap Words Sql
open ChannelStore (toAsciiLowercase)
open Receipts (eqIgnoreAsciiCase)
open Std (ExtTreeMap)

def topoNodeHex32 (s : String) : Option Key := Hex.decode32 s

/- `try_from` of a stored blob. -/
def asKey (raw : Bytes) : Option Key := if size : raw.toArray.size = 32 then some ⟨raw.toArray,size⟩ else none

def edges (topology : String) : Work (List (String × String)) :=
  select (fun s => (s.edges.keys.filter (fun k => k.1 = topology)).map Prod.snd)

section Reads
variable (sha256 : Bytes → Hash)

def channelIdForLink (operatorPubkey holderA holderB : Key) : ChannelId :=
  let (lo,hi) := if holderA ≤ holderB then (holderA,holderB) else (holderB,holderA)
  sha256 (asBytes "ct-link-channel-v1" ++ operatorPubkey.toList ++ lo.toList ++ hi.toList)

def linkChannels (operatorPubkey : Key) (links : List (Key × Key)) : Finset ChannelId :=
  (links.map (fun l => channelIdForLink sha256 operatorPubkey l.1 l.2)).toFinset

def authorizedChannels (topology : String) (operatorPubkey : Key) : Work (Finset ChannelId) := do
  let drawn ← edges topology
  let links := drawn.filterMap (fun e => do
    let a ← topoNodeHex32 e.1
    let b ← topoNodeHex32 e.2
    some (a,b))
  pure (linkChannels sha256 operatorPubkey links)

/- One branch of the union: the edges whose one end is the holder, with the operator of their topology. -/
def seek (holderHex : String) (side : String × String → String) (s : Tables) : List (Bytes × String × String) :=
  (s.edges.keys.filter (fun k => side k.2 = holderHex)).filterMap (fun k =>
    (s.topologies[k.1]?.bind TopologyRow.operatorPubkey).map (fun op => (op,k.2)))

def admits (channel : ChannelId) (holder : Key) (holderHex : String) (row : Bytes × String × String) : Option Key := do
  let op ← asKey row.1
  let otherHex := if eqIgnoreAsciiCase row.2.1 holderHex then row.2.2 else row.2.1
  let other ← topoNodeHex32 otherHex
  if channelIdForLink sha256 op holder other = channel then some op else none

def topologyAuthorizes (channel : ChannelId) (holder : Key) : Work (Option Key) := do
  let holderHex := Hex.encode holder.toList
  let rows ← select (fun s => seek holderHex Prod.fst s ++ seek holderHex Prod.snd s)
  pure (rows.findSome? (admits sha256 channel holder holderHex))

/- An edge of a topology that an operator is bound to, between two keys. -/
structure Drawn (s : Tables) (op : Key) (k : EdgeKey) (a b : Key) : Prop where
  bound : ∃ row, s.topologies[k.1]? = some row ∧ row.operatorPubkey = some op.toList
  stored : ∃ link, s.edges[k]? = some link
  first : topoNodeHex32 k.2.1 = some a
  second : topoNodeHex32 k.2.2 = some b

/- What lets a holder into a channel. -/
def Grants (s : Tables) (channel : ChannelId) (holder op : Key) (k : EdgeKey) : Prop :=
  ∃ a b, Drawn s op k a b ∧ (a = holder ∨ b = holder) ∧ channelIdForLink sha256 op a b = channel ∧
    ∃ channels, perform (authorizedChannels sha256 k.1 op) s [] = (.ok channels,s) ∧ channel ∈ channels

/- No two drawn links have one channel, but for the order of their ends. -/
def Separated (s : Tables) : Prop :=
  ∀ op op' k k' a b a' b', Drawn s op k a b → Drawn s op' k' a' b' → channelIdForLink sha256 op a b = channelIdForLink sha256 op' a' b' →
    op = op' ∧ (a = a' ∧ b = b' ∨ a = b' ∧ b = a')

end Reads
def Lower (x : String) : Prop := toAsciiLowercase x = x

/- What every order of the writers keeps. -/
structure Wired (s : Tables) : Prop where
  spelled : ∀ (k : EdgeKey) (link : Option Bytes), s.edges[k]? = some link → Lower k.2.1 ∧ Lower k.2.2 ∧ k.2.1 < k.2.2
  edgeStands : ∀ (k : EdgeKey) (link : Option Bytes), s.edges[k]? = some link → ∃ row, s.topologies[k.1]? = some row
  shareStands : ∀ (k : String × String) (share : ShareRow), s.shares[k]? = some share → ∃ row, s.topologies[k.1]? = some row
  bound : ∀ (id : String) (row : TopologyRow) (op : Bytes), s.topologies[id]? = some row → row.operatorPubkey = some op → ∃ key : Key, op = key.toList

section Spelling

theorem lowerTwice (x : String) : Lower (toAsciiLowercase x) := ChannelStore.lowercaseTwice x

theorem lowerChars {x : String} (lower : Lower x) : ∀ c ∈ x.toList, c.toLower = c := by
  have chars : x.toList.map Char.toLower = x.toList := by
    have text := congrArg String.toList lower
    rwa [toAsciiLowercase, String.toList_ofList] at text
  exact List.map_inj_left.mp (chars.trans (List.map_id _).symm)

theorem charsLower {x : String} (lower : ∀ c ∈ x.toList, c.toLower = c) : Lower x := by
  have chars : x.toList.map Char.toLower = x.toList := (List.map_congr_left lower).trans (List.map_id' _)
  rw [Lower, toAsciiLowercase, chars, String.ofList_toList]

theorem holderLower (holder : Key) : Lower (Hex.encode holder.toList) := charsLower (Hex.encodeLower holder.toList)

theorem nodeText {x : String} {key : Key} (lower : Lower x) : topoNodeHex32 x = some key ↔ x = Hex.encode key.toList := by
  constructor
  · exact fun read => Hex.encodeDecodeArray read (lowerChars lower)
  · rintro rfl
    exact Hex.decodeArrayEncode key

theorem edgeKeySpelled {topology a b : String} (apart : toAsciiLowercase a ≠ toAsciiLowercase b) :
    (edgeKey topology a b).1 = topology ∧ Lower (edgeKey topology a b).2.1 ∧ Lower (edgeKey topology a b).2.2 ∧
      (edgeKey topology a b).2.1 < (edgeKey topology a b).2.2 := by
  unfold edgeKey
  dsimp only
  split
  case isTrue le => exact ⟨rfl,lowerTwice a,lowerTwice b,lt_of_le_of_ne le apart⟩
  case isFalse gt => exact ⟨rfl,lowerTwice b,lowerTwice a,not_le.mp gt⟩

theorem linkSwap (sha256 : Bytes → Hash) (op a b : Key) : channelIdForLink sha256 op a b = channelIdForLink sha256 op b a := by
  unfold channelIdForLink
  by_cases le : a ≤ b
  · by_cases ge : b ≤ a
    · rw [Vector.le_antisymm le ge]
    · rw [if_pos le, if_neg ge]
  · rw [if_neg le, if_pos (Std.le_of_not_ge le)]

end Spelling
section Writers
variable {s m : Tables}

theorem wiredEmpty : Wired {} := by
  constructor <;> simp

theorem wiredDropped (wired : Wired s) (id : String) : Wired (s.dropped id) := by
  have standing : ∀ a : String, a ≠ id → (∃ row, s.topologies[a]? = some row) → ∃ row, (s.dropped id).topologies[a]? = some row := by
    rintro a other ⟨row,found⟩
    exact ⟨row,by rw [Tables.dropped, lookupErase, if_neg other, found]⟩
  constructor
  case spelled =>
    intro k link here
    rw [Tables.dropped, lookupDeleted, Option.filter_eq_some_iff] at here
    exact wired.spelled k link here.1
  case edgeStands =>
    intro k link here
    rw [Tables.dropped, lookupDeleted, Option.filter_eq_some_iff] at here
    exact standing k.1 (by simpa using here.2) (wired.edgeStands k link here.1)
  case shareStands =>
    intro k share here
    rw [Tables.dropped, lookupDeleted, Option.filter_eq_some_iff] at here
    exact standing k.1 (by simpa using here.2) (wired.shareStands k share here.1)
  case bound =>
    intro a row op here
    rw [Tables.dropped, lookupErase] at here
    split at here <;> try contradiction
    exact wired.bound a row op here

theorem wiredWithdrawn (wired : Wired s) (owner : String) : Wired (s.withdrawn owner) := by
  have folded : ∀ ids : List String, ∀ s, Wired s → Wired (ids.foldl (Tables.droppedOf owner) s) := by
    intro ids
    induction ids with
    | nil => exact fun s wired => wired
    | cons id ids ih =>
      intro s wired
      refine ih _ ?_
      rw [Tables.droppedOf]
      split
      · exact wiredDropped wired id
      · exact wired
  have kept := folded (s.topologies.filter (fun _ t => t.owner = owner)).keys s wired
  refine ⟨kept.spelled,kept.edgeStands,?_,kept.bound⟩
  intro k share here
  rw [Tables.withdrawn, Tables.forsaken, lookupDeleted, Option.filter_eq_some_iff] at here
  exact kept.shareStands k share here.1

/- A topology keeps its id when its row is written. -/
theorem wiredInsert (wired : Wired s) {id : String} {row : TopologyRow}
    (bound : ∀ op, row.operatorPubkey = some op → ∃ key : Key, op = key.toList) :
    Wired { s with topologies := s.topologies.insert id row } := by
  have standing : ∀ a : String, (∃ row, s.topologies[a]? = some row) → ∃ other, (s.topologies.insert id row)[a]? = some other := by
    rintro a ⟨other,found⟩
    rw [lookupInsert]
    split
    · exact ⟨row,rfl⟩
    · exact ⟨other,found⟩
  refine ⟨wired.spelled,fun k link here => standing k.1 (wired.edgeStands k link here),
    fun k share here => standing k.1 (wired.shareStands k share here),?_⟩
  intro a other op here
  dsimp only at here
  rw [lookupInsert] at here
  split at here
  · cases Option.some.inj here
    exact bound op
  · exact wired.bound a other op here

theorem wiredEffect {op : Op} {r : Except TopologyError Answer} (wired : Wired s) (effect : Effect s op r m) : Wired m := by
  cases effect with
  | idle => exact wired
  | created => exact wiredInsert wired nofun
  | deleted => exact wiredDropped wired _
  | deletedAll => exact wiredWithdrawn wired _
  | @bound _ _ operatorPubkey =>
    refine wiredInsert wired ?_
    rintro op ⟨⟩
    exact ⟨operatorPubkey,rfl⟩
  | @wired _ topology a b allowed apart =>
    obtain ⟨place,lowA,lowB,ordered⟩ := @edgeKeySpelled topology _ _ apart
    have stands : ∃ row, s.topologies[topology]? = some row := by
      rcases allowed with standing | ⟨email,share,shared⟩
      · exact standing
      · exact wired.shareStands (topology,email) share shared
    refine ⟨?_,?_,wired.shareStands,wired.bound⟩
    · intro k link here
      dsimp only at here
      rw [lookupInsert] at here
      split at here
      case isTrue same => exact same ▸ ⟨lowA,lowB,ordered⟩
      case isFalse => exact wired.spelled k link here
    · intro k link here
      dsimp only at here
      rw [lookupInsert] at here
      split at here
      case isTrue same =>
        rw [same, place]
        exact stands
      case isFalse => exact wired.edgeStands k link here
  | unwired =>
    have earlier : ∀ (k k' : EdgeKey) (link : Option Bytes), (s.edges.erase k')[k]? = some link → s.edges[k]? = some link := by
      intro k k' link here
      rw [lookupErase] at here
      split at here <;> try contradiction
      exact here
    exact ⟨fun k link here => wired.spelled k link (earlier _ _ _ here),fun k link here => wired.edgeStands k link (earlier _ _ _ here),
      wired.shareStands,wired.bound⟩
  | @attached _ place old link yes found =>
    have earlier : ∀ (k : EdgeKey) (now : Option Bytes), (s.edges.insert place link)[k]? = some now → ∃ before, s.edges[k]? = some before := by
      intro k now here
      rw [lookupInsert] at here
      split at here
      case isTrue same => exact ⟨old,same ▸ found⟩
      case isFalse => exact ⟨now,here⟩
    refine ⟨?_,?_,wired.shareStands,wired.bound⟩
    · intro k now here
      obtain ⟨before,there⟩ := earlier k now here
      exact wired.spelled k before there
    · intro k now here
      obtain ⟨before,there⟩ := earlier k now here
      exact wired.edgeStands k before there
  | @shared _ topology email share row found =>
    refine ⟨wired.spelled,wired.edgeStands,?_,wired.bound⟩
    intro k other here
    dsimp only at here
    rw [lookupInsert] at here
    split at here
    case isTrue same => exact ⟨row,same.symm ▸ found⟩
    case isFalse => exact wired.shareStands k other here
  | unshared p =>
    refine ⟨wired.spelled,wired.edgeStands,?_,wired.bound⟩
    intro k share here
    dsimp only at here
    rw [lookupDeleted, Option.filter_eq_some_iff] at here
    exact wired.shareStands k share here.1
  | assigned => exact ⟨wired.spelled,wired.edgeStands,wired.shareStands,wired.bound⟩
  | revoked => exact ⟨wired.spelled,wired.edgeStands,wired.shareStands,wired.bound⟩

theorem wiredRun (verify : Key → Bytes → Signature → Bool) (calls : List Call) : Wired (run verify calls) :=
  Machine.runInvariant Wired (fun s call wired => wiredEffect wired (stepEffect verify s call)) wiredEmpty calls

end Writers
section Gate
variable {sha256 : Bytes → Hash} {s : Tables} {channel : ChannelId} {holder op : Key} {k : EdgeKey}

theorem keyAsKey (key : Key) : asKey key.toList = some key := by
  have size : key.toList.toArray.size = 32 := by simp
  rw [asKey, dif_pos size]
  rfl

theorem seekIff {hex : String} {side : String × String → String} {row : Bytes × String × String} :
    row ∈ seek hex side s ↔ ∃ (k : EdgeKey) (t : TopologyRow), (∃ link, s.edges[k]? = some link) ∧ side k.2 = hex ∧
      s.topologies[k.1]? = some t ∧ t.operatorPubkey = some row.1 ∧ k.2 = row.2 := by
  obtain ⟨op,ends⟩ := row
  rw [seek, List.mem_filterMap]
  constructor
  · rintro ⟨k,mem,joined⟩
    rw [List.mem_filter, ExtTreeMap.mem_keys, ExtTreeMap.mem_iff_isSome_getElem?, Option.isSome_iff_exists, decide_eq_true_eq] at mem
    obtain ⟨raw,bound,same⟩ := Option.map_eq_some_iff.mp joined
    obtain ⟨t,found,operator⟩ := Option.bind_eq_some_iff.mp bound
    cases same
    exact ⟨k,t,mem.1,mem.2,found,operator,rfl⟩
  · rintro ⟨k,t,stored,here,found,operator,rfl⟩
    refine ⟨k,?_,by simp [found, operator]⟩
    rw [List.mem_filter, ExtTreeMap.mem_keys, ExtTreeMap.mem_iff_isSome_getElem?, Option.isSome_iff_exists, decide_eq_true_eq]
    exact ⟨stored,here⟩

theorem sameText {x y : String} (lowerX : Lower x) (lowerY : Lower y) : eqIgnoreAsciiCase x y = decide (x = y) := by
  have charsX := (List.map_congr_left (lowerChars lowerX)).trans (List.map_id' _)
  have charsY := (List.map_congr_left (lowerChars lowerY)).trans (List.map_id' _)
  rw [eqIgnoreAsciiCase, charsX, charsY]
  exact decide_eq_decide.mpr String.toList_inj

/- A drawn link is in the forward set. -/
theorem drawnAuthorized {a b : Key} (drawn : Drawn s op k a b) : ∃ channels,
    perform (authorizedChannels sha256 k.1 op) s [] = (.ok channels,s) ∧ channelIdForLink sha256 op a b ∈ channels := by
  refine ⟨_,rfl,?_⟩
  obtain ⟨link,stored⟩ := drawn.stored
  rw [linkChannels, List.mem_toFinset, List.mem_map]
  refine ⟨(a,b),List.mem_filterMap.mpr ⟨k.2,List.mem_map.mpr ⟨k,?_,rfl⟩,?_⟩,rfl⟩
  · rw [List.mem_filter, ExtTreeMap.mem_keys, ExtTreeMap.mem_iff_isSome_getElem?, stored]
    simp
  · simp [drawn.first, drawn.second]

theorem admitsOther {x y : String} (op : Key) (lowerX : Lower x) :
    admits sha256 channel holder (Hex.encode holder.toList) (op.toList,x,y) =
      (topoNodeHex32 (if x = Hex.encode holder.toList then y else x)).bind
        (fun other => if channelIdForLink sha256 op holder other = channel then some op else none) := by
  simp only [admits, keyAsKey, sameText lowerX (holderLower holder), decide_eq_true_eq]
  rfl

/- The gate at an edge one end of which is the holder. -/
theorem admitsIff {x y : String} {op op' : Key} (lowerX : Lower x) (lowerY : Lower y) (apart : x < y)
    (here : x = Hex.encode holder.toList ∨ y = Hex.encode holder.toList) :
    admits sha256 channel holder (Hex.encode holder.toList) (op.toList,x,y) = some op' ↔
      op' = op ∧ ∃ a b, topoNodeHex32 x = some a ∧ topoNodeHex32 y = some b ∧ (a = holder ∨ b = holder) ∧
        channelIdForLink sha256 op a b = channel := by
  rw [admitsOther op lowerX]
  rcases here with first | second
  · have read := (nodeText lowerX).mpr first
    rw [if_pos first, Option.bind_eq_some_iff]
    constructor
    · rintro ⟨other,later,last⟩
      split at last <;> try contradiction
      rename_i same
      exact ⟨(Option.some.inj last).symm,holder,other,read,later,.inl rfl,same⟩
    · rintro ⟨rfl,a,b,readA,readB,-,same⟩
      cases Option.some.inj (readA.symm.trans read)
      exact ⟨b,readB,if_pos same⟩
  · have read := (nodeText lowerY).mpr second
    have other : x ≠ Hex.encode holder.toList := second ▸ ne_of_lt apart
    rw [if_neg other, Option.bind_eq_some_iff]
    constructor
    · rintro ⟨other,earlier,last⟩
      split at last <;> try contradiction
      rename_i same
      exact ⟨(Option.some.inj last).symm,other,holder,earlier,read,.inr rfl,linkSwap sha256 op holder other ▸ same⟩
    · rintro ⟨rfl,a,b,readA,readB,-,same⟩
      cases Option.some.inj (readB.symm.trans read)
      exact ⟨a,readA,if_pos (linkSwap sha256 op' a holder ▸ same)⟩

/- The rows that the gate sees are the drawn edges at the holder. -/
theorem soughtIff {row : Bytes × String × String} :
    row ∈ seek (Hex.encode holder.toList) Prod.fst s ++ seek (Hex.encode holder.toList) Prod.snd s ↔
      ∃ (k : EdgeKey) (t : TopologyRow), (∃ link, s.edges[k]? = some link) ∧ s.topologies[k.1]? = some t ∧ t.operatorPubkey = some row.1 ∧
        k.2 = row.2 ∧ (k.2.1 = Hex.encode holder.toList ∨ k.2.2 = Hex.encode holder.toList) := by
  rw [List.mem_append, seekIff, seekIff]
  constructor
  · rintro (⟨k,t,stored,here,standing,bound,same⟩ | ⟨k,t,stored,here,standing,bound,same⟩)
    · exact ⟨k,t,stored,standing,bound,same,.inl here⟩
    · exact ⟨k,t,stored,standing,bound,same,.inr here⟩
  · rintro ⟨k,t,stored,standing,bound,same,here | here⟩
    · exact .inl ⟨k,t,stored,here,standing,bound,same⟩
    · exact .inr ⟨k,t,stored,here,standing,bound,same⟩

/- What the gate finds grants, and what grants is found. -/
theorem admittedIff (wired : Wired s) :
    (∃ row ∈ seek (Hex.encode holder.toList) Prod.fst s ++ seek (Hex.encode holder.toList) Prod.snd s,
      admits sha256 channel holder (Hex.encode holder.toList) row = some op) ↔ ∃ k, Grants sha256 s channel holder op k := by
  constructor
  · rintro ⟨⟨raw,ends⟩,sought,admitted⟩
    obtain ⟨k,t,⟨link,stored⟩,standing,bound,same,here⟩ := soughtIff.mp sought
    obtain ⟨key,rfl⟩ := wired.bound k.1 t raw standing bound
    obtain ⟨lowerX,lowerY,apart⟩ := wired.spelled k link stored
    change k.2 = ends at same
    subst same
    obtain ⟨rfl,a,b,readA,readB,mine,channelOf⟩ := (admitsIff lowerX lowerY apart here).mp admitted
    have drawn : Drawn s op k a b := ⟨⟨t,standing,bound⟩,⟨link,stored⟩,readA,readB⟩
    obtain ⟨channels,listed,mem⟩ := @drawnAuthorized sha256 _ _ _ _ _ drawn
    exact ⟨k,a,b,drawn,mine,channelOf,channels,listed,channelOf ▸ mem⟩
  · rintro ⟨k,a,b,drawn,mine,channelOf,-⟩
    obtain ⟨link,stored⟩ := drawn.stored
    obtain ⟨t,standing,bound⟩ := drawn.bound
    obtain ⟨lowerX,lowerY,apart⟩ := wired.spelled k link stored
    have here : k.2.1 = Hex.encode holder.toList ∨ k.2.2 = Hex.encode holder.toList :=
      mine.imp (fun same : a = holder => (nodeText lowerX).mp (same ▸ drawn.first))
        (fun same : b = holder => (nodeText lowerY).mp (same ▸ drawn.second))
    exact ⟨(op.toList,k.2),soughtIff.mpr ⟨k,t,⟨link,stored⟩,standing,bound,rfl,here⟩,
      (admitsIff lowerX lowerY apart here).mpr ⟨rfl,a,b,drawn.first,drawn.second,mine,channelOf⟩⟩

theorem authorizesIff (wired : Wired s) (separated : Separated sha256 s) :
    perform (topologyAuthorizes sha256 channel holder) s [] = (.ok (some op),s) ↔ ∃ k, Grants sha256 s channel holder op k := by
  have answer : perform (topologyAuthorizes sha256 channel holder) s [] = (.ok ((seek (Hex.encode holder.toList) Prod.fst s ++
      seek (Hex.encode holder.toList) Prod.snd s).findSome? (admits sha256 channel holder (Hex.encode holder.toList))),s) := rfl
  rw [answer, Prod.mk.injEq, Except.ok.injEq, and_iff_left rfl]
  constructor
  · intro found
    exact (admittedIff wired).mp (List.exists_of_findSome?_eq_some found)
  · rintro ⟨k,grants⟩
    obtain ⟨row,mem,admitted⟩ := (admittedIff wired).mpr ⟨k,grants⟩
    have some' := List.findSome?_isSome_iff.mpr ⟨row,mem,Option.isSome_iff_exists.mpr ⟨op,admitted⟩⟩
    obtain ⟨op',found⟩ := Option.isSome_iff_exists.mp some'
    obtain ⟨k',a',b',drawn',-,same',-⟩ := (admittedIff wired).mp (List.exists_of_findSome?_eq_some found)
    obtain ⟨a,b,drawn,-,same,-⟩ := grants
    rw [found, (separated _ _ _ _ _ _ _ _ drawn drawn' (same.trans same'.symm)).1]

/- Without a grant the answer is no. -/
theorem authorizesNone (wired : Wired s) (without : ∀ op k, ¬Grants sha256 s channel holder op k) :
    perform (topologyAuthorizes sha256 channel holder) s [] = (.ok none,s) := by
  have answer : perform (topologyAuthorizes sha256 channel holder) s [] = (.ok ((seek (Hex.encode holder.toList) Prod.fst s ++
      seek (Hex.encode holder.toList) Prod.snd s).findSome? (admits sha256 channel holder (Hex.encode holder.toList))),s) := rfl
  rw [answer, List.findSome?_eq_none_iff.mpr]
  intro row mem
  by_contra admitted
  obtain ⟨op,admitted⟩ := Option.ne_none_iff_exists'.mp admitted
  obtain ⟨k,grants⟩ := (admittedIff wired).mp ⟨row,mem,admitted⟩
  exact without op k grants

end Gate
section Removal
variable {sha256 : Bytes → Hash} {s m : Tables} {channel : ChannelId} {holder : Key}

def mayCollaborate (subject : String) (subjectEmail : Option String) (topology : String) (s : Tables) : Bool :=
  s.topologies[topology]?.any (fun t => t.owner = subject) ||
    subjectEmail.any (fun email => (s.shares[(topology,toAsciiLowercase email)]?).isSome)

theorem collaborateYields (subject : String) (subjectEmail : Option String) (topology : String) (s : Tables) :
    Yields (canCollaborate subject subjectEmail topology) s (mayCollaborate subject subjectEmail topology s) s := by
  have owns : Yields (ownsTopology subject topology) s (s.topologies[topology]?.any (fun t => t.owner = subject)) s := rfl
  refine yieldsBind owns ?_
  unfold mayCollaborate
  cases s.topologies[topology]?.any (fun t => t.owner = subject) with
  | true => exact yieldsPure
  | false => cases subjectEmail <;> rfl

def Tables.unwired (k : EdgeKey) (s : Tables) : Tables := { s with edges := s.edges.erase k }

/- An edge is taken out in whatever spelling and order its ends are given. -/
theorem edgeKeyOf {topology x y a b : String} (apart : x < y)
    (same : toAsciiLowercase a = x ∧ toAsciiLowercase b = y ∨ toAsciiLowercase a = y ∧ toAsciiLowercase b = x) :
    edgeKey topology a b = (topology,x,y) := by
  unfold edgeKey
  rcases same with ⟨rfl,rfl⟩ | ⟨rfl,rfl⟩
  · exact if_pos apart.le
  · exact if_neg apart.not_ge

theorem unwireYields {mayEdit : Work Bool} {topology a b : String} {link : Option Bytes} (allowed : Yields mayEdit s true s)
    (stored : s.edges[edgeKey topology a b]? = some link) :
    Yields (unwireEdge mayEdit topology a b) s true (s.unwired (edgeKey topology a b)) := by
  have touched : 0 < (deleteWhere (fun k (_ : Option Bytes) => decide (k = edgeKey topology a b)) s.edges).1 :=
    of_decide_eq_true (hasRowIff.mpr ⟨_,link,stored,decide_eq_true rfl⟩)
  have deleted : Yields (execute (fun s : Tables =>
      let deleted := deleteWhere (fun k _ => k = edgeKey topology a b) s.edges
      (deleted.1,{ s with edges := deleted.2 })) : Work Nat) s (deleteWhere (fun k (_ : Option Bytes) => decide (k = edgeKey topology a b)) s.edges).1
      { s with edges := (deleteWhere (fun k (_ : Option Bytes) => decide (k = edgeKey topology a b)) s.edges).2 } := rfl
  rw [deletedKey] at deleted
  refine yieldsBind allowed (yieldsBind deleted ?_)
  rw [← decide_eq_true touched]
  exact yieldsPure

theorem deleteTxYields (owner id : String) (s : Tables) :
    Yields (deleteTopologyTx owner id) s (s.topologies[id]?.any (fun t => t.owner = owner)) (s.droppedOf owner id) := by
  have deleted : Yields (execute (fun s : Tables =>
      let deleted := deleteWhere (fun k t => k = id && t.owner = owner) s.topologies
      (deleted.1,{ s with topologies := deleted.2 })) : Work Nat) s (deleteWhere (fun k (t : TopologyRow) => k = id && t.owner = owner) s.topologies).1
      { s with topologies := (deleteWhere (fun k (t : TopologyRow) => k = id && t.owner = owner) s.topologies).2 } := rfl
  have counted := deletedAny id (fun t : TopologyRow => decide (t.owner = owner)) s.topologies
  rw [deletedRow] at deleted
  refine yieldsBind deleted ?_
  rw [Tables.droppedOf]
  cases owned : s.topologies[id]?.any (fun t => t.owner = owner) with
  | true =>
    rw [owned] at counted
    rw [if_pos (counted.mpr rfl)]
    exact yieldsPure
  | false =>
    rw [owned] at counted
    rw [if_neg (fun touched => absurd (counted.mp touched) (by decide))]
    exact yieldsPure

theorem deleteYields (owner id : String) (s : Tables) :
    Yields (deleteTopology owner id) s (s.topologies[id]?.any (fun t => t.owner = owner)) (s.droppedOf owner id) :=
  yieldsTransaction (yieldsBind (deleteTxYields owner id s) yieldsPure)

theorem deleteAllYields (owner : String) (s : Tables) : ∃ n, Yields (deleteAllOwnedBy owner) s n (s.withdrawn owner) := by
  obtain ⟨n,looped⟩ := yieldsLoop (f := fun (removed : Nat) id => (do
      let gone ← deleteTopologyTx owner id
      pure (if gone then removed + 1 else removed) : Work Nat)) (h := Tables.droppedOf owner)
    (fun b id m => ⟨_,yieldsBind (deleteTxYields owner id m) yieldsPure⟩)
    (s.topologies.filter (fun _ t => t.owner = owner)).keys 0 s
  have listed : Yields (select (fun s : Tables => (s.topologies.filter (fun _ t => t.owner = owner)).keys) : Work (List String)) s
      (s.topologies.filter (fun _ t => t.owner = owner)).keys s := rfl
  exact ⟨n,yieldsTransaction (yieldsBind listed (yieldsBind looped rfl))⟩

/- The links that stay drawn when an edge, a topology or everything of an account is gone. -/
theorem drawnUnwired {op a b : Key} {k place : EdgeKey} (drawn : Drawn (s.unwired place) op k a b) : Drawn s op k a b ∧ k ≠ place := by
  obtain ⟨bound,⟨link,stored⟩,first,second⟩ := drawn
  rw [Tables.unwired, lookupErase] at stored
  split at stored <;> try contradiction
  rename_i other
  exact ⟨⟨bound,⟨link,stored⟩,first,second⟩,other⟩

theorem drawnDropped {op a b : Key} {k : EdgeKey} {owner id : String} (drawn : Drawn (s.droppedOf owner id) op k a b) :
    Drawn s op k a b ∧ (k.1 = id → s.topologies[id]?.any (fun t => t.owner = owner) = false) ∧
      (s.droppedOf owner id).topologies[k.1]? = s.topologies[k.1]? := by
  rw [Tables.droppedOf] at drawn ⊢
  split at drawn
  case isFalse foreign => exact ⟨drawn,fun _ => (Bool.not_eq_true _).mp foreign,by rw [if_neg foreign]⟩
  case isTrue owned =>
    obtain ⟨⟨t,standing,operator⟩,⟨link,stored⟩,first,second⟩ := drawn
    rw [Tables.dropped, lookupErase] at standing
    rw [Tables.dropped, lookupDeleted, Option.filter_eq_some_iff] at stored
    split at standing <;> try contradiction
    rename_i other
    exact ⟨⟨⟨t,standing,operator⟩,⟨link,stored.1⟩,first,second⟩,fun same => absurd same other,
      by rw [if_pos owned, Tables.dropped, lookupErase, if_neg other]⟩

theorem drawnFolded {op a b : Key} {k : EdgeKey} {owner : String} (ids : List String) (s : Tables)
    (drawn : Drawn (ids.foldl (Tables.droppedOf owner) s) op k a b) :
    Drawn s op k a b ∧ (k.1 ∈ ids → s.topologies[k.1]?.any (fun t => t.owner = owner) = false) := by
  induction ids generalizing s with
  | nil => exact ⟨drawn,nofun⟩
  | cons id ids ih =>
    obtain ⟨later,rest⟩ := ih _ drawn
    obtain ⟨earlier,here,same⟩ := drawnDropped later
    refine ⟨earlier,?_⟩
    intro mem
    rcases List.mem_cons.mp mem with first | more
    · rw [first]
      exact here first
    · rw [← same]
      exact rest more

theorem drawnWithdrawn {op a b : Key} {k : EdgeKey} {owner : String} (drawn : Drawn (s.withdrawn owner) op k a b) :
    Drawn s op k a b ∧ s.topologies[k.1]?.any (fun t => t.owner = owner) = false := by
  have folded : Drawn ((s.topologies.filter (fun _ t => t.owner = owner)).keys.foldl (Tables.droppedOf owner) s) op k a b :=
    ⟨drawn.bound,drawn.stored,drawn.first,drawn.second⟩
  obtain ⟨earlier,gone⟩ := drawnFolded _ s folded
  refine ⟨earlier,?_⟩
  by_contra owned
  refine owned (gone ?_)
  obtain ⟨t,found,mine⟩ := (Option.any_eq_true _ _).mp ((Bool.not_eq_false _).mp owned)
  rw [ExtTreeMap.mem_keys, ExtTreeMap.mem_iff_isSome_getElem?, ExtTreeMap.getElem?_filter', found, Option.filter_some, if_pos mine]
  rfl

/- The operation is done, and the holder is no longer let in. -/
def Closes {α : Type} (sha256 : Bytes → Hash) (channel : ChannelId) (holder : Key) (work : Work α) (answer : α) (s : Tables) : Prop :=
  ∃ m, perform work s [] = (.ok answer,m) ∧ perform (topologyAuthorizes sha256 channel holder) m [] = (.ok none,m)

/- An operation after which no drawn link grants any more. -/
theorem closesYields {α : Type} {work : Work α} {answer : α} (wired : Wired m) (yields : Yields work s answer m)
    (gone : ∀ op k a b, Drawn m op k a b → Drawn s op k a b ∧ ¬Grants sha256 s channel holder op k) :
    Closes sha256 channel holder work answer s := by
  refine ⟨m,yieldsPerform yields,authorizesNone wired ?_⟩
  rintro op k ⟨a,b,drawn,mine,channelOf,-⟩
  obtain ⟨earlier,free⟩ := gone op k a b drawn
  obtain ⟨channels,listed,mem⟩ := @drawnAuthorized sha256 _ _ _ _ _ earlier
  exact free ⟨a,b,earlier,mine,channelOf,channels,listed,channelOf ▸ mem⟩

theorem unwireCloses {mayEdit : Work Bool} {topology x y a b : String} {link : Option Bytes} (wired : Wired s)
    (allowed : Yields mayEdit s true s) (stored : s.edges[(topology,x,y)]? = some link)
    (same : toAsciiLowercase a = x ∧ toAsciiLowercase b = y ∨ toAsciiLowercase a = y ∧ toAsciiLowercase b = x)
    (last : ∀ op k, Grants sha256 s channel holder op k → k = (topology,x,y)) :
    Closes sha256 channel holder (unwireEdge mayEdit topology a b) true s := by
  have place := @edgeKeyOf topology _ _ _ _ (wired.spelled _ link stored).2.2 same
  have kept : Wired (s.unwired (topology,x,y)) := by
    have effect : Effect s (.removeEdge "" topology a b) (.ok (.done true)) (s.unwired (edgeKey topology a b)) := .unwired
    exact place ▸ wiredEffect wired effect
  refine closesYields kept (place ▸ unwireYields allowed (place.symm ▸ stored)) ?_
  intro op k a b drawn
  obtain ⟨earlier,other⟩ := drawnUnwired drawn
  exact ⟨earlier,fun grants => other (last op k grants)⟩

/- Whatever the order of the writers and the faults: every stored edge is in lower case with
the smaller end first and in an existing topology, the gate lets a holder in exactly for the
drawn links of existing topologies, and no longer once the last of them is removed, in
whatever spelling and order of its ends, or its topology is. -/
theorem topologyAuthorizationSound (verify : Key → Bytes → Signature → Bool) (sha256 : Bytes → Hash) (calls : List Call)
    (separated : Separated sha256 (run verify calls)) :
    (∀ (k : EdgeKey) (link : Option Bytes), (run verify calls).edges[k]? = some link →
      Lower k.2.1 ∧ Lower k.2.2 ∧ k.2.1 < k.2.2 ∧ ∃ row, (run verify calls).topologies[k.1]? = some row) ∧
    (∀ channel holder op, perform (topologyAuthorizes sha256 channel holder) (run verify calls) [] = (.ok (some op),run verify calls) ↔
      ∃ k, Grants sha256 (run verify calls) channel holder op k) ∧
    (∀ (topology x y a b : String) (link : Option Bytes) channel holder, (run verify calls).edges[(topology,x,y)]? = some link →
      (toAsciiLowercase a = x ∧ toAsciiLowercase b = y ∨ toAsciiLowercase a = y ∧ toAsciiLowercase b = x) →
      (∀ op k, Grants sha256 (run verify calls) channel holder op k → k = (topology,x,y)) →
      (∀ owner, (run verify calls).topologies[topology]?.any (fun t => t.owner = owner) →
        Closes sha256 channel holder (removeEdge owner topology a b) true (run verify calls)) ∧
      ∀ subject subjectEmail, mayCollaborate subject subjectEmail topology (run verify calls) →
        Closes sha256 channel holder (removeEdgeCollab subject subjectEmail topology a b) true (run verify calls)) ∧
    (∀ owner topology channel holder, (run verify calls).topologies[topology]?.any (fun t => t.owner = owner) →
      (∀ op k, Grants sha256 (run verify calls) channel holder op k → k.1 = topology) →
      Closes sha256 channel holder (deleteTopology owner topology) true (run verify calls)) ∧
    ∀ owner channel holder,
      (∀ op k, Grants sha256 (run verify calls) channel holder op k →
        (run verify calls).topologies[k.1]?.any (fun t => t.owner = owner)) →
      ∃ n, Closes sha256 channel holder (deleteAllOwnedBy owner) n (run verify calls) := by
  have wired := wiredRun verify calls
  generalize run verify calls = s at separated wired
  refine ⟨?_,fun _ _ _ => authorizesIff wired separated,?_,?_,?_⟩
  · intro k link here
    obtain ⟨lowerX,lowerY,apart⟩ := wired.spelled k link here
    exact ⟨lowerX,lowerY,apart,wired.edgeStands k link here⟩
  · intro topology x y a b link channel holder stored same last
    refine ⟨?_,?_⟩
    · intro owner owned
      have allowed : Yields (ownsTopology owner topology) s (s.topologies[topology]?.any (fun t => t.owner = owner)) s := rfl
      rw [owned] at allowed
      exact unwireCloses wired allowed stored same last
    · intro subject subjectEmail may
      have allowed := collaborateYields subject subjectEmail topology s
      rw [may] at allowed
      exact unwireCloses wired allowed stored same last
  · intro owner topology channel holder owned last
    have yields := deleteYields owner topology s
    rw [owned] at yields
    have kept : Wired (s.droppedOf owner topology) := by
      rw [Tables.droppedOf, if_pos owned]
      exact wiredDropped wired topology
    refine closesYields kept yields ?_
    intro op k a b drawn
    obtain ⟨earlier,foreign,-⟩ := drawnDropped drawn
    refine ⟨earlier,fun grants => ?_⟩
    rw [foreign (last op k grants)] at owned
    contradiction
  · intro owner channel holder last
    obtain ⟨n,yields⟩ := deleteAllYields owner s
    refine ⟨n,closesYields (wiredWithdrawn wired owner) yields ?_⟩
    intro op k a b drawn
    obtain ⟨earlier,foreign⟩ := drawnWithdrawn drawn
    refine ⟨earlier,fun grants => ?_⟩
    rw [last op k grants] at foreign
    contradiction

theorem separatedSingle {place : EdgeKey} (single : ∀ (k : EdgeKey) (link : Option Bytes), s.edges[k]? = some link → k = place) :
    Separated sha256 s := by
  intro op op' k k' a b a' b' drawn drawn' _
  obtain ⟨⟨t,standing,operator⟩,⟨link,stored⟩,first,second⟩ := drawn
  obtain ⟨⟨t',standing',operator'⟩,⟨link',stored'⟩,first',second'⟩ := drawn'
  cases single k link stored
  cases single k' link' stored'
  cases Option.some.inj (standing.symm.trans standing')
  cases Option.some.inj (first.symm.trans first')
  cases Option.some.inj (second.symm.trans second')
  exact ⟨Vector.toList_inj.mp (Option.some.inj (operator.symm.trans operator')),.inl ⟨rfl,rfl⟩⟩

/- One edge, drawn with its ends in capitals and in the other order. -/
def wiringCalls : List Call :=
  [⟨.create "owner" "net" "uuid",[]⟩,⟨.setOperator "owner" "net" (.replicate 32 7) (.replicate 64 0),[]⟩,
    ⟨.addEdge "owner" "net" (.ofList (.replicate 64 'B')) (.ofList (.replicate 64 'A')),[]⟩]

theorem topologyAuthorizationWitness :
    perform (topologyAuthorizes (fun _ => .replicate 32 1) (.replicate 32 1) (.replicate 32 0xaa)) (run (fun _ _ _ => true) wiringCalls) [] =
      (.ok (some (.replicate 32 7)),run (fun _ _ _ => true) wiringCalls) := by
  have only : (run (fun _ _ _ => true) wiringCalls).edges.toList =
      [(("net",.ofList (.replicate 64 'a'),.ofList (.replicate 64 'b')),none)] := by decide +kernel
  have drawn : Drawn (run (fun _ _ _ => true) wiringCalls) (.replicate 32 7) ("net",.ofList (.replicate 64 'a'),.ofList (.replicate 64 'b'))
      (.replicate 32 0xaa) (.replicate 32 0xbb) := by
    refine ⟨⟨⟨"owner","uuid",some (.replicate 32 7)⟩,?_,rfl⟩,⟨none,?_⟩,?_,?_⟩ <;> decide +kernel
  obtain ⟨channels,listed,mem⟩ := @drawnAuthorized (fun _ => .replicate 32 1) _ _ _ _ _ drawn
  refine ((topologyAuthorizationSound _ (fun _ => .replicate 32 1) wiringCalls ?_).2.1 _ _ _).mpr
    ⟨_,_,_,drawn,.inl rfl,rfl,channels,listed,mem⟩
  refine @separatedSingle _ _ ("net",.ofList (.replicate 64 'a'),.ofList (.replicate 64 'b')) ?_
  intro k link here
  have mem := ExtTreeMap.mem_toList_iff_getElem?_eq_some.mpr here
  rw [only, List.mem_singleton] at mem
  exact congrArg Prod.fst mem

end Removal
end CadsTunnel.TopologyStore
