import CadsTunnel.OrderedMap

/-! How a client gets to the edge on a network that blocks most of the ways there. The rungs of
the ladder are dialled side by side, each a moment after the one before it, the one that worked
on this network the last time first; the first to connect wins and is remembered. -/
namespace CadsTunnel.ClientLadder
open OrderedMap

inductive Rung where
  | quic (port : UInt16)
  | tlsTcp (port : UInt16)
  deriving DecidableEq

def frontDoorPort : UInt16 := 443

/- The first rungs of a list, and those of the rest that are not among the ones before. -/
def defaultLadder (edgePort : UInt16) : List Rung :=
  [.quic frontDoorPort,.tlsTcp frontDoorPort].foldl (fun rungs r => if r ∈ rungs then rungs else rungs ++ [r]) [.quic edgePort,.tlsTcp edgePort]

def Rung.isTcp : Rung → Bool
  | .tlsTcp _ => true
  | .quic _ => false

def filteredLadder (forceTcp : Bool) (edgePort : UInt16) : List Rung :=
  if forceTcp then (defaultLadder edgePort).filter Rung.isTcp else defaultLadder edgePort

abbrev LadderCache := BTreeMap String Rung

def LadderCache.remembered (network : String) (cache : LadderCache) : Option Rung := cache[network]?

def LadderCache.remember (network : String) (rung : Rung) (cache : LadderCache) : LadderCache := cache.insert network rung

def attemptOrder (cache : LadderCache) (network : String) (ladder : List Rung) : List Rung :=
  ladder.foldl (fun order r => if order.head? = some r then order else order ++ [r])
    ((cache.remembered network).filter (· ∈ ladder)).toList

/- In milliseconds. -/
def staggerDelay : Nat := 250

section Race
variable {T : Type}

/- An attempt that has come to an end, some time after it was started. -/
structure Attempt (T : Type) where
  took : Nat
  conn : Option T

/- What dialling a rung at a place of the order comes to; some attempts never end. -/
abbrev Dial (T : Type) := Nat → Rung → Option (Attempt T)

structure Completion (T : Type) where
  place : Nat
  rung : Rung
  ends : Nat
  conn : Option T

def completion (dial : Dial T) (entry : Rung × Nat) : Option (Completion T) :=
  (dial entry.2 entry.1).map fun a => ⟨entry.2,entry.1,staggerDelay * entry.2 + a.took,a.conn⟩

def completions (dial : Dial T) (order : List Rung) : List (Completion T) := order.zipIdx.filterMap (completion dial)

/- The attempts as they come to their ends; of two at one moment either may be the first. -/
structure InOrder (dial : Dial T) (order : List Rung) (done : List (Completion T)) : Prop where
  perm : done.Perm (completions dial order)
  sorted : done.Pairwise fun a b => a.ends ≤ b.ends

inductive Outcome (T : Type) where
  | connected (rung : Rung) (conn : T) (at_ : Nat)
  | exhausted (at_ : Nat)
  | hangs

def lastEnd (done : List (Completion T)) : Nat := (done.map Completion.ends).foldr max 0

def won (c : Completion T) : Option (Rung × T × Nat) := c.conn.map fun conn => (c.rung,conn,c.ends)

/- The race is over with the first connection, or once the last attempt has come to nothing. -/
def connectViaLadder (cache : LadderCache) (network : String) (order : List Rung) (done : List (Completion T)) : Outcome T × LadderCache :=
  match done.findSome? won with
  | some (rung,conn,ends) => (.connected rung conn ends,cache.remember network rung)
  | none => (if done.length = order.length then .exhausted (lastEnd done) else .hangs,cache)

end Race
section Orders
variable {cache : LadderCache} {network : String} {ladder : List Rung}

theorem attemptFold {head : Rung} {rest : List Rung} (ladder : List Rung) :
    ladder.foldl (fun order r => if order.head? = some r then order else order ++ [r]) (head :: rest) =
      head :: (rest ++ ladder.filter (· ≠ head)) := by
  induction ladder generalizing rest with
  | nil => simp
  | cons r ladder ih =>
    rw [List.foldl_cons]
    by_cases same : r = head
    · rw [if_pos (by simp [same]), ih, List.filter_cons_of_neg (by simp [same])]
    · rw [if_neg (by simp [Ne.symm same]), List.cons_append, ih, List.filter_cons_of_pos (by simpa using same), List.append_assoc]
      rfl

/- With nothing of use remembered the ladder is walked as it stands. -/
theorem attemptPlain (distinct : ladder.Nodup) (unknown : ∀ r, cache.remembered network = some r → r ∉ ladder) :
    attemptOrder cache network ladder = ladder := by
  have none' : (cache.remembered network).filter (· ∈ ladder) = none := by
    rw [Option.filter_eq_none_iff]
    intro r known
    simpa using unknown r known
  rw [attemptOrder, none', Option.toList_none]
  cases ladder with
  | nil => rfl
  | cons head rest =>
    obtain ⟨fresh,-⟩ := List.nodup_cons.mp distinct
    have first : (if ([] : List Rung).head? = some head then [] else [] ++ [head]) = [head] := rfl
    rw [List.foldl_cons, first, attemptFold, List.nil_append, List.filter_eq_self.mpr]
    intro r mem
    simpa using fun same : r = head => fresh (same ▸ mem)

/- What worked is walked first and not again. -/
theorem attemptKnown {known : Rung} (remembered : cache.remembered network = some known) (among : known ∈ ladder) :
    attemptOrder cache network ladder = known :: ladder.filter (· ≠ known) := by
  rw [attemptOrder, remembered, Option.filter_some, if_pos (by simpa using among), Option.toList_some, attemptFold, List.nil_append]

theorem attemptMem (r : Rung) : r ∈ attemptOrder cache network ladder ↔ r ∈ ladder := by
  cases known : (cache.remembered network).filter (· ∈ ladder) with
  | some first =>
    obtain ⟨remembered,among⟩ := Option.filter_eq_some_iff.mp known
    rw [attemptKnown remembered (by simpa using among), List.mem_cons, List.mem_filter]
    constructor
    · rintro (rfl | ⟨mem,-⟩)
      · simpa using among
      · exact mem
    · intro mem
      by_cases same : r = first
      · exact .inl same
      · exact .inr ⟨mem,by simpa using same⟩
  | none =>
    rw [attemptOrder, known, Option.toList_none]
    cases ladder with
    | nil => rfl
    | cons head rest =>
      have first : (if ([] : List Rung).head? = some head then [] else [] ++ [head]) = [head] := rfl
      rw [List.foldl_cons, first, attemptFold, List.nil_append, List.mem_cons, List.mem_cons, List.mem_filter]
      constructor
      · rintro (same | ⟨mem,-⟩)
        · exact .inl same
        · exact .inr mem
      · rintro (same | mem)
        · exact .inl same
        · by_cases same : r = head
          · exact .inl same
          · exact .inr ⟨mem,by simpa using same⟩

theorem attemptPerm (distinct : ladder.Nodup) : (attemptOrder cache network ladder).Perm ladder := by
  cases known : cache.remembered network with
  | none => rw [attemptPlain distinct (by simp [known])]
  | some r =>
    by_cases among : r ∈ ladder
    · have rest : ladder.filter (· ≠ r) = ladder.erase r := by
        rw [List.Nodup.erase_eq_filter distinct]
        refine List.filter_congr fun x _ => ?_
        by_cases same : x = r <;> simp [same]
      rw [attemptKnown known among, rest]
      exact (List.perm_cons_erase among).symm
    · rw [attemptPlain distinct (by simpa [known] using among)]

end Orders
section Winners
variable {T : Type} {dial : Dial T} {order : List Rung} {done : List (Completion T)} {cache : LadderCache} {network : String}

/- The rung at a place of the order connects, at that moment of the race. -/
def Works (dial : Dial T) (order : List Rung) (place : Nat) (rung : Rung) (conn : T) (ends : Nat) : Prop :=
  order[place]? = some rung ∧ ∃ took, dial place rung = some ⟨took,some conn⟩ ∧ ends = staggerDelay * place + took

theorem completionIff {c : Completion T} : c ∈ completions dial order ↔
    order[c.place]? = some c.rung ∧ ∃ took, dial c.place c.rung = some ⟨took,c.conn⟩ ∧ c.ends = staggerDelay * c.place + took := by
  unfold completions completion
  rw [List.mem_filterMap]
  constructor
  · rintro ⟨entry,mem,made⟩
    obtain ⟨a,dialled,rfl⟩ := Option.map_eq_some_iff.mp made
    exact ⟨List.mem_zipIdx_iff_getElem?.mp mem,a.took,dialled,rfl⟩
  · rintro ⟨here,took,dialled,ends⟩
    refine ⟨(c.rung,c.place),List.mem_zipIdx_iff_getElem?.mpr here,?_⟩
    rw [dialled, Option.map_some, ← ends]

theorem worksIff {place ends : Nat} {rung : Rung} {conn : T} :
    Works dial order place rung conn ends ↔ ⟨place,rung,ends,some conn⟩ ∈ completions dial order :=
  (@completionIff T dial order ⟨place,rung,ends,some conn⟩).symm

theorem wonIff {c : Completion T} {rung : Rung} {conn : T} {ends : Nat} :
    won c = some (rung,conn,ends) ↔ c.rung = rung ∧ c.conn = some conn ∧ c.ends = ends := by
  unfold won
  cases c.conn with
  | none => simp
  | some own => simp [and_left_comm]

theorem ledThere {done : List (Completion T)} (c : Completion T) (mem : c ∈ done) : c.ends ≤ lastEnd done :=
  List.le_max_of_le' 0 (List.mem_map_of_mem mem) le_rfl

/- All attempts have ended. -/
theorem allEnded (inOrder : InOrder dial order done) :
    done.length = order.length ↔ ∀ place rung, order[place]? = some rung → (dial place rung).isSome := by
  have sized : order.zipIdx.length = order.length := List.length_zipIdx
  rw [inOrder.perm.length_eq, completions, ← sized, List.filterMap_length_eq_length]
  unfold completion
  constructor
  · intro each place rung here
    simpa using each (rung,place) (List.mem_zipIdx_iff_getElem?.mpr here)
  · intro each entry mem
    simpa using each entry.2 entry.1 (List.mem_zipIdx_iff_getElem?.mp mem)

theorem noneWorks (inOrder : InOrder dial order done) (lost : done.findSome? won = none) {place ends : Nat} {rung : Rung} {conn : T} :
    ¬Works dial order place rung conn ends := by
  intro works
  have mem := inOrder.perm.mem_iff.mpr (worksIff.mp works)
  have nothing := List.findSome?_eq_none_iff.mp lost _ mem
  simp [won] at nothing

/- What a race comes to: the earliest connection, nothing once every attempt has failed, and no
end where an attempt has none and no other connects. -/
structure Decided (dial : Dial T) (order : List Rung) (network : String) (cache : LadderCache) (result : Outcome T × LadderCache) : Prop where
  wins : ∀ rung conn ends, result.1 = .connected rung conn ends → (∃ place, Works dial order place rung conn ends) ∧
    (∀ place other conn' ends', Works dial order place other conn' ends' → ends ≤ ends') ∧ result.2 = cache.remember network rung
  fails : ∀ ends, result.1 = .exhausted ends → result.2 = cache ∧
    ∀ place rung, order[place]? = some rung → ∃ took, dial place rung = some ⟨took,none⟩ ∧ staggerDelay * place + took ≤ ends
  hangs : result.1 = .hangs → result.2 = cache ∧ (∀ place rung conn ends, ¬Works dial order place rung conn ends) ∧
    ∃ place rung, order[place]? = some rung ∧ dial place rung = none

theorem raceDecided (inOrder : InOrder dial order done) : Decided dial order network cache (connectViaLadder cache network order done) := by
  unfold connectViaLadder
  cases found : done.findSome? won with
  | some winner =>
    obtain ⟨rung,conn,ends⟩ := winner
    refine ⟨?_,nofun,nofun⟩
    rintro rung' conn' ends' same
    obtain ⟨rfl,rfl,rfl⟩ := Outcome.connected.inj same
    obtain ⟨before,c,after,split,wins,lost⟩ := List.findSome?_eq_some_iff.mp found
    obtain ⟨rfl,connected,rfl⟩ := wonIff.mp wins
    have here : c ∈ completions dial order := inOrder.perm.mem_iff.mp (split ▸ List.mem_append_right before List.mem_cons_self)
    refine ⟨⟨c.place,?_⟩,?_,rfl⟩
    · rw [worksIff, ← connected]
      exact here
    · intro place other conn' ends' works
      have mem : (⟨place,other,ends',some conn'⟩ : Completion T) ∈ before ++ c :: after := split ▸ inOrder.perm.mem_iff.mpr (worksIff.mp works)
      have sorted := inOrder.sorted
      rw [split, List.pairwise_append] at sorted
      rcases List.mem_append.mp mem with early | late
      · simpa [won] using lost _ early
      · rcases List.mem_cons.mp late with same | later
        · exact le_of_eq (congrArg Completion.ends same).symm
        · exact (List.pairwise_cons.mp sorted.2.1).1 _ later
  | none =>
    by_cases ended : done.length = order.length
    · dsimp only
      rw [if_pos ended]
      refine ⟨nofun,?_,nofun⟩
      rintro ends same
      cases same
      refine ⟨rfl,fun place rung here => ?_⟩
      obtain ⟨a,dialled⟩ := Option.isSome_iff_exists.mp ((allEnded inOrder).mp ended place rung here)
      have mem : (⟨place,rung,staggerDelay * place + a.took,a.conn⟩ : Completion T) ∈ completions dial order :=
        completionIff.mpr ⟨here,a.took,dialled,rfl⟩
      have failed : a.conn = none := by
        cases conn : a.conn with
        | none => rfl
        | some own => exact absurd (worksIff.mpr (conn ▸ mem)) (noneWorks inOrder found)
      refine ⟨a.took,?_,ledThere _ (inOrder.perm.mem_iff.mpr mem)⟩
      rw [dialled, ← failed]
    · dsimp only
      rw [if_neg ended]
      refine ⟨nofun,nofun,fun _ => ⟨rfl,fun _ _ _ _ => noneWorks inOrder found,?_⟩⟩
      rw [allEnded inOrder] at ended
      push Not at ended
      obtain ⟨place,rung,here,never⟩ := ended
      exact ⟨place,rung,here,by simpa using never⟩

/- The race is over by the last moment an attempt can end, however many are blocked. -/
theorem raceBounded (inOrder : InOrder dial order done) {limit : Nat}
    (each : ∀ place rung, order[place]? = some rung → ∃ a, dial place rung = some a ∧ a.took ≤ limit) :
    (∃ rung conn ends, (connectViaLadder cache network order done).1 = .connected rung conn ends ∧ ends ≤ staggerDelay * (order.length - 1) + limit) ∨
      ∃ ends, (connectViaLadder cache network order done).1 = .exhausted ends ∧ ends ≤ staggerDelay * (order.length - 1) + limit := by
  have early : ∀ c ∈ done, c.ends ≤ staggerDelay * (order.length - 1) + limit := by
    intro c mem
    obtain ⟨here,took,dialled,ends⟩ := completionIff.mp (inOrder.perm.mem_iff.mp mem)
    obtain ⟨a,same,short⟩ := each c.place c.rung here
    cases Option.some.inj (dialled.symm.trans same)
    have inside := (List.getElem?_eq_some_iff.mp here).1
    rw [ends]
    exact Nat.add_le_add (Nat.mul_le_mul_left _ (by omega)) short
  have all : done.length = order.length := by
    refine (allEnded inOrder).mpr fun place rung here => ?_
    obtain ⟨a,dialled,-⟩ := each place rung here
    rw [dialled]
    rfl
  unfold connectViaLadder
  cases found : done.findSome? won with
  | some winner =>
    obtain ⟨rung,conn,ends⟩ := winner
    obtain ⟨c,mem,wins⟩ := List.exists_of_findSome?_eq_some found
    obtain ⟨-,-,rfl⟩ := wonIff.mp wins
    exact .inl ⟨rung,conn,c.ends,rfl,early c mem⟩
  | none =>
    dsimp only
    rw [if_pos all]
    refine .inr ⟨lastEnd done,rfl,?_⟩
    refine List.max_le_of_forall_le _ _ fun ends mem => ?_
    obtain ⟨c,inside,rfl⟩ := List.mem_map.mp mem
    exact early c inside

end Winners
section Client
variable {T : Type}

/- An attempt of the client is given up after two seconds. -/
def perRung : Nat := 2000

def dialRung (limit : Nat) (raw : Dial T) : Dial T := fun place rung =>
  some (((raw place rung).filter (·.took ≤ limit)).getD ⟨limit,none⟩)

theorem dialWorks {limit place took : Nat} {raw : Dial T} {rung : Rung} {conn : T} :
    dialRung limit raw place rung = some ⟨took,some conn⟩ ↔ raw place rung = some ⟨took,some conn⟩ ∧ took ≤ limit := by
  rw [dialRung, Option.some.injEq]
  cases dialled : raw place rung with
  | none => simp
  | some a =>
    by_cases inside : a.took ≤ limit
    · rw [Option.filter_some, if_pos (by simpa using inside), Option.getD_some]
      constructor
      · rintro rfl
        exact ⟨rfl,inside⟩
      · rintro ⟨same,-⟩
        exact Option.some.inj same
    · rw [Option.filter_some, if_neg (by simpa using inside), Option.getD_none]
      constructor
      · intro same
        cases same
      · rintro ⟨same,short⟩
        cases Option.some.inj same
        exact absurd short inside

theorem dialEnds (limit place : Nat) (raw : Dial T) (rung : Rung) : ∃ a, dialRung limit raw place rung = some a ∧ a.took ≤ limit := by
  refine ⟨_,rfl,?_⟩
  cases kept : (raw place rung).filter (·.took ≤ limit) with
  | none => exact le_rfl
  | some a => simpa using (Option.filter_eq_some_iff.mp kept).2

theorem ladderShape (edgePort : UInt16) : defaultLadder edgePort =
    if edgePort = frontDoorPort then [.quic edgePort,.tlsTcp edgePort] else [.quic edgePort,.tlsTcp edgePort,.quic frontDoorPort,.tlsTcp frontDoorPort] := by
  unfold defaultLadder
  by_cases same : edgePort = frontDoorPort
  · simp [same]
  · simp [same, Ne.symm same]

theorem ladderDistinct (forceTcp : Bool) (edgePort : UInt16) :
    (filteredLadder forceTcp edgePort).Nodup ∧ (filteredLadder forceTcp edgePort).length ≤ 4 := by
  have whole : (defaultLadder edgePort).Nodup ∧ (defaultLadder edgePort).length ≤ 4 := by
    rw [ladderShape]
    by_cases same : edgePort = frontDoorPort
    · simp [same]
    · simp [same]
  unfold filteredLadder
  split
  · exact ⟨whole.1.filter _,(List.length_filter_le _ _).trans whole.2⟩
  · exact whole

def clientOrder (cache : LadderCache) (network : String) (forceTcp : Bool) (edgePort : UInt16) : List Rung :=
  attemptOrder cache network (filteredLadder forceTcp edgePort)

/- What a client comes to that starts up on a network: connected by the rung that is there first of those that answer in time, which
is remembered, or with none that does, and either within two and three quarters of a second. -/
structure Starts (raw : Dial T) (cache : LadderCache) (network : String) (order ladder : List Rung) (result : Outcome T × LadderCache) : Prop where
  ends : (∃ rung conn ends, result.1 = .connected rung conn ends ∧ ends ≤ 2750) ∨ ∃ ends, result.1 = .exhausted ends ∧ ends ≤ 2750
  connected : ∀ rung conn ends, result.1 = .connected rung conn ends → rung ∈ ladder ∧ result.2 = cache.remember network rung ∧
    (∃ place took, order[place]? = some rung ∧ raw place rung = some ⟨took,some conn⟩ ∧ took ≤ perRung ∧ ends = staggerDelay * place + took) ∧
    ∀ place other took conn', order[place]? = some other → raw place other = some ⟨took,some conn'⟩ → took ≤ perRung →
      ends ≤ staggerDelay * place + took
  exhausted : ∀ ends, result.1 = .exhausted ends → result.2 = cache ∧
    ∀ place rung took conn, order[place]? = some rung → raw place rung = some ⟨took,some conn⟩ → perRung < took

theorem clientStarts {raw : Dial T} {done : List (Completion T)} (cache : LadderCache) (network : String) (forceTcp : Bool) (edgePort : UInt16)
    (inOrder : InOrder (dialRung perRung raw) (clientOrder cache network forceTcp edgePort) done) :
    Starts raw cache network (clientOrder cache network forceTcp edgePort) (filteredLadder forceTcp edgePort)
      (connectViaLadder cache network (clientOrder cache network forceTcp edgePort) done) := by
  obtain ⟨distinct,short⟩ := ladderDistinct forceTcp edgePort
  have limit : staggerDelay * ((clientOrder cache network forceTcp edgePort).length - 1) + perRung ≤ 2750 := by
    rw [clientOrder, (attemptPerm distinct).length_eq]
    unfold staggerDelay perRung
    omega
  have decided := @raceDecided T _ _ done cache network inOrder
  refine ⟨?_,?_,?_⟩
  · obtain ⟨rung,conn,ends,result,inTime⟩ | ⟨ends,result,inTime⟩ :=
      @raceBounded T _ _ done cache network inOrder perRung fun place rung _ => dialEnds perRung place raw rung
    · exact .inl ⟨rung,conn,ends,result,inTime.trans limit⟩
    · exact .inr ⟨ends,result,inTime.trans limit⟩
  · intro rung conn ends result
    obtain ⟨⟨place,here,took,dialled,same⟩,earliest,kept⟩ := decided.wins rung conn ends result
    obtain ⟨works,inside⟩ := dialWorks.mp dialled
    refine ⟨(attemptMem rung).mp (List.mem_of_getElem? here),kept,⟨place,took,here,works,inside,same⟩,?_⟩
    intro place' other took' conn' there answers inTime
    exact earliest place' other conn' _ ⟨there,took',dialWorks.mpr ⟨answers,inTime⟩,rfl⟩
  · intro ends result
    obtain ⟨same,failed⟩ := decided.fails ends result
    refine ⟨same,fun place rung took conn here works => ?_⟩
    obtain ⟨spent,dialled,-⟩ := failed place rung here
    by_contra late
    have other := dialWorks.mpr ⟨works,not_lt.mp late⟩
    rw [dialled] at other
    cases other

/- Everything but TLS on the front door is blocked. -/
def frontDoorOnly : Dial Nat := fun _ rung => if rung = .tlsTcp frontDoorPort then some ⟨30,some 7⟩ else none

theorem clientStartsWitness : Starts frontDoorOnly ∅ "n" [.quic 4433,.tlsTcp 4433,.quic 443,.tlsTcp 443] [.quic 4433,.tlsTcp 4433,.quic 443,.tlsTcp 443]
    (.connected (.tlsTcp 443) 7 780,LadderCache.remember "n" (.tlsTcp 443) ∅) :=
  @clientStarts Nat frontDoorOnly [⟨3,.tlsTcp 443,780,some 7⟩,⟨0,.quic 4433,2000,none⟩,⟨1,.tlsTcp 4433,2250,none⟩,⟨2,.quic 443,2500,none⟩] ∅ "n" false 4433
    ⟨(List.perm_append_comm : List.Perm ([_] ++ [_,_,_]) ([_,_,_] ++ [_])),by simp⟩

end Client
section Networks
variable {T : Type}

/- A call, with the schedule of its race. -/
structure Call (T : Type) where
  network : String
  ladder : List Rung
  done : List (Completion T)

def step (cache : LadderCache) (call : Call T) : Outcome T × LadderCache :=
  connectViaLadder cache call.network (attemptOrder cache call.network call.ladder) call.done

def run (calls : List (Call T)) : LadderCache := calls.foldl (fun cache call => (step cache call).2) ∅

def Connects (cache : LadderCache) (call : Call T) (rung : Rung) : Prop := ∃ conn ends, (step cache call).1 = .connected rung conn ends

/- The rung of the last connection on a network. -/
def LastWorked (network : String) (calls : List (Call T)) (rung : Rung) : Prop :=
  ∃ earlier call later, calls = earlier ++ call :: later ∧ call.network = network ∧ Connects (run earlier) call rung ∧
    ∀ before next after, later = before ++ next :: after → next.network = network → ∀ other, ¬Connects (run (earlier ++ call :: before)) next other

theorem stepCache (cache : LadderCache) (call : Call T) : (step cache call).2 = cache ∧ (∀ rung, ¬Connects cache call rung) ∨
    ∃ rung, Connects cache call rung ∧ (step cache call).2 = cache.remember call.network rung := by
  unfold Connects step connectViaLadder
  cases call.done.findSome? won with
  | some winner => exact .inr ⟨winner.1,⟨winner.2.1,winner.2.2,rfl⟩,rfl⟩
  | none =>
    refine .inl ⟨rfl,?_⟩
    rintro rung ⟨conn,ends,same⟩
    dsimp only at same
    split at same <;> contradiction

theorem runNext (calls : List (Call T)) (call : Call T) : run (calls ++ [call]) = (step (run calls) call).2 := List.foldl_append

theorem connectsOnce {cache : LadderCache} {call : Call T} {rung other : Rung} (first : Connects cache call rung)
    (second : Connects cache call other) : rung = other := by
  obtain ⟨conn,ends,left⟩ := first
  obtain ⟨conn',ends',right⟩ := second
  exact (Outcome.connected.inj (left.symm.trans right)).1

/- Over any calls on any networks the cache holds what worked last on each. -/
theorem rememberedLast (calls : List (Call T)) (network : String) (rung : Rung) :
    (run calls).remembered network = some rung ↔ LastWorked network calls rung := by
  induction calls using List.reverseRecOn with
  | nil =>
    constructor
    · intro known
      simp [run, LadderCache.remembered] at known
    · rintro ⟨earlier,call,later,split,-⟩
      simp at split
  | append_singleton calls call ih =>
    rw [runNext]
    -- an earlier connection stays the last one while the call does not connect on the network
    have longer (idle : call.network = network → ∀ other, ¬Connects (run calls) call other) :
        LastWorked network (calls ++ [call]) rung ↔ LastWorked network calls rung := by
      constructor
      · rintro ⟨earlier,c,later,split,here,connects,quiet⟩
        cases later using List.reverseRecOn with
        | nil =>
          obtain ⟨rfl,same⟩ := List.append_inj' split rfl
          cases List.singleton_inj.mp same
          exact absurd connects (idle here rung)
        | append_singleton later last =>
          rw [← List.cons_append, ← List.append_assoc] at split
          obtain ⟨rfl,-⟩ := List.append_inj' split rfl
          exact ⟨earlier,c,later,rfl,here,connects,fun before next after parts => quiet before next (after ++ [last]) (by simp [parts])⟩
      · rintro ⟨earlier,c,later,rfl,here,connects,quiet⟩
        refine ⟨earlier,c,later ++ [call],by simp,here,connects,fun before next after parts => ?_⟩
        cases after using List.reverseRecOn with
        | nil =>
          obtain ⟨rfl,same⟩ := List.append_inj' parts rfl
          cases List.singleton_inj.mp same
          exact idle
        | append_singleton after last =>
          rw [← List.cons_append, ← List.append_assoc] at parts
          obtain ⟨rfl,-⟩ := List.append_inj' parts rfl
          exact quiet before next after rfl
    obtain ⟨same,idle⟩ | ⟨winner,connects,same⟩ := stepCache (run calls) call
    · rw [same, ih, longer fun _ => idle]
    · rw [same, LadderCache.remembered, LadderCache.remember, lookupInsert]
      by_cases here : network = call.network
      · rw [if_pos here, Option.some.injEq]
        constructor
        · rintro rfl
          exact ⟨calls,call,[],rfl,here.symm,connects,by simp⟩
        · rintro ⟨earlier,c,later,split,on,worked,quiet⟩
          cases later using List.reverseRecOn with
          | nil =>
            obtain ⟨rfl,eq⟩ := List.append_inj' split rfl
            cases List.singleton_inj.mp eq
            exact connectsOnce connects worked
          | append_singleton later last =>
            rw [← List.cons_append, ← List.append_assoc] at split
            obtain ⟨rfl,eq⟩ := List.append_inj' split rfl
            cases List.singleton_inj.mp eq
            exact absurd connects (quiet later call [] rfl here.symm winner)
      · rw [if_neg here, longer fun on => absurd on.symm here]
        exact ih

/- Where a rung worked last it has a head start: if it works again, the client waits for no other. -/
theorem reconnects {calls : List (Call T)} {call : Call T} {dial : Dial T} {rung : Rung} {took : Nat} {conn : T}
    (worked : LastWorked call.network calls rung) (among : rung ∈ call.ladder)
    (inOrder : InOrder dial (attemptOrder (run calls) call.network call.ladder) call.done) (again : dial 0 rung = some ⟨took,some conn⟩) :
    ∃ winner conn' ends, (step (run calls) call).1 = .connected winner conn' ends ∧ ends ≤ took := by
  have order := attemptKnown ((rememberedLast calls call.network rung).mpr worked) among
  have works : Works dial (attemptOrder (run calls) call.network call.ladder) 0 rung conn took := by
    refine ⟨by rw [order]; rfl,took,again,by simp⟩
  have decided := @raceDecided T _ _ call.done (run calls) call.network inOrder
  cases result : (connectViaLadder (run calls) call.network (attemptOrder (run calls) call.network call.ladder) call.done).1 with
  | connected winner conn' ends => exact ⟨winner,conn',ends,result,(decided.wins winner conn' ends result).2.1 0 rung conn took works⟩
  | exhausted ends =>
    obtain ⟨spent,failed,-⟩ := (decided.fails ends result).2 0 rung works.1
    rw [again] at failed
    cases failed
  | hangs => exact absurd works ((decided.hangs result).2.1 0 rung conn took)

/- The second start on the network of the first. -/
theorem reconnectsWitness : ∃ winner conn ends, (step (run [⟨"n",[.quic 1,.tlsTcp 2],[⟨1,.tlsTcp 2,280,some 7⟩]⟩])
    ⟨"n",[.quic 1,.tlsTcp 2],[⟨0,.tlsTcp 2,40,some 8⟩]⟩).1 = .connected winner conn ends ∧ ends ≤ 40 :=
  @reconnects Nat [⟨"n",[.quic 1,.tlsTcp 2],[⟨1,.tlsTcp 2,280,some 7⟩]⟩] ⟨"n",[.quic 1,.tlsTcp 2],[⟨0,.tlsTcp 2,40,some 8⟩]⟩
    (fun _ rung => if rung = .tlsTcp 2 then some ⟨40,some 8⟩ else none) (.tlsTcp 2) 40 8
    ⟨[],_,[],rfl,rfl,⟨7,280,rfl⟩,by simp⟩ (by decide) ⟨by exact List.Perm.refl _,by simp⟩ rfl

end Networks
end CadsTunnel.ClientLadder
