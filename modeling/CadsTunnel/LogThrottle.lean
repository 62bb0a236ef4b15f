import CadsTunnel.EdgeState

/-! The throttle of a repeating log line: the first occurrence of a key in a window is written,
those after it are counted, and a summary closes the window once its time is over. The log of
the agent-key violations keeps one, and asks it for no summary. -/
namespace CadsTunnel.Edge
open OrderedMap Words
open Std (ExtTreeMap TransOrd LawfulEqOrd)

inductive LogDecision where
  | logFull
  | suppress
  deriving DecidableEq, Repr

structure WindowSummary (K : Type) where
  total : UInt64
  distinctKeys : Nat
  untracked : UInt64
  top : List (K × UInt64)

structure WindowLogThrottle (K : Type) [Ord K] where
  windowSecs : UInt64
  maxTracked : Nat
  topN : Nat
  windowStart : UInt64 := 0
  keys : HashMap K UInt64 := ∅
  total : UInt64 := 0
  suppressed : UInt64 := 0
  untracked : UInt64 := 0

namespace WindowLogThrottle
variable {K : Type} [Ord K] [TransOrd K]

def note (t : WindowLogThrottle K) (now : UInt64) (key : K) : LogDecision × WindowLogThrottle K :=
  let t := { t with windowStart := if t.windowStart = 0 then now else t.windowStart, total := saturatingAdd t.total 1 }
  match t.keys[key]? with
  | some count => (.suppress,{ t with keys := t.keys.insert key (saturatingAdd count 1), suppressed := saturatingAdd t.suppressed 1 })
  | none =>
    if t.maxTracked ≤ t.keys.size then
      (.suppress,{ t with untracked := saturatingAdd t.untracked 1, suppressed := saturatingAdd t.suppressed 1 })
    else (.logFull,{ t with keys := t.keys.insert key 1 })

/- The busiest keys first, those of one count in their own order. -/
def busiest (t : WindowLogThrottle K) : List (K × UInt64) :=
  (t.keys.toList.mergeSort fun a b => ((compare b.2 a.2).then (compare a.1 b.1)).isLE).take t.topN

def windowSummary (t : WindowLogThrottle K) (now : UInt64) : Option (WindowSummary K) × WindowLogThrottle K :=
  if t.windowStart = 0 ∨ saturatingSub now t.windowStart < t.windowSecs then (none,t)
  else
    (if 0 < t.suppressed then some ⟨t.total,t.keys.size,t.untracked,t.busiest⟩ else none,
      { t with windowStart := 0, keys := ∅, total := 0, suppressed := 0, untracked := 0 })

/- As the front door and the fallback use it: the window that is over is closed first. -/
def noteRolled (t : WindowLogThrottle K) (now : UInt64) (key : K) : LogDecision × WindowLogThrottle K := (t.windowSummary now).2.note now key

section Notes
variable [LawfulEqOrd K] [DecidableEq K] (t : WindowLogThrottle K) (now : UInt64) (key : K)

/- What one occurrence does, as long as there is room for its key. -/
theorem noted (room : t.keys.size < t.maxTracked) :
    ((t.note now key).1 = .logFull ↔ t.keys[key]? = none) ∧ (t.note now key).2.maxTracked = t.maxTracked ∧
    (t.note now key).2.windowSecs = t.windowSecs ∧ (t.note now key).2.windowStart = (if t.windowStart = 0 then now else t.windowStart) ∧
    ∀ k, ((t.note now key).2.keys[k]?).isSome ↔ (t.keys[k]?).isSome ∨ k = key := by
  unfold note
  dsimp only
  cases held : t.keys[key]? with
  | some count =>
    refine ⟨by simp,rfl,rfl,rfl,?_⟩
    intro k
    dsimp only
    rw [lookupInsert]
    by_cases same : k = key <;> simp [same]
  | none =>
    rw [if_neg (Nat.not_le.mpr room)]
    refine ⟨by simp,rfl,rfl,rfl,?_⟩
    intro k
    dsimp only
    rw [lookupInsert]
    by_cases same : k = key <;> simp [same]

end Notes
end WindowLogThrottle

/- A line that is written for some of the occurrences `calls`: always when the window before it has none for its key, and
once at most for a key in one window of the throttle. -/
structure Spoken {K : Type} (windowSecs : Nat) (calls : List (UInt64 × K)) (spoke : Nat → Prop) (window : Nat → UInt64) : Prop where
  speaks : ∀ i now key, calls[i]? = some (now,key) →
    (∀ j earlier, j < i → calls[j]? = some (earlier,key) → spoke j → windowSecs ≤ now.toNat - earlier.toNat) → spoke i
  once : ∀ i j now earlier key, j < i → calls[j]? = some (earlier,key) → calls[i]? = some (now,key) → spoke j → spoke i → window j ≠ window i

section Runs
variable {K : Type} {windowSecs : Nat} {calls : List (UInt64 × K)} {spoke : Nat → Prop} {window : Nat → UInt64}

theorem inOrder (ordered : calls.Pairwise (fun a b => a.1 ≤ b.1)) {i j : Nat} {a b : UInt64 × K} (front : j ≤ i) (earlier : calls[j]? = some a)
    (later : calls[i]? = some b) : a.1.toNat ≤ b.1.toNat := by
  obtain same | less := Nat.eq_or_lt_of_le front
  · subst same
    cases Option.some.inj (earlier.symm.trans later)
    exact Nat.le_refl _
  · obtain ⟨inside,at'⟩ := List.getElem?_eq_some_iff.mp earlier
    obtain ⟨inside',at''⟩ := List.getElem?_eq_some_iff.mp later
    have le := List.pairwise_iff_getElem.mp ordered j i inside inside' less
    rw [at', at''] at le
    exact UInt64.le_iff_toNat_le.mp le

/- Whoever writes each key the first time and then never again is right just as long as no key is back after the window. -/
theorem spokenOnceIff (ordered : calls.Pairwise (fun a b => a.1 ≤ b.1))
    (first : ∀ i now key, calls[i]? = some (now,key) → (spoke i ↔ ∀ j < i, ∀ earlier, calls[j]? ≠ some (earlier,key))) :
    Spoken windowSecs calls spoke window ↔
      ∀ (i j : Nat) (now earlier : UInt64) key, j < i → calls[j]? = some (earlier,key) → calls[i]? = some (now,key) →
        now.toNat - earlier.toNat < windowSecs := by
  constructor
  · intro spoken i j now earlier key before old new
    by_contra late
    refine (first i now key new).mp (spoken.speaks i now key new ?_) j before earlier old
    intro j' earlier' before' old' spoke'
    have firstOne := (first j' earlier' key old').mp spoke'
    have front : j' ≤ j := by
      by_contra behind
      exact firstOne j (Nat.lt_of_not_le behind) earlier old
    have order := inOrder ordered front old' old
    dsimp only at order
    omega
  · intro close
    constructor
    · intro i now key new quiet
      refine (first i now key new).mpr ?_
      intro j before earlier old
      -- the first occurrence of the key is written
      classical
      have exists' : ∃ j, ∃ earlier, calls[j]? = some (earlier,key) := ⟨j,earlier,old⟩
      obtain ⟨earliest,found⟩ := Nat.find_spec exists'
      have least : ∀ j' < Nat.find exists', ∀ e, calls[j']? ≠ some (e,key) := fun j' less e same => Nat.find_min exists' less ⟨e,same⟩
      have front : Nat.find exists' < i := lt_of_le_of_lt (Nat.find_min' exists' ⟨earlier,old⟩) before
      have late := quiet _ earliest front found ((first _ earliest key found).mpr least)
      have soon := close i _ now earliest key front found new
      omega
    · intro i j now earlier key before old new _ spoke'
      exact absurd old ((first i now key new).mp spoke' j before earlier)

end Runs

/- The throttle after some occurrences, and what it says to each. -/
namespace WindowLogThrottle
section Trace
variable {K : Type} [Ord K] [TransOrd K] (step : WindowLogThrottle K → UInt64 → K → LogDecision × WindowLogThrottle K)

def after (t : WindowLogThrottle K) (calls : List (UInt64 × K)) : WindowLogThrottle K := calls.foldl (fun t call => (step t call.1 call.2).2) t

def decision (t : WindowLogThrottle K) (calls : List (UInt64 × K)) (i : Nat) : Option LogDecision :=
  calls[i]?.map fun call => (step (after step t (calls.take i)) call.1 call.2).1

def windowAt (t : WindowLogThrottle K) (calls : List (UInt64 × K)) (i : Nat) : UInt64 := (after step t (calls.take (i + 1))).windowStart

omit [TransOrd K] in
theorem afterNext (t : WindowLogThrottle K) (calls : List (UInt64 × K)) (call : UInt64 × K) :
    after step t (calls ++ [call]) = (step (after step t calls) call.1 call.2).2 := by
  rw [after, List.foldl_append, List.foldl_cons, List.foldl_nil, ← after]

omit [TransOrd K] in
theorem windowTake (t : WindowLogThrottle K) (calls : List (UInt64 × K)) {i j : Nat} (before : j < i) :
    windowAt step t (calls.take i) j = windowAt step t calls j := by
  rw [windowAt, windowAt, List.take_take, Nat.min_eq_left before]

omit [TransOrd K] in
theorem windowHere (t : WindowLogThrottle K) {calls : List (UInt64 × K)} {i : Nat} {call : UInt64 × K} (here : calls[i]? = some call) :
    windowAt step t calls i = (step (after step t (calls.take i)) call.1 call.2).2.windowStart := by
  obtain ⟨inside,same⟩ := List.getElem?_eq_some_iff.mp here
  rw [windowAt, List.take_succ_eq_append_getElem inside, afterNext, same]

end Trace

section Unrolled
variable {K : Type} [Ord K] [TransOrd K] [LawfulEqOrd K] [DecidableEq K] (t : WindowLogThrottle K)

/- As many keys as there are to be told apart, at most. -/
theorem keysBounded {keys : HashMap K UInt64} {bound : Finset K} (inside : ∀ k, (keys[k]?).isSome → k ∈ bound) : keys.size ≤ bound.card := by
  have counted : keys.size = ((keys.toList.map Prod.fst).toFinset).card := by
    rw [List.toFinset_card_of_nodup (keysNodup keys), List.length_map, ExtTreeMap.length_toList]
  rw [counted]
  refine Finset.card_le_card ?_
  intro k mem
  obtain ⟨entry,inside',rfl⟩ := List.mem_map.mp (List.mem_toFinset.mp mem)
  exact inside _ (by rw [ExtTreeMap.mem_toList_iff_getElem?_eq_some.mp inside']; rfl)

/- Without a summary the keys of the throttle are those that have occurred. -/
theorem keysAfter (empty : t.keys = ∅) (calls : List (UInt64 × K)) (room : (calls.map Prod.snd).toFinset.card < t.maxTracked) :
    (after note t calls).maxTracked = t.maxTracked ∧ ∀ k, ((after note t calls).keys[k]?).isSome ↔ k ∈ calls.map Prod.snd := by
  induction calls using List.reverseRecOn with
  | nil =>
    refine ⟨rfl,fun k => ?_⟩
    rw [after, List.foldl_nil, empty]
    simp
  | append_singleton front call ih =>
    have smaller : (front.map Prod.snd).toFinset.card ≤ ((front ++ [call]).map Prod.snd).toFinset.card := by
      refine Finset.card_le_card ?_
      intro k mem
      rw [List.mem_toFinset, List.map_append] at *
      exact List.mem_append_left _ mem
    obtain ⟨most,keys⟩ := ih (lt_of_le_of_lt smaller room)
    have size : (after note t front).keys.size ≤ (front.map Prod.snd).toFinset.card := keysBounded (fun k held => List.mem_toFinset.mpr ((keys k).mp held))
    obtain ⟨_,most',_,_,keys'⟩ := noted (after note t front) call.1 call.2 (by omega)
    rw [afterNext]
    refine ⟨most'.trans most,?_⟩
    intro k
    rw [keys', keys, List.map_append, List.mem_append, List.map_singleton, List.mem_singleton]

/- And what is written is the first of its key. -/
theorem firstWritten (empty : t.keys = ∅) {calls : List (UInt64 × K)} (room : (calls.map Prod.snd).toFinset.card < t.maxTracked) {i : Nat} {now : UInt64}
    {key : K} (here : calls[i]? = some (now,key)) :
    decision note t calls i = some .logFull ↔ ∀ j < i, ∀ earlier, calls[j]? ≠ some (earlier,key) := by
  have smaller : ((calls.take i).map Prod.snd).toFinset.card ≤ (calls.map Prod.snd).toFinset.card := by
    refine Finset.card_le_card ?_
    intro k mem
    rw [List.mem_toFinset] at *
    exact ((List.take_sublist i calls).map Prod.snd).subset mem
  obtain ⟨most,keys⟩ := keysAfter t empty (calls.take i) (lt_of_le_of_lt smaller room)
  have size : (after note t (calls.take i)).keys.size ≤ ((calls.take i).map Prod.snd).toFinset.card := keysBounded (fun k held => List.mem_toFinset.mpr ((keys k).mp held))
  have written := (noted (after note t (calls.take i)) now key (by omega)).1
  rw [decision, here, Option.map_some, Option.some_inj, written, ← Option.not_isSome_iff_eq_none, keys]
  constructor
  · intro fresh j before earlier old
    refine fresh (List.mem_map.mpr ⟨(earlier,key),?_,rfl⟩)
    refine List.mem_iff_getElem?.mpr ⟨j,?_⟩
    rw [List.getElem?_take_of_lt before, old]
  · intro fresh mem
    obtain ⟨entry,inside,same⟩ := List.mem_map.mp mem
    obtain ⟨j,at'⟩ := List.mem_iff_getElem?.mp inside
    rw [List.getElem?_take] at at'
    split at at' <;> try contradiction
    rename_i before
    exact fresh j before entry.1 (by rw [at', ← same])

end Unrolled

section Rolled
variable {K : Type} [Ord K] [TransOrd K] [LawfulEqOrd K] [DecidableEq K] {t : WindowLogThrottle K}

/- An occurrence is the first of its window, or it falls into the window that is open. -/
theorem rolledNoted {now : UInt64} {key : K} (room : t.keys.size < t.maxTracked) (some' : 0 < t.maxTracked) (idle : t.windowStart = 0 → t.keys = ∅) :
    (t.noteRolled now key).2.maxTracked = t.maxTracked ∧ (t.noteRolled now key).2.windowSecs = t.windowSecs ∧
    ((t.windowStart = 0 ∨ ¬saturatingSub now t.windowStart < t.windowSecs) ∧ (t.noteRolled now key).2.windowStart = now ∧
        (t.noteRolled now key).1 = .logFull ∧ (∀ k, ((t.noteRolled now key).2.keys[k]?).isSome ↔ k = key) ∨
      t.windowStart ≠ 0 ∧ saturatingSub now t.windowStart < t.windowSecs ∧ (t.noteRolled now key).2.windowStart = t.windowStart ∧
        ((t.noteRolled now key).1 = .logFull ↔ t.keys[key]? = none) ∧
        ∀ k, ((t.noteRolled now key).2.keys[k]?).isSome ↔ (t.keys[k]?).isSome ∨ k = key) := by
  by_cases fresh : t.windowStart = 0
  · have same : t.windowSummary now = (none,t) := by rw [windowSummary, if_pos (.inl fresh)]
    obtain ⟨written,most,secs,start,keys⟩ := noted t now key room
    rw [noteRolled, same]
    refine ⟨most,secs,.inl ⟨.inl fresh,by rw [start, if_pos fresh],written.mpr (by rw [idle fresh]; simp),?_⟩⟩
    intro k
    rw [keys, idle fresh]
    simp
  · by_cases inside : saturatingSub now t.windowStart < t.windowSecs
    · have same : t.windowSummary now = (none,t) := by rw [windowSummary, if_pos (.inr inside)]
      obtain ⟨written,most,secs,start,keys⟩ := noted t now key room
      rw [noteRolled, same]
      exact ⟨most,secs,.inr ⟨fresh,inside,by rw [start, if_neg fresh],written,keys⟩⟩
    · have closed : (t.windowSummary now).2 = { t with windowStart := 0, keys := ∅, total := 0, suppressed := 0, untracked := 0 } := by
        rw [windowSummary, if_neg (not_or.mpr ⟨fresh,inside⟩)]
      have room' : ((t.windowSummary now).2).keys.size < ((t.windowSummary now).2).maxTracked := by
        rw [closed]
        simpa using some'
      obtain ⟨written,most,secs,start,keys⟩ := noted (t.windowSummary now).2 now key room'
      rw [noteRolled]
      rw [closed] at *
      refine ⟨most,secs,.inl ⟨.inr inside,by rw [start, if_pos rfl],written.mpr (by simp),?_⟩⟩
      intro k
      rw [keys]
      simp

/- Where the windows of the occurrences are, and which keys the open one holds. -/
structure Windows (t : WindowLogThrottle K) (calls : List (UInt64 × K)) : Prop where
  most : (after noteRolled t calls).maxTracked = t.maxTracked
  secs : (after noteRolled t calls).windowSecs = t.windowSecs
  idle : (after noteRolled t calls).windowStart = 0 → calls = []
  inside : ∀ (i : Nat) now key, calls[i]? = some (now,key) → windowAt noteRolled t calls i ≠ 0 ∧ windowAt noteRolled t calls i ≤ now ∧
    now.toNat - (windowAt noteRolled t calls i).toNat < t.windowSecs.toNat ∧
    (windowAt noteRolled t calls i).toNat ≤ (after noteRolled t calls).windowStart.toNat
  held : ∀ k, ((after noteRolled t calls).keys[k]?).isSome ↔
    ∃ (j : Nat) (now : UInt64), calls[j]? = some (now,k) ∧ windowAt noteRolled t calls j = (after noteRolled t calls).windowStart

/- No window opens after the last occurrence. -/
omit [LawfulEqOrd K] [DecidableEq K] in
theorem startReached {calls : List (UInt64 × K)} (windows : Windows t calls) (start : t.windowStart = 0) {now : UInt64} (late : ∀ call ∈ calls, call.1 ≤ now) :
    (after noteRolled t calls).windowStart.toNat ≤ now.toNat := by
  cases calls using List.reverseRecOn with
  | nil =>
    rw [after, List.foldl_nil, start]
    exact Nat.zero_le _
  | append_singleton front call =>
    have last : (front ++ [call])[front.length]? = some call := List.getElem?_concat_length
    have below := (windows.inside front.length call.1 call.2 last).2.1
    rw [windowAt, List.take_of_length_le (by simp)] at below
    have reached := UInt64.le_iff_toNat_le.mp (UInt64.le_trans below (late call (by simp)))
    exact reached

theorem subtracted {now start : UInt64} (before : start.toNat ≤ now.toNat) : (saturatingSub now start).toNat = now.toNat - start.toNat :=
  saturatingSubExact (UInt64.le_iff_toNat_le.mpr before)

theorem windowsHold (start : t.windowStart = 0) (empty : t.keys = ∅) (lasting : 0 < t.windowSecs) {calls : List (UInt64 × K)}
    (ordered : calls.Pairwise (fun a b => a.1 ≤ b.1)) (positive : ∀ call ∈ calls, call.1 ≠ 0) (room : (calls.map Prod.snd).toFinset.card < t.maxTracked) :
    Windows t calls := by
  induction calls using List.reverseRecOn with
  | nil =>
    refine ⟨rfl,rfl,fun _ => rfl,?_,?_⟩
    · intro i now key here
      simp at here
    · intro k
      rw [after, List.foldl_nil, empty]
      simp
  | append_singleton front call ih =>
    obtain ⟨orderedFront,_,late⟩ := List.pairwise_append.mp ordered
    have smaller : (front.map Prod.snd).toFinset.card ≤ ((front ++ [call]).map Prod.snd).toFinset.card := by
      refine Finset.card_le_card ?_
      intro k mem
      rw [List.mem_toFinset, List.map_append] at *
      exact List.mem_append_left _ mem
    have windows := ih orderedFront (fun c mem => positive c (List.mem_append_left _ mem)) (lt_of_le_of_lt smaller room)
    have reached := startReached windows start (fun c mem => late c mem call (by simp))
    have size : (after noteRolled t front).keys.size ≤ (front.map Prod.snd).toFinset.card := keysBounded (fun k held => by
      obtain ⟨j,now,here,_⟩ := (windows.held k).mp held
      exact List.mem_toFinset.mpr (List.mem_map.mpr ⟨_,List.mem_of_getElem? here,rfl⟩))
    have idle : (after noteRolled t front).windowStart = 0 → (after noteRolled t front).keys = ∅ := by
      intro none'
      rw [windows.idle none']
      exact empty
    obtain ⟨most,secs,cases'⟩ := @rolledNoted _ _ _ _ _ (after noteRolled t front) call.1 call.2 (by rw [windows.most]; omega)
      (by rw [windows.most]; omega) idle
    rw [windows.secs] at cases'
    have old : ∀ j < front.length, windowAt noteRolled t (front ++ [call]) j = windowAt noteRolled t front j := by
      intro j before
      rw [← windowTake noteRolled t (front ++ [call]) before, List.take_left]
    have new : windowAt noteRolled t (front ++ [call]) front.length = ((after noteRolled t front).noteRolled call.1 call.2).2.windowStart := by
      have last : (front ++ [call])[front.length]? = some call := List.getElem?_concat_length
      rw [windowHere noteRolled t last, List.take_left]
    have next := afterNext noteRolled t front call
    have placed : ∀ (i : Nat) (e : UInt64 × K), (front ++ [call])[i]? = some e ↔ front[i]? = some e ∧ i < front.length ∨ i = front.length ∧ e = call := by
      intro i e
      rw [List.getElem?_append]
      split
      · rename_i before
        simp [before, Nat.ne_of_lt before]
      · rename_i behind
        rw [List.getElem?_singleton]
        have position : i - front.length = 0 ↔ i = front.length := by omega
        by_cases same : i = front.length
        · simp [same, eq_comm]
        · simp [position, same, behind]
    have positiveSecs : 0 < t.windowSecs.toNat := UInt64.lt_iff_toNat_lt.mp lasting
    obtain ⟨over',opened,_,keys⟩ | ⟨running,inTime,kept,_,keys⟩ := cases'
    · have gone : ∀ (j : Nat) (e : UInt64 × K), front[j]? = some e → windowAt noteRolled t front j ≠ call.1 := by
        intro j e here same
        obtain ⟨_,_,_,below⟩ := windows.inside j e.1 e.2 here
        rw [same] at below
        obtain none' | ended := over'
        · rw [windows.idle none'] at here
          simp at here
        · rw [UInt64.lt_iff_toNat_lt, subtracted reached] at ended
          omega
      refine ⟨by rw [next, most, windows.most],by rw [next, secs, windows.secs],?_,?_,?_⟩
      · intro none'
        rw [next, opened] at none'
        exact absurd none' (positive call (by simp))
      · intro i now key here
        rw [next, opened]
        obtain ⟨before',at'⟩ | ⟨rfl,same⟩ := (placed i _).mp here
        · obtain ⟨open',below,close,front'⟩ := windows.inside i now key before'
          rw [old i at']
          exact ⟨open',below,close,front'.trans reached⟩
        · subst same
          rw [new, opened]
          exact ⟨positive _ (by simp),UInt64.le_refl _,by rwa [Nat.sub_self],Nat.le_refl _⟩
      · intro k
        rw [next, keys, opened]
        constructor
        · rintro rfl
          exact ⟨front.length,call.1,(placed _ _).mpr (.inr ⟨rfl,rfl⟩),new.trans opened⟩
        · rintro ⟨j,now,here,same⟩
          obtain ⟨before',at'⟩ | ⟨rfl,same'⟩ := (placed j _).mp here
          · exact absurd ((old j at').symm.trans same) (gone j _ before')
          · rw [← same']
    · rw [UInt64.lt_iff_toNat_lt, subtracted reached] at inTime
      refine ⟨by rw [next, most, windows.most],by rw [next, secs, windows.secs],?_,?_,?_⟩
      · intro none'
        rw [next, kept] at none'
        exact absurd none' running
      · intro i now key here
        rw [next, kept]
        obtain ⟨before',at'⟩ | ⟨rfl,same⟩ := (placed i _).mp here
        · rw [old i at']
          exact windows.inside i now key before'
        · subst same
          rw [new, kept]
          exact ⟨running,UInt64.le_iff_toNat_le.mpr reached,inTime,Nat.le_refl _⟩
      · intro k
        rw [next, keys, kept, windows.held]
        constructor
        · rintro (⟨j,now,here,same⟩ | rfl)
          · have at' := (List.getElem?_eq_some_iff.mp here).1
            exact ⟨j,now,(placed _ _).mpr (.inl ⟨here,at'⟩),(old j at').trans same⟩
          · exact ⟨front.length,call.1,(placed _ _).mpr (.inr ⟨rfl,rfl⟩),new.trans kept⟩
        · rintro ⟨j,now,here,same⟩
          obtain ⟨before',at'⟩ | ⟨rfl,same'⟩ := (placed j _).mp here
          · exact .inl ⟨j,now,before',(old j at').symm.trans same⟩
          · exact .inr (by rw [← same'])

/- What is written is the first of its key in its window. -/
theorem firstOfWindow (start : t.windowStart = 0) (empty : t.keys = ∅) (lasting : 0 < t.windowSecs) {calls : List (UInt64 × K)}
    (ordered : calls.Pairwise (fun a b => a.1 ≤ b.1)) (positive : ∀ call ∈ calls, call.1 ≠ 0) (room : (calls.map Prod.snd).toFinset.card < t.maxTracked)
    {i : Nat} {now : UInt64} {key : K} (here : calls[i]? = some (now,key)) :
    decision noteRolled t calls i = some .logFull ↔
      ∀ (j : Nat) (earlier : UInt64), j < i → calls[j]? = some (earlier,key) → windowAt noteRolled t calls j ≠ windowAt noteRolled t calls i := by
  have smaller : ((calls.take i).map Prod.snd).toFinset.card ≤ (calls.map Prod.snd).toFinset.card := by
    refine Finset.card_le_card ?_
    intro k mem
    rw [List.mem_toFinset] at *
    exact ((List.take_sublist i calls).map Prod.snd).subset mem
  have front : ∀ c ∈ calls.take i, c ∈ calls := fun c mem => List.mem_of_mem_take mem
  have windows := windowsHold start empty lasting (ordered.sublist (List.take_sublist i calls)) (fun c mem => positive c (front c mem))
    (lt_of_le_of_lt smaller room)
  have late : ∀ c ∈ calls.take i, c.1 ≤ now := by
    intro c mem
    obtain ⟨j,at'⟩ := List.mem_iff_getElem?.mp mem
    rw [List.getElem?_take] at at'
    split at at' <;> try contradiction
    rename_i before
    exact UInt64.le_iff_toNat_le.mpr (inOrder ordered before.le at' here)
  have reached := startReached windows start late
  have size : (after noteRolled t (calls.take i)).keys.size ≤ ((calls.take i).map Prod.snd).toFinset.card := keysBounded (fun k held => by
    obtain ⟨j,now,here,_⟩ := (windows.held k).mp held
    exact List.mem_toFinset.mpr (List.mem_map.mpr ⟨_,List.mem_of_getElem? here,rfl⟩))
  have idle : (after noteRolled t (calls.take i)).windowStart = 0 → (after noteRolled t (calls.take i)).keys = ∅ := by
    intro none'
    rw [windows.idle none']
    exact empty
  obtain ⟨_,_,cases'⟩ := @rolledNoted _ _ _ _ _ (after noteRolled t (calls.take i)) now key (by rw [windows.most]; omega)
    (by rw [windows.most]; omega) idle
  rw [windows.secs] at cases'
  have decided : decision noteRolled t calls i = some ((after noteRolled t (calls.take i)).noteRolled now key).1 := by
    rw [decision, here, Option.map_some]
  have window := windowHere noteRolled t here
  have positiveSecs : 0 < t.windowSecs.toNat := UInt64.lt_iff_toNat_lt.mp lasting
  obtain ⟨over',opened,written,_⟩ | ⟨_,_,kept,written,_⟩ := cases'
  · refine iff_of_true (by rw [decided, written]) ?_
    intro j earlier before old same
    have old' : (calls.take i)[j]? = some (earlier,key) := by rw [List.getElem?_take_of_lt before, old]
    obtain ⟨_,_,_,below⟩ := windows.inside j earlier key old'
    rw [windowTake noteRolled t calls before, same, window, opened] at below
    obtain none' | ended := over'
    · rw [windows.idle none'] at old'
      simp at old'
    · rw [UInt64.lt_iff_toNat_lt, subtracted reached] at ended
      omega
  · rw [decided, Option.some_inj, written, ← Option.not_isSome_iff_eq_none, windows.held, window, kept]
    constructor
    · intro fresh j earlier before old same
      exact fresh ⟨j,earlier,by rw [List.getElem?_take_of_lt before, old],by rw [windowTake noteRolled t calls before, same]⟩
    · rintro fresh ⟨j,earlier,old,same⟩
      rw [List.getElem?_take] at old
      split at old <;> try contradiction
      rename_i before
      exact fresh j earlier before old (by rw [← windowTake noteRolled t calls before, same])

/- Where every summary is asked for, the log is as it should be. -/
theorem rolledSpoken (start : t.windowStart = 0) (empty : t.keys = ∅) (lasting : 0 < t.windowSecs) {calls : List (UInt64 × K)}
    (ordered : calls.Pairwise (fun a b => a.1 ≤ b.1)) (positive : ∀ call ∈ calls, call.1 ≠ 0) (room : (calls.map Prod.snd).toFinset.card < t.maxTracked) :
    Spoken t.windowSecs.toNat calls (fun i => decision noteRolled t calls i = some .logFull) (windowAt noteRolled t calls) := by
  have windows := windowsHold start empty lasting ordered positive room
  constructor
  · intro i now key here quiet
    refine (firstOfWindow start empty lasting ordered positive room here).mpr ?_
    -- of the occurrences of the key in one window the first is written
    intro j
    induction j using Nat.strong_induction_on with
    | _ j ih =>
      intro earlier before old same
      have spoke := (firstOfWindow start empty lasting ordered positive room old).mpr (fun j' earlier' before' old' same' =>
        ih j' before' earlier' (before'.trans before) old' (same'.trans same))
      have late := quiet j earlier before old spoke
      obtain ⟨_,below,_,_⟩ := windows.inside j earlier key old
      obtain ⟨_,_,close,_⟩ := windows.inside i now key here
      rw [same] at below
      have below' := UInt64.le_iff_toNat_le.mp below
      omega
  · intro i j now earlier key before old here _ spoke
    exact (firstOfWindow start empty lasting ordered positive room here).mp spoke j earlier before old

end Rolled
end WindowLogThrottle
end CadsTunnel.Edge
