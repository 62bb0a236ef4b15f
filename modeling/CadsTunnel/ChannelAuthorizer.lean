import CadsTunnel.ChannelObjects
import CadsTunnel.HexText
import CadsTunnel.Machine
import CadsTunnel.OrderedMap

/-! The edge's lookup of channel members, behind two caches: memberships, for when the
control plane cannot be asked, and refusals, which are not asked again for a while. A
sweep drops what has expired, so that what counts of a cache is its unexpired part. -/
namespace CadsTunnel.ChannelAuthorize
open OrderedMap Words
open Std (ExtTreeMap)

abbrev CacheKey := ChannelId × Key

/- `u8::from_str_radix` of a chunk of two, which reads a leading plus sign. -/
def radix16 (hi lo : UInt8) : Option UInt8 :=
  if hi = 43 then Hex.nibble lo
  else do
    let h ← Hex.nibble hi
    let l ← Hex.nibble lo
    some (h * 16 + l)

def hexChunks : Bytes → Option Bytes
  | hi :: lo :: rest => do
    let b ← radix16 hi lo
    let more ← hexChunks rest
    some (b :: more)
  | _ => some []

def hexDecode64 (s : String) : Option Signature :=
  if (asBytes s).length ≠ 128 then none
  else (hexChunks (asBytes s)).bind (fun bytes => if size : bytes.toArray.size = 64 then some ⟨bytes.toArray,size⟩ else none)

structure AuthorizeResp where
  operatorPubkey : String
  noisePubkey : Option String
  noiseAttestation : Option String

structure MemberResolution where
  operatorPubkey : Key
  noisePubkey : Option Key
  noiseAttestation : Option Signature
  deriving DecidableEq

/- What the request comes back with: nothing, or a status and the body, if it parses. -/
inductive Response where
  | transport
  | status (code : Nat) (body : Option AuthorizeResp)

inductive Outcome where
  | authorized (m : MemberResolution)
  | refused
  | unresolved
  deriving DecidableEq

def Outcome.definitive : Outcome → Bool
  | .unresolved => false
  | _ => true

def query : Response → Outcome
  | .transport => .unresolved
  | .status code body =>
    if code = 404 || code = 401 then .refused
    else if code < 200 || 300 ≤ code then .unresolved
    else
      match body with
      | none => .unresolved
      | some body =>
        match Hex.decode32 body.operatorPubkey with
        | none => .unresolved
        | some operatorPubkey =>
          .authorized ⟨operatorPubkey,body.noisePubkey.bind Hex.decode32,body.noiseAttestation.bind hexDecode64⟩

/- Clock readings in nanoseconds. A sweep that was never made is a whole interval ago. -/
structure ChannelAuthorizer where
  cache : BTreeMap CacheKey (MemberResolution × Nat) := ∅
  cacheTtl : Nat
  negativeCache : BTreeMap CacheKey Nat := ∅
  negativeCacheTtl : Nat
  lastSwept : Option Nat := none
  sweepInterval : Nat

namespace ChannelAuthorizer

def withTtlsAndSweepInterval (cacheTtl negativeCacheTtl sweepInterval : Nat) : ChannelAuthorizer :=
  { cacheTtl, negativeCacheTtl, sweepInterval }

/- The sweep itself, whenever it is run. -/
def sweepExpired (s : ChannelAuthorizer) (now : Nat) : ChannelAuthorizer :=
  { s with
    lastSwept := some now
    cache := s.cache.filter (fun _ entry => now - entry.2 < s.cacheTtl)
    negativeCache := s.negativeCache.filter (fun _ at' => now - at' < s.negativeCacheTtl) }

def maybeSweepExpired (s : ChannelAuthorizer) (now : Nat) : ChannelAuthorizer :=
  if s.lastSwept.any (fun last => now - last < s.sweepInterval) then s else s.sweepExpired now

def shadowed (s : ChannelAuthorizer) (k : CacheKey) (now : Nat) : Bool :=
  s.negativeCache[k]?.any (fun at' => now - at' < s.negativeCacheTtl)

/- What a query that was answered leaves behind. -/
def vouched (s : ChannelAuthorizer) (k : CacheKey) (m : MemberResolution) (answered : Nat) : ChannelAuthorizer :=
  { s with cache := s.cache.insert k (m,answered), negativeCache := s.negativeCache.erase k }

def refused (s : ChannelAuthorizer) (k : CacheKey) (answered : Nat) : ChannelAuthorizer :=
  { s with cache := s.cache.erase k, negativeCache := s.negativeCache.insert k answered }

/- A call is asked at one time and answered at a later one; sweeps may run while its request is out. -/
def definitivelyNotAMember (s : ChannelAuthorizer) (k : CacheKey) (response : Response) (asked : Nat) (meanwhile : List Nat)
    (answered : Nat) : Bool × ChannelAuthorizer :=
  if s.shadowed k asked then (true,s)
  else
    let s := meanwhile.foldl sweepExpired s
    match query response with
    | .refused => (true,s.refused k answered)
    | _ => (false,s)

def resolve (s : ChannelAuthorizer) (k : CacheKey) (response : Response) (asked : Nat) (meanwhile : List Nat)
    (answered : Nat) : Option MemberResolution × ChannelAuthorizer :=
  let s := s.maybeSweepExpired asked
  if s.shadowed k asked then (none,s)
  else
    let s := meanwhile.foldl sweepExpired s
    match query response with
    | .authorized m => (some m,s.vouched k m answered)
    | .refused => (none,s.refused k answered)
    | .unresolved => ((s.cache[k]?.filter (fun entry => answered - entry.2 < s.cacheTtl)).map Prod.fst,s)

end ChannelAuthorizer

inductive Caller where
  | resolve
  | definitivelyNotAMember
  deriving DecidableEq

inductive Call where
  | resolve (k : CacheKey) (response : Response) (asked : Nat) (meanwhile : List Nat) (answered : Nat)
  | definitivelyNotAMember (k : CacheKey) (response : Response) (asked : Nat) (meanwhile : List Nat) (answered : Nat)
  | sweep (now : Nat)

def Call.times : Call → List Nat
  | .resolve _ _ asked meanwhile answered => asked :: (meanwhile ++ [answered])
  | .definitivelyNotAMember _ _ asked meanwhile answered => asked :: (meanwhile ++ [answered])
  | .sweep now => [now]

def Call.unswept : Call → Option Call
  | .resolve k response asked _ answered => some (.resolve k response asked [] answered)
  | .definitivelyNotAMember k response asked _ answered => some (.definitivelyNotAMember k response asked [] answered)
  | .sweep _ => none

inductive Answer where
  | member (m : Option MemberResolution)
  | gone (definitively : Bool)
  deriving DecidableEq

def step (s : ChannelAuthorizer) : Call → Option Answer × ChannelAuthorizer
  | .resolve k response asked meanwhile answered =>
    let (m,s) := s.resolve k response asked meanwhile answered
    (some (.member m),s)
  | .definitivelyNotAMember k response asked meanwhile answered =>
    let (gone,s) := s.definitivelyNotAMember k response asked meanwhile answered
    (some (.gone gone),s)
  | .sweep now => (none,s.sweepExpired now)

def run (s : ChannelAuthorizer) (calls : List Call) : ChannelAuthorizer := Machine.run step s calls

def answers (s : ChannelAuthorizer) (calls : List Call) : List Answer :=
  Machine.log step (fun s call => (step s call).1.toList) s calls

/- What a query of the control plane came to, and which call asked. -/
structure Observation where
  caller : Caller
  key : CacheKey
  outcome : Outcome
  at' : Nat
  deriving DecidableEq

def observed (s : ChannelAuthorizer) : Call → List Observation
  | .resolve k response asked _ answered =>
    if (s.maybeSweepExpired asked).shadowed k asked then [] else [⟨.resolve,k,query response,answered⟩]
  | .definitivelyNotAMember k response asked _ answered =>
    if s.shadowed k asked then [] else [⟨.definitivelyNotAMember,k,query response,answered⟩]
  | .sweep _ => []

def history (s : ChannelAuthorizer) (calls : List Call) : List Observation := Machine.log step observed s calls

def lastDefinitive (seen : List Observation) (k : CacheKey) : Option Outcome :=
  (seen.filter (fun o => o.key = k ∧ o.outcome.definitive)).getLast?.map (·.outcome)

theorem lastAppend (seen : List Observation) (o : Observation) (k : CacheKey) :
    lastDefinitive (seen ++ [o]) k = if o.key = k ∧ o.outcome.definitive then some o.outcome else lastDefinitive seen k := by
  unfold lastDefinitive
  rw [List.filter_append, List.filter_singleton]
  by_cases meant : o.key = k ∧ o.outcome.definitive
  · simp [meant]
  · simp [meant]

namespace ChannelAuthorizer
variable {s t : ChannelAuthorizer} {k : CacheKey} {now : Nat}

/- The unexpired part of the caches. -/
def fresh (s : ChannelAuthorizer) (k : CacheKey) (now : Nat) : Option (MemberResolution × Nat) :=
  s.cache[k]?.filter (fun entry => now - entry.2 < s.cacheTtl)

def barred (s : ChannelAuthorizer) (k : CacheKey) (now : Nat) : Option Nat :=
  s.negativeCache[k]?.filter (fun at' => now - at' < s.negativeCacheTtl)

theorem shadowedBarred : s.shadowed k now = (s.barred k now).isSome := by
  unfold shadowed barred
  cases s.negativeCache[k]? with
  | none => rfl
  | some at' => by_cases live : now - at' < s.negativeCacheTtl <;> simp [live]

/- Two authorizers that differ only in what has expired and in when they sweep. -/
structure Alike (now : Nat) (s t : ChannelAuthorizer) : Prop where
  cacheTtl : s.cacheTtl = t.cacheTtl
  negativeCacheTtl : s.negativeCacheTtl = t.negativeCacheTtl
  fresh : ∀ k, s.fresh k now = t.fresh k now
  barred : ∀ k, s.barred k now = t.barred k now

theorem alikeRefl (s : ChannelAuthorizer) : Alike now s s := ⟨rfl,rfl,fun _ => rfl,fun _ => rfl⟩

theorem alikeSymm (alike : Alike now s t) : Alike now t s :=
  ⟨alike.cacheTtl.symm,alike.negativeCacheTtl.symm,fun k => (alike.fresh k).symm,fun k => (alike.barred k).symm⟩

theorem alikeTrans {u : ChannelAuthorizer} (first : Alike now s t) (second : Alike now t u) : Alike now s u :=
  ⟨first.cacheTtl.trans second.cacheTtl,first.negativeCacheTtl.trans second.negativeCacheTtl,
    fun k => (first.fresh k).trans (second.fresh k),fun k => (first.barred k).trans (second.barred k)⟩

theorem freshLater {later : Nat} (ordered : now ≤ later) :
    s.fresh k later = (s.fresh k now).filter (fun entry => later - entry.2 < s.cacheTtl) := by
  rw [fresh, fresh, Option.filter_filter]
  congr
  funext entry
  grind

theorem barredLater {later : Nat} (ordered : now ≤ later) :
    s.barred k later = (s.barred k now).filter (fun at' => later - at' < s.negativeCacheTtl) := by
  rw [barred, barred, Option.filter_filter]
  congr
  funext at'
  grind

theorem alikeLater {later : Nat} (ordered : now ≤ later) (alike : Alike now s t) : Alike later s t := by
  refine ⟨alike.cacheTtl,alike.negativeCacheTtl,?_,?_⟩
  · intro k
    rw [freshLater ordered, freshLater ordered, alike.fresh, alike.cacheTtl]
  · intro k
    rw [barredLater ordered, barredLater ordered, alike.barred, alike.negativeCacheTtl]

theorem filterTwice {α : Type} (p : α → Bool) (o : Option α) : (o.filter p).filter p = o.filter p := by
  rw [Option.filter_filter]
  simp only [Bool.and_self]

theorem alikeSwept (s : ChannelAuthorizer) : Alike now (s.sweepExpired now) s := by
  refine ⟨rfl,rfl,?_,?_⟩
  · intro k
    simp only [fresh, sweepExpired, ExtTreeMap.getElem?_filter']
    exact filterTwice _ _
  · intro k
    simp only [barred, sweepExpired, ExtTreeMap.getElem?_filter']
    exact filterTwice _ _

theorem alikeMaybeSwept (s : ChannelAuthorizer) : Alike now (s.maybeSweepExpired now) s := by
  unfold maybeSweepExpired
  split
  · exact alikeRefl s
  · exact alikeSwept s

theorem alikeSweeps {later : Nat} {moments : List Nat} (ordered : ∀ m ∈ moments, m ≤ later) (s : ChannelAuthorizer) :
    Alike later (moments.foldl sweepExpired s) s := by
  induction moments generalizing s with
  | nil => exact alikeRefl s
  | cons first rest ih =>
    have swept : Alike later (s.sweepExpired first) s := alikeLater (ordered first List.mem_cons_self) (alikeSwept s)
    exact alikeTrans (ih (fun m mem => ordered m (List.mem_cons_of_mem _ mem)) _) swept

theorem freshVouched (m : MemberResolution) (k' : CacheKey) :
    (s.vouched k m now).fresh k' now = if k' = k then (some (m,now)).filter (fun _ => 0 < s.cacheTtl) else s.fresh k' now := by
  rw [fresh, vouched, lookupInsert]
  split
  · simp [Option.filter]
  · rfl

theorem barredVouched (m : MemberResolution) (k' : CacheKey) :
    (s.vouched k m now).barred k' now = if k' = k then none else s.barred k' now := by
  rw [barred, vouched, lookupErase]
  split
  · rfl
  · rfl

theorem freshRefused (k' : CacheKey) : (s.refused k now).fresh k' now = if k' = k then none else s.fresh k' now := by
  rw [fresh, refused, lookupErase]
  split
  · rfl
  · rfl

theorem barredRefused (k' : CacheKey) :
    (s.refused k now).barred k' now = if k' = k then (some now).filter (fun _ => 0 < s.negativeCacheTtl) else s.barred k' now := by
  rw [barred, refused, lookupInsert]
  split
  · simp [Option.filter]
  · rfl

theorem alikeVouched (alike : Alike now s t) (m : MemberResolution) : Alike now (s.vouched k m now) (t.vouched k m now) := by
  refine ⟨alike.cacheTtl,alike.negativeCacheTtl,?_,?_⟩
  · intro k'
    rw [freshVouched, freshVouched, alike.cacheTtl, alike.fresh]
  · intro k'
    rw [barredVouched, barredVouched, alike.barred]

theorem alikeRefused (alike : Alike now s t) : Alike now (s.refused k now) (t.refused k now) := by
  refine ⟨alike.cacheTtl,alike.negativeCacheTtl,?_,?_⟩
  · intro k'
    rw [freshRefused, freshRefused, alike.fresh]
  · intro k'
    rw [barredRefused, barredRefused, alike.negativeCacheTtl, alike.barred]

section Calls
variable {response : Response} {asked answered : Nat} {meanwhile later : List Nat}

/- The state a request comes back to. -/
theorem alikeOut (ordered : asked ≤ answered) (early : ∀ m ∈ meanwhile, m ≤ answered) (alike : Alike asked s t) :
    Alike answered (meanwhile.foldl sweepExpired s) t :=
  alikeTrans (alikeSweeps early s) (alikeLater ordered alike)

theorem alikeNotAMember (alike : Alike asked s t) (ordered : asked ≤ answered) (early : ∀ m ∈ meanwhile, m ≤ answered) :
    (s.definitivelyNotAMember k response asked meanwhile answered).1 = (t.definitivelyNotAMember k response asked [] answered).1 ∧
    Alike answered (s.definitivelyNotAMember k response asked meanwhile answered).2
      (t.definitivelyNotAMember k response asked [] answered).2 := by
  have out : Alike answered (meanwhile.foldl sweepExpired s) t := alikeOut ordered early alike
  unfold definitivelyNotAMember
  rw [shadowedBarred, shadowedBarred, alike.barred]
  cases (t.barred k asked).isSome with
  | true => exact ⟨rfl,alikeLater ordered alike⟩
  | false =>
    simp only [Bool.false_eq_true, if_false, List.foldl_nil]
    cases query response with
    | authorized m => exact ⟨rfl,out⟩
    | refused => exact ⟨rfl,alikeRefused out⟩
    | unresolved => exact ⟨rfl,out⟩

theorem alikeResolve (alike : Alike asked s t) (ordered : asked ≤ answered) (early : ∀ m ∈ meanwhile, m ≤ answered) :
    (s.resolve k response asked meanwhile answered).1 = (t.resolve k response asked [] answered).1 ∧
    Alike answered (s.resolve k response asked meanwhile answered).2 (t.resolve k response asked [] answered).2 := by
  have swept : Alike asked (s.maybeSweepExpired asked) (t.maybeSweepExpired asked) :=
    alikeTrans (alikeTrans (alikeMaybeSwept s) alike) (alikeSymm (alikeMaybeSwept t))
  have out : Alike answered (meanwhile.foldl sweepExpired (s.maybeSweepExpired asked)) (t.maybeSweepExpired asked) :=
    alikeOut ordered early swept
  unfold resolve
  simp only
  rw [shadowedBarred, shadowedBarred, swept.barred]
  cases ((t.maybeSweepExpired asked).barred k asked).isSome with
  | true => exact ⟨rfl,alikeLater ordered swept⟩
  | false =>
    simp only [Bool.false_eq_true, if_false, List.foldl_nil]
    cases query response with
    | authorized m => exact ⟨rfl,alikeVouched out m⟩
    | refused => exact ⟨rfl,alikeRefused out⟩
    | unresolved => exact ⟨congrArg (Option.map Prod.fst) (out.fresh k),out⟩

end Calls
end ChannelAuthorizer

open ChannelAuthorizer

theorem orderedCall {now asked answered : Nat} {meanwhile rest : List Nat}
    (ordered : (now :: (asked :: (meanwhile ++ [answered]) ++ rest)).Pairwise (· ≤ ·)) :
    now ≤ asked ∧ asked ≤ answered ∧ (∀ m ∈ meanwhile, m ≤ answered) ∧ (answered :: rest).Pairwise (· ≤ ·) := by
  rw [List.cons_append, List.append_assoc] at ordered
  obtain ⟨start,tail⟩ := List.pairwise_cons.mp ordered
  obtain ⟨first,later⟩ := List.pairwise_cons.mp tail
  obtain ⟨_,last,early⟩ := List.pairwise_append.mp later
  exact ⟨start asked (by simp),first answered (by simp),fun m mem => early m mem answered (by simp),last⟩

/- Sweeps, the built-in ones included, change no answer. -/
theorem answersUnswept {s t : ChannelAuthorizer} {now : Nat} {calls : List Call} (alike : Alike now s t)
    (ordered : (now :: calls.flatMap Call.times).Pairwise (· ≤ ·)) : answers s calls = answers t (calls.filterMap Call.unswept) := by
  induction calls generalizing s t now with
  | nil => rfl
  | cons call rest ih =>
    cases call with
    | sweep moment =>
      obtain ⟨start,tail⟩ := List.pairwise_cons.mp ordered
      have swept : Alike moment (s.sweepExpired moment) t :=
        alikeTrans (alikeSwept s) (alikeLater (start moment (by simp [Call.times])) alike)
      exact ih swept tail
    | resolve k response asked meanwhile answered =>
      obtain ⟨start,wait,early,tail⟩ := orderedCall ordered
      obtain ⟨same,after⟩ := alikeResolve (k := k) (alikeLater start alike) wait early
      exact congrArg₂ (fun m more => .member m :: more) same (ih after tail)
    | definitivelyNotAMember k response asked meanwhile answered =>
      obtain ⟨start,wait,early,tail⟩ := orderedCall ordered
      obtain ⟨same,after⟩ := alikeNotAMember (k := k) (alikeLater start alike) wait early
      exact congrArg₂ (fun gone more => .gone gone :: more) same (ih after tail)

/- What the unexpired entries say about the queries seen so far. -/
structure Truthful (cacheTtl : Nat) (seen : List Observation) (now : Nat) (s : ChannelAuthorizer) : Prop where
  ttl : s.cacheTtl = cacheTtl
  member : ∀ k m at', s.fresh k now = some (m,at') →
    ⟨.resolve,k,.authorized m,at'⟩ ∈ seen ∧ lastDefinitive seen k ≠ some .refused
  gone : ∀ k, (s.barred k now).isSome → lastDefinitive seen k = some .refused

section Truth
variable {s t : ChannelAuthorizer} {k : CacheKey} {cacheTtl now asked answered : Nat} {seen : List Observation}
variable {response : Response} {meanwhile : List Nat}

theorem truthfulLater (truthful : Truthful cacheTtl seen now s) (ordered : now ≤ answered) : Truthful cacheTtl seen answered s := by
  refine ⟨truthful.ttl,?_,?_⟩
  · intro k m at' found
    rw [freshLater ordered] at found
    exact truthful.member k m at' (Option.eq_some_of_filter_eq_some found)
  · intro k found
    rw [barredLater ordered] at found
    exact truthful.gone k (Option.isSome_of_isSome_filter _ _ found)

theorem truthfulAlike (truthful : Truthful cacheTtl seen now s) (alike : Alike now t s) : Truthful cacheTtl seen now t := by
  refine ⟨alike.cacheTtl.trans truthful.ttl,?_,?_⟩
  · intro k m at' found
    exact truthful.member k m at' (alike.fresh k ▸ found)
  · intro k found
    exact truthful.gone k (alike.barred k ▸ found)

theorem truthfulVouched {m : MemberResolution} (truthful : Truthful cacheTtl seen now s) :
    Truthful cacheTtl (seen ++ [⟨.resolve,k,.authorized m,now⟩]) now (s.vouched k m now) := by
  refine ⟨truthful.ttl,?_,?_⟩
  · intro k' m' at' found
    rw [freshVouched] at found
    rw [lastAppend]
    split at found
    case isTrue same =>
      subst same
      obtain ⟨rfl,rfl⟩ : m = m' ∧ now = at' := by simpa using Option.eq_some_of_filter_eq_some found
      simp [Outcome.definitive]
    case isFalse other =>
      obtain ⟨vouched,last⟩ := truthful.member k' m' at' found
      rw [if_neg (fun meant => other meant.1.symm)]
      exact ⟨List.mem_append_left _ vouched,last⟩
  · intro k' found
    rw [barredVouched] at found
    split at found
    case isTrue same => simp at found
    case isFalse other =>
      rw [lastAppend, if_neg (fun meant => other meant.1.symm)]
      exact truthful.gone k' found

theorem truthfulRefused {caller : Caller} (truthful : Truthful cacheTtl seen now s) :
    Truthful cacheTtl (seen ++ [⟨caller,k,.refused,now⟩]) now (s.refused k now) := by
  refine ⟨truthful.ttl,?_,?_⟩
  · intro k' m' at' found
    rw [freshRefused] at found
    split at found
    case isTrue same => simp at found
    case isFalse other =>
      obtain ⟨vouched,last⟩ := truthful.member k' m' at' found
      rw [lastAppend, if_neg (fun meant => other meant.1.symm)]
      exact ⟨List.mem_append_left _ vouched,last⟩
  · intro k' found
    rw [barredRefused] at found
    rw [lastAppend]
    split at found
    case isTrue same => rw [if_pos ⟨same.symm,rfl⟩]
    case isFalse other =>
      rw [if_neg (fun meant => other meant.1.symm)]
      exact truthful.gone k' found

/- An answer that leaves the caches alone: none at all, or a yes where no refusal is in force. -/
theorem truthfulKept {o : Observation} (truthful : Truthful cacheTtl seen now s)
    (kept : o.outcome = .unresolved ∨ o.outcome ≠ .refused ∧ s.barred o.key now = none) :
    Truthful cacheTtl (seen ++ [o]) now s := by
  refine ⟨truthful.ttl,?_,?_⟩
  · intro k' m' at' found
    obtain ⟨vouched,last⟩ := truthful.member k' m' at' found
    refine ⟨List.mem_append_left _ vouched,?_⟩
    rw [lastAppend]
    split
    case isTrue meant =>
      obtain unresolved | ⟨yes,_⟩ := kept
      · simp [unresolved, Outcome.definitive] at meant
      · simpa using yes
    case isFalse => exact last
  · intro k' found
    rw [lastAppend, if_neg]
    · exact truthful.gone k' found
    · rintro ⟨rfl,definitive⟩
      obtain unresolved | ⟨_,open'⟩ := kept
      · simp [unresolved, Outcome.definitive] at definitive
      · simp [open'] at found

theorem truthfulOut (truthful : Truthful cacheTtl seen asked s) (wait : asked ≤ answered) (early : ∀ m ∈ meanwhile, m ≤ answered) :
    Truthful cacheTtl seen answered (meanwhile.foldl sweepExpired s) :=
  truthfulAlike (truthfulLater truthful wait) (alikeSweeps early s)

theorem barredOut (wait : asked ≤ answered) (early : ∀ m ∈ meanwhile, m ≤ answered) (open' : (s.barred k asked).isSome = false) :
    (meanwhile.foldl sweepExpired s).barred k answered = none := by
  rw [(alikeSweeps early s).barred, barredLater wait, Option.isSome_eq_false_iff.mp open' |> Option.isNone_iff_eq_none.mp]
  rfl

theorem truthfulNotAMember (truthful : Truthful cacheTtl seen asked s) (wait : asked ≤ answered)
    (early : ∀ m ∈ meanwhile, m ≤ answered) :
    Truthful cacheTtl (seen ++ observed s (.definitivelyNotAMember k response asked meanwhile answered)) answered
      (s.definitivelyNotAMember k response asked meanwhile answered).2 := by
  have out : Truthful cacheTtl seen answered (meanwhile.foldl sweepExpired s) := truthfulOut truthful wait early
  unfold definitivelyNotAMember
  simp only [observed, shadowedBarred]
  cases shadow : (s.barred k asked).isSome with
  | true => simpa using truthfulLater truthful wait
  | false =>
    have open' : (meanwhile.foldl sweepExpired s).barred k answered = none := barredOut wait early shadow
    simp only [Bool.false_eq_true, if_false]
    cases query response with
    | authorized m => exact truthfulKept out (.inr ⟨Outcome.noConfusion,open'⟩)
    | refused => exact truthfulRefused out
    | unresolved => exact truthfulKept out (.inl rfl)

theorem truthfulResolve (truthful : Truthful cacheTtl seen asked s) (wait : asked ≤ answered)
    (early : ∀ m ∈ meanwhile, m ≤ answered) :
    Truthful cacheTtl (seen ++ observed s (.resolve k response asked meanwhile answered)) answered
      (s.resolve k response asked meanwhile answered).2 := by
  have swept : Truthful cacheTtl seen asked (s.maybeSweepExpired asked) := truthfulAlike truthful (alikeMaybeSwept s)
  have out : Truthful cacheTtl seen answered (meanwhile.foldl sweepExpired (s.maybeSweepExpired asked)) :=
    truthfulOut swept wait early
  unfold resolve observed
  simp only
  cases (s.maybeSweepExpired asked).shadowed k asked with
  | true => simpa using truthfulLater swept wait
  | false =>
    simp only [Bool.false_eq_true, if_false]
    cases query response with
    | authorized m => exact truthfulVouched out
    | refused => exact truthfulRefused out
    | unresolved => exact truthfulKept out (.inl rfl)

/- What every run of calls comes to, at any moment after it. -/
theorem truthfulRun {calls : List Call} {later : Nat} (truthful : Truthful cacheTtl seen now s)
    (ordered : (now :: (calls.flatMap Call.times ++ [later])).Pairwise (· ≤ ·)) :
    Truthful cacheTtl (seen ++ history s calls) later (run s calls) := by
  induction calls generalizing s now seen with
  | nil =>
    have after : now ≤ later := (List.pairwise_cons.mp ordered).1 later (by simp)
    simpa [history, Machine.log, run, Machine.run] using truthfulLater truthful after
  | cons call rest ih =>
    rw [List.flatMap_cons, List.append_assoc] at ordered
    rw [history, Machine.log, ← List.append_assoc]
    cases call with
    | sweep moment =>
      obtain ⟨start,tail⟩ := List.pairwise_cons.mp ordered
      have swept : Truthful cacheTtl seen moment (s.sweepExpired moment) :=
        truthfulAlike (truthfulLater truthful (start moment (by simp [Call.times]))) (alikeSwept s)
      rw [observed, List.append_nil]
      exact ih swept tail
    | resolve k response asked meanwhile answered =>
      obtain ⟨start,wait,early,tail⟩ := orderedCall ordered
      exact ih (truthfulResolve (truthfulLater truthful start) wait early) tail
    | definitivelyNotAMember k response asked meanwhile answered =>
      obtain ⟨start,wait,early,tail⟩ := orderedCall ordered
      exact ih (truthfulNotAMember (truthfulLater truthful start) wait early) tail

theorem resolveSome {m : MemberResolution} (truthful : Truthful cacheTtl seen asked s) (wait : asked ≤ answered)
    (early : ∀ m ∈ meanwhile, m ≤ answered) (yes : (s.resolve k response asked meanwhile answered).1 = some m) :
    observed s (.resolve k response asked meanwhile answered) = [⟨.resolve,k,.authorized m,answered⟩] ∨
    observed s (.resolve k response asked meanwhile answered) = [⟨.resolve,k,.unresolved,answered⟩] ∧
      lastDefinitive seen k ≠ some .refused ∧ ∃ at', ⟨.resolve,k,.authorized m,at'⟩ ∈ seen ∧ answered - at' < cacheTtl := by
  have out : Truthful cacheTtl seen answered (meanwhile.foldl sweepExpired (s.maybeSweepExpired asked)) :=
    truthfulOut (truthfulAlike truthful (alikeMaybeSwept s)) wait early
  unfold resolve at yes
  unfold observed
  simp only at yes
  cases shadow : (s.maybeSweepExpired asked).shadowed k asked with
  | true => simp [shadow] at yes
  | false =>
    simp only [shadow, Bool.false_eq_true, if_false] at yes ⊢
    cases outcome : query response with
    | authorized m' =>
      simp only [outcome, Option.some.injEq] at yes
      exact .inl (by rw [yes])
    | refused => simp [outcome] at yes
    | unresolved =>
      simp only [outcome] at yes
      obtain ⟨entry,found,rfl⟩ := Option.map_eq_some_iff.mp yes
      obtain ⟨vouched,last⟩ := out.member k entry.1 entry.2 found
      obtain ⟨_,live⟩ := Option.filter_eq_some_iff.mp found
      rw [out.ttl, decide_eq_true_eq] at live
      exact .inr ⟨rfl,last,entry.2,vouched,live⟩

theorem notAMemberTrue (truthful : Truthful cacheTtl seen asked s)
    (yes : (s.definitivelyNotAMember k response asked meanwhile answered).1 = true) :
    lastDefinitive (seen ++ observed s (.definitivelyNotAMember k response asked meanwhile answered)) k = some .refused := by
  unfold definitivelyNotAMember at yes
  simp only [observed]
  cases shadow : s.shadowed k asked with
  | true =>
    rw [shadowedBarred] at shadow
    simpa using truthful.gone k shadow
  | false =>
    simp only [shadow, Bool.false_eq_true, if_false] at yes ⊢
    cases outcome : query response with
    | authorized m => simp [outcome] at yes
    | refused => rw [lastAppend, if_pos ⟨rfl,rfl⟩]
    | unresolved => simp [outcome] at yes

end Truth

theorem lastRefused {earlier later : List Observation} {refusal : Observation} {k : CacheKey} (meant : refusal.key = k)
    (refused : refusal.outcome = .refused) (quiet : ∀ o ∈ later, ∀ m, o.key = k → o.outcome ≠ .authorized m) :
    lastDefinitive (earlier ++ refusal :: later) k = some .refused := by
  induction later using List.reverseRecOn with
  | nil => rw [lastAppend, if_pos ⟨meant,by rw [refused]; rfl⟩, refused]
  | append_singleton later o ih =>
    have before := ih (fun o mem => quiet o (List.mem_append_left _ mem))
    rw [← List.cons_append, ← List.append_assoc, lastAppend]
    split
    case isTrue own =>
      cases outcome : o.outcome with
      | authorized m => exact absurd outcome (quiet o (by simp) m own.1)
      | refused => rfl
      | unresolved => simp [outcome, Outcome.definitive] at own
    case isFalse => exact before

/- Whatever the control plane answers, the caches never vouch for a holder past a refusal or past their time, never deny one
without a refusal, and answer the same however they are swept. -/
theorem failStatic (cacheTtl negativeCacheTtl sweepInterval : Nat) (calls : List Call)
    (ordered : (calls.flatMap Call.times).Pairwise (· ≤ ·)) :
    let fresh := ChannelAuthorizer.withTtlsAndSweepInterval cacheTtl negativeCacheTtl sweepInterval
    (∀ before after k response asked meanwhile answered m, calls = before ++ .resolve k response asked meanwhile answered :: after →
      let own := observed (run fresh before) (.resolve k response asked meanwhile answered)
      let seen := history fresh before
      ((run fresh before).resolve k response asked meanwhile answered).1 = some m →
        (own = [⟨.resolve,k,.authorized m,answered⟩] ∨
          own = [⟨.resolve,k,.unresolved,answered⟩] ∧ lastDefinitive seen k ≠ some .refused ∧
            ∃ at', ⟨.resolve,k,.authorized m,at'⟩ ∈ seen ∧ answered - at' < cacheTtl) ∧
        ∀ earlier refusal later, seen = earlier ++ refusal :: later → refusal.key = k → refusal.outcome = .refused →
          (∀ o ∈ later, ∀ m, o.key = k → o.outcome ≠ .authorized m) → own = [⟨.resolve,k,.authorized m,answered⟩]) ∧
    (∀ before after k response asked meanwhile answered,
      calls = before ++ .definitivelyNotAMember k response asked meanwhile answered :: after →
      ((run fresh before).definitivelyNotAMember k response asked meanwhile answered).1 = true →
        lastDefinitive (history fresh (before ++ [.definitivelyNotAMember k response asked meanwhile answered])) k = some .refused) ∧
    ∀ otherInterval, answers fresh calls =
      answers (ChannelAuthorizer.withTtlsAndSweepInterval cacheTtl negativeCacheTtl otherInterval) (calls.filterMap Call.unswept) := by
  intro fresh
  have start : Truthful cacheTtl [] 0 fresh := by
    refine ⟨rfl,?_,?_⟩
    · intro k m at' found
      simp [fresh, ChannelAuthorizer.fresh, withTtlsAndSweepInterval] at found
    · intro k found
      simp [fresh, barred, withTtlsAndSweepInterval] at found
  have reached : ∀ before call after asked meanwhile answered, calls = before ++ call :: after →
      call.times = asked :: (meanwhile ++ [answered]) →
      Truthful cacheTtl (history fresh before) asked (run fresh before) ∧ asked ≤ answered ∧ ∀ m ∈ meanwhile, m ≤ answered := by
    intro before call after asked meanwhile answered split times
    have ordered' : (0 :: (before.flatMap Call.times ++ (asked :: (meanwhile ++ [answered]) ++ after.flatMap Call.times))).Pairwise
        (· ≤ ·) := by
      rw [split, List.flatMap_append, List.flatMap_cons, times] at ordered
      exact List.pairwise_cons.mpr ⟨fun t _ => t.zero_le,ordered⟩
    obtain ⟨_,wait,early,_⟩ := orderedCall (ordered'.sublist (List.Sublist.cons_cons 0 (List.sublist_append_right _ _)))
    have until' : (0 :: (before.flatMap Call.times ++ [asked])).Pairwise (· ≤ ·) :=
      ordered'.sublist (List.Sublist.cons_cons 0 (List.Sublist.append_left (List.Sublist.cons_cons asked (List.nil_sublist _)) _))
    exact ⟨truthfulRun start until',wait,early⟩
  refine ⟨?_,?_,?_⟩
  · intro before after k response asked meanwhile answered m split own seen yes
    obtain ⟨truthful,wait,early⟩ := reached before _ after asked meanwhile answered split rfl
    have answer := resolveSome truthful wait early yes
    refine ⟨answer,?_⟩
    intro earlier refusal later parts meant refused quiet
    obtain vouched | ⟨_,open',_⟩ := answer
    · exact vouched
    · have last : lastDefinitive seen k = some .refused := by
        rw [parts]
        exact lastRefused meant refused quiet
      exact absurd last open'
  · intro before after k response asked meanwhile answered split yes
    obtain ⟨truthful,_,_⟩ := reached before _ after asked meanwhile answered split rfl
    rw [history, Machine.logNext]
    exact notAMemberTrue truthful yes
  · intro otherInterval
    have same : Alike 0 fresh { fresh with sweepInterval := otherInterval } := ⟨rfl,rfl,fun _ => rfl,fun _ => rfl⟩
    exact answersUnswept same (List.pairwise_cons.mpr ⟨fun t _ => t.zero_le,ordered⟩)

/- A member is vouched for, refused, and not let back in by an outage. -/
def sampleCalls : List Call :=
  let body : AuthorizeResp := ⟨"0707070707070707070707070707070707070707070707070707070707070707",none,none⟩
  let k : CacheKey := (.replicate 32 1,.replicate 32 2)
  [.resolve k (.status 200 (some body)) 1 [] 2,.resolve k .transport 3 [4] 5,.definitivelyNotAMember k (.status 404 none) 6 [] 7,
    .sweep 18,.resolve k .transport 19 [] 20]

/- In it the member is let in while the control plane is out of reach, and only before the refusal. -/
theorem failStaticSample :
    let fresh := ChannelAuthorizer.withTtlsAndSweepInterval 30 5 30
    let m : MemberResolution := ⟨.replicate 32 7,none,none⟩
    answers fresh sampleCalls = [.member (some m),.member (some m),.gone true,.member none] ∧
    ∀ otherInterval, answers fresh sampleCalls =
      answers (ChannelAuthorizer.withTtlsAndSweepInterval 30 5 otherInterval) (sampleCalls.filterMap Call.unswept) :=
  ⟨by decide +kernel,(failStatic 30 5 30 sampleCalls (by decide)).2.2⟩

end CadsTunnel.ChannelAuthorize
