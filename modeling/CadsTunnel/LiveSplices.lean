import CadsTunnel.ChannelObjects
import CadsTunnel.Machine
import CadsTunnel.OrderedMap

/-! The splices that carry bytes, and the sweep that ends those whose member was removed or
whose grant was revoked. Legs come and go while the sweep waits for an answer; an answer that
is not definitive ends nothing. -/
namespace CadsTunnel.Splices
open OrderedMap

abbrev SpliceKey := ChannelId × Key
abbrev Digest := Vector UInt8 32

/- One member's leg: the grant it was admitted with, and whether its watch says that it was cut. -/
structure Leg where
  id : Nat
  digest : Option Digest
  cut : Bool
  deriving DecidableEq

/- The 64-bit count of the legs is not exhausted. -/
structure LiveSplices where
  nextId : Nat := 0
  entries : BTreeMap SpliceKey (List Leg) := ∅

@[ext]
structure SpliceGuard where
  key : SpliceKey
  id : Nat
  deriving DecidableEq

namespace LiveSplices

def legs (s : LiveSplices) (key : SpliceKey) : List Leg := s.entries[key]?.getD []

def registerLiveSplice (s : LiveSplices) (key : SpliceKey) (digest : Option Digest) : SpliceGuard × LiveSplices :=
  let id := s.nextId + 1
  (⟨key,id⟩,{ nextId := id, entries := s.entries.insert key (s.legs key ++ [⟨id,digest,false⟩]) })

/- The drop of a guard. -/
def deregister (s : LiveSplices) (g : SpliceGuard) : LiveSplices :=
  match s.entries[g.key]? with
  | none => s
  | some v =>
    let v := v.filter (fun leg => leg.id ≠ g.id)
    { s with entries := if v.isEmpty then s.entries.erase g.key else s.entries.insert g.key v }

def liveSpliceMembers (s : LiveSplices) : List SpliceKey := s.entries.keys

def cutLiveSplices (s : LiveSplices) (key : SpliceKey) : Nat × LiveSplices :=
  match s.entries[key]? with
  | some v => (v.length,{ s with entries := s.entries.insert key (v.map fun leg => { leg with cut := true }) })
  | none => (0,s)

/- The digests of a channel, each once. -/
def noteDigest (out : BTreeMap ChannelId (List Digest)) (channel : ChannelId) (leg : Leg) : BTreeMap ChannelId (List Digest) :=
  match leg.digest with
  | none => out
  | some d =>
    let v := out[channel]?.getD []
    out.insert channel (if v.contains d then v else v ++ [d])

def liveSpliceDigests (s : LiveSplices) : List (ChannelId × List Digest) :=
  (s.entries.foldl (fun out key (legs : List Leg) => legs.foldl (fun out leg => noteDigest out key.1 leg) out) ∅).toList

def cutLiveSplicesByDigest (s : LiveSplices) (channel : ChannelId) (digest : Digest) : LiveSplices :=
  { s with entries := s.entries.map fun key legs =>
      if key.1 = channel then legs.map fun leg => if leg.digest = some digest then { leg with cut := true } else leg else legs }

end LiveSplices

/- Where the sweep stands: it waits for the next tick, is about to list the members, has members to ask about, has digests
to ask about, or has digests to cut. The number is that of the legs cut for a removed membership. -/
inductive Sweep where
  | idle
  | begun
  | members (cut : Nat) (left : List SpliceKey)
  | grants (cut : Nat) (left : List (ChannelId × List Digest))
  | cutting (cut : Nat) (channel : ChannelId) (revoked : List Digest) (left : List (ChannelId × List Digest))
  deriving DecidableEq

structure Recheck where
  splices : LiveSplices := {}
  sweep : Sweep := .idle

/- What the other tasks do, and what the sweep does: it looks whether there is anything to ask about, lists it in the order of
the hash map, gets an answer, or goes on. -/
inductive Event where
  | register (key : SpliceKey) (digest : Option Digest)
  | deregister (g : SpliceGuard)
  | tick
  | listMembers (order : List SpliceKey)
  | membershipRevoked (gone : Bool)
  | listDigests (order : List (ChannelId × List Digest))
  | revokedForSweep (revoked : List Digest)
  | proceed

/- What happened: a guard was handed out or dropped, an answer came, or the sweep ended. -/
inductive Note where
  | registered (g : SpliceGuard) (digest : Option Digest)
  | dropped (g : SpliceGuard)
  | asked (key : SpliceKey) (gone : Bool)
  | listed (channel : ChannelId) (digests revoked : List Digest)
  | swept (cut : Nat)

/- The order a hash map is gone through, if it is one. -/
def arranged {α : Type} [BEq α] (order items : List α) : List α := if order.isPerm items then order else items

def step (s : Recheck) : Event → List Note × Recheck
  | .register key digest =>
    let (g,splices) := s.splices.registerLiveSplice key digest
    ([.registered g digest],{ s with splices := splices })
  | .deregister g => ([.dropped g],{ s with splices := s.splices.deregister g })
  | .tick =>
    match s.sweep with
    | .idle => ([],if s.splices.liveSpliceMembers.isEmpty then s else { s with sweep := .begun })
    | _ => ([],s)
  | .listMembers order =>
    match s.sweep with
    | .begun => ([],{ s with sweep := .members 0 (arranged order s.splices.liveSpliceMembers) })
    | _ => ([],s)
  | .membershipRevoked gone =>
    match s.sweep with
    | .members cut (key :: left) =>
      let (n,splices) := if gone then s.splices.cutLiveSplices key else (0,s.splices)
      ([.asked key gone],{ splices := splices, sweep := .members (cut + n) left })
    | _ => ([],s)
  | .listDigests order =>
    match s.sweep with
    | .members cut [] => ([],{ s with sweep := .grants cut (arranged order s.splices.liveSpliceDigests) })
    | _ => ([],s)
  | .revokedForSweep revoked =>
    match s.sweep with
    | .grants cut ((channel,digests) :: left) => ([.listed channel digests revoked],{ s with sweep := .cutting cut channel revoked left })
    | _ => ([],s)
  | .proceed =>
    match s.sweep with
    | .cutting cut channel (d :: revoked) left =>
      ([],{ splices := s.splices.cutLiveSplicesByDigest channel d, sweep := .cutting cut channel revoked left })
    | .cutting cut _ [] left => ([],{ s with sweep := .grants cut left })
    | .grants cut [] => ([.swept cut],{ s with sweep := .idle })
    | _ => ([],s)

/- Which legs an event cuts. -/
def Recheck.cuts (s : Recheck) (e : Event) (key : SpliceKey) (digest : Option Digest) : Bool :=
  match e with
  | .membershipRevoked true =>
    match s.sweep with
    | .members _ (head :: _) => key = head
    | _ => false
  | .proceed =>
    match s.sweep with
    | .cutting _ channel (d :: _) _ => key.1 = channel ∧ digest = some d
    | _ => false
  | _ => false

def Event.drops (e : Event) (g : SpliceGuard) : Bool :=
  match e with
  | .deregister dropped => g = dropped
  | _ => false

def Event.adds (e : Event) (id : Nat) (key : SpliceKey) : List Leg :=
  match e with
  | .register registered digest => if key = registered then [⟨id,digest,false⟩] else []
  | _ => []

def Leg.signalled (leg : Leg) (cut : Bool) : Leg := { leg with cut := leg.cut || cut }

def run (events : List Event) : Recheck := Machine.run step {} events

def notesFrom (s : Recheck) (events : List Event) : List Note := Machine.log step (fun s e => (step s e).1) s events

def notes (events : List Event) : List Note := notesFrom {} events

section Lookups
variable {s : LiveSplices} {key k : SpliceKey} {leg : Leg}

theorem legsRegistered (s : LiveSplices) (key : SpliceKey) (digest : Option Digest) (k : SpliceKey) :
    (s.registerLiveSplice key digest).2.legs k = if k = key then s.legs key ++ [⟨s.nextId + 1,digest,false⟩] else s.legs k := by
  rw [LiveSplices.registerLiveSplice, LiveSplices.legs]
  dsimp only
  rw [lookupInsert]
  split <;> rfl

theorem legsDeregistered (s : LiveSplices) (g : SpliceGuard) (k : SpliceKey) :
    (s.deregister g).legs k = if k = g.key then (s.legs g.key).filter (fun leg => leg.id ≠ g.id) else s.legs k := by
  unfold LiveSplices.deregister
  cases found : s.entries[g.key]? with
  | none =>
    dsimp only
    split
    · rename_i same
      subst same
      simp [LiveSplices.legs, found]
    · rfl
  | some v =>
    have listed : s.legs g.key = v := by rw [LiveSplices.legs, found]; rfl
    rw [listed]
    by_cases gone : (v.filter (fun leg => leg.id ≠ g.id)).isEmpty
    · simp only [gone, if_true, LiveSplices.legs, lookupErase]
      rw [List.isEmpty_iff.mp gone]
      split <;> rfl
    · simp only [gone, Bool.false_eq_true, if_false, LiveSplices.legs, lookupInsert]
      split <;> rfl

theorem legsCut (s : LiveSplices) (key k : SpliceKey) :
    (s.cutLiveSplices key).2.legs k = if k = key then (s.legs key).map (fun leg => { leg with cut := true }) else s.legs k := by
  unfold LiveSplices.cutLiveSplices
  cases found : s.entries[key]? with
  | none =>
    dsimp only
    split
    · rename_i same
      subst same
      simp [LiveSplices.legs, found]
    · rfl
  | some v =>
    simp only [LiveSplices.legs, lookupInsert, found, Option.getD_some]
    split <;> rfl

theorem legsCutByDigest (s : LiveSplices) (channel : ChannelId) (digest : Digest) (k : SpliceKey) :
    (s.cutLiveSplicesByDigest channel digest).legs k =
      (s.legs k).map (fun leg => if k.1 = channel ∧ leg.digest = some digest then { leg with cut := true } else leg) := by
  rw [LiveSplices.cutLiveSplicesByDigest, LiveSplices.legs, LiveSplices.legs]
  dsimp only
  rw [Std.ExtTreeMap.getElem?_map]
  cases s.entries[k]? with
  | none => rfl
  | some legs =>
    rw [Option.map_some, Option.getD_some, Option.getD_some]
    by_cases here : k.1 = channel
    · simp [here]
    · simp [here]

/- What an event does to the legs under a key: it drops, it cuts, it adds. -/
theorem legsStep (s : Recheck) (e : Event) (k : SpliceKey) :
    (step s e).2.splices.legs k =
      ((s.splices.legs k).filter (fun leg => !e.drops ⟨k,leg.id⟩)).map (fun leg => leg.signalled (s.cuts e k leg.digest)) ++
        e.adds (s.splices.nextId + 1) k := by
  have frozen (same : (step s e).2.splices = s.splices) (drops : ∀ g, e.drops g = false) (cuts : ∀ d, s.cuts e k d = false)
      (adds : e.adds (s.splices.nextId + 1) k = []) : (step s e).2.splices.legs k =
        ((s.splices.legs k).filter (fun leg => !e.drops ⟨k,leg.id⟩)).map (fun leg => leg.signalled (s.cuts e k leg.digest)) ++
          e.adds (s.splices.nextId + 1) k := by
    simp [same, drops, cuts, adds, Leg.signalled]
  cases e with
  | register key digest =>
    change (s.splices.registerLiveSplice key digest).2.legs k = _ ++ (if k = key then _ else _)
    rw [legsRegistered]
    split
    · rename_i here
      subst here
      simp [Recheck.cuts, Leg.signalled, Event.drops]
    · simp [Recheck.cuts, Leg.signalled, Event.drops]
  | deregister g =>
    change (s.splices.deregister g).legs k = _ ++ []
    rw [legsDeregistered, List.append_nil]
    split
    · rename_i here
      subst here
      simp [Recheck.cuts, Leg.signalled, Event.drops, SpliceGuard.ext_iff]
    · rename_i other
      simp [Recheck.cuts, Leg.signalled, Event.drops, SpliceGuard.ext_iff, other]
  | tick =>
    refine frozen ?_ (fun _ => rfl) (fun _ => rfl) rfl
    rw [step]
    split
    · split <;> rfl
    · rfl
  | listMembers order | listDigests order | revokedForSweep revoked =>
    refine frozen ?_ (fun _ => rfl) (fun _ => rfl) rfl
    rw [step]
    split <;> rfl
  | membershipRevoked gone =>
    cases gone with
    | false =>
      refine frozen ?_ (fun _ => rfl) (fun _ => rfl) rfl
      rw [step]
      split <;> rfl
    | true =>
      rcases sweep : s.sweep with _ | _ | ⟨cut,_ | ⟨head,left⟩⟩ | ⟨cut,left⟩ | ⟨cut,channel,revoked,left⟩
      case members.cons =>
        change _ = _ ++ []
        rw [List.append_nil]
        simp only [step, sweep, if_true, legsCut, Recheck.cuts]
        by_cases here : k = head
        · simp [here, Leg.signalled, Event.drops]
        · simp [here, Leg.signalled, Event.drops]
      all_goals exact frozen (by simp [step, sweep]) (fun _ => rfl) (fun _ => by simp [Recheck.cuts, sweep]) rfl
  | proceed =>
    rcases sweep : s.sweep with _ | _ | ⟨cut,left⟩ | ⟨cut,_ | ⟨head,left⟩⟩ | ⟨cut,channel,_ | ⟨d,revoked⟩,left⟩
    case cutting.cons =>
      change _ = _ ++ []
      rw [List.append_nil]
      simp only [step, sweep, legsCutByDigest, Recheck.cuts, Event.drops, Bool.not_false, List.filter_true]
      refine List.map_congr_left fun leg _ => ?_
      by_cases here : k.1 = channel ∧ leg.digest = some d
      · simp [here, Leg.signalled]
      · simp [here, Leg.signalled]
    all_goals exact frozen (by simp [step, sweep]) (fun _ => rfl) (fun _ => by simp [Recheck.cuts, sweep]) rfl

end Lookups

/- The digest a guard stands with, after its last registration or drop. -/
def standing (g : SpliceGuard) (told : List Note) : Option (Option Digest) :=
  told.foldl (fun last note =>
    match note with
    | .registered registered digest => if registered = g then some digest else last
    | .dropped dropped => if dropped = g then none else last
    | _ => last) none

section Steps
variable {s : Recheck} {e : Event} {k : SpliceKey} {leg : Leg} {events : List Event}

theorem runNext (events : List Event) (e : Event) : run (events ++ [e]) = (step (run events) e).2 := Machine.runNext _ _ _

theorem notesNext (events : List Event) (e : Event) : notes (events ++ [e]) = notes events ++ (step (run events) e).1 :=
  Machine.logNext _ _ _ _

theorem addsMem {id : Nat} : leg ∈ e.adds id k ↔ ∃ digest, e = .register k digest ∧ leg = ⟨id,digest,false⟩ := by
  unfold Event.adds
  split
  · rename_i key digest
    split
    · rename_i same
      subst same
      simp
    · rename_i other
      simp [Ne.symm other]
  · rename_i other
    refine iff_of_false List.not_mem_nil ?_
    rintro ⟨digest,same,-⟩
    exact other k digest same

theorem memStep : leg ∈ (step s e).2.splices.legs k ↔
    (∃ was ∈ s.splices.legs k, e.drops ⟨k,was.id⟩ = false ∧ was.signalled (s.cuts e k was.digest) = leg) ∨
      ∃ digest, e = .register k digest ∧ leg = ⟨s.splices.nextId + 1,digest,false⟩ := by
  rw [legsStep, List.mem_append, List.mem_map, addsMem]
  simp only [List.mem_filter, Bool.not_eq_true', and_assoc]

/- What an event does to the registry as a whole. -/
theorem stepSplices (s : Recheck) (e : Event) :
    (step s e).2.splices = s.splices ∨ (∃ key digest, (step s e).2.splices = (s.splices.registerLiveSplice key digest).2) ∨
      (∃ g, (step s e).2.splices = s.splices.deregister g) ∨ (∃ key, (step s e).2.splices = (s.splices.cutLiveSplices key).2) ∨
      ∃ channel d, (step s e).2.splices = s.splices.cutLiveSplicesByDigest channel d := by
  cases e with
  | register key digest => exact .inr (.inl ⟨key,digest,rfl⟩)
  | deregister g => exact .inr (.inr (.inl ⟨g,rfl⟩))
  | tick =>
    rw [step]
    split
    · split <;> exact .inl rfl
    · exact .inl rfl
  | listMembers order | listDigests order | revokedForSweep revoked =>
    rw [step]
    split <;> exact .inl rfl
  | membershipRevoked gone =>
    rw [step]
    split
    · rename_i head _ _
      cases gone with
      | true => exact .inr (.inr (.inr (.inl ⟨head,rfl⟩)))
      | false => exact .inl rfl
    · exact .inl rfl
  | proceed =>
    rw [step]
    split
    · rename_i channel d _ _ _
      exact .inr (.inr (.inr (.inr ⟨channel,d,rfl⟩)))
    · exact .inl rfl
    · exact .inl rfl
    · exact .inl rfl

theorem nextGrows (s : Recheck) (e : Event) : s.splices.nextId ≤ (step s e).2.splices.nextId := by
  obtain same | ⟨key,digest,same⟩ | ⟨g,same⟩ | ⟨key,same⟩ | ⟨channel,d,same⟩ := stepSplices s e <;> rw [same]
  · exact Nat.le_succ _
  · unfold LiveSplices.deregister
    split <;> exact le_refl _
  · unfold LiveSplices.cutLiveSplices
    split <;> exact le_refl _
  · exact le_refl _

theorem nextLater (before after : List Event) : (run before).splices.nextId ≤ (run (before ++ after)).splices.nextId := by
  rw [run, run, Machine.runAppend]
  exact Machine.runMonotone (fun a b : Recheck => a.splices.nextId ≤ b.splices.nextId) (fun _ => le_refl _)
    (fun _ _ _ => Nat.le_trans) nextGrows _ _

/- No number is given twice, and no entry is left empty. -/
structure Formed (s : LiveSplices) : Prop where
  numbered : ∀ k, ∀ leg ∈ s.legs k, leg.id ≤ s.nextId
  distinct : ∀ k, ((s.legs k).map Leg.id).Nodup
  apart : ∀ k k' leg leg', leg ∈ s.legs k → leg' ∈ s.legs k' → leg.id = leg'.id → k = k'
  occupied : ∀ k : SpliceKey, s.entries[k]? ≠ some []

theorem occupiedStep (occupied : ∀ k : SpliceKey, s.splices.entries[k]? ≠ some []) (k : SpliceKey) :
    (step s e).2.splices.entries[k]? ≠ some [] := by
  obtain same | ⟨key,digest,same⟩ | ⟨g,same⟩ | ⟨key,same⟩ | ⟨channel,d,same⟩ := stepSplices s e <;> rw [same]
  · exact occupied k
  · rw [LiveSplices.registerLiveSplice, lookupInsert]
    split
    · simp
    · exact occupied k
  · unfold LiveSplices.deregister
    split
    · exact occupied k
    · dsimp only
      split
      · rw [lookupErase]
        split
        · simp
        · exact occupied k
      · rename_i some' _ left
        rw [lookupInsert]
        split
        · intro empty
          rw [Option.some.inj empty] at left
          exact left rfl
        · exact occupied k
  · unfold LiveSplices.cutLiveSplices
    split
    · rename_i v found
      rw [lookupInsert]
      split
      · intro empty
        have none' := List.map_eq_nil_iff.mp (Option.some.inj empty)
        exact occupied key (none' ▸ found)
      · exact occupied k
    · exact occupied k
  · rw [LiveSplices.cutLiveSplicesByDigest, Std.ExtTreeMap.getElem?_map]
    cases found : s.splices.entries[k]? with
    | none => simp
    | some v =>
      intro empty
      have there : v ≠ [] := fun none' => occupied k (none' ▸ found)
      rw [Option.map_some] at empty
      split at empty
      · exact there (List.map_eq_nil_iff.mp (Option.some.inj empty))
      · exact there (Option.some.inj empty)

theorem formedStep (formed : Formed s.splices) (e : Event) : Formed (step s e).2.splices := by
  refine ⟨fun k leg mem => ?_,fun k => ?_,fun k k' leg leg' mem mem' same => ?_,occupiedStep formed.occupied⟩
  · obtain ⟨was,there,-,rfl⟩ | ⟨digest,rfl,rfl⟩ := memStep.mp mem
    · exact (formed.numbered k was there).trans (nextGrows s e)
    · exact le_refl _
  · rw [legsStep, List.map_append, List.map_map]
    refine List.nodup_append.mpr ⟨?_,?_,?_⟩
    · exact (formed.distinct k).sublist (List.filter_sublist.map Leg.id)
    · unfold Event.adds
      split
      · split
        · exact List.nodup_singleton _
        · exact List.nodup_nil
      · exact List.nodup_nil
    · intro a old b new same
      obtain ⟨was,mem,rfl⟩ := List.mem_map.mp old
      obtain ⟨leg,added,rfl⟩ := List.mem_map.mp new
      obtain ⟨digest,-,rfl⟩ := addsMem.mp added
      have bound := formed.numbered k was (List.mem_of_mem_filter mem)
      have equal : was.id = s.splices.nextId + 1 := same
      omega
  · obtain ⟨was,there,-,rfl⟩ | ⟨digest,rfl,rfl⟩ := memStep.mp mem <;> obtain ⟨was',there',-,rfl⟩ | ⟨digest',eq,rfl⟩ := memStep.mp mem'
    · exact formed.apart k k' was was' there there' same
    · have bound := formed.numbered k was there
      have equal : was.id = s.splices.nextId + 1 := same
      omega
    · have bound := formed.numbered k' was' there'
      have equal : s.splices.nextId + 1 = was'.id := same
      omega
    · cases eq
      rfl

theorem formedRun (events : List Event) : Formed (run events).splices := by
  refine Machine.runInvariant (fun s : Recheck => Formed s.splices) (fun s e formed => formedStep formed e) ?_ events
  have empty (k : SpliceKey) : ({} : Recheck).splices.legs k = [] := by simp [LiveSplices.legs]
  refine ⟨fun k leg mem => ?_,fun k => ?_,fun k _ leg _ mem => ?_,fun k => by simp⟩
  · rw [empty] at mem
    contradiction
  · rw [empty]
    exact List.nodup_nil
  · rw [empty] at mem
    contradiction

theorem splitSnoc {α : Type} {xs : List α} {y : α} {P : List α → α → Prop} :
    (∃ before x after, xs ++ [y] = before ++ x :: after ∧ P before x) ↔
      (∃ before x after, xs = before ++ x :: after ∧ P before x) ∨ P xs y := by
  constructor
  · rintro ⟨before,x,after,split,holds⟩
    induction after using List.reverseRecOn with
    | nil =>
      obtain ⟨rfl,same⟩ := List.append_inj' split rfl
      cases same
      exact .inr holds
    | append_singleton after last ih =>
      rw [← List.cons_append, ← List.append_assoc] at split
      exact .inl ⟨before,x,after,(List.append_inj' split rfl).1,holds⟩
  · rintro (⟨before,x,after,rfl,holds⟩ | holds)
    · exact ⟨before,x,after ++ [y],by rw [List.append_assoc, List.cons_append],holds⟩
    · exact ⟨xs,y,[],rfl,holds⟩

theorem stepQuiet {g : SpliceGuard} {told : List Note} (registers : ∀ key digest, e ≠ .register key digest)
    (drops : ∀ dropped, e ≠ .deregister dropped) : standing g (told ++ (step s e).1) = standing g told := by
  rw [standing, List.foldl_append]
  cases e with
  | register key digest => exact absurd rfl (registers key digest)
  | deregister dropped => exact absurd rfl (drops dropped)
  | _ =>
    rw [step]
    split <;> rfl

/- A guard stands just as long as its leg is live. -/
theorem liveStanding (events : List Event) (k : SpliceKey) (id : Nat) (digest : Option Digest) :
    (∃ leg ∈ (run events).splices.legs k, leg.id = id ∧ leg.digest = digest) ↔ standing ⟨k,id⟩ (notes events) = some digest := by
  induction events using List.reverseRecOn generalizing digest with
  | nil =>
    have empty : (run []).splices.legs k = [] := by simp [run, Machine.run, LiveSplices.legs]
    simp [empty, notes, notesFrom, Machine.log, standing]
  | append_singleton events e ih =>
    have bound := (formedRun events).numbered k
    rw [runNext, notesNext]
    cases e with
    | register key d =>
      rw [show (step (run events) (.register key d)).1 = [.registered ⟨key,(run events).splices.nextId + 1⟩ d] from rfl, standing,
        List.foldl_append]
      change _ ↔ (if (⟨key,_⟩ : SpliceGuard) = ⟨k,id⟩ then some d else standing ⟨k,id⟩ (notes events)) = some digest
      split
      · rename_i here
        obtain ⟨rfl,rfl⟩ := SpliceGuard.mk.inj here
        constructor
        · rintro ⟨leg,mem,same,rfl⟩
          obtain ⟨was,there,-,rfl⟩ | ⟨_,eq,rfl⟩ := memStep.mp mem
          · have old := bound was there
            have equal : was.id = (run events).splices.nextId + 1 := same
            omega
          · cases eq
            rfl
        · intro same
          exact ⟨_,memStep.mpr (.inr ⟨d,rfl,rfl⟩),rfl,Option.some.inj same⟩
      · rename_i other
        rw [← ih digest]
        constructor
        · rintro ⟨leg,mem,same,rfl⟩
          obtain ⟨was,there,-,rfl⟩ | ⟨_,eq,rfl⟩ := memStep.mp mem
          · exact ⟨was,there,same,rfl⟩
          · cases eq
            exact absurd (congrArg (SpliceGuard.mk k) same) other
        · rintro ⟨was,there,same⟩
          exact ⟨_,memStep.mpr (.inl ⟨was,there,rfl,rfl⟩),same⟩
    | deregister g =>
      rw [show (step (run events) (.deregister g)).1 = [.dropped g] from rfl, standing, List.foldl_append]
      change _ ↔ (if g = ⟨k,id⟩ then none else standing ⟨k,id⟩ (notes events)) = some digest
      split
      · rename_i here
        subst here
        refine iff_of_false ?_ (by simp)
        rintro ⟨leg,mem,same,-⟩
        obtain ⟨was,there,stays,rfl⟩ | ⟨_,eq,-⟩ := memStep.mp mem
        · have equal : was.id = id := same
          simp [Event.drops, equal] at stays
        · cases eq
      · rename_i other
        rw [← ih digest]
        constructor
        · rintro ⟨leg,mem,here⟩
          obtain ⟨was,there,-,rfl⟩ | ⟨_,eq,-⟩ := memStep.mp mem
          · exact ⟨was,there,here⟩
          · cases eq
        · rintro ⟨was,there,same,here⟩
          refine ⟨_,memStep.mpr (.inl ⟨was,there,?_,rfl⟩),same,here⟩
          simpa [Event.drops, same] using Ne.symm other
    | tick | listMembers order | membershipRevoked gone | listDigests order | revokedForSweep revoked | proceed =>
      rw [stepQuiet (by simp) (by simp), ← ih digest]
      constructor
      · rintro ⟨leg,mem,here⟩
        obtain ⟨was,there,-,rfl⟩ | ⟨_,eq,-⟩ := memStep.mp mem
        · exact ⟨was,there,here⟩
        · cases eq
      · rintro ⟨was,there,here⟩
        exact ⟨_,memStep.mpr (.inl ⟨was,there,rfl,rfl⟩),here⟩

/- The event cuts the leg, which is live when it comes. -/
def Cutting (before : List Event) (e : Event) (k : SpliceKey) (leg : Leg) : Prop :=
  (run before).cuts e k leg.digest = true ∧ ∃ was ∈ (run before).splices.legs k, was.id = leg.id

theorem cutEvents (events : List Event) {k : SpliceKey} {leg : Leg} (live : leg ∈ (run events).splices.legs k) :
    leg.cut = true ↔ ∃ before e after, events = before ++ e :: after ∧ Cutting before e k leg := by
  induction events using List.reverseRecOn generalizing leg with
  | nil => simp [run, Machine.run, LiveSplices.legs] at live
  | append_singleton events e ih =>
    rw [splitSnoc]
    rw [runNext] at live
    obtain ⟨was,there,-,rfl⟩ | ⟨digest,rfl,rfl⟩ := memStep.mp live
    · have before := ih there
      have now : Cutting events e k (was.signalled ((run events).cuts e k was.digest)) ↔ (run events).cuts e k was.digest = true :=
        and_iff_left ⟨was,there,rfl⟩
      rw [now, Leg.signalled, Bool.or_eq_true, before]
      rfl
    · -- a leg that was just added has a number no earlier leg had
      have fresh {before : List Event} {e : Event} (earlier : (run before).splices.nextId ≤ (run events).splices.nextId) :
          ¬Cutting before e k ⟨(run events).splices.nextId + 1,digest,false⟩ := by
        rintro ⟨-,was,there,same⟩
        have bound := (formedRun before).numbered k was there
        have equal : was.id = (run events).splices.nextId + 1 := same
        omega
      refine iff_of_false (by simp) ?_
      rintro (⟨before,e,after,rfl,cutting⟩ | cutting)
      · exact fresh (nextLater before (e :: after)) cutting
      · exact fresh (le_refl _) cutting

/- How the sweep goes on, and what it tells. -/
inductive Moved (s : Recheck) (e : Event) : List Note → Sweep → Prop where
  | stands {told : List Note} (silent : ∀ key gone, .asked key gone ∉ told) (unlisted : ∀ channel digests revoked, .listed channel digests revoked ∉ told) :
      Moved s e told s.sweep
  | starts (before : s.sweep = .idle) : Moved s e [] .begun
  | listsMembers (before : s.sweep = .begun) (order : List SpliceKey) : Moved s e [] (.members 0 (arranged order s.splices.liveSpliceMembers))
  | asks {cut : Nat} {key : SpliceKey} {left : List SpliceKey} (before : s.sweep = .members cut (key :: left)) (gone : Bool) (n : Nat)
      (here : e = .membershipRevoked gone) : Moved s e [.asked key gone] (.members n left)
  | listsDigests {cut : Nat} (before : s.sweep = .members cut []) (order : List (ChannelId × List Digest)) :
      Moved s e [] (.grants cut (arranged order s.splices.liveSpliceDigests))
  | looksUp {cut : Nat} {channel : ChannelId} {digests : List Digest} {left : List (ChannelId × List Digest)}
      (before : s.sweep = .grants cut ((channel,digests) :: left)) (revoked : List Digest) :
      Moved s e [.listed channel digests revoked] (.cutting cut channel revoked left)
  | cutsOne {cut : Nat} {channel : ChannelId} {d : Digest} {revoked : List Digest} {left : List (ChannelId × List Digest)}
      (before : s.sweep = .cutting cut channel (d :: revoked) left) (here : e = .proceed) : Moved s e [] (.cutting cut channel revoked left)
  | cutsAll {cut : Nat} {channel : ChannelId} {left : List (ChannelId × List Digest)} (before : s.sweep = .cutting cut channel [] left) :
      Moved s e [] (.grants cut left)
  | ends {cut : Nat} (before : s.sweep = .grants cut []) : Moved s e [.swept cut] .idle

theorem moved (s : Recheck) (e : Event) : Moved s e (step s e).1 (step s e).2.sweep := by
  cases e with
  | register key digest => exact .stands (by simp [step]) (by simp [step])
  | deregister g => exact .stands (by simp [step]) (by simp [step])
  | tick =>
    rw [step]
    split
    · rename_i before
      split
      · exact .stands (by simp) (by simp)
      · exact .starts before
    · exact .stands (by simp) (by simp)
  | listMembers order =>
    rw [step]
    split
    · rename_i before
      exact .listsMembers before order
    · exact .stands (by simp) (by simp)
  | membershipRevoked gone =>
    rw [step]
    split
    · rename_i before
      exact .asks before gone _ rfl
    · exact .stands (by simp) (by simp)
  | listDigests order =>
    rw [step]
    split
    · rename_i before
      exact .listsDigests before order
    · exact .stands (by simp) (by simp)
  | revokedForSweep revoked =>
    rw [step]
    split
    · rename_i before
      exact .looksUp before revoked
    · exact .stands (by simp) (by simp)
  | proceed =>
    rw [step]
    split
    · rename_i before
      exact .cutsOne before rfl
    · rename_i before
      exact .cutsAll before
    · rename_i before
      exact .ends before
    · exact .stands (by simp) (by simp)

/- What is being cut was listed. -/
theorem cuttingListed (events : List Event) {cut : Nat} {channel : ChannelId} {revoked : List Digest} {left : List (ChannelId × List Digest)}
    (sweep : (run events).sweep = .cutting cut channel revoked left) :
    ∃ digests listed, .listed channel digests listed ∈ notes events ∧ revoked ⊆ listed := by
  induction events using List.reverseRecOn generalizing cut channel revoked left with
  | nil => simp [run, Machine.run] at sweep
  | append_singleton events e ih =>
    have all := moved (run events) e
    rw [runNext] at sweep
    rw [notesNext]
    generalize (step (run events) e).1 = told, (step (run events) e).2.sweep = after at all sweep
    cases all with
    | stands =>
      obtain ⟨digests,listed,mem,inside⟩ := ih sweep
      exact ⟨digests,listed,List.mem_append_left _ mem,inside⟩
    | looksUp before now =>
      cases sweep
      exact ⟨_,_,List.mem_append_right _ List.mem_cons_self,List.Subset.refl _⟩
    | cutsOne before =>
      cases sweep
      obtain ⟨digests,listed,mem,inside⟩ := ih before
      exact ⟨digests,listed,List.mem_append_left _ mem,List.subset_of_cons_subset inside⟩
    | _ => contradiction

/- Only a definitive answer cuts: about the member, or about the grant. -/
theorem cutsAnswered {before : List Event} {e : Event} {k : SpliceKey} {digest : Option Digest} (cuts : (run before).cuts e k digest = true) :
    .asked k true ∈ notes (before ++ [e]) ∨
      ∃ d digests revoked, digest = some d ∧ .listed k.1 digests revoked ∈ notes before ∧ d ∈ revoked := by
  cases e with
  | membershipRevoked gone =>
    cases gone with
    | false => contradiction
    | true =>
      rcases sweep : (run before).sweep with _ | _ | ⟨cut,_ | ⟨head,left⟩⟩ | ⟨cut,left⟩ | ⟨cut,channel,revoked,left⟩
      case members.cons =>
        simp only [Recheck.cuts, sweep, decide_eq_true_eq] at cuts
        refine .inl ?_
        rw [notesNext, step, sweep, cuts]
        simp
      all_goals simp [Recheck.cuts, sweep] at cuts
  | proceed =>
    rcases sweep : (run before).sweep with _ | _ | ⟨cut,left⟩ | ⟨cut,left⟩ | ⟨cut,channel,_ | ⟨d,revoked⟩,left⟩
    case cutting.cons =>
      simp only [Recheck.cuts, sweep, decide_eq_true_eq] at cuts
      obtain ⟨digests,listed,told,inside⟩ := cuttingListed before sweep
      exact .inr ⟨d,digests,listed,cuts.2,cuts.1 ▸ told,inside List.mem_cons_self⟩
    all_goals simp [Recheck.cuts, sweep] at cuts
  | _ => contradiction

theorem memberListed (formed : Formed s.splices) : k ∈ s.splices.liveSpliceMembers ↔ ∃ leg, leg ∈ s.splices.legs k := by
  rw [LiveSplices.liveSpliceMembers, Std.ExtTreeMap.mem_keys, Std.ExtTreeMap.mem_iff_isSome_getElem?, LiveSplices.legs]
  cases found : s.splices.entries[k]? with
  | none => simp
  | some v => simpa using List.exists_mem_of_ne_nil v (fun none' => formed.occupied k (none' ▸ found))

/- What becomes of the legs over a run. -/
structure Accounted (events : List Event) : Prop where
  live : ∀ k id digest, (∃ leg ∈ (run events).splices.legs k, leg.id = id ∧ leg.digest = digest) ↔ standing ⟨k,id⟩ (notes events) = some digest
  cut : ∀ k, ∀ leg ∈ (run events).splices.legs k,
    (leg.cut = true ↔ ∃ before e after, events = before ++ e :: after ∧ Cutting before e k leg)
  answered : ∀ before e after k digest, events = before ++ e :: after → (run before).cuts e k digest = true →
    .asked k true ∈ notes (before ++ [e]) ∨ ∃ d digests revoked, digest = some d ∧ .listed k.1 digests revoked ∈ notes before ∧ d ∈ revoked
  asked : ∀ k, k ∈ (run events).splices.liveSpliceMembers ↔ ∃ leg, leg ∈ (run events).splices.legs k

theorem arrangedMem {α : Type} [BEq α] [LawfulBEq α] {order items : List α} {x : α} (mem : x ∈ items) : x ∈ arranged order items := by
  unfold arranged
  split
  · rename_i perm
    exact (List.isPerm_iff.mp perm).mem_iff.mpr mem
  · exact mem

theorem noteDigestKeeps {out : BTreeMap ChannelId (List Digest)} {channel : ChannelId} {d : Digest} (c : ChannelId) (leg : Leg)
    (noted : (∃ ds, out[channel]? = some ds ∧ d ∈ ds) ∨ c = channel ∧ leg.digest = some d) :
    ∃ ds, (LiveSplices.noteDigest out c leg)[channel]? = some ds ∧ d ∈ ds := by
  unfold LiveSplices.noteDigest
  cases own : leg.digest with
  | none =>
    obtain before | ⟨-,same⟩ := noted
    · exact before
    · exact absurd (own.symm.trans same) (by simp)
  | some d' =>
    simp only [lookupInsert]
    by_cases here : channel = c
    · subst here
      rw [if_pos rfl]
      refine ⟨_,rfl,?_⟩
      obtain ⟨ds,found,mem⟩ | ⟨-,same⟩ := noted
      · rw [found, Option.getD_some]
        split
        · exact mem
        · exact List.mem_append_left _ mem
      · cases own.symm.trans same
        split
        · rename_i there
          exact List.contains_iff_mem.mp there
        · exact List.mem_append_right _ List.mem_cons_self
    · rw [if_neg here]
      obtain before | ⟨same,-⟩ := noted
      · exact before
      · exact absurd same.symm here

theorem digestListed {s : LiveSplices} {d : Digest} (mem : leg ∈ s.legs k) (own : leg.digest = some d) :
    ∃ ds, (k.1,ds) ∈ s.liveSpliceDigests ∧ d ∈ ds := by
  have noted (items : List (ChannelId × Leg)) (out : BTreeMap ChannelId (List Digest))
      (start : (∃ ds, out[k.1]? = some ds ∧ d ∈ ds) ∨ ∃ leg, (k.1,leg) ∈ items ∧ leg.digest = some d) :
      ∃ ds, (items.foldl (fun out item => LiveSplices.noteDigest out item.1 item.2) out)[k.1]? = some ds ∧ d ∈ ds := by
    induction items generalizing out with
    | nil => simpa using start
    | cons item items ih =>
      refine ih _ ?_
      obtain before | ⟨leg,mem,same⟩ := start
      · exact .inl (noteDigestKeeps item.1 item.2 (.inl before))
      · obtain rfl | later := List.mem_cons.mp mem
        · exact .inl (noteDigestKeeps k.1 leg (.inr ⟨rfl,same⟩))
        · exact .inr ⟨leg,later,same⟩
  have flat : s.entries.foldl (fun out key (legs : List Leg) => legs.foldl (fun out leg => LiveSplices.noteDigest out key.1 leg) out) ∅ =
      (s.entries.toList.flatMap fun entry => entry.2.map fun leg => (entry.1.1,leg)).foldl
        (fun out item => LiveSplices.noteDigest out item.1 item.2) ∅ := by
    rw [Std.ExtTreeMap.foldl_eq_foldl_toList, List.foldl_flatMap]
    simp only [List.foldl_map]
  have there : (k.1,leg) ∈ s.entries.toList.flatMap fun entry => entry.2.map fun leg => (entry.1.1,leg) := by
    cases found : s.entries[k]? with
    | none => simp [LiveSplices.legs, found] at mem
    | some v =>
      rw [LiveSplices.legs, found] at mem
      exact List.mem_flatMap.mpr ⟨(k,v),Std.ExtTreeMap.mem_toList_iff_getElem?_eq_some.mpr found,List.mem_map_of_mem mem⟩
  obtain ⟨ds,found,inside⟩ := noted _ ∅ (.inr ⟨leg,there,own⟩)
  refine ⟨ds,?_,inside⟩
  rw [LiveSplices.liveSpliceDigests, flat]
  exact Std.ExtTreeMap.mem_toList_iff_getElem?_eq_some.mpr found

end Steps

/- The digests the sweep has yet to ask about. -/
def Sweep.pending : Sweep → List (ChannelId × List Digest)
  | .grants _ left | .cutting _ _ _ left => left
  | _ => []

def Sweep.early : Sweep → Bool
  | .begun | .members .. => true
  | _ => false

/- How far a sweep has come with one leg. -/
structure Progress (k : SpliceKey) (id : Nat) (digest : Option Digest) (told : List Note) (s : Recheck) : Prop where
  asked : (∃ gone, .asked k gone ∈ told) ∨ s.sweep = .begun ∨ ∃ cut left, s.sweep = .members cut left ∧ k ∈ left
  removed : ∀ leg ∈ s.splices.legs k, leg.id = id → .asked k true ∈ told → leg.cut = true
  listed : ∀ d, digest = some d → (∃ digests revoked, .listed k.1 digests revoked ∈ told ∧ d ∈ digests) ∨ s.sweep.early = true ∨
    ∃ digests, (k.1,digests) ∈ s.sweep.pending ∧ d ∈ digests
  revoked : ∀ leg ∈ s.splices.legs k, leg.id = id → ∀ d digests revoked, leg.digest = some d → .listed k.1 digests revoked ∈ told →
    d ∈ revoked → leg.cut = true ∨ ∃ cut revoked left, s.sweep = .cutting cut k.1 revoked left ∧ d ∈ revoked

section Covers
variable {s : Recheck} {e : Event} {k : SpliceKey} {id : Nat} {digest : Option Digest} {told : List Note}

theorem progressAsked (progress : Progress k id digest told s) (formed : Formed s.splices)
    (live : ∃ leg ∈ s.splices.legs k, leg.id = id ∧ leg.digest = digest) :
    (∃ gone, .asked k gone ∈ told ++ (step s e).1) ∨ (step s e).2.sweep = .begun ∨
      ∃ cut left, (step s e).2.sweep = .members cut left ∧ k ∈ left := by
  obtain ⟨gone,mem⟩ | waiting := progress.asked
  · exact .inl ⟨gone,List.mem_append_left _ mem⟩
  · have all := moved s e
    generalize (step s e).1 = more, (step s e).2.sweep = after at all
    cases all with
    | stands => exact .inr waiting
    | starts => exact .inr (.inl rfl)
    | listsMembers before order =>
      obtain ⟨leg,mem,-⟩ := live
      exact .inr (.inr ⟨0,_,rfl,arrangedMem ((memberListed formed).mpr ⟨leg,mem⟩)⟩)
    | @asks cut key left before gone n here =>
      obtain same | ⟨cut,left,same,mem⟩ := waiting
      · cases same.symm.trans before
      · cases same.symm.trans before
        obtain rfl | later := List.mem_cons.mp mem
        · exact .inl ⟨gone,List.mem_append_right _ List.mem_cons_self⟩
        · exact .inr (.inr ⟨n,left,rfl,later⟩)
    | listsDigests before =>
      obtain same | ⟨cut,left,same,mem⟩ := waiting
      · cases same.symm.trans before
      · cases same.symm.trans before
        contradiction
    | looksUp before | cutsOne before | cutsAll before | ends before =>
      obtain same | ⟨cut,left,same,mem⟩ := waiting
      · cases same.symm.trans before
      · cases same.symm.trans before

theorem progressRemoved (progress : Progress k id digest told s) (numbered : id ≤ s.splices.nextId) :
    ∀ leg ∈ (step s e).2.splices.legs k, leg.id = id → .asked k true ∈ told ++ (step s e).1 → leg.cut = true := by
  intro leg mem same asked
  obtain ⟨was,there,-,rfl⟩ | ⟨d,-,rfl⟩ := memStep.mp mem
  · rw [Leg.signalled, Bool.or_eq_true]
    obtain before | now := List.mem_append.mp asked
    · exact .inl (progress.removed was there same before)
    · have all := moved s e
      generalize (step s e).1 = more, (step s e).2.sweep = after at all now
      cases all with
      | stands silent => exact absurd now (silent k true)
      | asks before gone n here =>
        cases List.mem_singleton.mp now
        subst here
        exact .inr (by simp [Recheck.cuts, before])
      | looksUp | ends => simp at now
      | _ => contradiction
  · have equal : s.splices.nextId + 1 = id := same
    omega

theorem progressListed (progress : Progress k id digest told s) (live : ∃ leg ∈ s.splices.legs k, leg.id = id ∧ leg.digest = digest)
    {d : Digest} (own : digest = some d) :
    (∃ digests revoked, .listed k.1 digests revoked ∈ told ++ (step s e).1 ∧ d ∈ digests) ∨ (step s e).2.sweep.early = true ∨
      ∃ digests, (k.1,digests) ∈ (step s e).2.sweep.pending ∧ d ∈ digests := by
  obtain ⟨digests,revoked,mem,inside⟩ | waiting := progress.listed d own
  · exact .inl ⟨digests,revoked,List.mem_append_left _ mem,inside⟩
  · have all := moved s e
    generalize (step s e).1 = more, (step s e).2.sweep = after at all
    cases all with
    | stands => exact .inr waiting
    | starts | listsMembers => exact .inr (.inl rfl)
    | asks => exact .inr (.inl rfl)
    | listsDigests before order =>
      obtain ⟨leg,mem,-,same⟩ := live
      obtain ⟨digests,listed,inside⟩ := digestListed mem (same.trans own)
      exact .inr (.inr ⟨digests,arrangedMem listed,inside⟩)
    | @looksUp cut channel digests left before revoked =>
      obtain early | ⟨ds,mem,inside⟩ := waiting
      · simp [before, Sweep.early] at early
      · rw [before] at mem
        obtain here | later := List.mem_cons.mp mem
        · obtain ⟨rfl,rfl⟩ := Prod.mk.inj here
          exact .inl ⟨ds,revoked,List.mem_append_right _ List.mem_cons_self,inside⟩
        · exact .inr (.inr ⟨ds,later,inside⟩)
    | cutsOne before | cutsAll before =>
      rw [before] at waiting
      obtain early | pending := waiting
      · contradiction
      · exact .inr (.inr pending)
    | ends before =>
      rw [before] at waiting
      obtain early | ⟨ds,mem,-⟩ := waiting <;> contradiction

theorem progressRevoked (progress : Progress k id digest told s) (numbered : id ≤ s.splices.nextId) :
    ∀ leg ∈ (step s e).2.splices.legs k, leg.id = id → ∀ d digests revoked, leg.digest = some d →
      .listed k.1 digests revoked ∈ told ++ (step s e).1 → d ∈ revoked →
      leg.cut = true ∨ ∃ cut revoked left, (step s e).2.sweep = .cutting cut k.1 revoked left ∧ d ∈ revoked := by
  intro leg mem same d digests revoked own listed inside
  obtain ⟨was,there,-,rfl⟩ | ⟨d',-,rfl⟩ := memStep.mp mem
  · rw [Leg.signalled, Bool.or_eq_true]
    have all := moved s e
    generalize (step s e).1 = more, (step s e).2.sweep = after at all listed
    have earlier (before : .listed k.1 digests revoked ∈ told) := progress.revoked was there same d digests revoked own before inside
    have done {sweep : Sweep} (before : s.sweep = sweep) (other : ∀ cut revoked left, sweep ≠ .cutting cut k.1 revoked left)
        (listed : .listed k.1 digests revoked ∈ told) : was.cut = true := by
      obtain cut | ⟨cut,revoked,left,same,-⟩ := earlier listed
      · exact cut
      · exact absurd (before.symm.trans same) (other cut revoked left)
    cases all with
    | stands _ unlisted =>
      obtain old | now := List.mem_append.mp listed
      · exact (earlier old).imp_left .inl
      · exact absurd now (unlisted _ _ _)
    | @looksUp cut channel ds left before revoked' =>
      obtain old | now := List.mem_append.mp listed
      · exact .inl (.inl (done before (by simp) old))
      · cases List.mem_singleton.mp now
        exact .inr ⟨cut,revoked,left,rfl,inside⟩
    | @cutsOne cut channel first rest left before here =>
      rw [List.append_nil] at listed
      obtain before' | ⟨cut,revoked,left,same,mem⟩ := earlier listed
      · exact .inl (.inl before')
      · cases same.symm.trans before
        obtain rfl | later := List.mem_cons.mp mem
        · have own' : was.digest = some d := own
          exact .inl (.inr (by simp [here, Recheck.cuts, before, own']))
        · exact .inr ⟨cut,rest,left,rfl,later⟩
    | cutsAll before =>
      rw [List.append_nil] at listed
      obtain before' | ⟨cut,revoked,left,same,mem⟩ := earlier listed
      · exact .inl (.inl before')
      · cases same.symm.trans before
        contradiction
    | starts before | listsMembers before | listsDigests before =>
      rw [List.append_nil] at listed
      exact .inl (.inl (done before (by simp) listed))
    | asks before | ends before =>
      obtain old | now := List.mem_append.mp listed
      · exact .inl (.inl (done before (by simp) old))
      · simp at now
  · have equal : s.splices.nextId + 1 = id := same
    omega

/- A leg that is live at both ends of a stretch is so in between. -/
theorem liveBetween {before between after : List Event} {was leg : Leg} (first : was ∈ (run before).splices.legs k)
    (last : leg ∈ (run (before ++ between ++ after)).splices.legs k) (same : leg.id = was.id) :
    ∃ mid ∈ (run (before ++ between)).splices.legs k, mid.id = leg.id ∧ mid.digest = leg.digest := by
  have bound := ((formedRun before).numbered k was first).trans (nextLater before between)
  induction after using List.reverseRecOn generalizing leg with
  | nil =>
    rw [List.append_nil] at last
    exact ⟨leg,last,rfl,rfl⟩
  | append_singleton after e ih =>
    rw [← List.append_assoc, runNext] at last
    obtain ⟨mid,there,-,rfl⟩ | ⟨digest,-,rfl⟩ := memStep.mp last
    · have earlier := @ih mid there same
      exact earlier
    · have later := bound.trans (nextLater (before ++ between) after)
      have equal : (run (before ++ between ++ after)).splices.nextId + 1 = was.id := same
      omega

theorem progressRun {before during : List Event} {was leg : Leg} (begun : (run before).sweep = .begun) (first : was ∈ (run before).splices.legs k)
    (last : leg ∈ (run (before ++ during)).splices.legs k) (same : leg.id = was.id) :
    Progress k leg.id leg.digest (notesFrom (run before) during) (run (before ++ during)) := by
  have stretch (done todo : List Event) (whole : during = done ++ todo) :
      Progress k leg.id leg.digest (notesFrom (run before) done) (run (before ++ done)) := by
    induction done using List.reverseRecOn generalizing todo with
    | nil =>
      rw [List.append_nil]
      refine ⟨.inr (.inl begun),?_,fun d own => .inr (.inl (by rw [begun]; rfl)),?_⟩
      · intro leg _ _ asked
        simp [notesFrom, Machine.log] at asked
      · intro leg _ _ d digests revoked _ listed
        simp [notesFrom, Machine.log] at listed
    | append_singleton done e ih =>
      have progress := ih (e :: todo) (by rw [whole, List.append_assoc]; rfl)
      rw [whole, List.append_assoc, ← List.append_assoc before] at last
      obtain ⟨mid,there,number,own⟩ := liveBetween first last same
      have live : ∃ mid ∈ (run (before ++ done)).splices.legs k, mid.id = leg.id ∧ mid.digest = leg.digest := ⟨mid,there,number,own⟩
      have numbered : leg.id ≤ (run (before ++ done)).splices.nextId := number ▸ (formedRun _).numbered k mid there
      have state : Machine.run step (run before) done = run (before ++ done) := (Machine.runAppend _ _ _).symm
      have more : notesFrom (run before) (done ++ [e]) = notesFrom (run before) done ++ (step (run (before ++ done)) e).1 := by
        rw [notesFrom, Machine.logNext, state]
        rfl
      rw [more, ← List.append_assoc, runNext]
      exact ⟨progressAsked progress (formedRun _) live,progressRemoved progress numbered,
        fun d own => progressListed progress live own,progressRevoked progress numbered⟩
  exact stretch during [] (List.append_nil _).symm

/- What a whole sweep does for a leg. -/
structure Covered (k : SpliceKey) (leg : Leg) (told : List Note) : Prop where
  asked : ∃ gone, .asked k gone ∈ told
  removed : .asked k true ∈ told → leg.cut = true
  listed : ∀ d, leg.digest = some d → ∃ digests revoked, .listed k.1 digests revoked ∈ told ∧ d ∈ digests
  revoked : ∀ d digests revoked, leg.digest = some d → .listed k.1 digests revoked ∈ told → d ∈ revoked → leg.cut = true

/- A sweep asks about every leg that lasts from its start to its end, and cuts it if the answer says so. -/
theorem sweepCovers {before during : List Event} {was leg : Leg} (begun : (run before).sweep = .begun)
    (ended : (run (before ++ during)).sweep = .idle) (first : was ∈ (run before).splices.legs k)
    (last : leg ∈ (run (before ++ during)).splices.legs k) (same : leg.id = was.id) :
    Covered k leg (notesFrom (run before) during) := by
  have progress := progressRun begun first last same
  refine ⟨?_,progress.removed leg last rfl,fun d own => ?_,fun d digests revoked own listed inside => ?_⟩
  · obtain asked | here | ⟨cut,left,here,-⟩ := progress.asked
    · exact asked
    · cases ended.symm.trans here
    · cases ended.symm.trans here
  · obtain listed | early | ⟨digests,pending,-⟩ := progress.listed d own
    · exact listed
    · rw [ended] at early
      contradiction
    · rw [ended] at pending
      contradiction
  · obtain cut | ⟨cut,revoked,left,here,-⟩ := progress.revoked leg last rfl d digests revoked own listed inside
    · exact cut
    · cases ended.symm.trans here

/- One member of a channel was removed, and another one's grant revoked. -/
def sampleKey (holder : UInt8) : SpliceKey := (.replicate 32 0,.replicate 32 holder)
def sampleDigest : Digest := .replicate 32 7
def sampleStart : List Event := [.register (sampleKey 1) none,.register (sampleKey 2) (some sampleDigest),.tick]
def sampleSweep : List Event :=
  [.listMembers [],.membershipRevoked true,.membershipRevoked false,.listDigests [],.revokedForSweep [sampleDigest],.proceed,.proceed,.proceed]

theorem sampleCovered : Covered (sampleKey 1) ⟨1,none,true⟩ (notesFrom (run sampleStart) sampleSweep) ∧
    Covered (sampleKey 2) ⟨2,some sampleDigest,true⟩ (notesFrom (run sampleStart) sampleSweep) := by
  have ends : (run sampleStart).sweep = .begun ∧ (run (sampleStart ++ sampleSweep)).sweep = .idle := by decide +kernel
  have first : ⟨1,none,false⟩ ∈ (run sampleStart).splices.legs (sampleKey 1) ∧
      ⟨1,none,true⟩ ∈ (run (sampleStart ++ sampleSweep)).splices.legs (sampleKey 1) := by decide +kernel
  have second : ⟨2,some sampleDigest,false⟩ ∈ (run sampleStart).splices.legs (sampleKey 2) ∧
      ⟨2,some sampleDigest,true⟩ ∈ (run (sampleStart ++ sampleSweep)).splices.legs (sampleKey 2) := by decide +kernel
  exact ⟨sweepCovers ends.1 ends.2 first.1 first.2 rfl,sweepCovers ends.1 ends.2 second.1 second.2 rfl⟩

end Covers
end CadsTunnel.Splices
