import CadsTunnel.TopologyAuthorization

/-! Which topology an agent is in, over every order of the operations. The assignment is a
state machine of its own that names topologies by free strings: it does not ask whether the
topology exists, and it lets a revoke pass whose caller is called like the topology. -/
namespace CadsTunnel.TopologyStore
open OrderedMap Words Sql
open Std (ExtTreeMap)

/- What a deletion by an account does to the agents. -/
structure Released (owner : String) (s m : Tables) : Prop where
  agents : ∀ agent : String, m.agents[agent]? = s.agents[agent]? ∨ ∃ (o t : String) (row : TopologyRow), s.agents[agent]? = some ⟨o,some t⟩ ∧
    m.agents[agent]? = some ⟨o,none⟩ ∧ s.topologies[t]? = some row ∧ row.owner = owner ∧ m.topologies[t]? = none
  topologies : ∀ (id : String) (row : TopologyRow), m.topologies[id]? = some row → s.topologies[id]? = some row

/- Every agent is in an existing topology, if in any. -/
def Stationed (s : Tables) : Prop :=
  ∀ (agent owner t : String), s.agents[agent]? = some ⟨owner,some t⟩ → ∃ row, s.topologies[t]? = some row

section Deletions
variable {s m n : Tables} {owner : String}

theorem releasedTrans (first : Released owner s m) (second : Released owner m n) : Released owner s n where
  agents agent := by
    rcases second.agents agent with same | ⟨o,t,row,here,gone,found,mine,missing⟩
    · rcases first.agents agent with same' | ⟨o,t,row,here,gone,found,mine,missing⟩
      · exact .inl (same.trans same')
      · refine .inr ⟨o,t,row,here,same.trans gone,found,mine,?_⟩
        by_contra present
        obtain ⟨row',found'⟩ := Option.ne_none_iff_exists'.mp present
        rw [second.topologies t row' found'] at missing
        contradiction
    · refine .inr ⟨o,t,row,?_,gone,first.topologies t row found,mine,missing⟩
      rcases first.agents agent with same' | ⟨o',t',_,_,gone',_⟩
      · exact same' ▸ here
      · rw [gone'] at here
        exact absurd here (by simp)
  topologies id row found := first.topologies id row (second.topologies id row found)

theorem droppedReleased (s : Tables) (id : String) : Released owner s (s.droppedOf owner id) := by
  rw [Tables.droppedOf]
  split
  case isFalse => exact ⟨fun _ => .inl rfl,fun _ _ found => found⟩
  case isTrue owned =>
    obtain ⟨row,found,mine⟩ := (Option.any_eq_true _ _).mp owned
    constructor
    case agents =>
      intro agent
      rw [Tables.dropped, lookupUpdated]
      cases here : s.agents[agent]? with
      | none => exact .inl rfl
      | some a =>
        obtain ⟨o,place⟩ := a
        by_cases inside : place = some id
        · subst inside
          refine .inr ⟨o,id,row,rfl,by simp,found,by simpa using mine,?_⟩
          rw [lookupErase, if_pos rfl]
        · exact .inl (by simp [inside])
    case topologies =>
      intro a row' there
      rw [Tables.dropped, lookupErase] at there
      split at there <;> try contradiction
      exact there

theorem foldedReleased (ids : List String) (s : Tables) : Released owner s (ids.foldl (Tables.droppedOf owner) s) := by
  induction ids generalizing s with
  | nil => exact ⟨fun _ => .inl rfl,fun _ _ found => found⟩
  | cons id ids ih => exact releasedTrans (droppedReleased s id) (ih _)

theorem stationedDropped (stationed : Stationed s) (id : String) : Stationed (s.dropped id) := by
  intro agent o t here
  rw [Tables.dropped, lookupUpdated, Option.map_eq_some_iff] at here
  obtain ⟨⟨o',place⟩,before,now⟩ := here
  split at now
  case isTrue => simp at now
  case isFalse outside =>
    cases now
    obtain ⟨row,found⟩ := stationed agent o t before
    refine ⟨row,?_⟩
    rw [Tables.dropped, lookupErase, if_neg, found]
    rintro rfl
    exact outside (by simp)

theorem stationedFolded (ids : List String) (stationed : Stationed s) : Stationed (ids.foldl (Tables.droppedOf owner) s) := by
  induction ids generalizing s with
  | nil => exact stationed
  | cons id ids ih =>
    refine ih ?_
    rw [Tables.droppedOf]
    split
    · exact stationedDropped stationed id
    · exact stationed

theorem withdrawnAgent {agent : String} {row : AgentRow} (here : (s.withdrawn owner).agents[agent]? = some row) :
    ((s.topologies.filter (fun _ t => t.owner = owner)).keys.foldl (Tables.droppedOf owner) s).agents[agent]? = some row ∧ row.owner ≠ owner := by
  rw [Tables.withdrawn, Tables.forsaken, lookupDeleted, Option.filter_eq_some_iff] at here
  simpa using here

end Deletions
section Calls
variable {s m : Tables} {op : Op} {r : Except TopologyError Answer}

theorem failedKept {e : TopologyError} (effect : Effect s op (.error e) m) : m = s := by
  cases effect
  rfl

/- Whoever ends an assignment. -/
inductive Ended (s m : Tables) (agent owner t : String) : Op → Prop where
  | revoked {caller : String} (may : caller = owner ∨ caller = t) : Ended s m agent owner t (.revoke caller agent)
  | deleted {o : String} {row : TopologyRow} (found : s.topologies[t]? = some row) (mine : row.owner = o) (gone : m.topologies[t]? = none) :
      Ended s m agent owner t (.delete o t)
  | deletedAll {o : String} {row : TopologyRow} (found : s.topologies[t]? = some row) (mine : row.owner = o) (gone : m.topologies[t]? = none) :
      Ended s m agent owner t (.deleteAll o)
  | left : Ended s m agent owner t (.deleteAll owner)

theorem assignmentKept (effect : Effect s op r m) {agent owner t : String} (here : s.agents[agent]? = some ⟨owner,some t⟩) :
    m.agents[agent]? = some ⟨owner,some t⟩ ∨ Ended s m agent owner t op := by
  cases effect with
  | @deleted o id row found mine =>
    have released := @droppedReleased o s id
    have owned : s.topologies[id]?.any (fun t => t.owner = o) := by simp [found, mine]
    have whole : s.droppedOf o id = s.dropped id := if_pos owned
    rw [whole] at released
    rcases released.agents agent with same | ⟨o',t',row',there,gone,found',mine',missing⟩
    · exact .inl (same.trans here)
    · cases Option.some.inj (here.symm.trans there)
      have inside : t = id := by
        by_contra outside
        rw [Tables.dropped, lookupErase, if_neg outside, found'] at missing
        contradiction
      subst inside
      exact .inr (.deleted found' mine' missing)
  | @deletedAll o n =>
    have released := @foldedReleased o (s.topologies.filter (fun _ t => t.owner = o)).keys s
    rcases released.agents agent with same | ⟨o',t',row',there,gone,found',mine',missing⟩
    · by_cases leaver : owner = o
      · exact .inr (leaver ▸ .left)
      · refine .inl ?_
        rw [Tables.withdrawn, Tables.forsaken, lookupDeleted, same, here]
        simp [leaver]
    · cases Option.some.inj (here.symm.trans there)
      exact .inr (.deletedAll found' mine' missing)
  | @assigned caller other topology fits =>
    refine .inl ?_
    rw [Tables.placed, lookupInsert, if_neg, here]
    rintro rfl
    rw [here] at fits
    simp at fits
  | @revoked caller other o current found may =>
    by_cases same : agent = other
    · subst same
      cases Option.some.inj (here.symm.trans found)
      exact .inr (.revoked may)
    · refine .inl ?_
      rw [Tables.placed, lookupInsert, if_neg same, here]
  | _ => exact .inl here

theorem ownerKept (effect : Effect s op r m) {agent : String} {row row' : AgentRow} (before : s.agents[agent]? = some row)
    (after : m.agents[agent]? = some row') : row'.owner = row.owner := by
  have released : ∀ {o : String} {n : Tables}, Released o s n → n.agents[agent]? = some row' → row'.owner = row.owner := by
    intro o n released after
    rcases released.agents agent with same | ⟨o',t',_,there,gone,-⟩
    · rw [Option.some.inj (after.symm.trans (same.trans before))]
    · rw [Option.some.inj (after.symm.trans gone), ← Option.some.inj (there.symm.trans before)]
  have unmoved : m.agents = s.agents → row'.owner = row.owner := by
    intro same
    rw [same] at after
    rw [Option.some.inj (after.symm.trans before)]
  cases effect with
  | @deleted o id _ found mine =>
    have owned : s.topologies[id]?.any (fun t => t.owner = o) := by simp [found, mine]
    have whole : s.droppedOf o id = s.dropped id := if_pos owned
    exact released (whole ▸ @droppedReleased o s id) after
  | deletedAll => exact released (foldedReleased _ s) (withdrawnAgent after).1
  | @assigned caller other topology fits =>
    rw [Tables.placed, lookupInsert] at after
    split at after
    case isTrue same =>
      subst same
      rw [before] at fits
      rw [← Option.some.inj after, Option.some.inj (fits.resolve_left nofun)]
    case isFalse => rw [Option.some.inj (after.symm.trans before)]
  | @revoked caller other o current found =>
    rw [Tables.placed, lookupInsert] at after
    split at after
    case isTrue same =>
      subst same
      rw [← Option.some.inj after, Option.some.inj (before.symm.trans found)]
    case isFalse => rw [Option.some.inj (after.symm.trans before)]
  | _ => exact unmoved rfl

/- An assignment that is made names a topology that is there. -/
def Placed (verify : Key → Bytes → Signature → Bool) (s : Tables) (call : Call) : Prop :=
  ∀ caller agent topology, call.op = .assign caller agent topology → (step verify s call).1 = .ok .moved → ∃ row, s.topologies[topology]? = some row

theorem stationedEffect (effect : Effect s op r m) (stationed : Stationed s)
    (placed : ∀ caller agent topology, op = .assign caller agent topology → r = .ok .moved → ∃ row, s.topologies[topology]? = some row) :
    Stationed m := by
  cases effect with
  | created =>
    intro agent owner t here
    obtain ⟨row,found⟩ := stationed agent owner t here
    rw [lookupInsert]
    split
    · exact ⟨_,rfl⟩
    · exact ⟨row,found⟩
  | bound =>
    intro agent owner t here
    obtain ⟨row,found⟩ := stationed agent owner t here
    rw [lookupInsert]
    split
    · exact ⟨_,rfl⟩
    · exact ⟨row,found⟩
  | deleted => exact stationedDropped stationed _
  | deletedAll =>
    intro agent owner t here
    exact stationedFolded _ stationed agent owner t (withdrawnAgent here).1
  | assigned =>
    intro agent owner t here
    rw [Tables.placed, lookupInsert] at here
    split at here
    case isTrue =>
      cases Option.some.inj here
      exact placed _ _ _ rfl rfl
    case isFalse => exact stationed agent owner t here
  | revoked =>
    intro agent owner t here
    rw [Tables.placed, lookupInsert] at here
    split at here
    case isTrue => simp at here
    case isFalse => exact stationed agent owner t here
  | _ => exact stationed

/- Over every order of the operations: the owner of an agent stays as long as its row does, an
assign or revoke that fails changes nothing, and an assignment ends by a revoke whose caller is
the owner of the agent or is called like the topology, with the topology, or with the account
of the owner. A topology that does not exist has neither edges nor shares; and where every
assignment that is made names a topology that is there, it has no agents either. -/
theorem membershipKept (verify : Key → Bytes → Signature → Bool) (calls : List Call) :
    (∀ call (agent : String) (row row' : AgentRow), (run verify calls).agents[agent]? = some row →
      (step verify (run verify calls) call).2.agents[agent]? = some row' → row'.owner = row.owner) ∧
    (∀ call e, (step verify (run verify calls) call).1 = .error e → (step verify (run verify calls) call).2 = run verify calls) ∧
    (∀ call (agent owner t : String), (run verify calls).agents[agent]? = some ⟨owner,some t⟩ →
      (step verify (run verify calls) call).2.agents[agent]? = some ⟨owner,some t⟩ ∨
        Ended (run verify calls) (step verify (run verify calls) call).2 agent owner t call.op) ∧
    (∀ id : String, (run verify calls).topologies[id]? = none →
      (∀ k : EdgeKey, k.1 = id → (run verify calls).edges[k]? = none) ∧ ∀ k : String × String, k.1 = id → (run verify calls).shares[k]? = none) ∧
    (Machine.along (step verify) (Placed verify) {} calls → Stationed (run verify calls)) := by
  refine ⟨?_,?_,?_,?_,?_⟩
  · intro call agent row row' before after
    exact ownerKept (stepEffect verify (run verify calls) call) before after
  · intro call e failed
    have effect := stepEffect verify (run verify calls) call
    rw [failed] at effect
    exact failedKept effect
  · intro call agent owner t here
    exact assignmentKept (stepEffect verify (run verify calls) call) here
  · intro id missing
    have wired := wiredRun verify calls
    refine ⟨?_,?_⟩
    · rintro k rfl
      by_contra present
      obtain ⟨link,here⟩ := Option.ne_none_iff_exists'.mp present
      obtain ⟨row,found⟩ := wired.edgeStands k link here
      rw [found] at missing
      contradiction
    · rintro k rfl
      by_contra present
      obtain ⟨share,here⟩ := Option.ne_none_iff_exists'.mp present
      obtain ⟨row,found⟩ := wired.shareStands k share here
      rw [found] at missing
      contradiction
  · intro met
    refine Machine.runAlong Stationed ?_ ?_ met
    · intro s call placed stationed
      exact stationedEffect (stepEffect verify s call) stationed placed
    · intro agent owner t here
      simp at here

/- An agent is assigned to a topology that does not exist, and is in it when it is created; and
an account that is called like a topology ends an assignment to it. -/
theorem membershipSlips :
    ¬Stationed (run (fun _ _ _ => false) [⟨.assign "alice" "agent" "net",[]⟩]) ∧
    (run (fun _ _ _ => false) [⟨.assign "alice" "agent" "net",[]⟩,⟨.create "bob" "net" "uuid",[]⟩]).agents["agent"]? =
      some ⟨"alice",some "net"⟩ ∧
    (run (fun _ _ _ => false) [⟨.create "bob" "net" "uuid",[]⟩,⟨.assign "alice" "agent" "net",[]⟩]).agents["agent"]? =
      some ⟨"alice",some "net"⟩ ∧
    (run (fun _ _ _ => false) [⟨.create "bob" "net" "uuid",[]⟩,⟨.assign "alice" "agent" "net",[]⟩,⟨.revoke "net" "agent",[]⟩]).agents["agent"]? =
      some ⟨"alice",none⟩ := by
  refine ⟨?_,?_,?_,?_⟩
  · intro stationed
    obtain ⟨row,found⟩ := stationed "agent" "alice" "net" (by decide +kernel)
    have missing : (run (fun _ _ _ => false) [⟨.assign "alice" "agent" "net",[]⟩]).topologies["net"]? = none := by decide +kernel
    rw [missing] at found
    contradiction
  · decide +kernel
  · decide +kernel
  · decide +kernel

end Calls
end CadsTunnel.TopologyStore
