import Mathlib

/-! Filling roles one after another. A chain takes for each role an agent that is not
taken yet; whatever rule picks it, the chain ends in an assignment. No choice is wrong
if the roles are nested: an earlier role that competes with a later one accepts nobody
whom the later one would not accept as well. -/
namespace CadsTunnel.Assignment

section Chains
variable {Role Agent : Type} {fits : Role → Agent → Prop} {picks : List Agent → Role → Agent → Prop}

/- Different agents for the roles, each fit for its own and none of them taken before. -/
structure Assigns (fits : Role → Agent → Prop) (taken : List Agent) (roles : List Role) (agents : List Agent) : Prop where
  distinct : agents.Nodup
  free : ∀ a ∈ agents, a ∉ taken
  fit : List.Forall₂ fits roles agents

inductive Chain (picks : List Agent → Role → Agent → Prop) : List Agent → List Role → List Agent → Prop
  | nil {taken} : Chain picks taken [] []
  | cons {taken role roles agent agents} : picks taken role agent → Chain picks (taken ++ [agent]) roles agents →
      Chain picks taken (role :: roles) (agent :: agents)

/- The rule picks a free agent that fits. -/
def Sound (fits : Role → Agent → Prop) (picks : List Agent → Role → Agent → Prop) : Prop :=
  ∀ taken role agent, picks taken role agent → fits role agent ∧ agent ∉ taken

def Nested (fits : Role → Agent → Prop) (roles : List Role) : Prop :=
  roles.Pairwise fun earlier later => (∃ a, fits earlier a ∧ fits later a) → ∀ a, fits earlier a → fits later a

theorem chainAssigns (sound : Sound fits picks) {taken : List Agent} {roles : List Role} {agents : List Agent}
    (chain : Chain picks taken roles agents) : Assigns fits taken roles agents := by
  induction chain with
  | nil => exact ⟨List.nodup_nil,by simp,.nil⟩
  | @cons taken role roles agent agents picked _ ih =>
    obtain ⟨fit,free⟩ := sound taken role agent picked
    refine ⟨List.nodup_cons.mpr ⟨?_,ih.distinct⟩,?_,.cons fit ih.fit⟩
    · intro again
      exact ih.free agent again (by simp)
    · intro a mem
      rcases List.mem_cons.mp mem with rfl | later
      · exact free
      · exact fun held => ih.free a later (List.mem_append_left _ held)

theorem pairedMem {roles : List Role} {agents : List Agent} (fit : List.Forall₂ fits roles agents) :
    List.Forall₂ (fun role a => role ∈ roles ∧ a ∈ agents ∧ fits role a) roles agents := by
  induction fit with
  | nil => exact .nil
  | cons head _ ih =>
    refine .cons ⟨List.mem_cons_self,List.mem_cons_self,head⟩ (ih.imp ?_)
    rintro role a ⟨inRoles,inAgents,fits⟩
    exact ⟨List.mem_cons_of_mem _ inRoles,List.mem_cons_of_mem _ inAgents,fits⟩

/- Another free agent that fits can take the place of the first one: whoever had the
later role of that agent swaps with it. -/
theorem assignsExchange {taken : List Agent} {role : Role} {roles : List Role} {agent chosen : Agent} {agents : List Agent}
    (assigned : Assigns fits taken (role :: roles) (agent :: agents)) (fit : fits role chosen) (free : chosen ∉ taken)
    (nested : ∀ later ∈ roles, (∃ a, fits role a ∧ fits later a) → ∀ a, fits role a → fits later a) :
    ∃ agents', Assigns fits (taken ++ [chosen]) roles agents' := by
  classical
  obtain ⟨fresh,distinct⟩ := List.nodup_cons.mp assigned.distinct
  cases assigned.fit with
  | cons first rest =>
    let swap := Equiv.swap agent chosen
    have moved : ∀ a ∈ agents, swap a = a ∨ a = chosen ∧ swap a = agent := by
      intro a mem
      by_cases same : a = chosen
      · exact .inr ⟨same,same ▸ Equiv.swap_apply_right agent chosen⟩
      · exact .inl (Equiv.swap_apply_of_ne_of_ne (fun own => fresh (own ▸ mem)) same)
    refine ⟨agents.map swap,distinct.map swap.injective,?_,?_⟩
    · intro b place held
      obtain ⟨a,mem,rfl⟩ := List.mem_map.mp place
      rcases List.mem_append.mp held with old | new
      · rcases moved a mem with kept | ⟨_,swapped⟩
        · exact assigned.free a (List.mem_cons_of_mem _ mem) (kept ▸ old)
        · exact assigned.free agent List.mem_cons_self (swapped ▸ old)
      · have back : a = agent := swap.injective ((List.mem_singleton.mp new).trans (Equiv.swap_apply_left agent chosen).symm)
        exact fresh (back ▸ mem)
    · rw [List.forall₂_map_right_iff]
      refine (pairedMem rest).imp ?_
      rintro later a ⟨laterMem,mem,fits⟩
      rcases moved a mem with kept | ⟨rfl,swapped⟩
      · rw [kept]
        exact fits
      · rw [swapped]
        exact nested later laterMem ⟨a,fit,fits⟩ agent first

end Chains
end CadsTunnel.Assignment
