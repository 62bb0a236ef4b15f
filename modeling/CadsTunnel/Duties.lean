import CadsTunnel.Programs

/-! Programs that run side by side, and duties that their calls come with: what the history
has to hold before a call is made. A duty may ask for anything that has happened and for what
the program itself has not done yet. A program that keeps its duties whatever the replies
are, if it keeps them on its own, keeps them among others. -/
namespace CadsTunnel.Program

/- A call that was made, by which program, under what circumstances and with what reply. -/
structure Act (Call : Type) (Reply : Call → Type) (Stamp : Type) where
  who : Nat
  stamp : Stamp
  call : Call
  reply : Reply call

section Histories
variable {Call Stamp : Type} {Reply : Call → Type} {before after : List (Act Call Reply Stamp)} {i : Nat}

/- The program made the call and got the reply. -/
def Asked (before : List (Act Call Reply Stamp)) (i : Nat) (c : Call) (reply : Reply c) : Prop := ∃ stamp, ⟨i,stamp,c,reply⟩ ∈ before

/- Others have gone on. -/
structure Later (i : Nat) (before after : List (Act Call Reply Stamp)) : Prop where
  more : before ⊆ after
  own : ∀ act ∈ after, act.who = i → act ∈ before

theorem askedMono (more : before ⊆ after) {c : Call} {reply : Reply c} (asked : Asked before i c reply) : Asked after i c reply := by
  obtain ⟨stamp,mem⟩ := asked
  exact ⟨stamp,more mem⟩

theorem askedLast {stamp : Stamp} {c : Call} {reply : Reply c} : Asked (before ++ [⟨i,stamp,c,reply⟩]) i c reply :=
  ⟨stamp,List.mem_append_right _ List.mem_cons_self⟩

theorem laterAppend (later : Later i before after) (last : List (Act Call Reply Stamp)) : Later i (before ++ last) (after ++ last) where
  more := List.append_subset.mpr ⟨List.subset_append_of_subset_left _ later.more,List.subset_append_right _ _⟩
  own := by
    intro act mem mine
    obtain there | here := List.mem_append.mp mem
    · exact List.mem_append_left _ (later.own act there mine)
    · exact List.mem_append_right _ here

theorem laterOther {act : Act Call Reply Stamp} (other : act.who ≠ i) : Later i before (before ++ [act]) where
  more := List.subset_append_left _ _
  own := by
    intro a mem mine
    obtain there | here := List.mem_append.mp mem
    · exact there
    · rw [List.mem_singleton.mp here] at mine
      exact absurd mine other

end Histories

section Keeping
variable {Call Stamp α β Error : Type} {Reply : Call → Type} (due : List (Act Call Reply Stamp) → Nat → Call → Prop)

/- Each call of a program is due when its turn comes. -/
def Keeps (i : Nat) (post : α → List (Act Call Reply Stamp) → Prop) : Program Call Reply α → List (Act Call Reply Stamp) → Prop
  | .done a, before => post a before
  | .call c next, before => due before i c ∧ ∀ stamp reply, Keeps i post (next reply) (before ++ [⟨i,stamp,c,reply⟩])

abbrev Fulfils (i : Nat) (p : Program Call Reply α) (before : List (Act Call Reply Stamp)) : Prop := Keeps due i (fun _ _ => True) p before

variable {due} {before after : List (Act Call Reply Stamp)} {i : Nat}

theorem keepsMono {post weaker : α → List (Act Call Reply Stamp) → Prop} (implies : ∀ a l, post a l → weaker a l) {p : Program Call Reply α}
    (keeps : Keeps due i post p before) : Keeps due i weaker p before := by
  induction p generalizing before with
  | done a => exact implies a before keeps
  | call c next ih => exact ⟨keeps.1,fun stamp reply => ih reply (keeps.2 stamp reply)⟩

theorem keepsBind {post : β → List (Act Call Reply Stamp) → Prop} {f : α → Program Call Reply β} {p : Program Call Reply α}
    (first : Keeps due i (fun a l => Keeps due i post (f a) l) p before) : Keeps due i post (p >>= f) before := by
  induction p generalizing before with
  | done a => exact first
  | call c next ih => exact ⟨first.1,fun stamp reply => ih reply (first.2 stamp reply)⟩

/- A call of a fallible program, and what follows its answer. -/
theorem keepsQuery {post : Except Error β → List (Act Call Reply Stamp) → Prop} {c : Call} {f : Reply c → Fallible Call Reply Error β}
    (called : due before i c) (next : ∀ stamp reply, Keeps due i post (f reply).run (before ++ [⟨i,stamp,c,reply⟩])) :
    Keeps due i post (query c >>= f).run before := ⟨called,next⟩

theorem keepsTry {post : Except Error β → List (Act Call Reply Stamp) → Prop} {x : Fallible Call Reply Error α}
    {f : α → Fallible Call Reply Error β} (failed : ∀ e l, post (.error e) l)
    (first : Keeps due i (fun r l => ∀ a, r = .ok a → Keeps due i post (f a).run l) x.run before) : Keeps due i post (x >>= f).run before := by
  refine keepsBind (keepsMono ?_ first)
  rintro (e | a) l holds
  · exact failed e l
  · exact holds a rfl

/- What other programs do in between changes nothing. -/
theorem keepsLater (stable : ∀ before after c, Later i before after → due before i c → due after i c)
    {post : α → List (Act Call Reply Stamp) → Prop} (steady : ∀ a before after, Later i before after → post a before → post a after)
    {p : Program Call Reply α} (later : Later i before after) (keeps : Keeps due i post p before) : Keeps due i post p after := by
  induction p generalizing before after with
  | done a => exact steady a before after later keeps
  | call c next ih => exact ⟨stable before after c later keeps.1,fun stamp reply => ih reply (laterAppend later _) (keeps.2 stamp reply)⟩

end Keeping

section Pools
variable {Call Stamp α : Type} {Reply : Call → Type} {due : List (Act Call Reply Stamp) → Nat → Call → Prop}

/- Every call so far was due, and so are those to come. -/
structure Dutiful (due : List (Act Call Reply Stamp) → Nat → Call → Prop) (trace : List (Act Call Reply Stamp))
    (programs : List (Program Call Reply α)) : Prop where
  made : ∀ before act after, trace = before ++ act :: after → due before act.who act.call
  within : ∀ act ∈ trace, act.who < programs.length
  programs : ∀ (i : Nat) p, programs[i]? = some p → Fulfils due i p trace

variable {trace : List (Act Call Reply Stamp)} {programs : List (Program Call Reply α)}

theorem dutifulStart : Dutiful due [] ([] : List (Program Call Reply α)) where
  made := by
    intro before act after split
    have longer := congrArg List.length split
    simp at longer
  within := by simp
  programs := by simp

theorem dutifulArrive (dutiful : Dutiful due trace programs) {p : Program Call Reply α}
    (fulfils : ∀ before, (∀ act ∈ before, act.who ≠ programs.length) → Fulfils due programs.length p before) :
    Dutiful due trace (programs ++ [p]) where
  made := dutiful.made
  within := by
    intro act mem
    rw [List.length_append]
    exact Nat.lt_add_right _ (dutiful.within act mem)
  programs := by
    intro j q there
    rcases Nat.lt_or_ge j programs.length with inside | outside
    · rw [List.getElem?_append_left inside] at there
      exact dutiful.programs j q there
    · rw [List.getElem?_append_right outside, List.getElem?_singleton] at there
      split at there
      case isFalse => contradiction
      case isTrue first =>
        obtain rfl : j = programs.length := by omega
        cases there
        exact fulfils trace (fun act mem => Nat.ne_of_lt (dutiful.within act mem))

theorem dutifulCall (stable : ∀ before after i c, Later i before after → due before i c → due after i c) (dutiful : Dutiful due trace programs)
    {i : Nat} {c : Call} {next : Reply c → Program Call Reply α} (found : programs[i]? = some (.call c next)) (stamp : Stamp) (reply : Reply c) :
    Dutiful due (trace ++ [⟨i,stamp,c,reply⟩]) (programs.set i (next reply)) where
  made := by
    have keeps := dutiful.programs i _ found
    intro before act after split
    rcases List.append_eq_append_iff.mp split with ⟨as,here,rest⟩ | ⟨bs,here,rest⟩
    · cases as with
      | nil =>
        obtain ⟨rfl,-⟩ := List.cons.inj rest
        rw [here, List.append_nil]
        exact keeps.1
      | cons a as =>
        have longer := congrArg List.length rest
        simp at longer
    · cases bs with
      | nil =>
        obtain ⟨rfl,-⟩ := List.cons.inj rest
        rw [List.append_nil] at here
        rw [← here]
        exact keeps.1
      | cons b bs =>
        obtain ⟨rfl,-⟩ := List.cons.inj rest
        exact dutiful.made before act bs here
  within := by
    intro act mem
    rw [List.length_set]
    obtain there | here := List.mem_append.mp mem
    · exact dutiful.within act there
    · rw [List.mem_singleton.mp here]
      exact (List.getElem?_eq_some_iff.mp found).1
  programs := by
    have keeps := dutiful.programs i _ found
    intro j p there
    rw [List.getElem?_set] at there
    split at there
    case isTrue same =>
      subst same
      split at there
      · cases there
        exact keeps.2 stamp reply
      · contradiction
    case isFalse other =>
      exact keepsLater (fun before after => stable before after j) (fun _ _ _ _ _ => trivial) (laterOther other) (dutiful.programs j p there)

/- A call once made stays the only one of its kind, if a second one is not due. -/
theorem dutifulOnce (dutiful : Dutiful due trace programs) {once : Call → Prop}
    (single : ∀ before i c, once c → due before i c → ∀ act ∈ before, act.who = i → ¬once act.call) {early late rest : List (Act Call Reply Stamp)}
    {first second : Act Call Reply Stamp} (split : trace = early ++ first :: late ++ second :: rest) (one : once first.call) (two : once second.call) :
    first.who ≠ second.who := by
  intro same
  have called := dutiful.made (early ++ first :: late) second rest split
  exact single _ _ _ two called first (by simp) same one

end Pools
end CadsTunnel.Program
