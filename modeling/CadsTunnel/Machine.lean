import Mathlib

/-! Runs of a state machine with replies, and loops that stop at the first error.
A run folds the step over a list of calls; what one step preserves, every run
preserves. -/
namespace CadsTunnel.Machine

section Runs
variable {State Call Reply : Type} {step : State → Call → Reply × State}

def run (step : State → Call → Reply × State) (s : State) (calls : List Call) : State :=
  calls.foldl (fun s call => (step s call).2) s

theorem runAppend (s : State) (first later : List Call) :
    run step s (first ++ later) = run step (run step s first) later := List.foldl_append

theorem runInvariant (inv : State → Prop) (preserved : ∀ s call, inv s → inv (step s call).2)
    {s : State} (start : inv s) (calls : List Call) : inv (run step s calls) := by
  induction calls generalizing s with
  | nil => exact start
  | cons call rest ih => exact ih (preserved s call start)

/- A preorder that every step respects is respected by every run. -/
theorem runMonotone (rel : State → State → Prop) (refl : ∀ s, rel s s)
    (trans : ∀ a b c, rel a b → rel b c → rel a c) (advances : ∀ s call, rel s (step s call).2)
    (s : State) (calls : List Call) : rel s (run step s calls) := by
  induction calls generalizing s with
  | nil => exact refl s
  | cons call rest ih => exact trans _ _ _ (advances s call) (ih _)

theorem runNext (s : State) (calls : List Call) (call : Call) :
    run step s (calls ++ [call]) = (step (run step s calls) call).2 := runAppend s calls [call]

/- An invariant that also speaks of the calls made so far. -/
theorem runHistory (inv : List Call → State → Prop) {s : State} (start : inv [] s)
    (preserved : ∀ calls m call, inv calls m → inv (calls ++ [call]) (step m call).2) (calls : List Call) :
    inv calls (run step s calls) := by
  induction calls using List.reverseRecOn with
  | nil => exact start
  | append_singleton calls call ih =>
    rw [runNext]
    exact preserved calls _ call ih

/- Every call of the run meets a condition in the state it is made in. -/
def along (step : State → Call → Reply × State) (meets : State → Call → Prop) : State → List Call → Prop
  | _, [] => True
  | s, call :: rest => meets s call ∧ along step meets (step s call).2 rest

instance decidableAlong {meets : State → Call → Prop} [∀ s call, Decidable (meets s call)] :
    ∀ s calls, Decidable (along step meets s calls)
  | _, [] => .isTrue trivial
  | s, call :: rest => @instDecidableAnd _ _ _ (decidableAlong (step s call).2 rest)

theorem runAlong {meets : State → Call → Prop} (inv : State → Prop)
    (preserved : ∀ s call, meets s call → inv s → inv (step s call).2)
    {s : State} (start : inv s) {calls : List Call} (met : along step meets s calls) : inv (run step s calls) := by
  induction calls generalizing s with
  | nil => exact start
  | cons call rest ih => exact ih (preserved s call met.1 start) met.2

theorem alongAppend {meets : State → Call → Prop} {s : State} {first later : List Call} :
    along step meets s (first ++ later) ↔ along step meets s first ∧ along step meets (run step s first) later := by
  induction first generalizing s with
  | nil => simp [along, run]
  | cons call rest ih =>
    rw [List.cons_append, along, along, ih, and_assoc]
    rfl

/- What follows from the condition in every state that keeps an invariant, follows along the run. -/
theorem alongInvariant {meets follows : State → Call → Prop} (inv : State → Prop) (preserved : ∀ s call, inv s → inv (step s call).2)
    (stronger : ∀ s call, inv s → meets s call → follows s call) {s : State} (start : inv s) {calls : List Call}
    (met : along step meets s calls) : along step follows s calls := by
  induction calls generalizing s with
  | nil => exact trivial
  | cons call rest ih => exact ⟨stronger s call start met.1,ih (preserved s call start) met.2⟩

variable {Out : Type}

/- What the calls of a run hand out, one after the other. -/
def log (step : State → Call → Reply × State) (emit : State → Call → List Out) : State → List Call → List Out
  | _, [] => []
  | s, call :: rest => emit s call ++ log step emit (step s call).2 rest

theorem logNext (emit : State → Call → List Out) (s : State) (calls : List Call) (call : Call) :
    log step emit s (calls ++ [call]) = log step emit s calls ++ emit (run step s calls) call := by
  induction calls generalizing s with
  | nil => simp [log, run]
  | cons first rest ih =>
    rw [List.cons_append, log, log, ih, List.append_assoc]
    rfl

end Runs

section Loops

theorem bindOk {α β Error : Type} {x : Except Error α} {f : α → Except Error β} {b : β} :
    (x >>= f) = .ok b ↔ ∃ a, x = .ok a ∧ f a = .ok b := by
  cases x with
  | error e => simp [bind, Except.bind]
  | ok a => simp [bind, Except.bind]

theorem mapOk {α β Error : Type} {x : Except Error α} {f : α → β} {b : β} : x.map f = .ok b ↔ ∃ a, x = .ok a ∧ f a = b := by
  cases x <;> simp [Except.map]

variable {State Item Error : Type} {f : State → Item → Except Error State}

theorem loopNil {s s' : State} : ([] : List Item).foldlM f s = .ok s' ↔ s = s' := by
  simp [pure, Except.pure]

theorem loopCons {x : Item} {xs : List Item} {s s' : State} :
    (x :: xs).foldlM f s = .ok s' ↔ ∃ m, f s x = .ok m ∧ xs.foldlM f m = .ok s' := by
  rw [List.foldlM_cons, bindOk]

theorem loopAppend {xs ys : List Item} {s s' : State} :
    (xs ++ ys).foldlM f s = .ok s' ↔ ∃ m, xs.foldlM f s = .ok m ∧ ys.foldlM f m = .ok s' := by
  induction xs generalizing s with
  | nil => simp [pure, Except.pure]
  | cons x xs ih =>
    rw [List.cons_append, loopCons]
    simp only [ih, loopCons]
    constructor
    · intro split
      obtain ⟨m,first,n,middle,last⟩ := split
      exact ⟨n,⟨m,first,middle⟩,last⟩
    · intro split
      obtain ⟨n,⟨m,first,middle⟩,last⟩ := split
      exact ⟨m,first,n,middle,last⟩

theorem loopInvariant (inv : State → Prop) (preserved : ∀ s x s', f s x = .ok s' → inv s → inv s')
    {xs : List Item} {s s' : State} (ok : xs.foldlM f s = .ok s') (start : inv s) : inv s' := by
  induction xs generalizing s with
  | nil => exact loopNil.mp ok ▸ start
  | cons x xs ih =>
    obtain ⟨m,first,rest⟩ := loopCons.mp ok
    exact ih rest (preserved s x m first start)

/- A checked loop that succeeds computes what the unchecked one does. -/
theorem loopUnchecked {g : State → Item → State} (agrees : ∀ s x s', f s x = .ok s' → s' = g s x)
    {xs : List Item} {s s' : State} (ok : xs.foldlM f s = .ok s') : s' = xs.foldl g s := by
  induction xs generalizing s with
  | nil => exact (loopNil.mp ok).symm
  | cons x xs ih =>
    obtain ⟨m,first,rest⟩ := loopCons.mp ok
    rw [List.foldl_cons, ← agrees s x m first]
    exact ih rest

end Loops
/- A loop over keys that counts how often its body says yes. -/
section Tallies
variable {State Key View : Type}

def tally (f : State → Key → Bool × State) (s : State) (keys : List Key) : Nat × State :=
  keys.foldl (fun acc key => let (yes,next) := f acc.2 key; (if yes then acc.1 + 1 else acc.1,next)) (0,s)

theorem tallyState (f : State → Key → Bool × State) (s : State) (keys : List Key) :
    (tally f s keys).2 = keys.foldl (fun s key => (f s key).2) s := by
  unfold tally
  generalize 0 = count
  induction keys generalizing s count with
  | nil => rfl
  | cons key rest ih => exact ih (f s key).2 _

/- A body that only touches its own key acts on the view of one key as that key's body, once. -/
theorem foldlView {f : State → Key → State} (view : State → View) (key : Key) (own : View → View)
    (acts : ∀ s, view (f s key) = own (view s)) (frame : ∀ s other, other ≠ key → view (f s other) = view s)
    {keys : List Key} (distinct : keys.Nodup) (s : State) :
    key ∈ keys ∧ view (keys.foldl f s) = own (view s) ∨ key ∉ keys ∧ view (keys.foldl f s) = view s := by
  induction keys generalizing s with
  | nil => exact .inr ⟨List.not_mem_nil,rfl⟩
  | cons first rest ih =>
    obtain ⟨fresh,later⟩ := List.nodup_cons.mp distinct
    rw [List.foldl_cons]
    obtain ⟨mem,acted⟩ | ⟨absent,kept⟩ := ih later (f s first)
    · have different : first ≠ key := fun same => fresh (same ▸ mem)
      exact .inl ⟨List.mem_cons_of_mem _ mem,by rw [acted, frame s first different]⟩
    · by_cases same : first = key
      · subst same
        exact .inl ⟨List.mem_cons_self,by rw [kept, acts]⟩
      · refine .inr ⟨?_,by rw [kept, frame s first same]⟩
        rw [List.mem_cons]
        rintro (rfl | mem)
        · exact same rfl
        · exact absent mem

end Tallies
end CadsTunnel.Machine
