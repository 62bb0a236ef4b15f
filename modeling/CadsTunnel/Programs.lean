import Mathlib

/-! Programs that call a shared state one call at a time, while other programs do the same
in between. `Holds` is what such a program guarantees at its end, whatever the others do
within `rely` and whatever the world answers within `meets`. `Paths` speaks of calls and
replies alone, for what does not depend on the state. -/
namespace CadsTunnel

inductive Program (Call : Type) (Reply : Call → Type) (α : Type) where
  | done (result : α)
  | call (c : Call) (next : Reply c → Program Call Reply α)

/- Programs that may stop with an error; `?` is the bind. -/
abbrev Fallible (Call : Type) (Reply : Call → Type) (Error α : Type) := ExceptT Error (Program Call Reply) α

namespace Program
variable {Call : Type} {Reply : Call → Type} {α β Error : Type}

def bind : Program Call Reply α → (α → Program Call Reply β) → Program Call Reply β
  | .done a, f => f a
  | .call c next, f => .call c (fun reply => (next reply).bind f)

instance : Monad (Program Call Reply) where
  pure := .done
  bind := bind

def ask (c : Call) : Program Call Reply (Reply c) := .call c .done

/- A call that cannot fail, within a program that can. -/
def query (c : Call) : Fallible Call Reply Error (Reply c) := ExceptT.lift (ask c)

section Runs
variable {State World : Type} (perform : State → (c : Call) → World → Reply c × State)

variable (rely : State → State → Prop) (meets : State → Call → World → Prop)

def Holds (post : α → State → Prop) : Program Call Reply α → State → Prop
  | .done a, s => post a s
  | .call c next, s => ∀ m world, rely s m → meets m c world → Holds post (next (perform m c world).1) (perform m c world).2

variable {perform rely meets}

theorem holdsMono {post weaker : α → State → Prop} (implies : ∀ a s, post a s → weaker a s) {p : Program Call Reply α} {s : State}
    (holds : Holds perform rely meets post p s) : Holds perform rely meets weaker p s := by
  induction p generalizing s with
  | done a => exact implies a s holds
  | call c next ih => exact fun m world moved met => ih _ (holds m world moved met)

theorem holdsBind {post : β → State → Prop} {f : α → Program Call Reply β} {p : Program Call Reply α} {s : State}
    (first : Holds perform rely meets (fun a s => Holds perform rely meets post (f a) s) p s) :
    Holds perform rely meets post (p >>= f) s := by
  induction p generalizing s with
  | done a => exact first
  | call c next ih => exact fun m world moved met => ih _ (first m world moved met)

theorem holdsTry (mid : α → State → Prop) {post : Except Error β → State → Prop} {f : α → Fallible Call Reply Error β}
    {x : Fallible Call Reply Error α} {s : State}
    (first : Holds perform rely meets (fun
      | .ok a, s => mid a s
      | .error e, s => post (.error e) s) x.run s)
    (next : ∀ a s, mid a s → Holds perform rely meets post (f a).run s) : Holds perform rely meets post (x >>= f).run s := by
  refine holdsBind (holdsMono ?_ first)
  rintro (e | a) s holds
  · exact holds
  · exact next a s holds

theorem holdsQuery {post : Except Error β → State → Prop} {c : Call} {f : Reply c → Fallible Call Reply Error β} {s : State}
    (next : ∀ m world, rely s m → meets m c world →
      Holds perform rely meets post (f (perform m c world).1).run (perform m c world).2) :
    Holds perform rely meets post (query c >>= f).run s := next

/- What the others do in between changes nothing about a program that is under way, nor about a stable end. -/
theorem holdsStable (transitive : ∀ a b c, rely a b → rely b c → rely a c) {post : α → State → Prop}
    (stable : ∀ a s m, rely s m → post a s → post a m) {p : Program Call Reply α} {s m : State} (moved : rely s m)
    (holds : Holds perform rely meets post p s) : Holds perform rely meets post p m := by
  cases p with
  | done a => exact stable a s m moved holds
  | call c next => exact fun n world later met => holds n world (transitive s m n moved later) met

end Runs

/- Every call on the way is allowed and, as long as the replies are good, so is the end. -/
def Paths (allowed : Call → Prop) (good : (c : Call) → Reply c → Prop) (post : α → Prop) : Program Call Reply α → Prop
  | .done a => post a
  | .call c next => allowed c ∧ ∀ reply, good c reply → Paths allowed good post (next reply)

variable {allowed : Call → Prop} {good : (c : Call) → Reply c → Prop}

theorem pathsBind {mid : α → Prop} {post : β → Prop} {f : α → Program Call Reply β} {p : Program Call Reply α}
    (first : Paths allowed good mid p) (next : ∀ a, mid a → Paths allowed good post (f a)) :
    Paths allowed good post (p >>= f) := by
  induction p with
  | done a => exact next a first
  | call c following ih => exact ⟨first.1,fun reply fine => ih reply (first.2 reply fine)⟩

theorem pathsTry (mid : α → Prop) {post : Except Error β → Prop} {f : α → Fallible Call Reply Error β}
    {x : Fallible Call Reply Error α}
    (first : Paths allowed good (fun
      | .ok a => mid a
      | .error e => post (.error e)) x.run)
    (next : ∀ a, mid a → Paths allowed good post (f a).run) : Paths allowed good post (x >>= f).run := by
  refine pathsBind first ?_
  rintro (e | a) holds
  · exact holds
  · exact next a holds

/- An assertion that the others keep and that every allowed call keeps holds at the end. -/
theorem holdsPaths {State World : Type} {perform : State → (c : Call) → World → Reply c × State}
    {rely : State → State → Prop} {meets : State → Call → World → Prop} (inv : State → Prop) {post : α → Prop}
    (stable : ∀ s m, rely s m → inv s → inv m)
    (keeps : ∀ s c world, allowed c → inv s → inv (perform s c world).2)
    (answers : ∀ s c world, good c (perform s c world).1)
    {p : Program Call Reply α} {s : State} (paths : Paths allowed good post p) (start : inv s) :
    Holds perform rely meets (fun a s => post a ∧ inv s) p s := by
  induction p generalizing s with
  | done a => exact ⟨paths,start⟩
  | call c next ih =>
    intro m world moved _
    exact ih _ (paths.2 _ (answers m c world)) (keeps m c world paths.1 (stable s m moved start))

/- At most so many calls, on every path. -/
def Ends : Program Call Reply α → Nat → Prop
  | .done _, _ => True
  | .call _ next, n => ∃ m, n = m + 1 ∧ ∀ reply, Ends (next reply) m

theorem endsMono {p : Program Call Reply α} {m n : Nat} (ends : Ends p m) (atMost : m ≤ n) : Ends p n := by
  induction p generalizing m n with
  | done a => trivial
  | call c next ih =>
    obtain ⟨k,rfl,ends⟩ := ends
    exact ⟨n - 1,by omega,fun reply => ih reply (ends reply) (by omega)⟩

theorem endsBind {f : α → Program Call Reply β} {p : Program Call Reply α} {m n : Nat} (first : Ends p m)
    (next : ∀ a, Ends (f a) n) : Ends (p >>= f) (m + n) := by
  induction p generalizing m with
  | done a => exact endsMono (next a) (Nat.le_add_left n m)
  | call c following ih =>
    obtain ⟨k,rfl,first⟩ := first
    exact ⟨k + n,by omega,fun reply => ih reply (first reply)⟩

theorem endsQuery {c : Call} {f : Reply c → Fallible Call Reply Error β} {n : Nat} (next : ∀ reply, Ends (f reply).run n) :
    Ends (query c >>= f).run (n + 1) := ⟨n,rfl,next⟩

theorem endsAsk (c : Call) : Ends (ask c : Program Call Reply (Reply c)) 1 := ⟨0,rfl,fun _ => trivial⟩

end Program
end CadsTunnel
