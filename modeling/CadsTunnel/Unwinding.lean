import CadsTunnel.Sql
import CadsTunnel.Machine

/-! What cannot be told apart. A session is blind to a link between two databases if, run on
linked tables and under the same failures, it gives the same answer and leaves linked
tables; whatever is put together from such sessions is blind as well. A machine whose
visible calls are blind, and whose hidden ones keep the link on their own, answers as if
the hidden calls had never been made. -/
namespace CadsTunnel.Sql

section Blindness
variable {State Error α β : Type} [FromSql Error] {linked : State → State → Prop}

def Blind (linked : State → State → Prop) (x : Session State Error α) : Prop :=
  ∀ s t, linked s t → Alike x x s t (fun r m r' n => r = r' ∧ linked m n)

omit [FromSql Error] in
theorem blindPure (a : α) : Blind linked (pure a : Session State Error α) := fun _ _ link => alikePure ⟨rfl,link⟩

omit [FromSql Error] in
theorem blindThrow (e : Error) : Blind linked (throw e : Session State Error α) := fun _ _ link _ => ⟨⟨rfl,link⟩,rfl⟩

omit [FromSql Error] in
theorem blindBind {x : Session State Error α} {f : α → Session State Error β} (first : Blind linked x) (next : ∀ a, Blind linked (f a)) :
    Blind linked (x >>= f) := by
  intro s t link faults
  obtain ⟨⟨same,still⟩,left⟩ := first s t link faults
  have opened : ∀ u, (x >>= f) (u,faults) = ExceptT.bindCont f (x (u,faults)).1 (x (u,faults)).2 := fun _ => rfl
  obtain ⟨⟨answer,⟨m,rest⟩⟩,run⟩ : ∃ out, x (s,faults) = out := ⟨_,rfl⟩
  obtain ⟨⟨answer',⟨n,rest'⟩⟩,run'⟩ : ∃ out, x (t,faults) = out := ⟨_,rfl⟩
  rw [opened, opened, run, run']
  simp only [run, run'] at same still left
  subst same left
  cases answer with
  | error e => exact ⟨⟨rfl,still⟩,rfl⟩
  | ok a => exact next a m n still rest

theorem blindStatement {f : State → Except SqlError (α × State)} (same : ∀ s t, linked s t → (f s).map Prod.fst = (f t).map Prod.fst)
    (keeps : ∀ s t a b m n, linked s t → f s = .ok (a,m) → f t = .ok (b,n) → linked m n) :
    Blind linked (statement f : Session State Error α) := by
  intro s t link faults
  have agree := same s t link
  rw [statement, statement]
  split
  · exact ⟨⟨rfl,link⟩,rfl⟩
  · cases ran : f s with
    | error e =>
      cases also : f t with
      | error e' =>
        rw [ran, also] at agree
        cases agree
        exact ⟨⟨rfl,link⟩,rfl⟩
      | ok out =>
        rw [ran, also] at agree
        cases agree
    | ok out =>
      cases also : f t with
      | error e' =>
        rw [ran, also] at agree
        cases agree
      | ok out' =>
        rw [ran, also] at agree
        have first : out.1 = out'.1 := Except.ok.inj agree
        exact ⟨⟨congrArg Except.ok first,keeps s t out.1 out'.1 out.2 out'.2 link ran also⟩,rfl⟩

theorem blindRead {f : State → Except SqlError α} (same : ∀ s t, linked s t → f s = f t) :
    Blind linked (statement (fun s => (f s).map (fun a => (a,s))) : Session State Error α) := by
  refine blindStatement ?_ ?_
  · intro s t link
    rw [same s t link]
    cases f t <;> rfl
  · intro s t a b m n link ran also
    obtain ⟨_,_,left⟩ := Machine.mapOk.mp ran
    obtain ⟨_,_,right⟩ := Machine.mapOk.mp also
    cases left
    cases right
    exact link

theorem blindSelect {f : State → α} (same : ∀ s t, linked s t → f s = f t) : Blind linked (select f : Session State Error α) :=
  blindRead (fun s t link => congrArg Except.ok (same s t link))

theorem blindExecute {f : State → α × State} (same : ∀ s t, linked s t → (f s).1 = (f t).1)
    (keeps : ∀ s t, linked s t → linked (f s).2 (f t).2) : Blind linked (execute f : Session State Error α) := by
  refine blindStatement (fun s t link => congrArg Except.ok (same s t link)) ?_
  intro s t a b m n link ran also
  have left : m = (f s).2 := congrArg Prod.snd (Except.ok.inj ran).symm
  have right : n = (f t).2 := congrArg Prod.snd (Except.ok.inj also).symm
  rw [left, right]
  exact keeps s t link

theorem blindTransaction {body : Session State Error (Left α)} (blind : Blind linked body) : Blind linked (transaction body) := by
  intro s t link faults
  rw [transaction, transaction]
  split
  · exact ⟨⟨rfl,link⟩,rfl⟩
  · obtain ⟨⟨same,still⟩,left⟩ := blind s t link faults.tail
    obtain ⟨⟨answer,⟨m,rest⟩⟩,run⟩ : ∃ out, body (s,faults.tail) = out := ⟨_,rfl⟩
    obtain ⟨⟨answer',⟨n,rest'⟩⟩,run'⟩ : ∃ out, body (t,faults.tail) = out := ⟨_,rfl⟩
    rw [run, run']
    simp only [run, run'] at same still left
    subst same left
    cases answer with
    | error e => exact ⟨⟨rfl,link⟩,rfl⟩
    | ok outcome =>
      cases outcome with
      | rollback a => exact ⟨⟨rfl,link⟩,rfl⟩
      | commit a =>
        dsimp only
        split
        · exact ⟨⟨rfl,link⟩,rfl⟩
        · exact ⟨⟨rfl,still⟩,rfl⟩

omit [FromSql Error] in
theorem blindAttempt {x : Session State Error α} (blind : Blind linked x) : Blind linked (attempt x) := by
  intro s t link faults
  obtain ⟨⟨same,still⟩,left⟩ := blind s t link faults
  exact ⟨⟨congrArg Except.ok same,still⟩,left⟩

omit [FromSql Error] in
theorem blindLoop {f : β → α → Session State Error β} (each : ∀ b a, Blind linked (f b a)) (xs : List α) (b : β) :
    Blind linked (xs.foldlM f b) := by
  induction xs generalizing b with
  | nil => exact blindPure b
  | cons x xs ih =>
    rw [List.foldlM_cons]
    exact blindBind (each b x) ih

omit [FromSql Error] in
theorem blindPerform {x : Session State Error α} (blind : Blind linked x) {s t : State} (link : linked s t) (faults : List Bool) :
    (perform x s faults).1 = (perform x t faults).1 ∧ linked (perform x s faults).2 (perform x t faults).2 := (blind s t link faults).1

end Blindness
end CadsTunnel.Sql

namespace CadsTunnel.Machine

section Hidden
variable {State Call Reply : Type} (step : State → Call → Reply × State) (hidden : Call → Bool)

/- What is answered to the calls that are not hidden. -/
def heard (s : State) (calls : List Call) : List Reply :=
  log step (fun s call => if hidden call then [] else [(step s call).1]) s calls

variable {step hidden}

/- The link may speak of the calls that are still to come. -/
theorem unwinding {linked : List Call → State → State → Prop}
    (visible : ∀ call rest s t, hidden call = false → linked (call :: rest) s t →
      (step s call).1 = (step t call).1 ∧ linked rest (step s call).2 (step t call).2)
    (unseen : ∀ call rest s t, hidden call = true → linked (call :: rest) s t → linked rest (step s call).2 t) {calls : List Call} {s t : State}
    (start : linked calls s t) :
    heard step hidden s calls = heard step hidden t (calls.filter (!hidden ·)) ∧
      linked [] (run step s calls) (run step t (calls.filter (!hidden ·))) := by
  induction calls generalizing s t with
  | nil => exact ⟨rfl,start⟩
  | cons call rest ih =>
    cases secret : hidden call with
    | true =>
      obtain ⟨same,link⟩ := ih (unseen call rest s t secret start)
      rw [List.filter_cons_of_neg (by simp [secret]), ← same]
      refine ⟨?_,link⟩
      simp only [heard, log, secret, if_true, List.nil_append]
    | false =>
      obtain ⟨said,next⟩ := visible call rest s t secret start
      obtain ⟨same,link⟩ := ih next
      rw [List.filter_cons_of_pos (by simp [secret])]
      refine ⟨?_,link⟩
      simp only [heard, log, secret, Bool.false_eq_true, if_false] at same ⊢
      rw [said, same]

end Hidden
end CadsTunnel.Machine
