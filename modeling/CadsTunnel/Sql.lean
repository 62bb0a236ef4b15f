import CadsTunnel.OrderedMap

/-! Sessions on a database of tables. A table is a map from its primary key to the other
columns. A statement may fail and then changes nothing; a transaction that does not commit
changes nothing either. `Ends` is what a session guarantees whichever of its statements
fail. -/
namespace CadsTunnel.Sql
open OrderedMap
open Std (ExtTreeMap)

inductive SqlError where
  | failure
  | constraint
  | conversion (text : String)
  | noRows
  | outOfRange (column : Nat) (value : Int)
  deriving DecidableEq, Repr

/- Errors into which a database error is turned by `?`. -/
class FromSql (Error : Type) where
  db : SqlError → Error

instance : FromSql SqlError := ⟨id⟩

/- The tables, and for the coming statements whether each of them fails. -/
abbrev Session (State Error α : Type) := ExceptT Error (StateM (State × List Bool)) α

/- How a transaction is left: `COMMIT`, or its drop. -/
inductive Left (α : Type) where
  | commit (result : α)
  | rollback (result : α)

section Sessions
variable {State Error α β : Type} [FromSql Error]

def statement (f : State → Except SqlError (α × State)) : Session State Error α := fun (s,faults) =>
  if faults.headD false then (.error (FromSql.db .failure),(s,faults.tail))
  else
    match f s with
    | .ok (a,next) => (.ok a,(next,faults.tail))
    | .error e => (.error (FromSql.db e),(s,faults.tail))

def select (f : State → α) : Session State Error α := statement (fun s => .ok (f s,s))

def execute (f : State → α × State) : Session State Error α := statement (fun s => .ok (f s))

def transaction (body : Session State Error (Left α)) : Session State Error α := fun (s,faults) =>
  if faults.headD false then (.error (FromSql.db .failure),(s,faults.tail))
  else
    match body (s,faults.tail) with
    | (.ok (.commit a),(next,rest)) =>
      if rest.headD false then (.error (FromSql.db .failure),(s,rest.tail)) else (.ok a,(next,rest.tail))
    | (.ok (.rollback a),(_,rest)) => (.ok a,(s,rest))
    | (.error e,(_,rest)) => (.error e,(s,rest))

/- A step beside the database, which neither fails nor is rolled back unless it stands inside a transaction. -/
def memory (f : State → α × State) : Session State Error α := fun (s,faults) => (.ok (f s).1,((f s).2,faults))

/- A session whose error is handed on as its answer. -/
def attempt (x : Session State Error α) : Session State Error (Except Error α) := fun s => (.ok (x s).1,(x s).2)

def perform (x : Session State Error α) (s : State) (faults : List Bool) : Except Error α × State :=
  let (answer,(s,_)) := x (s,faults)
  (answer,s)

def Ends (x : Session State Error α) (s : State) (post : Except Error α → State → Prop) : Prop :=
  ∀ faults, post (perform x s faults).1 (perform x s faults).2

variable {s : State} {post : Except Error α → State → Prop}

omit [FromSql Error] in
theorem endsMono {x : Session State Error α} {weaker : Except Error α → State → Prop} (ends : Ends x s post)
    (implies : ∀ r m, post r m → weaker r m) : Ends x s weaker := fun faults => implies _ _ (ends faults)

omit [FromSql Error] in
theorem endsPure {a : α} (holds : post (.ok a) s) : Ends (pure a : Session State Error α) s post := fun _ => holds

omit [FromSql Error] in
theorem endsThrow {e : Error} (holds : post (.error e) s) : Ends (throw e : Session State Error α) s post := fun _ => holds

omit [FromSql Error] in
theorem endsBind (mid : α → State → Prop) {x : Session State Error α} {f : α → Session State Error β}
    {post : Except Error β → State → Prop}
    (first : Ends x s (fun
      | .ok a, m => mid a m
      | .error e, m => post (.error e) m))
    (next : ∀ a m, mid a m → Ends (f a) m post) : Ends (x >>= f) s post := by
  intro faults
  have ran := first faults
  obtain ⟨⟨answer,⟨m,rest⟩⟩,run⟩ : ∃ out, x (s,faults) = out := ⟨_,rfl⟩
  simp only [perform, run] at ran
  have whole : (x >>= f) (s,faults) = ExceptT.bindCont f answer (m,rest) := by
    show ExceptT.bindCont f (x (s,faults)).1 (x (s,faults)).2 = _
    rw [run]
  simp only [perform, whole]
  cases answer with
  | error e => exact ran
  | ok a => exact next a m ran rest

theorem startStatement (f : State → Except SqlError (α × State)) (next : α → Session State Error β) (s : State) (faults : List Bool) :
    (statement f >>= next) (s,faults) =
      if faults.headD false then (.error (FromSql.db .failure),(s,faults.tail))
      else
        match f s with
        | .ok (a,m) => next a (m,faults.tail)
        | .error e => (.error (FromSql.db e),(s,faults.tail)) := by
  show ExceptT.bindCont next (statement f (s,faults)).1 (statement f (s,faults)).2 = _
  rw [statement]
  split
  · rfl
  · cases f s <;> rfl

theorem performStatement (f : State → Except SqlError (α × State)) (next : α → Session State Error β) (s : State) (faults : List Bool) :
    perform (statement f >>= next) s faults =
      if faults.headD false then (.error (FromSql.db .failure),s)
      else
        match f s with
        | .ok (a,m) => perform (next a) m faults.tail
        | .error e => (.error (FromSql.db e),s) := by
  have opened : perform (statement f >>= next) s faults =
      (((statement f >>= next) (s,faults)).1,((statement f >>= next) (s,faults)).2.1) := rfl
  rw [opened, startStatement]
  split
  · rfl
  · cases f s <;> rfl

theorem performExecute (f : State → α × State) (next : α → Session State Error β) (s : State) (faults : List Bool) :
    perform (execute f >>= next) s faults =
      if faults.headD false then (.error (FromSql.db .failure),s) else perform (next (f s).1) (f s).2 faults.tail :=
  performStatement _ next s faults

theorem endsStatement {f : State → Except SqlError (α × State)} {next : α → Session State Error β}
    {post : Except Error β → State → Prop} (fails : post (.error (FromSql.db .failure)) s)
    (refused : ∀ e, f s = .error e → post (.error (FromSql.db e)) s)
    (goes : ∀ a m, f s = .ok (a,m) → Ends (next a) m post) : Ends (statement f >>= next) s post := by
  intro faults
  rw [performStatement]
  split
  · exact fails
  · split
    case h_1 a m run => exact goes a m run faults.tail
    case h_2 e run => exact refused e run

theorem endsSelect {f : State → α} {next : α → Session State Error β} {post : Except Error β → State → Prop}
    (fails : post (.error (FromSql.db .failure)) s) (goes : Ends (next (f s)) s post) : Ends (select f >>= next) s post := by
  refine endsStatement fails nofun ?_
  rintro a m ⟨⟩
  exact goes

theorem endsExecute {f : State → α × State} {next : α → Session State Error β} {post : Except Error β → State → Prop}
    (fails : post (.error (FromSql.db .failure)) s) (goes : Ends (next (f s).1) (f s).2 post) :
    Ends (execute f >>= next) s post := by
  refine endsStatement fails nofun ?_
  intro a m run
  rw [Except.ok.inj run] at goes
  exact goes

omit [FromSql Error] in
theorem endsMemory {f : State → α × State} {next : α → Session State Error β} {post : Except Error β → State → Prop}
    (goes : Ends (next (f s).1) (f s).2 post) : Ends (memory f >>= next) s post := fun faults => goes faults

omit [FromSql Error] in
theorem endsAttempt {x : Session State Error α} {next : Except Error α → Session State Error β} {post : Except Error β → State → Prop}
    (ends : Ends x s (fun r m => Ends (next r) m post)) : Ends (attempt x >>= next) s post :=
  fun faults => ends faults (x (s,faults)).2.2

omit [FromSql Error] in
/- A session whose answer is handed on under another name. -/
theorem endsGives {x : Session State Error α} {f : α → β} {post : Except Error β → State → Prop}
    (ends : Ends x s (fun r m => post (r.map f) m)) : Ends (x >>= fun a => pure (f a)) s post := by
  refine endsBind (fun a m => post (.ok (f a)) m) (endsMono ends ?_) (fun _ _ held => endsPure held)
  intro r m held
  cases r with
  | error e => exact held
  | ok a => exact held

omit [FromSql Error] in
/- A session that ends with a statement. -/
theorem endsLast {x : Session State Error α} (ends : Ends (x >>= pure) s post) : Ends x s post := by
  rwa [bind_pure] at ends

omit [FromSql Error] in
/- A loop over what a query has returned; its first error ends it. -/
theorem endsLoop (inv : List α → β → State → Prop) {f : β → α → Session State Error β} {xs : List α} {b : β}
    {post : Except Error β → State → Prop} (start : inv [] b s)
    (each : ∀ before x after b m, xs = before ++ x :: after → inv before b m → Ends (f b x) m (fun
      | .ok b, m => inv (before ++ [x]) b m
      | .error e, m => post (.error e) m))
    (done : ∀ b m, inv xs b m → post (.ok b) m) : Ends (xs.foldlM f b) s post := by
  have rest : ∀ after before b m, xs = before ++ after → inv before b m → Ends (after.foldlM f b) m post := by
    intro after
    induction after with
    | nil =>
      intro before b m split held
      rw [List.append_nil] at split
      exact endsPure (done b m (split ▸ held))
    | cons x after ih =>
      intro before b m split held
      rw [List.foldlM_cons]
      refine endsBind (fun b m => inv (before ++ [x]) b m) (each before x after b m split held) ?_
      intro b m held
      exact ih (before ++ [x]) b m (by rw [split, List.append_assoc]; rfl) held
  exact rest xs [] b s rfl start

theorem endsTransaction {body : Session State Error (Left α)} (fails : post (.error (FromSql.db .failure)) s)
    (ends : Ends body s (fun
      | .ok (.commit a), m => post (.ok a) m
      | .ok (.rollback a), _ => post (.ok a) s
      | .error e, _ => post (.error e) s)) : Ends (transaction body) s post := by
  intro faults
  have ran := ends faults.tail
  cases fault : faults.headD false with
  | true =>
    simp only [perform, transaction, fault, if_true]
    exact fails
  | false =>
    obtain ⟨⟨answer,⟨m,rest⟩⟩,run⟩ : ∃ out, body (s,faults.tail) = out := ⟨_,rfl⟩
    simp only [perform, run] at ran
    simp only [perform, transaction, fault, run, Bool.false_eq_true, if_false]
    match answer with
    | .error e => exact ran
    | .ok (.rollback a) => exact ran
    | .ok (.commit a) =>
      cases last : rest.headD false with
      | true =>
        simp only [last, if_true]
        exact fails
      | false =>
        simp only [last, Bool.false_eq_true, if_false]
        exact ran

end Sessions

/- An unsigned number in an `INTEGER` column wraps into the signed range. -/
def asI64 (v : UInt64) : Int := if v.toNat < 2 ^ 63 then v.toNat else v.toNat - 2 ^ 64

theorem asI64Small {v : UInt64} (small : v.toNat < 2 ^ 63) : asI64 v = v.toNat := if_pos small

theorem asI64Large {v : UInt64} (large : ¬v.toNat < 2 ^ 63) : asI64 v < 0 := by
  have bound := v.toNat_lt
  rw [asI64, if_neg large]
  omega

/- The cast back, the wrapping of a result into the signed range, and the sum that stays within it. -/
def asU64 (i : Int) : UInt64 := .ofNat (i % 2 ^ 64).toNat

def wrapI64 (i : Int) : Int := i.bmod (2 ^ 64)

def saturatingAddI64 (a b : Int) : Int := max (-2 ^ 63) (min (a + b) (2 ^ 63 - 1))

theorem asU64Nat {i : Int} (nonneg : 0 ≤ i) (small : i < 2 ^ 63) : ((asU64 i).toNat : Int) = i := by
  have exact' : i % 2 ^ 64 = i := Int.emod_eq_of_lt nonneg (by omega)
  rw [asU64, UInt64.toNat_ofNat', exact', Nat.mod_eq_of_lt (by omega)]
  omega

theorem wrapI64Small {i : Int} (low : 0 ≤ i) (high : i < 2 ^ 63) : wrapI64 i = i := by
  rw [wrapI64, Int.bmod_eq_of_le] <;> omega

/- A column of whole numbers that only grow. A sum beyond the signed range leaves the integers and is no longer read as one. -/
abbrev Counter := Option Nat

def Counter.add (c : Counter) (delta : Nat) : Counter := c.bind (fun n => if n + delta < 2 ^ 63 then some (n + delta) else none)

section Tables
variable {K V : Type} [Ord K] [Std.TransOrd K]

/- The writing statements; the number is the one of the rows they touch. -/
def deleteWhere (p : K → V → Bool) (t : BTreeMap K V) : Nat × BTreeMap K V :=
  ((t.filter p).size,t.filter (fun k v => !p k v))

def updateWhere (p : K → V → Bool) (change : V → V) (t : BTreeMap K V) : Nat × BTreeMap K V :=
  ((t.filter p).size,t.map (fun k v => if p k v then change v else v))

/- Whether a query for the rows with a property finds one. -/
def hasRow (p : K → V → Bool) (t : BTreeMap K V) : Bool := 0 < (t.filter p).size

/- The row that a query for one finds; where several have the property, a query that does not order them may find another. -/
def firstRow (p : K → V → Bool) (t : BTreeMap K V) : Option (K × V) := t.toList.find? (fun e => p e.1 e.2)

def insertOrIgnore (k : K) (v : V) (t : BTreeMap K V) : Nat × BTreeMap K V :=
  if t.contains k then (0,t) else (1,t.insert k v)

def insertRow (k : K) (v : V) (t : BTreeMap K V) : Except SqlError (BTreeMap K V) :=
  if t.contains k then .error .constraint else .ok (t.insert k v)

variable [Std.LawfulEqOrd K]

theorem lookupDeleted (p : K → V → Bool) (t : BTreeMap K V) (k : K) :
    (deleteWhere p t).2[k]? = t[k]?.filter (fun v => !p k v) := ExtTreeMap.getElem?_filter'

theorem lookupUpdated (p : K → V → Bool) (change : V → V) (t : BTreeMap K V) (k : K) :
    (updateWhere p change t).2[k]? = t[k]?.map (fun v => if p k v then change v else v) := ExtTreeMap.getElem?_map

/- A statement that touched rows found one. -/
theorem touchedRow {p : K → V → Bool} {t : BTreeMap K V} (touched : 0 < (t.filter p).size) : ∃ k v, t[k]? = some v ∧ p k v := by
  have occupied : t.filter p ≠ ∅ := fun empty => absurd (ExtTreeMap.eq_empty_iff_size_eq_zero.mp empty) (by omega)
  obtain ⟨k,present⟩ := not_forall_not.mp (mt ExtTreeMap.eq_empty_iff_forall_not_mem.mpr occupied)
  obtain ⟨v,found⟩ := Option.isSome_iff_exists.mp (ExtTreeMap.mem_iff_isSome_getElem?.mp present)
  rw [ExtTreeMap.getElem?_filter', Option.filter_eq_some_iff] at found
  exact ⟨k,v,found⟩

theorem hasRowIff {p : K → V → Bool} {t : BTreeMap K V} : hasRow p t = true ↔ ∃ k v, t[k]? = some v ∧ p k v := by
  rw [hasRow, decide_eq_true_eq]
  constructor
  · exact touchedRow
  · rintro ⟨k,v,found,hit⟩
    refine Nat.pos_of_ne_zero ?_
    intro empty
    have kept : (t.filter p)[k]? = some v := by
      rw [ExtTreeMap.getElem?_filter', found]
      simp [hit]
    rw [ExtTreeMap.eq_empty_iff_size_eq_zero.mpr empty] at kept
    simp at kept

theorem firstRowSome {p : K → V → Bool} {t : BTreeMap K V} {k : K} {v : V} (found : firstRow p t = some (k,v)) : t[k]? = some v ∧ p k v :=
  ⟨ExtTreeMap.mem_toList_iff_getElem?_eq_some.mp (List.mem_of_find?_eq_some found),by simpa using List.find?_some found⟩

theorem firstRowNone {p : K → V → Bool} {t : BTreeMap K V} (missing : firstRow p t = none) {k : K} {v : V} (found : t[k]? = some v) : ¬p k v :=
  List.find?_eq_none.mp missing (k,v) (ExtTreeMap.mem_toList_iff_getElem?_eq_some.mpr found)

/- A change that a property does not see leaves the row that is found, changed. -/
theorem firstRowUpdated {p q hit : K → V → Bool} {change : V → V} {t : BTreeMap K V}
    (blind : ∀ k v, t[k]? = some v → q k (if hit k v then change v else v) = p k v) :
    firstRow q (updateWhere hit change t).2 = (firstRow p t).map (fun e => (e.1,if hit e.1 e.2 then change e.2 else e.2)) := by
  unfold firstRow updateWhere
  rw [ExtTreeMap.toList_map, List.find?_map]
  refine congrArg _ (List.find?_congr ?_)
  rintro ⟨k,v⟩ mem
  exact blind k v (ExtTreeMap.mem_toList_iff_getElem?_eq_some.mp mem)

theorem updatedNone {p : K → V → Bool} {t : BTreeMap K V} (missed : ∀ k v, t[k]? = some v → ¬p k v) (change : V → V) :
    (updateWhere p change t).2 = t := by
  refine ExtTreeMap.ext_getElem? ?_
  intro k
  rw [lookupUpdated]
  cases found : t[k]? with
  | none => rfl
  | some v => rw [Option.map_some, if_neg (missed k v found)]

/- Statements about the row with one key. -/
theorem updatedRow [DecidableEq K] (k : K) (change : V → V) (t : BTreeMap K V) :
    (updateWhere (fun a _ => a = k) change t).2 = (t[k]?.map (fun v => t.insert k (change v))).getD t := by
  refine ExtTreeMap.ext_getElem? ?_
  intro a
  rw [lookupUpdated]
  cases found : t[k]? with
  | none =>
    rw [Option.map_none, Option.getD_none]
    by_cases same : a = k
    · rw [same, found, Option.map_none]
    · simp [same]
  | some v =>
    rw [Option.map_some, Option.getD_some, lookupInsert]
    by_cases same : a = k
    · simp [same, found]
    · simp [same]

theorem deletedRow [DecidableEq K] (k : K) (q : V → Bool) (t : BTreeMap K V) :
    (deleteWhere (fun a v => a = k && q v) t).2 = if t[k]?.any q then t.erase k else t := by
  refine ExtTreeMap.ext_getElem? ?_
  intro a
  rw [lookupDeleted]
  by_cases same : a = k
  · subst same
    cases found : t[a]? with
    | none => simp [found]
    | some v => cases hit : q v <;> simp [found, hit]
  · have kept : t[a]?.filter (fun v => !(decide (a = k) && q v)) = t[a]? := by
      cases t[a]? <;> simp [same]
    rw [kept]
    split
    · rw [lookupErase, if_neg same]
    · rfl

theorem deletedKey [DecidableEq K] (k : K) (t : BTreeMap K V) : (deleteWhere (fun a _ => a = k) t).2 = t.erase k := by
  refine ExtTreeMap.ext_getElem? ?_
  intro a
  rw [lookupDeleted, lookupErase]
  cases t[a]? <;> by_cases same : a = k <;> simp [same]

/- How many rows a statement about one of them touches. -/
theorem touchedOne [DecidableEq K] (k : K) (q : V → Bool) (t : BTreeMap K V) :
    (t.filter (fun a v => a = k && q v)).size = if (t[k]?.filter q).isSome then 1 else 0 := by
  rw [Option.isSome_filter]
  split
  case isTrue hit =>
    obtain ⟨v,found,holds⟩ := (Option.any_eq_true _ _).mp hit
    have one : t.filter (fun a v => a = k && q v) = (∅ : BTreeMap K V).insert k v := by
      refine ExtTreeMap.ext_getElem? ?_
      intro a
      rw [ExtTreeMap.getElem?_filter', lookupInsert]
      by_cases same : a = k
      · simp [same, found, holds]
      · simp [same]
    rw [one, ExtTreeMap.size_insert]
    simp
  case isFalse miss =>
    by_contra touched
    obtain ⟨a,v,found,hit⟩ := touchedRow (Nat.pos_of_ne_zero touched)
    rw [Bool.and_eq_true, decide_eq_true_eq] at hit
    obtain ⟨rfl,holds⟩ := hit
    rw [found] at miss
    exact miss holds

theorem updatedOne [DecidableEq K] (k : K) (q : V → Bool) (change : V → V) (t : BTreeMap K V) :
    (updateWhere (fun a v => a = k && q v) change t).2 = ((t[k]?.filter q).map (fun v => t.insert k (change v))).getD t := by
  refine ExtTreeMap.ext_getElem? ?_
  intro a
  rw [lookupUpdated]
  cases mine : t[k]?.filter q with
  | none =>
    rw [Option.map_none, Option.getD_none]
    cases found : t[a]? with
    | none => rfl
    | some v =>
      rw [Option.map_some, if_neg]
      rw [Bool.and_eq_true, decide_eq_true_eq]
      rintro ⟨rfl,holds⟩
      rw [found, Option.filter_some, if_pos holds] at mine
      contradiction
  | some v =>
    obtain ⟨found,holds⟩ := Option.filter_eq_some_iff.mp mine
    rw [Option.map_some, Option.getD_some, lookupInsert]
    by_cases same : a = k
    · simp [same, found, holds]
    · simp [same]

theorem deletedAny [DecidableEq K] (k : K) (q : V → Bool) (t : BTreeMap K V) :
    0 < (deleteWhere (fun a v => a = k && q v) t).1 ↔ t[k]?.any q := by
  rw [deleteWhere, touchedOne, Option.isSome_filter]
  split
  case isTrue hit => simpa using hit
  case isFalse miss => simpa using miss

omit [Std.LawfulEqOrd K] in
theorem insertedRow {k : K} {v : V} {t next : BTreeMap K V} (ok : insertRow k v t = .ok next) : t[k]? = none ∧ next = t.insert k v := by
  rw [insertRow] at ok
  split at ok
  · contradiction
  · rename_i absent
    rw [ExtTreeMap.contains_eq_isSome_getElem?, Bool.not_eq_true, Option.isSome_eq_false_iff, Option.isNone_iff_eq_none] at absent
    exact ⟨absent,(Except.ok.inj ok).symm⟩

end Tables

/- The statements that insert one row, and those that read something that may not be there. -/
section Rows
variable {State Error α β K V : Type} [FromSql Error] [Ord K] [Std.TransOrd K] [Std.LawfulEqOrd K] {s : State}
  {post : Except Error β → State → Prop}

omit [Std.LawfulEqOrd K] in
theorem endsInsert {k : K} {v : V} {table : State → BTreeMap K V} {put : BTreeMap K V → State → State} {next : Unit → Session State Error β}
    (fails : ∀ e, post (.error (FromSql.db e)) s)
    (goes : (table s)[k]? = none → Ends (next ()) (put ((table s).insert k v) s) post) :
    Ends (statement (fun s => (insertRow k v (table s)).map (fun rows => ((),put rows s))) >>= next) s post := by
  refine endsStatement (fails _) (fun e _ => fails e) ?_
  intro _ m inserted
  cases taken : insertRow k v (table s) with
  | error e => simp [taken, Except.map] at inserted
  | ok rows =>
    obtain ⟨absent,rfl⟩ := insertedRow taken
    simp only [taken, Except.map, Except.ok.injEq, Prod.mk.injEq, true_and] at inserted
    rw [← inserted]
    exact goes absent

omit [Std.LawfulEqOrd K] in
/- The same under a unique index beside the key. -/
theorem endsInsertUnless {k : K} {v : V} {taken : State → Bool} {table : State → BTreeMap K V} {put : BTreeMap K V → State → State}
    {next : Unit → Session State Error β} (fails : ∀ e, post (.error (FromSql.db e)) s)
    (goes : (table s)[k]? = none → taken s = false → Ends (next ()) (put ((table s).insert k v) s) post) :
    Ends (statement (fun s => if taken s then .error .constraint
      else (insertRow k v (table s)).map (fun rows => ((),put rows s))) >>= next) s post := by
  refine endsStatement (fails _) (fun e _ => fails e) ?_
  intro _ m inserted
  split at inserted <;> try contradiction
  rename_i free
  cases ok : insertRow k v (table s) with
  | error e => simp [ok, Except.map] at inserted
  | ok rows =>
    obtain ⟨absent,rfl⟩ := insertedRow ok
    simp only [ok, Except.map, Except.ok.injEq, Prod.mk.injEq, true_and] at inserted
    rw [← inserted]
    exact goes absent (by simpa using free)

omit [Ord K] [Std.TransOrd K] [Std.LawfulEqOrd K] in
theorem endsRead {f : State → Except SqlError α} {next : α → Session State Error β} (fails : ∀ e, post (.error (FromSql.db e)) s)
    (goes : ∀ a, f s = .ok a → Ends (next a) s post) :
    Ends (statement (fun s => (f s).map (fun a => (a,s))) >>= next) s post := by
  refine endsStatement (fails _) (fun e _ => fails e) ?_
  intro a m read
  cases out : f s with
  | error e => simp [out, Except.map] at read
  | ok a' =>
    simp only [out, Except.map, Except.ok.injEq, Prod.mk.injEq] at read
    rw [← read.1, ← read.2]
    exact goes a' out

end Rows
section Faultless
variable {State Error α β : Type} [FromSql Error] {s : State} {post : Except Error α → State → Prop} {n k : Nat} {faults : List Bool}

/- What a session guarantees if none of its first statements fails. -/
def Goes (n : Nat) (x : Session State Error α) (s : State) (post : Except Error α → State → Prop) : Prop :=
  ∀ k faults, true ∉ faults.take (n + k) → true ∉ (x (s,faults)).2.2.take k ∧ post (perform x s faults).1 (perform x s faults).2

theorem fewerQuiet (quiet : true ∉ faults.take (n + k)) : true ∉ faults.take k :=
  fun mem => quiet ((List.take_subset_take_left faults (by omega)) mem)

theorem headQuiet (quiet : true ∉ faults.take (n + 1)) : faults.headD false = false ∧ true ∉ faults.tail.take n := by
  cases faults with
  | nil => exact ⟨rfl,by simp⟩
  | cons fault rest =>
    rw [List.take_succ_cons, List.mem_cons, not_or] at quiet
    exact ⟨by simpa using quiet.1,quiet.2⟩

omit [FromSql Error] in
theorem goesPure {a : α} (holds : post (.ok a) s) : Goes n (pure a : Session State Error α) s post :=
  fun _ _ quiet => ⟨fewerQuiet quiet,holds⟩

omit [FromSql Error] in
theorem goesThrow {e : Error} (holds : post (.error e) s) : Goes n (throw e : Session State Error α) s post :=
  fun _ _ quiet => ⟨fewerQuiet quiet,holds⟩

omit [FromSql Error] in
theorem goesBind (mid : α → State → Prop) {m : Nat} {x : Session State Error α} {f : α → Session State Error β}
    {post : Except Error β → State → Prop}
    (first : Goes n x s (fun
      | .ok a, s => mid a s
      | .error e, s => post (.error e) s))
    (next : ∀ a s, mid a s → Goes m (f a) s post) : Goes (n + m) (x >>= f) s post := by
  intro k faults quiet
  obtain ⟨still,ran⟩ := first (m + k) faults (by rwa [← Nat.add_assoc])
  obtain ⟨⟨answer,⟨s',rest⟩⟩,run⟩ : ∃ out, x (s,faults) = out := ⟨_,rfl⟩
  simp only [perform, run] at ran still
  have whole : (x >>= f) (s,faults) = ExceptT.bindCont f answer (s',rest) := by
    show ExceptT.bindCont f (x (s,faults)).1 (x (s,faults)).2 = _
    rw [run]
  simp only [perform, whole]
  cases answer with
  | error e => exact ⟨fewerQuiet still,ran⟩
  | ok a => exact next a s' ran k rest still

theorem goesStatement {f : State → Except SqlError (α × State)} {next : α → Session State Error β} {post : Except Error β → State → Prop}
    {a : α} {m : State} (runs : f s = .ok (a,m)) (goes : Goes n (next a) m post) : Goes (1 + n) (statement f >>= next) s post := by
  refine goesBind (fun b m' => b = a ∧ m' = m) ?_ ?_
  · intro k faults quiet
    obtain ⟨calm,rest⟩ := headQuiet (by rwa [Nat.add_comm] at quiet)
    simp only [perform, statement, calm, Bool.false_eq_true, if_false, runs]
    exact ⟨rest,trivial,trivial⟩
  · rintro b m' ⟨rfl,rfl⟩
    exact goes

theorem goesExecute {f : State → α × State} {next : α → Session State Error β} {post : Except Error β → State → Prop}
    (goes : Goes n (next (f s).1) (f s).2 post) : Goes (1 + n) (execute f >>= next) s post := goesStatement rfl goes

theorem goesSelect {f : State → α} {next : α → Session State Error β} {post : Except Error β → State → Prop}
    (goes : Goes n (next (f s)) s post) : Goes (1 + n) (select f >>= next) s post := goesStatement rfl goes

theorem goesTransaction {body : Session State Error (Left α)}
    (goes : Goes n body s (fun
      | .ok (.commit a), m => post (.ok a) m
      | .ok (.rollback a), _ => post (.ok a) s
      | .error e, _ => post (.error e) s)) : Goes (1 + (n + 1)) (transaction body) s post := by
  intro k faults quiet
  obtain ⟨calm,tail⟩ := headQuiet (by rwa [Nat.add_comm 1, Nat.add_right_comm] at quiet)
  obtain ⟨still,ran⟩ := goes (k + 1) faults.tail (by rwa [Nat.add_right_comm, Nat.add_assoc] at tail)
  obtain ⟨⟨answer,⟨m,rest⟩⟩,run⟩ : ∃ out, body (s,faults.tail) = out := ⟨_,rfl⟩
  simp only [perform, run] at ran still
  simp only [perform, transaction, calm, run, Bool.false_eq_true, if_false]
  cases answer with
  | error e => exact ⟨fewerQuiet (by rwa [Nat.add_comm] at still),ran⟩
  | ok left =>
    cases left with
    | rollback a => exact ⟨fewerQuiet (by rwa [Nat.add_comm] at still),ran⟩
    | commit a =>
      obtain ⟨last,after⟩ := headQuiet still
      simp only [last, Bool.false_eq_true, if_false]
      exact ⟨after,ran⟩

omit [FromSql Error] in
/- The result of a session whose statements all go through. -/
theorem goesEnd {x : Session State Error α} (goes : Goes n x s post) (quiet : true ∉ faults.take n) :
    post (perform x s faults).1 (perform x s faults).2 := (goes 0 faults quiet).2

end Faultless
section Steady
variable {State Error α β : Type} [FromSql Error] {s m n : State} {a : α} {b : β}

/- A session that is left alone by the faults: its answer, and the tables after it. -/
def Yields (x : Session State Error α) (s : State) (a : α) (m : State) : Prop := x (s,[]) = (.ok a,(m,[]))

omit [FromSql Error] in
theorem yieldsPerform {x : Session State Error α} (yields : Yields x s a m) : perform x s [] = (.ok a,m) := by
  rw [Yields] at yields
  rw [perform, yields]

omit [FromSql Error] in
theorem yieldsPure : Yields (pure a : Session State Error α) s a s := rfl

omit [FromSql Error] in
theorem yieldsBind {x : Session State Error α} {f : α → Session State Error β} (first : Yields x s a m) (next : Yields (f a) m b n) :
    Yields (x >>= f) s b n := by
  show ExceptT.bindCont f (x (s,[])).1 (x (s,[])).2 = _
  rw [Yields] at first
  rw [first]
  exact next

theorem yieldsTransaction {body : Session State Error (Left α)} (yields : Yields body s (.commit a) m) : Yields (transaction body) s a m := by
  unfold Yields at yields
  unfold Yields transaction
  dsimp only [List.headD, List.tail]
  rw [yields]
  rfl

omit [FromSql Error] in
theorem yieldsLoop {f : β → α → Session State Error β} {h : State → α → State} (each : ∀ b x m, ∃ b', Yields (f b x) m b' (h m x))
    (xs : List α) (b : β) (m : State) : ∃ b', Yields (xs.foldlM f b) m b' (xs.foldl h m) := by
  induction xs generalizing b m with
  | nil => exact ⟨b,rfl⟩
  | cons x xs ih =>
    obtain ⟨b',first⟩ := each b x m
    obtain ⟨b'',rest⟩ := ih b' (h m x)
    exact ⟨b'',yieldsBind first rest⟩

omit [FromSql Error] in
theorem yieldsAttempt {x : Session State Error α} (yields : Yields x s a m) : Yields (attempt x) s (.ok a) m := by
  rw [Yields] at yields
  rw [Yields, attempt, yields]

end Steady
section Pairs
variable {State Error α β : Type} [FromSql Error] {s t : State}

/- Two sessions, each on its own tables, whose statements fail together: what holds of the two results. -/
def Alike (x y : Session State Error α) (s t : State) (rel : Except Error α → State → Except Error α → State → Prop) : Prop :=
  ∀ faults, rel (x (s,faults)).1 (x (s,faults)).2.1 (y (t,faults)).1 (y (t,faults)).2.1 ∧ (x (s,faults)).2.2 = (y (t,faults)).2.2

variable {rel : Except Error α → State → Except Error α → State → Prop}

omit [FromSql Error] in
theorem alikePure {a b : α} (holds : rel (.ok a) s (.ok b) t) : Alike (pure a) (pure b) s t rel := fun _ => ⟨holds,rfl⟩

theorem alikeStatement {f g : State → Except SqlError (α × State)} {next other : α → Session State Error β}
    {rel : Except Error β → State → Except Error β → State → Prop} {a b : α} {m n : State} (runs : f s = .ok (a,m)) (also : g t = .ok (b,n))
    (fails : rel (.error (FromSql.db .failure)) s (.error (FromSql.db .failure)) t) (goes : Alike (next a) (other b) m n rel) :
    Alike (statement f >>= next) (statement g >>= other) s t rel := by
  intro faults
  have opened : ∀ (f : State → Except SqlError (α × State)) (next : α → Session State Error β) (s : State) (a : α) (m : State),
      f s = .ok (a,m) → (statement f >>= next) (s,faults) =
        if faults.headD false then (.error (FromSql.db .failure),(s,faults.tail)) else next a (m,faults.tail) := by
    intro f next s a m runs
    show ExceptT.bindCont next (statement f (s,faults)).1 (statement f (s,faults)).2 = _
    rw [statement, runs]
    split <;> rfl
  rw [opened f next s a m runs, opened g other t b n also]
  split
  · exact ⟨fails,rfl⟩
  · exact goes faults.tail

theorem alikeSelect {f g : State → α} {next other : α → Session State Error β} {rel : Except Error β → State → Except Error β → State → Prop}
    (fails : rel (.error (FromSql.db .failure)) s (.error (FromSql.db .failure)) t)
    (goes : Alike (next (f s)) (other (g t)) s t rel) : Alike (select f >>= next) (select g >>= other) s t rel :=
  alikeStatement rfl rfl fails goes

theorem alikeExecute {f g : State → α × State} {next other : α → Session State Error β}
    {rel : Except Error β → State → Except Error β → State → Prop}
    (fails : rel (.error (FromSql.db .failure)) s (.error (FromSql.db .failure)) t)
    (goes : Alike (next (f s).1) (other (g t).1) (f s).2 (g t).2 rel) : Alike (execute f >>= next) (execute g >>= other) s t rel :=
  alikeStatement rfl rfl fails goes

/- Transactions that answer alike are left alike. -/
theorem alikeTransaction {x y : Session State Error (Left α)} {same : Except Error α → Except Error α → Prop}
    (fails : same (.error (FromSql.db .failure)) (.error (FromSql.db .failure)))
    (goes : Alike x y s t (fun r _ r' _ => match r, r' with
      | .ok (.commit a), .ok (.commit b) => same (.ok a) (.ok b)
      | .ok (.rollback a), .ok (.rollback b) => same (.ok a) (.ok b)
      | .error e, .error e' => same (.error e) (.error e')
      | _, _ => False)) : Alike (transaction x) (transaction y) s t (fun r _ r' _ => same r r') := by
  intro faults
  obtain ⟨answered,rest⟩ := goes faults.tail
  cases fault : faults.headD false with
  | true =>
    simp only [transaction, fault, if_true]
    exact ⟨fails,trivial⟩
  | false =>
    obtain ⟨⟨r,⟨m,left⟩⟩,run⟩ : ∃ out, x (s,faults.tail) = out := ⟨_,rfl⟩
    obtain ⟨⟨r',⟨m',left'⟩⟩,run'⟩ : ∃ out, y (t,faults.tail) = out := ⟨_,rfl⟩
    simp only [run, run'] at answered rest
    subst rest
    simp only [transaction, fault, run, run', Bool.false_eq_true, if_false]
    match r, r' with
    | .ok (.commit a), .ok (.commit b) =>
      cases last : left.headD false with
      | true =>
        simp only [last, if_true]
        exact ⟨fails,trivial⟩
      | false =>
        simp only [last, Bool.false_eq_true, if_false]
        exact ⟨answered,trivial⟩
    | .ok (.rollback a), .ok (.rollback b) => exact ⟨answered,rfl⟩
    | .error e, .error e' => exact ⟨answered,rfl⟩

omit [FromSql Error] in
theorem alikeGives {x y : Session State Error α} {f : α → β} (alike : Alike x y s t (fun r _ r' _ => r = r')) :
    Alike (x >>= fun a => pure (f a)) (y >>= fun a => pure (f a)) s t (fun r _ r' _ => r = r') := by
  intro faults
  obtain ⟨same,rest⟩ := alike faults
  have opened : ∀ (x : Session State Error α) (s : State), (x >>= fun a => pure (f a)) (s,faults) = ((x (s,faults)).1.map f,(x (s,faults)).2) := by
    intro x s
    let next : α → Session State Error β := fun a => pure (f a)
    show ExceptT.bindCont next (x (s,faults)).1 (x (s,faults)).2 = _
    cases (x (s,faults)).1 <;> rfl
  rw [opened, opened, same]
  exact ⟨rfl,rest⟩

omit [FromSql Error] in
theorem alikeAnswers {x y : Session State Error α} (alike : Alike x y s t (fun r _ r' _ => r = r')) (faults : List Bool) :
    (perform x s faults).1 = (perform y t faults).1 := (alike faults).1

end Pairs
end CadsTunnel.Sql
