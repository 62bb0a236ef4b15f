import CadsTunnel.QueueOrder

/-! The admission of many hostnames at once. Where the call for one hostname counts the rows
before its own, this one reads the times of the whole queue, sorts them, and finds the place
of each row among them by halving. -/
namespace CadsTunnel.AdmissionBatch
open OrderedMap Sql TunnelStore CertStore QueueOrder
open CaBudget (rowNamed)
open Std (ExtTreeMap)

section Halving
variable {α : Type}

/- The first position from `lo` on, before `hi`, that `below` does not hold of. The interval is halved at every step. -/
def search (below : Nat → Bool) : Nat → Nat → Nat → Nat
  | 0, lo, _ => lo
  | fuel + 1, lo, hi =>
    if lo < hi then
      let mid := lo + (hi - lo) / 2
      if below mid then search below fuel (mid + 1) hi else search below fuel lo mid
    else lo

/- `partition_point`. -/
def partitionPoint (pred : α → Bool) (xs : List α) : Nat := search (fun i => xs[i]?.any pred) xs.length 0 xs.length

theorem searchFinds {below : Nat → Bool} {k : Nat} (split : ∀ i, below i = true ↔ i < k) {fuel lo hi : Nat} (room : hi - lo ≤ fuel) (low : lo ≤ k)
    (high : k ≤ hi) : search below fuel lo hi = k := by
  induction fuel generalizing lo hi with
  | zero =>
    rw [search]
    omega
  | succ fuel ih =>
    rw [search]
    by_cases open' : lo < hi
    · rw [if_pos open']
      dsimp only
      by_cases under : below (lo + (hi - lo) / 2) = true
      · have inside := (split _).mp under
        rw [if_pos under]
        exact ih (by omega) (by omega) high
      · have outside := mt (split _).mpr under
        rw [if_neg under]
        exact ih (by omega) low (by omega)
    · rw [if_neg open']
      omega

/- In a list that is in order those below a bound come first. -/
theorem sortedSplit {xs : List Int} (sorted : xs.Pairwise (· ≤ ·)) (bound : Int) (i : Nat) :
    xs[i]?.any (· < bound) = true ↔ i < xs.countP (· < bound) := by
  induction xs generalizing i with
  | nil => simp
  | cons x rest ih =>
    obtain ⟨least,later⟩ := List.pairwise_cons.mp sorted
    by_cases below : x < bound
    · rw [List.countP_cons_of_pos (by simpa using below)]
      cases i with
      | zero => simp [below]
      | succ i =>
        rw [List.getElem?_cons_succ, ih later]
        omega
    · have none' : rest.countP (· < bound) = 0 := by
        refine List.countP_eq_zero.mpr ?_
        intro y mem under
        exact below ((least y mem).trans_lt (of_decide_eq_true under))
      rw [List.countP_cons_of_neg (by simpa using below), none']
      cases i with
      | zero => simp [below]
      | succ i =>
        rw [List.getElem?_cons_succ, ih later, none']
        omega

theorem partitionCount {xs : List Int} (sorted : xs.Pairwise (· ≤ ·)) (bound : Int) : partitionPoint (· < bound) xs = xs.countP (· < bound) :=
  searchFinds (sortedSplit sorted bound) (by omega) (Nat.zero_le _) List.countP_le_length

end Halving

/- The rows whose hostname is one of those asked for. -/
def rowsIn (hostnames : List String) (s : Tables) : List (String × TunnelRow) :=
  s.tunnels.toList.filterMap fun e => e.2.hostname.bind fun h => if h ∈ hostnames then some (h,e.2) else none

/- When a row of the queue has joined it, as far as it says so. -/
def queuedTime (r : TunnelRow) : Option Int := if r.status = .gelb && r.claimState = .none && !r.certClaimOptOut then r.queuedAt else none

def queuedTimes (s : Tables) : List Int := s.tunnels.toList.filterMap fun e => queuedTime e.2

def admissionAt (queuedAts : List Int) (r : TunnelRow) : CertAdmission :=
  let position := if r.status = .gelb && r.claimState = .none && !r.certClaimOptOut then
      r.queuedAt.map fun queuedAt => partitionPoint (· < queuedAt) queuedAts
    else none
  ⟨r.status,r.assignedCa,r.claimState,r.claimDeadline,position,r.certClaimOptOut⟩

def certAdmissionForHostnames (hostnames : List String) : Work (BTreeMap String CertAdmission) := do
  if hostnames.isEmpty then pure ∅
  else
    let rows ← select (rowsIn hostnames)
    let queuedAts ← select queuedTimes
    let queuedAts := queuedAts.insertionSort (· ≤ ·)
    pure (rows.foldl (fun out row => out.insert row.1 (admissionAt queuedAts row.2)) ∅)

section Batch
variable {s : Tables} {hostname id : String} {r : TunnelRow}

/- The admission of a row, as the call for its hostname reports it. -/
def admission (s : Tables) (r : TunnelRow) : CertAdmission :=
  let position := if r.status = .gelb && r.claimState = .none && !r.certClaimOptOut then
      r.queuedAt.map fun queuedAt => (s.tunnels.filter (ahead queuedAt)).size
    else none
  ⟨r.status,r.assignedCa,r.claimState,r.claimDeadline,position,r.certClaimOptOut⟩

theorem performOne (s : Tables) (hostname : String) :
    perform (certAdmissionForHostname hostname) s [] = (.ok ((rowOf hostname s).map fun e => admission s e.2),s) := by
  unfold certAdmissionForHostname
  rw [select, performStatement]
  simp only [List.headD_nil, Bool.false_eq_true, if_false]
  cases rowOf hostname s with
  | none => rfl
  | some e =>
    dsimp only [Option.map_some, admission]
    by_cases waits : (e.2.status = .gelb && e.2.claimState = .none && !e.2.certClaimOptOut) = true
    · rw [if_pos waits, if_pos waits]
      cases e.2.queuedAt with
      | none => rfl
      | some queuedAt => rfl
    · rw [if_neg waits, if_neg waits]
      rfl

theorem aheadTime (queuedAt : Int) (id : String) (r : TunnelRow) : ahead queuedAt id r = ((queuedTime r).map (fun t => decide (t < queuedAt))).getD false := by
  rw [ahead, queuedTime]
  cases time : r.queuedAt with
  | none => cases decide (r.status = .gelb) <;> cases decide (r.claimState = .none) <;> cases r.certClaimOptOut <;> rfl
  | some t => cases decide (r.status = .gelb) <;> cases decide (r.claimState = .none) <;> cases r.certClaimOptOut <;> simp

/- The rows before a time are those whose times are. -/
theorem aheadTimes (s : Tables) (queuedAt : Int) : (s.tunnels.filter (ahead queuedAt)).size = (queuedTimes s).countP (· < queuedAt) := by
  rw [← ExtTreeMap.length_toList, ExtTreeMap.toList_filter, ← List.countP_eq_length_filter, queuedTimes, List.countP_filterMap]
  exact List.countP_congr (fun e _ => by rw [aheadTime])

theorem admissionSame (s : Tables) (r : TunnelRow) : admissionAt ((queuedTimes s).insertionSort (· ≤ ·)) r = admission s r := by
  have place : ∀ queuedAt, partitionPoint (· < queuedAt) ((queuedTimes s).insertionSort (· ≤ ·)) = (s.tunnels.filter (ahead queuedAt)).size := by
    intro queuedAt
    rw [partitionCount (List.pairwise_insertionSort _ _), aheadTimes, (List.perm_insertionSort (· ≤ ·) (queuedTimes s)).countP_eq]
  rw [admissionAt, admission]
  simp only [place]

theorem rowsInIff {hostnames : List String} : (hostname,r) ∈ rowsIn hostnames s ↔ hostname ∈ hostnames ∧ ∃ id : String, s.tunnels[id]? = some r ∧ r.hostname = some hostname := by
  rw [rowsIn, List.mem_filterMap]
  constructor
  · rintro ⟨e,mem,taken⟩
    obtain ⟨name,named,asked⟩ := Option.bind_eq_some_iff.mp taken
    split at asked <;> try contradiction
    rename_i inside
    cases Option.some.inj asked
    exact ⟨inside,e.1,ExtTreeMap.mem_toList_iff_getElem?_eq_some.mp mem,named⟩
  · rintro ⟨inside,id,found,named⟩
    exact ⟨(id,r),ExtTreeMap.mem_toList_iff_getElem?_eq_some.mpr found,by rw [named, Option.bind_some, if_pos inside]⟩

/- What is inserted one after another, where no key has two values. -/
theorem insertedAll {V W : Type} (f : V → W) {rows : List (String × V)} (single : ∀ a ∈ rows, ∀ b ∈ rows, a.1 = b.1 → a.2 = b.2) (key : String) :
    (∀ v, (key,v) ∈ rows → (rows.foldl (fun out row => out.insert row.1 (f row.2)) (∅ : BTreeMap String W))[key]? = some (f v)) ∧
    ((∀ v, (key,v) ∉ rows) → (rows.foldl (fun out row => out.insert row.1 (f row.2)) (∅ : BTreeMap String W))[key]? = none) := by
  induction rows using List.reverseRecOn with
  | nil => simp
  | append_singleton front row ih =>
    obtain ⟨inside,outside⟩ := ih (fun a here b there => single a (List.mem_append_left _ here) b (List.mem_append_left _ there))
    rw [List.foldl_append, List.foldl_cons, List.foldl_nil]
    constructor
    · intro v mem
      rw [lookupInsert]
      by_cases same : key = row.1
      · rw [if_pos same, ← single (key,v) mem row (by simp) same]
      · rw [if_neg same]
        refine inside v ((List.mem_append.mp mem).resolve_right ?_)
        intro last
        rw [List.mem_singleton] at last
        exact same (congrArg Prod.fst last)
    · intro absent
      have other : key ≠ row.1 := by
        rintro rfl
        exact absent row.2 (by simp)
      rw [lookupInsert, if_neg other]
      exact outside (fun v mem => absent v (List.mem_append_left _ mem))

theorem performMany (s : Tables) (hostnames : List String) (faults : List Bool) :
    perform (certAdmissionForHostnames hostnames) s faults =
      if !hostnames.isEmpty && (faults.headD false || faults.tail.headD false) then (.error .failure,s)
      else (.ok ((rowsIn hostnames s).foldl (fun out row => out.insert row.1 (admission s row.2)) ∅),s) := by
  unfold certAdmissionForHostnames
  cases hostnames with
  | nil =>
    have none' : rowsIn [] s = [] := by
      refine List.filterMap_eq_nil_iff.mpr ?_
      intro e _
      cases e.2.hostname <;> rfl
    rw [none']
    rfl
  | cons first more =>
    rw [List.isEmpty_cons, if_neg (by decide), select, performStatement]
    cases faults.headD false with
    | true => rfl
    | false =>
      simp only [Bool.false_eq_true, if_false, Bool.not_false, Bool.true_and, Bool.false_or]
      rw [select, performStatement]
      cases faults.tail.headD false with
      | true => rfl
      | false =>
        simp only [Bool.false_eq_true, if_false, admissionSame]
        rfl

/- The rows asked for are told apart by their hostnames. -/
theorem rowsSingle (distinct : Distinct s.tunnels) {hostnames : List String} :
    ∀ a ∈ rowsIn hostnames s, ∀ b ∈ rowsIn hostnames s, a.1 = b.1 → a.2 = b.2 := by
  rintro ⟨h,t⟩ here ⟨h',u⟩ there same
  dsimp only at same
  subst same
  obtain ⟨_,a,found,named⟩ := rowsInIff.mp here
  obtain ⟨_,b,also,named'⟩ := rowsInIff.mp there
  cases distinct a b t u h found also named named'
  exact Option.some.inj (found.symm.trans also)

/- What the call for many hostnames finds of one. -/
theorem manyLookup (distinct : Distinct s.tunnels) (hostnames : List String) (hostname : String) :
    ((rowsIn hostnames s).foldl (fun out row => out.insert row.1 (admission s row.2)) (∅ : BTreeMap String CertAdmission))[hostname]? =
      if hostname ∈ hostnames then (rowOf hostname s).map fun e => admission s e.2 else none := by
  obtain ⟨inside,outside⟩ := insertedAll (admission s) (@rowsSingle _ distinct hostnames) hostname
  by_cases asked : hostname ∈ hostnames
  · rw [if_pos asked]
    cases row : rowOf hostname s with
    | none =>
      refine outside ?_
      intro r mem
      obtain ⟨_,id,found,named⟩ := rowsInIff.mp mem
      rw [rowNamed distinct found named] at row
      contradiction
    | some e =>
      obtain ⟨found,named⟩ := firstRowSome row
      exact inside e.2 (rowsInIff.mpr ⟨asked,e.1,found,of_decide_eq_true named⟩)
  · rw [if_neg asked]
    exact outside (fun r mem => asked (rowsInIff.mp mem).1)

/- The call for many hostnames agrees with the calls for each: it has those that are asked for and that the call for the one
hostname finds, as that call reports them. -/
theorem admissionsAgree (s : Tables) (distinct : Distinct s.tunnels) (hostnames : List String) :
    ∃ admissions, perform (certAdmissionForHostnames hostnames) s [] = (.ok admissions,s) ∧
      (∀ faults other m, perform (certAdmissionForHostnames hostnames) s faults = (.ok other,m) → other = admissions ∧ m = s) ∧
      ∀ hostname, ∃ answer, perform (certAdmissionForHostname hostname) s [] = (.ok answer,s) ∧
        admissions[hostname]? = if hostname ∈ hostnames then answer else none := by
  refine ⟨(rowsIn hostnames s).foldl (fun out row => out.insert row.1 (admission s row.2)) ∅,?_,?_,?_⟩
  · rw [performMany]
    cases hostnames <;> rfl
  · intro faults other m ran
    rw [performMany] at ran
    split at ran
    · cases ran
    · cases ran
      exact ⟨rfl,rfl⟩
  · intro hostname
    exact ⟨_,performOne s hostname,manyLookup distinct hostnames hostname⟩

end Batch

theorem openingAgrees : ∃ admissions, perform (certAdmissionForHostnames ["b.example","c.example","b.example"]) opening.tables [] = (.ok admissions,opening.tables) ∧
    (∀ faults other m, perform (certAdmissionForHostnames ["b.example","c.example","b.example"]) opening.tables faults = (.ok other,m) →
      other = admissions ∧ m = opening.tables) ∧
    ∀ hostname, ∃ answer, perform (certAdmissionForHostname hostname) opening.tables [] = (.ok answer,opening.tables) ∧
      admissions[hostname]? = if hostname ∈ ["b.example","c.example","b.example"] then answer else none :=
  admissionsAgree opening.tables openingStart.distinct ["b.example","c.example","b.example"]

end CadsTunnel.AdmissionBatch
