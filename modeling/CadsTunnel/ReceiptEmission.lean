import CadsTunnel.TunnelReceipts

/-! The receipts of a run, as they are read back from the tables: a numbered chain that the
verifier accepts, and for every session at most one receipt about its begin and its end. A
session lacks one only if the store failed in the call that opened or closed it. -/
namespace CadsTunnel.History
open OrderedMap Words Sql Receipts
open Std (ExtTreeMap)

/- The parser of the payload column; it reads back what the emitter writes. -/
structure PayloadText (floats : Json.FloatText) where
  fromStr : String → Option Json.Value
  reads : ∀ v, Plain v → fromStr (Json.canonicalJson floats v) = some v

section Reading
variable {floats : Json.FloatText} (texts : PayloadText floats)

def readReceipt (e : Nat × ReceiptRow) : Except SqlError Receipt :=
  match texts.fromStr e.2.payload with
  | some payload =>
    .ok ⟨.ofNat e.1,e.2.prevHash,e.2.ts,e.2.edgeId,e.2.kind,e.2.routingTokenHash,payload,e.2.hash,e.2.sig⟩
  | none => .error (.conversion "payload")

/- The receipts of the table in the order of their numbers. -/
def committed (s : Store) : Except SqlError (List Receipt) := s.receipts.toList.mapM (readReceipt texts)

end Reading

/- How many committed receipts of a kind are about a session. -/
def about (s : Store) (id : Nat) (kind : String) : Nat :=
  s.receipts.toList.countP (fun e => e.2.session = id ∧ e.2.kind = kind)

/- Whether a call made after some others is carried through. -/
def carried (edge : Emitter) (before : List Call) (call : Call) : Bool := (step edge (run edge before) call).1

structure Opens (edge : Emitter) (before : List Call) (call : Call) (id : Nat) : Prop where
  absent : id ∉ (run edge before).sessions
  present : id ∈ (run edge (before ++ [call])).sessions

structure Closes (edge : Emitter) (before : List Call) (call : Call) (id : Nat) : Prop where
  live : ∃ row : SessionRow, (run edge before).sessions[id]? = some row ∧ row.disconnectedAt = none
  ended : ∃ row : SessionRow, (run edge (before ++ [call])).sessions[id]? = some row ∧ row.disconnectedAt.isSome

section Runs
variable {edge : Emitter} {entries : Entries} {s : Store}

theorem storedAgain {texts : PayloadText edge.floats} {r : Receipt} (plain : Plain r.payload) (id : Nat) :
    readReceipt texts (r.seq.toNat,storedRow edge r id) = .ok r := by
  simp [readReceipt, storedRow, texts.reads r.payload plain]

theorem storedList (texts : PayloadText edge.floats) {listed : List (Receipt × (Nat × Event))}
    (plain : ∀ x ∈ listed, Plain x.1.payload) :
    (listed.map (fun x => (x.1.seq.toNat,storedRow edge x.1 x.2.1))).mapM (readReceipt texts) = .ok (listed.map Prod.fst) := by
  induction listed with
  | nil => rfl
  | cons x rest ih =>
    have tail := ih (fun x' mem => plain x' (List.mem_cons_of_mem x mem))
    rw [List.map_cons, List.mapM_cons, storedAgain (plain x List.mem_cons_self), tail]
    rfl

/- A receipt says what was recorded. -/
theorem recorded {crypto : SigningCrypto} {floats : Json.FloatText} {signer : ReceiptSigner} {seq : UInt64} {prevHash : String}
    {events : List Event} {i : Nat} {r : Receipt} (found : (emitFrom crypto floats signer seq prevHash events)[i]? = some r) :
    ∃ e, events[i]? = some e ∧ r.kind = e.kind ∧ r.routingTokenHash = e.routingTokenHash ∧ r.payload = e.payload ∧
      r.prevHash = if i = 0 then prevHash else ((emitFrom crypto floats signer seq prevHash events)[i - 1]?.map Receipt.hash).getD "" := by
  induction events generalizing seq prevHash i with
  | nil => simp [emitFrom] at found
  | cons e rest ih =>
    cases i with
    | zero =>
      simp only [emitFrom, List.getElem?_cons_zero] at found
      cases Option.some.inj found
      exact ⟨e,rfl,rfl,rfl,rfl,rfl⟩
    | succ i =>
      simp only [emitFrom, List.getElem?_cons_succ] at found ⊢
      obtain ⟨e',listed,kind,token,payload,link⟩ := ih found
      refine ⟨e',listed,kind,token,payload,link.trans ?_⟩
      cases i with
      | zero => rfl
      | succ i => simp

theorem chainRecorded {i : Nat} {r : Receipt} (found : (chain edge entries)[i]? = some r) :
    ∃ x, entries[i]? = some x ∧ r.kind = x.2.kind ∧ r.routingTokenHash = x.2.routingTokenHash ∧ r.payload = x.2.payload := by
  obtain ⟨e,listed,kind,token,payload,_⟩ := recorded found
  rw [List.getElem?_map] at listed
  obtain ⟨x,here,rfl⟩ := Option.map_eq_some_iff.mp listed
  exact ⟨x,here,kind,token,payload⟩

theorem chainPlain (kept : Kept entries s.sessions) {r : Receipt} (mem : r ∈ chain edge entries) : Plain r.payload := by
  obtain ⟨i,found⟩ := List.getElem?_of_mem mem
  obtain ⟨x,listed,_,_,payload⟩ := chainRecorded found
  rw [payload]
  exact kept.plain x (List.mem_of_getElem? listed)

theorem committedChain (texts : PayloadText edge.floats) (good : Good edge entries s) : committed texts s = .ok (chain edge entries) := by
  rw [committed, good.chained.rows, ledger, storedList texts (fun x mem => chainPlain good.kept (List.of_mem_zip mem).1),
    List.map_fst_zip (chainLength entries).le]

theorem ledgerEntry (x : Nat × ReceiptRow) (mem : x ∈ ledger edge entries) :
    ∃ e ∈ entries, x.2.session = e.1 ∧ x.2.kind = e.2.kind ∧ x.2.payload = Json.canonicalJson edge.floats e.2.payload := by
  obtain ⟨⟨r,e⟩,listed,rfl⟩ := List.mem_map.mp mem
  obtain ⟨i,here⟩ := List.getElem?_of_mem listed
  obtain ⟨found,found'⟩ := List.getElem?_zip_eq_some.mp here
  obtain ⟨e',listed',kind,_,payload⟩ := chainRecorded found
  simp only at found'
  rw [listed'] at found'
  obtain rfl := Option.some.inj found'
  exact ⟨e',List.mem_of_getElem? listed',rfl,kind,by rw [storedRow, payload]⟩

theorem ledgerCount (fits : entries.length < 2 ^ 63) (id : Nat) (kind : String) :
    (ledger edge entries).countP (fun e => e.2.session = id ∧ e.2.kind = kind) = issued entries id kind := by
  induction entries using List.reverseRecOn with
  | nil => rfl
  | append_singleton entries x ih =>
    rw [List.length_append, List.length_singleton] at fits
    have earlier : entries.length < 2 ^ 63 := by omega
    rw [ledgerNext earlier, List.countP_append, ih earlier, issuedNext, List.countP_singleton]
    simp [storedRow, nextReceipt, ReceiptSigner.sign]

theorem aboutIssued (good : Good edge entries s) (id : Nat) (kind : String) : about s id kind = issued entries id kind := by
  rw [about, good.chained.rows, ledgerCount good.chained.fits]

/- What holds of the tables: the receipts are a chain, and they agree with the sessions. -/
structure Emission (edge : Emitter) (texts : PayloadText edge.floats) (s : Store) : Prop where
  chain : ∃ receipts summary, committed texts s = .ok receipts ∧
    (∀ i r, receipts[i]? = some r → r.seq.toNat = i + 1) ∧
    (∀ i r, receipts[i]? = some r → r.prevHash = if i = 0 then genesisPrevHash else (receipts[i - 1]?.map Receipt.hash).getD "") ∧
    s.receiptsHead = receipts.getLast?.map (fun r => (r.seq.toNat,r.hash)) ∧
    verifyChain edge.crypto edge.floats receipts (edge.signer.pubkeyBytes edge.crypto) = .ok summary
  single : ∀ (i j : Nat) (row other : SessionRow), s.sessions[i]? = some row → s.sessions[j]? = some other →
    row.disconnectedAt = none → other.disconnectedAt = none → row.routingToken = other.routingToken → i = j
  once : ∀ id, about s id kindSessionOpen ≤ 1 ∧ about s id kindSessionClose ≤ 1
  final : ∀ (seq : Nat) (receipt : ReceiptRow), s.receipts[seq]? = some receipt → receipt.kind = kindSessionClose →
    ∃ row payload, s.sessions[receipt.session]? = some row ∧ closing row = some payload ∧ texts.fromStr receipt.payload = some payload

theorem headLast (good : Good edge entries s) : s.receiptsHead = (chain edge entries).getLast?.map (fun r => (r.seq.toNat,r.hash)) := by
  rw [good.chained.stored]
  induction entries using List.reverseRecOn with
  | nil => rfl
  | append_singleton entries x _ =>
    have fits := good.chained.fits
    rw [List.length_append, List.length_singleton] at fits
    rw [chainNext, List.getLast?_concat, lastHashNext]
    have number : (nextReceipt edge entries x.2).seq.toNat = entries.length + 1 := nextSeq (by omega) x.2
    simp [number]

theorem emission (correct : edge.crypto.Correct) (texts : PayloadText edge.floats) (good : Good edge entries s) : Emission edge texts s where
  chain := by
    obtain ⟨summary,accepted⟩ := emittedVerifies correct edge.signer (entries.map Prod.snd)
    refine ⟨chain edge entries,summary,committedChain texts good,fun i r found => chainSeq good.chained.fits found,?_,headLast good,accepted⟩
    intro i r found
    obtain ⟨_,_,_,_,_,link⟩ := recorded found
    exact link
  single := good.kept.single
  once id := by
    rw [aboutIssued good, aboutIssued good]
    exact ⟨good.kept.once id _ (.inl rfl),good.kept.once id _ (.inr rfl)⟩
  final := by
    intro seq receipt found kind
    have listed := ExtTreeMap.mem_toList_iff_getElem?_eq_some.mpr found
    rw [good.chained.rows] at listed
    obtain ⟨e,mem,session,kind',payload⟩ := ledgerEntry _ listed
    obtain ⟨row,found',payload'⟩ := good.kept.ending e mem (kind' ▸ kind)
    rw [← session] at found'
    exact ⟨row,_,found',payload',by rw [payload, texts.reads _ (good.kept.plain e mem)]⟩

/- The receipts owed for the sessions of a run. -/
structure Owed (edge : Emitter) (entries : Entries) (calls : List Call) (sessions : BTreeMap Nat SessionRow) : Prop where
  opened : ∀ id, id ∈ sessions → ∃ before call after, calls = before ++ call :: after ∧ Opens edge before call id ∧
    (carried edge before call → 1 ≤ issued entries id kindSessionOpen)
  closed : ∀ (id : Nat) (row : SessionRow), sessions[id]? = some row → row.disconnectedAt.isSome →
    ∃ before call after, calls = before ++ call :: after ∧ Closes edge before call id ∧
      (carried edge before call → 1 ≤ issued entries id kindSessionClose)

theorem owedNext {calls : List Call} {call : Call} {more : Entries} (owed : Owed edge entries calls (run edge calls).sessions)
    (advance : Advance entries more (run edge calls).sessions (run edge (calls ++ [call])).sessions (carried edge calls call)) :
    Owed edge more (calls ++ [call]) (run edge (calls ++ [call])).sessions := by
  have later : ∀ {before : List Call} {call' : Call} {after : List Call}, calls = before ++ call' :: after →
      calls ++ [call] = before ++ call' :: (after ++ [call]) := by
    rintro before call' after rfl
    simp
  constructor
  · intro id present
    by_cases old : id ∈ (run edge calls).sessions
    · obtain ⟨before,call',after,split',opens,due⟩ := owed.opened id old
      exact ⟨before,call',_,later split',opens,fun ok => (due ok).trans (issuedGrows advance.grown id _)⟩
    · exact ⟨calls,call,[],rfl,⟨old,present⟩,fun ok => advance.opened ok id present old⟩
  · intro id row found ended
    have known : id ∈ (run edge calls).sessions := by
      by_contra absent
      rw [advance.fresh id row found absent] at ended
      contradiction
    obtain ⟨old,found'⟩ := Option.isSome_iff_exists.mp (ExtTreeMap.mem_iff_isSome_getElem?.mp known)
    cases state : old.disconnectedAt with
    | none => exact ⟨calls,call,[],rfl,⟨⟨old,found',state⟩,⟨row,found,ended⟩⟩,fun ok => advance.closed ok id old row found' state found ended⟩
    | some t =>
      obtain ⟨before,call',after,split',closes,due⟩ := owed.closed id old found' (by rw [state]; rfl)
      exact ⟨before,call',_,later split',closes,fun ok => (due ok).trans (issuedGrows advance.grown id _)⟩

theorem goodStart : Good edge [] {} := by
  refine ⟨⟨by simp [ledger, chain, emitted, emitFrom],by decide,rfl,rfl⟩,?_,nofun,nofun,nofun,?_⟩
  · intro id kind _
    simp [issued]
  · intro i j row other found
    simp at found

theorem runSound (calls : List Call) : ∃ entries, Good edge entries (run edge calls) ∧ Owed edge entries calls (run edge calls).sessions := by
  induction calls using List.reverseRecOn with
  | nil => exact ⟨[],goodStart,⟨by simp [run, Machine.run],by simp [run, Machine.run]⟩⟩
  | append_singleton calls call ih =>
    obtain ⟨entries,good,owed⟩ := ih
    obtain ⟨more,good',advance⟩ := stepAfter good call
    have next : (step edge (run edge calls) call).2 = run edge (calls ++ [call]) := (Machine.runNext _ _ _).symm
    rw [next] at good' advance
    exact ⟨more,good',owedNext owed advance⟩

/- A closed session lacks a receipt only if the store failed in the call that opened or closed it. -/
theorem receiptEmission (edge : Emitter) (correct : edge.crypto.Correct) (texts : PayloadText edge.floats) (calls : List Call) :
    Emission edge texts (run edge calls) ∧
    ∀ (id : Nat) (row : SessionRow), (run edge calls).sessions[id]? = some row → row.disconnectedAt.isSome →
      (∃ before call after, calls = before ++ call :: after ∧ Opens edge before call id ∧
        (carried edge before call → about (run edge calls) id kindSessionOpen = 1)) ∧
      ∃ before call after, calls = before ++ call :: after ∧ Closes edge before call id ∧
        (carried edge before call → about (run edge calls) id kindSessionClose = 1) := by
  obtain ⟨entries,good,owed⟩ := runSound calls
  have sound := emission correct texts good
  refine ⟨sound,fun id row found ended => ?_⟩
  obtain ⟨before,call,after,split',opens,due⟩ := owed.opened id (ExtTreeMap.mem_iff_isSome_getElem?.mpr (by rw [found]; rfl))
  obtain ⟨before',call',after',split'',closes,due'⟩ := owed.closed id row found ended
  obtain ⟨once,once'⟩ := sound.once id
  rw [← aboutIssued good] at due due'
  exact ⟨⟨before,call,after,split',opens,fun ok => Nat.le_antisymm once (due ok)⟩,
    before',call',after',split'',closes,fun ok => Nat.le_antisymm once' (due' ok)⟩

end Runs

/- A parser that knows the payloads and nothing else. -/
theorem plainSorted {v : Json.Value} (plain : Plain v) : v.sorted = v := by
  obtain ⟨members,rfl,order,scalars⟩ := plain
  have same : Json.sortedMembers members = members := by
    clear order
    induction members with
    | nil => rfl
    | cons m rest ih =>
      rw [Json.sortedMembers, ih (fun m' mem => scalars m' (List.mem_cons_of_mem m mem))]
      obtain ⟨key,v⟩ := m
      obtain ⟨text,rfl⟩ | ⟨n,rfl⟩ | ⟨i,below,rfl⟩ := scalars (key,v) List.mem_cons_self
      all_goals rfl
  rw [Json.Value.sorted, same, Json.sortMembers, List.Pairwise.insertionSort_eq]
  exact (List.pairwise_map.mp order).imp (fun less => le_of_lt less)

open Classical in
noncomputable def plainTexts (floats : Json.FloatText) : PayloadText floats where
  fromStr text := if written : ∃ v, Plain v ∧ Json.canonicalJson floats v = text then some written.choose else none
  reads v plain := by
    have written : ∃ w, Plain w ∧ Json.canonicalJson floats w = Json.canonicalJson floats v := ⟨v,plain,rfl⟩
    rw [dif_pos written]
    have same := Json.canonicalJsonDetermines written.choose_spec.2
    rw [plainSorted plain, plainSorted written.choose_spec.1] at same
    rw [same]

def sampleEdge : Emitter := ⟨plainSigning,pointZero,⟨.replicate 32 7,"edge"⟩⟩

/- A session over a restart, and one whose first receipt the store did not take. -/
def wholeSession : List Call := [⟨.openSession "aa" "quic" 5,[]⟩,⟨.addSessionBytes "aa" 3 4 6,[]⟩,⟨.emitBytesSnapshots 7,[]⟩,⟨.restart,[]⟩,
  ⟨.closeSession "aa" 9 "idle",[]⟩]

def missedSession : List Call := [⟨.openSession "aa" "quic" 5,[false,false,true]⟩,⟨.closeSession "aa" 9 "idle",[]⟩]

theorem receiptEmissionSample :
    Emission sampleEdge (plainTexts pointZero) (run sampleEdge wholeSession) ∧
    about (run sampleEdge wholeSession) 1 kindSessionOpen = 1 ∧ about (run sampleEdge wholeSession) 1 kindSessionClose = 1 :=
  ⟨(receiptEmission sampleEdge plainSigningCorrect (plainTexts pointZero) wholeSession).1,by decide +kernel,by decide +kernel⟩

theorem receiptMissed :
    ¬∀ (calls : List Call) (id : Nat) (row : SessionRow), (run sampleEdge calls).sessions[id]? = some row → row.disconnectedAt.isSome →
      about (run sampleEdge calls) id kindSessionOpen = 1 ∧ about (run sampleEdge calls) id kindSessionClose = 1 := by
  intro claim
  have ended : ((run sampleEdge missedSession).sessions[1]?.any (fun row => row.disconnectedAt.isSome)) = true := by decide +kernel
  have none' : about (run sampleEdge missedSession) 1 kindSessionOpen = 0 := by decide +kernel
  cases found : (run sampleEdge missedSession).sessions[1]? with
  | none => simp [found] at ended
  | some row =>
    rw [found, Option.any_some] at ended
    have one := (claim missedSession 1 row found ended).1
    rw [none'] at one
    contradiction

end CadsTunnel.History
