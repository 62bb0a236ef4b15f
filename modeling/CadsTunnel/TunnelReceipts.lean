import CadsTunnel.ReceiptChain
import CadsTunnel.Sql

/-! The store of tunnel sessions and of the receipts about them. A receipt and the head of the
chain are written in one transaction, and the head is also kept in memory; the row of a
session is written on its own, before its receipt, so a session can lack a receipt but the
chain lacks none. -/
namespace CadsTunnel.History
open OrderedMap Words Sql Receipts
open Std (ExtTreeMap)

def kindBytes : String := "bytes"

def clampI64 (v : UInt64) : Nat := min v.toNat (2 ^ 63 - 1)

structure SessionRow where
  routingToken : String
  transport : String
  connectedAt : Int64
  disconnectedAt : Option Int64 := none
  reason : Option String := none
  bytesIn : Counter := some 0
  bytesOut : Counter := some 0
  lastFlush : Int64
  deriving DecidableEq

/- The last field is what the statements speak of and no code reads: the session that the receipt is about. -/
structure ReceiptRow where
  prevHash : String
  ts : Int64
  edgeId : String
  kind : String
  routingTokenHash : String
  payload : String
  hash : String
  sig : String
  session : Nat

/- The three tables, and the memory of the emitter. -/
structure Store where
  sessions : BTreeMap Nat SessionRow := ∅
  receipts : BTreeMap Nat ReceiptRow := ∅
  receiptsHead : Option (Nat × String) := none
  head : UInt64 × String := (0,genesisPrevHash)
  snapshots : BTreeMap Nat (UInt64 × UInt64) := ∅

structure OpenRow where
  id : Nat
  tokenHex : String
  connectedAt : Int64
  bytesIn : UInt64
  bytesOut : UInt64

/- What the receipts are made with. -/
structure Emitter where
  crypto : SigningCrypto
  floats : Json.FloatText
  signer : ReceiptSigner

abbrev Work (α : Type) := Session Store SqlError α

def isOpen (token : Option String) (row : SessionRow) : Bool :=
  row.disconnectedAt.isNone && token.all (fun tokenHex => row.routingToken = tokenHex)

def openOf (token : Option String) (s : Store) : List (Nat × SessionRow) := s.sessions.toList.filter (fun e => isOpen token e.2)

def readCounter (column : String) (c : Counter) : Except SqlError UInt64 :=
  match c with
  | some n => .ok (.ofNat n)
  | none => .error (.conversion column)

def readOpen (e : Nat × SessionRow) : Except SqlError OpenRow := do
  let bytesIn ← readCounter "bytes_in" e.2.bytesIn
  let bytesOut ← readCounter "bytes_out" e.2.bytesOut
  .ok ⟨e.1,e.2.routingToken,e.2.connectedAt,bytesIn,bytesOut⟩

def openRows (token : Option String) : Work (List OpenRow) :=
  statement (fun s => ((openOf token s).mapM readOpen).map (fun rows => (rows,s)))

def nextId (s : Store) : Nat := s.sessions.keys.getLast?.getD 0 + 1

def openPayload (connectedAt : Int64) (transport : String) : Json.Value :=
  .object [("connected_at",.number (.fromI64 connectedAt)),("transport",.string transport)]

def bytesPayload (bytesIn bytesOut : UInt64) (connectedAt : Int64) : Json.Value :=
  .object [("bytes_in",.number (.posInt bytesIn)),("bytes_out",.number (.posInt bytesOut)),
    ("connected_at",.number (.fromI64 connectedAt))]

def closePayload (bytesIn bytesOut : UInt64) (connectedAt disconnectedAt : Int64) (reason : String) : Json.Value :=
  .object [("bytes_in",.number (.posInt bytesIn)),("bytes_out",.number (.posInt bytesOut)),
    ("connected_at",.number (.fromI64 connectedAt)),("disconnected_at",.number (.fromI64 disconnectedAt)),("reason",.string reason)]

section Emission
variable (edge : Emitter)

def routingTokenHash (token : Bytes) : String := Hex.encode (edge.crypto.sha256 token).toList

def routingTokenHashOfHex (tokenHex : String) : String :=
  match Hex.decode tokenHex with
  | some bytes => routingTokenHash edge bytes
  | none => routingTokenHash edge (asBytes tokenHex)

def storedRow (r : Receipt) (session : Nat) : ReceiptRow :=
  ⟨r.prevHash,r.ts,r.edgeId,r.kind,r.routingTokenHash,Json.canonicalJson edge.floats r.payload,r.hash,r.sig,session⟩

/- The head in memory follows once the transaction is committed. -/
def emit (ts : Int64) (kind tokenHex : String) (payload : Json.Value) (session : Nat) : Work Unit := do
  let head ← memory (fun s => (s.head,s))
  let r := edge.signer.sign edge.crypto edge.floats (head.1 + 1) head.2 ts kind (routingTokenHashOfHex edge tokenHex) payload
  transaction (do
    statement (fun s => (insertRow (clampI64 r.seq) (storedRow edge r session) s.receipts).map (fun rows => ((),{ s with receipts := rows })))
    execute (fun s => ((),{ s with receiptsHead := some (clampI64 r.seq,r.hash) }))
    pure (.commit ()))
  memory (fun s => ((),{ s with head := (r.seq,r.hash) }))

def openSession (tokenHex transport : String) (now : Int64) : Work Nat := do
  let existing ← select (fun s => (openOf (some tokenHex) s).getLast?)
  match existing with
  | some (id,row) =>
    if row.transport ≠ transport then
      execute (fun s => ((),{ s with sessions := (updateWhere (fun k _ => k = id) (fun row => { row with transport := transport }) s.sessions).2 }))
      pure id
    else pure id
  | none =>
    let row : SessionRow := {
      routingToken := tokenHex
      transport := transport
      connectedAt := now
      lastFlush := now }
    let id ← execute (fun s => (nextId s,{ s with sessions := s.sessions.insert (nextId s) row }))
    emit edge now kindSessionOpen tokenHex (openPayload now transport) id
    pure id

def emitClose (row : OpenRow) (now : Int64) (reason : String) : Work Unit := do
  emit edge now kindSessionClose row.tokenHex (closePayload row.bytesIn row.bytesOut row.connectedAt now reason) row.id
  memory (fun s => ((),{ s with snapshots := s.snapshots.erase row.id }))

/- The `UPDATE` that ends the open sessions, of a token or of all. -/
def closeOpen (token : Option String) (now : Int64) (reason : String) (s : Store) : Nat × Store :=
  let (n,sessions) := updateWhere (fun _ row => isOpen token row)
    (fun row => { row with disconnectedAt := some now, reason := some reason, lastFlush := now }) s.sessions
  (n,{ s with sessions := sessions })

def closeSession (tokenHex : String) (now : Int64) (reason : String) : Work Bool := do
  let rows ← openRows (some tokenHex)
  if rows.isEmpty then pure false
  else
    let _ ← execute (closeOpen (some tokenHex) now reason)
    rows.foldlM (fun _ row => emitClose edge row now reason) ()
    pure true

def closeStaleOpenSessions (now : Int64) (reason : String) : Work Nat := do
  let rows ← openRows none
  let n ← execute (closeOpen none now reason)
  rows.foldlM (fun _ row => emitClose edge row now reason) ()
  pure n

def snapshot (now : Int64) (emitted : Nat) (row : OpenRow) : Work Nat := do
  let last ← memory (fun s => (s.snapshots[row.id]?.getD (0,0),s))
  if last = (row.bytesIn,row.bytesOut) then pure emitted
  else
    emit edge now kindBytes row.tokenHex (bytesPayload row.bytesIn row.bytesOut row.connectedAt) row.id
    memory (fun s => ((),{ s with snapshots := s.snapshots.insert row.id (row.bytesIn,row.bytesOut) }))
    pure (emitted + 1)

def emitBytesSnapshots (now : Int64) : Work Nat := do
  let rows ← openRows none
  rows.foldlM (snapshot edge now) 0

end Emission

def addSessionBytes (tokenHex : String) (deltaIn deltaOut : UInt64) (now : Int64) : Work Bool := do
  let n ← execute (fun s =>
    let (n,sessions) := updateWhere (fun _ row => isOpen (some tokenHex) row)
      (fun row => { row with
        bytesIn := row.bytesIn.add (clampI64 deltaIn)
        bytesOut := row.bytesOut.add (clampI64 deltaOut)
        lastFlush := now }) s.sessions
    (n,{ s with sessions := sessions }))
  pure (0 < n)

/- A new process on the same tables: the head is loaded from them. -/
def withReceipts (s : Store) : Store :=
  { s with
    head := match s.receiptsHead with
      | some (seq,hash) => (.ofNat seq,hash)
      | none => (0,genesisPrevHash)
    snapshots := ∅ }

inductive Op where
  | openSession (tokenHex transport : String) (now : Int64)
  | addSessionBytes (tokenHex : String) (deltaIn deltaOut : UInt64) (now : Int64)
  | closeSession (tokenHex : String) (now : Int64) (reason : String)
  | emitBytesSnapshots (now : Int64)
  | closeStaleOpenSessions (now : Int64) (reason : String)
  | restart
  deriving DecidableEq

/- A call, and which of its statements fail. -/
structure Call where
  op : Op
  faults : List Bool := []
  deriving DecidableEq

/- Whether a session was carried through, and what it left. -/
def settle {α : Type} (x : Work α) (s : Store) (faults : List Bool) : Bool × Store :=
  let (answer,next) := perform x s faults
  (answer.isOk,next)

def step (edge : Emitter) (s : Store) (call : Call) : Bool × Store :=
  match call.op with
  | .openSession tokenHex transport now => settle (openSession edge tokenHex transport now) s call.faults
  | .addSessionBytes tokenHex deltaIn deltaOut now => settle (addSessionBytes tokenHex deltaIn deltaOut now) s call.faults
  | .closeSession tokenHex now reason => settle (closeSession edge tokenHex now reason) s call.faults
  | .emitBytesSnapshots now => settle (emitBytesSnapshots edge now) s call.faults
  | .closeStaleOpenSessions now reason => settle (closeStaleOpenSessions edge now reason) s call.faults
  | .restart => (true,withReceipts s)

def run (edge : Emitter) (calls : List Call) : Store := Machine.run (step edge) {} calls

/- The receipts that were committed, each with its session. -/
abbrev Entries := List (Nat × Event)

section Chain
variable (edge : Emitter)

def chain (entries : Entries) : List Receipt := emitted edge.crypto edge.floats edge.signer (entries.map Prod.snd)

def lastHash (entries : Entries) : String := ((chain edge entries).getLast?.map Receipt.hash).getD genesisPrevHash

/- The receipt that comes after some. -/
def nextReceipt (entries : Entries) (e : Event) : Receipt :=
  edge.signer.sign edge.crypto edge.floats (.ofNat (entries.length + 1)) (lastHash edge entries) e.ts e.kind e.routingTokenHash e.payload

def ledger (entries : Entries) : List (Nat × ReceiptRow) :=
  ((chain edge entries).zip entries).map (fun x => (x.1.seq.toNat,storedRow edge x.1 x.2.1))

/- The tables hold a chain of receipts, and the head is the last of them, also in memory. -/
structure Chained (entries : Entries) (s : Store) : Prop where
  rows : s.receipts.toList = ledger edge entries
  fits : entries.length < 2 ^ 63
  stored : s.receiptsHead = if entries.isEmpty then none else some (entries.length,lastHash edge entries)
  cached : s.head = (.ofNat entries.length,lastHash edge entries)

variable {edge} {entries : Entries} {s : Store}

theorem emitNext (seq : UInt64) (prevHash : String) (events : List Event) (e : Event) :
    let earlier := emitFrom edge.crypto edge.floats edge.signer seq prevHash events
    emitFrom edge.crypto edge.floats edge.signer seq prevHash (events ++ [e]) = earlier ++
      [edge.signer.sign edge.crypto edge.floats (seq + .ofNat events.length) ((earlier.getLast?.map Receipt.hash).getD prevHash)
        e.ts e.kind e.routingTokenHash e.payload] := by
  induction events generalizing seq prevHash with
  | nil => simp [emitFrom]
  | cons first rest ih =>
    simp only [List.cons_append, emitFrom, ih]
    have count : seq + 1 + .ofNat rest.length = seq + .ofNat (rest.length + 1) := by
      rw [UInt64.ofNat_add, UInt64.add_assoc, UInt64.add_comm 1]
      rfl
    rw [count, List.length_cons]
    cases emitFrom edge.crypto edge.floats edge.signer (seq + 1) _ rest with
    | nil => rfl
    | cons r more => simp [List.getLast?_cons]

theorem chainNext (id : Nat) (e : Event) : chain edge (entries ++ [(id,e)]) = chain edge entries ++ [nextReceipt edge entries e] := by
  rw [chain, List.map_append]
  refine (emitNext 1 genesisPrevHash (entries.map Prod.snd) e).trans ?_
  rw [nextReceipt, lastHash, List.length_map, UInt64.ofNat_add, UInt64.add_comm]
  rfl

theorem chainLength (entries : Entries) : (chain edge entries).length = entries.length := by
  rw [chain, emitted, emittedLength, List.length_map]

theorem lastHashNext (id : Nat) (e : Event) : lastHash edge (entries ++ [(id,e)]) = (nextReceipt edge entries e).hash := by
  rw [lastHash, chainNext]
  simp

theorem chainSeq (fits : entries.length < 2 ^ 63) {i : Nat} {r : Receipt} (found : (chain edge entries)[i]? = some r) :
    r.seq.toNat = i + 1 := emittedPosition (by rw [List.length_map]; omega) found

theorem nextSeq (fits : entries.length < 2 ^ 63) (e : Event) : (nextReceipt edge entries e).seq.toNat = entries.length + 1 := by
  simp only [nextReceipt, ReceiptSigner.sign]
  exact UInt64.toNat_ofNat_of_lt' (by show entries.length + 1 < 2 ^ 64; omega)

theorem ledgerNext (fits : entries.length < 2 ^ 63) (id : Nat) (e : Event) :
    ledger edge (entries ++ [(id,e)]) = ledger edge entries ++ [(entries.length + 1,storedRow edge (nextReceipt edge entries e) id)] := by
  rw [ledger, chainNext, List.zip_append (chainLength entries), List.map_append, ledger]
  simp only [List.zip_cons_cons, List.zip_nil_right, List.map_cons, List.map_nil, nextSeq fits]

theorem ledgerKeys (fits : entries.length < 2 ^ 63) : (ledger edge entries).map Prod.fst = List.range' 1 entries.length := by
  induction entries using List.reverseRecOn with
  | nil => rfl
  | append_singleton entries x ih =>
    rw [List.length_append, List.length_singleton] at fits
    have earlier : entries.length < 2 ^ 63 := by omega
    rw [ledgerNext earlier, List.map_append, ih earlier, List.length_append, List.length_singleton, List.range'_1_concat, Nat.add_comm 1]
    rfl

theorem rowBelow (chained : Chained edge entries s) {k : Nat} (present : k ∈ s.receipts) : 1 ≤ k ∧ k ≤ entries.length := by
  obtain ⟨row,found⟩ := Option.isSome_iff_exists.mp (ExtTreeMap.mem_iff_isSome_getElem?.mp present)
  have mem := List.mem_map_of_mem (f := Prod.fst) (ExtTreeMap.mem_toList_iff_getElem?_eq_some.mpr found)
  rw [chained.rows, ledgerKeys chained.fits, List.mem_range'_1] at mem
  omega

theorem rowPresent (chained : Chained edge entries s) {k : Nat} (low : 1 ≤ k) (high : k ≤ entries.length) : k ∈ s.receipts := by
  have mem : k ∈ (ledger edge entries).map Prod.fst := by
    rw [ledgerKeys chained.fits, List.mem_range'_1]
    omega
  rw [← chained.rows] at mem
  obtain ⟨e,listed,rfl⟩ := List.mem_map.mp mem
  have found := ExtTreeMap.mem_toList_iff_getElem?_eq_some.mp listed
  exact ExtTreeMap.mem_iff_isSome_getElem?.mpr (by rw [found]; rfl)

variable (edge) in
/- What a committed receipt leaves. -/
def appended (entries : Entries) (s : Store) (id : Nat) (e : Event) : Store :=
  let r := nextReceipt edge entries e
  { s with
    receipts := s.receipts.insert (entries.length + 1) (storedRow edge r id)
    receiptsHead := some (entries.length + 1,r.hash)
    head := (r.seq,r.hash) }

theorem chainedNext (chained : Chained edge entries s) (room : entries.length + 1 < 2 ^ 63) (id : Nat) (e : Event) :
    Chained edge (entries ++ [(id,e)]) (appended edge entries s id e) := by
  have above : ∀ k ∈ s.receipts, compare k (entries.length + 1) = .lt := by
    intro k mem
    have below := (rowBelow chained mem).2
    exact compare_lt_iff_lt.mpr (by omega)
  refine ⟨?_,by rw [List.length_append]; exact room,?_,?_⟩
  · exact (insertLast above _).trans (by rw [chained.rows, ledgerNext chained.fits])
  · simp [appended, lastHashNext]
  · rw [lastHashNext, List.length_append, List.length_singleton]
    rfl

theorem chainedSessions (chained : Chained edge entries s) {t : Store} (rows : t.receipts = s.receipts)
    (stored : t.receiptsHead = s.receiptsHead) (cached : t.head = s.head) : Chained edge entries t :=
  ⟨rows ▸ chained.rows,chained.fits,stored ▸ chained.stored,cached ▸ chained.cached⟩

/- Either the whole receipt is committed or nothing happens. -/
theorem emitEnds (chained : Chained edge entries s) (ts : Int64) (kind tokenHex : String) (payload : Json.Value) (id : Nat) :
    Ends (emit edge ts kind tokenHex payload id) s (fun
      | .ok _, m => entries.length + 1 < 2 ^ 63 ∧
          m = appended edge entries s id ⟨ts,kind,routingTokenHashOfHex edge tokenHex,payload⟩
      | .error _, m => m = s) := by
  let e : Event := ⟨ts,kind,routingTokenHashOfHex edge tokenHex,payload⟩
  have number : (UInt64.ofNat entries.length + 1) = .ofNat (entries.length + 1) := Words.ofNatSucc entries.length
  have signed : edge.signer.sign edge.crypto edge.floats (s.head.1 + 1) s.head.2 ts kind (routingTokenHashOfHex edge tokenHex) payload =
      nextReceipt edge entries e := by rw [chained.cached, number]; rfl
  unfold emit
  refine endsMemory ?_
  simp only [signed]
  have clamped : clampI64 (nextReceipt edge entries e).seq = min (entries.length + 1) (2 ^ 63 - 1) := by
    rw [clampI64, nextSeq chained.fits]
  rw [clamped]
  refine endsBind (fun _ m => entries.length + 1 < 2 ^ 63 ∧
      m = { appended edge entries s id e with head := s.head }) (endsTransaction rfl ?_) ?_
  · refine endsStatement rfl (fun _ _ => rfl) ?_
    intro _ m inserted
    by_cases room : entries.length + 1 < 2 ^ 63
    · have column : min (entries.length + 1) (2 ^ 63 - 1) = entries.length + 1 := by omega
      have fresh : s.receipts.contains (entries.length + 1) = false := by
        rw [← Bool.not_eq_true, ExtTreeMap.contains_iff_mem]
        intro mem
        have below := (rowBelow chained mem).2
        omega
      rw [column, insertRow, fresh] at inserted
      cases Except.ok.inj inserted
      rw [column]
      exact endsExecute rfl (endsPure ⟨room,rfl⟩)
    · -- The column saturates at the last number, which is taken.
      have full : entries.length = 2 ^ 63 - 1 := by have fits := chained.fits; omega
      have taken : s.receipts.contains (min (entries.length + 1) (2 ^ 63 - 1)) = true :=
        ExtTreeMap.contains_iff_mem.mpr (rowPresent chained (by omega) (by omega))
      rw [insertRow, taken] at inserted
      contradiction
  · rintro _ m ⟨room,rfl⟩
    exact fun faults => ⟨room,rfl⟩

end Chain
/- How many receipts of a kind there are about a session. -/
def issued (entries : Entries) (id : Nat) (kind : String) : Nat := entries.countP (fun x => x.1 = id ∧ x.2.kind = kind)

theorem issuedGrows {entries more : Entries} (grown : entries <+: more) (id : Nat) (kind : String) :
    issued entries id kind ≤ issued more id kind := grown.sublist.countP_le

theorem issuedNext (entries : Entries) (x : Nat × Event) (id : Nat) (kind : String) :
    issued (entries ++ [x]) id kind = issued entries id kind + if x.1 = id ∧ x.2.kind = kind then 1 else 0 := by
  simp [issued, List.countP_append, List.countP_cons]

theorem issuedNone {entries : Entries} {id : Nat} {kind : String} (none' : ∀ x ∈ entries, x.1 = id → x.2.kind ≠ kind) :
    issued entries id kind = 0 := by
  rw [issued, List.countP_eq_zero]
  intro x mem
  simpa using none' x mem

/- What the receipt about the end of a session says, once it has ended. -/
def closing (row : SessionRow) : Option Json.Value := do
  let disconnectedAt ← row.disconnectedAt
  let reason ← row.reason
  let bytesIn ← row.bytesIn
  let bytesOut ← row.bytesOut
  some (closePayload (.ofNat bytesIn) (.ofNat bytesOut) row.connectedAt disconnectedAt reason)

/- A string, or a whole number of either sign. -/
def Scalar (v : Json.Value) : Prop := (∃ text, v = .string text) ∨ (∃ n, v = .number (.posInt n)) ∨ ∃ i below, v = .number (.negInt i below)

/- An object of such members, in the order of their keys. -/
def Plain (v : Json.Value) : Prop :=
  ∃ members, v = .object members ∧ (members.map Prod.fst).Pairwise (· < ·) ∧
    ∀ m ∈ members, Scalar m.2

/- The receipts and the sessions they are about. -/
structure Kept (entries : Entries) (sessions : BTreeMap Nat SessionRow) : Prop where
  once : ∀ id kind, kind = kindSessionOpen ∨ kind = kindSessionClose → issued entries id kind ≤ 1
  known : ∀ x ∈ entries, x.1 ∈ sessions
  ending : ∀ x ∈ entries, x.2.kind = kindSessionClose → ∃ row, sessions[x.1]? = some row ∧ closing row = some x.2.payload
  plain : ∀ x ∈ entries, Plain x.2.payload
  single : ∀ (i j : Nat) (row other : SessionRow), sessions[i]? = some row → sessions[j]? = some other →
    row.disconnectedAt = none → other.disconnectedAt = none → row.routingToken = other.routingToken → i = j

section Kept
variable {entries : Entries} {sessions next : BTreeMap Nat SessionRow}

theorem closingEnded {row : SessionRow} {payload : Json.Value} (ended : closing row = some payload) : row.disconnectedAt.isSome := by
  cases at' : row.disconnectedAt with
  | none => simp [closing, at'] at ended
  | some t => rfl

/- Rows that have ended stay as they are, and no row changes its token. -/
theorem keptChanged (kept : Kept entries sessions) (same : ∀ id, id ∈ next ↔ id ∈ sessions)
    (changed : ∀ (id : Nat) (row : SessionRow), next[id]? = some row → ∃ old, sessions[id]? = some old ∧
      row.routingToken = old.routingToken ∧ (old.disconnectedAt.isSome → row = old)) : Kept entries next := by
  have before : ∀ (id : Nat) (row : SessionRow), next[id]? = some row → row.disconnectedAt = none →
      ∃ old, sessions[id]? = some old ∧ old.disconnectedAt = none ∧ row.routingToken = old.routingToken := by
    intro id row found live
    obtain ⟨old,first,token,frozen⟩ := changed id row found
    refine ⟨old,first,?_,token⟩
    cases ended : old.disconnectedAt with
    | none => rfl
    | some t =>
      rw [frozen (by rw [ended]; rfl), ended] at live
      contradiction
  refine ⟨kept.once,fun x mem => (same x.1).mpr (kept.known x mem),?_,kept.plain,?_⟩
  · intro x mem kind
    obtain ⟨row,found,payload⟩ := kept.ending x mem kind
    obtain ⟨row',found'⟩ := Option.isSome_iff_exists.mp (ExtTreeMap.mem_iff_isSome_getElem?.mp ((same x.1).mpr (kept.known x mem)))
    obtain ⟨old,first,_,frozen⟩ := changed x.1 row' found'
    obtain rfl : row = old := Option.some.inj (found.symm.trans first)
    exact ⟨row,frozen (closingEnded payload) ▸ found',payload⟩
  · intro i j row other left right live live' token
    obtain ⟨old,first,open',token'⟩ := before i row left live
    obtain ⟨old',second,open'',token''⟩ := before j other right live'
    exact kept.single i j old old' first second open' open'' (by rw [← token', ← token'', token])

theorem keptInserted (kept : Kept entries sessions) {id : Nat} (fresh : id ∉ sessions) {row : SessionRow}
    (free : ∀ (j : Nat) (other : SessionRow), sessions[j]? = some other → other.disconnectedAt = none →
      other.routingToken ≠ row.routingToken) : Kept entries (sessions.insert id row) := by
  have kept' : ∀ (k : Nat) (old : SessionRow), sessions[k]? = some old → (sessions.insert id row)[k]? = some old := by
    intro k old found
    rw [lookupInsert, if_neg, found]
    rintro rfl
    exact fresh (ExtTreeMap.mem_iff_isSome_getElem?.mpr (by rw [found]; rfl))
  refine ⟨kept.once,fun x mem => ExtTreeMap.mem_insert.mpr (.inr (kept.known x mem)),?_,kept.plain,?_⟩
  · intro x mem kind
    obtain ⟨old,found,payload⟩ := kept.ending x mem kind
    exact ⟨old,kept' x.1 old found,payload⟩
  · intro i j first second left right live live' token
    rw [lookupInsert] at left right
    split at left
    case isTrue here =>
      cases Option.some.inj left
      split at right
      case isTrue there => rw [here, there]
      case isFalse => exact absurd token.symm (free j second right live')
    case isFalse =>
      split at right
      case isTrue there =>
        cases Option.some.inj right
        exact absurd token (free i first left live)
      case isFalse => exact kept.single i j first second left right live live' token

theorem keptIssued (kept : Kept entries sessions) {id : Nat} {e : Event} (known : id ∈ sessions) (plain : Plain e.payload)
    (first : e.kind = kindSessionOpen ∨ e.kind = kindSessionClose → issued entries id e.kind = 0)
    (ending : e.kind = kindSessionClose → ∃ row, sessions[id]? = some row ∧ closing row = some e.payload) :
    Kept (entries ++ [(id,e)]) sessions := by
  have either : ∀ {p : Nat × Event → Prop}, (∀ x ∈ entries, p x) → p (id,e) → ∀ x ∈ entries ++ [(id,e)], p x := by
    intro p old new x mem
    obtain earlier | last := List.mem_append.mp mem
    · exact old x earlier
    · rw [List.mem_singleton.mp last]
      exact new
  refine ⟨?_,either kept.known known,either kept.ending ending,either kept.plain plain,kept.single⟩
  intro id' kind meant
  rw [issuedNext]
  split
  case isTrue here =>
    obtain ⟨rfl,rfl⟩ := here
    rw [first meant]
  case isFalse => exact kept.once id' kind meant

end Kept

/- A row id that no session has. -/
theorem idFresh (s : Store) : nextId s ∉ s.sessions := by
  intro present
  obtain ⟨k,top⟩ := Option.isSome_iff_exists.mp (ExtTreeMap.isSome_maxKey?_of_mem present)
  have below := ExtTreeMap.le_maxKey?_of_mem present rfl
  have id : nextId s = k + 1 := by rw [nextId, ← ExtTreeMap.maxKey?_eq_getLast?_keys, top]; rfl
  simp only [top, Option.get_some, id, Nat.isLE_compare] at below
  omega

/- A row of the query, and the session that it was read from. -/
def ReadFrom (row : OpenRow) (e : Nat × SessionRow) : Prop :=
  row.id = e.1 ∧ row.tokenHex = e.2.routingToken ∧ row.connectedAt = e.2.connectedAt ∧
    (∃ n, e.2.bytesIn = some n ∧ row.bytesIn = .ofNat n) ∧ ∃ n, e.2.bytesOut = some n ∧ row.bytesOut = .ofNat n

theorem counterRead {column : String} {c : Counter} {v : UInt64} (ok : readCounter column c = .ok v) : ∃ n, c = some n ∧ v = .ofNat n := by
  cases c with
  | none => contradiction
  | some n => exact ⟨n,rfl,(Except.ok.inj ok).symm⟩

theorem openRead {e : Nat × SessionRow} {row : OpenRow} (ok : readOpen e = .ok row) : ReadFrom row e := by
  obtain ⟨bytesIn,first,ok⟩ := Machine.bindOk.mp ok
  obtain ⟨bytesOut,second,ok⟩ := Machine.bindOk.mp ok
  cases Except.ok.inj ok
  exact ⟨rfl,rfl,rfl,counterRead first,counterRead second⟩

/- The rows of a query are those it selects, each as it stands. -/
structure Rows (rows : List OpenRow) (found : List (Nat × SessionRow)) : Prop where
  ids : rows.map OpenRow.id = found.map Prod.fst
  read : ∀ row ∈ rows, ∃ e ∈ found, ReadFrom row e

theorem rowsRead {found : List (Nat × SessionRow)} {rows : List OpenRow} (ok : found.mapM readOpen = .ok rows) : Rows rows found := by
  induction found generalizing rows with
  | nil =>
    rw [List.mapM_nil] at ok
    cases Except.ok.inj ok
    exact ⟨rfl,nofun⟩
  | cons e rest ih =>
    rw [List.mapM_cons] at ok
    obtain ⟨row,first,ok⟩ := Machine.bindOk.mp ok
    obtain ⟨more,later,ok⟩ := Machine.bindOk.mp ok
    cases Except.ok.inj ok
    have from' := openRead first
    have tail := ih later
    refine ⟨by rw [List.map_cons, List.map_cons, from'.1, tail.ids],?_⟩
    intro r mem
    obtain rfl | mem := List.mem_cons.mp mem
    · exact ⟨e,List.mem_cons_self,from'⟩
    · obtain ⟨e',listed,read⟩ := tail.read r mem
      exact ⟨e',List.mem_cons_of_mem e listed,read⟩

section Rows
variable {token : Option String} {s : Store} {rows : List OpenRow}

theorem openListed {e : Nat × SessionRow} : e ∈ openOf token s ↔ s.sessions[e.1]? = some e.2 ∧ isOpen token e.2 := by
  rw [openOf, List.mem_filter, ← ExtTreeMap.mem_toList_iff_getElem?_eq_some]

theorem rowListed (read : Rows rows (openOf token s)) {row : OpenRow} (mem : row ∈ rows) :
    ∃ old, s.sessions[row.id]? = some old ∧ isOpen token old ∧ ReadFrom row (row.id,old) := by
  obtain ⟨e,listed,from'⟩ := read.read row mem
  obtain ⟨found,open'⟩ := openListed.mp listed
  rw [← from'.1] at found
  exact ⟨e.2,found,open',rfl,from'.2⟩

theorem rowOf (read : Rows rows (openOf token s)) {id : Nat} {old : SessionRow} (found : s.sessions[id]? = some old)
    (open' : isOpen token old) : ∃ row ∈ rows, row.id = id := by
  have listed : (id,old) ∈ openOf token s := openListed.mpr ⟨found,open'⟩
  have mem : id ∈ rows.map OpenRow.id := read.ids ▸ List.mem_map.mpr ⟨(id,old),listed,rfl⟩
  exact List.mem_map.mp mem

theorem idsDistinct (read : Rows rows (openOf token s)) : (rows.map OpenRow.id).Nodup := by
  rw [read.ids]
  exact (keysNodup s.sessions).sublist (List.filter_sublist.map Prod.fst)

end Rows

section Emitting
variable {edge : Emitter} {entries : Entries} {s : Store}

/- The tables and the memory between two statements. -/
structure Good (edge : Emitter) (entries : Entries) (s : Store) : Prop where
  chained : Chained edge entries s
  kept : Kept entries s.sessions

/- What a call leaves: more receipts, and all that it owes when it was carried through. -/
structure Advance (entries more : Entries) (sessions next : BTreeMap Nat SessionRow) (carried : Bool) : Prop where
  grown : entries <+: more
  fresh : ∀ (id : Nat) (row : SessionRow), next[id]? = some row → id ∉ sessions → row.disconnectedAt = none
  opened : carried → ∀ id, id ∈ next → id ∉ sessions → 1 ≤ issued more id kindSessionOpen
  closed : carried → ∀ (id : Nat) (row ended : SessionRow), sessions[id]? = some row → row.disconnectedAt = none →
    next[id]? = some ended → ended.disconnectedAt.isSome → 1 ≤ issued more id kindSessionClose

variable (edge) in
def After (entries : Entries) (s : Store) (carried : Bool) (m : Store) : Prop :=
  ∃ more, Good edge more m ∧ Advance entries more s.sessions m.sessions carried

/- No session is new. -/
theorem advanceKnown {more : Entries} {sessions next : BTreeMap Nat SessionRow} {carried : Bool} (grown : entries <+: more)
    (same : ∀ id, id ∈ next → id ∈ sessions) (closed : carried → ∀ (id : Nat) (row ended : SessionRow), sessions[id]? = some row →
      row.disconnectedAt = none → next[id]? = some ended → ended.disconnectedAt.isSome → 1 ≤ issued more id kindSessionClose) :
    Advance entries more sessions next carried :=
  ⟨grown,fun id _ found absent => absurd (same id (ExtTreeMap.mem_iff_isSome_getElem?.mpr (by rw [found]; rfl))) absent,
    fun _ id present absent => absurd (same id present) absent,closed⟩

theorem advanceIdle {more : Entries} {sessions : BTreeMap Nat SessionRow} (grown : entries <+: more) (carried : Bool) :
    Advance entries more sessions sessions carried := by
  refine advanceKnown grown (fun _ => id) ?_
  intro _ id row ended found live found' gone
  rw [found] at found'
  rw [← Option.some.inj found', live] at gone
  contradiction

theorem idle (good : Good edge entries s) (carried : Bool) : After edge entries s carried s :=
  ⟨entries,good,advanceIdle (List.prefix_refl _) carried⟩

theorem goodSessions (good : Good edge entries s) {next : BTreeMap Nat SessionRow} (kept : Kept entries next) :
    Good edge entries { s with sessions := next } := ⟨chainedSessions good.chained rfl rfl rfl,kept⟩

theorem goodSnapshots (good : Good edge entries s) (snapshots : BTreeMap Nat (UInt64 × UInt64)) :
    Good edge entries { s with snapshots := snapshots } := ⟨chainedSessions good.chained rfl rfl rfl,good.kept⟩

/- Only open rows are updated, and they keep their token. -/
theorem keptTouched {sessions : BTreeMap Nat SessionRow} (kept : Kept entries sessions) {p : Nat → SessionRow → Bool}
    {change : SessionRow → SessionRow} (live : ∀ (id : Nat) (row : SessionRow), sessions[id]? = some row → p id row → row.disconnectedAt = none)
    (token : ∀ row, (change row).routingToken = row.routingToken) : Kept entries (updateWhere p change sessions).2 := by
  refine keptChanged kept ?_ ?_
  · intro id
    rw [ExtTreeMap.mem_iff_isSome_getElem?, ExtTreeMap.mem_iff_isSome_getElem?, lookupUpdated, Option.isSome_map]
  · intro id row found
    rw [lookupUpdated] at found
    obtain ⟨old,first,same⟩ := Option.map_eq_some_iff.mp found
    refine ⟨old,first,?_,?_⟩
    · rw [← same]
      split
      · exact token old
      · rfl
    · intro gone
      rw [← same, if_neg]
      intro hit
      rw [live id old first hit] at gone
      contradiction

theorem touched (good : Good edge entries s) {p : Nat → SessionRow → Bool} {change : SessionRow → SessionRow}
    (live : ∀ (id : Nat) (row : SessionRow), s.sessions[id]? = some row → p id row → row.disconnectedAt = none)
    (token : ∀ row, (change row).routingToken = row.routingToken) (open' : ∀ row, (change row).disconnectedAt = row.disconnectedAt)
    (carried : Bool) : After edge entries s carried { s with sessions := (updateWhere p change s.sessions).2 } := by
  refine ⟨entries,goodSessions good (keptTouched good.kept live token),advanceKnown (List.prefix_refl _) ?_ ?_⟩
  · intro id present
    rw [ExtTreeMap.mem_iff_isSome_getElem?, lookupUpdated, Option.isSome_map] at present
    exact ExtTreeMap.mem_iff_isSome_getElem?.mpr present
  · intro _ id row ended found still found' gone
    simp only [lookupUpdated, found, Option.map_some, Option.some.injEq] at found'
    have same : ended.disconnectedAt = none := by
      rw [← found']
      split
      · exact (open' row).trans still
      · exact still
    rw [same] at gone
    contradiction

theorem openLive {token : Option String} {row : SessionRow} (open' : isOpen token row) : row.disconnectedAt = none := by
  rw [isOpen, Bool.and_eq_true] at open'
  exact Option.isNone_iff_eq_none.mp open'.1

/- One more receipt about a session that is there. -/
theorem emitAfter (good : Good edge entries s) (ts : Int64) (kind tokenHex : String) (payload : Json.Value) {id : Nat}
    (known : id ∈ s.sessions) (plain : Plain payload)
    (first : kind = kindSessionOpen ∨ kind = kindSessionClose → issued entries id kind = 0)
    (ending : kind = kindSessionClose → ∃ row, s.sessions[id]? = some row ∧ closing row = some payload) :
    Ends (emit edge ts kind tokenHex payload id) s (fun
      | .ok _, m => Good edge (entries ++ [(id,⟨ts,kind,routingTokenHashOfHex edge tokenHex,payload⟩)]) m ∧ m.sessions = s.sessions
      | .error _, m => m = s) := by
  refine endsMono (emitEnds good.chained ts kind tokenHex payload id) ?_
  rintro (_ | _) m left
  · exact left
  · obtain ⟨room,rfl⟩ := left
    exact ⟨⟨chainedNext good.chained room id _,keptIssued good.kept known plain first ending⟩,rfl⟩

theorem issuedUnknown (kept : Kept entries s.sessions) {id : Nat} (absent : id ∉ s.sessions) (kind : String) : issued entries id kind = 0 :=
  issuedNone (fun x mem same _ => absent (same ▸ kept.known x mem))

theorem issuedLive (kept : Kept entries s.sessions) {id : Nat} {row : SessionRow} (found : s.sessions[id]? = some row)
    (live : row.disconnectedAt = none) : issued entries id kindSessionClose = 0 := by
  refine issuedNone ?_
  rintro x mem rfl kind
  obtain ⟨row',found',payload⟩ := kept.ending x mem kind
  rw [found] at found'
  have gone := closingEnded payload
  rw [← Option.some.inj found', live] at gone
  contradiction

theorem scalarString (text : String) : Scalar (.string text) := .inl ⟨text,rfl⟩

theorem scalarCount (n : UInt64) : Scalar (.number (.posInt n)) := .inr (.inl ⟨n,rfl⟩)

theorem scalarTime (i : Int64) : Scalar (.number (.fromI64 i)) := by
  rw [Json.Number.fromI64]
  split
  case isTrue below => exact .inr (.inr ⟨i,below,rfl⟩)
  case isFalse => exact scalarCount _

theorem plainOpen (connectedAt : Int64) (transport : String) : Plain (openPayload connectedAt transport) := by
  refine ⟨_,rfl,by simp only [List.map_cons, List.map_nil]; decide,?_⟩
  simp only [List.forall_mem_cons, List.not_mem_nil, false_imp_iff, implies_true, and_true]
  exact ⟨scalarTime connectedAt,scalarString transport⟩

theorem plainBytes (bytesIn bytesOut : UInt64) (connectedAt : Int64) : Plain (bytesPayload bytesIn bytesOut connectedAt) := by
  refine ⟨_,rfl,by simp only [List.map_cons, List.map_nil]; decide,?_⟩
  simp only [List.forall_mem_cons, List.not_mem_nil, false_imp_iff, implies_true, and_true]
  exact ⟨scalarCount bytesIn,scalarCount bytesOut,scalarTime connectedAt⟩

theorem plainClose (bytesIn bytesOut : UInt64) (connectedAt disconnectedAt : Int64) (reason : String) :
    Plain (closePayload bytesIn bytesOut connectedAt disconnectedAt reason) := by
  refine ⟨_,rfl,by simp only [List.map_cons, List.map_nil]; decide,?_⟩
  simp only [List.forall_mem_cons, List.not_mem_nil, false_imp_iff, implies_true, and_true]
  exact ⟨scalarCount bytesIn,scalarCount bytesOut,scalarTime connectedAt,scalarTime disconnectedAt,scalarString reason⟩

theorem openSessionAfter (good : Good edge entries s) (tokenHex transport : String) (now : Int64) :
    Ends (openSession edge tokenHex transport now) s (fun r m => After edge entries s r.isOk m) := by
  unfold openSession
  refine endsSelect (idle good _) ?_
  split
  case h_1 id row last =>
    obtain ⟨found,open'⟩ := openListed.mp (List.mem_of_getLast? last)
    split
    case isTrue =>
      refine endsExecute (idle good _) (endsPure ?_)
      refine touched good ?_ ?_ ?_ _
      · intro k old found' same
        obtain rfl : k = id := of_decide_eq_true same
        obtain rfl : row = old := Option.some.inj (found.symm.trans found')
        exact openLive open'
      all_goals exact fun _ => rfl
    case isFalse => exact endsPure (idle good _)
  case h_2 none' =>
    refine endsExecute (idle good _) ?_
    have fresh := idFresh s
    generalize nextId s = id at fresh ⊢
    have free : ∀ (j : Nat) (other : SessionRow), s.sessions[j]? = some other → other.disconnectedAt = none →
        other.routingToken ≠ tokenHex := by
      intro j other found live same
      have listed : (j,other) ∈ openOf (some tokenHex) s := openListed.mpr ⟨found,by simp [isOpen, live, same]⟩
      rw [List.getLast?_eq_none_iff.mp none'] at listed
      exact List.not_mem_nil listed
    have inserted := goodSessions good (@keptInserted _ _ good.kept id fresh ⟨tokenHex,transport,now,none,none,some 0,some 0,now⟩ free)
    have known : id ∈ s.sessions.insert id (⟨tokenHex,transport,now,none,none,some 0,some 0,now⟩ : SessionRow) := by simp
    have unissued := issuedUnknown good.kept fresh
    refine endsBind (fun _ m => After edge entries s true m)
      (endsMono (emitAfter inserted now kindSessionOpen tokenHex _ known (plainOpen now transport) (fun _ => unissued _)
        (fun same => absurd same (by decide))) ?_)
      (fun _ m after => endsPure after)
    have advance : ∀ {more : Entries} {carried : Bool}, entries <+: more → (carried → 1 ≤ issued more id kindSessionOpen) →
        Advance entries more s.sessions (s.sessions.insert id ⟨tokenHex,transport,now,none,none,some 0,some 0,now⟩) carried := by
      intro more carried grown owed
      refine ⟨grown,?_,?_,?_⟩
      · intro id' row found absent
        rw [lookupInsert] at found
        split at found
        · rw [← Option.some.inj found]
        · exact absurd (ExtTreeMap.mem_iff_isSome_getElem?.mpr (by rw [found]; rfl)) absent
      · intro ok id' present absent
        obtain same | old := ExtTreeMap.mem_insert.mp present
        · rw [← Std.LawfulEqOrd.eq_of_compare same]
          exact owed ok
        · exact absurd old absent
      · intro _ id' row ended found live found' gone
        rw [lookupInsert, if_neg, found] at found'
        · rw [← Option.some.inj found', live] at gone
          contradiction
        · rintro rfl
          exact fresh (ExtTreeMap.mem_iff_isSome_getElem?.mpr (by rw [found]; rfl))
    rintro (_ | _) m left
    · refine ⟨entries,left ▸ inserted,?_⟩
      rw [left]
      exact advance (List.prefix_refl _) nofun
    · refine ⟨_,left.1,?_⟩
      rw [left.2]
      refine advance (List.prefix_append _ _) (fun _ => ?_)
      rw [issuedNext, if_pos ⟨rfl,rfl⟩]
      omega

/- The tables as far as the receipts about ended sessions concern them: the loop over these has not come to the others. -/
structure Ending (entries : Entries) (s : Store) (before : List OpenRow) (more : Entries) (m : Store) : Prop where
  good : Good edge more m
  sessions : m.sessions = s.sessions
  grown : entries <+: more
  done : ∀ row ∈ before, 1 ≤ issued more row.id kindSessionClose
  rest : ∀ id, id ∉ before.map OpenRow.id → issued more id kindSessionClose = issued entries id kindSessionClose

/- Every session of a list gets the receipt about its end. -/
theorem closesEnd (good : Good edge entries s) {rows : List OpenRow} {now : Int64} {reason : String} (distinct : (rows.map OpenRow.id).Nodup)
    (unissued : ∀ row ∈ rows, issued entries row.id kindSessionClose = 0)
    (ended : ∀ row ∈ rows, ∃ r, s.sessions[row.id]? = some r ∧
      closing r = some (closePayload row.bytesIn row.bytesOut row.connectedAt now reason)) :
    Ends (rows.foldlM (fun _ row => emitClose edge row now reason) ()) s (fun r m =>
      ∃ more, Good edge more m ∧ m.sessions = s.sessions ∧ entries <+: more ∧
        (r.isOk → ∀ row ∈ rows, 1 ≤ issued more row.id kindSessionClose)) := by
  refine endsLoop (fun before _ m => ∃ more, @Ending edge entries s before more m)
    ⟨entries,good,rfl,List.prefix_refl _,nofun,fun _ _ => rfl⟩ ?_ ?_
  · rintro before row after _ m split' ⟨more,held⟩
    have mem : row ∈ rows := by rw [split']; exact List.mem_append_right _ List.mem_cons_self
    have new : row.id ∉ before.map OpenRow.id := by
      rw [split', List.map_append, List.map_cons] at distinct
      exact fun earlier => (List.nodup_append.mp distinct).2.2 _ earlier _ List.mem_cons_self rfl
    obtain ⟨r,found,payload⟩ := ended row mem
    rw [← held.sessions] at found
    have none' : issued more row.id kindSessionClose = 0 := (held.rest row.id new).trans (unissued row mem)
    have known : row.id ∈ m.sessions := ExtTreeMap.mem_iff_isSome_getElem?.mpr (by rw [found]; rfl)
    unfold emitClose
    refine endsBind (fun _ m' => ∃ more', @Ending edge entries s (before ++ [row]) more' m')
      (endsMono (emitAfter held.good now kindSessionClose row.tokenHex _ known
        (plainClose row.bytesIn row.bytesOut row.connectedAt now reason) ?_ (fun _ => ⟨r,found,payload⟩)) ?_) ?_
    · rintro (same | _)
      · exact absurd same (by decide)
      · exact none'
    · rintro (_ | _) m' left
      · rw [left]
        exact ⟨more,held.good,held.sessions,held.grown,nofun⟩
      · refine ⟨_,left.1,left.2.trans held.sessions,held.grown.trans (List.prefix_append _ _),?_,?_⟩
        · intro row' listed
          obtain earlier | last := List.mem_append.mp listed
          · exact (held.done row' earlier).trans (issuedGrows (List.prefix_append _ _) _ _)
          · rw [List.mem_singleton.mp last, issuedNext, if_pos ⟨rfl,rfl⟩]
            omega
        · intro id absent
          rw [List.map_append, List.mem_append, not_or, List.map_singleton, List.mem_singleton] at absent
          rw [issuedNext, if_neg (fun same => absent.2 same.1.symm), held.rest id absent.1]
          rfl
    · rintro _ m' ⟨more',held'⟩
      exact fun _ => ⟨more',goodSnapshots held'.good _,held'.sessions,held'.grown,held'.done,held'.rest⟩
  · rintro _ m ⟨more,held⟩
    exact ⟨more,held.good,held.sessions,held.grown,fun _ => held.done⟩

/- The sessions that a query has found open end, and each gets its receipt. -/
theorem closeRowsAfter {Reply : Type} (good : Good edge entries s) {token : Option String} {rows : List OpenRow}
    (read : Rows rows (openOf token s)) (now : Int64) (reason : String) (result : Nat → Reply) :
    Ends (do
      let n ← execute (closeOpen token now reason)
      rows.foldlM (fun _ row => emitClose edge row now reason) ()
      pure (result n)) s (fun r m => After edge entries s r.isOk m) := by
  refine endsExecute (idle good _) ?_
  have live : ∀ (id : Nat) (row : SessionRow), s.sessions[id]? = some row → isOpen token row → row.disconnectedAt = none :=
    fun _ _ _ open' => openLive open'
  let ending : SessionRow → SessionRow := fun row => { row with disconnectedAt := some now, reason := some reason, lastFlush := now }
  have kept : Kept entries (updateWhere (fun _ row => isOpen token row) ending s.sessions).2 :=
    keptTouched good.kept live (fun _ => rfl)
  have next : Good edge entries (closeOpen token now reason s).2 := goodSessions good kept
  have lookup : ∀ (id : Nat), (closeOpen token now reason s).2.sessions[id]? =
      s.sessions[id]?.map (fun row => if isOpen token row then ending row else row) := lookupUpdated _ _ _
  have settled : ∀ (carried : Bool) m, (∃ more, Good edge more m ∧ m.sessions = (closeOpen token now reason s).2.sessions ∧ entries <+: more ∧
      (carried → ∀ row ∈ rows, 1 ≤ issued more row.id kindSessionClose)) → After edge entries s carried m := by
    rintro carried m ⟨more,held,sessions,grown,owed⟩
    refine ⟨more,held,advanceKnown grown ?_ ?_⟩
    · intro id present
      rw [ExtTreeMap.mem_iff_isSome_getElem?, sessions, lookup, Option.isSome_map] at present
      exact ExtTreeMap.mem_iff_isSome_getElem?.mpr present
    · intro ok id row ended found still found' gone
      rw [sessions, lookup, found, Option.map_some, Option.some.injEq] at found'
      have hit : isOpen token row := by
        by_contra other
        rw [if_neg other] at found'
        rw [← found', still] at gone
        contradiction
      obtain ⟨row',mem,rfl⟩ := rowOf read found hit
      exact owed ok row' mem
  refine endsBind (fun _ m => After edge entries s true m) (endsMono (closesEnd next (idsDistinct read) ?_ ?_) ?_)
    (fun n m after => endsPure after)
  · intro row mem
    obtain ⟨old,found,open',_⟩ := rowListed read mem
    exact issuedLive good.kept found (openLive open')
  · intro row mem
    obtain ⟨old,found,open',_,_,connected,⟨n,bytesIn,countIn⟩,n',bytesOut,countOut⟩ := rowListed read mem
    refine ⟨ending old,by rw [lookup, found, Option.map_some, if_pos open'],?_⟩
    simp only at bytesIn bytesOut connected
    simp [closing, ending, bytesIn, bytesOut, connected, countIn, countOut]
  · rintro (_ | _) m left
    · exact settled false m left
    · exact settled true m left

theorem openRowsAfter {Reply : Type} (good : Good edge entries s) (token : Option String) {next : List OpenRow → Work Reply}
    (goes : ∀ rows, Rows rows (openOf token s) → Ends (next rows) s (fun r m => After edge entries s r.isOk m)) :
    Ends (openRows token >>= next) s (fun r m => After edge entries s r.isOk m) := by
  refine endsRead (fun _ => idle good _) ?_
  exact fun rows found => goes rows (rowsRead found)

theorem closeSessionAfter (good : Good edge entries s) (tokenHex : String) (now : Int64) (reason : String) :
    Ends (closeSession edge tokenHex now reason) s (fun r m => After edge entries s r.isOk m) := by
  unfold closeSession
  refine openRowsAfter good (some tokenHex) ?_
  intro rows read
  split
  · exact endsPure (idle good _)
  · exact closeRowsAfter good read now reason (fun _ => true)

theorem closeStaleAfter (good : Good edge entries s) (now : Int64) (reason : String) :
    Ends (closeStaleOpenSessions edge now reason) s (fun r m => After edge entries s r.isOk m) := by
  unfold closeStaleOpenSessions
  refine openRowsAfter good none ?_
  intro rows read
  exact closeRowsAfter good read now reason id

theorem snapshotsAfter (good : Good edge entries s) (now : Int64) :
    Ends (emitBytesSnapshots edge now) s (fun r m => After edge entries s r.isOk m) := by
  have settled : ∀ (carried : Bool) m, (∃ more, Good edge more m ∧ m.sessions = s.sessions ∧ entries <+: more) → After edge entries s carried m := by
    rintro carried m ⟨more,held,same,grown⟩
    exact ⟨more,held,same ▸ advanceIdle grown carried⟩
  unfold emitBytesSnapshots
  refine openRowsAfter good none ?_
  intro rows read
  refine endsLoop (fun _ _ m => ∃ more, Good edge more m ∧ m.sessions = s.sessions ∧ entries <+: more)
    ⟨entries,good,rfl,List.prefix_refl _⟩ ?_ (fun _ m held => settled _ m held)
  rintro before row after emitted m split' ⟨more,held,same,grown⟩
  have mem : row ∈ rows := by rw [split']; exact List.mem_append_right _ List.mem_cons_self
  obtain ⟨old,found,_⟩ := rowListed read mem
  have known : row.id ∈ m.sessions := ExtTreeMap.mem_iff_isSome_getElem?.mpr (by rw [same, found]; rfl)
  have other : ¬(kindBytes = kindSessionOpen ∨ kindBytes = kindSessionClose) := by decide
  unfold snapshot
  refine endsMemory ?_
  split
  · exact endsPure ⟨more,held,same,grown⟩
  · refine endsBind (fun _ m' => ∃ more', Good edge more' m' ∧ m'.sessions = s.sessions ∧ entries <+: more')
      (endsMono (emitAfter held now kindBytes row.tokenHex _ known (plainBytes row.bytesIn row.bytesOut row.connectedAt)
        (fun kind => absurd kind other) (fun kind => absurd (.inr kind) other)) ?_) ?_
    · rintro (_ | _) m' left
      · rw [left]
        exact settled false m ⟨more,held,same,grown⟩
      · exact ⟨_,left.1,left.2.trans same,grown.trans (List.prefix_append _ _)⟩
    · rintro _ m' ⟨more',held',same',grown'⟩
      exact endsMemory (endsPure ⟨more',goodSnapshots held' _,same',grown'⟩)

theorem addBytesAfter (good : Good edge entries s) (tokenHex : String) (deltaIn deltaOut : UInt64) (now : Int64) :
    Ends (addSessionBytes tokenHex deltaIn deltaOut now) s (fun r m => After edge entries s r.isOk m) := by
  refine endsExecute (idle good _) (endsPure ?_)
  refine touched good (fun _ _ _ open' => openLive open') ?_ ?_ _
  all_goals exact fun _ => rfl

/- A new process finds the head where the old one had it. -/
theorem restartAfter (good : Good edge entries s) : After edge entries s true (withReceipts s) := by
  have resumed : (withReceipts s).head = s.head := by
    rw [withReceipts, good.chained.stored, good.chained.cached]
    cases entries with
    | nil => rfl
    | cons x rest => rfl
  exact ⟨entries,⟨chainedSessions good.chained rfl rfl resumed,good.kept⟩,advanceIdle (List.prefix_refl _) true⟩

theorem stepAfter (good : Good edge entries s) (call : Call) : After edge entries s (step edge s call).1 (step edge s call).2 := by
  obtain ⟨op,faults⟩ := call
  cases op with
  | openSession tokenHex transport now => exact openSessionAfter good tokenHex transport now faults
  | addSessionBytes tokenHex deltaIn deltaOut now => exact addBytesAfter good tokenHex deltaIn deltaOut now faults
  | closeSession tokenHex now reason => exact closeSessionAfter good tokenHex now reason faults
  | emitBytesSnapshots now => exact snapshotsAfter good now faults
  | closeStaleOpenSessions now reason => exact closeStaleAfter good now reason faults
  | restart => exact restartAfter good

end Emitting
end CadsTunnel.History
