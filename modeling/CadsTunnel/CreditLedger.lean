import CadsTunnel.Machine
import CadsTunnel.Sql
import CadsTunnel.Words

/-! The credit ledger on its four tables. Amounts are unsigned and their columns signed, so
every cast stands behind a guard; an account is blocked by a flag that every debit reads, and
a blocked account is not deleted. -/
namespace CadsTunnel.Ledger
open OrderedMap Words Sql
open Std (ExtTreeMap)

abbrev AccountId := Vector UInt8 32
abbrev PaymentId := Vector UInt8 32
abbrev RoutingToken := Vector UInt8 32

structure AccountRow where
  balance : Int := 0
  blocked : Bool := false
  plan : Option String := none
  freeAiRequestsUsed : Counter := some 0
  freeAiSecondsUsed : Counter := some 0

structure PaymentRow where
  account : AccountId
  credits : Int
  confirmed : Bool := false

structure IssuanceRow where
  account : AccountId
  token : RoutingToken
  price : Int
  issuedAt : Int

structure Tables where
  accounts : BTreeMap AccountId AccountRow := ∅
  payments : BTreeMap PaymentId PaymentRow := ∅
  accountSubjects : BTreeMap String AccountId := ∅
  tokenIssuances : BTreeMap Bytes IssuanceRow := ∅

inductive LedgerError where
  | unknownAccount
  | insufficientCredit (balance requested : UInt64)
  | idempotencyKeyReused
  | creditAmountTooLarge (amount : UInt64)
  | accountBlocked
  | freeAiCapExceeded

inductive LedgerOpError where
  | ledger (e : LedgerError)
  | db (e : SqlError)

inductive PaymentError where
  | unknownPayment
  | alreadyConfirmed
  | ledger (e : LedgerError)

inductive PaymentOpError where
  | payment (e : PaymentError)
  | db (e : SqlError)

instance : FromSql LedgerOpError := ⟨.db⟩
instance : FromSql PaymentOpError := ⟨.db⟩

abbrev Work (Error α : Type) := Session Tables Error α

def setBalance (id : AccountId) (new : Int) (s : Tables) : Unit × Tables :=
  ((),{ s with accounts := (updateWhere (fun k _ => k = id) (fun row => { row with balance := new }) s.accounts).2 })

def setBlocked (account : AccountId) (blocked : Bool) : Work SqlError Unit :=
  execute (fun s =>
    ((),{ s with accounts := (updateWhere (fun k _ => k = account) (fun row => { row with blocked := blocked }) s.accounts).2 }))

def setPlan (account : AccountId) (plan : Option String) : Work SqlError Unit :=
  execute (fun s =>
    ((),{ s with accounts := (updateWhere (fun k _ => k = account) (fun row => { row with plan := plan }) s.accounts).2 }))

/- A blocked account keeps its row, and with it the mapping. -/
def deleteAccountForSubject (subject : String) : Work SqlError Unit :=
  transaction (do
    let account ← select (fun s => s.accountSubjects[subject]?)
    match account with
    | some account =>
      let removed ← execute (fun s =>
        let (n,rows) := deleteWhere (fun k row => k = account && !row.blocked) s.accounts
        (n,{ s with accounts := rows }))
      if removed > 0 then
        execute (fun s => ((),{ s with accountSubjects := s.accountSubjects.erase subject }))
        pure (.commit ())
      else pure (.commit ())
    | none => pure (.commit ()))

def insertAccount {Error : Type} [FromSql Error] (id : AccountId) : Work Error Unit :=
  statement (fun s => (insertRow id ({} : AccountRow) s.accounts).map (fun rows => ((),{ s with accounts := rows })))

/- The ids of new rows are what the random generator gives. -/
def openAccount (id : AccountId) : Work SqlError AccountId := do
  insertAccount id
  pure id

def accountForSubject (subject : String) (id : AccountId) : Work LedgerOpError AccountId :=
  transaction (do
    let existing ← select (fun s => s.accountSubjects[subject]?)
    match existing with
    | some account => pure (.commit account)
    | none =>
      insertAccount id
      statement (fun s => (insertRow subject id s.accountSubjects).map (fun rows => ((),{ s with accountSubjects := rows })))
      pure (.commit id))

def credit (id : AccountId) (amount : UInt64) : Work LedgerOpError UInt64 :=
  if 2 ^ 63 - 1 < amount.toNat then throw (.ledger (.creditAmountTooLarge amount))
  else transaction (do
    let row ← select (fun s => s.accounts[id]?)
    match row with
    | none => throw (.ledger .unknownAccount)
    | some row =>
      let new := saturatingAddI64 row.balance (asI64 amount)
      execute (setBalance id new)
      pure (.commit (asU64 new)))

/- The two debits of credit; what is recorded with the debit stands in the same transaction. -/
def spend (id : AccountId) (amount : UInt64) (record : Work LedgerOpError Unit) : Work LedgerOpError UInt64 :=
  transaction (do
    let row ← select (fun s => s.accounts[id]?)
    match row with
    | none => throw (.ledger .unknownAccount)
    | some row =>
      if row.blocked then throw (.ledger .accountBlocked)
      else if asU64 row.balance < amount then throw (.ledger (.insufficientCredit (asU64 row.balance) amount))
      else
        let new := wrapI64 (row.balance - asI64 amount)
        execute (setBalance id new)
        record
        pure (.commit (asU64 new)))

def debit (id : AccountId) (amount : UInt64) : Work LedgerOpError UInt64 := spend id amount (pure ())

def keyReused : SqlError → LedgerOpError
  | .constraint => .ledger .idempotencyKeyReused
  | e => .db e

def recordIssuance (id : AccountId) (amount : UInt64) (idempotencyKey : Bytes) (token : RoutingToken) (now : UInt64) :
    Work LedgerOpError Unit :=
  @statement Tables LedgerOpError Unit ⟨keyReused⟩ (fun s =>
    (insertRow idempotencyKey ⟨id,token,asI64 amount,asI64 now⟩ s.tokenIssuances).map (fun rows => ((),{ s with tokenIssuances := rows })))

def debitAndRecordIssuance (id : AccountId) (amount : UInt64) (idempotencyKey : Bytes) (token : RoutingToken) (now : UInt64) :
    Work LedgerOpError UInt64 := spend id amount (recordIssuance id amount idempotencyKey token now)

def readU32 (column : String) (c : Counter) : Except SqlError UInt32 :=
  match c with
  | some n => .ok (.ofNat n)
  | none => .error (.conversion column)

/- The row with its count of requests, which is read in any case. -/
def aiRow (account : AccountId) : Work LedgerOpError (AccountRow × UInt32) := do
  let row ← statement (fun s =>
    match s.accounts[account]? with
    | some row => (readU32 "free_ai_requests_used" row.freeAiRequestsUsed).map (fun used => (some (row,used),s))
    | none => .ok (none,s))
  match row with
  | some row => pure row
  | none => throw (.ledger .unknownAccount)

def secondsUsed (account : AccountId) : Work LedgerOpError UInt32 :=
  statement (fun s =>
    match s.accounts[account]? with
    | some row => (readU32 "free_ai_seconds_used" row.freeAiSecondsUsed).map (fun used => (used,s))
    | none => .error .noRows)

def insufficient (balance : Int) (cost : UInt64) : Bool :=
  if cost.toNat < 2 ^ 63 then balance < asI64 cost else true

/- The two debits of metered use: `used` is compared with a cap and `count` adds to it, both only without a plan. -/
def meter (account : AccountId) (cost : UInt64) (used : UInt32 → Work LedgerOpError UInt32) (cap : Option UInt32)
    (count : AccountRow → AccountRow) : Work LedgerOpError Unit :=
  transaction (do
    let (row,requestsUsed) ← aiRow account
    let used ← used requestsUsed
    if row.blocked then throw (.ledger .accountBlocked)
    else if row.plan.isNone && cap.any (fun cap => cap ≤ used) then throw (.ledger .freeAiCapExceeded)
    else if insufficient row.balance cost then throw (.ledger (.insufficientCredit (asU64 (max row.balance 0)) cost))
    else
      execute (fun s => ((),{ s with accounts := (updateWhere (fun k _ => k = account)
        (fun r => (if row.plan.isNone then count else id) { r with balance := r.balance - asI64 cost }) s.accounts).2 }))
      pure (.commit ()))

def debitAiChat (account : AccountId) (creditsCost : UInt64) (freeCapRequests : Option UInt32) : Work LedgerOpError Unit :=
  meter account creditsCost pure freeCapRequests (fun row => { row with freeAiRequestsUsed := row.freeAiRequestsUsed.add 1 })

def debitAiTranscribe (account : AccountId) (creditsCost : UInt64) (durationSeconds : UInt32) (freeCapSeconds : Option UInt32) :
    Work LedgerOpError Unit :=
  meter account creditsCost (fun _ => secondsUsed account) freeCapSeconds
    (fun row => { row with freeAiSecondsUsed := row.freeAiSecondsUsed.add durationSeconds.toNat })

def createIntent (account : AccountId) (credits : UInt64) (id : PaymentId) : Work SqlError PaymentId :=
  if 2 ^ 63 - 1 < credits.toNat then
    throw (.conversion s!"payment credits {credits.toNat} exceeds the maximum 9223372036854775807")
  else do
    statement (fun s => (insertRow id ⟨account,asI64 credits,false⟩ s.payments).map (fun rows => ((),{ s with payments := rows })))
    pure id

def confirmPayment (payment : PaymentId) : Work PaymentOpError UInt64 :=
  transaction (do
    let row ← select (fun s => s.payments[payment]?)
    match row with
    | none => throw (.payment .unknownPayment)
    | some row =>
      if row.confirmed then throw (.payment .alreadyConfirmed)
      else if row.credits < 0 then throw (.db (.outOfRange 1 row.credits))
      else do
        let account ← select (fun s => s.accounts[row.account]?)
        match account with
        | none => throw (.payment (.ledger .unknownAccount))
        | some account =>
          let new := saturatingAddI64 account.balance row.credits
          execute (setBalance row.account new)
          execute (fun s =>
            ((),{ s with payments := (updateWhere (fun k _ => k = payment) (fun row => { row with confirmed := true }) s.payments).2 }))
          pure (.commit (asU64 new)))

inductive Op where
  | openAccount (id : AccountId)
  | accountForSubject (subject : String) (id : AccountId)
  | credit (id : AccountId) (amount : UInt64)
  | createIntent (account : AccountId) (credits : UInt64) (id : PaymentId)
  | confirmPayment (payment : PaymentId)
  | debit (id : AccountId) (amount : UInt64)
  | debitAndRecordIssuance (id : AccountId) (amount : UInt64) (idempotencyKey : Bytes) (token : RoutingToken) (now : UInt64)
  | debitAiChat (account : AccountId) (creditsCost : UInt64) (freeCapRequests : Option UInt32)
  | debitAiTranscribe (account : AccountId) (creditsCost : UInt64) (durationSeconds : UInt32) (freeCapSeconds : Option UInt32)
  | setBlocked (account : AccountId) (blocked : Bool)
  | setPlan (account : AccountId) (plan : Option String)
  | deleteAccountForSubject (subject : String)

inductive Answer where
  | done
  | account (id : AccountId)
  | payment (id : PaymentId)
  | balance (v : UInt64)

inductive Failure where
  | ledger (e : LedgerOpError)
  | payment (e : PaymentOpError)
  | db (e : SqlError)

/- A call, and which of its statements fail. -/
structure Call where
  op : Op
  faults : List Bool := []

def settle {Error α : Type} (answer : α → Answer) (failure : Error → Failure) (x : Work Error α) (s : Tables) (faults : List Bool) :
    Except Failure Answer × Tables :=
  let (result,next) := perform x s faults
  ((result.map answer).mapError failure,next)

def step (s : Tables) (call : Call) : Except Failure Answer × Tables :=
  match call.op with
  | .openAccount id => settle .account .db (openAccount id) s call.faults
  | .accountForSubject subject id => settle .account .ledger (accountForSubject subject id) s call.faults
  | .credit id amount => settle .balance .ledger (credit id amount) s call.faults
  | .createIntent account credits id => settle .payment .db (createIntent account credits id) s call.faults
  | .confirmPayment payment => settle .balance .payment (confirmPayment payment) s call.faults
  | .debit id amount => settle .balance .ledger (debit id amount) s call.faults
  | .debitAndRecordIssuance id amount idempotencyKey token now =>
    settle .balance .ledger (debitAndRecordIssuance id amount idempotencyKey token now) s call.faults
  | .debitAiChat account creditsCost freeCapRequests =>
    settle (fun _ => .done) .ledger (debitAiChat account creditsCost freeCapRequests) s call.faults
  | .debitAiTranscribe account creditsCost durationSeconds freeCapSeconds =>
    settle (fun _ => .done) .ledger (debitAiTranscribe account creditsCost durationSeconds freeCapSeconds) s call.faults
  | .setBlocked account blocked => settle (fun _ => .done) .db (setBlocked account blocked) s call.faults
  | .setPlan account plan => settle (fun _ => .done) .db (setPlan account plan) s call.faults
  | .deleteAccountForSubject subject => settle (fun _ => .done) .db (deleteAccountForSubject subject) s call.faults

def run (calls : List Call) : Tables := Machine.run step {} calls

/- The account that a debit charges, and the amount. -/
def Op.charge : Op → Option (AccountId × UInt64)
  | .debit id amount | .debitAndRecordIssuance id amount _ _ _ | .debitAiChat id amount _ | .debitAiTranscribe id amount _ _ => some (id,amount)
  | _ => none

def Op.key : Op → Option Bytes
  | .debitAndRecordIssuance _ _ idempotencyKey _ _ => some idempotencyKey
  | _ => none

def i64Max : Int := 2 ^ 63 - 1

/- Balances and credits are in the range of their columns, and not negative. -/
structure Sound (s : Tables) : Prop where
  balances : ∀ (id : AccountId) (row : AccountRow), s.accounts[id]? = some row → 0 ≤ row.balance ∧ row.balance ≤ i64Max
  credits : ∀ (id : PaymentId) (row : PaymentRow), s.payments[id]? = some row → 0 ≤ row.credits ∧ row.credits ≤ i64Max

/- What a call does that is carried through. -/
inductive Effect (s : Tables) : Op → Answer → Tables → Prop where
  | opened {id : AccountId} (absent : s.accounts[id]? = none) :
      Effect s (.openAccount id) (.account id) { s with accounts := s.accounts.insert id {} }
  | known {subject : String} {id account : AccountId} (found : s.accountSubjects[subject]? = some account) :
      Effect s (.accountForSubject subject id) (.account account) s
  | bound {subject : String} {id : AccountId} (free : s.accountSubjects[subject]? = none) (absent : s.accounts[id]? = none) :
      Effect s (.accountForSubject subject id) (.account id)
        { s with accounts := s.accounts.insert id {}, accountSubjects := s.accountSubjects.insert subject id }
  | credited {id : AccountId} {amount : UInt64} {row : AccountRow} {new : Int} (found : s.accounts[id]? = some row)
      (sum : new = min (row.balance + amount.toNat) i64Max) :
      Effect s (.credit id amount) (.balance (asU64 new)) { s with accounts := s.accounts.insert id { row with balance := new } }
  | intended {account : AccountId} {credits : UInt64} {id : PaymentId} (small : credits.toNat < 2 ^ 63) (absent : s.payments[id]? = none) :
      Effect s (.createIntent account credits id) (.payment id) { s with payments := s.payments.insert id ⟨account,credits.toNat,false⟩ }
  | confirmed {payment : PaymentId} {p : PaymentRow} {row : AccountRow} {new : Int} (found : s.payments[payment]? = some p)
      (first : p.confirmed = false) (account : s.accounts[p.account]? = some row) (sum : new = min (row.balance + p.credits) i64Max) :
      Effect s (.confirmPayment payment) (.balance (asU64 new))
        { s with
          accounts := s.accounts.insert p.account { row with balance := new }
          payments := s.payments.insert payment { p with confirmed := true } }
  | debited {op : Op} {id : AccountId} {amount : UInt64} {row next : AccountRow} {issuances : BTreeMap Bytes IssuanceRow} (answer : Answer)
      (charge : op.charge = some (id,amount)) (found : s.accounts[id]? = some row) (live : row.blocked = false)
      (covered : amount.toNat ≤ row.balance) (balance : next.balance = row.balance - amount.toNat) (live' : next.blocked = false)
      (recorded : match op.key with
        | some key => s.tokenIssuances[key]? = none ∧ ∃ issuance, issuances = s.tokenIssuances.insert key issuance
        | none => issuances = s.tokenIssuances) :
      Effect s op answer { s with accounts := s.accounts.insert id next, tokenIssuances := issuances }
  | blocked (account : AccountId) (blocked : Bool) :
      Effect s (.setBlocked account blocked) .done
        { s with accounts := (s.accounts[account]?.map (fun row => s.accounts.insert account { row with blocked := blocked })).getD s.accounts }
  | planned (account : AccountId) (plan : Option String) :
      Effect s (.setPlan account plan) .done
        { s with accounts := (s.accounts[account]?.map (fun row => s.accounts.insert account { row with plan := plan })).getD s.accounts }
  | deleted {subject : String} {account : AccountId} {row : AccountRow} (mapped : s.accountSubjects[subject]? = some account)
      (found : s.accounts[account]? = some row) (live : row.blocked = false) :
      Effect s (.deleteAccountForSubject subject) .done
        { s with accounts := s.accounts.erase account, accountSubjects := s.accountSubjects.erase subject }
  | kept (subject : String) : Effect s (.deleteAccountForSubject subject) .done s

section Calls
variable {s : Tables}

theorem setBalanceAt {id : AccountId} {row : AccountRow} (found : s.accounts[id]? = some row) (new : Int) :
    (setBalance id new s).2 = { s with accounts := s.accounts.insert id { row with balance := new } } := by
  rw [setBalance, updatedRow, found]
  rfl

theorem insertAccountEnds {Error α : Type} [FromSql Error] {id : AccountId} {next : Unit → Work Error α} {post : Except Error α → Tables → Prop}
    (fails : ∀ e, post (.error e) s)
    (goes : s.accounts[id]? = none → Ends (next ()) { s with accounts := s.accounts.insert id {} } post) :
    Ends (insertAccount id >>= next) s post := endsInsert (fun _ => fails _) goes

/- How a session ends: with an effect, or with an error and the tables as they were. -/
def Settled (s : Tables) (op : Op) {Error α : Type} (answer : α → Answer) (result : Except Error α) (m : Tables) : Prop :=
  match result with
  | .ok a => Effect s op (answer a) m
  | .error _ => m = s

theorem openAccountEnds (id : AccountId) : Ends (openAccount id) s (Settled s (.openAccount id) .account) :=
  insertAccountEnds (fun _ => rfl) (fun absent => endsPure (.opened absent))

theorem accountForSubjectEnds (subject : String) (id : AccountId) :
    Ends (accountForSubject subject id) s (Settled s (.accountForSubject subject id) .account) := by
  unfold accountForSubject
  refine endsTransaction rfl (endsSelect rfl ?_)
  split
  case h_1 account found => exact endsPure (.known found)
  case h_2 free =>
    refine insertAccountEnds (fun _ => rfl) ?_
    intro absent
    refine endsInsert (fun _ => rfl) ?_
    exact fun _ => endsPure (.bound free absent)

theorem saturatedSum {a b : Int} (nonneg : 0 ≤ a) (nonneg' : 0 ≤ b) : saturatingAddI64 a b = min (a + b) i64Max := by
  rw [saturatingAddI64, i64Max]
  omega

theorem creditEnds (sound : Sound s) (id : AccountId) (amount : UInt64) : Ends (credit id amount) s (Settled s (.credit id amount) .balance) := by
  unfold credit
  split
  case isTrue => exact endsThrow rfl
  case isFalse fits =>
    have small : amount.toNat < 2 ^ 63 := by omega
    refine endsTransaction rfl (endsSelect rfl ?_)
    split
    case h_1 => exact endsThrow rfl
    case h_2 row found =>
      have sum := saturatedSum (sound.balances id row found).1 (Int.natCast_nonneg amount.toNat)
      rw [asI64Small small, sum]
      refine endsExecute rfl (endsPure ?_)
      simp only [setBalanceAt found]
      exact .credited found rfl

theorem createIntentEnds (account : AccountId) (credits : UInt64) (id : PaymentId) :
    Ends (createIntent account credits id) s (Settled s (.createIntent account credits id) .payment) := by
  unfold createIntent
  split
  case isTrue => exact endsThrow rfl
  case isFalse fits =>
    have small : credits.toNat < 2 ^ 63 := by omega
    rw [asI64Small small]
    refine endsInsert (fun _ => rfl) ?_
    exact fun absent => endsPure (.intended small absent)

theorem confirmPaymentEnds (sound : Sound s) (payment : PaymentId) :
    Ends (confirmPayment payment) s (Settled s (.confirmPayment payment) .balance) := by
  unfold confirmPayment
  refine endsTransaction rfl (endsSelect rfl ?_)
  split
  case h_1 => exact endsThrow rfl
  case h_2 p found =>
    split
    case isTrue => exact endsThrow rfl
    case isFalse first =>
      split
      case isTrue => exact endsThrow rfl
      case isFalse nonneg =>
        refine endsSelect rfl ?_
        split
        case h_1 => exact endsThrow rfl
        case h_2 row account =>
          have sum := saturatedSum (sound.balances p.account row account).1 (sound.credits payment p found).1
          rw [sum]
          refine endsExecute rfl (endsExecute rfl (endsPure ?_))
          simp only [setBalanceAt account, updatedRow, found]
          exact .confirmed found (Bool.not_eq_true _ ▸ first) account rfl

/- What the debits have in common: the account is there, not blocked, and covers the amount. -/
theorem spendEnds (sound : Sound s) {op : Op} {id : AccountId} {amount : UInt64} {record : Work LedgerOpError Unit}
    (charge : op.charge = some (id,amount)) (records : ∀ m, m.tokenIssuances = s.tokenIssuances → Ends record m (fun
      | .ok _, m' => ∃ issuances, m' = { m with tokenIssuances := issuances } ∧ match op.key with
        | some key => s.tokenIssuances[key]? = none ∧ ∃ issuance, issuances = s.tokenIssuances.insert key issuance
        | none => issuances = s.tokenIssuances
      | .error _, _ => True)) : Ends (spend id amount record) s (Settled s op .balance) := by
  unfold spend
  refine endsTransaction rfl (endsSelect rfl ?_)
  split
  case h_1 => exact endsThrow rfl
  case h_2 row found =>
    split
    case isTrue => exact endsThrow rfl
    case isFalse live =>
      split
      case isTrue => exact endsThrow rfl
      case isFalse enough =>
        obtain ⟨nonneg,high⟩ := sound.balances id row found
        rw [i64Max] at high
        have balance := asU64Nat nonneg (by omega)
        have covered : (amount.toNat : Int) ≤ row.balance := by
          rw [UInt64.not_lt, UInt64.le_iff_toNat_le] at enough
          omega
        have exact' : wrapI64 (row.balance - asI64 amount) = row.balance - amount.toNat := by
          rw [asI64Small (by omega), wrapI64Small (by omega) (by omega)]
        rw [exact']
        refine endsExecute rfl ?_
        rw [setBalanceAt found]
        refine endsBind (fun _ m => ∃ issuances, m = { s with
            accounts := s.accounts.insert id { row with balance := row.balance - amount.toNat }
            tokenIssuances := issuances } ∧ match op.key with
          | some key => s.tokenIssuances[key]? = none ∧ ∃ issuance, issuances = s.tokenIssuances.insert key issuance
          | none => issuances = s.tokenIssuances) (endsMono (records _ rfl) ?_) ?_
        · rintro (_ | _) m left
          · exact rfl
          · exact left
        · rintro _ m ⟨issuances,rfl,recorded⟩
          exact endsPure (.debited _ charge found (Bool.not_eq_true _ ▸ live) covered rfl (Bool.not_eq_true _ ▸ live) recorded)

theorem debitEnds (sound : Sound s) (id : AccountId) (amount : UInt64) : Ends (debit id amount) s (Settled s (.debit id amount) .balance) :=
  spendEnds sound rfl (fun _ same => endsPure ⟨_,rfl,same⟩)

theorem debitAndRecordIssuanceEnds (sound : Sound s) (id : AccountId) (amount : UInt64) (idempotencyKey : Bytes) (token : RoutingToken)
    (now : UInt64) : Ends (debitAndRecordIssuance id amount idempotencyKey token now) s
      (Settled s (.debitAndRecordIssuance id amount idempotencyKey token now) .balance) := by
  refine spendEnds sound rfl ?_
  intro m same
  unfold recordIssuance
  refine endsLast (@endsInsert Tables LedgerOpError Unit Bytes IssuanceRow ⟨keyReused⟩ _ _ m _ _ _ _ _ _ (fun _ => trivial) ?_)
  intro absent
  rw [same] at absent
  exact endsPure ⟨_,rfl,absent,_,by rw [same]⟩

/- What stands behind a debit of metered use that is carried through. -/
structure Metered (s : Tables) (account : AccountId) (cost : UInt64) (reads : UInt32 → UInt32 → Prop) (cap : Option UInt32)
    (count : AccountRow → AccountRow) (row : AccountRow) (requests : Nat) (used : UInt32) (m : Tables) : Prop where
  found : s.accounts[account]? = some row
  counted : row.freeAiRequestsUsed = some requests
  read : reads (.ofNat requests) used
  live : row.blocked = false
  below : (row.plan.isNone && cap.any (fun cap => cap ≤ used)) = false
  enough : insufficient row.balance cost = false
  left : m = { s with accounts := s.accounts.insert account ((if row.plan.isNone then count else id) { row with balance := row.balance - asI64 cost }) }

theorem meterExact {account : AccountId} {cost : UInt64} {used : UInt32 → Work LedgerOpError UInt32} {reads : UInt32 → UInt32 → Prop}
    {cap : Option UInt32} {count : AccountRow → AccountRow} (ends : ∀ n, Ends (used n) s (fun
      | .ok v, m => m = s ∧ reads n v
      | .error _, m => m = s)) :
    Ends (meter account cost used cap count) s (fun
      | .ok _, m => ∃ row requests v, Metered s account cost reads cap count row requests v m
      | .error _, m => m = s) := by
  unfold meter
  refine endsTransaction rfl (endsBind (fun out m => m = s ∧ s.accounts[account]? = some out.1 ∧
    ∃ requests, out.1.freeAiRequestsUsed = some requests ∧ out.2 = .ofNat requests) ?_ ?_)
  · refine endsStatement rfl (fun _ _ => rfl) ?_
    intro row m read
    split at read
    case h_1 old found =>
      cases counter : old.freeAiRequestsUsed with
      | none => simp [counter, readU32, Except.map] at read
      | some n =>
        simp only [counter, readU32, Except.map, Except.ok.injEq, Prod.mk.injEq] at read
        rw [← read.1, ← read.2]
        exact endsPure ⟨rfl,found,n,counter,rfl⟩
    case h_2 =>
      simp only [Except.ok.injEq, Prod.mk.injEq] at read
      rw [← read.1, ← read.2]
      exact endsThrow rfl
  · rintro ⟨row,n⟩ m ⟨here,found,requests,counter,same⟩
    rw [here]
    refine endsBind (fun v m => m = s ∧ reads n v) (endsMono (ends n) ?_) ?_
    · rintro (_ | _) m read
      · exact rfl
      · exact read
    · rintro v m' ⟨here',read⟩
      rw [here']
      split
      case isTrue => exact endsThrow rfl
      case isFalse live =>
        split
        case isTrue => exact endsThrow rfl
        case isFalse below =>
          split
          case isTrue => exact endsThrow rfl
          case isFalse enough =>
            refine endsExecute rfl (endsPure ⟨row,requests,v,found,counter,same ▸ read,by simpa using live,by simpa using below,
              by simpa using enough,?_⟩)
            simp only [updatedRow, found]
            rfl

/- The counters are no part of what a debit of metered use charges. -/
theorem meterEnds (sound : Sound s) {op : Op} {account : AccountId} {cost : UInt64} {used : UInt32 → Work LedgerOpError UInt32}
    {cap : Option UInt32} {count : AccountRow → AccountRow} (charge : op.charge = some (account,cost)) (unkeyed : op.key = none)
    (reads : ∀ n, Ends (used n) s (fun _ m => m = s))
    (counts : ∀ row, (count row).balance = row.balance ∧ (count row).blocked = row.blocked) :
    Ends (meter account cost used cap count) s (Settled s op (fun _ => .done)) := by
  refine endsMono (@meterExact s account cost used (fun _ _ => True) cap count (fun n => endsMono (reads n) ?_)) ?_
  · rintro (_ | _) m same
    · exact same
    · exact ⟨same,trivial⟩
  · rintro (_ | _) m out
    · exact out
    · obtain ⟨row,requests,v,metered⟩ := out
      obtain ⟨nonneg,high⟩ := sound.balances account row metered.found
      rw [i64Max] at high
      have enough := metered.enough
      have small : cost.toNat < 2 ^ 63 := by
        by_contra large
        rw [insufficient, if_neg large] at enough
        contradiction
      have covered : (cost.toNat : Int) ≤ row.balance := by
        simp only [insufficient, if_pos small, asI64Small small, decide_eq_false_iff_not] at enough
        omega
      let next : AccountRow := (if row.plan.isNone then count else id) { row with balance := row.balance - cost.toNat }
      have kept : next.balance = row.balance - cost.toNat ∧ next.blocked = row.blocked := by
        simp only [next]
        split
        · exact counts _
        · exact ⟨rfl,rfl⟩
      rw [metered.left, asI64Small small]
      refine Effect.debited _ charge metered.found metered.live covered kept.1 (kept.2.trans metered.live) ?_
      rw [unkeyed]

theorem debitAiChatEnds (sound : Sound s) (account : AccountId) (creditsCost : UInt64) (freeCapRequests : Option UInt32) :
    Ends (debitAiChat account creditsCost freeCapRequests) s
      (Settled s (.debitAiChat account creditsCost freeCapRequests) (fun _ => .done)) :=
  meterEnds sound rfl rfl (fun _ => endsPure rfl) (fun _ => ⟨rfl,rfl⟩)

theorem secondsUsedEnds (account : AccountId) : Ends (secondsUsed account) s (fun
    | .ok v, m => m = s ∧ ∃ row seconds, s.accounts[account]? = some row ∧ row.freeAiSecondsUsed = some seconds ∧ v = .ofNat seconds
    | .error _, m => m = s) := by
  refine endsLast (endsStatement rfl (fun _ _ => rfl) ?_)
  intro v m read
  split at read
  case h_1 row found =>
    cases counter : row.freeAiSecondsUsed with
    | none => simp [counter, readU32, Except.map] at read
    | some n =>
      simp only [counter, readU32, Except.map, Except.ok.injEq, Prod.mk.injEq] at read
      rw [← read.2, ← read.1]
      exact endsPure ⟨rfl,row,n,found,counter,rfl⟩
  case h_2 => contradiction

theorem debitAiTranscribeEnds (sound : Sound s) (account : AccountId) (creditsCost : UInt64) (durationSeconds : UInt32)
    (freeCapSeconds : Option UInt32) : Ends (debitAiTranscribe account creditsCost durationSeconds freeCapSeconds) s
      (Settled s (.debitAiTranscribe account creditsCost durationSeconds freeCapSeconds) (fun _ => .done)) := by
  refine meterEnds sound rfl rfl (fun _ => endsMono (secondsUsedEnds account) ?_) (fun _ => ⟨rfl,rfl⟩)
  rintro (_ | _) m out
  · exact out
  · exact out.1

theorem setBlockedEnds (account : AccountId) (blocked : Bool) :
    Ends (setBlocked account blocked) s (Settled s (.setBlocked account blocked) (fun _ => .done)) := by
  refine endsLast (endsExecute rfl (endsPure ?_))
  simp only [updatedRow]
  exact .blocked account blocked

theorem setPlanEnds (account : AccountId) (plan : Option String) :
    Ends (setPlan account plan) s (Settled s (.setPlan account plan) (fun _ => .done)) := by
  refine endsLast (endsExecute rfl (endsPure ?_))
  simp only [updatedRow]
  exact .planned account plan

theorem deleteAccountForSubjectEnds (subject : String) :
    Ends (deleteAccountForSubject subject) s (Settled s (.deleteAccountForSubject subject) (fun _ => .done)) := by
  unfold deleteAccountForSubject
  refine endsTransaction rfl (endsSelect rfl ?_)
  split
  case h_1 account mapped =>
    refine endsExecute rfl ?_
    simp only [deletedRow]
    have any := deletedAny account (fun row : AccountRow => !row.blocked) s.accounts
    split
    case isTrue removed =>
      have hit := any.mp removed
      cases found : s.accounts[account]? with
      | none => simp [found] at hit
      | some row =>
        rw [found, Option.any_some] at hit
        refine endsExecute rfl (endsPure ?_)
        simp only [Option.any_some, hit, if_true]
        exact .deleted mapped found (by simpa using hit)
    case isFalse none' =>
      rw [if_neg (mt any.mpr none')]
      exact endsPure (.kept subject)
  case h_2 => exact endsPure (.kept subject)

/- Every call either has its effect or fails and changes nothing. -/
theorem stepSettled (sound : Sound s) (call : Call) : (∀ answer, (step s call).1 = .ok answer → Effect s call.op answer (step s call).2) ∧
    ∀ e, (step s call).1 = .error e → (step s call).2 = s := by
  have settled : ∀ {Error α : Type} {x : Work Error α} {answer : α → Answer} (failure : Error → Failure),
      Ends x s (Settled s call.op answer) →
      (∀ answer', (settle answer failure x s call.faults).1 = .ok answer' → Effect s call.op answer' (settle answer failure x s call.faults).2) ∧
        ∀ e, (settle answer failure x s call.faults).1 = .error e → (settle answer failure x s call.faults).2 = s := by
    intro Error α x answer failure ends
    have ran := ends call.faults
    obtain ⟨⟨result,m⟩,out⟩ : ∃ out, perform x s call.faults = out := ⟨_,rfl⟩
    rw [out] at ran
    rw [settle, out]
    cases result with
    | error e => exact ⟨nofun,fun _ _ => ran⟩
    | ok a =>
      refine ⟨?_,nofun⟩
      rintro _ ⟨⟩
      exact ran
  obtain ⟨op,faults⟩ := call
  cases op with
  | openAccount id => exact settled _ (openAccountEnds id)
  | accountForSubject subject id => exact settled _ (accountForSubjectEnds subject id)
  | credit id amount => exact settled _ (creditEnds sound id amount)
  | createIntent account credits id => exact settled _ (createIntentEnds account credits id)
  | confirmPayment payment => exact settled _ (confirmPaymentEnds sound payment)
  | debit id amount => exact settled _ (debitEnds sound id amount)
  | debitAndRecordIssuance id amount idempotencyKey token now => exact settled _ (debitAndRecordIssuanceEnds sound id amount idempotencyKey token now)
  | debitAiChat account creditsCost freeCapRequests => exact settled _ (debitAiChatEnds sound account creditsCost freeCapRequests)
  | debitAiTranscribe account creditsCost durationSeconds freeCapSeconds =>
    exact settled _ (debitAiTranscribeEnds sound account creditsCost durationSeconds freeCapSeconds)
  | setBlocked account blocked => exact settled _ (setBlockedEnds account blocked)
  | setPlan account plan => exact settled _ (setPlanEnds account plan)
  | deleteAccountForSubject subject => exact settled _ (deleteAccountForSubjectEnds subject)

end Calls

/- What a call carried through adds to an account, and what it takes from it. -/
def received (account : AccountId) (s : Tables) : Op → Nat
  | .credit id amount => if id = account then amount.toNat else 0
  | .confirmPayment payment => (s.payments[payment]?.map (fun p => if p.account = account then p.credits.toNat else 0)).getD 0
  | _ => 0

def spent (account : AccountId) (op : Op) : Nat := (op.charge.map (fun c => if c.1 = account then c.2.toNat else 0)).getD 0

def Op.debits (op : Op) (account : AccountId) : Bool := op.charge.any (fun c => c.1 = account)

section Effects
variable {s m : Tables} {op : Op} {answer : Answer}

theorem insertedLookup {id account : AccountId} {new row : AccountRow} (found : (s.accounts.insert id new)[account]? = some row) :
    account = id ∧ row = new ∨ account ≠ id ∧ s.accounts[account]? = some row := by
  rw [lookupInsert] at found
  split at found
  case isTrue same => exact .inl ⟨same,(Option.some.inj found).symm⟩
  case isFalse other => exact .inr ⟨other,found⟩

theorem debitReceives {charge : AccountId × UInt64} (debit : op.charge = some charge) (account : AccountId) : received account s op = 0 := by
  cases op
  all_goals first | rfl | contradiction

/- An update of a row that may be missing. -/
theorem touchedLookup {id account : AccountId} {change : AccountRow → AccountRow} {row : AccountRow}
    (found : ((s.accounts[id]?.map (fun row => s.accounts.insert id (change row))).getD s.accounts)[account]? = some row) :
    ∃ old, s.accounts[account]? = some old ∧ (row = old ∨ account = id ∧ row = change old) := by
  cases here : s.accounts[id]? with
  | none =>
    rw [here] at found
    exact ⟨row,found,.inl rfl⟩
  | some old =>
    rw [here, Option.map_some, Option.getD_some] at found
    obtain ⟨rfl,rfl⟩ | ⟨_,kept⟩ := insertedLookup found
    · exact ⟨old,here,.inr ⟨rfl,rfl⟩⟩
    · exact ⟨row,kept,.inl rfl⟩

/- An account that is new has nothing, and another one changes by what it receives or spends. -/
theorem effectRow (sound : Sound s) (effect : Effect s op answer m) {account : AccountId} {row : AccountRow}
    (found : m.accounts[account]? = some row) : s.accounts[account]? = none ∧ row.balance = 0 ∨
      ∃ old, s.accounts[account]? = some old ∧ spent account op ≤ old.balance ∧
        row.balance = min (old.balance + received account s op) i64Max - spent account op := by
  have same : ∀ {old : AccountRow}, s.accounts[account]? = some old → row.balance = old.balance → received account s op = 0 →
      spent account op = 0 → s.accounts[account]? = none ∧ row.balance = 0 ∨ ∃ old, s.accounts[account]? = some old ∧
        spent account op ≤ old.balance ∧ row.balance = min (old.balance + received account s op) i64Max - spent account op := by
    intro old here balance none' none''
    obtain ⟨nonneg,high⟩ := sound.balances account old here
    refine .inr ⟨old,here,?_,?_⟩ <;> rw [none''] <;> omega
  cases effect with
  | opened absent =>
    obtain ⟨rfl,rfl⟩ | ⟨_,kept⟩ := insertedLookup found
    · exact .inl ⟨absent,rfl⟩
    · exact same kept rfl rfl rfl
  | known => exact same found rfl rfl rfl
  | bound _ absent =>
    obtain ⟨rfl,rfl⟩ | ⟨_,kept⟩ := insertedLookup found
    · exact .inl ⟨absent,rfl⟩
    · exact same kept rfl rfl rfl
  | @credited id amount old new here sum =>
    obtain ⟨rfl,rfl⟩ | ⟨other,kept⟩ := insertedLookup found
    · obtain ⟨nonneg,_⟩ := sound.balances account old here
      refine .inr ⟨old,here,nonneg,?_⟩
      simp only [received, if_true, sum]
      exact (Int.sub_zero _).symm
    · exact same kept rfl (if_neg (Ne.symm other)) rfl
  | intended => exact same found rfl rfl rfl
  | @confirmed payment p old new paid first here sum =>
    have credits : (p.credits.toNat : Int) = p.credits := Int.toNat_of_nonneg (sound.credits payment p paid).1
    obtain ⟨rfl,rfl⟩ | ⟨other,kept⟩ := insertedLookup found
    · obtain ⟨nonneg,_⟩ := sound.balances p.account old here
      refine .inr ⟨old,here,nonneg,?_⟩
      simp only [received, paid, Option.map_some, if_true, Option.getD_some, credits, sum]
      exact (Int.sub_zero _).symm
    · refine same kept rfl ?_ rfl
      simp only [received, paid, Option.map_some, Option.getD_some, if_neg (Ne.symm other)]
  | @debited op id amount old next issuances answer charge here live covered balance =>
    have none' := debitReceives (s := s) charge account
    obtain ⟨rfl,rfl⟩ | ⟨other,kept⟩ := insertedLookup found
    · obtain ⟨nonneg,high⟩ := sound.balances account old here
      have amount' : spent account op = amount.toNat := by simp [spent, charge]
      refine .inr ⟨old,here,?_,?_⟩ <;> rw [amount'] <;> omega
    · exact same kept rfl none' (by simp [spent, charge, Ne.symm other])
  | blocked =>
    obtain ⟨old,here,rfl | ⟨_,rfl⟩⟩ := touchedLookup found
    · exact same here rfl rfl rfl
    · exact same here rfl rfl rfl
  | planned =>
    obtain ⟨old,here,rfl | ⟨_,rfl⟩⟩ := touchedLookup found
    · exact same here rfl rfl rfl
    · exact same here rfl rfl rfl
  | deleted =>
    rw [lookupErase] at found
    split at found
    · contradiction
    · exact same found rfl rfl rfl
  | kept => exact same found rfl rfl rfl

theorem effectPayment (effect : Effect s op answer m) {payment : PaymentId} {row : PaymentRow} (found : m.payments[payment]? = some row) :
    0 ≤ row.credits ∧ row.credits ≤ i64Max ∨ ∃ old, s.payments[payment]? = some old ∧ row.credits = old.credits := by
  cases effect with
  | intended small =>
    rw [lookupInsert] at found
    split at found
    · rw [← Option.some.inj found]
      exact .inl ⟨Int.natCast_nonneg _,by dsimp only [i64Max]; omega⟩
    · exact .inr ⟨row,found,rfl⟩
  | @confirmed paid p _ _ here =>
    rw [lookupInsert] at found
    split at found
    case isTrue same =>
      rw [← Option.some.inj found, same]
      exact .inr ⟨p,here,rfl⟩
    case isFalse => exact .inr ⟨row,found,rfl⟩
  | _ => exact .inr ⟨row,found,rfl⟩

theorem effectSound (sound : Sound s) (effect : Effect s op answer m) : Sound m := by
  constructor
  · intro id row found
    obtain ⟨_,zero⟩ | ⟨old,here,covered,balance⟩ := effectRow sound effect found
    · rw [zero]
      decide
    · obtain ⟨nonneg,high⟩ := sound.balances id old here
      omega
  · intro id row found
    obtain bounds | ⟨old,here,same⟩ := effectPayment effect found
    · exact bounds
    · rw [same]
      exact sound.credits id old here

def Op.confirms (payment : PaymentId) : Op → Bool
  | .confirmPayment id => id = payment
  | _ => false

def Op.uses (key : Bytes) (op : Op) : Bool := op.key = some key

def isConfirmed (payment : PaymentId) (s : Tables) : Bool := s.payments[payment]?.any PaymentRow.confirmed

/- A payment is confirmed by its first confirmation, and stays so. -/
theorem effectConfirmed (effect : Effect s op answer m) (payment : PaymentId) :
    isConfirmed payment m = (isConfirmed payment s || op.confirms payment) ∧ (op.confirms payment → isConfirmed payment s = false) := by
  cases effect with
  | @confirmed paid p _ _ here first =>
    rw [isConfirmed, isConfirmed, Op.confirms, lookupInsert]
    by_cases same : payment = paid
    · subst same
      simp [here, first]
    · simp [same, Ne.symm same]
  | @intended _ _ id _ absent =>
    simp only [isConfirmed, Op.confirms, lookupInsert]
    by_cases same : payment = id
    · subst same
      simp [absent]
    · simp [same]
  | @debited op _ _ _ _ _ _ charge =>
    have other : op.confirms payment = false := by
      cases op
      all_goals first | rfl | contradiction
    simp [isConfirmed, other]
  | _ => simp [isConfirmed, Op.confirms]

theorem effectKey (effect : Effect s op answer m) (key : Bytes) :
    (m.tokenIssuances.contains key = (s.tokenIssuances.contains key || op.uses key)) ∧ (op.uses key → s.tokenIssuances.contains key = false) := by
  cases effect with
  | @debited op _ _ _ _ issuances _ charge _ _ _ _ _ recorded =>
    cases named : op.key with
    | none =>
      rw [named] at recorded
      simp [Op.uses, named, recorded]
    | some key' =>
      rw [named] at recorded
      obtain ⟨absent,issuance,rfl⟩ := recorded
      have free : s.tokenIssuances.contains key' = false := by rw [ExtTreeMap.contains_eq_isSome_getElem?, absent]; rfl
      rw [ExtTreeMap.contains_insert, Op.uses, named]
      by_cases same : key' = key
      · subst same
        simp [free]
      · have differ : (compare key' key == .eq) = false := by simp [same]
        simp [differ, same]
  | _ => simp [Op.uses, Op.key]

/- An operation that may end the block of an account, and one that gives its id to a new account. -/
def Op.unblocks (account : AccountId) : Op → Bool
  | .setBlocked id blocked => id = account && !blocked
  | _ => false

def Op.draws (account : AccountId) : Op → Bool
  | .openAccount id | .accountForSubject _ id => id = account
  | _ => false

/- The state of an account that was blocked in `s`. -/
structure Shut (account : AccountId) (s m : Tables) : Prop where
  blocked : ∀ row : AccountRow, m.accounts[account]? = some row → row.blocked = true
  kept : account ∈ s.accounts → account ∈ m.accounts
  mapped : ∀ subject : String, s.accountSubjects[subject]? = some account → m.accountSubjects[subject]? = some account

theorem shutRow {account id : AccountId} {start : Tables} (shut : Shut account start s) {old new : AccountRow} {t : Tables}
    (found : s.accounts[id]? = some old) (same : id = account → new.blocked = true) (rows : t.accounts = s.accounts.insert id new)
    (subjects : t.accountSubjects = s.accountSubjects) : Shut account start t := by
  refine ⟨?_,fun present => ?_,subjects ▸ shut.mapped⟩
  · intro row found'
    rw [rows] at found'
    obtain ⟨rfl,rfl⟩ | ⟨_,kept⟩ := insertedLookup found'
    · exact same rfl
    · exact shut.blocked row kept
  · rw [rows]
    exact ExtTreeMap.mem_insert.mpr (.inr (shut.kept present))

theorem shutNew {account id : AccountId} {start : Tables} (shut : Shut account start s) (absent : s.accounts[id]? = none)
    (other : account ∈ start.accounts ∨ id ≠ account) {row : AccountRow} (found : (s.accounts.insert id {})[account]? = some row) :
    row.blocked = true := by
  obtain ⟨rfl,_⟩ | ⟨_,kept⟩ := insertedLookup found
  · have present := shut.kept (other.resolve_right (fun differ => differ rfl))
    rw [ExtTreeMap.mem_iff_isSome_getElem?, absent] at present
    contradiction
  · exact shut.blocked row kept

theorem shutNext {account : AccountId} {start : Tables} (shut : Shut account start s) (effect : Effect s op answer m)
    (stays : ¬op.unblocks account) (fresh : account ∈ start.accounts ∨ ¬op.draws account) : Shut account start m := by
  cases effect with
  | @opened id absent =>
    have other : account ∈ start.accounts ∨ id ≠ account := fresh.imp_right (fun undrawn same => undrawn (by simp [Op.draws, same]))
    exact ⟨fun row found => shutNew shut absent other found,fun present => ExtTreeMap.mem_insert.mpr (.inr (shut.kept present)),shut.mapped⟩
  | @bound subject id free absent =>
    have other : account ∈ start.accounts ∨ id ≠ account := fresh.imp_right (fun undrawn same => undrawn (by simp [Op.draws, same]))
    refine ⟨fun row found => shutNew shut absent other found,fun present => ExtTreeMap.mem_insert.mpr (.inr (shut.kept present)),?_⟩
    intro subject' mapped
    have here := shut.mapped subject' mapped
    simp only [lookupInsert]
    rw [if_neg, here]
    rintro rfl
    rw [free] at here
    contradiction
  | @credited id amount old new found =>
    refine shutRow shut found (fun same => ?_) rfl rfl
    exact shut.blocked old (same ▸ found)
  | @confirmed payment p old new _ _ found =>
    refine shutRow shut found (fun same => ?_) rfl rfl
    exact shut.blocked old (same ▸ found)
  | @debited op id amount old next issuances answer charge found live =>
    refine shutRow shut found (fun same => ?_) rfl rfl
    rw [shut.blocked old (same ▸ found)] at live
    contradiction
  | blocked id blocked =>
    cases found : s.accounts[id]? with
    | none => exact shut
    | some old =>
      refine shutRow shut found (fun same => ?_) rfl rfl
      simpa [Op.unblocks, same] using stays
  | planned id plan =>
    cases found : s.accounts[id]? with
    | none => exact shut
    | some old =>
      refine shutRow shut found (fun same => ?_) rfl rfl
      exact shut.blocked old (same ▸ found)
  | @deleted subject id old mapped found live =>
    have other : account ≠ id := by
      rintro rfl
      rw [shut.blocked old found] at live
      contradiction
    refine ⟨?_,fun present => ?_,?_⟩
    · intro row found'
      rw [lookupErase, if_neg other] at found'
      exact shut.blocked row found'
    · rw [ExtTreeMap.mem_iff_isSome_getElem?, lookupErase, if_neg other, ← ExtTreeMap.mem_iff_isSome_getElem?]
      exact shut.kept present
    · intro subject' mapped'
      have here := shut.mapped subject' mapped'
      simp only [lookupErase]
      rw [if_neg, here]
      rintro rfl
      rw [mapped] at here
      exact other (Option.some.inj here).symm
  | known => exact shut
  | intended => exact ⟨shut.blocked,shut.kept,shut.mapped⟩
  | kept => exact shut

theorem shutRefuses {account : AccountId} {start : Tables} (shut : Shut account start s) (effect : Effect s op answer m) :
    ¬op.debits account := by
  intro charged
  cases effect with
  | @debited op id amount old next issuances answer charge found live =>
    simp only [Op.debits, charge, Option.any_some, decide_eq_true_eq] at charged
    rw [shut.blocked old (charged ▸ found)] at live
    contradiction
  | _ => contradiction

theorem shutMapping {account id : AccountId} {subject : String} (mapped : s.accountSubjects[subject]? = some account)
    (effect : Effect s (.accountForSubject subject id) answer m) : answer = .account account := by
  cases effect with
  | known found => rw [Option.some.inj (found.symm.trans mapped)]
  | bound free =>
    rw [mapped] at free
    contradiction
  | debited _ charge => contradiction

end Effects

/- The operations of a run that were carried through. -/
def accepted (calls : List Call) : List Op := Machine.log step (fun s call => if (step s call).1.isOk then [call.op] else []) {} calls

/- What an account has received and spent since its row was inserted. -/
structure Totals where
  credited : Nat := 0
  debited : Nat := 0

def totalsNext (account : AccountId) (s : Tables) (call : Call) (t : Totals) : Totals :=
  if account ∉ s.accounts then {}
  else if (step s call).1.isOk then ⟨t.credited + received account s call.op,t.debited + spent account call.op⟩
  else t

def countedStep (account : AccountId) (counted : Tables × Totals) (call : Call) : Except Failure Answer × (Tables × Totals) :=
  let (answer,next) := step counted.1 call
  (answer,(next,totalsNext account counted.1 call counted.2))

def counted (account : AccountId) (calls : List Call) : Tables × Totals := Machine.run (countedStep account) ({},{}) calls

def totals (account : AccountId) (calls : List Call) : Totals := (counted account calls).2

section Runs

theorem countedTables (account : AccountId) (calls : List Call) : (counted account calls).1 = run calls := by
  induction calls using List.reverseRecOn with
  | nil => rfl
  | append_singleton calls call ih =>
    rw [counted, Machine.runNext, run, Machine.runNext, ← run, ← ih]
    rfl

theorem totalsStep (account : AccountId) (calls : List Call) (call : Call) :
    totals account (calls ++ [call]) = totalsNext account (run calls) call (totals account calls) := by
  rw [totals, counted, Machine.runNext, ← countedTables account calls]
  rfl

theorem runStep (calls : List Call) (call : Call) : run (calls ++ [call]) = (step (run calls) call).2 := Machine.runNext _ _ _

/- A call leaves the tables as they were, or has an effect and is listed. -/
theorem callCases {s : Tables} (sound : Sound s) (call : Call) :
    (step s call).1.isOk = false ∧ (step s call).2 = s ∨
      (step s call).1.isOk = true ∧ ∃ answer, (step s call).1 = .ok answer ∧ Effect s call.op answer (step s call).2 := by
  obtain ⟨carried,failed⟩ := stepSettled sound call
  cases result : (step s call).1 with
  | error e => exact .inl ⟨rfl,failed e result⟩
  | ok answer => exact .inr ⟨rfl,answer,rfl,carried answer result⟩

theorem runSound (calls : List Call) : Sound (run calls) := by
  refine Machine.runInvariant Sound ?_ ⟨by simp,by simp⟩ calls
  intro s call sound
  obtain ⟨_,same⟩ | ⟨_,answer,_,effect⟩ := callCases sound call
  · rw [same]
    exact sound
  · exact effectSound sound effect

/- The balance of an account that was never credited beyond the range. -/
def Balanced (account : AccountId) (s : Tables) (t : Totals) : Prop :=
  ∀ row : AccountRow, s.accounts[account]? = some row → t.credited ≤ i64Max → row.balance = (t.credited : Int) - t.debited

theorem runBalanced (account : AccountId) (calls : List Call) : Balanced account (run calls) (totals account calls) := by
  induction calls using List.reverseRecOn with
  | nil =>
    intro row found
    simp [run, Machine.run] at found
  | append_singleton calls call ih =>
    have sound := runSound calls
    rw [totalsStep, runStep]
    intro row found below
    obtain ⟨failed,same⟩ | ⟨ok,answer,_,effect⟩ := callCases sound call
    · rw [same] at found
      have present : account ∈ (run calls).accounts := ExtTreeMap.mem_iff_isSome_getElem?.mpr (by rw [found]; rfl)
      simp only [totalsNext, not_not.mpr present, failed, if_false, Bool.false_eq_true] at below ⊢
      exact ih row found below
    · obtain ⟨absent,zero⟩ | ⟨old,here,covered,balance⟩ := effectRow sound effect found
      · have new : account ∉ (run calls).accounts := by
          rw [ExtTreeMap.mem_iff_isSome_getElem?, absent]
          exact Bool.false_ne_true
        rw [totalsNext, if_pos new, zero]
        rfl
      · have present : account ∈ (run calls).accounts := ExtTreeMap.mem_iff_isSome_getElem?.mpr (by rw [here]; rfl)
        simp only [totalsNext, not_not.mpr present, ok, if_false, if_true] at below ⊢
        have before := ih old here (by omega)
        obtain ⟨nonneg,_⟩ := sound.balances account old here
        omega

/- What is done once at most is done as often as its trace in the tables says. -/
theorem countedOnce (once : Op → Bool) (trace : Tables → Bool) (start : trace {} = false)
    (marks : ∀ {s m op answer}, Effect s op answer m → trace m = (trace s || once op) ∧ (once op → trace s = false)) (calls : List Call) :
    (accepted calls).countP once = if trace (run calls) then 1 else 0 := by
  induction calls using List.reverseRecOn with
  | nil =>
    rw [run, Machine.run, List.foldl_nil, start]
    rfl
  | append_singleton calls call ih =>
    rw [accepted, Machine.logNext, List.countP_append, ← accepted, ih, runStep, ← run]
    obtain ⟨failed,same⟩ | ⟨ok,answer,_,effect⟩ := callCases (runSound calls) call
    · rw [same, failed]
      rfl
    · obtain ⟨marked,first⟩ := marks effect
      rw [ok, marked]
      cases hit : once call.op with
      | false => simp [hit]
      | true => simp [hit, first hit]

theorem shutStart {s m : Tables} {id : AccountId} {answer : Answer} (effect : Effect s (.setBlocked id true) answer m) : Shut id s m := by
  cases effect with
  | debited _ charge => contradiction
  | blocked =>
    refine ⟨?_,fun present => ?_,fun _ mapped => mapped⟩
    · intro row found
      cases here : s.accounts[id]? with
      | none =>
        rw [here] at found
        rw [Option.map_none, Option.getD_none, here] at found
        contradiction
      | some old =>
        rw [here, Option.map_some, Option.getD_some] at found
        obtain ⟨_,rfl⟩ | ⟨other,_⟩ := insertedLookup found
        · rfl
        · exact absurd rfl other
    · cases here : s.accounts[id]? with
      | none => exact present
      | some old => exact ExtTreeMap.mem_insert_self

/- From the call that blocks an account. -/
theorem runShut {id : AccountId} {faults : List Bool} {calls window : List Call} (blocked : (step (run calls) ⟨.setBlocked id true,faults⟩).1.isOk)
    (stays : ∀ call ∈ window, ¬call.op.unblocks id) (fresh : id ∈ (run calls).accounts ∨ ∀ call ∈ window, ¬call.op.draws id) :
    Shut id (run calls) (run (calls ++ ⟨.setBlocked id true,faults⟩ :: window)) := by
  induction window using List.reverseRecOn with
  | nil =>
    rw [runStep]
    obtain ⟨failed,_⟩ | ⟨_,answer,_,effect⟩ := callCases (runSound calls) ⟨.setBlocked id true,faults⟩
    · rw [failed] at blocked
      contradiction
    · exact shutStart effect
  | append_singleton window call ih =>
    have shut := ih (fun c mem => stays c (List.mem_append_left _ mem)) (fresh.imp_right (fun undrawn c mem => undrawn c (List.mem_append_left _ mem)))
    have whole : calls ++ ⟨.setBlocked id true,faults⟩ :: (window ++ [call]) = (calls ++ ⟨.setBlocked id true,faults⟩ :: window) ++ [call] := by simp
    have last : call ∈ window ++ [call] := List.mem_append_right _ (List.mem_singleton.mpr rfl)
    rw [whole, runStep]
    obtain ⟨_,same⟩ | ⟨_,answer,_,effect⟩ := callCases (runSound (calls ++ ⟨.setBlocked id true,faults⟩ :: window)) call
    · rw [same]
      exact shut
    · exact shutNext shut effect (stays call last) (fresh.imp_right (fun undrawn => undrawn call last))

/- Balances add up, payments and keys count once, errors change nothing, and a block holds until it is lifted. -/
theorem ledgerSound (calls : List Call) :
    (∀ (id : AccountId) (row : AccountRow), (run calls).accounts[id]? = some row → 0 ≤ row.balance ∧ row.balance ≤ i64Max ∧
      ((totals id calls).credited ≤ i64Max → (totals id calls).debited ≤ (totals id calls).credited ∧
        row.balance = ((totals id calls).credited - (totals id calls).debited : Nat))) ∧
    (∀ payment, (accepted calls).countP (Op.confirms payment) ≤ 1) ∧
    (∀ key, (accepted calls).countP (Op.uses key) ≤ 1) ∧
    (∀ call e, (step (run calls) call).1 = .error e → (step (run calls) call).2 = run calls) ∧
    ∀ id faults window, (step (run calls) ⟨.setBlocked id true,faults⟩).1.isOk → (∀ call ∈ window, ¬call.op.unblocks id) →
      (id ∈ (run calls).accounts ∨ ∀ call ∈ window, ¬call.op.draws id) →
      let s := run (calls ++ ⟨.setBlocked id true,faults⟩ :: window)
      (∀ call, call.op.debits id → ¬(step s call).1.isOk) ∧ (∀ row, s.accounts[id]? = some row → row.blocked) ∧
      (id ∈ (run calls).accounts → id ∈ s.accounts) ∧
      ∀ subject, (run calls).accountSubjects[subject]? = some id → s.accountSubjects[subject]? = some id ∧
        ∀ drawn faults' answer, (step s ⟨.accountForSubject subject drawn,faults'⟩).1 = .ok answer → answer = .account id := by
  refine ⟨?_,?_,?_,?_,?_⟩
  · intro id row found
    obtain ⟨nonneg,high⟩ := (runSound calls).balances id row found
    refine ⟨nonneg,high,fun below => ?_⟩
    have balance := runBalanced id calls row found below
    omega
  · intro payment
    rw [countedOnce (Op.confirms payment) (isConfirmed payment) (by simp [isConfirmed]) (fun effect => effectConfirmed effect payment)]
    split <;> decide
  · intro key
    rw [countedOnce (Op.uses key) (fun s => s.tokenIssuances.contains key) (by simp) (fun effect => effectKey effect key)]
    split <;> decide
  · exact fun call e failed => (stepSettled (runSound calls) call).2 e failed
  · intro id faults window blocked stays fresh s
    have sound : Sound s := runSound _
    have shut : Shut id (run calls) s := runShut blocked stays fresh
    refine ⟨?_,shut.blocked,shut.kept,?_⟩
    · intro call charged ok
      obtain ⟨failed,_⟩ | ⟨_,answer,_,effect⟩ := callCases sound call
      · rw [failed] at ok
        contradiction
      · exact shutRefuses shut effect charged
    · intro subject mapped
      have here := shut.mapped subject mapped
      refine ⟨here,?_⟩
      intro drawn faults' answer ok
      exact shutMapping here ((stepSettled sound ⟨.accountForSubject subject drawn,faults'⟩).1 answer ok)

end Runs

/- A payment and a debit; a cost beyond the signed range is not covered, and a blocked account pays nothing. -/
example :
    let account : AccountId := .replicate 32 1
    let calls : List Call := [⟨.openAccount account,[]⟩,⟨.createIntent account 7 (.replicate 32 2),[]⟩,⟨.confirmPayment (.replicate 32 2),[]⟩,
      ⟨.confirmPayment (.replicate 32 2),[]⟩,⟨.debit account 3,[]⟩,⟨.debitAiChat account 18446744073709551615 none,[]⟩,
      ⟨.setBlocked account true,[]⟩,⟨.debit account 1,[]⟩]
    ((run calls).accounts[account]?.map AccountRow.balance) = some 4 := by decide +kernel

end CadsTunnel.Ledger
