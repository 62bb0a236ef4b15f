import CadsTunnel.CanonicalJson
import CadsTunnel.CreditLedger
import CadsTunnel.HexText
import CadsTunnel.Hostnames
import CadsTunnel.SplitText

/-! The payment provider's webhook over the credit ledger. A delivery takes the lock of the ledger
three times, to look the payment up, to confirm it and to set the plan it bought; other
deliveries and the operator come in between. -/
namespace CadsTunnel.Paddle
open Words OrderedMap Sql Ledger SplitText

abbrev Hash := Vector UInt8 32

structure PaidTier where
  credits : Option UInt32
  paddlePriceId : Option String

structure PricingConfig where
  starter : Option PaidTier := none
  medium : Option PaidTier := none
  pro : Option PaidTier := none
  business : Option PaidTier := none

def PricingConfig.tier (pricing : PricingConfig) : String → Option PaidTier
  | "starter" => pricing.starter
  | "medium" => pricing.medium
  | "pro" => pricing.pro
  | "business" => pricing.business
  | _ => none

def get (key : String) : Json.Value → Option Json.Value
  | .object members => (members.find? (fun member => member.1 = key)).map Prod.snd
  | _ => none

def asStr : Json.Value → Option String
  | .string s => some s
  | _ => none

def asArray : Json.Value → Option (List Json.Value)
  | .array items => some items
  | _ => none

inductive StatusCode where
  | badRequest
  | unauthorized
  | notFound
  | unprocessableEntity
  | internalServerError
  | serviceUnavailable
  deriving DecidableEq

structure Rejection where
  status : StatusCode
  text : String
  deriving DecidableEq

def internal : Rejection := ⟨.internalServerError,"internal error"⟩

instance : FromSql Rejection := ⟨fun _ => internal⟩

def hexDecode (s : String) : Option Bytes := Hex.decode (.ofList (Hostnames.trim s.toList))

def hexDecode32 (s : String) : Option PaymentId :=
  (hexDecode s).bind (fun bytes => if size : bytes.toArray.size = 32 then some ⟨bytes.toArray,size⟩ else none)

/- The parts of the header; a later one counts. -/
def signatureParts (header : String) : Option UInt64 × Option String :=
  ((header.toList.splitOn ';').map String.ofList).foldl (fun (ts,h1) part =>
    match splitn 2 '=' part with
    | ["ts",v] => (parseU64 v,h1)
    | ["h1",v] => (ts,some v)
    | _ => (ts,h1)) (none,none)

def absDiff (a b : UInt64) : UInt64 := if b ≤ a then a - b else b - a

/- `hmac` is the keyed digest, and `fromSlice` the JSON reader. -/
section Handler
variable (hmac : Bytes → Bytes → Hash) (fromSlice : Bytes → Option Json.Value) (webhookSecret : Option String)

def signed (secret : String) (ts : UInt64) (body : Bytes) : Hash := hmac (asBytes secret) (asBytes (decimal ts) ++ asBytes ":" ++ body)

def verifyPaddleSignature (secret header : String) (body : Bytes) (now toleranceSecs : UInt64) : Except String Unit :=
  match signatureParts header with
  | (none,_) => .error "missing ts"
  | (some _,none) => .error "missing h1"
  | (some ts,some h1) =>
    if toleranceSecs < absDiff now ts then .error "stale timestamp"
    else
      match hexDecode h1 with
      | none => .error "malformed signature hex"
      | some sig => if (signed hmac secret ts body).toList = sig then .ok () else .error "signature mismatch"

def paidPrice (event : Json.Value) (priceId : String) : Bool :=
  (((get "data" event).bind (get "items")).bind asArray).any (fun items =>
    items.any (fun item => ((get "price" item).bind (get "id")).bind asStr = some priceId))

def verifyPaidPlan (event : Json.Value) (pricing : PricingConfig) (plan : String) (intentCredits : UInt64) : Except String String :=
  match pricing.tier plan with
  | none => .error "transaction names no configured plan"
  | some tier =>
    match tier.paddlePriceId with
    | none => .error "plan has no Paddle price configured"
    | some priceId =>
      if !paidPrice event priceId then .error "transaction does not contain the plan's Paddle price"
      else if intentCredits ≠ (tier.credits.getD 0).toUInt64 then .error "payment intent does not match the plan's credit bundle"
      else .ok plan

def paymentIntent (payment : PaymentId) : Work Rejection (Option (AccountId × UInt64)) := do
  let row ← select (fun s => s.payments[payment]?)
  pure (row.map (fun row => (row.account,asU64 (max row.credits 0))))

/- What arrives, when, and the prices configured then. -/
structure Request where
  signature : Option String
  body : Bytes
  now : UInt64
  pricing : PricingConfig

inductive Stage where
  | confirming
  | planning
  deriving DecidableEq

/- A verified delivery that is not answered yet. -/
structure Delivery where
  body : Bytes
  payment : PaymentId
  account : AccountId
  plan : String
  stage : Stage

def eventType (event : Json.Value) : String := ((get "event_type" event).bind asStr).getD ""

def customData (event : Json.Value) (key : String) : Option String :=
  (((get "data" event).bind (get "custom_data")).bind (get key)).bind asStr

/- `paddle_webhook` up to the check of what was paid for; `none` is an event that is acknowledged and not acted on. -/
def receive (request : Request) : Work Rejection (Option Delivery) :=
  match webhookSecret with
  | none => throw ⟨.serviceUnavailable,"payment provider not configured on this deployment"⟩
  | some secret =>
    match request.signature with
    | none => throw ⟨.badRequest,"missing Paddle-Signature"⟩
    | some sigHeader =>
      match verifyPaddleSignature hmac secret sigHeader request.body request.now 300 with
      | .error e => throw ⟨.unauthorized,e⟩
      | .ok _ =>
        match fromSlice request.body with
        | none => throw ⟨.badRequest,"malformed event body"⟩
        | some event =>
          if eventType event ≠ "transaction.completed" then pure none
          else
            match customData event "payment_id" with
            | none => pure none
            | some paymentIdHex =>
              match hexDecode32 paymentIdHex with
              | none => throw ⟨.badRequest,"malformed payment id"⟩
              | some payment => do
                match ← paymentIntent payment with
                | none => throw ⟨.notFound,"unknown payment"⟩
                | some (account,intentCredits) =>
                  match verifyPaidPlan event request.pricing ((customData event "plan").getD "") intentCredits with
                  | .error why => throw ⟨.unprocessableEntity,why⟩
                  | .ok plan => pure (some ⟨request.body,payment,account,plan,.confirming⟩)

/- How the handler goes on after `confirm_payment`. -/
def confirmed : Except PaymentOpError UInt64 → Except Rejection Unit
  | .ok _ | .error (.payment .alreadyConfirmed) => .ok ()
  | .error (.payment .unknownPayment) => .error ⟨.notFound,"unknown payment"⟩
  | .error _ => .error internal

def planned : Except SqlError Unit → Except Rejection Unit
  | .ok _ => .ok ()
  | .error _ => .error internal

/- The ledger, the deliveries under way, and the answers given so far. -/
structure Service where
  ledger : Tables := {}
  pending : List Delivery := []
  answers : List (Bytes × Except Rejection Unit) := []

/- `resume n` is the next use of the ledger by the n-th delivery under way, and `ledger` any other one, as the operator's change of a plan. -/
inductive Move where
  | receive (request : Request)
  | resume (n : Nat)
  | ledger (op : Op)

structure Call where
  move : Move
  faults : List Bool := []

def Service.answer (s : Service) (body : Bytes) (result : Except Rejection Unit) : Service :=
  { s with answers := s.answers ++ [(body,result)] }

def step (s : Service) (call : Call) : Unit × Service :=
  match call.move with
  | .receive request =>
    match perform (receive hmac fromSlice webhookSecret request) s.ledger call.faults with
    | (.ok (some delivery),ledger) => ((),{ s with ledger := ledger, pending := s.pending ++ [delivery] })
    | (.ok none,ledger) => ((),{ s with ledger := ledger }.answer request.body (.ok ()))
    | (.error e,ledger) => ((),{ s with ledger := ledger }.answer request.body (.error e))
  | .resume n =>
    match s.pending[n]? with
    | none => ((),s)
    | some d =>
      match d.stage with
      | .confirming =>
        let (result,ledger) := perform (confirmPayment d.payment) s.ledger call.faults
        match confirmed result with
        | .ok _ => ((),{ s with ledger := ledger, pending := s.pending.set n { d with stage := .planning } })
        | .error e => ((),{ s with ledger := ledger, pending := s.pending.eraseIdx n }.answer d.body (.error e))
      | .planning =>
        let (result,ledger) := perform (setPlan d.account (some d.plan)) s.ledger call.faults
        ((),{ s with ledger := ledger, pending := s.pending.eraseIdx n }.answer d.body (planned result))
  | .ledger op => ((),{ s with ledger := (Ledger.step s.ledger ⟨op,call.faults⟩).2 })

def run (calls : List Call) : Service := Machine.run (step hmac fromSlice webhookSecret) {} calls

/- The payment an event completes. -/
def paymentOf (body : Bytes) : Option PaymentId :=
  (fromSlice body).bind (fun event =>
    if eventType event ≠ "transaction.completed" then none else (customData event "payment_id").bind hexDecode32)

end Handler

/- The event that a move delivers. -/
def Move.body (s : Service) : Move → Option Bytes
  | .receive request => some request.body
  | .resume n => s.pending[n]?.map Delivery.body
  | .ledger _ => none

def Acknowledged (s : Service) (body : Bytes) : Prop := (body,.ok ()) ∈ s.answers

/- A move that delivers an event again. -/
def Redelivers (s : Service) (move : Move) : Prop := ∃ body, move.body s = some body ∧ Acknowledged s body

def holdings (s : Tables) (id : AccountId) : Option (Int × Option String) := s.accounts[id]?.map (fun row => (row.balance,row.plan))

/- No account's balance and no account's plan differ. -/
def Unchanged (s m : Tables) : Prop := ∀ id, holdings m id = holdings s id

/- The account of a delivery about to set its plan is gone, or has that plan. -/
def Current (s : Service) : Move → Prop
  | .resume n => ∀ d, s.pending[n]? = some d → d.stage = .planning →
      ∀ row, s.ledger.accounts[d.account]? = some row → row.plan = some d.plan
  | _ => True

section Uses
variable {hmac : Bytes → Bytes → Hash} {fromSlice : Bytes → Option Json.Value} {webhookSecret : Option String} {s m : Tables}

/- Up to the check the ledger is only read; what passes it names the payment of the event. -/
def Received (fromSlice : Bytes → Option Json.Value) (request : Request) (s : Tables) (result : Except Rejection (Option Delivery)) (m : Tables) : Prop :=
  m = s ∧ match result with
    | .ok (some d) => d.body = request.body ∧ d.stage = .confirming ∧ paymentOf fromSlice d.body = some d.payment
    | .ok none => paymentOf fromSlice request.body = none
    | .error _ => True

theorem receiveEnds (request : Request) : Ends (receive hmac fromSlice webhookSecret request) s (Received fromSlice request s) := by
  have refused : ∀ e, Ends (throw e : Work Rejection (Option Delivery)) s (Received fromSlice request s) := fun _ => endsThrow ⟨rfl,trivial⟩
  unfold receive
  split
  case h_1 => exact refused _
  case h_2 =>
    split
    case h_1 => exact refused _
    case h_2 =>
      split
      case h_1 => exact refused _
      case h_2 =>
        cases parsed : fromSlice request.body with
        | none => exact refused _
        | some event =>
          have names : paymentOf fromSlice request.body =
              if eventType event ≠ "transaction.completed" then none else (customData event "payment_id").bind hexDecode32 := by
            rw [paymentOf, parsed, Option.bind_some]
          dsimp only
          split
          case isTrue other => exact endsPure ⟨rfl,by rw [names, if_pos other]⟩
          case isFalse completed =>
            rw [if_neg completed] at names
            cases hex : customData event "payment_id" with
            | none => exact endsPure ⟨rfl,by rw [names, hex]; rfl⟩
            | some paymentIdHex =>
              rw [hex, Option.bind_some] at names
              dsimp only
              cases id : hexDecode32 paymentIdHex with
              | none => exact refused _
              | some payment =>
                rw [id] at names
                refine endsBind (fun _ m => m = s) (endsSelect ⟨rfl,trivial⟩ (endsPure rfl)) ?_
                rintro intent _ rfl
                split
                case h_1 => exact endsThrow ⟨rfl,trivial⟩
                case h_2 =>
                  split
                  case h_1 => exact endsThrow ⟨rfl,trivial⟩
                  case h_2 => exact endsPure ⟨rfl,rfl,rfl,names⟩

/- A payment that counts as confirmed already is confirmed. -/
theorem refusedConfirmation (payment : PaymentId) :
    Ends (confirmPayment payment) s (fun r _ => r = .error (.payment .alreadyConfirmed) → isConfirmed payment s = true) := by
  unfold confirmPayment
  refine endsTransaction (by simp) (endsSelect (by simp) ?_)
  split
  case h_1 => exact endsThrow (by simp)
  case h_2 row found =>
    split
    case isTrue before => exact endsThrow (fun _ => by rw [isConfirmed, found, Option.any_some, before])
    case isFalse =>
      split
      case isTrue => exact endsThrow (by simp)
      case isFalse =>
        refine endsSelect (by simp) ?_
        split
        case h_1 => exact endsThrow (by simp)
        case h_2 => exact endsExecute (by simp) (endsExecute (by simp) (endsPure (by simp)))

/- The ledger after a use of it: as it was, or with the effect of the operation. -/
def Used (s : Tables) (op : Op) (m : Tables) : Prop := m = s ∨ ∃ answer, Effect s op answer m

/- After a first confirmation, and after one that the ledger refuses because it is not the first, the handler goes on. -/
theorem confirmEnds (sound : Sound s) (payment : PaymentId) :
    Ends (confirmPayment payment) s (fun r m => Used s (.confirmPayment payment) m ∧ (confirmed r = .ok () → isConfirmed payment m = true)) := by
  intro faults
  have settled := confirmPaymentEnds sound payment faults
  have refused := refusedConfirmation (s := s) payment faults
  obtain ⟨⟨result,m⟩,out⟩ : ∃ out, perform (confirmPayment payment) s faults = out := ⟨_,rfl⟩
  rw [out] at settled refused ⊢
  cases result with
  | ok balance =>
    refine ⟨.inr ⟨_,settled⟩,fun _ => ?_⟩
    rw [(effectConfirmed settled payment).1, Op.confirms, decide_eq_true rfl, Bool.or_true]
  | error e =>
    have same : m = s := settled
    refine ⟨.inl same,fun goes => ?_⟩
    rw [same]
    unfold confirmed at goes
    split at goes <;> try contradiction
    case h_2 same => exact refused same

theorem usedKeeps {op : Op} (used : Used s op m) {payment : PaymentId} (before : isConfirmed payment s = true) : isConfirmed payment m = true := by
  obtain rfl | ⟨answer,effect⟩ := used
  · exact before
  · rw [(effectConfirmed effect payment).1, before, Bool.true_or]

theorem usedSound {op : Op} (sound : Sound s) (used : Used s op m) : Sound m := by
  obtain rfl | ⟨answer,effect⟩ := used
  · exact sound
  · exact effectSound sound effect

theorem usedTwice {payment : PaymentId} (used : Used s (.confirmPayment payment) m) (before : isConfirmed payment s = true) : m = s := by
  obtain same | ⟨answer,effect⟩ := used
  · exact same
  · have first := (effectConfirmed effect payment).2 (decide_eq_true rfl)
    rw [before] at first
    contradiction

theorem planEnds (account : AccountId) (plan : Option String) : Ends (setPlan account plan) s (fun _ m => Used s (.setPlan account plan) m) :=
  endsMono (setPlanEnds account plan) (by
    rintro (_ | _) m settled
    · exact .inl settled
    · exact .inr ⟨_,settled⟩)

end Uses

/- What a move does. -/
inductive Moved (fromSlice : Bytes → Option Json.Value) (s : Service) : Move → Service → Prop where
  | idle {n : Nat} (none' : s.pending[n]? = none) : Moved fromSlice s (.resume n) s
  | accepted {request : Request} {d : Delivery} (body : d.body = request.body) (stage : d.stage = .confirming)
      (names : paymentOf fromSlice d.body = some d.payment) : Moved fromSlice s (.receive request) { s with pending := s.pending ++ [d] }
  | answered {request : Request} {result : Except Rejection Unit} (ignored : result = .ok () → paymentOf fromSlice request.body = none) :
      Moved fromSlice s (.receive request) (s.answer request.body result)
  | confirmed {n : Nat} {d : Delivery} {ledger : Tables} (found : s.pending[n]? = some d) (stage : d.stage = .confirming)
      (used : Used s.ledger (.confirmPayment d.payment) ledger) (now : isConfirmed d.payment ledger = true) :
      Moved fromSlice s (.resume n) { s with ledger := ledger, pending := s.pending.set n { d with stage := .planning } }
  | failed {n : Nat} {d : Delivery} {ledger : Tables} {e : Rejection} (found : s.pending[n]? = some d) (stage : d.stage = .confirming)
      (used : Used s.ledger (.confirmPayment d.payment) ledger) :
      Moved fromSlice s (.resume n) ({ s with ledger := ledger, pending := s.pending.eraseIdx n }.answer d.body (.error e))
  | planned {n : Nat} {d : Delivery} {ledger : Tables} {result : Except Rejection Unit} (found : s.pending[n]? = some d)
      (stage : d.stage = .planning) (used : Used s.ledger (.setPlan d.account (some d.plan)) ledger) :
      Moved fromSlice s (.resume n) ({ s with ledger := ledger, pending := s.pending.eraseIdx n }.answer d.body result)
  | other {op : Op} {ledger : Tables} (used : Used s.ledger op ledger) : Moved fromSlice s (.ledger op) { s with ledger := ledger }

section Moves
variable {hmac : Bytes → Bytes → Hash} {fromSlice : Bytes → Option Json.Value} {webhookSecret : Option String} {s m : Service}

theorem stepMoved (sound : Sound s.ledger) (call : Call) : Moved fromSlice s call.move (step hmac fromSlice webhookSecret s call).2 := by
  obtain ⟨move,faults⟩ := call
  cases move with
  | receive request =>
    have received := @receiveEnds hmac fromSlice webhookSecret s.ledger request faults
    unfold step
    obtain ⟨⟨result,ledger⟩,out⟩ : ∃ out, perform (receive hmac fromSlice webhookSecret request) s.ledger faults = out := ⟨_,rfl⟩
    rw [out] at received
    dsimp only
    rw [out]
    obtain ⟨same,gives⟩ := received
    cases same
    match result, gives with
    | .ok (some d), ⟨body,stage,names⟩ => exact .accepted body stage names
    | .ok none, ignored => exact .answered (fun _ => ignored)
    | .error e, _ => exact .answered nofun
  | resume n =>
    unfold step
    dsimp only
    cases found : s.pending[n]? with
    | none => exact .idle found
    | some d =>
      dsimp only
      cases stage : d.stage with
      | confirming =>
        obtain ⟨used,goes⟩ := confirmEnds sound d.payment faults
        obtain ⟨⟨result,ledger⟩,out⟩ : ∃ out, perform (confirmPayment d.payment) s.ledger faults = out := ⟨_,rfl⟩
        rw [out] at used goes
        dsimp only
        rw [out]
        dsimp only
        cases next : Paddle.confirmed result with
        | ok => exact .confirmed found stage used (goes next)
        | error e => exact .failed found stage used
      | planning => exact .planned found stage (planEnds d.account (some d.plan) faults)
  | ledger op =>
    refine .other ?_
    obtain ⟨_,same⟩ | ⟨_,answer,_,effect⟩ := callCases sound ⟨op,faults⟩
    · exact .inl same
    · exact .inr ⟨answer,effect⟩

/- A delivery sets its plan after its payment is confirmed, and so an event that was acknowledged has its payment confirmed. -/
structure Consistent (fromSlice : Bytes → Option Json.Value) (s : Service) : Prop where
  sound : Sound s.ledger
  named : ∀ d ∈ s.pending, paymentOf fromSlice d.body = some d.payment
  planned : ∀ d ∈ s.pending, d.stage = .planning → isConfirmed d.payment s.ledger = true
  acknowledged : ∀ body payment, Acknowledged s body → paymentOf fromSlice body = some payment → isConfirmed payment s.ledger = true

theorem answeredMore {body other : Bytes} {result : Except Rejection Unit} (acknowledged : Acknowledged (s.answer body result) other) :
    Acknowledged s other ∨ other = body ∧ result = .ok () := by
  obtain before | last := List.mem_append.mp acknowledged
  · exact .inl before
  · cases List.mem_singleton.mp last
    exact .inr ⟨rfl,rfl⟩

theorem consistentNext (consistent : Consistent fromSlice s) {move : Move} (moved : Moved fromSlice s move m) : Consistent fromSlice m := by
  obtain ⟨sound,named,planned,acknowledged⟩ := consistent
  cases moved with
  | idle => exact ⟨sound,named,planned,acknowledged⟩
  | accepted body stage names =>
    refine ⟨sound,?_,?_,acknowledged⟩
    · intro d mem
      obtain old | new := List.mem_append.mp mem
      · exact named d old
      · cases List.mem_singleton.mp new
        exact names
    · intro d mem planning
      obtain old | new := List.mem_append.mp mem
      · exact planned d old planning
      · cases List.mem_singleton.mp new
        rw [stage] at planning
        contradiction
  | answered ignored =>
    refine ⟨sound,named,planned,?_⟩
    intro body payment acked names
    obtain before | ⟨rfl,ok⟩ := answeredMore acked
    · exact acknowledged body payment before names
    · rw [ignored ok] at names
      contradiction
  | @confirmed n d ledger found stage used now =>
    have mem := List.mem_of_getElem? found
    refine ⟨usedSound sound used,?_,?_,fun body payment acked names => usedKeeps used (acknowledged body payment acked names)⟩
    · intro d' mem'
      obtain old | rfl := List.mem_or_eq_of_mem_set mem'
      · exact named d' old
      · exact named d mem
    · intro d' mem' planning
      obtain old | rfl := List.mem_or_eq_of_mem_set mem'
      · exact usedKeeps used (planned d' old planning)
      · exact now
  | @failed n d ledger e found stage used =>
    refine ⟨usedSound sound used,fun d' mem => named d' (List.mem_of_mem_eraseIdx mem),
      fun d' mem planning => usedKeeps used (planned d' (List.mem_of_mem_eraseIdx mem) planning),?_⟩
    intro body payment acked names
    obtain before | ⟨_,ok⟩ := answeredMore acked
    · exact usedKeeps used (acknowledged body payment before names)
    · contradiction
  | @planned n d ledger result found stage used =>
    have mem := List.mem_of_getElem? found
    refine ⟨usedSound sound used,fun d' mem => named d' (List.mem_of_mem_eraseIdx mem),
      fun d' mem planning => usedKeeps used (planned d' (List.mem_of_mem_eraseIdx mem) planning),?_⟩
    intro body payment acked names
    obtain before | ⟨rfl,_⟩ := answeredMore acked
    · exact usedKeeps used (acknowledged body payment before names)
    · cases (named d mem).symm.trans names
      exact usedKeeps used (planned d mem stage)
  | other used =>
    exact ⟨usedSound sound used,named,fun d mem planning => usedKeeps used (planned d mem planning),
      fun body payment acked names => usedKeeps used (acknowledged body payment acked names)⟩

theorem consistentStart : Consistent fromSlice {} := ⟨⟨by simp,by simp⟩,by simp,by simp,by simp [Acknowledged]⟩

theorem consistentStep (s : Service) (call : Call) (consistent : Consistent fromSlice s) :
    Consistent fromSlice (step hmac fromSlice webhookSecret s call).2 := consistentNext consistent (stepMoved consistent.sound call)

theorem runConsistent (calls : List Call) : Consistent fromSlice (run hmac fromSlice webhookSecret calls) :=
  Machine.runInvariant (Consistent fromSlice) consistentStep consistentStart calls

/- A plan that is set again is no change. -/
theorem planAgain {s m : Tables} {account : AccountId} {plan : String} {answer : Answer} (effect : Effect s (.setPlan account (some plan)) answer m)
    (current : ∀ row, s.accounts[account]? = some row → row.plan = some plan) : Unchanged s m := by
  cases effect with
  | debited _ charge => contradiction
  | planned =>
    intro id
    cases here : s.accounts[account]? with
    | none => rfl
    | some row =>
      simp only [holdings, Option.map_some, Option.getD_some, lookupInsert]
      split
      case isTrue same => rw [same, here, ← current row here, Option.map_some]
      case isFalse => rfl

/- No step of a delivery after its event was acknowledged changes a balance, and only the last one may change a plan. -/
theorem redeliveryUnchanged (consistent : Consistent fromSlice s) {move : Move} (moved : Moved fromSlice s move m) (again : Redelivers s move)
    (current : Current s move) : Unchanged s.ledger m.ledger := by
  obtain ⟨body,delivers,acknowledged⟩ := again
  have paid : ∀ {n : Nat} {d : Delivery}, s.pending[n]? = some d → (s.pending[n]?.map Delivery.body) = some body →
      isConfirmed d.payment s.ledger = true := by
    intro n d found same
    rw [found] at same
    cases Option.some.inj same
    exact consistent.acknowledged d.body d.payment acknowledged (consistent.named d (List.mem_of_getElem? found))
  cases moved with
  | idle => exact fun _ => rfl
  | accepted => exact fun _ => rfl
  | answered => exact fun _ => rfl
  | confirmed found stage used => exact fun _ => congrArg (holdings · _) (usedTwice used (paid found delivers))
  | failed found stage used => exact fun _ => congrArg (holdings · _) (usedTwice used (paid found delivers))
  | @planned n d ledger result found stage used =>
    obtain same | ⟨answer,effect⟩ := used
    · exact fun _ => congrArg (holdings · _) same
    · exact planAgain effect (current d found stage)
  | other => contradiction

/- Where no statement fails, the last step of a delivery sets the plan of its event. -/
theorem unchangedCurrent {move : Move} (unchanged : Unchanged s.ledger (step hmac fromSlice webhookSecret s ⟨move,[]⟩).2.ledger) : Current s move := by
  cases move with
  | receive => trivial
  | ledger => trivial
  | resume n =>
    intro d found stage row here
    have same := unchanged d.account
    have next : (step hmac fromSlice webhookSecret s ⟨.resume n,[]⟩).2.ledger =
        { s.ledger with accounts := s.ledger.accounts.insert d.account { row with plan := some d.plan } } := by
      have set : perform (setPlan d.account (some d.plan)) s.ledger [] =
          (.ok (),{ s.ledger with accounts := (updateWhere (fun k _ => k = d.account) (fun row : AccountRow => { row with plan := some d.plan })
            s.ledger.accounts).2 }) := rfl
      rw [updatedRow, here] at set
      simp only [step, found, stage, set]
      rfl
    rw [next, holdings, holdings, lookupInsert, if_pos rfl, here] at same
    exact (congrArg Prod.snd (Option.some.inj same)).symm

end Moves

/- A delivery of an acknowledged event changes nothing exactly if its account, when its plan is set again, has no other plan. -/
theorem webhookRetries (hmac : Bytes → Bytes → Hash) (fromSlice : Bytes → Option Json.Value) (webhookSecret : Option String) (calls : List Call) :
    (∀ move, Redelivers (run hmac fromSlice webhookSecret calls) move →
      ((∀ faults, Unchanged (run hmac fromSlice webhookSecret calls).ledger
        (step hmac fromSlice webhookSecret (run hmac fromSlice webhookSecret calls) ⟨move,faults⟩).2.ledger) ↔
          Current (run hmac fromSlice webhookSecret calls) move)) ∧
    (Machine.along (step hmac fromSlice webhookSecret) (fun s call => Redelivers s call.move → Current s call.move) {} calls →
      Machine.along (step hmac fromSlice webhookSecret) (fun s call => Redelivers s call.move →
        Unchanged s.ledger (step hmac fromSlice webhookSecret s call).2.ledger) {} calls) := by
  refine ⟨fun move again => ⟨fun unchanged => unchangedCurrent (unchanged []),fun current faults => ?step⟩,?run⟩
  case step =>
    have consistent : Consistent fromSlice (run hmac fromSlice webhookSecret calls) := runConsistent calls
    exact redeliveryUnchanged consistent (stepMoved consistent.sound ⟨move,faults⟩) again current
  case run =>
    refine Machine.alongInvariant (Consistent fromSlice) consistentStep ?_ consistentStart
    exact fun s call consistent current again => redeliveryUnchanged consistent (stepMoved consistent.sound call) again (current again)

/- One account buys a small plan and then a larger one. -/
def buyer : AccountId := .replicate 32 7
def firstPayment : PaymentId := .replicate 32 1
def secondPayment : PaymentId := .replicate 32 2

def completed (payment : PaymentId) (plan : String) : Json.Value :=
  .object [("event_type",.string "transaction.completed"),("data",.object [
    ("custom_data",.object [("payment_id",.string (Hex.encode payment.toList)),("plan",.string plan)]),
    ("items",.array [.object [("price",.object [("id",.string plan)])]])])]

def twoEvents : Bytes → Option Json.Value
  | [1] => some (completed firstPayment "starter")
  | [2] => some (completed secondPayment "pro")
  | _ => none

def summed (key message : Bytes) : Hash := .replicate 32 (key.sum + message.sum)

def delivered (body : Bytes) : Call :=
  ⟨.receive ⟨some ("ts=5;h1=" ++ Hex.encode (signed summed "k" 5 body).toList),body,5,
    { starter := some ⟨none,some "starter"⟩, pro := some ⟨none,some "pro"⟩ }⟩,[]⟩

def resumed : Call := ⟨.resume 0,[]⟩

def upgraded : List Call :=
  [⟨.ledger (.openAccount buyer),[]⟩,⟨.ledger (.createIntent buyer 0 firstPayment),[]⟩,⟨.ledger (.createIntent buyer 0 secondPayment),[]⟩,
    delivered [1],resumed,resumed,delivered [2],resumed,resumed,delivered [1],resumed]

theorem acknowledgedFirst {s : Service} {body : Bytes} (first : s.answers[0]?.map (fun a => (a.1,a.2.toBool)) = some (body,true)) :
    Acknowledged s body := by
  obtain ⟨⟨body',result⟩,found,given⟩ := Option.map_eq_some_iff.mp first
  cases result with
  | error => cases given
  | ok =>
    cases congrArg Prod.fst given
    exact List.mem_of_getElem? found

theorem changedHolding {s m : Tables} {id : AccountId} (differ : holdings m id ≠ holdings s id) : ¬Unchanged s m := fun same => differ (same id)

/- The first event, delivered again after the second, takes the larger plan away. -/
theorem olderEventReturns : ¬∀ (calls : List Call) (move : Move), Redelivers (run summed twoEvents (some "k") calls) move →
    ∀ faults, Unchanged (run summed twoEvents (some "k") calls).ledger
      (step summed twoEvents (some "k") (run summed twoEvents (some "k") calls) ⟨move,faults⟩).2.ledger := by
  intro idempotent
  have acknowledged : Acknowledged (run summed twoEvents (some "k") upgraded) [1] := acknowledgedFirst (by decide +kernel)
  refine @changedHolding _ _ buyer ?_ (idempotent upgraded (.resume 0) ⟨[1],by decide +kernel,acknowledged⟩ [])
  have plans : (holdings (run summed twoEvents (some "k") upgraded).ledger buyer,
      holdings (step summed twoEvents (some "k") (run summed twoEvents (some "k") upgraded) ⟨.resume 0,[]⟩).2.ledger buyer) =
        (some (0,some "pro"),some (0,some "starter")) := by decide +kernel
  intro same
  exact absurd ((congrArg Prod.fst plans).symm.trans (same.symm.trans (congrArg Prod.snd plans))) (by decide)

end CadsTunnel.Paddle
