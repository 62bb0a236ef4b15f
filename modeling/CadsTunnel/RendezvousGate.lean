import CadsTunnel.Duties
import CadsTunnel.EdgeServe
import CadsTunnel.RateLimitRuns

/-! The rendezvous of clients with their tunnels. A client solves the edge's challenge for the
token it names, the token must be known, and its budget of the running minute not spent. Any
number of clients are served over either transport while other tasks use the registry. -/
namespace CadsTunnel.Edge.Rendezvous
open Words Program
open Bindings (Primitives)
open RateLimit (KeyedRateLimiter)

section Numbers

theorem readLeAppend (front back : Bytes) : readLE (front ++ back) = readLE front + 256 ^ front.length * readLE back := by
  induction front with
  | nil => simp [readLE]
  | cons b rest ih =>
    rw [List.cons_append, readLE, readLE, ih, List.length_cons, Nat.pow_succ', Nat.mul_add, Nat.mul_assoc, Nat.add_assoc]

theorem readBeCons (b : UInt8) (rest : Bytes) : readBE (b :: rest) = readBE rest + 256 ^ rest.length * b.toNat := by
  rw [readBE, List.reverse_cons, readLeAppend, List.length_reverse]
  rfl

theorem readBeLt (raw : Bytes) : readBE raw < 256 ^ raw.length := by
  have bound := readLeLt raw.reverse
  rwa [List.length_reverse] at bound

/- The zero bits in front say how small the number is. -/
theorem zeroBitsTarget {d : Nat} {bytes : Bytes} (fits : d ≤ 8 * bytes.length) :
    d ≤ leadingZeroBits bytes ↔ readBE bytes < 2 ^ (8 * bytes.length - d) := by
  induction bytes generalizing d with
  | nil =>
    obtain rfl : d = 0 := by simpa using fits
    exact iff_of_true (Nat.zero_le _) (by decide)
  | cons b rest ih =>
    have room : 256 ^ rest.length = 2 ^ (8 * rest.length) := by rw [Nat.pow_mul]
    have below := readBeLt rest
    rw [List.length_cons, Nat.mul_succ] at fits ⊢
    rw [leadingZeroBits, readBeCons]
    by_cases zero : b = 0
    · subst zero
      rw [if_pos rfl, UInt8.toNat_zero, Nat.mul_zero, Nat.add_zero]
      by_cases early : d ≤ 8
      · refine iff_of_true (early.trans (Nat.le_add_right 8 _)) (below.trans_le ?_)
        rw [room]
        exact Nat.pow_le_pow_right (by decide) (by omega)
      · have rest' := @ih (d - 8) (by omega)
        rw [show 8 * rest.length + 8 - d = 8 * rest.length - (d - 8) by omega, ← rest']
        omega
    · have positive : b.toNat ≠ 0 := fun same => zero (UInt8.toNat_inj.mp same)
      rw [if_neg zero, room]
      rw [room] at below
      by_cases early : d ≤ 7
      · have bits : d ≤ 7 - Nat.log2 b.toNat ↔ b.toNat < 2 ^ (8 - d) := by
          have top : Nat.log2 b.toNat < 8 := (Nat.log2_lt positive).mpr b.toNat_lt
          rw [← Nat.log2_lt positive]
          omega
        have split : 8 * rest.length + 8 - d = 8 * rest.length + (8 - d) := by omega
        rw [bits, split, Nat.pow_add]
        constructor
        · intro small
          have scaled := Nat.mul_le_mul_left (2 ^ (8 * rest.length)) (Nat.succ_le_of_lt small)
          rw [Nat.mul_succ] at scaled
          omega
        · intro small
          refine Nat.lt_of_mul_lt_mul_left (a := 2 ^ (8 * rest.length)) ?_
          omega
      · refine iff_of_false (by omega) (Nat.not_lt.mpr ?_)
        have least : 2 ^ (8 * rest.length + 8 - d) ≤ 2 ^ (8 * rest.length) := Nat.pow_le_pow_right (by decide) (by omega)
        have scaled := Nat.mul_le_mul_left (2 ^ (8 * rest.length)) (Nat.pos_of_ne_zero positive)
        omega

end Numbers

section Work
variable (crypto : Primitives) (challenge : Challenge) (token : RoutingToken)

/- The hash as a number, for a solution. -/
def work (solution : UInt64) : Nat := readBE (crypto.sha256 (challenge.nonce.toList ++ token.toList ++ u64LE solution)).toList

theorem verifyTarget (solution : UInt64) :
    challenge.verify crypto token solution = true ↔ work crypto challenge token solution < 2 ^ (256 - challenge.difficulty.toNat) := by
  have short : challenge.difficulty.toNat < 256 := challenge.difficulty.toNat_lt
  have target := @zeroBitsTarget challenge.difficulty.toNat
    (crypto.sha256 (challenge.nonce.toList ++ token.toList ++ u64LE solution)).toList (by rw [Vector.length_toList]; omega)
  rw [Vector.length_toList] at target
  rw [Challenge.verify, decide_eq_true_iff]
  exact target

def assembleRequest (solution : UInt64) (token : RoutingToken) : Bytes := u64LE solution ++ token.toList

theorem requestLength (solution : UInt64) : (assembleRequest solution token).length = 40 := by
  rw [assembleRequest, List.length_append, u64LE, leLength, Vector.length_toList]

theorem requestFields (solution : UInt64) :
    UInt64.ofNat (readLE ((assembleRequest solution token).take 8)) = solution ∧
      (.ofFn (fun i => (assembleRequest solution token).getD (8 + i.val) 0) : RoutingToken) = token := by
  have width : (u64LE solution).length = 8 := leLength 8 _
  constructor
  · rw [assembleRequest, List.take_left' width, readU64LE]
  · refine Vector.ext fun i inside => ?_
    rw [Vector.getElem_ofFn, assembleRequest, List.getD_eq_getElem?_getD, List.getElem?_append_right (by omega), width]
    simp [inside]

theorem requestSplit {request : Bytes} (length : request.length = 40) :
    request = assembleRequest (.ofNat (readLE (request.take 8))) (.ofFn (fun i => request.getD (8 + i.val) 0)) := by
  have front : (request.take 8).length = 8 := by simp [length]
  have solution : u64LE (.ofNat (readLE (request.take 8))) = request.take 8 := by
    have bound := readLeLt (request.take 8)
    rw [front] at bound
    have read := leRead (request.take 8)
    rw [front] at read
    rw [u64LE, UInt64.toNat_ofNat_of_lt' bound, read]
  have token : (.ofFn (fun i => request.getD (8 + i.val) 0) : RoutingToken).toList = request.drop 8 := by
    refine List.ext_getElem (by simp [length]) fun i inside _ => ?_
    rw [Vector.length_toList] at inside
    simp [length, show 8 + i < 40 by omega]
  rw [assembleRequest, solution, token, List.take_append_drop]

/- The edge accepts no other bytes than the wire form of a solution for the token. -/
theorem checkAccepts (request : Bytes) : checkRequest crypto challenge request = .ok token ↔
    ∃ solution, request = assembleRequest solution token ∧ challenge.verify crypto token solution = true := by
  unfold checkRequest
  constructor
  · intro ok
    split at ok
    · contradiction
    · rename_i length
      have split := requestSplit (not_ne_iff.mp length)
      dsimp only at ok
      split at ok
      · rename_i verified
        have same := Except.ok.inj ok
        rw [same] at split verified
        exact ⟨_,split,verified⟩
      · contradiction
  · rintro ⟨solution,rfl,verified⟩
    obtain ⟨first,second⟩ := requestFields token solution
    rw [if_neg (not_ne_iff.mpr (requestLength token solution)), first, second, if_pos verified]

def maxClientSolvableDifficulty : UInt8 := 32

/- The rounds of the loop from a solution on; none is an answer that is still awaited. Past the last 64-bit number the
sum wraps, or panics in a checked build. -/
def search : Nat → UInt64 → Option UInt64
  | 0, _ => none
  | rounds + 1, solution => if challenge.verify crypto token solution then some solution else search rounds (solution + 1)

/- The error is the difficulty that is too high. -/
def solve (rounds : Nat) : Except UInt8 (Option UInt64) :=
  if maxClientSolvableDifficulty < challenge.difficulty then .error challenge.difficulty else .ok (search crypto challenge token rounds 0)

def buildRequest (rounds : Nat) : Except UInt8 (Option Bytes) :=
  (solve crypto challenge token rounds).map (fun found => found.map (assembleRequest · token))

variable {crypto challenge token}

theorem searchLeast {least start : UInt64} (verified : challenge.verify crypto token least = true) (reached : start ≤ least)
    (before : ∀ earlier, start ≤ earlier → earlier < least → challenge.verify crypto token earlier = false) (rounds : Nat) :
    search crypto challenge token rounds start = if least.toNat - start.toNat < rounds then some least else none := by
  induction rounds generalizing start with
  | zero => simp [search]
  | succ rounds ih =>
    rw [search]
    have reached' := UInt64.le_iff_toNat_le.mp reached
    by_cases here : start = least
    · subst here
      simp [verified]
    · have less : start < least := UInt64.lt_of_le_of_ne reached here
      have room := UInt64.lt_iff_toNat_lt.mp less
      have next : (start + 1).toNat = start.toNat + 1 := by
        rw [UInt64.toNat_add, UInt64.toNat_one]
        exact Nat.mod_eq_of_lt (Nat.lt_of_le_of_lt room least.toNat_lt)
      have later := @ih (start + 1) (UInt64.le_iff_toNat_le.mpr (by omega)) fun earlier after =>
        before earlier (UInt64.le_iff_toNat_le.mpr (by have := UInt64.le_iff_toNat_le.mp after; omega))
      rw [before start (UInt64.le_refl _) less, if_neg Bool.false_ne_true, later, next]
      exact if_congr (by omega) rfl rfl

theorem searchVain (hopeless : ∀ solution, challenge.verify crypto token solution = false) (rounds : Nat) (start : UInt64) :
    search crypto challenge token rounds start = none := by
  induction rounds generalizing start with
  | zero => rfl
  | succ rounds ih => rw [search, hopeless, if_neg Bool.false_ne_true, ih]

end Work

/- What the client's loop comes to: it is not begun, ends at the least solution, which the edge accepts, or goes on. -/
structure Builds (crypto : Primitives) (challenge : Challenge) (token : RoutingToken) : Prop where
  refused : maxClientSolvableDifficulty < challenge.difficulty → ∀ rounds, buildRequest crypto challenge token rounds = .error challenge.difficulty
  least : challenge.difficulty ≤ maxClientSolvableDifficulty → ∀ solution, challenge.verify crypto token solution = true →
    ∃ least ≤ solution, work crypto challenge token least < 2 ^ (256 - challenge.difficulty.toNat) ∧
      (∀ earlier < least, 2 ^ (256 - challenge.difficulty.toNat) ≤ work crypto challenge token earlier) ∧
      (∀ rounds, buildRequest crypto challenge token rounds =
        .ok (if least.toNat < rounds then some (assembleRequest least token) else none)) ∧
      checkRequest crypto challenge (assembleRequest least token) = .ok token
  vain : challenge.difficulty ≤ maxClientSolvableDifficulty → (∀ solution, challenge.verify crypto token solution = false) →
    ∀ rounds, buildRequest crypto challenge token rounds = .ok none

theorem requestBuilt (crypto : Primitives) (challenge : Challenge) (token : RoutingToken) : Builds crypto challenge token := by
  have begun (easy : challenge.difficulty ≤ maxClientSolvableDifficulty) (rounds : Nat) : buildRequest crypto challenge token rounds =
      .ok ((search crypto challenge token rounds 0).map (assembleRequest · token)) := by
    rw [buildRequest, solve, if_neg (UInt8.not_lt.mpr easy)]
    rfl
  refine ⟨fun hard rounds => ?_,fun easy solution verified => ?_,fun easy hopeless rounds => ?_⟩
  · rw [buildRequest, solve, if_pos hard]
    rfl
  · -- the least solution is that of the least number
    have found : ∃ n, challenge.verify crypto token (.ofNat n) = true := ⟨solution.toNat,by rwa [UInt64.ofNat_toNat]⟩
    have inside : Nat.find found ≤ solution.toNat := Nat.find_min' found (by rwa [UInt64.ofNat_toNat])
    have size : (UInt64.ofNat (Nat.find found)).toNat = Nat.find found := UInt64.toNat_ofNat_of_lt' (inside.trans_lt solution.toNat_lt)
    have before (earlier : UInt64) (less : earlier < UInt64.ofNat (Nat.find found)) : challenge.verify crypto token earlier = false := by
      have failed := Nat.find_min found (size ▸ UInt64.lt_iff_toNat_lt.mp less)
      rwa [UInt64.ofNat_toNat, Bool.not_eq_true] at failed
    have ok := Nat.find_spec found
    refine ⟨.ofNat (Nat.find found),UInt64.le_iff_toNat_le.mpr (size.symm ▸ inside),(verifyTarget crypto challenge token _).mp ok,?_,?_,?_⟩
    · intro earlier less
      refine Nat.not_lt.mp fun small => ?_
      have verified := (verifyTarget crypto challenge token earlier).mpr small
      rw [before earlier less] at verified
      contradiction
    · intro rounds
      rw [begun easy, searchLeast ok UInt64.zero_le (fun earlier _ => before earlier) rounds, UInt64.toNat_zero, Nat.sub_zero]
      split <;> rfl
    · exact (checkAccepts crypto challenge token _).mpr ⟨_,rfl,ok⟩
  · rw [begun easy, searchVain hopeless]
    rfl

/- The per-minute window of the clock. -/
def rendezvousWindow (now : UInt64) : UInt64 := now / 60

def rendezvousAllowed (limiter : Option (KeyedRateLimiter RoutingToken)) (token : RoutingToken) (window : UInt64) :
    Bool × Option (KeyedRateLimiter RoutingToken) :=
  match limiter with
  | none => (true,none)
  | some rl =>
    let (allowed,rl) := rl.allow token window
    (allowed,some rl)

section Fallback
variable {H : Type}

/- The same admission over the fallback, within one time limit; here a parked agent is taken if there is one. -/
def serveTcpClient (crypto : Primitives) (challenge : Challenge) : Serve H (Option (RoutingToken × Nat)) := do
  let late := "tcp-fallback: role 'C' admission timed out"
  within late (← query (Call.writeAll .chal (challenge.nonce.toList ++ [challenge.difficulty])))
  let req ← within late (← query (Call.readExact .req 40))
  match checkRequest crypto challenge req.toList with
  | .error _ => throw (.message "proof of work rejected")
  | .ok token =>
    let resolvable : Bool ← query (Call.isResolvable token)
    if !resolvable then throw (.message "unknown routing token")
    else
      let allowed : Bool ← query (Call.rendezvousAllowed token)
      if !allowed then throw (.message "rendezvous rate limit exceeded")
      else
        match (← query (Call.deliverToTcpAgentDraining token) : Option Nat) with
        | some _ => pure none
        | none =>
          match ← ExceptT.lift (openAgentStream token).run with
          | .ok () => relayed token
          | .error e => do
            let delivered ← deliverAfterTcpFallbackWait token
            if delivered then pure none
            else
              let pool ← query (Call.tcpParkedFor token)
              throw (.exhausted e pool)

end Fallback

inductive Transport where
  | quic
  | tcp
  deriving DecidableEq, Repr

section Front
variable {H : Type} [DecidableEq H] (crypto : Primitives) (challenge : Challenge) (me : H)

def serve : Transport → Program (Call H) Call.Reply Served
  | .quic => (serveClient crypto challenge).run
  | .tcp => (serveTcpClient crypto challenge).run

/- The registry, the limiter and the clients under way. -/
structure Front (H : Type) where
  edge : EdgeState H := {}
  limiter : Option (KeyedRateLimiter RoutingToken)
  clients : List (Program (Call H) Call.Reply Served) := []

def setRendezvousLimit (maxPerWindow : UInt32) : Front H := { limiter := some (.new maxPerWindow) }

/- A client connects, goes on by one call with what the world says to it, or another task uses the registry. -/
inductive Turn (H : Type) where
  | arrive (transport : Transport)
  | client (i : Nat) (world : World)
  | other (op : Op H)

/- What a client did, and when. -/
abbrev Act (H : Type) := Program.Act (Call H) Call.Reply UInt64

def Act.asks (act : Act H) (token : RoutingToken) (window : UInt64) : Bool :=
  match act with
  | ⟨_,now,.rendezvousAllowed asked,_⟩ => asked = token ∧ rendezvousWindow now = window
  | _ => false

def Act.granted (act : Act H) (token : RoutingToken) (window : UInt64) : Bool :=
  match act with
  | ⟨_,now,.rendezvousAllowed asked,allowed⟩ => decide (asked = token ∧ rendezvousWindow now = window) && (show Bool from allowed)
  | _ => false

/- The time a turn is taken at, if it reads the clock. -/
def Turn.now : Turn H → Option UInt64
  | .client _ world => some world.now
  | _ => none

def Front.perform (f : Front H) (c : Call H) (world : World) : c.Reply × Front H :=
  match c with
  | .rendezvousAllowed token =>
    let (allowed,limiter) := rendezvousAllowed f.limiter token (rendezvousWindow world.now)
    (allowed,{ f with limiter := limiter })
  | c =>
    let (reply,shared) := Edge.perform crypto me { edge := f.edge } c world
    (reply,{ f with edge := shared.edge })

def Front.step (f : Front H) : Turn H → List (Act H) × Front H
  | .arrive transport => ([],{ f with clients := f.clients ++ [serve crypto challenge transport] })
  | .client i world =>
    match f.clients[i]? with
    | some (.call c next) =>
      let (reply,f) := f.perform crypto me c world
      ([⟨i,world.now,c,reply⟩],{ f with clients := f.clients.set i (next reply) })
    | _ => ([],f)
  | .other op => ([],{ f with edge := f.edge.apply (agentKeyTokenHash crypto) op })

def run (maxPerWindow : UInt32) (turns : List (Turn H)) : Front H :=
  Machine.run (Front.step crypto challenge me) (setRendezvousLimit maxPerWindow) turns

def acts (maxPerWindow : UInt32) (turns : List (Turn H)) : List (Act H) :=
  Machine.log (Front.step crypto challenge me) (fun f turn => (f.step crypto challenge me turn).1) (setRendezvousLimit maxPerWindow) turns

end Front

section Duties
variable {H : Type} (crypto : Primitives) (challenge : Challenge)

/- The client has sent a solution for the token. -/
def Solved (before : List (Act H)) (i : Nat) (token : RoutingToken) : Prop :=
  ∃ (req : Vector UInt8 40) (solution : UInt64), Program.Asked before i (.readExact .req 40) (.ok req) ∧
    req.toList = assembleRequest solution token ∧ work crypto challenge token solution < 2 ^ (256 - challenge.difficulty.toNat)

structure Earned (before : List (Act H)) (i : Nat) (token : RoutingToken) : Prop where
  solved : Solved crypto challenge before i token
  known : Program.Asked before i (.isResolvable token) true
  granted : Program.Asked before i (.rendezvousAllowed token) true

/- What has to come before a call of a client. -/
def Due (before : List (Act H)) (i : Nat) : Call H → Prop
  | .writeAll .chal _ | .readExact .req _ => True
  | .isResolvable token => Solved crypto challenge before i token
  | .rendezvousAllowed token => Solved crypto challenge before i token ∧ Program.Asked before i (.isResolvable token) true
  | .hasTcpAgent token | .waitForTcpAgent token | .deliverToTcpAgentDraining token | .tcpParkedFor token | .routes token
  | .relay token | .noteRelay token .. => Earned crypto challenge before i token
  | .openBi agent _ => ∃ (token : RoutingToken) (agents : List H), Earned crypto challenge before i token ∧
    Program.Asked before i (.routes token) agents ∧ agent ∈ agents
  | _ => False

variable {crypto challenge} {α β Error : Type} {before after : List (Act H)} {i : Nat} {token : RoutingToken}

theorem solvedMono (more : before ⊆ after) (solved : Solved crypto challenge before i token) : Solved crypto challenge after i token := by
  obtain ⟨req,solution,asked,rest⟩ := solved
  exact ⟨req,solution,askedMono more asked,rest⟩

theorem earnedMono (more : before ⊆ after) (earned : Earned crypto challenge before i token) : Earned crypto challenge after i token :=
  ⟨solvedMono more earned.solved,askedMono more earned.known,askedMono more earned.granted⟩

theorem dueMono (more : before ⊆ after) {c : Call H} (due : Due crypto challenge before i c) : Due crypto challenge after i c := by
  cases c with
  | readExact field n | writeAll field bytes => cases field <;> trivial
  | isResolvable token => exact solvedMono more due
  | rendezvousAllowed token => exact ⟨solvedMono more due.1,askedMono more due.2⟩
  | hasTcpAgent token | waitForTcpAgent token | deliverToTcpAgentDraining token | tcpParkedFor token | routes token
  | relay token | noteRelay token => exact earnedMono more due
  | openBi agent others =>
    obtain ⟨token,agents,earned,asked,mem⟩ := due
    exact ⟨token,agents,earnedMono more earned,askedMono more asked,mem⟩
  | _ => exact due

/- While the token is earned, it stays so. -/
abbrev Stays {α : Type} (crypto : Primitives) (challenge : Challenge) (i : Nat) (token : RoutingToken) (p : Program (Call H) Call.Reply α)
    (before : List (Act H)) : Prop := Keeps (Due crypto challenge) i (fun _ l => Earned crypto challenge l i token) p before

variable {agent : H} {agents : List H}

theorem earnedNext (earned : Earned crypto challenge before i token) {act : Act H} : Earned crypto challenge (before ++ [act]) i token :=
  earnedMono (List.subset_append_left before [act]) earned

theorem staysFirst (earned : Earned crypto challenge before i token) {total : Nat} {last : Failure}
    (answered : ∀ agent ∈ agents, ∃ all : List H, Program.Asked before i (.routes token) all ∧ agent ∈ all) :
    Stays crypto challenge i token (openFirst total last agents).run before := by
  induction agents generalizing before last with
  | nil => exact earned
  | cons agent others ih =>
    obtain ⟨all,asked,mem⟩ := answered agent List.mem_cons_self
    refine keepsQuery ⟨token,all,earned,asked,mem⟩ fun now opened => ?_
    split
    · exact earnedNext earned
    · refine ih (earnedNext earned) fun agent mem => ?_
      obtain ⟨all,asked,mem⟩ := answered agent (List.mem_cons_of_mem _ mem)
      exact ⟨all,askedMono (List.subset_append_left before _) asked,mem⟩

theorem staysStream (earned : Earned crypto challenge before i token) :
    Stays crypto challenge i token (openAgentStream token).run before := by
  refine keepsQuery earned fun now agents => ?_
  split
  · exact earnedNext earned
  · exact staysFirst (earnedNext earned) fun agent mem => ⟨_,askedLast,mem⟩

theorem fulfilsRelayed (earned : Earned crypto challenge before i token) :
    Fulfils (Due crypto challenge) i (relayed token).run before := by
  refine keepsQuery earned fun now copied => keepsTry (fun _ _ => trivial) ?_
  cases copied with
  | error e =>
    intro a same
    cases same
  | ok counts =>
    intro a same
    exact keepsQuery (earnedNext earned) fun now _ => trivial

/- The agents of the registry, then a parked one that turns up in time. -/
theorem fulfilsExhausted (earned : Earned crypto challenge before i token) (e : ServeError) :
    Fulfils (Due crypto challenge) i (do
      let delivered ← deliverAfterTcpFallbackWait token
      if delivered then pure none
      else
        let pool ← query (Call.tcpParkedFor token)
        throw (.exhausted e pool) : Serve H (Option (RoutingToken × Nat))).run before := by
  have ends {l : List (Act H)} (here : Earned crypto challenge l i token) (delivered : Bool) : Fulfils (Due crypto challenge) i
      (if delivered then pure none else do
        let pool ← query (Call.tcpParkedFor token)
        throw (.exhausted e pool) : Serve H (Option (RoutingToken × Nat))).run l := by
    cases delivered with
    | true => trivial
    | false => exact keepsQuery here fun now pool => trivial
  refine keepsTry (fun _ _ => trivial) (keepsQuery earned fun now found => ?_)
  split
  · exact keepsQuery (earnedNext earned) fun now slot a same => ends (earnedNext (earnedNext earned)) a
  · exact fun a same => ends (earnedNext earned) a

theorem fulfilsRoute (earned : Earned crypto challenge before i token) : Fulfils (Due crypto challenge) i (routeClient token).run before := by
  refine keepsQuery earned fun now parked => ?_
  have first := @earnedNext _ crypto challenge before i token earned
  split
  · refine keepsQuery first fun now slot => ?_
    split
    · trivial
    · refine keepsTry (fun _ _ => trivial) (keepsMono ?_ (staysStream (earnedNext first)))
      exact fun r l here a same => fulfilsRelayed here
  · refine keepsTry (x := ExceptT.lift _) (fun _ _ => trivial) (keepsBind (keepsMono ?_ (staysStream first)))
    intro r l here a same
    split
    · exact fulfilsRelayed here
    · exact fulfilsExhausted here _

/- The tail of both admissions: the token has been read from a checked request. -/
theorem fulfilsAdmitted {req : Vector UInt8 40} (read : Program.Asked before i (.readExact .req 40) (.ok req))
    (checked : checkRequest crypto challenge req.toList = .ok token) {routed : Serve H (Option (RoutingToken × Nat))}
    (routes : ∀ l, Earned crypto challenge l i token → Fulfils (Due crypto challenge) i routed.run l) :
    Fulfils (Due crypto challenge) i (do
      let resolvable : Bool ← query (Call.isResolvable token)
      if !resolvable then throw (.message "unknown routing token")
      else
        let allowed : Bool ← query (Call.rendezvousAllowed token)
        if !allowed then throw (.message "rendezvous rate limit exceeded")
        else routed : Serve H (Option (RoutingToken × Nat))).run before := by
  obtain ⟨solution,wire,verified⟩ := (checkAccepts crypto challenge token _).mp checked
  have solved : Solved crypto challenge before i token := ⟨req,solution,read,wire,(verifyTarget crypto challenge token _).mp verified⟩
  refine keepsQuery solved fun now resolvable => ?_
  cases resolvable with
  | false => trivial
  | true =>
    have known : Program.Asked (before ++ [⟨i,now,.isResolvable token,true⟩]) i (.isResolvable token) true := askedLast
    have more := List.subset_append_left before [⟨i,now,.isResolvable token,true⟩]
    refine keepsQuery ⟨solvedMono more solved,known⟩ fun later allowed => ?_
    cases allowed with
    | false => trivial
    | true =>
      have further := List.subset_append_left (before ++ [⟨i,now,.isResolvable token,true⟩]) [⟨i,later,.rendezvousAllowed token,true⟩]
      exact routes _ ⟨solvedMono further (solvedMono more solved),askedMono further known,askedLast⟩

theorem fulfilsServe (transport : Transport) : Fulfils (Due crypto challenge) i (serve crypto challenge transport) before := by
  have reads {late : String} {f : Vector UInt8 40 → Serve H (Option (RoutingToken × Nat))} {l : List (Act H)}
      (next : ∀ req m, Program.Asked m i (.readExact .req 40) (.ok req) → Fulfils (Due crypto challenge) i (f req).run m) :
      Fulfils (Due crypto challenge) i (do f (← within late (← query (Call.readExact .req 40)))).run l := by
    refine keepsQuery trivial fun now got => ?_
    rcases got with (_ | _) | req
    · trivial
    · trivial
    · exact next req _ askedLast
  have late (reason : String) (r : Except Failure Unit) {f : Unit → Serve H (Option (RoutingToken × Nat))} {l : List (Act H)}
      (next : Fulfils (Due crypto challenge) i (f ()).run l) : Fulfils (Due crypto challenge) i (within reason r >>= f).run l := by
    rcases r with (_ | _) | _
    · trivial
    · trivial
    · exact next
  cases transport with
  | quic =>
    refine keepsTry (fun _ _ => trivial) (keepsQuery trivial fun now written => ?_)
    rcases written with e | _ <;> intro a same
    · cases same
    · refine reads fun req m read => ?_
      split
      · trivial
      · rename_i checked
        exact fulfilsAdmitted read checked fun l earned => fulfilsRoute earned
  | tcp =>
    refine keepsQuery trivial fun now written => late _ written (reads fun req m read => ?_)
    split
    · trivial
    · rename_i checked
      refine fulfilsAdmitted read checked fun l earned => keepsQuery earned fun now slot => ?_
      split
      · trivial
      · refine keepsTry (x := ExceptT.lift _) (fun _ _ => trivial) (keepsBind (keepsMono ?_ (staysStream (earnedNext earned))))
        intro r l here a same
        split
        · exact fulfilsRelayed here
        · exact fulfilsExhausted here _

end Duties

section Runs
variable {H : Type} [DecidableEq H] {crypto : Primitives} {challenge : Challenge} {me : H} {trace : List (Act H)} {f : Front H}

/- What a turn does: one call of one client, or none. -/
theorem stepCases (f : Front H) (turn : Turn H) :
    (∃ (i : Nat) (world : World) (c : Call H) (next : c.Reply → Program (Call H) Call.Reply Served),
      turn = .client i world ∧ f.clients[i]? = some (.call c next) ∧
      f.step crypto challenge me turn = ([⟨i,world.now,c,(f.perform crypto me c world).1⟩],
        { (f.perform crypto me c world).2 with clients := f.clients.set i (next (f.perform crypto me c world).1) })) ∨
    (∃ edge, f.step crypto challenge me turn = ([],{ f with edge := edge })) ∨
    ∃ transport, f.step crypto challenge me turn = ([],{ f with clients := f.clients ++ [serve crypto challenge transport] }) := by
  cases turn with
  | arrive transport => exact .inr (.inr ⟨transport,rfl⟩)
  | other op => exact .inr (.inl ⟨_,rfl⟩)
  | client i world =>
    have clients (c : Call H) : (f.perform crypto me c world).2.clients = f.clients := by
      unfold Front.perform
      split <;> rfl
    cases found : f.clients[i]? with
    | none => exact .inr (.inl ⟨f.edge,by rw [Front.step, found]⟩)
    | some p =>
      cases p with
      | done r => exact .inr (.inl ⟨f.edge,by rw [Front.step, found]⟩)
      | call c next =>
        refine .inl ⟨i,world,c,next,rfl,found,?_⟩
        rw [Front.step, found]
        dsimp only
        rw [clients]

theorem dutifulStep (dutiful : Dutiful (Due crypto challenge) trace f.clients) (turn : Turn H) :
    Dutiful (Due crypto challenge) (trace ++ (f.step crypto challenge me turn).1) (f.step crypto challenge me turn).2.clients := by
  obtain ⟨i,world,c,next,-,found,stepped⟩ | ⟨edge,stepped⟩ | ⟨transport,stepped⟩ := @stepCases _ _ crypto challenge me f turn
  · rw [stepped]
    exact @dutifulCall _ _ _ _ (Due crypto challenge) _ _ (fun _ _ _ _ later => dueMono later.more) dutiful i c next found world.now _
  · rw [stepped, List.append_nil]
    exact dutiful
  · rw [stepped, List.append_nil]
    exact dutifulArrive dutiful (fun _ _ => fulfilsServe transport)

theorem dutifulRun (crypto : Primitives) (challenge : Challenge) (me : H) (maxPerWindow : UInt32) (turns : List (Turn H)) :
    Dutiful (Due crypto challenge) (acts crypto challenge me maxPerWindow turns) (run crypto challenge me maxPerWindow turns).clients := by
  induction turns using List.reverseRecOn with
  | nil => exact dutifulStart
  | append_singleton turns turn ih =>
    rw [acts, Machine.logNext, run, Machine.runNext]
    exact dutifulStep ih turn

/- What the limiter has granted and refused so far, up to a moment. -/
structure Budgeted (maxPerWindow : UInt32) (trace : List (Act H)) (f : Front H) (now : UInt64) (rl : KeyedRateLimiter RoutingToken) : Prop where
  limiter : f.limiter = some rl
  limit : rl.maxPerWindow = maxPerWindow
  behind : KeyedRateLimiter.Behind rl (rendezvousWindow now)
  spent : ∀ token window, rendezvousWindow now ≤ window → (rl.spent token window).toNat = trace.countP (·.granted token window)
  budget : ∀ token window, trace.countP (·.granted token window) = min (trace.countP (·.asks token window)) maxPerWindow.toNat
  tracked : ∀ token, rl.counters.contains token → ∃ i reply, Program.Asked trace i (.rendezvousAllowed token) reply

theorem windowMono {now later : UInt64} (reached : now ≤ later) : rendezvousWindow now ≤ rendezvousWindow later := by
  rw [UInt64.le_iff_toNat_le] at reached ⊢
  rw [rendezvousWindow, rendezvousWindow, UInt64.toNat_div, UInt64.toNat_div]
  exact Nat.div_le_div_right reached

omit [DecidableEq H] in
theorem budgetLater {maxPerWindow : UInt32} {now later : UInt64} {rl : KeyedRateLimiter RoutingToken}
    (budgeted : Budgeted maxPerWindow trace f now rl) (reached : now ≤ later) : Budgeted maxPerWindow trace f later rl where
  limiter := budgeted.limiter
  limit := budgeted.limit
  behind := ⟨budgeted.behind.uncapped,fun k entry found => UInt64.le_trans (budgeted.behind.past k entry found) (windowMono reached)⟩
  spent token window after := budgeted.spent token window (UInt64.le_trans (windowMono reached) after)
  budget := budgeted.budget
  tracked := budgeted.tracked

/- A key a limiter without a cap tracks has asked. -/
theorem allowTracked {rl : KeyedRateLimiter RoutingToken} (uncapped : rl.maxTrackedKeys = none) {token k : RoutingToken} {window : UInt64}
    (tracked : (rl.allow token window).2.counters.contains k) : k = token ∨ rl.counters.contains k := by
  have room : (rl.sweep window).makeRoom token = rl.sweep window :=
    KeyedRateLimiter.roomUncapped (KeyedRateLimiter.sweepKeeps.2.trans uncapped) token
  have written (entry : UInt64 × UInt32) (there : ((rl.sweep window).counters.insert token entry).contains k) :
      k = token ∨ rl.counters.contains k := by
    rw [Std.ExtTreeMap.contains_eq_isSome_getElem?, OrderedMap.lookupInsert] at there
    by_cases same : k = token
    · exact .inl same
    · rw [if_neg same] at there
      rw [Std.ExtTreeMap.contains_eq_isSome_getElem?]
      rcases @KeyedRateLimiter.sweepLookup _ _ _ _ rl window k with kept | ⟨gone,-⟩
      · exact .inr (kept ▸ there)
      · rw [gone] at there
        contradiction
  rw [KeyedRateLimiter.allowSpent, room] at tracked
  split at tracked
  · exact written _ tracked
  · exact written _ tracked

section Budgets
variable {maxPerWindow : UInt32} {now : UInt64} {rl : KeyedRateLimiter RoutingToken} {i : Nat}

/- A call that is not about a budget leaves the limiter alone. -/
omit [DecidableEq H] in
theorem budgetOther (budgeted : Budgeted maxPerWindow trace f now rl) {act : Act H} (edge : EdgeState H)
    (clients : List (Program (Call H) Call.Reply Served)) (asks : ∀ token window, act.asks token window = false)
    (granted : ∀ token window, act.granted token window = false) :
    Budgeted maxPerWindow (trace ++ [act]) { f with edge := edge, clients := clients } now rl where
  limiter := budgeted.limiter
  limit := budgeted.limit
  behind := budgeted.behind
  spent token window after := by
    rw [budgeted.spent token window after, List.countP_append, List.countP_singleton, granted]
    rfl
  budget token window := by
    rw [List.countP_append, List.countP_append, List.countP_singleton, List.countP_singleton, granted, asks]
    exact budgeted.budget token window
  tracked token there := by
    obtain ⟨i,reply,asked⟩ := budgeted.tracked token there
    exact ⟨i,reply,askedMono (List.subset_append_left _ _) asked⟩

omit [DecidableEq H] in
theorem allowGranted (budgeted : Budgeted maxPerWindow trace f now rl) (token : RoutingToken) :
    (rl.allow token (rendezvousWindow now)).1 = decide (trace.countP (·.granted token (rendezvousWindow now)) < maxPerWindow.toNat) := by
  rw [← budgeted.spent token _ (UInt64.le_refl _), KeyedRateLimiter.allowSpent, budgeted.limit]
  split
  · rename_i full
    exact (decide_eq_false (Nat.not_lt.mpr (UInt32.le_iff_toNat_le.mp full))).symm
  · rename_i free
    exact (decide_eq_true (UInt32.lt_iff_toNat_lt.mp (UInt32.not_le.mp free))).symm

omit [DecidableEq H] in
theorem budgetAsked (budgeted : Budgeted maxPerWindow trace f now rl) (token : RoutingToken)
    (clients : List (Program (Call H) Call.Reply Served)) :
    Budgeted maxPerWindow (trace ++ [⟨i,now,.rendezvousAllowed token,(rl.allow token (rendezvousWindow now)).1⟩])
      { f with limiter := some (rl.allow token (rendezvousWindow now)).2, clients := clients } now
      (rl.allow token (rendezvousWindow now)).2 := by
  obtain ⟨limit,behind,spent⟩ := @KeyedRateLimiter.allowBudget _ _ _ _ _ _ _ budgeted.behind token _ (UInt64.le_refl (rendezvousWindow now))
  have asks (k : RoutingToken) (w : UInt64) (reply : Bool) :
      Act.asks (⟨i,now,.rendezvousAllowed token,reply⟩ : Act H) k w = decide ((k,w) = (token,rendezvousWindow now)) := by
    change decide (token = k ∧ rendezvousWindow now = w) = _
    rw [decide_eq_decide, Prod.mk.injEq]
    exact and_congr eq_comm eq_comm
  have grants (k : RoutingToken) (w : UInt64) (reply : Bool) :
      Act.granted (⟨i,now,.rendezvousAllowed token,reply⟩ : Act H) k w = (decide ((k,w) = (token,rendezvousWindow now)) && reply) := by
    rw [← asks k w reply]
    rfl
  have answer := allowGranted budgeted token
  refine ⟨rfl,limit.trans budgeted.limit,behind,fun k w after => ?_,fun k w => ?_,fun k there => ?_⟩
  · have before := budgeted.spent k w after
    rw [spent k w after, List.countP_append, List.countP_singleton, grants]
    by_cases here : (k,w) = (token,rendezvousWindow now) ∧ (rl.allow token (rendezvousWindow now)).1 = true
    · rw [if_pos here, if_pos (by simpa using here)]
      obtain ⟨same,room⟩ := here
      obtain ⟨rfl,rfl⟩ := Prod.mk.inj same
      rw [answer, decide_eq_true_iff] at room
      have bound := maxPerWindow.toNat_lt
      rw [UInt32.toNat_add, UInt32.toNat_one, before, Nat.mod_eq_of_lt (by omega)]
    · rw [if_neg here, if_neg (by simpa using here), before, Nat.add_zero]
  · have before := budgeted.budget k w
    rw [List.countP_append, List.countP_append, List.countP_singleton, List.countP_singleton, grants, asks, answer, before]
    by_cases same : (k,w) = (token,rendezvousWindow now)
    · obtain ⟨rfl,rfl⟩ := Prod.mk.inj same
      simp only [decide_true, Bool.true_and, if_true, decide_eq_true_eq]
      rw [before]
      split <;> omega
    · simp [same]
  · obtain rfl | before := allowTracked budgeted.behind.uncapped there
    · exact ⟨i,_,askedLast⟩
    · obtain ⟨j,reply,asked⟩ := budgeted.tracked k before
      exact ⟨j,reply,askedMono (List.subset_append_left _ _) asked⟩

theorem budgetStep (budgeted : Budgeted maxPerWindow trace f now rl) (turn : Turn H) (later : ∀ t ∈ turn.now, now ≤ t) :
    ∃ rl, Budgeted maxPerWindow (trace ++ (f.step crypto challenge me turn).1) (f.step crypto challenge me turn).2 (turn.now.getD now) rl := by
  have forward : now ≤ turn.now.getD now := by
    cases there : turn.now with
    | none => exact UInt64.le_refl _
    | some t => exact later t there
  obtain ⟨i,world,c,next,rfl,-,stepped⟩ | ⟨edge,stepped⟩ | ⟨transport,stepped⟩ := @stepCases _ _ crypto challenge me f turn
  · have reached := budgetLater budgeted (later world.now rfl)
    rw [stepped]
    cases c with
    | rendezvousAllowed token =>
      have answered : rendezvousAllowed f.limiter token (rendezvousWindow world.now) =
          ((rl.allow token (rendezvousWindow world.now)).1,some (rl.allow token (rendezvousWindow world.now)).2) := by
        rw [budgeted.limiter]
        rfl
      have asked := budgetAsked (i := i) reached token (f.clients.set i (next (rl.allow token (rendezvousWindow world.now)).1))
      have performed : f.perform crypto me (.rendezvousAllowed token) world = ((rl.allow token (rendezvousWindow world.now)).1,
          { f with limiter := some (rl.allow token (rendezvousWindow world.now)).2 }) := by
        unfold Front.perform
        dsimp only
        rw [answered]
        rfl
      rw [performed]
      exact ⟨_,asked⟩
    | _ => exact ⟨rl,budgetOther reached _ _ (fun _ _ => rfl) (fun _ _ => rfl)⟩
  · have reached := budgetLater budgeted forward
    rw [stepped, List.append_nil]
    exact ⟨rl,reached.limiter,reached.limit,reached.behind,reached.spent,reached.budget,reached.tracked⟩
  · have reached := budgetLater budgeted forward
    rw [stepped, List.append_nil]
    exact ⟨rl,reached.limiter,reached.limit,reached.behind,reached.spent,reached.budget,reached.tracked⟩

theorem budgetRun (crypto : Primitives) (challenge : Challenge) (me : H) (maxPerWindow : UInt32) {turns : List (Turn H)}
    (ordered : (turns.filterMap Turn.now).Pairwise (· ≤ ·)) :
    ∃ now rl, Budgeted maxPerWindow (acts crypto challenge me maxPerWindow turns) (run crypto challenge me maxPerWindow turns) now rl ∧
      (now = 0 ∨ now ∈ turns.filterMap Turn.now) := by
  induction turns using List.reverseRecOn with
  | nil =>
    refine ⟨0,.new maxPerWindow,⟨rfl,rfl,⟨rfl,?_⟩,?_,?_,?_⟩,.inl rfl⟩
    · intro k entry found
      simp [KeyedRateLimiter.new] at found
    · intro token window _
      simp [KeyedRateLimiter.spent, KeyedRateLimiter.new, acts, Machine.log]
    · intro token window
      simp [acts, Machine.log]
    · intro token there
      simp [KeyedRateLimiter.new] at there
  | append_singleton turns turn ih =>
    rw [List.filterMap_append] at ordered
    obtain ⟨before,-,across⟩ := List.pairwise_append.mp ordered
    obtain ⟨now,rl,budgeted,known⟩ := ih before
    have later (t : UInt64) (here : t ∈ turn.now) : now ≤ t := by
      obtain rfl | mem := known
      · exact UInt64.zero_le
      · exact across now mem t (List.mem_filterMap.mpr ⟨turn,List.mem_cons_self,here⟩)
    obtain ⟨rl',stepped⟩ := @budgetStep _ _ crypto challenge me _ _ _ _ _ budgeted turn later
    refine ⟨turn.now.getD now,rl',?_,?_⟩
    · rw [acts, Machine.logNext, run, Machine.runNext]
      exact stepped
    · rw [List.filterMap_append, List.mem_append]
      cases here : turn.now with
      | none =>
        obtain same | mem := known
        · exact .inl same
        · exact .inr (.inl mem)
      | some t => exact .inr (.inr (List.mem_filterMap.mpr ⟨turn,List.mem_cons_self,here⟩))

end Budgets

/- What the clients get out of the edge, and what they cost it. -/
structure Guarded (crypto : Primitives) (challenge : Challenge) (maxPerWindow : UInt32) (trace : List (Act H)) (f : Front H) : Prop where
  due : ∀ before act after, trace = before ++ act :: after → Due crypto challenge before act.who act.call
  budget : ∀ token window, trace.countP (·.granted token window) = min (trace.countP (·.asks token window)) maxPerWindow.toNat
  tracked : ∀ rl, f.limiter = some rl → ∀ token, rl.counters.contains token → ∃ i, Program.Asked trace i (.isResolvable token) true

/- A client is led to a tunnel only with a solution for its token, while the token is known, and within the budget of the
minute; the budget is used up by such clients alone. -/
theorem rendezvousGuarded (crypto : Primitives) (challenge : Challenge) (me : H) (maxPerWindow : UInt32) (turns : List (Turn H))
    (ordered : (turns.filterMap Turn.now).Pairwise (· ≤ ·)) :
    Guarded crypto challenge maxPerWindow (acts crypto challenge me maxPerWindow turns) (run crypto challenge me maxPerWindow turns) := by
  have dutiful := dutifulRun crypto challenge me maxPerWindow turns
  obtain ⟨now,rl,budgeted,-⟩ := budgetRun crypto challenge me maxPerWindow ordered
  refine ⟨dutiful.made,budgeted.budget,fun rl' found token there => ?_⟩
  cases found.symm.trans budgeted.limiter
  obtain ⟨i,reply,time,mem⟩ := budgeted.tracked token there
  obtain ⟨before,after,split⟩ := List.append_of_mem mem
  have asked := (dutiful.made before _ after split).2
  exact ⟨i,askedMono (split ▸ List.subset_append_left _ _) asked⟩

def plainCrypto : Primitives where
  sha256 _ := .replicate 32 0
  validKey _ := true
  verifyStrict _ _ _ := true

def plainChallenge : Challenge := ⟨.replicate 16 0,8⟩

/- An agent registers, and two clients over either transport ask for it within a minute that allows one. -/
def twoClients : List (Turn Nat) :=
  [.other (.register (.replicate 32 0) 1 5),.arrive .quic,.arrive .tcp,.client 0 {},.client 1 {},.client 1 {},.client 0 {},.client 0 {},
    .client 0 {},.client 1 {},.client 1 { now := 59 },.client 0 { now := 59 }]

theorem twoClientsGuarded :
    (acts plainCrypto plainChallenge 0 1 twoClients).length = 9 ∧
    (acts plainCrypto plainChallenge 0 1 twoClients).countP (·.granted (.replicate 32 0) 0) = 1 ∧
    Guarded plainCrypto plainChallenge 1 (acts plainCrypto plainChallenge 0 1 twoClients) (run plainCrypto plainChallenge 0 1 twoClients) :=
  ⟨by decide +kernel,by decide +kernel,rendezvousGuarded plainCrypto plainChallenge 0 1 twoClients (by decide)⟩

end Runs
end CadsTunnel.Edge.Rendezvous
