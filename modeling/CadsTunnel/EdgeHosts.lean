import CadsTunnel.EdgeRegistrations
import CadsTunnel.Hostnames

/-! The hostname routes of the edge: a forward map from names to tokens and a reverse
index from tokens to their names, written by a bind and by the teardown of a token only.
The two stay exact inverses. -/
namespace CadsTunnel.Edge
open OrderedMap Hostnames
open Std (ExtTreeMap ExtTreeSet)

inductive HostBindRefusal where
  | malformedHostname
  | revoked
  | boundToDifferentToken
  deriving DecidableEq, Repr

structure HostRoutes where
  hosts : HashMap String RoutingToken := ∅
  hostsByToken : HashMap RoutingToken (HashSet String) := ∅
  gelbHosts : HashSet String := ∅
  hostAuth : Option (HashMap String RoutingToken) := none

namespace HostRoutes

def owned (r : HostRoutes) (token : RoutingToken) : HashSet String := r.hostsByToken[token]?.getD ∅

/- The part of a bind under the write lock of the routes; the key is normalized. -/
def bind (r : HostRoutes) (key : String) (token : RoutingToken) : Except HostBindRefusal HostRoutes :=
  match r.hosts[key]? with
  | some existing =>
    if existing ≠ token then .error .boundToDifferentToken
    else .ok { r with
      hostsByToken := r.hostsByToken.insert token ((r.owned token).insert key)
      hosts := r.hosts.insert key token }
  | none =>
    .ok { r with
      hostsByToken := r.hostsByToken.insert token ((r.owned token).insert key)
      hosts := r.hosts.insert key token }

def clearHostsFor (r : HostRoutes) (token : RoutingToken) : HostRoutes :=
  match r.hostsByToken[token]? with
  | none => r
  | some owned => { r with
      hostsByToken := r.hostsByToken.erase token
      hosts := owned.toList.foldl (fun hosts host => hosts.erase host) r.hosts
      gelbHosts := owned.toList.foldl (fun gelb host => gelb.erase host) r.gelbHosts }

def routeHost (r : HostRoutes) (host : String) : Option RoutingToken := do
  let key ← normalizeHostname host
  r.hosts[key]?

def setCertTier (r : HostRoutes) (host : String) (gelb : Bool) : HostRoutes :=
  match normalizeHostname host with
  | none => r
  | some key => { r with gelbHosts := if gelb then r.gelbHosts.insert key else r.gelbHosts.erase key }

def requireHostAuth (r : HostRoutes) : HostRoutes := { r with hostAuth := some (r.hostAuth.getD ∅) }

def authorizeHost (r : HostRoutes) (host : String) (token : RoutingToken) : HostRoutes :=
  match normalizeHostname host with
  | none => r
  | some key => { r with hostAuth := some ((r.hostAuth.getD ∅).insert key token) }

def unauthorizeHost (r : HostRoutes) (host : String) : HostRoutes :=
  match normalizeHostname host with
  | none => r
  | some key => { r with hostAuth := r.hostAuth.map (fun grants => grants.erase key) }

def clearHostAuthFor (r : HostRoutes) (token : RoutingToken) : HostRoutes :=
  { r with hostAuth := r.hostAuth.map (fun grants => grants.filter (fun _ t => t ≠ token)) }

def hostBindAllowed (r : HostRoutes) (host : String) (token : RoutingToken) : Bool :=
  match normalizeHostname host with
  | none => false
  | some key =>
    match r.hostAuth with
    | none => true
    | some grants => grants[key]? == some token

theorem bindCases {r next : HostRoutes} {key : String} {token : RoutingToken} (h : r.bind key token = .ok next) :
    (∀ existing : RoutingToken, r.hosts[key]? = some existing → existing = token) ∧
    next = { r with
      hostsByToken := r.hostsByToken.insert token ((r.owned token).insert key)
      hosts := r.hosts.insert key token } := by
  unfold bind at h
  split at h
  case h_1 existing found =>
    split at h <;> try contradiction
    rename_i same
    cases Except.ok.inj h
    refine ⟨fun other lookup => ?_,rfl⟩
    rw [← Option.some.inj (found.symm.trans lookup)]
    simpa using same
  case h_2 absent =>
    cases Except.ok.inj h
    refine ⟨fun other lookup => ?_,rfl⟩
    rw [absent] at lookup
    contradiction

theorem eraseAllLookup (hosts : HashMap String RoutingToken) (names : List String) (host : String) :
    (names.foldl (fun hosts name => hosts.erase name) hosts)[host]? = if host ∈ names then none else hosts[host]? := by
  induction names generalizing hosts with
  | nil => simp
  | cons name rest ih =>
    rw [List.foldl_cons, ih, lookupErase]
    by_cases same : host = name <;> simp [same]

/- A name leaves the routes when its token is cleared. -/
theorem clearedLookup (r : HostRoutes) (token : RoutingToken) (host : String) :
    (r.clearHostsFor token).hosts[host]? = if host ∈ r.owned token then none else r.hosts[host]? := by
  unfold clearHostsFor owned
  split
  case h_1 absent => simp [absent]
  case h_2 owned found => simp [eraseAllLookup, found]

theorem clearedOwned (r : HostRoutes) (token other : RoutingToken) :
    (r.clearHostsFor token).owned other = if other = token then ∅ else r.owned other := by
  unfold clearHostsFor owned
  split
  case h_1 absent =>
    split
    · simp_all
    · rfl
  case h_2 found =>
    rw [lookupErase]
    split <;> rfl

/- A host routes to a token if and only if it is in the token's set, and every key is its own canonical form. -/
structure Indexed (r : HostRoutes) : Prop where
  inverse : ∀ (host : String) (token : RoutingToken), r.hosts[host]? = some token ↔ host ∈ r.owned token
  canonical : ∀ (host : String) (token : RoutingToken), r.hosts[host]? = some token → normalizeHostname host = some host

theorem indexedNew : Indexed {} where
  inverse host token := by simp [owned]
  canonical host token h := by simp at h

theorem indexedBind {r next : HostRoutes} (indexed : r.Indexed) {host key : String} {token : RoutingToken}
    (normal : normalizeHostname host = some key) (h : r.bind key token = .ok next) : next.Indexed := by
  obtain ⟨free,rfl⟩ := bindCases h
  refine ⟨?_,?_⟩
  · intro name other
    simp only [owned, lookupInsert]
    by_cases same : other = token
    · subst same
      rw [if_pos rfl, Option.getD_some, ExtTreeSet.mem_insert, Std.compare_eq_iff_eq]
      split
      case isTrue named => simp [named]
      case isFalse different =>
        rw [indexed.inverse]
        simp [Ne.symm different, owned]
    · rw [if_neg same]
      split
      case isTrue named =>
        subst named
        have other' := indexed.inverse name other
        simp only [owned] at other'
        rw [← other']
        constructor
        · intro wrong
          exact absurd (Option.some.inj wrong).symm same
        · intro bound
          exact absurd (free other bound) same
      case isFalse => exact indexed.inverse name other
  · intro name other lookup
    simp only [lookupInsert] at lookup
    split at lookup
    case isTrue named =>
      subst named
      exact normalizedStays normal
    case isFalse => exact indexed.canonical name other lookup

theorem indexedClear {r : HostRoutes} (indexed : r.Indexed) (token : RoutingToken) : (r.clearHostsFor token).Indexed := by
  refine ⟨?_,?_⟩
  · intro host other
    rw [clearedLookup, clearedOwned]
    by_cases same : other = token
    · subst same
      rw [if_pos rfl]
      by_cases mine : host ∈ r.owned other
      · simp [mine]
      · simp [mine, indexed.inverse]
    · rw [if_neg same]
      by_cases mine : host ∈ r.owned token
      · have bound := (indexed.inverse host token).mpr mine
        rw [if_pos mine, ← indexed.inverse, bound]
        simp [Ne.symm same]
      · rw [if_neg mine]
        exact indexed.inverse host other
  · intro host other lookup
    rw [clearedLookup] at lookup
    split at lookup <;> try contradiction
    exact indexed.canonical host other lookup

end HostRoutes
end CadsTunnel.Edge
