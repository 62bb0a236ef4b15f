import CadsTunnel.ChannelObjects
import CadsTunnel.OrderedMap
import CadsTunnel.Machine

/-! The soft-state cache of membership staples. It holds one staple for each pair of
channel and holder and drops it when a query finds it lapsed, yet answers as if
every staple it ever verified were still there. -/
namespace CadsTunnel.Membership
open OrderedMap ChannelObjects

/- The map key of a member, ordered by channel and then by holder. -/
abbrev Member := ChannelId × Key

inductive ChannelAdmissionPolicy where
  | open
  | requireStaple
  deriving DecidableEq, Repr

structure StapleCache where
  fresh : BTreeMap Member MembershipStaple

namespace StapleCache

def new : StapleCache := ⟨∅⟩

def refresh (crypto : Crypto) (c : StapleCache) (operatorPubkey : Key) (staple : MembershipStaple)
    (now : UnixSeconds) : Bool × StapleCache :=
  if !staple.isValid crypto operatorPubkey now then (false,c)
  else
    let key := (staple.channel,staple.holder)
    match c.fresh[key]? with
    | some existing =>
      if existing.expiresAt ≥ staple.expiresAt then (true,c) else (true,⟨c.fresh.insert key staple⟩)
    | none => (true,⟨c.fresh.insert key staple⟩)

def isMember (crypto : Crypto) (c : StapleCache) (operatorPubkey : Key) (channel : ChannelId) (holder : Key)
    (now : UnixSeconds) : Bool × StapleCache :=
  let key := (channel,holder)
  match c.fresh[key]? with
  | some s => if s.isValid crypto operatorPubkey now then (true,c) else (false,⟨c.fresh.erase key⟩)
  | none => (false,c)

def admitsUnderPolicy (crypto : Crypto) (c : StapleCache) (policy : ChannelAdmissionPolicy) (operatorPubkey : Key)
    (channel : ChannelId) (holder : Key) (now : UnixSeconds) : Bool × StapleCache :=
  match policy with
  | .open => (true,c)
  | .requireStaple => c.isMember crypto operatorPubkey channel holder now

inductive Call where
  | refresh (staple : MembershipStaple) (now : UnixSeconds)
  | isMember (channel : ChannelId) (holder : Key) (now : UnixSeconds)
  | admitsUnderPolicy (policy : ChannelAdmissionPolicy) (channel : ChannelId) (holder : Key) (now : UnixSeconds)

def Call.now : Call → UnixSeconds
  | .refresh _ now => now
  | .isMember _ _ now => now
  | .admitsUnderPolicy _ _ _ now => now

section
variable (crypto : Crypto) (operatorPubkey : Key)

def call (c : StapleCache) : Call → Bool × StapleCache
  | .refresh staple now => c.refresh crypto operatorPubkey staple now
  | .isMember channel holder now => c.isMember crypto operatorPubkey channel holder now
  | .admitsUnderPolicy policy channel holder now =>
    c.admitsUnderPolicy crypto policy operatorPubkey channel holder now

def run (calls : List Call) : StapleCache := Machine.run (call crypto operatorPubkey) new calls

/- A staple some refresh of the history has verified. -/
def Verified (calls : List Call) (staple : MembershipStaple) : Prop :=
  ∃ moment, Call.refresh staple moment ∈ calls ∧ staple.isValid crypto operatorPubkey moment

end

/- The clock does not run backwards, up to and including the moment of the query. -/
def Clocked (calls : List Call) (now : UnixSeconds) : Prop := (calls.map Call.now ++ [now]).Pairwise (· ≤ ·)

theorem clockedNext {calls : List Call} {call : Call} {now : UnixSeconds} (clocked : Clocked (calls ++ [call]) now) :
    Clocked calls call.now ∧ call.now ≤ now := by
  simp only [Clocked, List.map_append, List.map_cons, List.map_nil] at clocked
  obtain ⟨before,_,after⟩ := List.pairwise_append.mp clocked
  exact ⟨before,after call.now (by simp) now (by simp)⟩

theorem clockedMem {calls : List Call} {call : Call} {now : UnixSeconds} (clocked : Clocked calls now)
    (mem : call ∈ calls) : call.now ≤ now :=
  (List.pairwise_append.mp clocked).2.2 call.now (List.mem_map_of_mem mem) now (by simp)

variable {crypto : Crypto} {operatorPubkey : Key}

theorem validAuthentic {s : MembershipStaple} {moment now : UnixSeconds}
    (valid : s.isValid crypto operatorPubkey moment) : s.isValid crypto operatorPubkey now ↔ now < s.expiresAt := by
  simp only [MembershipStaple.isValid, Bool.and_eq_true, decide_eq_true_eq] at valid ⊢
  exact ⟨And.left,fun alive => ⟨alive,valid.2⟩⟩

theorem verifiedEarlier {calls : List Call} {call : Call} {s : MembershipStaple}
    (verified : Verified crypto operatorPubkey calls s) : Verified crypto operatorPubkey (calls ++ [call]) s := by
  obtain ⟨moment,mem,valid⟩ := verified
  exact ⟨moment,List.mem_append_left _ mem,valid⟩

theorem verifiedNext {calls : List Call} {call : Call} {s : MembershipStaple}
    (verified : Verified crypto operatorPubkey (calls ++ [call]) s) :
    Verified crypto operatorPubkey calls s ∨
      ∃ moment, call = .refresh s moment ∧ s.isValid crypto operatorPubkey moment := by
  obtain ⟨moment,mem,valid⟩ := verified
  rcases List.mem_append.mp mem with old | new
  · exact .inl ⟨moment,old,valid⟩
  · exact .inr ⟨moment,(List.mem_singleton.mp new).symm,valid⟩

theorem refreshCases (c : StapleCache) (staple : MembershipStaple) (now : UnixSeconds) :
    (¬staple.isValid crypto operatorPubkey now ∧ c.refresh crypto operatorPubkey staple now = (false,c)) ∨
    (staple.isValid crypto operatorPubkey now ∧
      ((∃ existing, c.fresh[(staple.channel,staple.holder)]? = some existing ∧
          staple.expiresAt ≤ existing.expiresAt ∧ c.refresh crypto operatorPubkey staple now = (true,c)) ∨
        ((∀ existing, c.fresh[(staple.channel,staple.holder)]? = some existing →
            existing.expiresAt ≤ staple.expiresAt) ∧
          c.refresh crypto operatorPubkey staple now =
            (true,⟨c.fresh.insert (staple.channel,staple.holder) staple⟩)))) := by
  unfold refresh
  split
  · rename_i invalid
    exact .inl ⟨by simpa using invalid,rfl⟩
  · rename_i valid
    refine .inr ⟨by simpa using valid,?_⟩
    simp only
    split
    · rename_i existing found
      split
      · rename_i dominated
        exact .inl ⟨existing,found,dominated,rfl⟩
      · rename_i longer
        refine .inr ⟨?_,rfl⟩
        intro other same
        cases Option.some.inj (found.symm.trans same)
        exact UInt64.le_of_lt (UInt64.not_le.mp longer)
    · rename_i absent
      refine .inr ⟨?_,rfl⟩
      intro other same
      rw [absent] at same
      contradiction

theorem isMemberCases (crypto : Crypto) (operatorPubkey : Key) (c : StapleCache) (channel : ChannelId) (holder : Key) (now : UnixSeconds) :
    (c.fresh[(channel,holder)]? = none ∧ c.isMember crypto operatorPubkey channel holder now = (false,c)) ∨
    ∃ s, c.fresh[(channel,holder)]? = some s ∧
      ((s.isValid crypto operatorPubkey now ∧ c.isMember crypto operatorPubkey channel holder now = (true,c)) ∨
        (¬s.isValid crypto operatorPubkey now ∧
          c.isMember crypto operatorPubkey channel holder now = (false,⟨c.fresh.erase (channel,holder)⟩))) := by
  simp only [isMember]
  split
  · rename_i s found
    refine .inr ⟨s,found,?_⟩
    split
    · rename_i valid
      exact .inl ⟨valid,rfl⟩
    · rename_i lapsed
      exact .inr ⟨lapsed,rfl⟩
  · rename_i absent
    exact .inl ⟨absent,rfl⟩

/- What the cache still knows of its history: every entry was verified for its key,
and a verified staple that lives on is matched by an entry that lasts as long. -/
structure Remembers (crypto : Crypto) (operatorPubkey : Key) (calls : List Call) (c : StapleCache) : Prop where
  sound : ∀ key s, c.fresh[key]? = some s → key = (s.channel,s.holder) ∧ Verified crypto operatorPubkey calls s
  covers : ∀ now, Clocked calls now → ∀ v, Verified crypto operatorPubkey calls v → now < v.expiresAt →
    ∃ s, c.fresh[(v.channel,v.holder)]? = some s ∧ v.expiresAt ≤ s.expiresAt

theorem remembersNew : Remembers crypto operatorPubkey [] new where
  sound key s found := by simp [new] at found
  covers _ _ v verified _ := by
    obtain ⟨_,mem,_⟩ := verified
    simp at mem

/- A call that changes nothing and verifies nothing new, or nothing longer than what is held. -/
theorem remembersSame {calls : List Call} {c : StapleCache} {call : Call}
    (remembers : Remembers crypto operatorPubkey calls c)
    (held : ∀ v moment, call = .refresh v moment → v.isValid crypto operatorPubkey moment →
      ∃ s, c.fresh[(v.channel,v.holder)]? = some s ∧ v.expiresAt ≤ s.expiresAt) :
    Remembers crypto operatorPubkey (calls ++ [call]) c where
  sound key s found := by
    obtain ⟨same,verified⟩ := remembers.sound key s found
    exact ⟨same,verifiedEarlier verified⟩
  covers now clocked v verified alive := by
    obtain ⟨before,later⟩ := clockedNext clocked
    rcases verifiedNext verified with old | ⟨moment,this,valid⟩
    · exact remembers.covers call.now before v old (UInt64.lt_of_le_of_lt later alive)
    · exact held v moment this valid

theorem remembersRefresh {calls : List Call} {c : StapleCache} (remembers : Remembers crypto operatorPubkey calls c)
    (staple : MembershipStaple) (now : UnixSeconds) :
    Remembers crypto operatorPubkey (calls ++ [.refresh staple now])
      (c.refresh crypto operatorPubkey staple now).2 := by
  rcases refreshCases c staple now with ⟨invalid,same⟩ | ⟨valid,⟨existing,found,dominated,same⟩ | ⟨longest,stored⟩⟩
  · rw [same]
    refine remembersSame remembers ?_
    intro v moment this valid
    cases this
    exact absurd valid invalid
  · rw [same]
    refine remembersSame remembers ?_
    intro v moment this _
    cases this
    exact ⟨existing,found,dominated⟩
  · rw [stored]
    refine ⟨?_,?_⟩
    · intro key s found
      rw [lookupInsert] at found
      split at found
      · rename_i here
        cases Option.some.inj found
        exact ⟨here,now,by simp,valid⟩
      · obtain ⟨same,verified⟩ := remembers.sound key s found
        exact ⟨same,verifiedEarlier verified⟩
    · intro later clocked v verified alive
      obtain ⟨before,order⟩ := clockedNext clocked
      rw [lookupInsert]
      rcases verifiedNext verified with old | ⟨moment,this,_⟩
      · obtain ⟨s,found,lasts⟩ := remembers.covers now before v old (UInt64.lt_of_le_of_lt order alive)
        split
        · rename_i here
          rw [here] at found
          exact ⟨staple,rfl,UInt64.le_trans lasts (longest s found)⟩
        · exact ⟨s,found,lasts⟩
      · cases this
        rw [if_pos rfl]
        exact ⟨staple,rfl,UInt64.le_refl _⟩

/- The call may be the query itself or one that makes it. Only a lapsed entry is evicted, and it was the longest. -/
theorem remembersIsMember {calls : List Call} {c : StapleCache} {call : Call}
    (remembers : Remembers crypto operatorPubkey calls c) (query : ∀ v moment, call ≠ .refresh v moment)
    (channel : ChannelId) (holder : Key) :
    Remembers crypto operatorPubkey (calls ++ [call]) (c.isMember crypto operatorPubkey channel holder call.now).2 := by
  have unchanged : Remembers crypto operatorPubkey (calls ++ [call]) c :=
    remembersSame remembers fun v moment this _ => absurd this (query v moment)
  rcases isMemberCases crypto operatorPubkey c channel holder call.now with ⟨_,same⟩ | ⟨s,found,⟨_,same⟩ | ⟨lapsed,evicted⟩⟩
  · rw [same]
    exact unchanged
  · rw [same]
    exact unchanged
  · rw [evicted]
    obtain ⟨_,_,_,authentic⟩ := remembers.sound _ s found
    have gone : s.expiresAt ≤ call.now := UInt64.not_lt.mp fun alive => lapsed ((validAuthentic authentic).mpr alive)
    refine ⟨?_,?_⟩
    · intro key kept lookup
      rw [lookupErase] at lookup
      split at lookup
      · contradiction
      · exact unchanged.sound key kept lookup
    · intro now clocked v verified alive
      obtain ⟨t,lookup,lasts⟩ := unchanged.covers now clocked v verified alive
      rw [lookupErase]
      split
      · rename_i here
        rw [here, found] at lookup
        cases Option.some.inj lookup
        have dead : v.expiresAt ≤ now := UInt64.le_trans (UInt64.le_trans lasts gone) (clockedNext clocked).2
        exact absurd alive (UInt64.not_lt.mpr dead)
      · exact ⟨t,lookup,lasts⟩

theorem remembersRun (crypto : Crypto) (operatorPubkey : Key) (calls : List Call) :
    Remembers crypto operatorPubkey calls (run crypto operatorPubkey calls) := by
  refine Machine.runHistory (Remembers crypto operatorPubkey) remembersNew ?_ calls
  intro calls c call remembers
  cases call with
  | refresh staple now => exact remembersRefresh remembers staple now
  | isMember channel holder now => exact remembersIsMember remembers (by simp) channel holder
  | admitsUnderPolicy policy channel holder now =>
    cases policy with
    | «open» => exact remembersSame remembers (by simp)
    | requireStaple => exact remembersIsMember remembers (by simp) channel holder

/- The query after a history, read off the staples the history verified. -/
theorem memberIff {calls : List Call} {now : UnixSeconds} (clocked : Clocked calls now) (channel : ChannelId)
    (holder : Key) :
    ((run crypto operatorPubkey calls).isMember crypto operatorPubkey channel holder now).1 = true ↔
      ∃ s, Verified crypto operatorPubkey calls s ∧ s.channel = channel ∧ s.holder = holder ∧ now < s.expiresAt := by
  have remembers := remembersRun crypto operatorPubkey calls
  constructor
  · intro member
    rcases isMemberCases crypto operatorPubkey
      (run crypto operatorPubkey calls) channel holder now with ⟨_,no⟩ | ⟨s,found,⟨valid,_⟩ | ⟨_,no⟩⟩
    · simp [no] at member
    · obtain ⟨same,verified⟩ := remembers.sound _ s found
      obtain ⟨moment,mem,authentic⟩ := verified
      cases same
      exact ⟨s,⟨moment,mem,authentic⟩,rfl,rfl,(validAuthentic authentic).mp valid⟩
    · simp [no] at member
  · intro known
    obtain ⟨v,verified,rfl,rfl,alive⟩ := known
    obtain ⟨s,found,lasts⟩ := remembers.covers now clocked v verified alive
    obtain ⟨_,_,_,authentic⟩ := remembers.sound _ s found
    have valid := (validAuthentic authentic).mpr (UInt64.lt_of_lt_of_le alive lasts)
    simp [isMember, found, valid]

/- Up to the moment of the query it does not matter when a live staple came in. -/
theorem verifiedArrived {calls : List Call} {now : UnixSeconds} {s : MembershipStaple} (clocked : Clocked calls now)
    (alive : now < s.expiresAt) :
    Verified crypto operatorPubkey calls s ↔
      (∃ moment, Call.refresh s moment ∈ calls) ∧ s.isValid crypto operatorPubkey now := by
  constructor
  · intro verified
    obtain ⟨moment,mem,valid⟩ := verified
    exact ⟨⟨moment,mem⟩,(validAuthentic valid).mpr alive⟩
  · intro arrived
    obtain ⟨⟨moment,mem⟩,valid⟩ := arrived
    have earlier : moment ≤ now := clockedMem clocked mem
    exact ⟨moment,mem,(validAuthentic valid).mpr (UInt64.lt_of_le_of_lt earlier alive)⟩

theorem answersAsIfAllKept (crypto : Crypto) (operatorPubkey : Key) (calls : List Call) (channel : ChannelId)
    (holder : Key) (now : UnixSeconds) (clocked : Clocked calls now) :
    let member := fun calls => ((run crypto operatorPubkey calls).isMember crypto operatorPubkey channel holder now).1
    (member calls = true ↔
      ∃ s, Verified crypto operatorPubkey calls s ∧ s.channel = channel ∧ s.holder = holder ∧ now < s.expiresAt) ∧
    (∀ other, Clocked other now →
      (∀ s, (∃ moment, Call.refresh s moment ∈ other) ↔ ∃ moment, Call.refresh s moment ∈ calls) →
      member other = member calls) ∧
    ∀ late moment, Clocked (calls ++ [.refresh late moment]) now → member calls = true →
      member (calls ++ [.refresh late moment]) = true := by
  intro member
  refine ⟨memberIff clocked channel holder,?_,?_⟩
  · intro other alsoClocked sameStaples
    refine Bool.eq_iff_iff.mpr ?_
    rw [memberIff alsoClocked, memberIff clocked]
    refine exists_congr ?_
    intro s
    refine and_congr_left ?_
    intro about
    rw [verifiedArrived alsoClocked about.2.2, verifiedArrived clocked about.2.2, sameStaples s]
  · intro late moment alsoClocked isMember
    obtain ⟨s,verified,about⟩ := (memberIff clocked channel holder).mp isMember
    exact (memberIff alsoClocked channel holder).mpr ⟨s,verifiedEarlier verified,about⟩

def stapleUntil (expiresAt : UnixSeconds) : MembershipStaple :=
  { channel := .replicate 32 1, holder := .replicate 32 2, stapledAt := 0, expiresAt := expiresAt,
    signature := .replicate 64 3 }

/- The short staple comes in last, behind a query, and the member stays for the rest of the hour. -/
theorem lateStapleKeepsHour :
    let crypto : Crypto := ⟨fun _ _ _ => true,fun _ => .replicate 32 0⟩
    let calls : List Call :=
      [.refresh (stapleUntil 3600) 10,.isMember (.replicate 32 1) (.replicate 32 2) 20,.refresh (stapleUntil 1800) 30]
    Clocked calls 2000 ∧
      ((run crypto (.replicate 32 9) calls).isMember crypto (.replicate 32 9) (.replicate 32 1)
        (.replicate 32 2) 2000).1 = true := by
  intro crypto calls
  have clocked : Clocked calls 2000 := by
    simp only [Clocked, calls, List.map_cons, List.map_nil, List.cons_append, List.nil_append, Call.now]
    decide
  refine ⟨clocked,(answersAsIfAllKept crypto (.replicate 32 9) calls _ _ 2000 clocked).1.mpr ?_⟩
  exact ⟨stapleUntil 3600,⟨10,by simp [calls],rfl⟩,rfl,rfl,by decide⟩

end StapleCache
end CadsTunnel.Membership
