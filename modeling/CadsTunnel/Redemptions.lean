import CadsTunnel.ChannelObjects
import CadsTunnel.Machine
import CadsTunnel.Sql

/-! The two single-use records of the redeem endpoint: invitations that were redeemed, by
the signature, and challenge nonces that were issued and not yet spent. Both are pruned by
a comparison of signed columns on every call. A nonce is spent once and in time. An
invitation is redeemed once if its expiry fits the column; a later expiry wraps to a past
one, and the next call prunes the record of the redemption. -/
namespace CadsTunnel.Redeem
open OrderedMap Words Sql
open Std (ExtTreeMap)

abbrev Nonce := Vector UInt8 32

structure Redemptions where
  consumedInvitations : BTreeMap Signature Int := ∅
  channelChallenges : BTreeMap Nonce Int := ∅

def pruneInvitations (now : UInt64) (s : Redemptions) : Unit × Redemptions :=
  ((),{ s with consumedInvitations := (deleteWhere (fun _ expiresAt => expiresAt ≤ asI64 now) s.consumedInvitations).2 })

def consumeInvitation (signature : Signature) (expiresAt now : UInt64) : Session Redemptions SqlError Bool := do
  execute (pruneInvitations now)
  if expiresAt ≤ now then return false
  let inserted ← execute (fun s =>
    let (n,rows) := insertOrIgnore signature (asI64 expiresAt) s.consumedInvitations
    (n,{ s with consumedInvitations := rows }))
  return inserted > 0

def pruneChallenges (now : UInt64) (s : Redemptions) : Unit × Redemptions :=
  ((),{ s with channelChallenges := (deleteWhere (fun _ expiresAt => expiresAt ≤ asI64 now) s.channelChallenges).2 })

/- The nonce is what the random generator gives. -/
def issueChallenge (nonce : Nonce) (now ttlSecs : UInt64) : Session Redemptions SqlError Nonce := do
  execute (pruneChallenges now)
  statement (fun s => (insertRow nonce (asI64 (saturatingAdd now ttlSecs)) s.channelChallenges).map (fun rows =>
    ((),{ s with channelChallenges := rows })))
  return nonce

def consumeChallenge (nonce : Nonce) (now : UInt64) : Session Redemptions SqlError Bool := do
  execute (pruneChallenges now)
  let deleted ← execute (fun s =>
    let (n,rows) := deleteWhere (fun k _ => k = nonce) s.channelChallenges
    (n,{ s with channelChallenges := rows }))
  return deleted > 0

inductive Op where
  | consumeInvitation (signature : Signature) (expiresAt now : UInt64)
  | issueChallenge (nonce : Nonce) (now ttlSecs : UInt64)
  | consumeChallenge (nonce : Nonce) (now : UInt64)

def Op.now : Op → UInt64
  | .consumeInvitation _ _ now | .issueChallenge _ now _ | .consumeChallenge _ now => now

/- A call, and which of its statements fail. -/
structure Call where
  op : Op
  faults : List Bool := []

/- The tables, and what the calls so far have returned: the time of the last one, the signatures of the invitation calls that
returned true and of those in which no statement failed, and the nonces that were issued and not consumed, with their expiry. -/
structure Desk where
  tables : Redemptions := {}
  clock : UInt64 := 0
  redeemed : List Signature := []
  unfailing : List Signature := []
  outstanding : BTreeMap Nonce UInt64 := ∅

def step (d : Desk) (call : Call) : Except SqlError Bool × Desk :=
  match call.op with
  | .consumeInvitation signature expiresAt now =>
    let (answer,tables) := perform (consumeInvitation signature expiresAt now) d.tables call.faults
    (answer,{ d with
      tables := tables
      clock := now
      redeemed := if answer = .ok true then signature :: d.redeemed else d.redeemed
      unfailing := if answer.isOk then signature :: d.unfailing else d.unfailing })
  | .issueChallenge nonce now ttlSecs =>
    let (answer,tables) := perform (issueChallenge nonce now ttlSecs) d.tables call.faults
    (answer.map (fun _ => true),{ d with
      tables := tables
      clock := now
      outstanding := if answer.isOk then d.outstanding.insert nonce (saturatingAdd now ttlSecs) else d.outstanding })
  | .consumeChallenge nonce now =>
    let (answer,tables) := perform (consumeChallenge nonce now) d.tables call.faults
    (answer,{ d with
      tables := tables
      clock := now
      outstanding := if answer = .ok true then d.outstanding.erase nonce else d.outstanding })

def run (calls : List Call) : Desk := Machine.run step {} calls

theorem performConsumeInvitation (signature : Signature) (expiresAt now : UInt64) (s : Redemptions) (faults : List Bool) :
    perform (consumeInvitation signature expiresAt now) s faults =
      if faults.headD false then (.error .failure,s)
      else if expiresAt ≤ now then (.ok false,(pruneInvitations now s).2)
      else if faults.tail.headD false then (.error .failure,(pruneInvitations now s).2)
      else if (pruneInvitations now s).2.consumedInvitations.contains signature then (.ok false,(pruneInvitations now s).2)
      else (.ok true,{ s with consumedInvitations :=
        (pruneInvitations now s).2.consumedInvitations.insert signature (asI64 expiresAt) }) := by
  rw [consumeInvitation, performExecute]
  split
  · rfl
  · split
    · rfl
    · rw [performExecute]
      split
      · rfl
      · simp only [insertOrIgnore]
        split <;> rfl

theorem performIssueChallenge (nonce : Nonce) (now ttlSecs : UInt64) (s : Redemptions) (faults : List Bool) :
    perform (issueChallenge nonce now ttlSecs) s faults =
      if faults.headD false then (.error .failure,s)
      else if faults.tail.headD false then (.error .failure,(pruneChallenges now s).2)
      else if (pruneChallenges now s).2.channelChallenges.contains nonce then (.error .constraint,(pruneChallenges now s).2)
      else (.ok nonce,{ s with channelChallenges :=
        (pruneChallenges now s).2.channelChallenges.insert nonce (asI64 (saturatingAdd now ttlSecs)) }) := by
  rw [issueChallenge, performExecute]
  split
  · rfl
  · rw [performStatement]
    split
    · rfl
    · by_cases taken : (pruneChallenges now s).2.channelChallenges.contains nonce
      · simp only [insertRow, if_pos taken]
        rfl
      · simp only [insertRow, if_neg taken]
        rfl

theorem performConsumeChallenge (nonce : Nonce) (now : UInt64) (s : Redemptions) (faults : List Bool) :
    perform (consumeChallenge nonce now) s faults =
      if faults.headD false then (.error .failure,s)
      else if faults.tail.headD false then (.error .failure,(pruneChallenges now s).2)
      else
        let (deleted,rows) := deleteWhere (fun k _ => k = nonce) (pruneChallenges now s).2.channelChallenges
        (.ok (deleted > 0),{ s with channelChallenges := rows }) := by
  rw [consumeChallenge, performExecute]
  split
  · rfl
  · rw [performExecute]
    rfl

theorem invitationPruned (now : UInt64) (s : Redemptions) (signature : Signature) :
    (pruneInvitations now s).2.consumedInvitations[signature]? =
      s.consumedInvitations[signature]?.filter (fun expiresAt => !decide (expiresAt ≤ asI64 now)) :=
  lookupDeleted _ s.consumedInvitations signature

theorem challengePruned (now : UInt64) (s : Redemptions) (nonce : Nonce) :
    (pruneChallenges now s).2.channelChallenges[nonce]? =
      s.channelChallenges[nonce]?.filter (fun expiresAt => !decide (expiresAt ≤ asI64 now)) :=
  lookupDeleted _ s.channelChallenges nonce

/- No call goes back in time, the clock fits a signed column, and every signature has one expiry. -/
def regular (expiry : Signature → UInt64) (d : Desk) (call : Call) : Prop :=
  d.clock ≤ call.op.now ∧ call.op.now.toNat < 2 ^ 63 ∧
  match call.op with
  | .consumeInvitation signature expiresAt _ => expiresAt = expiry signature
  | _ => True

/- What the record of an invitation says about the answers so far. -/
structure Recorded (expiry : UInt64) (signature : Signature) (d : Desk) : Prop where
  row : ∀ expiresAt, d.tables.consumedInvitations[signature]? = some expiresAt → expiresAt = asI64 expiry
  once : expiry.toNat < 2 ^ 63 → d.redeemed.count signature ≤ 1
  kept : expiry.toNat < 2 ^ 63 → signature ∈ d.redeemed →
    d.tables.consumedInvitations[signature]? = some (asI64 expiry) ∨ expiry ≤ d.clock
  fewer : d.redeemed.count signature ≤ d.unfailing.count signature
  every : ¬expiry.toNat < 2 ^ 63 → d.redeemed.count signature = d.unfailing.count signature

/- The invitation part of a step, for its own signature. -/
theorem consumeCases {d : Desk} {signature : Signature} {expiresAt now : UInt64} {faults : List Bool} {tables : Redemptions}
    {answer : Except SqlError Bool}
    (ran : perform (consumeInvitation signature expiresAt now) d.tables faults = (answer,tables)) :
    (answer.isOk = false ∧ (tables = d.tables ∨ tables = (pruneInvitations now d.tables).2)) ∨
    (answer = .ok false ∧ tables = (pruneInvitations now d.tables).2 ∧
      (expiresAt ≤ now ∨ (pruneInvitations now d.tables).2.consumedInvitations.contains signature)) ∨
    (answer = .ok true ∧ now < expiresAt ∧ (pruneInvitations now d.tables).2.consumedInvitations[signature]? = none ∧
      tables = { d.tables with consumedInvitations :=
        (pruneInvitations now d.tables).2.consumedInvitations.insert signature (asI64 expiresAt) }) := by
  rw [performConsumeInvitation] at ran
  split at ran
  · cases ran
    exact .inl ⟨rfl,.inl rfl⟩
  · split at ran
    case isTrue late =>
      cases ran
      exact .inr (.inl ⟨rfl,rfl,.inl late⟩)
    case isFalse early =>
      split at ran
      · cases ran
        exact .inl ⟨rfl,.inr rfl⟩
      · split at ran
        case isTrue taken =>
          cases ran
          exact .inr (.inl ⟨rfl,rfl,.inr taken⟩)
        case isFalse fresh =>
          cases ran
          refine .inr (.inr ⟨rfl,UInt64.not_le.mp early,?_,rfl⟩)
          rw [ExtTreeMap.contains_eq_isSome_getElem?] at fresh
          exact Option.not_isSome_iff_eq_none.mp fresh

theorem asI64Le {a b : UInt64} (smallA : a.toNat < 2 ^ 63) (smallB : b.toNat < 2 ^ 63) : asI64 a ≤ asI64 b ↔ a ≤ b := by
  rw [asI64Small smallA, asI64Small smallB, UInt64.le_iff_toNat_le]
  exact Int.ofNat_le

/- A prune drops a record only when its invitation is over, unless the expiry has wrapped. -/
theorem prunedRow {expiry now : UInt64} {s : Redemptions} {signature : Signature} (present : now.toNat < 2 ^ 63)
    (row : s.consumedInvitations[signature]? = some (asI64 expiry)) :
    (pruneInvitations now s).2.consumedInvitations[signature]? =
      if expiry.toNat < 2 ^ 63 ∧ now < expiry then some (asI64 expiry) else none := by
  rw [invitationPruned, row, Option.filter_some]
  by_cases small : expiry.toNat < 2 ^ 63
  · simp only [asI64Le small present, small, true_and, ← UInt64.not_le, Bool.not_eq_true', decide_eq_false_iff_not]
  · have wrapped : asI64 expiry ≤ asI64 now := by
      have below := asI64Large small
      rw [asI64Small present]
      omega
    rw [if_neg (by simp [wrapped]), if_neg (fun fits => small fits.1)]

theorem recordedLater {expiry now : UInt64} {signature : Signature} {d m : Desk} (recorded : Recorded expiry signature d)
    (forward : d.clock ≤ now) (present : now.toNat < 2 ^ 63) (clock : m.clock = now)
    (row : m.tables.consumedInvitations[signature]? = d.tables.consumedInvitations[signature]? ∨
      m.tables.consumedInvitations[signature]? = (pruneInvitations now d.tables).2.consumedInvitations[signature]?)
    (redeemed : m.redeemed.count signature = d.redeemed.count signature)
    (unfailing : m.unfailing.count signature = d.unfailing.count signature) : Recorded expiry signature m := by
  obtain ⟨rows,once,kept,fewer,every⟩ := recorded
  refine ⟨?_,?_,?_,?_,?_⟩
  · intro expiresAt found
    obtain same | pruned := row
    · exact rows expiresAt (same ▸ found)
    · rw [pruned, invitationPruned, Option.filter_eq_some_iff] at found
      exact rows expiresAt found.1
  · rw [redeemed]
    exact once
  · intro small member
    have before : signature ∈ d.redeemed := by
      rw [← List.count_pos_iff] at member ⊢
      rw [← redeemed]
      exact member
    rw [clock]
    obtain stored | ended := kept small before
    · obtain same | pruned := row
      · exact .inl (same.trans stored)
      · rw [pruned, prunedRow present stored]
        by_cases early : now < expiry
        · exact .inl (if_pos ⟨small,early⟩)
        · exact .inr (UInt64.not_lt.mp early)
    · exact .inr (UInt64.le_trans ended forward)
  · rw [redeemed, unfailing]
    exact fewer
  · rw [redeemed, unfailing]
    exact every

theorem recordedConsume {expiry now : UInt64} {signature : Signature} {d : Desk} {faults : List Bool}
    (recorded : Recorded expiry signature d) (forward : d.clock ≤ now) (present : now.toNat < 2 ^ 63) :
    Recorded expiry signature (step d ⟨.consumeInvitation signature expiry now,faults⟩).2 := by
  obtain ⟨⟨answer,tables⟩,ran⟩ : ∃ out, perform (consumeInvitation signature expiry now) d.tables faults = out := ⟨_,rfl⟩
  have noted := fun m clock row redeemed unfailing => recordedLater (m := m) recorded forward present clock row redeemed unfailing
  simp only [step, ran]
  obtain ⟨failed,tables⟩ | ⟨rfl,rfl,refused⟩ | ⟨rfl,early,fresh,rfl⟩ := consumeCases ran
  · have wrong : answer ≠ .ok true := by rintro rfl; exact nomatch failed
    rw [if_neg wrong, failed]
    obtain rfl | rfl := tables
    · exact noted _ rfl (.inl rfl) rfl rfl
    · exact noted _ rfl (.inr rfl) rfl rfl
  · obtain ⟨rows,once,kept,fewer,every⟩ := noted { d with tables := (pruneInvitations now d.tables).2, clock := now } rfl (.inr rfl) rfl rfl
    refine ⟨rows,once,kept,?_,?_⟩
    · exact Nat.le_trans fewer (List.count_le_count_cons ..)
    · intro large
      obtain ended | taken := refused
      · exact absurd (Nat.lt_of_le_of_lt (UInt64.le_iff_toNat_le.mp ended) present) large
      · rw [ExtTreeMap.contains_eq_isSome_getElem?, Option.isSome_iff_exists] at taken
        obtain ⟨expiresAt,taken⟩ := taken
        have stored := recorded.row expiresAt (Option.filter_eq_some_iff.mp ((invitationPruned ..).symm.trans taken)).1
        rw [stored] at taken
        have row := (Option.filter_eq_some_iff.mp ((invitationPruned ..).symm.trans taken)).1
        rw [prunedRow present row, if_neg (fun fits => large fits.1)] at taken
        exact nomatch taken
  · have unredeemed : expiry.toNat < 2 ^ 63 → signature ∉ d.redeemed := by
      intro small member
      obtain stored | ended := recorded.kept small member
      · rw [prunedRow present stored, if_pos ⟨small,early⟩] at fresh
        exact nomatch fresh
      · exact absurd early (UInt64.not_lt.mpr (UInt64.le_trans ended forward))
    refine ⟨?_,?_,?_,?_,?_⟩
    · intro expiresAt found
      simp only [lookupInsert, if_true] at found
      exact (Option.some.inj found).symm
    · intro small
      simp only [if_true, List.count_cons_self, List.count_eq_zero_of_not_mem (unredeemed small)]
      exact Nat.le_refl 1
    · intro _ _
      exact .inl (by simp only [lookupInsert, if_true])
    · simp only [if_true, Except.isOk, Except.toBool, List.count_cons_self]
      exact Nat.succ_le_succ recorded.fewer
    · intro large
      simp only [if_true, Except.isOk, Except.toBool, List.count_cons_self]
      exact congrArg (· + 1) (recorded.every large)

theorem issueInvitations {nonce : Nonce} {now ttlSecs : UInt64} {s : Redemptions} {faults : List Bool} :
    (perform (issueChallenge nonce now ttlSecs) s faults).2.consumedInvitations = s.consumedInvitations := by
  rw [performIssueChallenge]
  split_ifs <;> rfl

theorem spendInvitations {nonce : Nonce} {now : UInt64} {s : Redemptions} {faults : List Bool} :
    (perform (consumeChallenge nonce now) s faults).2.consumedInvitations = s.consumedInvitations := by
  rw [performConsumeChallenge]
  split_ifs <;> rfl

theorem recordedStep {expiry : Signature → UInt64} {signature : Signature} {d : Desk} {call : Call} (met : regular expiry d call)
    (recorded : Recorded (expiry signature) signature d) : Recorded (expiry signature) signature (step d call).2 := by
  obtain ⟨op,faults⟩ := call
  obtain ⟨forward,present,own⟩ := met
  cases op with
  | consumeInvitation other expiresAt now =>
    obtain rfl : expiresAt = expiry other := own
    by_cases same : other = signature
    · subst same
      exact recordedConsume recorded forward present
    · obtain ⟨⟨answer,tables⟩,ran⟩ : ∃ out, perform (consumeInvitation other (expiry other) now) d.tables faults = out := ⟨_,rfl⟩
      refine recordedLater recorded forward present rfl ?_ ?_ ?_
      · simp only [step, ran]
        obtain ⟨_,rfl | rfl⟩ | ⟨_,rfl,_⟩ | ⟨_,_,_,rfl⟩ := consumeCases ran
        · exact .inl rfl
        · exact .inr rfl
        · exact .inr rfl
        · simp only [lookupInsert, if_neg (Ne.symm same)]
          exact .inr rfl
      · simp only [step, ran]
        split
        · exact List.count_cons_of_ne same
        · rfl
      · simp only [step, ran]
        split
        · exact List.count_cons_of_ne same
        · rfl
  | issueChallenge nonce now ttlSecs =>
    refine recordedLater recorded forward present rfl (.inl ?_) rfl rfl
    simp only [step, issueInvitations]
  | consumeChallenge nonce now =>
    refine recordedLater recorded forward present rfl (.inl ?_) rfl rfl
    simp only [step, spendInvitations]

/- A stored nonce was issued and not consumed, with the expiry in its row. -/
def Outstanding (d : Desk) : Prop :=
  ∀ (nonce : Nonce) expiresAt, d.tables.channelChallenges[nonce]? = some expiresAt →
    ∃ expiry, d.outstanding[nonce]? = some expiry ∧ expiresAt = asI64 expiry

theorem outstandingFewer {d m : Desk} (outstanding : Outstanding d) (same : m.outstanding = d.outstanding)
    (fewer : ∀ (nonce : Nonce) expiresAt, m.tables.channelChallenges[nonce]? = some expiresAt →
      d.tables.channelChallenges[nonce]? = some expiresAt) : Outstanding m := by
  intro nonce expiresAt found
  rw [same]
  exact outstanding nonce expiresAt (fewer nonce expiresAt found)

theorem prunedFewer {now : UInt64} {s : Redemptions} {nonce : Nonce} {expiresAt : Int}
    (found : (pruneChallenges now s).2.channelChallenges[nonce]? = some expiresAt) :
    s.channelChallenges[nonce]? = some expiresAt ∧ asI64 now < expiresAt := by
  rw [challengePruned, Option.filter_eq_some_iff] at found
  simpa using found

theorem consumeChallenges {signature : Signature} {expiresAt now : UInt64} {s : Redemptions} {faults : List Bool} :
    (perform (consumeInvitation signature expiresAt now) s faults).2.channelChallenges = s.channelChallenges := by
  rw [performConsumeInvitation]
  split_ifs <;> rfl

theorem outstandingIssue {d : Desk} {nonce : Nonce} {now ttlSecs : UInt64} {faults : List Bool} (outstanding : Outstanding d) :
    Outstanding (step d ⟨.issueChallenge nonce now ttlSecs,faults⟩).2 := by
  obtain ⟨⟨answer,tables⟩,ran⟩ : ∃ out, perform (issueChallenge nonce now ttlSecs) d.tables faults = out := ⟨_,rfl⟩
  simp only [step, ran]
  rw [performIssueChallenge] at ran
  split_ifs at ran
  · cases ran
    exact outstandingFewer outstanding rfl (fun _ _ found => found)
  · cases ran
    exact outstandingFewer outstanding rfl (fun _ _ found => (prunedFewer found).1)
  · cases ran
    exact outstandingFewer outstanding rfl (fun _ _ found => (prunedFewer found).1)
  · cases ran
    intro other expiresAt found
    simp only [lookupInsert, Except.isOk, Except.toBool, if_true] at found ⊢
    by_cases same : other = nonce
    · rw [if_pos same] at found ⊢
      exact ⟨_,rfl,(Option.some.inj found).symm⟩
    · rw [if_neg same] at found ⊢
      exact outstanding other expiresAt (prunedFewer found).1

theorem outstandingSpend {d : Desk} {nonce : Nonce} {now : UInt64} {faults : List Bool} (outstanding : Outstanding d) :
    Outstanding (step d ⟨.consumeChallenge nonce now,faults⟩).2 := by
  obtain ⟨⟨answer,tables⟩,ran⟩ : ∃ out, perform (consumeChallenge nonce now) d.tables faults = out := ⟨_,rfl⟩
  simp only [step, ran]
  rw [performConsumeChallenge] at ran
  split_ifs at ran
  · cases ran
    exact outstandingFewer outstanding rfl (fun _ _ found => found)
  · cases ran
    exact outstandingFewer outstanding rfl (fun _ _ found => (prunedFewer found).1)
  · cases ran
    intro other expiresAt found
    obtain ⟨kept,apart⟩ := Option.filter_eq_some_iff.mp ((lookupDeleted _ _ other).symm.trans found)
    have different : other ≠ nonce := by simpa using apart
    obtain ⟨expiry,issued,same⟩ := outstanding other expiresAt (prunedFewer kept).1
    refine ⟨expiry,?_,same⟩
    split
    · rw [lookupErase, if_neg different, issued]
    · exact issued

theorem outstandingStep {d : Desk} (call : Call) (outstanding : Outstanding d) : Outstanding (step d call).2 := by
  obtain ⟨op,faults⟩ := call
  cases op with
  | consumeInvitation signature expiresAt now =>
    refine outstandingFewer outstanding rfl (fun nonce expiresAt found => ?_)
    simpa only [step, consumeChallenges] using found
  | issueChallenge nonce now ttlSecs => exact outstandingIssue outstanding
  | consumeChallenge nonce now => exact outstandingSpend outstanding

theorem spentInTime {d : Desk} {nonce : Nonce} {now : UInt64} {faults : List Bool} (outstanding : Outstanding d)
    (present : now.toNat < 2 ^ 63) (spent : (step d ⟨.consumeChallenge nonce now,faults⟩).1 = .ok true) :
    ∃ expiry, d.outstanding[nonce]? = some expiry ∧ now < expiry := by
  simp only [step, performConsumeChallenge] at spent
  split_ifs at spent
  have touched : 0 < (deleteWhere (fun k _ => k = nonce) (pruneChallenges now d.tables).2.channelChallenges).1 := by
    simpa using spent
  obtain ⟨other,expiresAt,found,same⟩ := touchedRow touched
  obtain rfl : other = nonce := by simpa using same
  obtain ⟨stored,later⟩ := prunedFewer found
  obtain ⟨expiry,issued,rfl⟩ := outstanding other expiresAt stored
  refine ⟨expiry,issued,?_⟩
  rw [asI64Small present] at later
  have fits : expiry.toNat < 2 ^ 63 := by
    by_contra large
    have below := asI64Large large
    omega
  rw [asI64Small fits] at later
  exact UInt64.lt_iff_toNat_lt.mpr (Int.ofNat_lt.mp later)

theorem redeemedInTime {d : Desk} {signature : Signature} {expiresAt now : UInt64} {faults : List Bool}
    (redeemed : (step d ⟨.consumeInvitation signature expiresAt now,faults⟩).1 = .ok true) : now < expiresAt := by
  obtain ⟨⟨answer,tables⟩,ran⟩ : ∃ out, perform (consumeInvitation signature expiresAt now) d.tables faults = out := ⟨_,rfl⟩
  simp only [step, ran] at redeemed
  obtain ⟨failed,_⟩ | ⟨refused,_⟩ | ⟨_,early,_⟩ := consumeCases ran
  · rw [redeemed] at failed
    exact nomatch failed
  · exact nomatch (redeemed.symm.trans refused)
  · exact early

/- A signature is redeemed at most once if and only if its expiry fits the column or no two of its calls went through. -/
theorem redemptionSingleUse {expiry : Signature → UInt64} {calls : List Call}
    (met : Machine.along step (regular expiry) {} calls) :
    (∀ signature, (run calls).redeemed.count signature ≤ 1 ↔
      (expiry signature).toNat < 2 ^ 63 ∨ (run calls).unfailing.count signature ≤ 1) ∧
    (∀ signature expiresAt now faults, (step (run calls) ⟨.consumeInvitation signature expiresAt now,faults⟩).1 = .ok true →
      now < expiresAt) ∧
    ∀ nonce now faults, now.toNat < 2 ^ 63 → (step (run calls) ⟨.consumeChallenge nonce now,faults⟩).1 = .ok true →
      ∃ expiresAt, (run calls).outstanding[nonce]? = some expiresAt ∧ now < expiresAt := by
  refine ⟨?_,fun _ _ _ _ => redeemedInTime,?_⟩
  · intro signature
    have fresh : Recorded (expiry signature) signature {} :=
      ⟨fun _ found => by simp at found,fun _ => Nat.zero_le 1,nofun,Nat.le_refl 0,fun _ => rfl⟩
    have recorded : Recorded (expiry signature) signature (run calls) :=
      Machine.runAlong (Recorded (expiry signature) signature) (fun _ _ met recorded => recordedStep met recorded) fresh met
    constructor
    · intro single
      by_cases small : (expiry signature).toNat < 2 ^ 63
      · exact .inl small
      · exact .inr (recorded.every small ▸ single)
    · rintro (small | few)
      · exact recorded.once small
      · exact Nat.le_trans recorded.fewer few
  · intro nonce now faults present
    have outstanding : Outstanding (run calls) :=
      Machine.runInvariant Outstanding (fun _ call outstanding => outstandingStep call outstanding) (fun _ _ found => by simp at found) calls
    exact spentInTime outstanding present

/- An invitation redeemed and tried again, and a nonce that is issued. -/
theorem invitationRedeemedOnce :
    let signature : Signature := .replicate 64 1
    let d := run [⟨.consumeInvitation signature 100 5,[]⟩,⟨.consumeInvitation signature 100 6,[]⟩,
      ⟨.issueChallenge (.replicate 32 2) 7 60,[]⟩]
    d.redeemed.count signature = 1 ∧ (d.redeemed.count signature ≤ 1 ↔ (100 : UInt64).toNat < 2 ^ 63 ∨ d.unfailing.count signature ≤ 1) ∧
    ∃ expiresAt, d.outstanding[(.replicate 32 2 : Nonce)]? = some expiresAt ∧ 8 < expiresAt := by
  intro signature d
  have single := redemptionSingleUse
    (show Machine.along step (regular (fun _ => 100)) {} [⟨.consumeInvitation signature 100 5,[]⟩,
      ⟨.consumeInvitation signature 100 6,[]⟩,⟨.issueChallenge (.replicate 32 2) 7 60,[]⟩] from
      ⟨⟨by decide +kernel,by decide,rfl⟩,⟨by decide +kernel,by decide,rfl⟩,⟨by decide +kernel,by decide,trivial⟩,trivial⟩)
  exact ⟨by decide +kernel,single.1 signature,single.2.2 (.replicate 32 2) 8 [] (by decide) (by decide +kernel)⟩

/- The expiry 2^63 wraps to a time before every other, and the replay finds no record. -/
theorem invitationReplayed : ¬∀ (expiry : Signature → UInt64) (calls : List Call),
    Machine.along step (regular expiry) {} calls → ∀ signature, (run calls).redeemed.count signature ≤ 1 := by
  intro once
  have replayed := once (fun _ => 9223372036854775808)
    [⟨.consumeInvitation (.replicate 64 1) 9223372036854775808 1,[]⟩,⟨.consumeInvitation (.replicate 64 1) 9223372036854775808 2,[]⟩]
    ⟨⟨by decide +kernel,by decide,rfl⟩,⟨by decide +kernel,by decide,rfl⟩,trivial⟩ (.replicate 64 1)
  exact absurd replayed (by decide +kernel)

end CadsTunnel.Redeem
