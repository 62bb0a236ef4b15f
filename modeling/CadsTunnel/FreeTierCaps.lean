import CadsTunnel.CreditLedger

/-! The lifetime caps of an account without a plan: chat requests counted one by one, and
seconds of speech as the caller reports them. Both counters are columns of 64 bits that are
read back as 32, which the seconds can outgrow. -/
namespace CadsTunnel.FreeTierCaps
open OrderedMap Words Sql Ledger

/- Calls of the ledger that leave the account without a plan, both caps being the same in all of them. -/
def Trial (id : AccountId) (chatCap secondsCap : UInt32) : Op → Prop
  | .debitAiChat account _ cap => account = id → cap = some chatCap
  | .debitAiTranscribe account _ _ cap => account = id → cap = some secondsCap
  | .setPlan account plan => account = id → plan = none
  | .deleteAccountForSubject _ => False
  | _ => True

/- What a call adds that is accepted: a request, or the seconds it reports. -/
def chats (id : AccountId) (s : Tables) (call : Call) : List Unit :=
  match call.op with
  | .debitAiChat account _ _ => if account = id ∧ (step s call).1.isOk = true then [()] else []
  | _ => []

def seconds (id : AccountId) (s : Tables) (call : Call) : List Nat :=
  match call.op with
  | .debitAiTranscribe account _ duration _ => if account = id ∧ (step s call).1.isOk = true then [duration.toNat] else []
  | _ => []

def acceptedChats (id : AccountId) (s : Tables) (calls : List Call) : Nat := (Machine.log step (chats id) s calls).length
def acceptedSeconds (id : AccountId) (s : Tables) (calls : List Call) : Nat := (Machine.log step (seconds id) s calls).sum

/- No seconds are accepted once the accepted ones have reached the cap. -/
def SecondsCapped (id : AccountId) (cap : UInt32) (s : Tables) (calls : List Call) : Prop :=
  ∀ before call after, calls = before ++ call :: after → seconds id (Machine.run step s before) call ≠ [] →
    acceptedSeconds id s before < cap.toNat

/- None of the first statements fails. -/
def quiet : Nat → List Bool → Bool
  | 0, _ => true
  | n + 1, faults => !faults.headD false && quiet n faults.tail

/- The call meets a counter that has left 32 bits and comes back below the cap, and nothing else stands in its way. -/
def Slips (id : AccountId) (cap : UInt32) (s : Tables) (call : Call) : Prop :=
  match call.op with
  | .debitAiTranscribe account cost _ _ => account = id ∧ ∃ row n, s.accounts[id]? = some row ∧ row.freeAiSecondsUsed = some n ∧
      2 ^ 32 ≤ n ∧ n % 2 ^ 32 < cap.toNat ∧ row.blocked = false ∧ insufficient row.balance cost = false ∧ quiet 5 call.faults = true
  | _ => False

section Steps
variable {id : AccountId} {chatCap secondsCap : UInt32} {s : Tables} {row : AccountRow}

/- What a call does to the counters of the account. -/
inductive Moves (id : AccountId) (chatCap secondsCap : UInt32) (s : Tables) (call : Call) (row row' : AccountRow) : Prop where
  | kept (noChat : chats id s call = []) (noSeconds : seconds id s call = [])
      (requests : row'.freeAiRequestsUsed = row.freeAiRequestsUsed) (spoken : row'.freeAiSecondsUsed = row.freeAiSecondsUsed)
  | chat (n : Nat) (counted : row.freeAiRequestsUsed = some n) (below : UInt32.ofNat n < chatCap) (accepted : chats id s call = [()])
      (noSeconds : seconds id s call = []) (requests : row'.freeAiRequestsUsed = row.freeAiRequestsUsed.add 1)
      (spoken : row'.freeAiSecondsUsed = row.freeAiSecondsUsed)
  | transcribed (n duration : Nat) (counted : row.freeAiSecondsUsed = some n) (below : UInt32.ofNat n < secondsCap)
      (noChat : chats id s call = []) (accepted : seconds id s call = [duration])
      (requests : row'.freeAiRequestsUsed = row.freeAiRequestsUsed) (spoken : row'.freeAiSecondsUsed = row.freeAiSecondsUsed.add duration)

/- The row after a call that has nothing to do with the counters. -/
def Untouched (id : AccountId) (row : AccountRow) (m : Tables) : Prop :=
  ∃ row', m.accounts[id]? = some row' ∧ row'.plan = row.plan ∧ row'.freeAiRequestsUsed = row.freeAiRequestsUsed ∧
    row'.freeAiSecondsUsed = row.freeAiSecondsUsed

theorem untouchedInsert (found : s.accounts[id]? = some row) {account : AccountId} {next : AccountRow}
    (same : account = id → next.plan = row.plan ∧ next.freeAiRequestsUsed = row.freeAiRequestsUsed ∧ next.freeAiSecondsUsed = row.freeAiSecondsUsed) :
    ∃ row', (s.accounts.insert account next)[id]? = some row' ∧ row'.plan = row.plan ∧
      row'.freeAiRequestsUsed = row.freeAiRequestsUsed ∧ row'.freeAiSecondsUsed = row.freeAiSecondsUsed := by
  rw [lookupInsert]
  split
  case isTrue here => exact ⟨next,rfl,same here.symm⟩
  case isFalse => exact ⟨row,found,rfl,rfl,rfl⟩

theorem untouchedUpdate (found : s.accounts[id]? = some row) {account : AccountId} {change : AccountRow → AccountRow}
    (same : account = id → (change row).plan = row.plan ∧ (change row).freeAiRequestsUsed = row.freeAiRequestsUsed ∧
      (change row).freeAiSecondsUsed = row.freeAiSecondsUsed) :
    ∃ row', ((s.accounts[account]?.map (fun row => s.accounts.insert account (change row))).getD s.accounts)[id]? = some row' ∧
      row'.plan = row.plan ∧ row'.freeAiRequestsUsed = row.freeAiRequestsUsed ∧ row'.freeAiSecondsUsed = row.freeAiSecondsUsed := by
  cases here : s.accounts[account]? with
  | none => exact ⟨row,found,rfl,rfl,rfl⟩
  | some old =>
    refine untouchedInsert found ?_
    rintro rfl
    cases found.symm.trans here
    exact same rfl

/- A debit of credit writes the balance and nothing else. -/
theorem spendUntouched (found : s.accounts[id]? = some row) {account : AccountId} {amount : UInt64} {record : Work LedgerOpError Unit}
    (records : ∀ m, Ends record m (fun _ m' => m'.accounts = m.accounts)) :
    Ends (spend account amount record) s (fun _ m => Untouched id row m) := by
  have here : Untouched id row s := ⟨row,found,rfl,rfl,rfl⟩
  unfold spend
  refine endsTransaction here (endsSelect here ?_)
  split
  case h_1 => exact endsThrow here
  case h_2 old there =>
    split
    case isTrue => exact endsThrow here
    case isFalse =>
      split
      case isTrue => exact endsThrow here
      case isFalse =>
        refine endsExecute here ?_
        have next := setBalanceAt there (wrapI64 (old.balance - asI64 amount))
        rw [next]
        refine endsBind (fun _ m => Untouched id row m) (endsMono (records _) ?_) (fun _ _ kept => endsPure kept)
        rintro (_ | _) m same
        · exact here
        · obtain ⟨row',at',facts⟩ := @untouchedInsert id s row found account { old with balance := wrapI64 (old.balance - asI64 amount) } (by
            rintro rfl
            cases found.symm.trans there
            exact ⟨rfl,rfl,rfl⟩)
          exact ⟨row',by rw [same]; exact at',facts⟩

theorem effectUntouched {op : Op} {answer : Answer} {m : Tables} (effect : Effect s op answer m) (plain : op.charge = none)
    (trial : Trial id chatCap secondsCap op) (free : row.plan = none) (found : s.accounts[id]? = some row) : Untouched id row m := by
  cases effect with
  | opened absent =>
    refine untouchedInsert found ?_
    rintro rfl
    rw [absent] at found
    contradiction
  | known => exact ⟨row,found,rfl,rfl,rfl⟩
  | bound _ absent =>
    refine untouchedInsert found ?_
    rintro rfl
    rw [absent] at found
    contradiction
  | credited here =>
    refine untouchedInsert found ?_
    rintro rfl
    cases found.symm.trans here
    exact ⟨rfl,rfl,rfl⟩
  | intended => exact ⟨row,found,rfl,rfl,rfl⟩
  | confirmed _ _ here =>
    refine untouchedInsert found ?_
    rintro rfl
    cases found.symm.trans here
    exact ⟨rfl,rfl,rfl⟩
  | debited _ charge => rw [plain] at charge; contradiction
  | blocked account => exact untouchedUpdate found (fun _ => ⟨rfl,rfl,rfl⟩)
  | planned account plan => exact untouchedUpdate found (fun same => ⟨(trial same).trans free.symm,rfl,rfl⟩)
  | deleted => exact trial.elim
  | kept => exact ⟨row,found,rfl,rfl,rfl⟩

theorem stepUntouched (sound : Sound s) (found : s.accounts[id]? = some row) (free : row.plan = none) (call : Call)
    (trial : Trial id chatCap secondsCap call.op) (plain : call.op.charge = none) : Untouched id row (step s call).2 := by
  obtain ⟨goes,fails⟩ := stepSettled sound call
  cases answer : (step s call).1 with
  | ok a => exact effectUntouched (goes a answer) plain trial free found
  | error e => exact ⟨row,by rw [fails e answer]; exact found,rfl,rfl,rfl⟩

/- A debit of metered use is refused, charges another account, or adds to a counter of this one. -/
inductive Meters (id account : AccountId) (cost : UInt64) (reads : UInt32 → UInt32 → Prop) (cap : Option UInt32) (count : AccountRow → AccountRow)
    (s : Tables) (row : AccountRow) (ok : Bool) (m : Tables) : Prop where
  | refused (failed : ok = false) (same : m = s)
  | other (passed : ok = true) (elsewhere : account ≠ id) (kept : m.accounts[id]? = some row)
  | counted (passed : ok = true) (own : account = id) (requests : Nat) (used : UInt32) (stored : row.freeAiRequestsUsed = some requests)
      (read : reads (.ofNat requests) used) (below : cap.any (fun cap => cap ≤ used) = false)
      (left : m.accounts[id]? = some (count { row with balance := row.balance - asI64 cost }))

theorem meterSteps (found : s.accounts[id]? = some row) (free : row.plan = none) {op : Op} {account : AccountId} {cost : UInt64}
    {reads : UInt32 → UInt32 → Prop} {cap : Option UInt32} {count : AccountRow → AccountRow} {x : Work LedgerOpError Unit}
    (ends : Ends x s (fun
      | .ok _, m => ∃ row requests v, Metered s account cost reads cap count row requests v m
      | .error _, m => m = s)) (faults : List Bool)
    (steps : step s ⟨op,faults⟩ = settle (fun _ => .done) .ledger x s faults) :
    Meters id account cost reads cap count s row (step s ⟨op,faults⟩).1.isOk (step s ⟨op,faults⟩).2 := by
  have ran := ends faults
  obtain ⟨⟨result,m⟩,out⟩ : ∃ out, perform x s faults = out := ⟨_,rfl⟩
  rw [out] at ran
  rw [steps, settle, out]
  cases result with
  | error e => exact .refused rfl ran
  | ok _ =>
    obtain ⟨old,requests,v,metered⟩ := ran
    by_cases own : account = id
    · subst own
      cases found.symm.trans metered.found
      have below := metered.below
      rw [free, Option.isNone_none, Bool.true_and] at below
      refine .counted rfl rfl requests v metered.counted metered.read below ?_
      rw [metered.left]
      dsimp only
      rw [lookupInsert, if_pos rfl, free]
      rfl
    · refine .other rfl own ?_
      rw [metered.left]
      dsimp only
      rw [lookupInsert, if_neg (Ne.symm own)]
      exact found

theorem chatMoves (found : s.accounts[id]? = some row) (free : row.plan = none) {account : AccountId} {cost : UInt64} {cap : Option UInt32}
    (faults : List Bool) (trial : account = id → cap = some chatCap) :
    ∃ row', (step s ⟨.debitAiChat account cost cap,faults⟩).2.accounts[id]? = some row' ∧ row'.plan = none ∧
      Moves id chatCap secondsCap s ⟨.debitAiChat account cost cap,faults⟩ row row' := by
  cases meterSteps found free (@meterExact s account cost pure (fun r v => v = r) cap
    (fun row => { row with freeAiRequestsUsed := row.freeAiRequestsUsed.add 1 }) (fun _ => endsPure ⟨rfl,rfl⟩)) faults
    (rfl : step s ⟨.debitAiChat account cost cap,faults⟩ = _) with
  | refused failed same => exact ⟨row,by rw [same]; exact found,free,.kept (by simp [chats, failed]) rfl rfl rfl⟩
  | other passed elsewhere kept => exact ⟨row,kept,free,.kept (by simp [chats, elsewhere]) rfl rfl rfl⟩
  | counted passed own requests used stored read below left =>
    rw [trial own, read] at below
    exact ⟨_,left,free,.chat requests stored (UInt32.not_le.mp (by simpa using below)) (if_pos ⟨own,passed⟩) rfl rfl rfl⟩

theorem transcribeMoves (found : s.accounts[id]? = some row) (free : row.plan = none) {account : AccountId} {cost : UInt64} {duration : UInt32}
    {cap : Option UInt32} (faults : List Bool) (trial : account = id → cap = some secondsCap) :
    ∃ row', (step s ⟨.debitAiTranscribe account cost duration cap,faults⟩).2.accounts[id]? = some row' ∧ row'.plan = none ∧
      Moves id chatCap secondsCap s ⟨.debitAiTranscribe account cost duration cap,faults⟩ row row' := by
  have ends := @meterExact s account cost (fun _ => secondsUsed account)
    (fun _ v => ∃ row n, s.accounts[account]? = some row ∧ row.freeAiSecondsUsed = some n ∧ v = .ofNat n) cap
    (fun row => { row with freeAiSecondsUsed := row.freeAiSecondsUsed.add duration.toNat }) (fun _ => secondsUsedEnds account)
  cases meterSteps found free ends faults (rfl : step s ⟨.debitAiTranscribe account cost duration cap,faults⟩ = _) with
  | refused failed same => exact ⟨row,by rw [same]; exact found,free,.kept rfl (by simp [seconds, failed]) rfl rfl⟩
  | other passed elsewhere kept => exact ⟨row,kept,free,.kept rfl (by simp [seconds, elsewhere]) rfl rfl⟩
  | counted passed own requests used stored read below left =>
    obtain ⟨old,n,here,spoken,same⟩ := read
    rw [own, found] at here
    cases here
    rw [trial own, same] at below
    exact ⟨_,left,free,.transcribed n duration.toNat spoken (UInt32.not_le.mp (by simpa using below)) rfl (if_pos ⟨own,passed⟩) rfl rfl⟩

theorem stepMoves (sound : Sound s) (found : s.accounts[id]? = some row) (free : row.plan = none) (call : Call)
    (trial : Trial id chatCap secondsCap call.op) :
    ∃ row', (step s call).2.accounts[id]? = some row' ∧ row'.plan = none ∧ Moves id chatCap secondsCap s call row row' := by
  have plain : Untouched id row (step s call).2 → chats id s call = [] → seconds id s call = [] →
      ∃ row', (step s call).2.accounts[id]? = some row' ∧ row'.plan = none ∧ Moves id chatCap secondsCap s call row row' := by
    rintro ⟨row',here,plan,requests,spoken⟩ noChat noSeconds
    exact ⟨row',here,plan.trans free,.kept noChat noSeconds requests spoken⟩
  obtain ⟨op,faults⟩ := call
  cases op with
  | debitAiChat account cost cap => exact chatMoves found free faults trial
  | debitAiTranscribe account cost duration cap => exact transcribeMoves found free faults trial
  | debit account amount => exact plain (spendUntouched found (fun _ => endsPure rfl) faults) rfl rfl
  | debitAndRecordIssuance account amount key token now =>
    refine plain (spendUntouched found (fun m => ?_) faults) rfl rfl
    unfold recordIssuance
    exact endsLast (@endsInsert Tables LedgerOpError Unit Bytes IssuanceRow ⟨keyReused⟩ _ _ m _ _ _ _ _ _ (fun _ => rfl) (fun _ => endsPure rfl))
  | _ => exact plain (stepUntouched sound found free _ trial rfl) rfl rfl

/- Whether the seconds are accepted that a call reports. -/
theorem transcribeAccepted {account : AccountId} {requests spoken : Nat} (found : s.accounts[account]? = some row)
    (counted : row.freeAiRequestsUsed = some requests) (stored : row.freeAiSecondsUsed = some spoken)
    (cost : UInt64) (duration : UInt32) (cap : Option UInt32) (faults : List Bool) :
    (perform (debitAiTranscribe account cost duration cap) s faults).1.isOk = true ↔
      quiet 5 faults = true ∧ row.blocked = false ∧ (row.plan.isNone && cap.any (fun cap => cap ≤ .ofNat spoken)) = false ∧
        insufficient row.balance cost = false := by
  simp only [debitAiTranscribe, meter, transaction, perform, aiRow, secondsUsed, bind_assoc, execute, startStatement, found, readU32,
    counted, stored, Except.map, pure_bind]
  rw [quiet, quiet, quiet, quiet, quiet, quiet]
  cases begins : faults.headD false with
  | true => simp [Except.isOk, Except.toBool]
  | false =>
    cases reads : faults.tail.headD false with
    | true => simp [Except.isOk, Except.toBool]
    | false =>
      cases again : faults.tail.tail.headD false with
      | true => simp [Except.isOk, Except.toBool]
      | false =>
        cases live : row.blocked with
        | true => simp [throw, throwThe, MonadExceptOf.throw, ExceptT.mk, Except.isOk, Except.toBool, pure, StateT.pure]
        | false =>
          cases full : row.plan.isNone && cap.any (fun cap => cap ≤ .ofNat spoken) with
          | true => simp [throw, throwThe, MonadExceptOf.throw, ExceptT.mk, Except.isOk, Except.toBool, pure, StateT.pure]
          | false =>
            cases short : insufficient row.balance cost with
            | true => simp [throw, throwThe, MonadExceptOf.throw, ExceptT.mk, Except.isOk, Except.toBool, pure, StateT.pure]
            | false =>
              simp only [Bool.false_eq_true, if_false, startStatement]
              generalize faults.tail.tail.tail = rest
              cases writes : rest.headD false with
              | true => simp [Except.isOk, Except.toBool]
              | false =>
                simp only [Bool.false_eq_true, if_false]
                generalize rest.tail = last
                cases commits : last.headD false with
                | true => simp only [pure, ExceptT.pure, ExceptT.mk, StateT.pure, commits]; simp [Except.isOk, Except.toBool]
                | false => simp only [pure, ExceptT.pure, ExceptT.mk, StateT.pure, commits]; simp [Except.isOk, Except.toBool]

theorem transcribeOk {account : AccountId} {cost : UInt64} {duration : UInt32} {cap : Option UInt32} {faults : List Bool} :
    (step s ⟨.debitAiTranscribe account cost duration cap,faults⟩).1.isOk = (perform (debitAiTranscribe account cost duration cap) s faults).1.isOk := by
  have same : (step s ⟨.debitAiTranscribe account cost duration cap,faults⟩).1 =
    (((perform (debitAiTranscribe account cost duration cap) s faults).1.map (fun _ => Answer.done)).mapError .ledger) := rfl
  rw [same]
  cases (perform (debitAiTranscribe account cost duration cap) s faults).1 <;> rfl

theorem stepSound (sound : Sound s) (call : Call) : Sound (step s call).2 := by
  obtain ⟨_,same⟩ | ⟨_,answer,_,effect⟩ := callCases sound call
  · rw [same]
    exact sound
  · exact effectSound sound effect

end Steps

section Runs
variable {id : AccountId} {chatCap secondsCap : UInt32} {s : Tables} {calls : List Call}

/- An account without a plan that has used nothing so far. -/
def Fresh (id : AccountId) (s : Tables) : Prop :=
  ∃ row, s.accounts[id]? = some row ∧ row.plan = none ∧ row.freeAiRequestsUsed = some 0 ∧ row.freeAiSecondsUsed = some 0

/- The counters say what has been accepted. -/
structure Tracks (id : AccountId) (chatCap : UInt32) (s : Tables) (calls : List Call) (m : Tables) (row : AccountRow) : Prop where
  found : m.accounts[id]? = some row
  free : row.plan = none
  requests : row.freeAiRequestsUsed = some (acceptedChats id s calls)
  capped : acceptedChats id s calls ≤ chatCap.toNat
  spoken : row.freeAiSecondsUsed = some (acceptedSeconds id s calls) ∨ row.freeAiSecondsUsed = none

theorem nextChats (call : Call) :
    acceptedChats id s (calls ++ [call]) = acceptedChats id s calls + (chats id (Machine.run step s calls) call).length := by
  rw [acceptedChats, Machine.logNext, List.length_append]
  rfl

theorem nextSeconds (call : Call) :
    acceptedSeconds id s (calls ++ [call]) = acceptedSeconds id s calls + (seconds id (Machine.run step s calls) call).sum := by
  rw [acceptedSeconds, Machine.logNext, List.sum_append]
  rfl

/- A count below the cap is still read back as it is. -/
theorem countBelow {n : Nat} {cap : UInt32} (small : n ≤ cap.toNat) (below : UInt32.ofNat n < cap) : n < cap.toNat := by
  have bound := cap.toNat_lt
  rw [UInt32.lt_iff_toNat_lt, UInt32.toNat_ofNat', Nat.mod_eq_of_lt (by omega)] at below
  exact below

theorem tracksNext {row : AccountRow} (sound : Sound (Machine.run step s calls)) (tracks : Tracks id chatCap s calls (Machine.run step s calls) row)
    (call : Call) (trial : Trial id chatCap secondsCap call.op) :
    ∃ row', Tracks id chatCap s (calls ++ [call]) (step (Machine.run step s calls) call).2 row' ∧
      Moves id chatCap secondsCap (Machine.run step s calls) call row row' := by
  obtain ⟨row',found,free,moves⟩ := stepMoves sound tracks.found tracks.free call trial
  refine ⟨row',⟨found,free,?_,?_,?_⟩,moves⟩
  · rw [nextChats]
    cases moves with
    | kept noChat _ requests _ => rw [requests, tracks.requests, noChat]; rfl
    | chat n counted below accepted _ requests _ =>
      have bound := tracks.capped
      have cap := chatCap.toNat_lt
      rw [requests, tracks.requests, accepted, Counter.add, Option.bind_some, List.length_singleton, if_pos (by omega)]
    | transcribed n duration counted below noChat _ requests _ => rw [requests, tracks.requests, noChat]; rfl
  · rw [nextChats]
    cases moves with
    | kept noChat _ _ _ => rw [noChat]; exact tracks.capped
    | chat n counted below accepted _ _ _ =>
      cases tracks.requests.symm.trans counted
      rw [accepted]
      exact countBelow tracks.capped below
    | transcribed n duration counted below noChat _ _ _ => rw [noChat]; exact tracks.capped
  · rw [nextSeconds]
    cases moves with
    | kept _ noSeconds _ spoken => rw [spoken, noSeconds]; exact tracks.spoken
    | chat n counted below _ noSeconds _ spoken => rw [spoken, noSeconds]; exact tracks.spoken
    | transcribed n duration counted below _ accepted _ spoken =>
      rcases tracks.spoken with here | gone
      · rw [spoken, here, accepted, Counter.add, Option.bind_some, List.sum_singleton]
        split
        · exact .inl rfl
        · exact .inr rfl
      · exact .inr (by rw [spoken, gone]; rfl)

theorem runTracks (sound : Sound s) (fresh : Fresh id s) (trial : ∀ call ∈ calls, Trial id chatCap secondsCap call.op) :
    Sound (Machine.run step s calls) ∧ ∃ row, Tracks id chatCap s calls (Machine.run step s calls) row := by
  induction calls using List.reverseRecOn with
  | nil =>
    obtain ⟨row,found,free,requests,spoken⟩ := fresh
    exact ⟨sound,row,found,free,requests,Nat.zero_le _,.inl spoken⟩
  | append_singleton calls call ih =>
    obtain ⟨sound',row,tracks⟩ := ih (fun c mem => trial c (List.mem_append_left _ mem))
    obtain ⟨row',next,_⟩ := tracksNext sound' tracks call (trial call (by simp))
    rw [Machine.runNext]
    exact ⟨stepSound sound' call,row',next⟩

/- What an accepted transcription has met. -/
theorem acceptedBelow {row : AccountRow} (sound : Sound (Machine.run step s calls)) (tracks : Tracks id chatCap s calls (Machine.run step s calls) row)
    {call : Call} (trial : Trial id chatCap secondsCap call.op) (accepted : seconds id (Machine.run step s calls) call ≠ []) :
    row.freeAiSecondsUsed = some (acceptedSeconds id s calls) ∧ acceptedSeconds id s calls % 2 ^ 32 < secondsCap.toNat := by
  obtain ⟨row',_,moves⟩ := tracksNext sound tracks call trial
  cases moves with
  | kept _ noSeconds => exact absurd noSeconds accepted
  | chat _ _ _ _ noSeconds => exact absurd noSeconds accepted
  | transcribed n duration counted below =>
    rcases tracks.spoken with here | gone
    · cases here.symm.trans counted
      rw [UInt32.lt_iff_toNat_lt, UInt32.toNat_ofNat'] at below
      exact ⟨here,below⟩
    · rw [gone] at counted
      contradiction

theorem acceptedSlips {row : AccountRow} (sound : Sound (Machine.run step s calls)) (tracks : Tracks id chatCap s calls (Machine.run step s calls) row)
    {call : Call} (trial : Trial id chatCap secondsCap call.op) (accepted : seconds id (Machine.run step s calls) call ≠ [])
    (large : 2 ^ 32 ≤ acceptedSeconds id s calls) : Slips id secondsCap (Machine.run step s calls) call := by
  obtain ⟨stored,low⟩ := acceptedBelow sound tracks trial accepted
  obtain ⟨op,faults⟩ := call
  cases op with
  | debitAiTranscribe account cost duration cap =>
    by_cases both : account = id ∧ (step (Machine.run step s calls) ⟨.debitAiTranscribe account cost duration cap,faults⟩).1.isOk = true
    · obtain ⟨rfl,ok⟩ := both
      rw [transcribeOk] at ok
      obtain ⟨calm,live,_,enough⟩ := (transcribeAccepted tracks.found tracks.requests stored cost duration cap faults).mp ok
      exact ⟨rfl,row,_,tracks.found,stored,large,low,live,enough,calm⟩
    · exact absurd (if_neg both) accepted
  | _ => exact absurd rfl accepted

theorem slipsAccepted {row : AccountRow} (tracks : Tracks id chatCap s calls (Machine.run step s calls) row)
    {call : Call} (trial : Trial id chatCap secondsCap call.op) (slips : Slips id secondsCap (Machine.run step s calls) call) :
    seconds id (Machine.run step s calls) call ≠ [] ∧ secondsCap.toNat ≤ acceptedSeconds id s calls := by
  obtain ⟨op,faults⟩ := call
  cases op with
  | debitAiTranscribe account cost duration cap =>
    obtain ⟨rfl,old,n,found,stored,large,low,live,enough,calm⟩ := slips
    cases found.symm.trans tracks.found
    have whole : n = acceptedSeconds account s calls := by
      rcases tracks.spoken with here | gone
      · exact Option.some.inj (stored.symm.trans here)
      · rw [gone] at stored
        contradiction
    have passed := (transcribeAccepted found tracks.requests stored cost duration cap faults).mpr ⟨calm,live,by
      rw [trial rfl, tracks.free]
      simpa [UInt32.lt_iff_toNat_lt, UInt32.toNat_ofNat'] using low,enough⟩
    have bound := secondsCap.toNat_lt
    have counted : seconds account (Machine.run step s calls) ⟨.debitAiTranscribe account cost duration cap,faults⟩ = [duration.toNat] :=
      if_pos ⟨rfl,transcribeOk.trans passed⟩
    exact ⟨by rw [counted]; exact List.cons_ne_nil _ _,by omega⟩
  | _ => exact slips.elim

/- While the accepted seconds stay within 32 bits no call slips through. -/
theorem smallSums (sound : Sound s) (fresh : Fresh id s) (trial : ∀ call ∈ calls, Trial id chatCap secondsCap call.op)
    (small : ∀ before call after, calls = before ++ call :: after → acceptedSeconds id s before < 2 ^ 32) :
    ∀ before call after, calls = before ++ call :: after → ¬ Slips id secondsCap (Machine.run step s before) call := by
  rintro before ⟨op,faults⟩ after rfl slips
  obtain ⟨_,row,tracks⟩ := runTracks sound fresh (fun c mem => trial c (List.mem_append_left _ mem))
  have bound := small before ⟨op,faults⟩ after rfl
  cases op with
  | debitAiTranscribe account cost duration cap =>
    obtain ⟨rfl,old,n,found,stored,large,_⟩ := slips
    cases found.symm.trans tracks.found
    rcases tracks.spoken with here | gone
    · cases here.symm.trans stored
      omega
    · rw [gone] at stored
      contradiction
  | _ => exact slips.elim

/- The requests never exceed their cap. The seconds are capped exactly if no call meets a counter
   beyond 32 bits that is read back as less than the cap. -/
theorem freeTierCaps {history : List Call} (fresh : Fresh id (run history)) (trial : ∀ call ∈ calls, Trial id chatCap secondsCap call.op) :
    acceptedChats id (run history) calls ≤ chatCap.toNat ∧
      (SecondsCapped id secondsCap (run history) calls ↔
        ∀ before call after, calls = before ++ call :: after → ¬ Slips id secondsCap (Machine.run step (run history) before) call) := by
  have sound := runSound history
  have upTo : ∀ before call after, calls = before ++ call :: after → Sound (Machine.run step (run history) before) ∧
      (∃ row, Tracks id chatCap (run history) before (Machine.run step (run history) before) row) ∧ Trial id chatCap secondsCap call.op := by
    rintro before call after rfl
    obtain ⟨sound',row,tracks⟩ := runTracks sound fresh (fun c mem => trial c (List.mem_append_left _ mem))
    exact ⟨sound',⟨row,tracks⟩,trial call (by simp)⟩
  obtain ⟨_,row,tracks⟩ := runTracks sound fresh trial
  refine ⟨tracks.capped,?_,?_⟩
  · intro capped before call after split slips
    obtain ⟨_,⟨row,tracks⟩,trial⟩ := upTo before call after split
    obtain ⟨accepted,reached⟩ := slipsAccepted tracks trial slips
    exact absurd (capped before call after split accepted) (Nat.not_lt.mpr reached)
  · intro clean before call after split accepted
    obtain ⟨sound',⟨row,tracks⟩,trial⟩ := upTo before call after split
    have low := (acceptedBelow sound' tracks trial accepted).2
    have small : ¬ 2 ^ 32 ≤ acceptedSeconds id (run history) before :=
      fun large => clean before call after split (acceptedSlips sound' tracks trial accepted large)
    omega

end Runs

def member : AccountId := Vector.replicate 32 1
def opened : List Call := [⟨.openAccount member,[]⟩]
def spoken (durations : List UInt32) : List Call := durations.map (fun duration => ⟨.debitAiTranscribe member 0 duration (some 600),[]⟩)

theorem openedRuns :
    (run opened).accounts[member]?.map (fun row => (row.plan,row.freeAiRequestsUsed,row.freeAiSecondsUsed)) = some (none,some 0,some 0) ∧
      seconds member (Machine.run step (run opened) (spoken [599,4294966697])) ⟨.debitAiTranscribe member 0 1 (some 600),[]⟩ = [1] ∧
      acceptedSeconds member (run opened) (spoken [599,4294966697]) = 2 ^ 32 := by
  decide +kernel

theorem openedFresh : Fresh member (run opened) := by
  obtain ⟨row,found,same⟩ := Option.map_eq_some_iff.mp openedRuns.1
  simp only [Prod.mk.injEq] at same
  exact ⟨row,found,same⟩

theorem spokenTrial (durations : List UInt32) : ∀ call ∈ spoken durations, Trial member 20 600 call.op := by
  intro call mem
  obtain ⟨duration,_,rfl⟩ := List.mem_map.mp mem
  exact fun _ => rfl

theorem freeTierThreeCalls : acceptedChats member (run opened) (spoken [599,4294966697,1]) ≤ UInt32.toNat 20 ∧
    (SecondsCapped member 600 (run opened) (spoken [599,4294966697,1]) ↔
      ∀ before call after, spoken [599,4294966697,1] = before ++ call :: after →
        ¬ Slips member 600 (Machine.run step (run opened) before) call) :=
  freeTierCaps openedFresh (spokenTrial _)

/- After 599 seconds a report of 4294966697 brings the sum to 2^32, which is read back as none used. -/
theorem secondsOutgrown : ¬ ∀ (id : AccountId) (chatCap secondsCap : UInt32) (history calls : List Call), Fresh id (run history) →
    (∀ call ∈ calls, Trial id chatCap secondsCap call.op) →
    acceptedChats id (run history) calls ≤ chatCap.toNat ∧ SecondsCapped id secondsCap (run history) calls := by
  intro capped
  have both := (capped member 20 600 opened (spoken [599,4294966697,1]) openedFresh (spokenTrial _)).2
  have low := both (spoken [599,4294966697]) ⟨.debitAiTranscribe member 0 1 (some 600),[]⟩ [] rfl (by rw [openedRuns.2.1]; exact List.cons_ne_nil _ _)
  rw [openedRuns.2.2] at low
  contradiction

end CadsTunnel.FreeTierCaps
