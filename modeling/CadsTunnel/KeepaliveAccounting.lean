import CadsTunnel.FallbackFraming

/-! Keepalives on both ends. The reader asks for an acknowledgement of each new greatest
counter and of no other, whatever the bytes. The tracker holds, of the last keepalives it
may hold, those that no acknowledgement since has covered. -/
namespace CadsTunnel.Fallback
open Words

/- The counters of the keepalives among the frames, with their verdicts. -/
def verdicts (frames : List Frame) : List (UInt64 × Bool) :=
  frames.filterMap fun
    | .keepalive counter shouldAck => some (counter,shouldAck)
    | _ => none

/- Each verdict asks whether the counter is above all counters seen before. -/
def Judged : List UInt64 → List (UInt64 × Bool) → Prop
  | _, [] => True
  | seen, (counter,shouldAck) :: later => shouldAck = seen.all (· < counter) ∧ Judged (counter :: seen) later

def acks (judged : List (UInt64 × Bool)) : List UInt64 := (judged.filter Prod.snd).map Prod.fst

section Verdicts

theorem judgedRise {seen : List UInt64} {judged : List (UInt64 × Bool)} (rule : Judged seen judged) :
    (acks judged).Pairwise (· < ·) ∧ ∀ a ∈ acks judged, ∀ c ∈ seen, c < a := by
  induction judged generalizing seen with
  | nil => exact ⟨.nil,by simp [acks]⟩
  | cons verdict later ih =>
    obtain ⟨counter,shouldAck⟩ := verdict
    obtain ⟨asks,rest⟩ := rule
    obtain ⟨rising,above⟩ := ih rest
    have older : ∀ a ∈ acks later, ∀ c ∈ seen, c < a := fun a mem c old => above a mem c (List.mem_cons_of_mem _ old)
    cases shouldAck with
    | false => exact ⟨rising,older⟩
    | true =>
      have new : ∀ c ∈ seen, c < counter := by simpa using asks.symm
      have opened : acks ((counter,true) :: later) = counter :: acks later := rfl
      rw [opened]
      exact ⟨List.pairwise_cons.mpr ⟨fun a mem => above a mem counter List.mem_cons_self,rising⟩,
        List.forall_mem_cons.mpr ⟨new,older⟩⟩

theorem receivedCounters (seen counters : List UInt64) :
    (verdicts (received seen (counters.map Sent.keepalive))).map Prod.fst = counters := by
  induction counters generalizing seen with
  | nil => rfl
  | cons counter counters ih => exact congrArg (counter :: ·) (ih (counter :: seen))

theorem rawU64 {raw : Bytes} (length : raw.length = 8) : raw = u64BE (.ofNat (readBE raw)) := by
  have reversed : raw.reverse.length = 8 := by rw [List.length_reverse, length]
  have back := leRead raw.reverse
  have bound := readLeLt raw.reverse
  rw [reversed] at back bound
  rw [u64BE, be, readBE, UInt64.toNat_ofNat', Nat.mod_eq_of_lt (lt_of_lt_of_eq bound (by norm_num)), back, List.reverse_reverse]

namespace FrameReader

/- A call that yields no keepalive and leaves the mark where it is. -/
def Unjudged (s : FrameReader) (answer : Except IoError (Option Frame) × FrameReader) : Prop :=
  verdicts (answered answer.1) = [] ∧ answer.2.lastAcked = s.lastAcked

theorem ackUnjudged (s : FrameReader) : s.Unjudged s.nextKeepaliveAck := by
  rw [nextKeepaliveAck]
  rcases readExactCases s 8 with ⟨raw,rest,_,read⟩ | short
  · rw [read]
    exact ⟨rfl,rfl⟩
  · rw [short]
    exact ⟨rfl,rfl⟩

theorem finUnjudged (s : FrameReader) : s.Unjudged s.nextFin := by
  rw [nextFin]
  split <;> exact ⟨rfl,rfl⟩

theorem dataUnjudged (s : FrameReader) : s.Unjudged s.nextData := by
  rw [nextData]
  split
  · exact ⟨rfl,rfl⟩
  · rcases readExactCases s 4 with ⟨header,rest,_,read⟩ | short
    · rw [read]
      dsimp only
      split
      · exact ⟨rfl,rfl⟩
      · rcases readExactCases { s with r := rest } (readBE header) with ⟨raw,left,_,body⟩ | short
        · rw [body]
          exact ⟨rfl,rfl⟩
        · rw [short]
          exact ⟨rfl,rfl⟩
    · rw [short]
      exact ⟨rfl,rfl⟩

/- What one call adds, on any bytes. -/
theorem nextJudged {s : FrameReader} {seen : List UInt64} (tracks : Tracks s.lastAcked seen) :
    (verdicts (answered s.next.1) = [] ∧ Tracks s.next.2.lastAcked seen) ∨
      ∃ counter, verdicts (answered s.next.1) = [(counter,seen.all (· < counter))] ∧ Tracks s.next.2.lastAcked (counter :: seen) := by
  have quiet {rest : Bytes} {answer : Except IoError (Option Frame) × FrameReader} (unjudged : Unjudged { s with r := rest } answer) :
      verdicts (answered answer.1) = [] ∧ Tracks answer.2.lastAcked seen := ⟨unjudged.1,by rw [unjudged.2]; exact tracks⟩
  rw [next]
  split
  · exact .inl ⟨rfl,tracks⟩
  · rename_i disc rest _
    dsimp only
    split
    · exact .inl (quiet (finUnjudged _))
    · split
      · by_cases enough : 8 ≤ rest.length
        · have bytes : rest = u64BE (.ofNat (readBE (rest.take 8))) ++ rest.drop 8 := by
            rw [← rawU64 (List.length_take_of_le enough), List.take_append_drop]
          obtain ⟨lastAcked,read,marked⟩ := @nextKeepaliveRead { s with r := rest } seen _ _ bytes tracks
          rw [read]
          exact .inr ⟨_,rfl,marked⟩
        · have short : nextKeepalive { s with r := rest } = (.error ⟨.unexpectedEof,"early eof"⟩,{ s with r := [] }) := by
            rw [nextKeepalive, readExactShort _ (not_le.mp enough)]
          rw [short]
          exact .inl ⟨rfl,tracks⟩
      · split
        · exact .inl (quiet (ackUnjudged _))
        · split
          · exact .inl (quiet (dataUnjudged _))
          · exact .inl ⟨rfl,tracks⟩

theorem yieldedJudged (n : Nat) {s : FrameReader} {seen : List UInt64} (tracks : Tracks s.lastAcked seen) :
    Judged seen (verdicts (s.yielded n)) := by
  induction n generalizing s seen with
  | zero => trivial
  | succ n ih =>
    rw [yieldedNext, verdicts, List.filterMap_append]
    rcases nextJudged tracks with ⟨quiet,tracks⟩ | ⟨counter,judged,tracks⟩
    · rw [verdicts] at quiet
      rw [quiet]
      exact ih tracks
    · rw [verdicts] at judged
      rw [judged]
      exact ⟨rfl,ih tracks⟩

end FrameReader
end Verdicts

/- What happens at a tracker: keepalives go out, acknowledgements come in. -/
inductive Traffic where
  | sent (counter : UInt64) (nowMs : Nat)
  | ack (counter : UInt64)
  deriving DecidableEq, Repr

def Traffic.sending : Traffic → List (UInt64 × Nat)
  | .sent counter nowMs => [(counter,nowMs)]
  | .ack _ => []

def Traffic.acking : Traffic → List UInt64
  | .sent _ _ => []
  | .ack counter => [counter]

/- Every keepalive with whether an acknowledgement since has covered it. -/
def outcome : List Traffic → List ((UInt64 × Nat) × Bool)
  | [] => []
  | .sent counter nowMs :: later => ((counter,nowMs),(later.flatMap Traffic.acking).all (· < counter)) :: outcome later
  | .ack _ :: later => outcome later

namespace KeepaliveTracker

def handle (s : KeepaliveTracker) : Traffic → KeepaliveTracker
  | .sent counter nowMs => s.sent counter nowMs
  | .ack counter => s.ack counter

def history (traffic : List Traffic) : KeepaliveTracker := traffic.foldl handle new

end KeepaliveTracker

section Outcomes
variable {traffic : List Traffic}

theorem outcomeSent (counter : UInt64) (nowMs : Nat) :
    outcome (traffic ++ [.sent counter nowMs]) = outcome traffic ++ [((counter,nowMs),true)] := by
  induction traffic with
  | nil => rfl
  | cons t traffic ih =>
    cases t with
    | sent c n => simp [outcome, ih, Traffic.acking]
    | ack c => simp [outcome, ih]

theorem outcomeAck (counter : UInt64) :
    outcome (traffic ++ [.ack counter]) = (outcome traffic).map fun e => (e.1,e.2 && decide (counter < e.1.1)) := by
  induction traffic with
  | nil => rfl
  | cons t traffic ih =>
    cases t with
    | sent c n => simp [outcome, ih, Traffic.acking]
    | ack c => simp [outcome, ih]

theorem outcomeEntries : (outcome traffic).map Prod.fst = traffic.flatMap Traffic.sending := by
  induction traffic with
  | nil => rfl
  | cons t traffic ih =>
    cases t with
    | sent c n => simp [outcome, ih, Traffic.sending]
    | ack c => simp [outcome, ih, Traffic.sending]

/- Keepalives go out with rising counters. -/
def Rising (traffic : List Traffic) : Prop := (traffic.flatMap Traffic.sending).Pairwise fun x y => x.1 < y.1

theorem risingInit {t : Traffic} (rising : Rising (traffic ++ [t])) : Rising traffic := by
  rw [Rising, List.flatMap_append] at rising
  exact (List.pairwise_append.mp rising).1

/- What covers a keepalive covers those before it. -/
theorem outcomeSuffix (rising : Rising traffic) : (outcome traffic).Pairwise fun x y => x.2 = true → y.2 = true := by
  induction traffic using List.reverseRecOn with
  | nil => exact .nil
  | append_singleton traffic t ih =>
    have before := ih (risingInit rising)
    cases t with
    | sent counter nowMs =>
      rw [outcomeSent]
      exact List.pairwise_append.mpr ⟨before,List.pairwise_singleton _ _,fun x _ y last _ => by rw [List.mem_singleton.mp last]⟩
    | ack counter =>
      have ordered : (outcome traffic).Pairwise fun x y => x.1.1 < y.1.1 := by
        have entries := risingInit rising
        rwa [Rising, ← outcomeEntries, List.pairwise_map] at entries
      rw [outcomeAck, List.pairwise_map]
      refine (before.and ordered).imp fun both open' => ?_
      rw [Bool.and_eq_true, decide_eq_true_eq] at open' ⊢
      exact ⟨both.1 open'.1,UInt64.lt_trans open'.2 both.2⟩

/- Acknowledgements name keepalives that have gone out. -/
def Answering (traffic : List Traffic) : Prop :=
  ∀ before counter after, traffic = before ++ .ack counter :: after → ∃ e ∈ before.flatMap Traffic.sending, counter ≤ e.1

theorem answeringInit {t : Traffic} (answering : Answering (traffic ++ [t])) : Answering traffic :=
  fun before counter after split => answering before counter (after ++ [t]) (by rw [split]; simp)

/- Then what covers a keepalive came in after it went out. -/
theorem outcomeAnswered (rising : Rising traffic) (answering : Answering traffic) :
    outcome traffic = (traffic.flatMap Traffic.sending).map fun e => (e,(traffic.flatMap Traffic.acking).all (· < e.1)) := by
  induction traffic using List.reverseRecOn with
  | nil => rfl
  | append_singleton traffic t ih =>
    have before := ih (risingInit rising) (answeringInit answering)
    cases t with
    | sent counter nowMs =>
      have above : ∀ a ∈ traffic.flatMap Traffic.acking, a < counter := by
        intro a mem
        obtain ⟨t,inside,here⟩ := List.mem_flatMap.mp mem
        cases t with
        | sent c n => exact absurd here List.not_mem_nil
        | ack c =>
          cases List.mem_singleton.mp here
          obtain ⟨early,late,split⟩ := List.append_of_mem inside
          obtain ⟨e,gone,below⟩ := answering early a (late ++ [.sent counter nowMs]) (by rw [split]; simp)
          rw [Rising, split] at rising
          simp only [List.flatMap_append, List.append_assoc] at rising
          have less := (List.pairwise_append.mp rising).2.2 e gone (counter,nowMs) (by simp [Traffic.sending])
          exact UInt64.lt_of_le_of_lt below less
      have all : (traffic.flatMap Traffic.acking).all (· < counter) = true :=
        List.all_eq_true.mpr fun a mem => decide_eq_true (above a mem)
      have sends : (traffic ++ [Traffic.sent counter nowMs]).flatMap Traffic.sending = traffic.flatMap Traffic.sending ++ [(counter,nowMs)] := by
        simp [Traffic.sending]
      have same : (traffic ++ [Traffic.sent counter nowMs]).flatMap Traffic.acking = traffic.flatMap Traffic.acking := by
        simp [Traffic.acking]
      rw [outcomeSent, before, sends, same, List.map_append, List.map_singleton, all]
    | ack counter =>
      rw [outcomeAck, before, List.map_map, List.flatMap_append, List.flatMap_append]
      simp [Traffic.sending, Traffic.acking, List.all_append]

end Outcomes

namespace KeepaliveTracker
variable {traffic : List Traffic}

def uncovered (outcomes : List ((UInt64 × Nat) × Bool)) : List (UInt64 × Nat) := (outcomes.filter Prod.snd).map Prod.fst

theorem historyNext (t : Traffic) : history (traffic ++ [t]) = (history traffic).handle t := by
  rw [history, List.foldl_append]
  rfl

theorem uncoveredLength (outcomes : List ((UInt64 × Nat) × Bool)) : (uncovered outcomes).length ≤ outcomes.length := by
  rw [uncovered, List.length_map]
  exact List.length_filter_le _ _

/- Dropping the oldest keepalive of a full tracker leaves the last ones but the oldest. -/
theorem uncoveredShift {outcomes : List ((UInt64 × Nat) × Bool)} (suffix : outcomes.Pairwise fun x y => x.2 = true → y.2 = true) (n : Nat) :
    (if (uncovered (outcomes.rtake (n + 1))).length ≥ n + 1 then (uncovered (outcomes.rtake (n + 1))).tail
      else uncovered (outcomes.rtake (n + 1))) = uncovered (outcomes.rtake n) := by
  by_cases few : outcomes.length ≤ n
  · have all : outcomes.rtake (n + 1) = outcomes.rtake n := by
      rw [List.rtake, List.rtake, Nat.sub_eq_zero_of_le few, Nat.sub_eq_zero_of_le (by omega)]
    have bound := uncoveredLength (outcomes.rtake n)
    rw [all, if_neg]
    have size : (outcomes.rtake n).length ≤ outcomes.length := by
      rw [List.rtake, List.length_drop]
      exact Nat.sub_le _ _
    omega
  · have inside : outcomes.length - (n + 1) < outcomes.length := by omega
    have next : outcomes.rtake (n + 1) = outcomes[outcomes.length - (n + 1)] :: outcomes.rtake n := by
      rw [List.rtake, List.rtake, List.drop_eq_getElem_cons inside]
      congr 2
      omega
    have size : (outcomes.rtake n).length = n := by
      rw [List.rtake, List.length_drop]
      omega
    have kept : (outcomes.rtake (n + 1)).Pairwise fun x y => x.2 = true → y.2 = true := suffix.sublist (List.drop_sublist _ _)
    rw [next] at kept ⊢
    cases oldest : outcomes[outcomes.length - (n + 1)] with
    | mk entry waits =>
      rw [oldest] at kept
      cases waits with
      | true =>
        have all : (outcomes.rtake n).filter Prod.snd = outcomes.rtake n :=
          List.filter_eq_self.mpr fun e mem => (List.pairwise_cons.mp kept).1 e mem rfl
        simp [uncovered, all, size]
      | false =>
        have bound := uncoveredLength (outcomes.rtake n)
        have same : uncovered ((entry,false) :: outcomes.rtake n) = uncovered (outcomes.rtake n) := rfl
        rw [same, if_neg]
        omega

/- Of the last keepalives that fit, the tracker holds those that are not covered. -/
theorem historyHolds (rising : Rising traffic) :
    (history traffic).outstanding = uncovered ((outcome traffic).rtake outstandingCap) := by
  induction traffic using List.reverseRecOn with
  | nil => rfl
  | append_singleton traffic t ih =>
    have before := ih (risingInit rising)
    rw [historyNext]
    cases t with
    | sent counter nowMs =>
      have appended : uncovered ((outcome traffic).rtake 63 ++ [((counter,nowMs),true)]) =
          uncovered ((outcome traffic).rtake 63) ++ [(counter,nowMs)] := by simp [uncovered]
      rw [outcomeSent, outstandingCap, List.rtake_concat_succ, appended, ← uncoveredShift (outcomeSuffix (risingInit rising)), handle,
        sent, before]
      rfl
    | ack counter =>
      have mapped (f : (UInt64 × Nat) × Bool → (UInt64 × Nat) × Bool) (outcomes : List ((UInt64 × Nat) × Bool)) :
          (outcomes.map f).rtake outstandingCap = (outcomes.rtake outstandingCap).map f := by
        rw [List.rtake, List.rtake, List.map_drop, List.length_map]
      rw [outcomeAck, handle, ack, before, mapped]
      simp only [uncovered, List.filter_map, List.filter_filter, List.map_map]
      refine congrArg (List.map Prod.fst) (List.filter_congr fun e _ => ?_)
      simp [Bool.and_comm]

theorem oldestUncovered (rising : Rising traffic) :
    (history traffic).outstanding.head? = (((outcome traffic).rtake outstandingCap).find? Prod.snd).map Prod.fst := by
  rw [historyHolds rising, uncovered, List.head?_map, List.head?_filter]

end KeepaliveTracker

/- The reader asks for acknowledgements of new greatest counters only, on any bytes. The oldest
keepalive that the tracker waits for is the oldest of the last 64 that no acknowledgement
since has covered; where acknowledgements name only what has gone out, none at all. -/
theorem keepaliveAccounted :
    (∀ (raw : Bytes) (n : Nat), Judged [] (verdicts ((FrameReader.new raw).yielded n)) ∧
      (acks (verdicts ((FrameReader.new raw).yielded n))).Pairwise (· < ·)) ∧
    (∀ counters : List UInt64, (verdicts ((FrameReader.new ((counters.map Sent.keepalive).flatMap Sent.encode)).yielded
      counters.length)).map Prod.fst = counters) ∧
    (∀ traffic : List Traffic, Rising traffic → (KeepaliveTracker.history traffic).outstanding.head? =
      (((outcome traffic).rtake KeepaliveTracker.outstandingCap).find? Prod.snd).map Prod.fst) ∧
    (∀ traffic : List Traffic, Rising traffic → Answering traffic →
      outcome traffic = (traffic.flatMap Traffic.sending).map fun e => (e,(traffic.flatMap Traffic.acking).all (· < e.1))) := by
  have unmarked : Tracks none [] := fun counter => by simp
  refine ⟨fun raw n => ?_,fun counters => ?_,fun traffic rising => KeepaliveTracker.oldestUncovered rising,
    fun traffic rising answering => outcomeAnswered rising answering⟩
  · have judged := @FrameReader.yieldedJudged n (FrameReader.new raw) [] unmarked
    exact ⟨judged,(judgedRise judged).1⟩
  · have follows : Follows false (counters.map Sent.keepalive) := by
      induction counters with
      | nil => trivial
      | cons c counters ih => exact ih
    have between : (FrameReader.new ((counters.map Sent.keepalive).flatMap Sent.encode)).Between [] (counters.map Sent.keepalive ++ []) :=
      ⟨(List.append_nil (counters.map Sent.keepalive)).symm ▸ follows,unmarked⟩
    obtain ⟨_,_,_,_,all⟩ := FrameReader.resultsWhole (List.append_nil _).symm between
    have read := all 0
    rw [List.length_map, Nat.add_zero, FrameReader.results, List.append_nil] at read
    have yields : (received [] (counters.map Sent.keepalive)).flatMap (fun f => FrameReader.answered (.ok (some f))) =
        received [] (counters.map Sent.keepalive) := List.flatMap_singleton' _
    rw [FrameReader.yielded, read, List.flatMap_map, yields]
    exact receivedCounters [] counters

/- An acknowledgement ahead of its keepalive does not cover it. -/
theorem earlyAckIgnored : ¬ ∀ traffic : List Traffic, Rising traffic → (KeepaliveTracker.history traffic).outstanding.head? =
    ((traffic.flatMap Traffic.sending).rtake KeepaliveTracker.outstandingCap).find?
      fun e => (traffic.flatMap Traffic.acking).all (· < e.1) := by
  intro covered
  have waiting := covered [.ack 5,.sent 1 0] (by simp [Rising, Traffic.sending])
  contradiction

end CadsTunnel.Fallback
