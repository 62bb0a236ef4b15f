import CadsTunnel.AccessWindow
import CadsTunnel.UncoveredGaps
import CadsTunnel.Words

/-! The usage of a tunnel over the last 30 days, from the sessions that the edge remembers: how
many sessions, how many bytes, and the longest outage. An outage is a stretch of the window
that lies behind the oldest known start and that no session has an instant of. -/
namespace CadsTunnel.TunnelUptime
open AccessWindow UncoveredGaps

structure EdgeSessionRow where
  connectedAt : Int
  disconnectedAt : Option Int
  bytesIn : UInt64
  bytesOut : UInt64
  deriving DecidableEq, Repr

/- The percentage is handed through as the bits it came in. -/
structure EdgeTunnelHistory where
  uptimeD30 : UInt64
  sessions : List EdgeSessionRow
  deriving DecidableEq, Repr

structure UsageSummary where
  sessions30d : Nat := 0
  bytesIn30d : UInt64 := 0
  bytesOut30d : UInt64 := 0
  uptimeD30 : UInt64
  longestOutageSecs30d : Nat := 0
  deriving DecidableEq, Repr

def window30dSecs : Int := 30 * 86400

def saturatingSub (a b : Int) : Int := saturatingAdd a (-b)

def gapSecs (start stop windowStart now : Int) : Nat := (saturatingSub (min stop now) (max start windowStart)).toNat

def EdgeSessionRow.stop (s : EdgeSessionRow) (now : Int) : Int := s.disconnectedAt.getD now

def UsageSummary.outage (u : UsageSummary) (gap : Nat) : UsageSummary := { u with longestOutageSecs30d := max u.longestOutageSecs30d gap }

def UsageSummary.count (u : UsageSummary) (s : EdgeSessionRow) (windowStart now : Int) : UsageSummary :=
  if windowStart ≤ s.stop now then
    { u with
      sessions30d := u.sessions30d + 1
      bytesIn30d := Words.saturatingAdd u.bytesIn30d s.bytesIn
      bytesOut30d := Words.saturatingAdd u.bytesOut30d s.bytesOut }
  else u

/- One round of the loop, on the latest end so far and the summary. -/
def observe (windowStart now : Int) (state : Option Int × UsageSummary) (s : EdgeSessionRow) : Option Int × UsageSummary :=
  let counted := state.2.count s windowStart now
  match state.1 with
  | some prevEnd => (some (max prevEnd (s.stop now)),counted.outage (gapSecs prevEnd s.connectedAt windowStart now))
  | none => (some (s.stop now),counted)

def usageFromHistory (h : EdgeTunnelHistory) (now : Int) : UsageSummary :=
  let windowStart := saturatingSub now window30dSecs
  let sessions := h.sessions.insertionSort (fun a b => a.connectedAt ≤ b.connectedAt)
  let (coveredUntil,summary) := sessions.foldl (observe windowStart now) (none,{ uptimeD30 := h.uptimeD30 })
  match coveredUntil with
  | some prevEnd => summary.outage (gapSecs prevEnd now windowStart now)
  | none => summary

section Sweeps
variable {windowStart now : Int}

def span (now : Int) (s : EdgeSessionRow) : Span Int := ⟨s.connectedAt,s.stop now⟩

/- The longest part of a gap that is in the window. -/
def longestGap (windowStart now : Int) (found : List (Span Int)) (least : Nat) : Nat :=
  found.foldl (fun longest gap => max longest (gapSecs gap.start gap.stop windowStart now)) least

/- The loop and what follows it take the gaps one after the other. -/
theorem sweepGaps (sessions : List EdgeSessionRow) (covered : Int) (u : UsageSummary) :
    ∃ last u', sessions.foldl (observe windowStart now) (some covered,u) = (some last,u') ∧
      max u'.longestOutageSecs30d (gapSecs last now windowStart now) =
        longestGap windowStart now (gaps now covered (sessions.map (span now))) u.longestOutageSecs30d := by
  induction sessions generalizing covered u with
  | nil => exact ⟨covered,u,rfl,rfl⟩
  | cons s rest ih =>
    obtain ⟨last,u',ran,longest⟩ := ih (max covered (s.stop now)) ((u.count s windowStart now).outage (gapSecs covered s.connectedAt windowStart now))
    refine ⟨last,u',ran,longest.trans ?_⟩
    have counted : (u.count s windowStart now).longestOutageSecs30d = u.longestOutageSecs30d := by
      unfold UsageSummary.count
      split <;> rfl
    rw [UsageSummary.outage, counted]
    rfl

theorem longestGapIs (found : List (Span Int)) (least : Nat) :
    least ≤ longestGap windowStart now found least ∧ (∀ gap ∈ found, gapSecs gap.start gap.stop windowStart now ≤ longestGap windowStart now found least) ∧
      (longestGap windowStart now found least = least ∨
        ∃ gap ∈ found, gapSecs gap.start gap.stop windowStart now = longestGap windowStart now found least) := by
  induction found generalizing least with
  | nil => exact ⟨le_rfl,by simp,.inl rfl⟩
  | cons gap rest ih =>
    obtain ⟨low,each,attained⟩ := ih (max least (gapSecs gap.start gap.stop windowStart now))
    have same : longestGap windowStart now (gap :: rest) least = longestGap windowStart now rest (max least (gapSecs gap.start gap.stop windowStart now)) := rfl
    rw [same]
    refine ⟨(le_max_left _ _).trans low,?_,?_⟩
    · exact List.forall_mem_cons.mpr ⟨(le_max_right _ _).trans low,each⟩
    · rcases attained with start | ⟨g,mem,reached⟩
      · rcases max_choice least (gapSecs gap.start gap.stop windowStart now) with old | new
        · exact .inl (start.trans old)
        · exact .inr ⟨gap,List.mem_cons_self,(start.trans new).symm⟩
      · exact .inr ⟨g,List.mem_cons_of_mem _ mem,reached⟩

theorem gapSecsExact (window : now - window30dSecs ≤ windowStart) (start stop : Int) :
    gapSecs start stop windowStart now = (min stop now - max start windowStart).toNat := by
  unfold window30dSecs at window
  rw [gapSecs, saturatingSub, saturatingAdd]
  omega

end Sweeps

/- What the edge sends: times of 64 bits, and every session ends between its start and now. -/
structure InOrder (h : EdgeTunnelHistory) (now : Int) : Prop where
  clock : i64 now
  starts : ∀ s ∈ h.sessions, i64 s.connectedAt
  proper : ∀ s ∈ h.sessions, s.connectedAt ≤ s.stop now
  past : ∀ s ∈ h.sessions, s.stop now ≤ now

/- The lengths of the stretches of the window, behind the oldest start, in which no session is open. -/
def Outages (h : EdgeTunnelHistory) (now : Int) : Set ℝ :=
  {length | ∃ a b : ℝ, a ≤ b ∧ (now : ℝ) - 30 * 86400 ≤ a ∧ b ≤ now ∧ (∃ s ∈ h.sessions, (s.connectedAt : ℝ) ≤ a) ∧
    (∀ s ∈ h.sessions, ∀ t, a < t → t < b → ¬ ((s.connectedAt : ℝ) ≤ t ∧ t ≤ s.stop now)) ∧ length = b - a}

section Outages
variable {h : EdgeTunnelHistory} {now : Int}

theorem windowStartIs (inRange : i64 now) : saturatingSub now window30dSecs = max (-2 ^ 63) (now - window30dSecs) := by
  obtain ⟨low,high⟩ := inRange
  rw [saturatingSub, saturatingAdd, window30dSecs]
  omega

def byStart (sessions : List EdgeSessionRow) : List EdgeSessionRow := sessions.insertionSort (fun a b => a.connectedAt ≤ b.connectedAt)

theorem byStartPerm (sessions : List EdgeSessionRow) : (byStart sessions).Perm sessions := List.perm_insertionSort _ _

theorem byStartSorted (sessions : List EdgeSessionRow) : (byStart sessions).Pairwise (fun a b => a.connectedAt ≤ b.connectedAt) := by
  have total : Std.Total (fun a b : EdgeSessionRow => a.connectedAt ≤ b.connectedAt) := ⟨fun a b => le_total a.connectedAt b.connectedAt⟩
  have trans : IsTrans EdgeSessionRow (fun a b => a.connectedAt ≤ b.connectedAt) := ⟨fun _ _ _ first second => first.trans second⟩
  exact List.pairwise_insertionSort _ _

/- The result of the sweep, by the first session and the rest. -/
theorem longestSwept {first : EdgeSessionRow} {rest : List EdgeSessionRow} (sorted : byStart h.sessions = first :: rest) :
    (usageFromHistory h now).longestOutageSecs30d =
      longestGap (saturatingSub now window30dSecs) now (gaps now (first.stop now) (rest.map (span now))) 0 := by
  have counted : (({ uptimeD30 := h.uptimeD30 } : UsageSummary).count first (saturatingSub now window30dSecs) now).longestOutageSecs30d = 0 := by
    unfold UsageSummary.count
    split <;> rfl
  obtain ⟨last,u,ran,longest⟩ := @sweepGaps (saturatingSub now window30dSecs) now rest (first.stop now)
    (({ uptimeD30 := h.uptimeD30 } : UsageSummary).count first (saturatingSub now window30dSecs) now)
  rw [counted] at longest
  have started : (byStart h.sessions).foldl (observe (saturatingSub now window30dSecs) now) (none,{ uptimeD30 := h.uptimeD30 }) = (some last,u) := by
    rw [sorted]
    exact ran
  rw [← longest]
  unfold usageFromHistory
  dsimp only
  rw [← byStart, started]
  rfl

/- No outage is longer than the gap it lies in. -/
theorem outageWithin (ordered : InOrder h now) {first : EdgeSessionRow} {rest : List EdgeSessionRow} (sorted : byStart h.sessions = first :: rest)
    {a b : ℝ} (ahead : a < b) (window : (now : ℝ) - 30 * 86400 ≤ a) (past : b ≤ now) (known : ∃ s ∈ h.sessions, (s.connectedAt : ℝ) ≤ a)
    (free : ∀ s ∈ h.sessions, ∀ t, a < t → t < b → ¬ ((s.connectedAt : ℝ) ≤ t ∧ t ≤ s.stop now)) :
    ∃ gap ∈ gaps now (first.stop now) (rest.map (span now)), b - a ≤ gapSecs gap.start gap.stop (saturatingSub now window30dSecs) now := by
  have listed : ∀ s, s ∈ first :: rest → s ∈ h.sessions := fun s mem => (byStartPerm h.sessions).mem_iff.mp (sorted ▸ mem)
  have mono : Monotone (fun t : Int => (t : ℝ)) := Int.cast_mono
  have proper : ∀ s ∈ rest.map (span now), s.start ≤ s.stop := by
    intro s mem
    obtain ⟨row,inside,rfl⟩ := List.mem_map.mp mem
    exact ordered.proper row (listed row (List.mem_cons_of_mem _ inside))
  obtain ⟨oldest,oldestIn,before⟩ := known
  have earliest : first.connectedAt ≤ oldest.connectedAt := by
    have mem : oldest ∈ first :: rest := sorted ▸ (byStartPerm h.sessions).mem_iff.mpr oldestIn
    rcases List.mem_cons.mp mem with rfl | later
    · exact le_rfl
    · exact (List.pairwise_cons.mp (sorted ▸ byStartSorted h.sessions)).1 oldest later
  have behind : (first.stop now : ℝ) ≤ a := by
    have firstIn := listed first List.mem_cons_self
    rcases (@spanApart Int ℝ _ _ _ (span now first) (mono (ordered.proper first firstIn)) a b ahead).mp (free first firstIn) with ended | started
    · exact ended
    · exact absurd ((started.trans (mono earliest)).trans before) ahead.not_ge
  have free' : Uncovered (fun t : Int => (t : ℝ)) (rest.map (span now)) a b := by
    intro s mem
    obtain ⟨row,inside,rfl⟩ := List.mem_map.mp mem
    exact free row (listed row (List.mem_cons_of_mem _ inside))
  obtain ⟨gap,mem,starts,ends⟩ := uncoveredInGap mono proper ahead behind past free'
  refine ⟨gap,mem,?_⟩
  have low := (ordered.starts oldest oldestIn).1
  have start : ((max gap.start (saturatingSub now window30dSecs) : Int) : ℝ) ≤ a := by
    rw [windowStartIs ordered.clock]
    push_cast
    refine max_le starts (max_le ?_ ?_)
    · exact le_trans (by exact_mod_cast low) before
    · rw [window30dSecs]
      push_cast
      linarith
  have stop : b ≤ ((min gap.stop now : Int) : ℝ) := by
    push_cast
    exact le_min ends past
  rw [gapSecsExact (by rw [windowStartIs ordered.clock]; exact le_max_right _ _)]
  have length : ((min gap.stop now - max gap.start (saturatingSub now window30dSecs) : Int) : ℝ) ≤
      ((min gap.stop now - max gap.start (saturatingSub now window30dSecs)).toNat : ℝ) := by
    exact_mod_cast Int.self_le_toNat _
  refine le_trans ?_ length
  rw [Int.cast_sub]
  linarith

/- The part of a gap that is in the window is an outage. -/
theorem gapOutage (ordered : InOrder h now) {first : EdgeSessionRow} {rest : List EdgeSessionRow} (sorted : byStart h.sessions = first :: rest)
    {gap : Span Int} (mem : gap ∈ gaps now (first.stop now) (rest.map (span now)))
    (positive : 0 < gapSecs gap.start gap.stop (saturatingSub now window30dSecs) now) :
    (gapSecs gap.start gap.stop (saturatingSub now window30dSecs) now : ℝ) ∈ Outages h now := by
  have mono : Monotone (fun t : Int => (t : ℝ)) := Int.cast_mono
  have firstIn : first ∈ h.sessions := (byStartPerm h.sessions).mem_iff.mp (sorted ▸ List.mem_cons_self)
  have order : (rest.map (span now)).Pairwise (fun s t => s.start ≤ t.start) :=
    List.pairwise_map.mpr (List.pairwise_cons.mp (sorted ▸ byStartSorted h.sessions)).2
  have ended : ∀ s ∈ [span now first], s.stop ≤ first.stop now := by simp [span]
  obtain ⟨behind,free⟩ := gapUncovered order mono ended mem
  rw [gapSecsExact (by rw [windowStartIs ordered.clock]; exact le_max_right _ _)] at positive ⊢
  generalize whole : saturatingSub now window30dSecs = windowStart at *
  have windowLow : now - window30dSecs ≤ windowStart := by
    rw [← whole, windowStartIs ordered.clock]
    exact le_max_right _ _
  have nonneg : 0 ≤ min gap.stop now - max gap.start windowStart := by omega
  have length : ((min gap.stop now - max gap.start windowStart).toNat : ℝ) = ((min gap.stop now : Int) : ℝ) - ((max gap.start windowStart : Int) : ℝ) := by
    rw [← Int.cast_sub]
    exact_mod_cast Int.toNat_of_nonneg nonneg
  refine ⟨(max gap.start windowStart : Int),(min gap.stop now : Int),?_,?_,?_,⟨first,firstIn,?_⟩,?_,length⟩
  · exact mono (by omega)
  · have low : ((now - window30dSecs : Int) : ℝ) ≤ ((max gap.start windowStart : Int) : ℝ) := mono (windowLow.trans (le_max_right _ _))
    rw [window30dSecs] at low
    push_cast at low ⊢
    linarith
  · exact mono (min_le_right _ _)
  · exact mono (((ordered.proper first firstIn).trans behind).trans (le_max_left _ _))
  · intro s inside t above below
    have placed : span now s ∈ [span now first] ++ rest.map (span now) := by
      have listed : s ∈ first :: rest := sorted ▸ (byStartPerm h.sessions).mem_iff.mpr inside
      rw [List.singleton_append, ← List.map_cons]
      exact List.mem_map_of_mem listed
    exact free (span now s) placed t ((mono (le_max_left _ _)).trans_lt above) (below.trans_le (mono (min_le_left _ _)))

theorem outageGreatest (ordered : InOrder h now) :
    IsGreatest (insert 0 (Outages h now)) ((usageFromHistory h now).longestOutageSecs30d : ℝ) := by
  cases sorted : byStart h.sessions with
  | nil =>
    have empty : h.sessions = [] := List.Perm.eq_nil (sorted ▸ (byStartPerm h.sessions).symm)
    have zero : (usageFromHistory h now).longestOutageSecs30d = 0 := by
      unfold usageFromHistory
      rw [empty]
      rfl
    rw [zero]
    refine ⟨.inl Nat.cast_zero,?_⟩
    rintro length (rfl | ⟨a,b,_,_,_,⟨s,inside,_⟩,_⟩)
    · simp
    · rw [empty] at inside
      contradiction
  | cons first rest =>
    obtain ⟨_,each,attained⟩ := @longestGapIs (saturatingSub now window30dSecs) now (gaps now (first.stop now) (rest.map (span now))) 0
    rw [longestSwept sorted]
    generalize longestGap (saturatingSub now window30dSecs) now (gaps now (first.stop now) (rest.map (span now))) 0 = longest at *
    constructor
    · rcases Nat.eq_zero_or_pos longest with zero | positive
      · exact .inl (by rw [zero]; exact Nat.cast_zero)
      · rcases attained with zero | ⟨gap,mem,reached⟩
        · omega
        · subst reached
          exact .inr (gapOutage ordered sorted mem positive)
    · rintro length (rfl | ⟨a,b,ahead,window,past,known,free,rfl⟩)
      · exact Nat.cast_nonneg _
      · rcases ahead.lt_or_eq with ahead | same
        · obtain ⟨gap,mem,within⟩ := outageWithin ordered sorted ahead window past known free
          exact within.trans (by exact_mod_cast each gap mem)
        · rw [same, sub_self]
          exact Nat.cast_nonneg _

end Outages

section Totals
variable {windowStart now : Int} {h : EdgeTunnelHistory}

theorem saturatingNat (a b : UInt64) : (Words.saturatingAdd a b).toNat = min (a.toNat + b.toNat) (2 ^ 64 - 1) := by
  by_cases bound : a.toNat + b.toNat < 2 ^ 64
  · rw [Words.saturatingAddExact bound]
    omega
  · rw [Words.saturatingAdd, Words.checkedAdd, if_neg bound, Option.getD_none, UInt64.toNat_ofNat']
    omega

/- The bytes of the sessions that reach into the window. -/
def bytes (windowStart now : Int) (amount : EdgeSessionRow → UInt64) (sessions : List EdgeSessionRow) : Nat :=
  ((sessions.filter (fun s => windowStart ≤ s.stop now)).map (fun s => (amount s).toNat)).sum

def reaching (windowStart now : Int) (sessions : List EdgeSessionRow) : Nat := sessions.countP (fun s => windowStart ≤ s.stop now)

structure Totals (windowStart now : Int) (sessions : List EdgeSessionRow) (u u' : UsageSummary) : Prop where
  counted : u'.sessions30d = u.sessions30d + reaching windowStart now sessions
  bytesIn : u'.bytesIn30d.toNat = min (u.bytesIn30d.toNat + bytes windowStart now (·.bytesIn) sessions) (2 ^ 64 - 1)
  bytesOut : u'.bytesOut30d.toNat = min (u.bytesOut30d.toNat + bytes windowStart now (·.bytesOut) sessions) (2 ^ 64 - 1)
  uptime : u'.uptimeD30 = u.uptimeD30

theorem countTotals (s : EdgeSessionRow) (u : UsageSummary) : Totals windowStart now [s] u (u.count s windowStart now) := by
  have small := u.bytesIn30d.toNat_lt
  have small' := u.bytesOut30d.toNat_lt
  unfold UsageSummary.count
  split
  case isTrue inside =>
    refine ⟨by simp [reaching, inside],?_,?_,rfl⟩
    · simp [bytes, inside, saturatingNat]
    · simp [bytes, inside, saturatingNat]
  case isFalse outside =>
    refine ⟨by simp [reaching, outside],?_,?_,rfl⟩
    · simp [bytes, outside]
      omega
    · simp [bytes, outside]
      omega

theorem totalsTrans {a b : List EdgeSessionRow} {u v w : UsageSummary} (first : Totals windowStart now a u v) (second : Totals windowStart now b v w) :
    Totals windowStart now (a ++ b) u w := by
  have appended : ∀ amount, bytes windowStart now amount (a ++ b) = bytes windowStart now amount a + bytes windowStart now amount b := by
    intro amount
    simp [bytes]
  refine ⟨?_,?_,?_,second.uptime.trans first.uptime⟩
  · rw [second.counted, first.counted, reaching, reaching, reaching, List.countP_append, Nat.add_assoc]
  · rw [second.bytesIn, first.bytesIn, appended]
    omega
  · rw [second.bytesOut, first.bytesOut, appended]
    omega

theorem sweepTotals (sessions : List EdgeSessionRow) (state : Option Int × UsageSummary) :
    Totals windowStart now sessions state.2 (sessions.foldl (observe windowStart now) state).2 := by
  induction sessions generalizing state with
  | nil =>
    have small := state.2.bytesIn30d.toNat_lt
    have small' := state.2.bytesOut30d.toNat_lt
    exact ⟨rfl,by simp [bytes]; omega,by simp [bytes]; omega,rfl⟩
  | cons s rest ih =>
    have head := @countTotals windowStart now s state.2
    have observed : Totals windowStart now [s] state.2 (observe windowStart now state s).2 := by
      unfold observe
      split
      · exact ⟨head.counted,head.bytesIn,head.bytesOut,head.uptime⟩
      · exact head
    exact totalsTrans observed (ih (observe windowStart now state s))

theorem usageTotals : Totals (saturatingSub now window30dSecs) now (byStart h.sessions) { uptimeD30 := h.uptimeD30 } (usageFromHistory h now) := by
  have swept := @sweepTotals (saturatingSub now window30dSecs) now (byStart h.sessions) (none,{ uptimeD30 := h.uptimeD30 })
  unfold usageFromHistory
  dsimp only
  split
  · exact ⟨swept.counted,swept.bytesIn,swept.bytesOut,swept.uptime⟩
  · exact swept

theorem permOrdered {other : EdgeTunnelHistory} (same : other.sessions.Perm h.sessions) (ordered : InOrder h now) : InOrder other now :=
  ⟨ordered.clock,fun s mem => ordered.starts s (same.mem_iff.mp mem),fun s mem => ordered.proper s (same.mem_iff.mp mem),
    fun s mem => ordered.past s (same.mem_iff.mp mem)⟩

theorem permOutages {other : EdgeTunnelHistory} (same : other.sessions.Perm h.sessions) : Outages other now = Outages h now := by
  unfold Outages
  simp only [same.mem_iff]

end Totals

/- The longest outage is the length of the longest uncovered stretch, and the summary is the same
   in whatever order the sessions come. -/
theorem longestOutage {h : EdgeTunnelHistory} {now : Int} (ordered : InOrder h now) :
    IsGreatest (insert 0 (Outages h now)) ((usageFromHistory h now).longestOutageSecs30d : ℝ) ∧
      ∀ sessions : List EdgeSessionRow, sessions.Perm h.sessions → usageFromHistory ⟨h.uptimeD30,sessions⟩ now = usageFromHistory h now := by
  refine ⟨outageGreatest ordered,?_⟩
  intro sessions same
  have totals := @usageTotals now h
  have totals' := @usageTotals now ⟨h.uptimeD30,sessions⟩
  have perm : (byStart sessions).Perm (byStart h.sessions) := ((byStartPerm sessions).trans same).trans (byStartPerm h.sessions).symm
  have amounts : ∀ amount, bytes (saturatingSub now window30dSecs) now amount (byStart sessions) =
      bytes (saturatingSub now window30dSecs) now amount (byStart h.sessions) := fun amount => ((perm.filter _).map _).sum_eq
  have greatest := @outageGreatest ⟨h.uptimeD30,sessions⟩ now (permOrdered same ordered)
  rw [@permOutages now h ⟨h.uptimeD30,sessions⟩ same] at greatest
  have longest := Nat.cast_injective (greatest.unique (outageGreatest ordered))
  have counted : (usageFromHistory ⟨h.uptimeD30,sessions⟩ now).sessions30d = (usageFromHistory h now).sessions30d := by
    rw [totals'.counted, totals.counted, reaching, reaching, perm.countP_eq]
  have bytesIn : (usageFromHistory ⟨h.uptimeD30,sessions⟩ now).bytesIn30d = (usageFromHistory h now).bytesIn30d := by
    rw [← UInt64.toNat_inj, totals'.bytesIn, totals.bytesIn, amounts]
  have bytesOut : (usageFromHistory ⟨h.uptimeD30,sessions⟩ now).bytesOut30d = (usageFromHistory h now).bytesOut30d := by
    rw [← UInt64.toNat_inj, totals'.bytesOut, totals.bytesOut, amounts]
  have uptime := totals'.uptime.trans totals.uptime.symm
  generalize usageFromHistory ⟨h.uptimeD30,sessions⟩ now = left at *
  generalize usageFromHistory h now = right at *
  cases left
  cases right
  simp_all

def overlapping : EdgeTunnelHistory := ⟨0,[⟨99994000,some 99996000,1,1⟩,⟨99995000,some 99997000,1,1⟩]⟩

theorem overlappingLegs : IsGreatest (insert 0 (Outages overlapping 100000000)) ((usageFromHistory overlapping 100000000).longestOutageSecs30d : ℝ) ∧
    ∀ sessions : List EdgeSessionRow, sessions.Perm overlapping.sessions →
      usageFromHistory ⟨overlapping.uptimeD30,sessions⟩ 100000000 = usageFromHistory overlapping 100000000 :=
  longestOutage ⟨by simp [i64],by simp [overlapping, i64],by simp [overlapping, EdgeSessionRow.stop],by simp [overlapping, EdgeSessionRow.stop]⟩

example : (usageFromHistory overlapping 100000000).longestOutageSecs30d = 3000 := by decide

end CadsTunnel.TunnelUptime
