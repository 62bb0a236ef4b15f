import CadsTunnel.PeriodicFlips

/-! Access windows: weekly opening hours at a fixed UTC offset, and the policy that
combines them with an expiry. Instants are unix seconds. The calculation of the next
change jumps from boundary to boundary; it names the first instant at which the state
is another one. -/
namespace CadsTunnel.AccessWindow
open PeriodicFlips

def secsPerMinute : Int := 60
def secsPerDay : Int := 86400
def secsPerWeek : Int := 604800
def minutesPerDay : Nat := 1440
def epochWeekday : Int := 3

structure Slot where
  day : Nat
  startMinute : Nat
  endMinute : Nat
  deriving DecidableEq, Repr

namespace Slot

def validate (s : Slot) : Except String Unit :=
  if 6 < s.day then .error "day must be 0 (Monday) .. 6 (Sunday)"
  else if minutesPerDay ≤ s.startMinute then .error "start must be before 24:00"
  else if s.endMinute = 0 ∨ minutesPerDay < s.endMinute then .error "end must be between 00:01 and 24:00"
  else if s.endMinute = s.startMinute then .error "end must differ from start"
  else .ok ()

def isValid (s : Slot) : Bool := s.validate.isOk

def wrapsMidnight (s : Slot) : Bool := decide (s.endMinute ≤ s.startMinute)

def contains (s : Slot) (weekday minuteOfDay : Nat) : Bool :=
  if !s.isValid then false
  else if s.wrapsMidnight then
    (weekday == s.day && decide (s.startMinute ≤ minuteOfDay)) ||
      (weekday == (s.day + 1) % 7 && decide (minuteOfDay < s.endMinute))
  else weekday == s.day && decide (s.startMinute ≤ minuteOfDay) && decide (minuteOfDay < s.endMinute)

/- The two boundaries in seconds from the local week's Monday 00:00. -/
def weekOffsets (s : Slot) : Int × Int :=
  let start := (s.day * minutesPerDay + s.startMinute) * secsPerMinute
  let endDay : Int := if s.wrapsMidnight then s.day + 1 else s.day
  (start,(endDay * minutesPerDay + s.endMinute) * secsPerMinute)

end Slot

structure WeeklySchedule where
  tzOffsetMinutes : Int
  slots : List Slot
  deriving DecidableEq, Repr

def i64 (v : Int) : Prop := -2 ^ 63 ≤ v ∧ v < 2 ^ 63

def saturatingAdd (a b : Int) : Int := max (-2 ^ 63) (min (2 ^ 63 - 1) (a + b))

def civil (localSecs : Int) : Nat × Nat :=
  let days := localSecs / secsPerDay
  (((days + epochWeekday) % 7).toNat,(localSecs % secsPerDay / secsPerMinute).toNat)

/- `while at <= local { at += week }`. -/
def advance (localSecs at' : Int) : Int :=
  if at' ≤ localSecs then advance localSecs (at' + secsPerWeek) else at'
termination_by (localSecs + 1 - at').toNat
decreasing_by
  simp only [secsPerWeek]
  omega

/- `while at - week > local { at -= week }`. -/
def retreat (localSecs at' : Int) : Int :=
  if localSecs < at' - secsPerWeek then retreat localSecs (at' - secsPerWeek) else at'
termination_by (at' - localSecs).toNat
decreasing_by
  simp only [secsPerWeek] at *
  omega

namespace WeeklySchedule

def validate (s : WeeklySchedule) : Except String Unit :=
  if s.tzOffsetMinutes < -720 ∨ 840 < s.tzOffsetMinutes then .error "timezone offset must be between -12:00 and +14:00"
  else s.slots.forM Slot.validate

def localSecs (s : WeeklySchedule) (now : Int) : Int := saturatingAdd now (s.tzOffsetMinutes * secsPerMinute)

def isOpen (s : WeeklySchedule) (now : Int) : Bool :=
  let (weekday,minute) := civil (s.localSecs now)
  s.slots.any fun slot => slot.contains weekday minute

def weekStart (s : WeeklySchedule) (now : Int) : Int :=
  let localNow := s.localSecs now
  let (weekday,minute) := civil localNow
  localNow - ((weekday * minutesPerDay + minute) * secsPerMinute + localNow % secsPerMinute)

/- The first occurrence of a boundary after now. -/
def occurrence (s : WeeklySchedule) (now boundary : Int) : Int :=
  retreat (s.localSecs now) (advance (s.localSecs now) (s.weekStart now + boundary))

def boundaries (s : WeeklySchedule) : List Int :=
  (s.slots.filter Slot.isValid).flatMap fun slot => [slot.weekOffsets.1,slot.weekOffsets.2]

def nextChange (s : WeeklySchedule) (now : Int) : Option Int :=
  if (s.slots.filter Slot.isValid).isEmpty then none
  else
    let candidates := s.boundaries.map fun boundary => s.occurrence now boundary - s.tzOffsetMinutes * secsPerMinute
    (candidates.insertionSort (· ≤ ·)).find? fun t => decide (s.isOpen t ≠ s.isOpen now)

/- The instants for which every number on the way is an `i64`. -/
structure InRange (s : WeeklySchedule) (now : Int) : Prop where
  instant : i64 now
  shifted : i64 (now + s.tzOffsetMinutes * secsPerMinute)
  monday : i64 (s.weekStart now)
  placed : ∀ boundary ∈ s.boundaries, i64 (s.weekStart now + boundary)
  earlier : ∀ boundary ∈ s.boundaries, i64 (s.occurrence now boundary - secsPerWeek)
  later : ∀ boundary ∈ s.boundaries, i64 (s.occurrence now boundary)
  answer : ∀ boundary ∈ s.boundaries, i64 (s.occurrence now boundary - s.tzOffsetMinutes * secsPerMinute)

end WeeklySchedule

structure AccessPolicy where
  expiresAt : Option Int
  schedule : Option WeeklySchedule
  deriving DecidableEq, Repr

namespace AccessPolicy

def isUnrestricted (p : AccessPolicy) : Bool := p.expiresAt.isNone && p.schedule.isNone

def validate (p : AccessPolicy) : Except String Unit :=
  match p.schedule with
  | some s => s.validate
  | none => .ok ()

def isExpired (p : AccessPolicy) (now : Int) : Bool :=
  match p.expiresAt with
  | some e => decide (e ≤ now)
  | none => false

def isOpen (p : AccessPolicy) (now : Int) : Bool :=
  if p.isExpired now then false
  else match p.schedule with
    | some s => s.isOpen now
    | none => true

/- The match at the end of `next_change`. -/
def combine (openNow : Bool) (scheduled expiresAt : Option Int) : Option Int :=
  match openNow, scheduled, expiresAt with
  | true, some s, some e => some (min s e)
  | true, some s, none => some s
  | true, none, e => e
  | false, some s, some e => if s < e then some s else none
  | false, some s, none => some s
  | false, none, _ => none

def nextChange (p : AccessPolicy) (now : Int) : Option Int :=
  if p.isExpired now then none
  else combine (p.isOpen now) (p.schedule.bind (·.nextChange now)) p.expiresAt

end AccessPolicy

section Slots
variable {slot : Slot}

/- Local seconds counted from a Monday 00:00. -/
def fromMonday (localSecs : Int) : Int := localSecs + epochWeekday * secsPerDay

/- The slot's opening in some week covers the second. -/
def Covers (slot : Slot) (u : Int) : Prop := ∃ week : Int, slot.weekOffsets.1 + week * secsPerWeek ≤ u ∧ u < slot.weekOffsets.2 + week * secsPerWeek

structure InBounds (slot : Slot) : Prop where
  day : slot.day ≤ 6
  start : slot.startMinute < 1440
  stop : 0 < slot.endMinute ∧ slot.endMinute ≤ 1440
  differ : slot.endMinute ≠ slot.startMinute

theorem validBounds : slot.isValid = true ↔ InBounds slot := by
  unfold Slot.isValid Slot.validate minutesPerDay
  constructor
  · intro ok
    split at ok <;> try contradiction
    split at ok <;> try contradiction
    split at ok <;> try contradiction
    split at ok <;> try contradiction
    exact ⟨by omega,by omega,by omega,by assumption⟩
  · intro bounds
    have day := bounds.day
    have start := bounds.start
    have stop := bounds.stop
    rw [if_neg (by omega), if_neg (by omega), if_neg (by omega), if_neg bounds.differ]
    rfl

/- The length of an opening, from its start on. -/
def minutesOpen (slot : Slot) : Nat :=
  if slot.endMinute ≤ slot.startMinute then 1440 + slot.endMinute - slot.startMinute else slot.endMinute - slot.startMinute

theorem offsetsLength (bounds : InBounds slot) : slot.weekOffsets.1 = (slot.day * 1440 + slot.startMinute) * 60 ∧
    slot.weekOffsets.2 = (slot.day * 1440 + slot.startMinute + minutesOpen slot) * 60 := by
  have start := bounds.start
  unfold Slot.weekOffsets Slot.wrapsMidnight minutesOpen minutesPerDay secsPerMinute
  by_cases wraps : slot.endMinute ≤ slot.startMinute
  · simp only [wraps, decide_true, if_true]
    omega
  · simp only [wraps, decide_false, Bool.false_eq_true, if_false]
    omega

/- The weekday and the minute of a second, counted from a Monday. -/
theorem civilMonday (localSecs : Int) : civil localSecs =
    ((fromMonday localSecs / 86400 % 7).toNat,(fromMonday localSecs % 86400 / 60).toNat) := by
  have days : localSecs / 86400 + 3 = (localSecs + 259200) / 86400 := by omega
  have rest : localSecs % 86400 = (localSecs + 259200) % 86400 := by omega
  simp only [civil, fromMonday, secsPerDay, epochWeekday, secsPerMinute, days, rest]
  norm_num

theorem containsCovers (localSecs : Int) :
    slot.contains (civil localSecs).1 (civil localSecs).2 = true ↔ slot.isValid = true ∧ Covers slot (fromMonday localSecs) := by
  rw [civilMonday]
  generalize fromMonday localSecs = u
  unfold Slot.contains
  by_cases valid : slot.isValid = true
  · have bounds := validBounds.mp valid
    have day := bounds.day
    have start := bounds.start
    have stop := bounds.stop
    obtain ⟨opens,closes⟩ := offsetsLength bounds
    rw [Covers, opens, closes]
    simp only [valid, Bool.not_true, Bool.false_eq_true, if_false, true_and, secsPerWeek]
    unfold Slot.wrapsMidnight minutesOpen
    by_cases wraps : slot.endMinute ≤ slot.startMinute
    · simp only [wraps, decide_true, if_true, Bool.or_eq_true, Bool.and_eq_true, beq_iff_eq, decide_eq_true_eq]
      constructor
      · rintro (⟨today,after⟩ | ⟨tomorrow,before⟩)
        · exact ⟨u / 86400 / 7,by omega,by omega⟩
        · exact ⟨(u / 86400 - 1) / 7,by omega,by omega⟩
      · rintro ⟨week,after,before⟩
        omega
    · simp only [wraps, decide_false, if_false, Bool.and_eq_true, beq_iff_eq, decide_eq_true_eq, Bool.false_eq_true]
      constructor
      · rintro ⟨⟨today,after⟩,before⟩
        exact ⟨u / 86400 / 7,by omega,by omega⟩
      · rintro ⟨week,after,before⟩
        omega
  · simp [valid]

/- An opening begins and ends at its boundaries. -/
theorem coversFlips {u : Int} (flips : ¬ (Covers slot u ↔ Covers slot (u - 1))) :
    secsPerWeek ∣ u - slot.weekOffsets.1 ∨ secsPerWeek ∣ u - slot.weekOffsets.2 := by
  by_cases now : Covers slot u
  · obtain ⟨week,after,before⟩ := now
    refine .inl ⟨week,?_⟩
    by_contra other
    exact flips ⟨fun _ => ⟨week,by linarith [lt_of_le_of_ne after (fun same => other (by rw [← same]; ring))],by omega⟩,
      fun _ => ⟨week,after,before⟩⟩
  · have earlier : Covers slot (u - 1) := by
      by_contra neither
      exact flips (iff_of_false now neither)
    obtain ⟨week,after,before⟩ := earlier
    refine .inr ⟨week,?_⟩
    by_contra other
    refine now ⟨week,by omega,lt_of_le_of_ne (by omega) ?_⟩
    intro same
    exact other (by rw [same]; ring)

theorem coversWeekly (u : Int) : Covers slot (u + secsPerWeek) ↔ Covers slot u := by
  constructor
  · rintro ⟨week,after,before⟩
    exact ⟨week - 1,by linarith,by linarith⟩
  · rintro ⟨week,after,before⟩
    exact ⟨week + 1,by linarith,by linarith⟩

end Slots

section Schedules
variable {s : WeeklySchedule} {now : Int}

def shift (s : WeeklySchedule) : Int := s.tzOffsetMinutes * secsPerMinute

/- The opening hours on all integers: what `isOpen` is as long as the shift does not saturate. -/
def openAt (s : WeeklySchedule) (t : Int) : Bool :=
  s.slots.any fun slot => slot.contains (civil (t + shift s)).1 (civil (t + shift s)).2

theorem openCovers (t : Int) : openAt s t = true ↔
    ∃ slot ∈ s.slots, slot.isValid = true ∧ Covers slot (fromMonday (t + shift s)) := by
  simp [openAt, List.any_eq_true, containsCovers]

theorem isOpenAt (t : Int) : s.isOpen t = openAt s (s.localSecs t - shift s) := by
  rw [WeeklySchedule.isOpen, openAt, Int.sub_add_cancel]

theorem isOpenInside {t : Int} (inside : i64 (t + shift s)) : s.isOpen t = openAt s t := by
  have exact : s.localSecs t = t + shift s := by
    obtain ⟨low,high⟩ := inside
    rw [WeeklySchedule.localSecs, saturatingAdd, ← shift]
    omega
  rw [isOpenAt, exact, Int.add_sub_cancel]

/- The boundaries as instants. -/
def marks (s : WeeklySchedule) : List Int := s.boundaries.map fun boundary => boundary - epochWeekday * secsPerDay - shift s

theorem scheduleMarked (s : WeeklySchedule) : Marked (openAt s) secsPerWeek (marks s) := by
  refine ⟨by decide,?_,?_⟩
  · intro t
    rw [Bool.eq_iff_iff, openCovers, openCovers]
    have moved : fromMonday (t + secsPerWeek + shift s) = fromMonday (t + shift s) + secsPerWeek := by
      unfold fromMonday
      ring
    simp only [moved, coversWeekly]
  · intro t flips
    have moved : fromMonday (t - 1 + shift s) = fromMonday (t + shift s) - 1 := by
      unfold fromMonday
      ring
    obtain ⟨slot,mem,valid,changed⟩ : ∃ slot ∈ s.slots, slot.isValid = true ∧
        ¬ (Covers slot (fromMonday (t + shift s)) ↔ Covers slot (fromMonday (t + shift s) - 1)) := by
      by_contra none
      push Not at none
      refine flips (Bool.eq_iff_iff.mpr ?_)
      rw [openCovers, openCovers, moved]
      constructor
      · rintro ⟨slot,mem,valid,covers⟩
        exact ⟨slot,mem,valid,(none slot mem valid).mp covers⟩
      · rintro ⟨slot,mem,valid,covers⟩
        exact ⟨slot,mem,valid,(none slot mem valid).mpr covers⟩
    have offset : ∀ boundary, fromMonday (t + shift s) - boundary = t - (boundary - epochWeekday * secsPerDay - shift s) := by
      intro boundary
      unfold fromMonday
      ring
    have listed : ∀ boundary ∈ [slot.weekOffsets.1,slot.weekOffsets.2],
        boundary - epochWeekday * secsPerDay - shift s ∈ marks s := by
      intro boundary inside
      exact List.mem_map_of_mem (List.mem_flatMap.mpr ⟨slot,List.mem_filter.mpr ⟨mem,valid⟩,inside⟩)
    rcases coversFlips changed with opens | closes
    · exact ⟨_,listed _ (by simp),offset _ ▸ opens⟩
    · exact ⟨_,listed _ (by simp),offset _ ▸ closes⟩

theorem advanceSpec (localSecs a : Int) : localSecs < advance localSecs a ∧ secsPerWeek ∣ advance localSecs a - a := by
  fun_induction advance localSecs a with
  | case1 a _ ih =>
    refine ⟨ih.1,?_⟩
    have step := ih.2.add (dvd_refl secsPerWeek)
    rwa [sub_add_eq_sub_sub, sub_add_cancel] at step
  | case2 a passed => exact ⟨by omega,by simp⟩

theorem retreatSpec {localSecs a : Int} (ahead : localSecs < a) :
    localSecs < retreat localSecs a ∧ retreat localSecs a ≤ localSecs + secsPerWeek ∧ secsPerWeek ∣ retreat localSecs a - a := by
  fun_induction retreat localSecs a with
  | case1 a far ih =>
    obtain ⟨later,first,repeats⟩ := ih far
    refine ⟨later,first,?_⟩
    have step := repeats.sub (dvd_refl secsPerWeek)
    rwa [sub_sub, sub_add_cancel] at step
  | case2 a near => exact ⟨ahead,by omega,by simp⟩

theorem weekStartWhole (s : WeeklySchedule) (now : Int) :
    fromMonday (s.weekStart now) = fromMonday (s.localSecs now) - fromMonday (s.localSecs now) % secsPerWeek := by
  unfold WeeklySchedule.weekStart
  dsimp only
  rw [civilMonday]
  unfold fromMonday minutesPerDay secsPerMinute secsPerWeek epochWeekday secsPerDay
  omega

/- The week of an instant begins on a Monday, and not a week before. -/
theorem weekStartMonday (s : WeeklySchedule) (now : Int) : secsPerWeek ∣ fromMonday (s.weekStart now) := by
  rw [weekStartWhole]
  exact Int.dvd_self_sub_emod

theorem weekStartWithin (s : WeeklySchedule) (now : Int) :
    s.localSecs now - secsPerWeek < s.weekStart now ∧ s.weekStart now ≤ s.localSecs now := by
  have whole := weekStartWhole s now
  unfold fromMonday at whole
  unfold secsPerWeek at *
  omega

theorem localExact (fits : i64 (now + shift s)) : s.localSecs now = now + shift s := by
  obtain ⟨low,high⟩ := fits
  rw [WeeklySchedule.localSecs, saturatingAdd, ← shift]
  omega

theorem occurrenceNext (fits : i64 (now + shift s)) (boundary : Int) :
    NextMark secsPerWeek now (boundary - epochWeekday * secsPerDay - shift s) (s.occurrence now boundary - shift s) := by
  have exact := localExact fits
  obtain ⟨ahead,repeats⟩ := advanceSpec (s.localSecs now) (s.weekStart now + boundary)
  obtain ⟨later,first,again⟩ := retreatSpec ahead
  rw [exact] at later first
  have whole : s.occurrence now boundary - shift s - (boundary - epochWeekday * secsPerDay - shift s) =
      (s.occurrence now boundary - advance (s.localSecs now) (s.weekStart now + boundary)) +
      (advance (s.localSecs now) (s.weekStart now + boundary) - (s.weekStart now + boundary)) + fromMonday (s.weekStart now) := by
    unfold fromMonday
    ring
  refine ⟨?_,?_,?_⟩
  · rw [WeeklySchedule.occurrence, exact]
    omega
  · rw [WeeklySchedule.occurrence, exact]
    omega
  · rw [whole]
    exact (again.add repeats).add (weekStartMonday s now)

/- The candidates the code sorts are the first repetitions of its boundaries. -/
theorem candidatesMarked (fits : i64 (now + shift s)) (t : Int) :
    t ∈ (s.boundaries.map fun boundary => s.occurrence now boundary - shift s).insertionSort (· ≤ ·) ↔
      ∃ mark ∈ marks s, NextMark secsPerWeek now mark t := by
  rw [List.mem_insertionSort, marks]
  simp only [List.mem_map, exists_exists_and_eq_and]
  constructor
  · rintro ⟨boundary,mem,rfl⟩
    exact ⟨boundary,mem,occurrenceNext fits boundary⟩
  · rintro ⟨boundary,mem,next⟩
    exact ⟨boundary,mem,nextMarkUnique (occurrenceNext fits boundary) next⟩

theorem candidateOpen (inRange : s.InRange now) {t : Int}
    (mem : t ∈ (s.boundaries.map fun boundary => s.occurrence now boundary - shift s).insertionSort (· ≤ ·)) :
    i64 (t + shift s) := by
  rw [List.mem_insertionSort, List.mem_map] at mem
  obtain ⟨boundary,listed,rfl⟩ := mem
  rw [Int.sub_add_cancel]
  exact inRange.later boundary listed

theorem nextChangeSearch (inRange : s.InRange now) : s.nextChange now =
    ((s.boundaries.map fun boundary => s.occurrence now boundary - shift s).insertionSort (· ≤ ·)).find?
      fun t => decide (openAt s t ≠ openAt s now) := by
  have present : s.isOpen now = openAt s now := isOpenInside inRange.shifted
  have same : ∀ t ∈ (s.boundaries.map fun boundary => s.occurrence now boundary - shift s).insertionSort (· ≤ ·),
      decide (s.isOpen t ≠ s.isOpen now) = decide (openAt s t ≠ openAt s now) := by
    intro t mem
    rw [present, isOpenInside (candidateOpen inRange mem)]
  rw [← List.find?_congr same, WeeklySchedule.nextChange]
  split
  case isTrue none =>
    rw [WeeklySchedule.boundaries, List.isEmpty_iff.mp none]
    rfl
  case isFalse => rfl

theorem boundaryWithin {boundary : Int} (listed : boundary ∈ s.boundaries) : 0 ≤ boundary ∧ boundary ≤ 2 * secsPerWeek := by
  obtain ⟨slot,mem,inside⟩ := List.mem_flatMap.mp listed
  have bounds := validBounds.mp (List.mem_filter.mp mem).2
  obtain ⟨opens,closes⟩ := offsetsLength bounds
  have day := bounds.day
  have start := bounds.start
  have stop := bounds.stop
  have length : minutesOpen slot ≤ 1440 + 1440 := by
    unfold minutesOpen
    split <;> omega
  unfold secsPerWeek
  simp only [List.mem_cons, List.not_mem_nil, or_false] at inside
  rcases inside with rfl | rfl <;> omega

/- Billions of years around the epoch are in range. -/
theorem inRangeNear (offset : s.tzOffsetMinutes.natAbs ≤ 2 ^ 31) (near : now.natAbs ≤ 2 ^ 62) : s.InRange now := by
  have shifted : i64 (now + shift s) := by
    unfold i64 shift secsPerMinute
    omega
  have exact := localExact shifted
  have monday := weekStartWithin s now
  rw [exact] at monday
  have placed : ∀ boundary ∈ s.boundaries, s.weekStart now ≤ s.weekStart now + boundary ∧
      s.weekStart now + boundary ≤ s.weekStart now + 2 * secsPerWeek := by
    intro boundary listed
    obtain ⟨low,high⟩ := boundaryWithin listed
    omega
  have found : ∀ boundary, now + shift s < s.occurrence now boundary ∧ s.occurrence now boundary ≤ now + shift s + secsPerWeek := by
    intro boundary
    have next := occurrenceNext shifted boundary
    have later := next.later
    have first := next.first
    omega
  unfold i64 shift secsPerMinute secsPerWeek at *
  refine ⟨by unfold i64; omega,shifted,by unfold i64; omega,?_,?_,?_,?_⟩
  · intro boundary listed
    have := placed boundary listed
    unfold i64
    omega
  all_goals
    intro boundary _
    have := found boundary
    simp only [i64, secsPerMinute, secsPerWeek]
    omega

/- The next change of a weekly schedule is the least later instant at which its state is
another one; there is none exactly if the state stays as it is. -/
theorem scheduleNextChange (s : WeeklySchedule) (now : Int) (inRange : s.InRange now) :
    (∀ t, s.nextChange now = some t ↔ IsLeast (Changes s.isOpen now) t) ∧
    (s.nextChange now = none ↔ ∀ t, now < t → s.isOpen t = s.isOpen now) := by
  have marked := scheduleMarked s
  have present : s.isOpen now = openAt s now := isOpenInside inRange.shifted
  have ascending := List.pairwise_insertionSort (· ≤ ·) (s.boundaries.map fun boundary => s.occurrence now boundary - shift s)
  have all := @candidatesMarked s now inRange.shifted
  refine answerExact ?_ ?_
  · intro t found
    rw [nextChangeSearch inRange] at found
    have least := (searchLeast marked ascending all t).mp found
    have reach := candidateOpen inRange (List.mem_of_find?_eq_some found)
    refine ⟨⟨least.1.1,?_⟩,?_⟩
    · rw [present, isOpenInside reach]
      exact least.1.2
    · intro other change
      by_contra earlier
      have inside : i64 (other + shift s) := by
        have low := inRange.shifted.1
        have high := reach.2
        have later := change.1
        exact ⟨by unfold shift at *; omega,by omega⟩
      have differs := change.2
      rw [present, isOpenInside inside] at differs
      exact earlier (least.2 ⟨change.1,differs⟩)
  · intro none t later
    rw [nextChangeSearch inRange, searchNone marked ascending all] at none
    rw [present, isOpenAt]
    exact constantAlways marked none _

/- Mondays from nine to five in UTC, asked at eight. -/
def mondays : WeeklySchedule := ⟨0,[⟨0,540,1020⟩]⟩

theorem mondayOpens : IsLeast (Changes mondays.isOpen 374400) 378000 := by
  refine ((scheduleNextChange mondays 374400 (inRangeNear (by decide) (by decide))).1 378000).mp ?_
  decide +kernel

end Schedules

section Policies
variable {p : AccessPolicy} {now : Int}

/- The instants for which the schedule's arithmetic stays in range, if there is a schedule. -/
def AccessPolicy.InRange (p : AccessPolicy) (now : Int) : Prop := ∀ s ∈ p.schedule, s.InRange now

/- What the schedule alone says. -/
def hours (p : AccessPolicy) (t : Int) : Bool :=
  match p.schedule with
  | some s => s.isOpen t
  | none => true

theorem policyOpen (t : Int) : p.isOpen t = (!p.isExpired t && hours p t) := by
  unfold AccessPolicy.isOpen hours
  cases p.isExpired t <;> rfl

theorem expiredLater {t : Int} (expired : p.isExpired now = true) (later : now < t) : p.isExpired t = true := by
  unfold AccessPolicy.isExpired at *
  split at expired
  case h_1 e _ =>
    have passed : e ≤ now := by simpa using expired
    simp
    omega
  case h_2 => cases expired

theorem hoursNextChange (inRange : p.InRange now) :
    (∀ t, p.schedule.bind (·.nextChange now) = some t → IsLeast (Changes (hours p) now) t) ∧
    (p.schedule.bind (·.nextChange now) = none → ∀ t, now < t → hours p t = hours p now) := by
  cases schedule : p.schedule with
  | none =>
    have always : ∀ t, hours p t = true := by simp [hours, schedule]
    exact ⟨by simp,fun _ t _ => by rw [always, always]⟩
  | some s =>
    have same : hours p = s.isOpen := by
      funext t
      simp [hours, schedule]
    rw [same]
    obtain ⟨named,unnamed⟩ := scheduleNextChange s now (inRange s schedule)
    exact ⟨fun t found => (named t).mp found,fun none => unnamed.mp none⟩

theorem expiredIff {t : Int} : p.isExpired t = true ↔ ∃ e, p.expiresAt = some e ∧ e ≤ t := by
  unfold AccessPolicy.isExpired
  split
  case h_1 e found => simp [found]
  case h_2 found => simp [found]

/- Open and not expired: the policy closes with the hours or at the expiry. -/
theorem openNextChange {e : Int} (expiry : p.expiresAt = some e) (ahead : now < e) (open' : hours p now = true) {scheduled : Option Int}
    (named : ∀ t, scheduled = some t → IsLeast (Changes (hours p) now) t)
    (unnamed : scheduled = none → ∀ t, now < t → hours p t = hours p now) :
    IsLeast (Changes p.isOpen now) (scheduled.elim e (min · e)) := by
  have expired : ∀ t, p.isExpired t = decide (e ≤ t) := by
    intro t
    simp [AccessPolicy.isExpired, expiry]
  have changes : ∀ t, t ∈ Changes p.isOpen now ↔ now < t ∧ (e ≤ t ∨ hours p t = false) := by
    intro t
    simp only [Changes, Set.mem_ofPred_eq, policyOpen, expired, open', decide_eq_false ahead.not_ge, Bool.not_false, Bool.true_and]
    by_cases passed : e ≤ t <;> simp [passed]
  cases scheduled with
  | none =>
    refine ⟨(changes e).mpr ⟨ahead,.inl le_rfl⟩,?_⟩
    intro t change
    obtain ⟨later,closed⟩ := (changes t).mp change
    rw [unnamed rfl t later, open'] at closed
    simpa using closed
  | some s =>
    obtain ⟨⟨later,differs⟩,least⟩ := named s rfl
    rw [open', ne_eq, Bool.not_eq_true] at differs
    refine ⟨(changes (min s e)).mpr ?_,?_⟩
    · rcases le_total s e with first | first
      · rw [min_eq_left first]
        exact ⟨later,.inr differs⟩
      · rw [min_eq_right first]
        exact ⟨ahead,.inl le_rfl⟩
    · intro t change
      obtain ⟨after,passed | closed⟩ := (changes t).mp change
      · exact (min_le_right s e).trans passed
      · exact (min_le_left s e).trans (least ⟨after,by rw [open', closed]; decide⟩)

/- Closed by the hours: the policy opens with them if this is before the expiry. -/
theorem closedChanges {e : Int} (expiry : p.expiresAt = some e) (ahead : now < e) (closed : hours p now = false) (t : Int) :
    t ∈ Changes p.isOpen now ↔ t ∈ Changes (hours p) now ∧ t < e := by
  have expired : ∀ t, p.isExpired t = decide (e ≤ t) := by
    intro t
    simp [AccessPolicy.isExpired, expiry]
  simp only [Changes, Set.mem_ofPred_eq, policyOpen, expired, closed, decide_eq_false ahead.not_ge, Bool.not_false, Bool.true_and,
    ne_eq, Bool.not_eq_false, Bool.and_eq_true, Bool.not_eq_true', decide_eq_false_iff_not, not_le]
  tauto

/- The next change of a policy is the least later instant at which it opens or closes;
there is none exactly if it stays as it is. -/
theorem policyNextChange (p : AccessPolicy) (now : Int) (inRange : p.InRange now) :
    (∀ t, p.nextChange now = some t ↔ IsLeast (Changes p.isOpen now) t) ∧
    (p.nextChange now = none ↔ ∀ t, now < t → p.isOpen t = p.isOpen now) := by
  obtain ⟨named,unnamed⟩ := hoursNextChange inRange
  by_cases passed : p.isExpired now = true
  · have final : ∀ t, now < t → p.isOpen t = p.isOpen now := by
      intro t later
      rw [policyOpen, policyOpen, passed, expiredLater passed later]
      rfl
    have none : p.nextChange now = none := by rw [AccessPolicy.nextChange, if_pos passed]
    exact answerExact (by simp [none]) fun _ => final
  · have current : p.isOpen now = hours p now := by rw [policyOpen, Bool.eq_false_iff.mpr passed]; rfl
    have answer : p.nextChange now = AccessPolicy.combine (hours p now) (p.schedule.bind (·.nextChange now)) p.expiresAt := by
      rw [AccessPolicy.nextChange, if_neg passed, current]
    rw [answer]
    clear answer
    generalize p.schedule.bind (·.nextChange now) = scheduled at *
    cases expiry : p.expiresAt with
    | none =>
      have same : p.isOpen = hours p := by
        funext t
        simp [policyOpen, AccessPolicy.isExpired, expiry]
      have alone : AccessPolicy.combine (hours p now) scheduled none = scheduled := by
        cases hours p now <;> cases scheduled <;> rfl
      rw [alone, same]
      exact answerExact named unnamed
    | some e =>
      have ahead : now < e := by
        by_contra behind
        exact passed (expiredIff.mpr ⟨e,expiry,by omega⟩)
      cases state : hours p now with
      | true =>
        have least := openNextChange expiry ahead state named unnamed
        refine answerExact ?_ ?_
        · intro t found
          cases scheduled <;> cases found <;> exact least
        · intro none
          cases scheduled <;> cases none
      | false =>
        refine answerExact ?_ ?_
        · intro t found
          cases scheduled with
          | none => cases found
          | some s =>
            dsimp only [AccessPolicy.combine] at found
            split at found <;> cases found
            rename_i first
            have least := named t rfl
            exact ⟨(closedChanges expiry ahead state t).mpr ⟨least.1,first⟩,
              fun other change => least.2 ((closedChanges expiry ahead state other).mp change).1⟩
        · intro none t later
          by_contra differs
          obtain ⟨change,before⟩ := (closedChanges expiry ahead state t).mp ⟨later,differs⟩
          cases scheduled with
          | none => exact change.2 (unnamed rfl t later)
          | some s =>
            have first := (named s rfl).2 change
            dsimp only [AccessPolicy.combine] at none
            rw [if_pos (by omega)] at none
            cases none

/- The same hours, and an expiry at half past nine, asked at nine. -/
theorem mondayExpires : IsLeast (Changes (AccessPolicy.isOpen ⟨some 379800,some mondays⟩) 378000) 379800 := by
  refine ((policyNextChange ⟨some 379800,some mondays⟩ 378000 ?_).1 379800).mp (by decide +kernel)
  intro s schedule
  cases schedule
  exact inRangeNear (by decide) (by decide)

end Policies
end CadsTunnel.AccessWindow
