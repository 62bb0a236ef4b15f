import CadsTunnel.AccessWindow
import CadsTunnel.Gregorian
import CadsTunnel.SplitText

/-! Unix seconds printed as a civil date and time of UTC, and a civil date turned back into
its day number. Both count years from March and in eras of 400, so that the leap day is the
last of its year. -/
namespace CadsTunnel.CivilDates
open AccessWindow Gregorian

/- The date half of the printed text: the era, the day in it, the year of that day and the day of that year. -/
def civilFromDays (days : Int) : Date :=
  let z := days + 719468
  let era := z / 146097
  let doe := z % 146097
  let yoe := (doe - doe / 1460 + doe / 36524 - doe / 146096) / 365
  let doy := doe - (365 * yoe + yoe / 4 - yoe / 100)
  let mp := (5 * doy + 2) / 153
  let day := doy - (153 * mp + 2) / 5 + 1
  let month := if mp < 10 then mp + 3 else mp - 9
  let year := yoe + era * 400 + (if month ≤ 2 then 1 else 0)
  ⟨year,month.toNat,day.toNat⟩

/- `{v:0width}`. -/
def zeroPadded (width : Nat) (v : Int) : List Char :=
  let sign := if v < 0 then ['-'] else []
  let digits := Nat.toDigits 10 v.natAbs
  sign ++ List.replicate (width - sign.length - digits.length) '0' ++ digits

def formatUtcYmdHm (secs : Int) : String :=
  let secs := max secs 0
  let days := secs / secsPerDay
  let rem := secs % secsPerDay
  let date := civilFromDays days
  .ofList (zeroPadded 4 date.year ++ '-' :: zeroPadded 2 date.month ++ '-' :: zeroPadded 2 date.day ++
    ' ' :: zeroPadded 2 (rem / 3600) ++ ':' :: zeroPadded 2 (rem % 3600 / 60))

def daysFromCivil (year : Int) (month day : Nat) : Int :=
  let y := if month ≤ 2 then year - 1 else year
  let era := y / 400
  let yoe := y % 400
  let m : Int := month
  let mp := if 2 < m then m - 3 else m + 9
  let doy := (153 * mp + 2) / 5 + day - 1
  let doe := yoe * 365 + yoe / 4 - yoe / 100 + doy
  era * 146097 + doe - 719468

def number (d : Date) : Int := daysFromCivil d.year d.month d.day

/- A number written in digits. -/
def readDigits (digits : List Char) : Option Nat :=
  if !digits.isEmpty && digits.all Char.isDigit then some (Nat.ofDigitChars 10 digits 0) else none

/- What a reader takes for the date: the digits up to the first dash, up to the next one, and up to the blank. -/
def printedDate (text : String) : Option Date := do
  let (year,rest) ← SplitText.cut '-' text.toList
  let (month,rest) ← SplitText.cut '-' rest
  let (day,_) ← SplitText.cut ' ' rest
  some ⟨(← readDigits year : Nat),← readDigits month,← readDigits day⟩

section Eras

/- The day on which the year that begins in March of `y` starts. -/
def yearStart (y : Int) : Int := 365 * y + y / 4 - y / 100 + y / 400

def yearOfEra (doe : Int) : Int := (doe - doe / 1460 + doe / 36524 - doe / 146096) / 365

theorem yearParts {doe : Int} (low : 0 ≤ doe) (high : doe < 146096) :
    ∃ century block year, 0 ≤ century ∧ century ≤ 3 ∧ 0 ≤ block ∧ block ≤ 24 ∧ 0 ≤ year ∧ year ≤ 3 ∧
      yearOfEra doe = 100 * century + 4 * block + year ∧
      36524 * century + 1461 * block + 365 * year ≤ doe ∧
      doe < 36524 * century + 1461 * block + 365 * (year + 1) + (if year = 3 ∧ block < 24 then 1 else 0) := by
  refine ⟨doe / 36524,doe % 36524 / 1461,min 3 (doe % 36524 % 1461 / 365),by omega,by omega,by omega,by omega,by omega,by omega,?_,?_,?_⟩
  · have round : doe / 146096 = 0 := by omega
    have centuries : doe / 36524 = 0 ∨ doe / 36524 = 1 ∨ doe / 36524 = 2 ∨ doe / 36524 = 3 := by omega
    rw [yearOfEra, round]
    rcases centuries with century | century | century | century <;> rw [century] <;> omega
  · omega
  · split <;> omega

theorem yearOfEraBounds {doe : Int} (low : 0 ≤ doe) (high : doe < 146097) :
    0 ≤ yearOfEra doe ∧ yearOfEra doe < 400 ∧ yearStart (yearOfEra doe) ≤ doe ∧ doe < yearStart (yearOfEra doe + 1) := by
  by_cases last : doe = 146096
  · subst last
    decide
  · obtain ⟨century,block,year,c0,c3,b0,b24,y0,y3,whole,starts,ends⟩ := yearParts low (by omega)
    rw [whole]
    have fourth : (100 * century + 4 * block + year) / 4 = 25 * century + block := by omega
    have hundredth : (100 * century + 4 * block + year) / 100 = century := by omega
    have start : yearStart (100 * century + 4 * block + year) = 36524 * century + 1461 * block + 365 * year := by
      unfold yearStart
      omega
    have next : 36524 * century + 1461 * block + 365 * (year + 1) + (if year = 3 ∧ block < 24 then 1 else 0) ≤
        yearStart (100 * century + 4 * block + year + 1) := by
      unfold yearStart
      by_cases leap : year = 3
      · subst leap
        have fourth : (100 * century + 4 * block + 3 + 1) / 4 = 25 * century + block + 1 := by omega
        by_cases early : block < 24
        · have hundredth : (100 * century + 4 * block + 3 + 1) / 100 = century := by omega
          rw [if_pos ⟨rfl,early⟩]
          omega
        · have hundredth : (100 * century + 4 * block + 3 + 1) / 100 = century + 1 := by omega
          rw [if_neg (fun both => early both.2)]
          omega
      · have fourth : (100 * century + 4 * block + year + 1) / 4 = 25 * century + block := by omega
        have hundredth : (100 * century + 4 * block + year + 1) / 100 = century := by omega
        rw [if_neg (by omega)]
        omega
    omega

theorem yearStartEra (y era : Int) : yearStart (y + era * 400) = yearStart y + era * 146097 := by
  unfold yearStart
  omega

theorem yearStartNext (y : Int) : yearStart (y + 1) = yearStart y + 365 + (if IsLeap (y + 1) then 1 else 0) := by
  by_cases leap : IsLeap (y + 1)
  · rw [if_pos leap]
    unfold IsLeap at leap
    unfold yearStart
    omega
  · rw [if_neg leap]
    unfold IsLeap at leap
    unfold yearStart
    omega

end Eras

section Months

/- The year that began in March, and the month counted from there. -/
def marchYear (d : Date) : Int := if d.month ≤ 2 then d.year - 1 else d.year
def marchMonth (month : Nat) : Int := if 2 < month then (month : Int) - 3 else month + 9

theorem numberMarch (d : Date) : number d = yearStart (marchYear d) + (153 * marchMonth d.month + 2) / 5 + d.day - 1 - 719468 := by
  have early : (2 < (d.month : Int)) ↔ 2 < d.month := by omega
  have parts := yearStartEra (marchYear d % 400) (marchYear d / 400)
  have whole : marchYear d % 400 + marchYear d / 400 * 400 = marchYear d := by omega
  have within : (marchYear d % 400) / 400 = 0 := by omega
  rw [whole, yearStart.eq_1 (marchYear d % 400), within] at parts
  have months : (if 2 < (d.month : Int) then (d.month : Int) - 3 else d.month + 9) = marchMonth d.month := by
    simp only [early]
    rfl
  unfold number daysFromCivil
  dsimp only
  rw [months, ← marchYear]
  omega

theorem numbersCivil : Numbers number := by
  rintro ⟨year,month,day⟩ ⟨low,high,first,last⟩
  have starts := yearStartNext (year - 1)
  rw [Int.sub_add_cancel] at starts
  rw [numberMarch, numberMarch]
  dsimp only at *
  unfold Date.next marchYear
  dsimp only
  split
  case isTrue =>
    dsimp only
    omega
  case isFalse whole =>
    have ends : day = monthLength year month := by omega
    rw [ends]
    by_cases leap : IsLeap year
    · rw [if_pos leap] at starts
      interval_cases month <;> norm_num [monthLength, marchMonth, leap] <;> omega
    · rw [if_neg leap] at starts
      interval_cases month <;> norm_num [monthLength, marchMonth, leap] <;> omega

/- The day of the year, the month it is in and the day of that month, counted from March. -/
theorem monthOfDay {doy : Int} (low : 0 ≤ doy) (high : doy < 366) :
    0 ≤ (5 * doy + 2) / 153 ∧ (5 * doy + 2) / 153 ≤ 11 ∧ (153 * ((5 * doy + 2) / 153) + 2) / 5 ≤ doy ∧
      (doy < (153 * ((5 * doy + 2) / 153 + 1) + 2) / 5) := by
  omega

theorem civilParts (days : Int) : ∃ year doy : Int, 0 ≤ doy ∧ doy < 365 + (if IsLeap (year + 1) then 1 else 0) ∧
    days + 719468 = yearStart year + doy ∧
    civilFromDays days =
      let mp := (5 * doy + 2) / 153
      let month := if mp < 10 then mp + 3 else mp - 9
      ⟨year + (if month ≤ 2 then 1 else 0),month.toNat,(doy - (153 * mp + 2) / 5 + 1).toNat⟩ := by
  have low : 0 ≤ (days + 719468) % 146097 := by omega
  have high : (days + 719468) % 146097 < 146097 := by omega
  obtain ⟨yoeLow,yoeHigh,starts,ends⟩ := yearOfEraBounds low high
  have era := yearStartEra (yearOfEra ((days + 719468) % 146097)) ((days + 719468) / 146097)
  have next := yearStartNext (yearOfEra ((days + 719468) % 146097))
  have first : yearStart (yearOfEra ((days + 719468) % 146097)) =
      365 * yearOfEra ((days + 719468) % 146097) + yearOfEra ((days + 719468) % 146097) / 4 - yearOfEra ((days + 719468) % 146097) / 100 := by
    unfold yearStart
    omega
  have leap : IsLeap (yearOfEra ((days + 719468) % 146097) + (days + 719468) / 146097 * 400 + 1) ↔
      IsLeap (yearOfEra ((days + 719468) % 146097) + 1) := by
    unfold IsLeap
    omega
  refine ⟨yearOfEra ((days + 719468) % 146097) + (days + 719468) / 146097 * 400,
    (days + 719468) % 146097 - yearStart (yearOfEra ((days + 719468) % 146097)),by omega,?_,by omega,?_⟩
  · simp only [leap]
    omega
  · rw [first]
    rfl

/- In each of the twelve months the day is one of that month. -/
theorem civilValid (days : Int) : (civilFromDays days).Valid := by
  obtain ⟨year,doy,low,high,whole,same⟩ := civilParts days
  have bound : doy < 366 := by split at high <;> omega
  obtain ⟨mpLow,mpHigh,starts,ends⟩ := monthOfDay low bound
  rw [same]
  generalize (5 * doy + 2) / 153 = mp at *
  have first : 1 ≤ doy - (153 * mp + 2) / 5 + 1 := by omega
  have length : doy - (153 * mp + 2) / 5 + 1 ≤ monthLength (year + (if mp < 10 then 0 else 1)) (if mp < 10 then mp + 3 else mp - 9).toNat := by
    by_cases leap : IsLeap (year + 1)
    · rw [if_pos leap] at high
      interval_cases mp <;> norm_num [monthLength, leap] <;> omega
    · rw [if_neg leap] at high
      interval_cases mp <;> norm_num [monthLength, leap] <;> omega
  have turn : (if (if mp < 10 then mp + 3 else mp - 9) ≤ 2 then 1 else 0) = (if mp < 10 then 0 else (1 : Int)) := by
    split <;> omega
  unfold Date.Valid
  dsimp only
  rw [turn]
  refine ⟨?_,?_,?_,?_⟩
  · split <;> omega
  · split <;> omega
  · omega
  · omega

theorem civilBack (days : Int) : number (civilFromDays days) = days := by
  obtain ⟨year,doy,low,high,whole,same⟩ := civilParts days
  have bound : doy < 366 := by split at high <;> omega
  obtain ⟨mpLow,mpHigh,starts,ends⟩ := monthOfDay low bound
  rw [numberMarch, same]
  generalize (5 * doy + 2) / 153 = mp at *
  unfold marchYear marchMonth
  dsimp only
  interval_cases mp <;> norm_num <;> omega

/- From one day to the next the date moves by one. -/
theorem civilNext (days : Int) : civilFromDays (days + 1) = (civilFromDays days).next :=
  readNext numbersCivil (civilValid days) (civilValid (days + 1)) (by rw [civilBack, civilBack])

theorem civilForward {days later : Int} (ahead : days ≤ later) : ¬ (civilFromDays later).Before (civilFromDays days) :=
  readForward numbersCivil (civilValid days) (civilValid later) (by rwa [civilBack, civilBack])

theorem civilYear {days : Int} (nonneg : 0 ≤ days) : 0 ≤ (civilFromDays days).year := by
  obtain ⟨year,doy,low,high,whole,same⟩ := civilParts days
  have bound : doy < 366 := by split at high <;> omega
  have late : 0 ≤ year := by
    unfold yearStart at whole
    omega
  rw [same]
  dsimp only
  split <;> omega

end Months

section Texts

theorem paddedPlain (width : Nat) {v : Int} (nonneg : 0 ≤ v) :
    zeroPadded width v = List.replicate (width - (Nat.toDigits 10 v.toNat).length) '0' ++ Nat.toDigits 10 v.toNat := by
  have same : v.natAbs = v.toNat := by omega
  rw [zeroPadded, if_neg (by omega), same]
  rfl

theorem paddedDigits (width : Nat) {v : Int} (nonneg : 0 ≤ v) : ∀ c ∈ zeroPadded width v, c.isDigit = true := by
  intro c mem
  rw [paddedPlain width nonneg] at mem
  rcases List.mem_append.mp mem with zero | digit
  · rw [List.eq_of_mem_replicate zero]
    rfl
  · exact Nat.isDigit_of_mem_toDigits (by decide) (by decide) digit

theorem zerosRead (zeros : Nat) (digits : List Char) : Nat.ofDigitChars 10 (List.replicate zeros '0' ++ digits) 0 = Nat.ofDigitChars 10 digits 0 := by
  induction zeros with
  | zero => rfl
  | succ zeros ih => simpa [List.replicate_succ, Nat.ofDigitChars] using ih

theorem readPadded (width : Nat) {v : Int} (nonneg : 0 ≤ v) : readDigits (zeroPadded width v) = some v.toNat := by
  have digits := List.all_eq_true.mpr (paddedDigits width nonneg)
  have some' : (zeroPadded width v).isEmpty = false := by
    rw [paddedPlain width nonneg]
    simp [Nat.toDigits_ne_nil]
  rw [readDigits, digits, some', paddedPlain width nonneg, zerosRead, Nat.ofDigitChars_ten_toDigits]
  rfl

theorem paddedClean (width : Nat) {v : Int} (nonneg : 0 ≤ v) {sep : Char} (other : sep.isDigit = false) : sep ∉ zeroPadded width v := by
  intro mem
  rw [paddedDigits width nonneg sep mem] at other
  contradiction

/- The text shows the date of the instant's day. -/
theorem printedCivil {secs : Int} (nonneg : 0 ≤ secs) : printedDate (formatUtcYmdHm secs) = some (civilFromDays (secs / secsPerDay)) := by
  have clamped : max secs 0 = secs := max_eq_left nonneg
  have year := civilYear (Int.ediv_nonneg nonneg (by decide : 0 ≤ secsPerDay))
  unfold formatUtcYmdHm
  dsimp only
  rw [clamped]
  generalize civilFromDays (secs / secsPerDay) = date at *
  have whole : ((date.year.toNat : Nat) : Int) = date.year := Int.toNat_of_nonneg year
  simp only [printedDate, String.toList_ofList, List.append_assoc, List.cons_append, bind, Option.bind,
    SplitText.cutFirst (paddedClean 4 year (by decide : '-'.isDigit = false)),
    SplitText.cutFirst (paddedClean 2 (Int.natCast_nonneg date.month) (by decide : '-'.isDigit = false)),
    SplitText.cutFirst (paddedClean 2 (Int.natCast_nonneg date.day) (by decide : ' '.isDigit = false)),
    readPadded 4 year, readPadded 2 (Int.natCast_nonneg date.month), readPadded 2 (Int.natCast_nonneg date.day), whole, Int.toNat_natCast]

end Texts

/- Every instant from 1970 on is printed with a date of the calendar, the one that has its day's
   number, and an instant that comes later with no earlier one. -/
theorem printedDates {secs : Int} (nonneg : 0 ≤ secs) : ∃ date, printedDate (formatUtcYmdHm secs) = some date ∧ date.Valid ∧
    daysFromCivil date.year date.month date.day = secs / secsPerDay ∧
    ∀ later : Int, secs ≤ later → ∃ date', printedDate (formatUtcYmdHm later) = some date' ∧ ¬ date'.Before date := by
  refine ⟨civilFromDays (secs / secsPerDay),printedCivil nonneg,civilValid _,civilBack _,?_⟩
  intro later ahead
  exact ⟨civilFromDays (later / secsPerDay),printedCivil (nonneg.trans ahead),civilForward (Int.ediv_le_ediv (by decide) ahead)⟩

theorem printedLeapDay : ∃ date, printedDate (formatUtcYmdHm 951782400) = some date ∧ date.Valid ∧
    daysFromCivil date.year date.month date.day = 951782400 / secsPerDay ∧
    ∀ later : Int, 951782400 ≤ later → ∃ date', printedDate (formatUtcYmdHm later) = some date' ∧ ¬ date'.Before date :=
  printedDates (by decide)

end CadsTunnel.CivilDates
