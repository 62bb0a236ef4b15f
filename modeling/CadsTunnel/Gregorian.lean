import Mathlib.Tactic

/-! The Gregorian calendar, carried back and forth to every year: which dates there are, which
one comes after which, and what a numbering of the days has to do. -/
namespace CadsTunnel.Gregorian

structure Date where
  year : Int
  month : Nat
  day : Nat
  deriving DecidableEq, Repr

def IsLeap (year : Int) : Prop := (4 ∣ year ∧ ¬ 100 ∣ year) ∨ 400 ∣ year
instance (year) : Decidable (IsLeap year) := by unfold IsLeap; infer_instance

def monthLength (year : Int) (month : Nat) : Nat :=
  if month = 2 then (if IsLeap year then 29 else 28)
  else if month = 4 ∨ month = 6 ∨ month = 9 ∨ month = 11 then 30 else 31

def Date.Valid (d : Date) : Prop := 1 ≤ d.month ∧ d.month ≤ 12 ∧ 1 ≤ d.day ∧ d.day ≤ monthLength d.year d.month
instance (d) : Decidable (Date.Valid d) := by unfold Date.Valid; infer_instance

def Date.Before (a b : Date) : Prop := a.year < b.year ∨ (a.year = b.year ∧ (a.month < b.month ∨ (a.month = b.month ∧ a.day < b.day)))
instance (a b) : Decidable (Date.Before a b) := by unfold Date.Before; infer_instance

def Date.next (d : Date) : Date :=
  if d.day < monthLength d.year d.month then ⟨d.year,d.month,d.day + 1⟩
  else if d.month < 12 then ⟨d.year,d.month + 1,1⟩
  else ⟨d.year + 1,1,1⟩

section Calendar
variable {a b d : Date}

theorem monthLengthBounds (year : Int) (month : Nat) : 28 ≤ monthLength year month ∧ monthLength year month ≤ 31 := by
  unfold monthLength
  split
  · split <;> omega
  · split <;> omega

theorem nextValid (valid : d.Valid) : d.next.Valid := by
  obtain ⟨low,high,first,last⟩ := valid
  have starts : ∀ year month, 1 ≤ monthLength year month := fun year month => by
    have bounds := monthLengthBounds year month
    omega
  unfold Date.next
  split
  case isTrue inside => exact ⟨low,high,Nat.le_add_left 1 d.day,inside⟩
  case isFalse =>
    split
    case isTrue earlier => exact ⟨Nat.le_add_left 1 d.month,earlier,le_refl 1,starts _ _⟩
    case isFalse => exact ⟨le_refl 1,Nat.le_add_left 1 11,le_refl 1,starts _ _⟩

/- No date of the calendar stands between a date and the next one. -/
theorem nextFirst (validA : a.Valid) (validB : b.Valid) (before : a.Before b) : a.next = b ∨ a.next.Before b := by
  obtain ⟨lowA,highA,firstA,lastA⟩ := validA
  obtain ⟨lowB,highB,firstB,lastB⟩ := validB
  obtain ⟨yearA,monthA,dayA⟩ := a
  obtain ⟨yearB,monthB,dayB⟩ := b
  unfold Date.Before at before
  dsimp only at *
  unfold Date.next
  dsimp only
  split
  case isTrue inside =>
    simp only [Date.mk.injEq, Date.Before]
    omega
  case isFalse whole =>
    have apart : ¬ (yearA = yearB ∧ monthA = monthB) := by
      rintro ⟨rfl,rfl⟩
      omega
    split
    · simp only [Date.mk.injEq, Date.Before]
      omega
    · simp only [Date.mk.injEq, Date.Before]
      omega

/- How far a date is behind another, if every month had 31 days. -/
def gap (a b : Date) : Int := (b.year - a.year) * 372 + ((b.month : Int) - a.month) * 31 + ((b.day : Int) - a.day)

theorem gapShrinks (valid : a.Valid) : gap a.next b < gap a b := by
  obtain ⟨low,high,first,last⟩ := valid
  have bound := (monthLengthBounds a.year a.month).2
  unfold Date.next
  split
  · unfold gap
    dsimp only
    omega
  · split
    · unfold gap
      dsimp only
      omega
    · unfold gap
      dsimp only
      omega

theorem gapPositive (validA : a.Valid) (validB : b.Valid) (before : a.Before b) : 0 < gap a b := by
  obtain ⟨lowA,highA,firstA,lastA⟩ := validA
  obtain ⟨lowB,highB,firstB,lastB⟩ := validB
  have bound := (monthLengthBounds a.year a.month).2
  unfold Date.Before at before
  unfold gap
  omega

/- A numbering of the days counts one for each date. -/
def Numbers (number : Date → Int) : Prop := ∀ d : Date, d.Valid → number d.next = number d + 1

variable {number : Date → Int}

/- The induction is on the gap, which the next date makes smaller. -/
theorem numberWithin (numbers : Numbers number) (validB : b.Valid) (n : Nat) :
    ∀ a : Date, a.Valid → a.Before b → gap a b ≤ n → number a < number b := by
  induction n with
  | zero =>
    intro a validA before small
    have positive := gapPositive validA validB before
    omega
  | succ n ih =>
    intro a validA before small
    have step := numbers a validA
    rcases nextFirst validA validB before with rfl | still
    · omega
    · have shrinks := @gapShrinks a b validA
      have rest := ih a.next (nextValid validA) still (by omega)
      omega

theorem numberBefore (numbers : Numbers number) (validA : a.Valid) (validB : b.Valid) (before : a.Before b) : number a < number b :=
  numberWithin numbers validB (gap a b).toNat a validA before (Int.self_le_toNat _)

theorem beforeTotal (other : a ≠ b) : a.Before b ∨ b.Before a := by
  have differ : ¬ (a.year = b.year ∧ a.month = b.month ∧ a.day = b.day) := by
    rintro ⟨year,month,day⟩
    exact other (by cases a; cases b; simp_all)
  unfold Date.Before
  omega

theorem numberInjective (numbers : Numbers number) (validA : a.Valid) (validB : b.Valid) (same : number a = number b) : a = b := by
  by_contra other
  rcases beforeTotal other with before | before
  · exact absurd same (numberBefore numbers validA validB before).ne
  · exact absurd same (numberBefore numbers validB validA before).ne'

/- What reads a date off a number can never go back. -/
theorem readForward (numbers : Numbers number) (validA : a.Valid) (validB : b.Valid) (ahead : number a ≤ number b) : ¬ b.Before a := by
  intro before
  exact absurd ahead (numberBefore numbers validB validA before).not_ge

theorem readNext (numbers : Numbers number) (validA : a.Valid) (validB : b.Valid) (step : number b = number a + 1) : b = a.next :=
  numberInjective numbers validB (nextValid validA) (step.trans (numbers a validA).symm)

end Calendar
end CadsTunnel.Gregorian
