import CadsTunnel.Words

/-! Self-delimiting encoders. `Delimits good encode` says that the codeword of an
admissible value can be cut off the front of any continuation in one way only;
it is closed under pairing, counted repetition and tagged choice, so a record
encoder is injective when each of its fields is. -/
namespace CadsTunnel.Delimited
open Words (Bytes le leLength readLE readLeBounded u64LE readU64LE)

section General
variable {α β γ : Type}

def Delimits (good : α → Prop) (encode : α → List β) : Prop :=
  ∀ ⦃a b⦄, good a → good b → ∀ ⦃r s⦄, encode a ++ r = encode b ++ s → a = b ∧ r = s

theorem Delimits.injective {good : α → Prop} {encode : α → List β} (h : Delimits good encode)
    {a b} (left : good a) (right : good b) (same : encode a = encode b) : a = b :=
  (h left right (r := []) (s := []) (by simpa using same)).1

theorem ofFixedWidth {good : α → Prop} {encode : α → List β} (width : Nat)
    (length : ∀ a, (encode a).length = width)
    (injective : ∀ a b, good a → good b → encode a = encode b → a = b) : Delimits good encode := by
  intro a b left right r s same
  obtain ⟨heads,tails⟩ := List.append_inj same ((length a).trans (length b).symm)
  exact ⟨injective a b left right heads,tails⟩

theorem Delimits.mono {good better : α → Prop} {encode : α → List β} (h : Delimits good encode)
    (weaker : ∀ a, better a → good a) : Delimits better encode :=
  fun a b left right _ _ same => h (weaker a left) (weaker b right) same

/- Two fields written one after the other. -/
def both (encode : α → List γ) (next : β → List γ) (p : α × β) : List γ := encode p.1 ++ next p.2

theorem Delimits.both {first : α → Prop} {second : β → Prop} {encode : α → List γ} {next : β → List γ}
    (h : Delimits first encode) (g : Delimits second next) :
    Delimits (fun p : α × β => first p.1 ∧ second p.2) (Delimited.both encode next) := by
  intro v w left right r s same
  obtain ⟨a,x⟩ := v
  obtain ⟨b,y⟩ := w
  simp only [Delimited.both, List.append_assoc] at same
  obtain ⟨rfl,rest⟩ := h left.1 right.1 same
  obtain ⟨rfl,tails⟩ := g left.2 right.2 rest
  exact ⟨rfl,tails⟩

/- A field behind a byte that says whether it is there. -/
def marked (encode : α → Bytes) : Option α → Bytes
  | none => [0]
  | some a => 1 :: encode a

theorem Delimits.marked {good : α → Prop} {encode : α → Bytes} (h : Delimits good encode) :
    Delimits (fun o => ∀ a ∈ o, good a) (Delimited.marked encode) := by
  intro a b left right r s same
  cases a with
  | none =>
    cases b with
    | none => exact ⟨rfl,by simpa [Delimited.marked] using same⟩
    | some y => simp [Delimited.marked] at same
  | some x =>
    cases b with
    | none => simp [Delimited.marked] at same
    | some y =>
      simp only [Delimited.marked, List.cons_append, List.cons.injEq, true_and] at same
      obtain ⟨rfl,tails⟩ := h (left x rfl) (right y rfl) same
      exact ⟨rfl,tails⟩

theorem Delimits.comap {good : α → Prop} {encode : α → List γ} (h : Delimits good encode) (f : β → α)
    (injective : Function.Injective f) : Delimits (fun b => good (f b)) (fun b => encode (f b)) := by
  intro a b left right r s same
  obtain ⟨values,tails⟩ := h left right same
  exact ⟨injective values,tails⟩

/- Without a count in front, two repetitions are only comparable at equal length. -/
theorem Delimits.repeated {good : α → Prop} {encode : α → List β} (h : Delimits good encode)
    {xs ys : List α} (left : ∀ x ∈ xs, good x) (right : ∀ y ∈ ys, good y) (length : xs.length = ys.length)
    {r s} (same : xs.flatMap encode ++ r = ys.flatMap encode ++ s) : xs = ys ∧ r = s := by
  induction xs generalizing ys with
  | nil =>
    have empty : ys = [] := List.length_eq_zero_iff.mp length.symm
    subst ys
    exact ⟨rfl,by simpa using same⟩
  | cons x xs ih =>
    cases ys with
    | nil => simp at length
    | cons y ys =>
      simp only [List.flatMap_cons, List.append_assoc] at same
      obtain ⟨rfl,rest⟩ := h (left x List.mem_cons_self) (right y List.mem_cons_self) same
      obtain ⟨rfl,tails⟩ := ih (fun a ha => left a (List.mem_cons_of_mem _ ha))
        (fun a ha => right a (List.mem_cons_of_mem _ ha)) (by simpa using length) rest
      exact ⟨rfl,tails⟩

/- A closing symbol that starts no codeword ends a repetition without a count. -/
theorem Delimits.closed {good : α → Prop} {encode : α → List β} (h : Delimits good encode) {close : β}
    (opens : ∀ a, good a → ∃ b rest, encode a = b :: rest ∧ b ≠ close) {xs ys : List α} (left : ∀ x ∈ xs, good x)
    (right : ∀ y ∈ ys, good y) {r s} (same : xs.flatMap encode ++ close :: r = ys.flatMap encode ++ close :: s) :
    xs = ys ∧ r = s := by
  have apart {a : α} (admissible : good a) {t u : List β} : encode a ++ t ≠ close :: u := by
    obtain ⟨b,rest,starts,differs⟩ := opens a admissible
    simp [starts, differs]
  induction xs generalizing ys with
  | nil =>
    cases ys with
    | nil => exact ⟨rfl,by simpa using same⟩
    | cons y ys =>
      simp only [List.flatMap_cons, List.append_assoc] at same
      exact absurd same.symm (apart (right y List.mem_cons_self))
  | cons x xs ih =>
    cases ys with
    | nil =>
      simp only [List.flatMap_cons, List.append_assoc] at same
      exact absurd same (apart (left x List.mem_cons_self))
    | cons y ys =>
      simp only [List.flatMap_cons, List.append_assoc] at same
      obtain ⟨rfl,rest⟩ := h (left x List.mem_cons_self) (right y List.mem_cons_self) same
      obtain ⟨rfl,tails⟩ := ih (fun a mem => left a (List.mem_cons_of_mem _ mem))
        (fun a mem => right a (List.mem_cons_of_mem _ mem)) rest
      exact ⟨rfl,tails⟩

/- The continuation does not begin with a symbol of the class. -/
def Stops (inside : β → Prop) (rest : List β) : Prop := ∀ b ∈ rest.head?, ¬inside b

/- A word over a class of symbols ends where the class does. -/
theorem wordEnds {inside : β → Prop} {xs ys : List β} (left : ∀ x ∈ xs, inside x) (right : ∀ y ∈ ys, inside y)
    {r s} (stopR : Stops inside r) (stopS : Stops inside s) (same : xs ++ r = ys ++ s) : xs = ys ∧ r = s := by
  induction xs generalizing ys with
  | nil =>
    cases ys with
    | nil => exact ⟨rfl,same⟩
    | cons y ys =>
      rw [List.nil_append] at same
      exact absurd (right y List.mem_cons_self) (stopR y (by simp [same]))
  | cons x xs ih =>
    cases ys with
    | nil =>
      rw [List.nil_append] at same
      exact absurd (left x List.mem_cons_self) (stopS x (by simp [← same]))
    | cons y ys =>
      obtain ⟨rfl,rest⟩ := List.cons.inj same
      obtain ⟨rfl,tails⟩ := ih (fun a mem => left a (List.mem_cons_of_mem _ mem))
        (fun a mem => right a (List.mem_cons_of_mem _ mem)) rest
      exact ⟨rfl,tails⟩

end General

def Everything {α : Type} (_ : α) : Prop := True

theorem leDelimits (width : Nat) : Delimits (fun v => v < 256 ^ width) (le width) := by
  refine ofFixedWidth width (leLength width) ?_
  intro a b left right same
  have reads := congrArg readLE same
  rwa [readLeBounded left, readLeBounded right] at reads

theorem u64Delimits : Delimits Everything u64LE := by
  refine ofFixedWidth 8 (fun _ => leLength 8 _) ?_
  intro a b _ _ same
  rw [← readU64LE a, same, readU64LE]

theorem arrayDelimits (n : Nat) : Delimits Everything (fun v : Vector UInt8 n => v.toList) := by
  refine ofFixedWidth n (fun v => v.length_toList) ?_
  intro a b _ _ same
  exact Vector.toList_inj.mp same

theorem byteDelimits {α : Type} {tag : α → UInt8} (injective : Function.Injective tag) :
    Delimits Everything (fun a => [tag a]) := by
  refine ofFixedWidth 1 (fun _ => rfl) ?_
  intro a b _ _ same
  exact injective (by simpa using same)

/- A count of `width` bytes in front makes a repetition self-delimiting, as long
as the length fits the count. -/
theorem countedDelimits {α : Type} (width : Nat) {good : α → Prop} {encode : α → Bytes}
    (h : Delimits good encode) :
    Delimits (fun xs : List α => xs.length < 256 ^ width ∧ ∀ x ∈ xs, good x)
      (fun xs => le width xs.length ++ xs.flatMap encode) := by
  intro xs ys left right r s same
  simp only [List.append_assoc] at same
  obtain ⟨length,rest⟩ := leDelimits width left.1 right.1 same
  exact h.repeated left.2 right.2 length rest

theorem prefixedDelimits (width : Nat) :
    Delimits (fun raw : Bytes => raw.length < 256 ^ width) (fun raw => le width raw.length ++ raw) := by
  intro a b left right r s same
  simp only [List.append_assoc] at same
  obtain ⟨length,rest⟩ := leDelimits width left right same
  exact List.append_inj rest length

end CadsTunnel.Delimited
