import CadsTunnel.Words

/-! How a user agent reads a `Set-Cookie` line and what it sends back: the pair before the
first semicolon, the attributes between the others, white space around each left out. -/
namespace CadsTunnel.CookieRules
open Words

def semicolon : UInt8 := 59
def equals : UInt8 := 61

def blank (b : UInt8) : Bool := b = 32 || b = 9

def stripped (s : Bytes) : Bytes := (s.dropWhile blank).rdropWhile blank

def nameOf (s : Bytes) : Bytes := stripped (s.takeWhile (· ≠ equals))
def valueOf (s : Bytes) : Bytes := stripped ((s.dropWhile (· ≠ equals)).drop 1)

/- A part without an equals sign is a name. -/
def cookieAv (part : Bytes) : Bytes × Bytes := if part.contains equals then (nameOf part,valueOf part) else (stripped part,[])

structure Cookie where
  name : Bytes
  value : Bytes
  attributes : List (Bytes × Bytes)
  deriving DecidableEq, Repr

/- The line is ignored where the pair has no equals sign or no name. -/
def receive (line : Bytes) : Option Cookie :=
  match line.splitOn semicolon with
  | [] => none
  | pair :: rest =>
    if pair.contains equals && !(nameOf pair).isEmpty then some ⟨nameOf pair,valueOf pair,rest.map cookieAv⟩ else none

/- The `Cookie` header of some cookies, in their order. -/
def send (cookies : List (Bytes × Bytes)) : Bytes := [semicolon,32].intercalate (cookies.map (fun c => c.1 ++ equals :: c.2))

/- A pair as it may be stored. -/
structure Stored (c : Bytes × Bytes) : Prop where
  named : c.1 ≠ []
  bare : stripped c.1 = c.1
  name : equals ∉ c.1 ∧ semicolon ∉ c.1
  value : semicolon ∉ c.2

section Parts
variable {name value rest : Bytes}

theorem pairRead (clean : equals ∉ name) : nameOf (name ++ equals :: value) = stripped name ∧ valueOf (name ++ equals :: value) = stripped value := by
  have other : ∀ b ∈ name, decide (b ≠ equals) = true := by
    intro b mem
    refine decide_eq_true ?_
    rintro rfl
    exact clean mem
  constructor
  · rw [nameOf, List.takeWhile_append_of_pos other, List.takeWhile_cons_of_neg (by simp), List.append_nil]
  · rw [valueOf, List.dropWhile_append_of_pos other, List.dropWhile_cons_of_neg (by simp), List.drop_one, List.tail_cons]

theorem received (clean : equals ∉ name ∧ semicolon ∉ name) (named : stripped name ≠ []) (single : semicolon ∉ value) :
    receive (name ++ equals :: (value ++ semicolon :: rest)) = some ⟨stripped name,stripped value,(rest.splitOn semicolon).map cookieAv⟩ := by
  have pair : semicolon ∉ name ++ equals :: value := by
    intro mem
    obtain inside | sign | inside := (List.mem_append.mp mem).imp_right List.mem_cons.mp
    · exact clean.2 inside
    · exact absurd sign (by decide)
    · exact single inside
  have parts : (name ++ equals :: (value ++ semicolon :: rest)).splitOn semicolon = (name ++ equals :: value) :: rest.splitOn semicolon := by
    rw [← List.cons_append, ← List.append_assoc, List.splitOn_append_cons_self_of_not_mem pair]
  obtain ⟨first,second⟩ := @pairRead _ value clean.1
  rw [receive, parts]
  dsimp only
  rw [first, second, if_pos (by simpa using named)]

theorem strippedLength (s : Bytes) : (stripped s).length ≤ s.length :=
  (List.rdropWhile_prefix _ _).length_le.trans (List.dropWhile_suffix _).length_le

theorem strippedSame {s : Bytes} (first : ∀ b, s.head? = some b → blank b = false) (last : ∀ b, s.getLast? = some b → blank b = false) : stripped s = s := by
  have front : s.dropWhile blank = s := by
    refine List.dropWhile_eq_self_iff.mpr (fun some' => ?_)
    simp [first s[0] (by rw [List.head?_eq_getElem?, List.getElem?_eq_getElem some'])]
  rw [stripped, front, List.rdropWhile_eq_self_iff]
  intro some'
  simp [last _ (List.getLast?_eq_some_getLast some')]

theorem strippedFirst {s : Bytes} (same : stripped s = s) {b : UInt8} (first : s.head? = some b) : blank b = false := by
  have lengths : s.length ≤ (s.dropWhile blank).length := by
    conv_lhs => rw [← same]
    exact (List.rdropWhile_prefix _ _).length_le
  have front : s.dropWhile blank = s := (List.dropWhile_suffix blank).eq_of_length_le lengths
  rw [List.head?_eq_getElem?] at first
  obtain ⟨some',rfl⟩ := List.getElem?_eq_some_iff.mp first
  simpa using List.dropWhile_eq_self_iff.mp front some'

/- A semicolon in the value ends it. -/
theorem receivedShorter (clean : equals ∉ name ∧ semicolon ∉ name) (named : stripped name ≠ []) (mem : semicolon ∈ value) :
    ∃ cookie, receive (name ++ equals :: (value ++ semicolon :: rest)) = some cookie ∧ cookie.value.length < value.length := by
  obtain ⟨front,back,rfl,single⟩ := List.eq_append_cons_of_mem mem
  have whole : front ++ semicolon :: back ++ semicolon :: rest = front ++ semicolon :: (back ++ semicolon :: rest) := by simp
  rw [whole, received clean named single]
  refine ⟨_,rfl,?_⟩
  have short := strippedLength front
  rw [List.length_append, List.length_cons]
  dsimp only
  omega

end Parts

theorem sendNext (c d : Bytes × Bytes) (more : List (Bytes × Bytes)) :
    send (c :: d :: more) = (c.1 ++ equals :: c.2) ++ semicolon :: 32 :: send (d :: more) := by
  rw [send, List.map_cons, List.map_cons, List.intercalate_cons_cons, List.append_assoc]
  rfl

/- A byte of the header is of a cookie, or stands between. -/
theorem sendMem {cookies : List (Bytes × Bytes)} {b : UInt8} (mem : b ∈ send cookies) :
    b = semicolon ∨ b = 32 ∨ b = equals ∨ ∃ c ∈ cookies, b ∈ c.1 ∨ b ∈ c.2 := by
  induction cookies with
  | nil => simp [send] at mem
  | cons c rest ih =>
    have own : b ∈ c.1 ++ equals :: c.2 → b = semicolon ∨ b = 32 ∨ b = equals ∨ ∃ d ∈ c :: rest, b ∈ d.1 ∨ b ∈ d.2 := by
      intro inside
      obtain inside | rfl | inside := (List.mem_append.mp inside).imp_right List.mem_cons.mp
      · exact .inr (.inr (.inr ⟨c,List.mem_cons_self,.inl inside⟩))
      · exact .inr (.inr (.inl rfl))
      · exact .inr (.inr (.inr ⟨c,List.mem_cons_self,.inr inside⟩))
    cases rest with
    | nil => exact own (by simpa [send] using mem)
    | cons d more =>
      rw [sendNext] at mem
      obtain here | rfl | mem := (List.mem_append.mp mem).imp_right List.mem_cons.mp
      · exact own here
      · exact .inl rfl
      · obtain rfl | mem := List.mem_cons.mp mem
        · exact .inr (.inl rfl)
        · obtain sep | space | sign | ⟨e,inside,there⟩ := ih mem
          · exact .inl sep
          · exact .inr (.inl space)
          · exact .inr (.inr (.inl sign))
          · exact .inr (.inr (.inr ⟨e,List.mem_cons_of_mem _ inside,there⟩))

/- What is in a cookie is in the header. -/
theorem memSend {cookies : List (Bytes × Bytes)} {c : Bytes × Bytes} (inside : c ∈ cookies) {b : UInt8} (mem : b ∈ c.2) : b ∈ send cookies := by
  induction cookies with
  | nil => contradiction
  | cons first rest ih =>
    cases rest with
    | nil =>
      cases List.mem_singleton.mp inside
      simp [send, mem]
    | cons d more =>
      rw [sendNext]
      obtain rfl | deeper := List.mem_cons.mp inside
      · exact List.mem_append_left _ (List.mem_append_right _ (List.mem_cons_of_mem _ mem))
      · exact List.mem_append_right _ (List.mem_cons_of_mem _ (List.mem_cons_of_mem _ (ih deeper)))

end CadsTunnel.CookieRules
