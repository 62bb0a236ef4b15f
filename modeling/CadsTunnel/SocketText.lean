import CadsTunnel.Words

/-! Socket addresses and their text, as the standard library reads and writes it. A reader
that fails leaves the text where it was; the whole text has to be read. -/
namespace CadsTunnel.Edge
open Words

inductive IpAddr where
  | v4 (octets : Vector UInt8 4)
  | v6 (segments : Vector UInt16 8)
  deriving DecidableEq, Repr

/- The scope belongs to the sixth version and is zero in the fourth. -/
structure SocketAddr where
  ip : IpAddr
  port : UInt16
  scopeId : UInt32
  deriving DecidableEq, Repr

namespace SocketText

abbrev Reader (α : Type) := StateT (List Char) Option α

/- `read_atomically`: the text is consumed only by a success. -/
def attempt {α : Type} (x : Reader α) : Reader (Option α) := fun text =>
  match x text with
  | some (a,rest) => some (some a,rest)
  | none => some (none,text)

def readGivenChar (given : Char) : Reader Unit := fun text =>
  match text with
  | c :: rest => if c = given then some ((),rest) else none
  | [] => none

def toDigit (radix : Nat) (c : Char) : Option Nat :=
  let digit :=
    if '0' ≤ c ∧ c ≤ '9' then c.toNat - '0'.toNat
    else if 'a' ≤ c ∧ c ≤ 'z' then c.toNat - 'a'.toNat + 10
    else if 'A' ≤ c ∧ c ≤ 'Z' then c.toNat - 'A'.toNat + 10
    else radix
  if digit < radix then some digit else none

/- `bound` is the size of the number's type. Digits beyond `maxDigits` are an error, not the next token. -/
def readNumber (radix bound : Nat) (maxDigits : Option Nat) (allowZeroPrefix : Bool) : Reader Nat := fun text =>
  let digits := (text.takeWhile (fun c => (toDigit radix c).isSome)).filterMap (toDigit radix)
  let value := digits.foldl (fun acc digit => acc * radix + digit) 0
  if digits.isEmpty then none
  else if maxDigits.any (· < digits.length) then none
  else if !allowZeroPrefix && digits.head? = some 0 && 1 < digits.length then none
  else if value < bound then some (value,text.drop digits.length)
  else none

def readSeparator {α : Type} (sep : Char) (index : Nat) (inner : Reader α) : Reader α := do
  if 0 < index then readGivenChar sep
  inner

def readIpv4Addr : Reader (Vector UInt8 4) := do
  let a ← readSeparator '.' 0 (readNumber 10 256 (some 3) false)
  let b ← readSeparator '.' 1 (readNumber 10 256 (some 3) false)
  let c ← readSeparator '.' 2 (readNumber 10 256 (some 3) false)
  let d ← readSeparator '.' 3 (readNumber 10 256 (some 3) false)
  pure #v[.ofNat a,.ofNat b,.ofNat c,.ofNat d]

/- Up to `left` more groups from position `i` on, and whether they end in an embedded address of the fourth version, which
takes the place of two. -/
def readGroups : (left i : Nat) → Reader (List UInt16 × Bool)
  | 0, _ => pure ([],false)
  | left + 1, i => do
    let embedded ← if 0 < left then attempt (readSeparator ':' i readIpv4Addr) else pure none
    match embedded with
    | some octets => pure ([.ofNat (readBE [octets.get 0,octets.get 1]),.ofNat (readBE [octets.get 2,octets.get 3])],true)
    | none =>
      match ← attempt (readSeparator ':' i (readNumber 16 65536 (some 4) true)) with
      | none => pure ([],false)
      | some group =>
        let (groups,ipv4) ← readGroups left (i + 1)
        pure (.ofNat group :: groups,ipv4)

def readIpv6Addr : Reader (Vector UInt16 8) := do
  let (head,headIpv4) ← readGroups 8 0
  if head.length = 8 then return .ofFn (fun i => head.getD i 0)
  if headIpv4 then failure
  readGivenChar ':'
  readGivenChar ':'
  let (tail,_) ← readGroups (8 - (head.length + 1)) 0
  let segments := head ++ .replicate (8 - head.length - tail.length) 0 ++ tail
  return .ofFn (fun i => segments.getD i 0)

def readPort : Reader Nat := do
  readGivenChar ':'
  readNumber 10 65536 none true

def readScopeId : Reader Nat := do
  readGivenChar '%'
  readNumber 10 (2 ^ 32) none true

def readSocketAddrV4 : Reader SocketAddr := do
  let ip ← readIpv4Addr
  let port ← readPort
  pure ⟨.v4 ip,.ofNat port,0⟩

def readSocketAddrV6 : Reader SocketAddr := do
  readGivenChar '['
  let ip ← readIpv6Addr
  let scopeId ← attempt readScopeId
  readGivenChar ']'
  let port ← readPort
  pure ⟨.v6 ip,.ofNat port,.ofNat (scopeId.getD 0)⟩

def readSocketAddr : Reader SocketAddr := do
  match ← attempt readSocketAddrV4 with
  | some addr => pure addr
  | none => readSocketAddrV6

/- `str::parse`. -/
def parse (text : String) : Option SocketAddr :=
  match readSocketAddr text.toList with
  | some (addr,[]) => some addr
  | _ => none

def ipv4Text (octets : Vector UInt8 4) : String := ".".intercalate (octets.toList.map (fun b => toString b.toNat))

def hexText (segments : List UInt16) : String :=
  ":".intercalate (segments.map (fun segment => .ofList (Nat.toDigits 16 segment.toNat)))

/- The start and the length of the first longest run of zero segments. -/
def longestZeros (segments : List UInt16) : Nat × Nat :=
  let (longest,_) := segments.zipIdx.foldl (fun acc (segment,i) =>
    let (longest,current) := acc
    if segment = 0 then
      let current : Nat × Nat := if current.2 = 0 then (i,1) else (current.1,current.2 + 1)
      (if longest.2 < current.2 then current else longest,current)
    else (longest,(0,0))) ((0,0),(0,0))
  longest

def ipv6Text (segments : Vector UInt16 8) : String :=
  let all := segments.toList
  if all.take 6 = [0,0,0,0,0,0xffff] then
    let octets := (all.drop 6).flatMap (fun segment => be 2 segment.toNat)
    "::ffff:" ++ ".".intercalate (octets.map (fun b => toString b.toNat))
  else
    let (start,len) := longestZeros all
    if 1 < len then hexText (all.take start) ++ "::" ++ hexText (all.drop (start + len)) else hexText all

/- `to_string`. -/
def toText (addr : SocketAddr) : String :=
  match addr.ip with
  | .v4 octets => ipv4Text octets ++ ":" ++ toString addr.port.toNat
  | .v6 segments =>
    let scope := if addr.scopeId = 0 then "" else "%" ++ toString addr.scopeId.toNat
    "[" ++ ipv6Text segments ++ scope ++ "]:" ++ toString addr.port.toNat

/- The characters an address is written with. -/
def addressChar (c : Char) : Bool := c.isAlphanum || c == '.' || c == ':' || c == '[' || c == ']' || c == '%'

/- What a reader takes off the front of a text. -/
def Takes {α : Type} (x : Reader α) : Prop :=
  ∀ text a rest, x text = some (a,rest) → ∃ used, text = used ++ rest ∧ ∀ c ∈ used, addressChar c = true

section Takes
variable {α β : Type}

theorem takesPure (a : α) : Takes (pure a) := by
  intro text a' rest read
  cases Option.some.inj read
  exact ⟨[],rfl,fun _ absent => absurd absent List.not_mem_nil⟩

theorem takesFailure : Takes (failure : Reader α) := by
  intro text a rest read
  exact absurd read (Option.some_ne_none _).symm

theorem takesBind {x : Reader α} {f : α → Reader β} (first : Takes x) (next : ∀ a, Takes (f a)) : Takes (x >>= f) := by
  intro text b rest read
  obtain ⟨⟨a,middle⟩,one,two⟩ := Option.bind_eq_some_iff.mp read
  obtain ⟨used,rfl,plain⟩ := first text a middle one
  obtain ⟨more,rfl,later⟩ := next a middle b rest two
  refine ⟨used ++ more,(List.append_assoc used more rest).symm,?_⟩
  intro c mem
  exact (List.mem_append.mp mem).elim (plain c) (later c)

theorem takesAttempt {x : Reader α} (inner : Takes x) : Takes (attempt x) := by
  intro text a rest read
  unfold attempt at read
  split at read
  case h_1 a' rest' success =>
    cases Option.some.inj read
    exact inner text a' rest success
  case h_2 =>
    cases Option.some.inj read
    exact ⟨[],rfl,fun _ absent => absurd absent List.not_mem_nil⟩

theorem takesGivenChar {given : Char} (plain : addressChar given = true) : Takes (readGivenChar given) := by
  intro text a rest read
  unfold readGivenChar at read
  cases text with
  | nil => exact absurd read (Option.some_ne_none _).symm
  | cons c text =>
    by_cases same : c = given
    · simp only [same, if_true, Option.some.injEq, Prod.mk.injEq] at read
      refine ⟨[c],by simp [read.2],?_⟩
      intro c' mem
      rw [List.mem_singleton.mp mem, same, plain]
    · simp [same] at read

theorem digitPlain {radix : Nat} {c : Char} (digit : (toDigit radix c).isSome) : addressChar c = true := by
  have letter : c.isAlphanum = true := by
    simp only [Char.isAlphanum, Char.isAlpha, Char.isUpper, Char.isLower, Char.isDigit, Bool.or_eq_true, Bool.and_eq_true,
      decide_eq_true_eq]
    unfold toDigit at digit
    by_cases decimal : '0' ≤ c ∧ c ≤ '9'
    · exact .inr decimal
    · by_cases lower : 'a' ≤ c ∧ c ≤ 'z'
      · exact .inl (.inr lower)
      · by_cases upper : 'A' ≤ c ∧ c ≤ 'Z'
        · exact .inl (.inl upper)
        · simp [decimal, lower, upper] at digit
  simp [addressChar, letter]

theorem takesNumber (radix bound : Nat) (maxDigits : Option Nat) (allowZeroPrefix : Bool) :
    Takes (readNumber radix bound maxDigits allowZeroPrefix) := by
  intro text n rest read
  have digits : ∀ c ∈ text.takeWhile (fun c => (toDigit radix c).isSome), (toDigit radix c).isSome :=
    fun c mem => List.mem_takeWhile_imp (p := fun c => (toDigit radix c).isSome) mem
  have count : ((text.takeWhile (fun c => (toDigit radix c).isSome)).filterMap (toDigit radix)).length =
      (text.takeWhile (fun c => (toDigit radix c).isSome)).length := by
    rw [List.length_filterMap_eq_countP, List.countP_eq_length]
    exact digits
  have parts : text.takeWhile (fun c => (toDigit radix c).isSome) ++ text.dropWhile (fun c => (toDigit radix c).isSome) = text :=
    List.takeWhile_append_dropWhile
  refine ⟨text.takeWhile (fun c => (toDigit radix c).isSome),?_,fun c mem => digitPlain (digits c mem)⟩
  unfold readNumber at read
  simp only [count] at read
  iterate 3 split at read <;> try contradiction
  split at read <;> try contradiction
  simp only [Option.some.injEq, Prod.mk.injEq] at read
  rw [← read.2]
  generalize text.takeWhile (fun c => (toDigit radix c).isSome) = run at parts ⊢
  rw [← parts, List.drop_left]

theorem takesSeparator {sep : Char} {index : Nat} {x : Reader α} (plain : addressChar sep = true) (inner : Takes x) :
    Takes (readSeparator sep index x) := by
  unfold readSeparator
  split
  · exact takesBind (takesGivenChar plain) fun _ => inner
  · exact inner

theorem takesIpv4 : Takes readIpv4Addr := by
  have part : ∀ index, Takes (readSeparator '.' index (readNumber 10 256 (some 3) false)) :=
    fun index => takesSeparator (by decide) (takesNumber 10 256 (some 3) false)
  exact takesBind (part 0) fun _ => takesBind (part 1) fun _ => takesBind (part 2) fun _ => takesBind (part 3) fun _ => takesPure _

theorem takesGroups (left i : Nat) : Takes (readGroups left i) := by
  induction left generalizing i with
  | zero => exact takesPure _
  | succ left ih =>
    have group : Takes (readSeparator ':' i (readNumber 16 65536 (some 4) true)) :=
      takesSeparator (by decide) (takesNumber 16 65536 (some 4) true)
    have other : Takes (do
        match ← attempt (readSeparator ':' i (readNumber 16 65536 (some 4) true)) with
        | none => pure ([],false)
        | some group =>
          let (groups,ipv4) ← readGroups left (i + 1)
          pure (.ofNat group :: groups,ipv4)) := by
      refine takesBind (takesAttempt group) ?_
      intro found
      cases found with
      | none => exact takesPure _
      | some group => exact takesBind (ih (i + 1)) fun _ => takesPure _
    unfold readGroups
    simp only
    split
    · refine takesBind (takesAttempt (takesSeparator (by decide) takesIpv4)) ?_
      intro embedded
      cases embedded with
      | some octets => exact takesPure _
      | none => exact other
    · exact other

theorem takesIpv6 : Takes readIpv6Addr := by
  have colon : Takes (readGivenChar ':') := takesGivenChar (by decide)
  refine takesBind (takesGroups 8 0) ?_
  intro head
  simp only
  split
  · exact takesPure _
  · split
    · exact takesFailure
    · exact takesBind colon fun _ => takesBind colon fun _ => takesBind (takesGroups _ 0) fun _ => takesPure _

theorem takesPort : Takes readPort := takesBind (takesGivenChar (by decide)) fun _ => takesNumber 10 65536 none true

theorem takesAddr : Takes readSocketAddr := by
  have fourth : Takes readSocketAddrV4 := takesBind takesIpv4 fun _ => takesBind takesPort fun _ => takesPure _
  have scope : Takes readScopeId := takesBind (takesGivenChar (by decide)) fun _ => takesNumber 10 (2 ^ 32) none true
  have sixth : Takes readSocketAddrV6 :=
    takesBind (takesGivenChar (by decide)) fun _ => takesBind takesIpv6 fun _ => takesBind (takesAttempt scope) fun _ =>
      takesBind (takesGivenChar (by decide)) fun _ => takesBind takesPort fun _ => takesPure _
  refine takesBind (takesAttempt fourth) ?_
  intro found
  cases found with
  | some addr => exact takesPure addr
  | none => exact sixth

/- Only such characters are in a text that is read as an address. -/
theorem parsePlain {text : String} {addr : SocketAddr} (read : parse text = some addr) {c : Char} (mem : c ∈ text.toList) :
    addressChar c = true := by
  unfold parse at read
  split at read <;> try contradiction
  rename_i addr' taken
  obtain ⟨used,same,plain⟩ := takesAddr text.toList addr' [] taken
  rw [List.append_nil] at same
  exact plain c (same ▸ mem)

end Takes

end SocketText
end CadsTunnel.Edge
