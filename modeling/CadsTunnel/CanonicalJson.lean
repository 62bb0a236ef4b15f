import CadsTunnel.Delimited

/-! Canonical JSON text: members sorted by key at every level, no whitespace, scalars
as the JSON library writes them. The text determines the value up to the order of
object members, whatever the strings in it contain. -/
namespace CadsTunnel.Json
open Words Delimited

abbrev Text := List Char

/- A floating-point number by its bits; the library never builds one that is not finite. -/
structure FiniteFloat where
  bits : UInt64
  finite : (bits >>> 52) &&& 0x7ff ≠ 0x7ff
  deriving DecidableEq

inductive Number where
  | posInt (n : UInt64)
  | negInt (i : Int64) (below : i < 0)
  | float (f : FiniteFloat)

def Number.fromI64 (i : Int64) : Number := if below : i < 0 then .negInt i below else .posInt i.toUInt64

inductive Value where
  | null
  | bool (b : Bool)
  | number (n : Number)
  | string (s : String)
  | array (items : List Value)
  | object (members : List (String × Value))

def NumberChar (c : Char) : Prop := c.isDigit = true ∨ c = '-' ∨ c = '+' ∨ c = '.' ∨ c = 'e'

/- How the library writes floating-point numbers: the shortest text that reads back as the
same number, always with a fraction or an exponent. -/
structure FloatText where
  text : FiniteFloat → Text
  injective : Function.Injective text
  numeric : ∀ f, ∀ c ∈ text f, NumberChar c
  fraction : ∀ f, ∃ c ∈ text f, c = '.' ∨ c = 'e'

/- The escapes of one character; every other control character is written by its code. -/
def shortEscapes : List (Char × Char) :=
  [('"','"'),('\\','\\'),('\x08','b'),('\x09','t'),('\x0a','n'),('\x0c','f'),('\x0d','r')]

def shortEscape (c : Char) : Option Char := (shortEscapes.find? (fun e => e.1 = c)).map Prod.snd

def escape (c : Char) : Text :=
  match shortEscape c with
  | some k => ['\\',k]
  | none => if c.toNat < 32 then ['\\','u','0','0',(c.toNat / 16).digitChar,(c.toNat % 16).digitChar] else [c]

def quoted (s : String) : Text := '"' :: (s.toList.flatMap escape ++ ['"'])

theorem shortEscapeMem {c k : Char} (found : shortEscape c = some k) : (c,k) ∈ shortEscapes := by
  obtain ⟨e,here,last⟩ := Option.map_eq_some_iff.mp found
  have key : e.1 = c := by simpa using List.find?_some here
  rw [← key, ← last]
  exact List.mem_of_find?_eq_some here

theorem shortEscapeInjective {c d k : Char} (left : shortEscape c = some k) (right : shortEscape d = some k) : c = d := by
  have each : ∀ e ∈ shortEscapes, ∀ f ∈ shortEscapes, e.2 = f.2 → e.1 = f.1 := by decide
  exact each _ (shortEscapeMem left) _ (shortEscapeMem right) rfl

theorem shortEscapeNotCode {c k : Char} (found : shortEscape c = some k) : k ≠ 'u' := by
  have each : ∀ e ∈ shortEscapes, e.2 ≠ 'u' := by decide
  exact each _ (shortEscapeMem found)

theorem digitCharInjective {a b : Nat} (left : a < 16) (right : b < 16) (same : a.digitChar = b.digitChar) : a = b := by
  have each : ∀ a < 16, ∀ b < 16, Nat.digitChar a = Nat.digitChar b → a = b := by decide
  exact each a left b right same

/- What a character is written as: a short escape, a code, or itself. -/
theorem escapeCases (c : Char) :
    (∃ k, shortEscape c = some k ∧ escape c = ['\\',k]) ∨
    (shortEscape c = none ∧ c.toNat < 32 ∧
      escape c = ['\\','u','0','0',(c.toNat / 16).digitChar,(c.toNat % 16).digitChar]) ∨
    (c ≠ '\\' ∧ c ≠ '"' ∧ escape c = [c]) := by
  cases found : shortEscape c with
  | some k => exact .inl ⟨k,rfl,by rw [escape, found]⟩
  | none =>
    by_cases control : c.toNat < 32
    · exact .inr (.inl ⟨rfl,control,by simp [escape, found, control]⟩)
    · refine .inr (.inr ⟨?_,?_,by simp [escape, found, control]⟩)
      · intro same
        subst same
        contradiction
      · intro same
        subst same
        contradiction

theorem escapeDelimits : Delimits Everything escape := by
  intro c d _ _ r s same
  rcases escapeCases c with ⟨k,shortC,writtenC⟩ | ⟨_,smallC,writtenC⟩ | ⟨plainC,_,writtenC⟩ <;>
    rcases escapeCases d with ⟨l,shortD,writtenD⟩ | ⟨_,smallD,writtenD⟩ | ⟨plainD,_,writtenD⟩ <;>
    rw [writtenC, writtenD] at same <;>
    simp only [List.cons_append, List.nil_append, List.cons.injEq, true_and] at same
  · obtain ⟨key,rest⟩ := same
    exact ⟨shortEscapeInjective shortC (key ▸ shortD),rest⟩
  · exact absurd same.1 (shortEscapeNotCode shortC)
  · exact absurd same.1.symm plainD
  · exact absurd same.1.symm (shortEscapeNotCode shortD)
  · obtain ⟨high,low,rest⟩ := same
    have highs := digitCharInjective (by omega) (by omega) high
    have lows := digitCharInjective (Nat.mod_lt _ (by decide)) (Nat.mod_lt _ (by decide)) low
    have code : c.toNat = d.toNat := by omega
    exact ⟨Char.toNat_inj.mp code,rest⟩
  · exact absurd same.1.symm plainD
  · exact absurd same.1 plainC
  · exact absurd same.1 plainC
  · exact same

theorem escapeOpens (c : Char) : ∃ b rest, escape c = b :: rest ∧ b ≠ '"' := by
  rcases escapeCases c with ⟨k,_,written⟩ | ⟨_,_,written⟩ | ⟨_,plain,written⟩
  · exact ⟨_,_,written,by decide⟩
  · exact ⟨_,_,written,by decide⟩
  · exact ⟨_,_,written,plain⟩

theorem quotedDelimits : Delimits Everything quoted := by
  intro a b _ _ r s same
  simp only [quoted, List.cons_append, List.append_assoc, List.nil_append, List.cons.injEq, true_and] at same
  obtain ⟨chars,rest⟩ := escapeDelimits.closed (fun c _ => escapeOpens c) (fun _ _ => trivial) (fun _ _ => trivial) same
  exact ⟨String.toList_inj.mp chars,rest⟩

variable (floats : FloatText)

def Number.text : Number → Text
  | .posInt n => Nat.toDigits 10 n.toNat
  | .negInt i _ => '-' :: Nat.toDigits 10 i.toInt.natAbs
  | .float f => floats.text f

/- A comma before every element but the first. -/
def comma (first : Bool) : Text := if first then [] else [',']

def joinItems (first : Bool) : List Text → Text
  | [] => [']']
  | item :: rest => comma first ++ item ++ joinItems false rest

def joinMembers (first : Bool) : List (String × Text) → Text
  | [] => ['\x7d']
  | m :: rest => comma first ++ quoted m.1 ++ ':' :: m.2 ++ joinMembers false rest

def sortMembers {α : Type} (members : List (String × α)) : List (String × α) :=
  members.insertionSort (fun x y => x.1 ≤ y.1)

/- Only the keys are compared, so the members may be written before they are sorted. -/
mutual
def writeCanonical : Value → Text
  | .null => ['n','u','l','l']
  | .bool true => ['t','r','u','e']
  | .bool false => ['f','a','l','s','e']
  | .number n => n.text floats
  | .string s => quoted s
  | .array items => '[' :: joinItems true (writeItems items)
  | .object members => '\x7b' :: joinMembers true (sortMembers (writeMembers members))

def writeItems : List Value → List Text
  | [] => []
  | v :: rest => writeCanonical v :: writeItems rest

def writeMembers : List (String × Value) → List (String × Text)
  | [] => []
  | (key,v) :: rest => (key,writeCanonical v) :: writeMembers rest
end

def canonicalJson (v : Value) : String := .ofList (writeCanonical floats v)

variable {floats}

theorem digitsNumeric {n : Nat} {c : Char} (mem : c ∈ Nat.toDigits 10 n) : c.isDigit = true :=
  Nat.isDigit_of_mem_toDigits (by decide) (by decide) mem

theorem digitsInjective {a b : Nat} (same : Nat.toDigits 10 a = Nat.toDigits 10 b) : a = b := by
  rw [← Nat.ofDigitChars_ten_toDigits (n := a), same, Nat.ofDigitChars_ten_toDigits]

theorem numberNumeric (n : Number) : ∀ c ∈ n.text floats, NumberChar c := by
  intro c mem
  cases n with
  | posInt n => exact .inl (digitsNumeric mem)
  | negInt i below =>
    rcases List.mem_cons.mp mem with sign | digit
    · exact .inr (.inl sign)
    · exact .inl (digitsNumeric digit)
  | float f => exact floats.numeric f c mem

theorem numberOpens (n : Number) : ∃ c rest, n.text floats = c :: rest ∧ NumberChar c := by
  cases written : n.text floats with
  | cons c rest =>
    have mem : c ∈ n.text floats := by simp [written]
    exact ⟨c,rest,rfl,numberNumeric n c mem⟩
  | nil =>
    cases n with
    | posInt n => exact absurd written Nat.toDigits_ne_nil
    | negInt i below => contradiction
    | float f =>
      obtain ⟨c,mem,_⟩ := floats.fraction f
      rw [Number.text] at written
      rw [written] at mem
      contradiction

/- An integer has neither a fraction nor an exponent. -/
theorem floatApart {f : FiniteFloat} {n : Number} (whole : ∀ c ∈ n.text floats, c.isDigit = true ∨ c = '-') :
    floats.text f ≠ n.text floats := by
  intro same
  obtain ⟨c,mem,fraction⟩ := floats.fraction f
  rw [same] at mem
  rcases whole c mem with digit | sign <;> rcases fraction with dot | exponent
  · rw [dot] at digit
    contradiction
  · rw [exponent] at digit
    contradiction
  · rw [dot] at sign
    contradiction
  · rw [exponent] at sign
    contradiction

theorem posIntWhole (n : UInt64) : ∀ c ∈ (Number.posInt n).text floats, c.isDigit = true ∨ c = '-' :=
  fun _ mem => .inl (digitsNumeric mem)

theorem negIntWhole (i : Int64) (below : i < 0) : ∀ c ∈ (Number.negInt i below).text floats, c.isDigit = true ∨ c = '-' := by
  intro c mem
  rcases List.mem_cons.mp mem with sign | digit
  · exact .inr sign
  · exact .inl (digitsNumeric digit)

theorem signApart {n m : Nat} : Nat.toDigits 10 n ≠ '-' :: Nat.toDigits 10 m := by
  intro same
  have digit : ('-').isDigit = true := digitsNumeric (n := n) (by simp [same])
  contradiction

theorem numberInjective {n m : Number} (same : n.text floats = m.text floats) : n = m := by
  cases n with
  | posInt a =>
    cases m with
    | posInt b => rw [UInt64.toNat_inj.mp (digitsInjective same)]
    | negInt j below => exact absurd same signApart
    | float g => exact absurd same.symm (floatApart (posIntWhole a))
  | negInt i below =>
    cases m with
    | posInt b => exact absurd same.symm signApart
    | negInt j under =>
      have sizes := digitsInjective (List.cons.inj same).2
      have left : i.toInt < 0 := Int64.lt_iff_toInt_lt.mp below
      have right : j.toInt < 0 := Int64.lt_iff_toInt_lt.mp under
      have value : i = j := Int64.toInt_inj.mp (by omega)
      subst value
      rfl
    | float g => exact absurd same.symm (floatApart (negIntWhole i below))
  | float f =>
    cases m with
    | posInt b => exact absurd same (floatApart (posIntWhole b))
    | negInt j below => exact absurd same (floatApart (negIntWhole j below))
    | float g => rw [floats.injective same]

theorem numberEnds {n m : Number} {r s : Text} (stopR : Stops NumberChar r) (stopS : Stops NumberChar s)
    (same : n.text floats ++ r = m.text floats ++ s) : n = m ∧ r = s := by
  obtain ⟨texts,rest⟩ := wordEnds (numberNumeric n) (numberNumeric m) stopR stopS same
  exact ⟨numberInjective texts,rest⟩

/- Induction over values: a container holds when what it contains does. -/
@[induction_eliminator] theorem Value.induct {P : Value → Prop} (null : P .null) (bool : ∀ b, P (.bool b))
    (number : ∀ n, P (.number n)) (string : ∀ s, P (.string s))
    (array : ∀ items, (∀ v ∈ items, P v) → P (.array items))
    (object : ∀ members, (∀ m ∈ members, P m.2) → P (.object members)) (v : Value) : P v :=
  @Value.rec P (fun items => ∀ v ∈ items, P v) (fun members => ∀ m ∈ members, P m.2) (fun m => P m.2)
    null bool number string array object (by simp) (fun _ _ head tail => List.forall_mem_cons.mpr ⟨head,tail⟩)
    (by simp) (fun _ _ head tail => List.forall_mem_cons.mpr ⟨head,tail⟩) (fun _ _ value => value) v

/- The same value with the members of every object in key order. -/
mutual
def Value.sorted : Value → Value
  | .null => .null
  | .bool b => .bool b
  | .number n => .number n
  | .string s => .string s
  | .array items => .array (sortedItems items)
  | .object members => .object (sortMembers (sortedMembers members))

def sortedItems : List Value → List Value
  | [] => []
  | v :: rest => v.sorted :: sortedItems rest

def sortedMembers : List (String × Value) → List (String × Value)
  | [] => []
  | (key,v) :: rest => (key,v.sorted) :: sortedMembers rest
end

theorem writeMembersMap (members : List (String × Value)) :
    writeMembers floats members = members.map (fun m => (m.1,writeCanonical floats m.2)) := by
  induction members with
  | nil => rfl
  | cons m rest ih => rw [writeMembers, ih, List.map_cons]

theorem sortedMembersMap (members : List (String × Value)) :
    sortedMembers members = members.map (fun m => (m.1,m.2.sorted)) := by
  induction members with
  | nil => rfl
  | cons m rest ih => rw [sortedMembers, ih, List.map_cons]

/- Members that keep their keys are sorted alike. -/
theorem sortMembersMap {α β : Type} (f : α → β) (members : List (String × α)) :
    sortMembers (members.map (fun m => (m.1,f m.2))) = (sortMembers members).map (fun m => (m.1,f m.2)) := by
  refine (List.map_insertionSort (fun x y : String × α => x.1 ≤ y.1) (fun x y : String × β => x.1 ≤ y.1) _ members ?_).symm
  intro _ _ _ _
  exact Iff.rfl

instance numberCharDecidable : DecidablePred NumberChar := fun _ => inferInstanceAs (Decidable (_ ∨ _))

/- The kind of a value shows in its first character, with one sign for all numbers. -/
def leadOf (c : Char) : Char := if NumberChar c then '0' else c

def Value.lead : Value → Char
  | .null => 'n'
  | .bool true => 't'
  | .bool false => 'f'
  | .number _ => '0'
  | .string _ => '"'
  | .array _ => '['
  | .object _ => '\x7b'

theorem opensWithLead (v : Value) : ∃ c rest, writeCanonical floats v = c :: rest ∧ leadOf c = v.lead := by
  cases v with
  | number n =>
    obtain ⟨c,rest,written,numeric⟩ := numberOpens n
    exact ⟨c,rest,by rw [writeCanonical, written],if_pos numeric⟩
  | bool b => cases b <;> exact ⟨_,_,rfl,if_neg (by decide)⟩
  | null | string s | array items | object members => exact ⟨_,_,rfl,if_neg (by decide)⟩

theorem leadNotClose (v : Value) : v.lead ≠ ']' := by
  cases v with
  | bool b => cases b <;> simp [Value.lead]
  | null | number n | string s | array items | object members => simp [Value.lead]

theorem valueNotClose {v : Value} {r s : Text} : writeCanonical floats v ++ r ≠ ']' :: s := by
  obtain ⟨c,rest,written,lead⟩ := opensWithLead v
  rw [written, List.cons_append]
  intro same
  obtain ⟨first,_⟩ := List.cons.inj same
  subst first
  exact leadNotClose v lead.symm

inductive SameKind : Value → Value → Prop
  | null : SameKind .null .null
  | bool (b) : SameKind (.bool b) (.bool b)
  | number (n m) : SameKind (.number n) (.number m)
  | string (s t) : SameKind (.string s) (.string t)
  | array (items others) : SameKind (.array items) (.array others)
  | object (members others) : SameKind (.object members) (.object others)

theorem sameLead {v w : Value} (leads : v.lead = w.lead) : SameKind v w := by
  cases v with
  | null => cases w with
    | null => exact .null
    | bool b => cases b <;> simp [Value.lead] at leads
    | _ => simp [Value.lead] at leads
  | bool a => cases w with
    | bool b => cases a <;> cases b <;> first | exact .bool _ | simp [Value.lead] at leads
    | _ => cases a <;> simp [Value.lead] at leads
  | number n => cases w with
    | number m => exact .number n m
    | bool b => cases b <;> simp [Value.lead] at leads
    | _ => simp [Value.lead] at leads
  | string s => cases w with
    | string t => exact .string s t
    | bool b => cases b <;> simp [Value.lead] at leads
    | _ => simp [Value.lead] at leads
  | array items => cases w with
    | array others => exact .array items others
    | bool b => cases b <;> simp [Value.lead] at leads
    | _ => simp [Value.lead] at leads
  | object members => cases w with
    | object others => exact .object members others
    | bool b => cases b <;> simp [Value.lead] at leads
    | _ => simp [Value.lead] at leads

theorem sameText {v w : Value} {r s : Text} (same : writeCanonical floats v ++ r = writeCanonical floats w ++ s) :
    SameKind v w := by
  obtain ⟨c,rest,left,leadV⟩ := opensWithLead v
  obtain ⟨d,others,right,leadW⟩ := opensWithLead w
  rw [left, right] at same
  obtain ⟨first,_⟩ := List.cons.inj same
  subst first
  exact sameLead (leadV.symm.trans leadW)

/- The text of the value ends where the next structural character begins. -/
def Determined (floats : FloatText) (v : Value) : Prop :=
  ∀ w r s, Stops NumberChar r → Stops NumberChar s →
    writeCanonical floats v ++ r = writeCanonical floats w ++ s → v.sorted = w.sorted ∧ r = s

theorem itemsStop (items : List Text) (rest : Text) : Stops NumberChar (joinItems false items ++ rest) := by
  cases items with
  | nil => simp [joinItems, Stops]; decide
  | cons item items => simp [joinItems, comma, Stops]; decide

theorem membersStop (members : List (String × Text)) (rest : Text) : Stops NumberChar (joinMembers false members ++ rest) := by
  cases members with
  | nil => simp [joinMembers, Stops]; decide
  | cons m members => simp [joinMembers, comma, Stops]; decide

theorem itemsDetermined {items : List Value} (each : ∀ v ∈ items, Determined floats v) {others : List Value} {first : Bool}
    {r s : Text} (same : joinItems first (writeItems floats items) ++ r = joinItems first (writeItems floats others) ++ s) :
    sortedItems items = sortedItems others ∧ r = s := by
  induction items generalizing others first with
  | nil =>
    cases others with
    | nil => exact ⟨rfl,by simpa [writeItems, joinItems] using same⟩
    | cons w others =>
      simp only [writeItems, joinItems, List.append_assoc] at same
      cases first with
      | true => exact absurd same.symm valueNotClose
      | false => simp [comma] at same
  | cons v items ih =>
    cases others with
    | nil =>
      simp only [writeItems, joinItems, List.append_assoc] at same
      cases first with
      | true => exact absurd same valueNotClose
      | false => simp [comma] at same
    | cons w others =>
      simp only [writeItems, joinItems, List.append_assoc, List.append_cancel_left_eq] at same
      obtain ⟨heads,rest⟩ := each v List.mem_cons_self w _ _ (itemsStop _ _) (itemsStop _ _) same
      obtain ⟨tails,ends⟩ := ih (fun u mem => each u (List.mem_cons_of_mem v mem)) rest
      exact ⟨by rw [sortedItems, sortedItems, heads, tails],ends⟩

theorem membersDetermined {members : List (String × Value)} (each : ∀ m ∈ members, Determined floats m.2)
    {others : List (String × Value)} {first : Bool} {r s : Text}
    (same : joinMembers first (writeMembers floats members) ++ r = joinMembers first (writeMembers floats others) ++ s) :
    sortedMembers members = sortedMembers others ∧ r = s := by
  induction members generalizing others first with
  | nil =>
    cases others with
    | nil => exact ⟨rfl,by simpa [writeMembers, joinMembers] using same⟩
    | cons n others => cases first <;> simp [writeMembers, joinMembers, comma, quoted] at same
  | cons m members ih =>
    cases others with
    | nil => cases first <;> simp [writeMembers, joinMembers, comma, quoted] at same
    | cons n others =>
      simp only [writeMembers, joinMembers, List.append_assoc, List.append_cancel_left_eq, List.cons_append] at same
      obtain ⟨keys,values⟩ := quotedDelimits trivial trivial same
      obtain ⟨_,values⟩ := List.cons.inj values
      obtain ⟨heads,rest⟩ := each m List.mem_cons_self n.2 _ _ (membersStop _ _) (membersStop _ _) values
      obtain ⟨tails,ends⟩ := ih (fun u mem => each u (List.mem_cons_of_mem m mem)) rest
      exact ⟨by rw [sortedMembers, sortedMembers, keys, heads, tails],ends⟩

theorem valueDetermined (v : Value) : Determined floats v := by
  induction v with
  | null =>
    intro w r s _ _ same
    cases sameText same
    exact ⟨rfl,by simpa [writeCanonical] using same⟩
  | bool b =>
    intro w r s _ _ same
    cases sameText same
    exact ⟨rfl,by cases b <;> simpa [writeCanonical] using same⟩
  | number n =>
    intro w r s stopR stopS same
    cases sameText same
    obtain ⟨values,rest⟩ := numberEnds stopR stopS same
    exact ⟨by rw [values],rest⟩
  | string a =>
    intro w r s _ _ same
    cases sameText same
    obtain ⟨values,rest⟩ := quotedDelimits trivial trivial same
    exact ⟨by rw [values],rest⟩
  | array items ih =>
    intro w r s _ _ same
    cases sameText same
    obtain ⟨_,same⟩ := List.cons.inj same
    obtain ⟨values,rest⟩ := itemsDetermined ih same
    exact ⟨by rw [Value.sorted, Value.sorted, values],rest⟩
  | object members ih =>
    intro w r s _ _ same
    cases sameText same with
    | object _ others =>
      obtain ⟨_,same⟩ := List.cons.inj same
      rw [writeMembersMap, writeMembersMap, sortMembersMap, sortMembersMap, ← writeMembersMap, ← writeMembersMap] at same
      have inside : ∀ m ∈ sortMembers members, Determined floats m.2 :=
        fun m mem => ih m ((List.mem_insertionSort _).mp mem)
      obtain ⟨values,rest⟩ := membersDetermined inside same
      rw [sortedMembersMap, sortedMembersMap, ← sortMembersMap, ← sortMembersMap, ← sortedMembersMap, ← sortedMembersMap]
        at values
      exact ⟨by rw [Value.sorted, Value.sorted, values],rest⟩

/- Two values with one canonical text differ in the order of object members at most. -/
theorem canonicalJsonDetermines {v w : Value} (same : canonicalJson floats v = canonicalJson floats w) :
    v.sorted = w.sorted := by
  have texts : writeCanonical floats v ++ [] = writeCanonical floats w ++ [] := by
    rw [String.ofList_inj.mp same]
  exact (valueDetermined v w [] [] (by simp [Stops]) (by simp [Stops]) texts).1

end CadsTunnel.Json
