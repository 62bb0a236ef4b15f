import CadsTunnel.AsciiCase
import CadsTunnel.ByteReads
import CadsTunnel.ShortStrings
import CadsTunnel.OrderedMap

/-! The codec of the DNS-01 responder and its answer from the store. A position in the
datagram is what lies from it on: past the end that is nothing, as `buf.get` answers there.
The name of a question is one string of lower-case text joined by dots, and is cut at the
dots again where it is written. -/
namespace CadsTunnel.DnsMessage
open Words AsciiCase ByteReads ShortStrings OrderedMap

def typeTxt : UInt16 := 16
def classIn : UInt16 := 1
def maxUdpResponseBytes := 512

structure Query where
  id : UInt16
  name : String
  qtype : UInt16
  qclass : UInt16

def u16At (raw : Bytes) (p : Nat) : Option UInt16 := do
  let high ← raw[p]?
  let low ← raw[p + 1]?
  return .ofNat (readBE [high,low])

def pushLabel (name label : String) : String := (if name.isEmpty then name else name.push '.') ++ lower label

def readName (raw : Bytes) (name : String) : Option (String × Bytes) :=
  match raw with
  | [] => none
  | len :: rest =>
    if len = 0 then some (name,rest)
    -- a compression pointer is illegal in a question's name
    else if len &&& 0xC0 ≠ 0 then none
    else if rest.length < len.toNat then none
    else match fromUtf8 (rest.take len.toNat) with
      | none => none
      | some label => readName (rest.drop len.toNat) (pushLabel name label)
termination_by raw.length
decreasing_by simp only [List.length_drop, List.length_cons]; omega

def parseQuery (buf : Bytes) : Option Query :=
  if buf.length < 12 then none
  else do
    let id ← u16At buf 0
    let qdcount ← u16At buf 4
    if qdcount < 1 then none
    else
      let (name,rest) ← readName (buf.drop 12) ""
      let qtype ← u16At rest 0
      let qclass ← u16At rest 2
      return ⟨id,name,qtype,qclass⟩

/- `name.split('.')`. -/
def split (name : String) : List String := (name.toList.splitOn '.').map String.ofList

def nameWireLen (name : String) : Nat :=
  if name.isEmpty then 1 else ((split name).map fun label => 1 + (asBytes label).length).sum + 1

def encodeName (name : String) : Bytes := (if name.isEmpty then [] else write ((split name).map asBytes)) ++ [0]

/- One answer record. Its name is a pointer to the question's. -/
def answerRr (txt : String) : Bytes :=
  let rdata := write (chunks 255 (asBytes txt))
  [0xC0,0x0C] ++ u16BE typeTxt ++ u16BE classIn ++ be 4 60 ++ be 2 rdata.length ++ rdata

def answerRrs (query : Query) (txts : List String) : List Bytes := if query.qtype = typeTxt then txts.map answerRr else []

def included : Nat → List Bytes → Nat
  | _, [] => 0
  | budget, rr :: rrs => if budget < rr.length then 0 else included (budget - rr.length) rrs + 1

def buildResponse (query : Query) (txts : List String) : Bytes :=
  let rrs := answerRrs query txts
  let headerAndQuestionLen := 12 + nameWireLen query.name + 4
  let count := included (maxUdpResponseBytes - headerAndQuestionLen) rrs
  -- QR and AA, and TC where answers were left out
  let flags : UInt16 := if count < rrs.length then 0x8600 else 0x8400
  u16BE query.id ++ u16BE flags ++ u16BE 1 ++ be 2 count ++ u16BE 0 ++ u16BE 0 ++
    (encodeName query.name ++ u16BE query.qtype ++ u16BE query.qclass) ++ (rrs.take count).flatten

def buildQuery (id : UInt16) (name : String) (qtype : UInt16) : Bytes :=
  u16BE id ++ u16BE 0x0100 ++ u16BE 1 ++ [0,0,0,0,0,0] ++ encodeName name ++ u16BE qtype ++ u16BE classIn

def skipName (raw : Bytes) : Option Bytes :=
  match raw with
  | [] => none
  | len :: rest =>
    if len = 0 then some rest
    else if len &&& 0xC0 = 0xC0 then some (rest.drop 1)
    else skipName (rest.drop len.toNat)
termination_by raw.length
decreasing_by simp only [List.length_drop, List.length_cons]; omega

/- The character-strings of one record, joined. -/
def readTxt (rdata : Bytes) (s : String) : Option String :=
  match rdata with
  | [] => some s
  | l :: rest =>
    if rest.length < l.toNat then none
    else match fromUtf8 (rest.take l.toNat) with
      | none => none
      | some part => readTxt (rest.drop l.toNat) (s ++ part)
termination_by rdata.length
decreasing_by simp only [List.length_drop, List.length_cons]; omega

def skipQuestions : Nat → Bytes → Option Bytes
  | 0, raw => some raw
  | n + 1, raw => do
    let raw ← skipName raw
    skipQuestions n (raw.drop 4)

def readAnswers : Nat → Bytes → List String → Option (List String)
  | 0, _, out => some out
  | n + 1, raw, out => do
    let raw ← skipName raw
    let rtype ← u16At raw 0
    let rdlen ← u16At raw 8
    if raw.length < 10 + rdlen.toNat then none
    else
      let rest := raw.drop (10 + rdlen.toNat)
      if rtype = typeTxt then
        let s ← readTxt ((raw.drop 10).take rdlen.toNat) ""
        readAnswers n rest (out ++ [s])
      else readAnswers n rest out

def parse (buf : Bytes) : Option (List String) :=
  if buf.length < 12 then none
  else do
    let qd ← u16At buf 4
    let an ← u16At buf 6
    let raw ← skipQuestions qd.toNat (buf.drop 12)
    readAnswers an.toNat raw []

def parseTxtAnswers (buf : Bytes) : List String := (parse buf).getD []

abbrev AcmeDnsStore := BTreeMap String (List String)

def AcmeDnsStore.txt (store : AcmeDnsStore) (name : String) : List String :=
  if name.toList.any Char.isUpper then store[lower name]?.getD [] else store[name]?.getD []

def respond (store : AcmeDnsStore) (query : Bytes) : Option Bytes := do
  let q ← parseQuery query
  return buildResponse q (store.txt q.name)

section Halves

theorem u16Written (v : UInt16) (rest : Bytes) : u16At (u16BE v ++ rest) 0 = some v := by
  obtain ⟨high,low,bytes⟩ := List.length_eq_two.mp (u16Length v)
  rw [bytes, u16At]
  change some (UInt16.ofNat (readBE [high,low])) = some v
  rw [← bytes, u16Read]

theorem u16Drop (raw : Bytes) (p : Nat) : u16At raw p = u16At (raw.drop p) 0 := by
  rw [u16At, u16At, List.getElem?_drop, List.getElem?_drop]
  rfl

theorem u16Behind {front : Bytes} {p : Nat} (length : front.length = p) (v : UInt16) (rest : Bytes) :
    u16At (front ++ (u16BE v ++ rest)) p = some v := by
  rw [u16Drop, List.drop_left' length, u16Written]

theorem u16Parts {raw : Bytes} {v : UInt16} (reads : u16At raw 0 = some v) : raw = u16BE v ++ raw.drop 2 := by
  obtain - | ⟨high,- | ⟨low,rest⟩⟩ := raw
  · contradiction
  · contradiction
  · cases Option.some.inj reads
    rw [u16Bytes]
    rfl

end Halves

section Labels

def Short (label : String) : Prop := label ≠ "" ∧ (asBytes label).length < 64

instance (label : String) : Decidable (Short label) := inferInstanceAs (Decidable (_ ∧ _))

/- Labels of one to sixty-three bytes, and a zero behind the last. -/
structure LabelsAt (raw : Bytes) (labels : List String) (rest : Bytes) : Prop where
  written : raw = write (labels.map asBytes) ++ 0 :: rest
  short : ∀ label ∈ labels, Short label

def nameOf (labels : List String) : String := labels.foldl pushLabel ""

set_option maxRecDepth 4000 in
theorem labelMask (n : UInt8) : n &&& 0xC0 = 0 ↔ n.toNat < 64 := by
  have each : ∀ n : Fin 256, UInt8.ofNat n &&& 0xC0 = 0 ↔ n.val < 64 := by decide
  simpa using each ⟨n.toNat,n.toNat_lt⟩

theorem emptyBytes {s : String} (bytes : asBytes s = []) : s = "" := asBytesInjective bytes

theorem labelByte {label : String} (short : Short label) :
    UInt8.ofNat (asBytes label).length ≠ 0 ∧ UInt8.ofNat (asBytes label).length &&& 0xC0 = 0 := by
  have value := lengthByte (lt_trans short.2 (by decide))
  constructor
  · intro zero
    rw [zero] at value
    exact short.1 (emptyBytes (List.length_eq_zero_iff.mp value.symm))
  · rw [labelMask, value]
    exact short.2

theorem labelsCons (label : String) (labels : List String) (rest : Bytes) :
    write ((label :: labels).map asBytes) ++ rest =
      UInt8.ofNat (asBytes label).length :: (asBytes label ++ (write (labels.map asBytes) ++ rest)) := by
  rw [List.map_cons, writeCons, List.cons_append, List.append_assoc]

theorem readNameLabels {raw rest : Bytes} {name full : String} (reads : readName raw name = some (full,rest)) :
    ∃ labels, LabelsAt raw labels rest ∧ full = labels.foldl pushLabel name := by
  fun_induction readName raw name with
  | case1 | case3 | case4 | case5 => contradiction
  | case2 name behind =>
    cases Option.some.inj reads
    exact ⟨[],⟨rfl,by simp⟩,rfl⟩
  | case6 name len behind some' plain enough label text ih =>
    obtain ⟨labels,at',same⟩ := ih reads
    have bytes := fromUtf8Some text
    have length : (asBytes label).length = len.toNat := by
      rw [bytes, List.length_take]
      omega
    refine ⟨label :: labels,⟨?_,List.forall_mem_cons.mpr ⟨⟨?_,?_⟩,at'.short⟩⟩,same⟩
    · rw [labelsCons, ← at'.written, length, UInt8.ofNat_toNat, bytes, List.take_append_drop]
    · rintro rfl
      exact some' (UInt8.toNat_inj.mp length.symm)
    · rw [length, ← labelMask]
      exact not_not.mp plain

theorem readNameWritten {raw rest : Bytes} {labels : List String} (at' : LabelsAt raw labels rest) (name : String) :
    readName raw name = some (labels.foldl pushLabel name,rest) := by
  induction labels generalizing raw name with
  | nil =>
    rw [at'.written]
    change readName (0 :: rest) name = _
    rw [readName]
    rfl
  | cons label labels ih =>
    obtain ⟨short,others⟩ := List.forall_mem_cons.mp at'.short
    have value := lengthByte (lt_trans short.2 (by decide))
    rw [at'.written, labelsCons, readName, if_neg (labelByte short).1, if_neg (not_not.mpr (labelByte short).2), value,
      if_neg (by simp), List.take_left, fromUtf8Bytes, List.drop_left]
    exact ih ⟨rfl,others⟩ _

theorem skipNameWritten {raw rest : Bytes} {labels : List String} (at' : LabelsAt raw labels rest) : skipName raw = some rest := by
  induction labels generalizing raw with
  | nil =>
    rw [at'.written]
    change skipName (0 :: rest) = _
    rw [skipName]
    rfl
  | cons label labels ih =>
    obtain ⟨short,others⟩ := List.forall_mem_cons.mp at'.short
    have value := lengthByte (lt_trans short.2 (by decide))
    have plain : UInt8.ofNat (asBytes label).length &&& 0xC0 ≠ 0xC0 := by
      rw [(labelByte short).2]
      decide
    rw [at'.written, labelsCons, skipName, if_neg (labelByte short).1, if_neg plain, value, List.drop_left]
    exact ih ⟨rfl,others⟩

end Labels

section Questions

/- What a datagram asks first. -/
structure Question (buf : Bytes) (labels : List String) (qtype qclass : UInt16) : Prop where
  header : 12 ≤ buf.length
  asked : ∃ qdcount, u16At buf 4 = some qdcount ∧ 1 ≤ qdcount
  written : ∃ rest, LabelsAt (buf.drop 12) labels (u16BE qtype ++ (u16BE qclass ++ rest))

variable {buf : Bytes} {labels : List String} {qtype qclass : UInt16}

theorem idRead (header : 12 ≤ buf.length) : ∃ id, u16At buf 0 = some id ∧ u16BE id = buf.take 2 := by
  obtain - | ⟨high,- | ⟨low,rest⟩⟩ := buf
  · simp at header
  · simp at header
  · have parts := u16Parts (show u16At (high :: low :: rest) 0 = some (.ofNat (readBE [high,low])) from rfl)
    refine ⟨_,rfl,?_⟩
    rw [parts, List.take_left' (u16Length _)]

theorem questionParsed (question : Question buf labels qtype qclass) :
    ∃ id, parseQuery buf = some ⟨id,nameOf labels,qtype,qclass⟩ ∧ u16BE id = buf.take 2 := by
  obtain ⟨id,first,bytes⟩ := idRead question.header
  obtain ⟨qdcount,counted,some'⟩ := question.asked
  obtain ⟨rest,at'⟩ := question.written
  refine ⟨id,?_,bytes⟩
  have type : u16At (u16BE qtype ++ (u16BE qclass ++ rest)) 0 = some qtype := u16Written _ _
  have class' : u16At (u16BE qtype ++ (u16BE qclass ++ rest)) 2 = some qclass := u16Behind (u16Length qtype) _ _
  rw [parseQuery, if_neg (by have := question.header; omega)]
  simp only [first, counted, readNameWritten at' "", type, class', Option.bind_eq_bind, Option.bind_some, Option.pure_def]
  rw [if_neg (UInt16.not_lt.mpr some')]
  rfl

theorem parsedQuestion {q : Query} (parsed : parseQuery buf = some q) :
    ∃ labels, Question buf labels q.qtype q.qclass ∧ q.name = nameOf labels ∧ u16BE q.id = buf.take 2 := by
  rw [parseQuery] at parsed
  split at parsed <;> try contradiction
  rename_i header
  simp only [Option.bind_eq_bind, Option.bind_eq_some_iff, Option.pure_def] at parsed
  obtain ⟨id,first,qdcount,counted,parsed⟩ := parsed
  split at parsed <;> try contradiction
  rename_i some'
  obtain ⟨⟨name,rest⟩,named,parsed⟩ := Option.bind_eq_some_iff.mp parsed
  obtain ⟨qtype,type,parsed⟩ := Option.bind_eq_some_iff.mp parsed
  obtain ⟨qclass,class',same⟩ := Option.bind_eq_some_iff.mp parsed
  cases Option.some.inj same
  obtain ⟨labels,at',full⟩ := readNameLabels named
  refine ⟨labels,⟨Nat.not_lt.mp header,⟨qdcount,counted,UInt16.not_lt.mp some'⟩,rest.drop 4,?_⟩,full,?_⟩
  · have behind : rest.drop 2 = u16BE qclass ++ rest.drop 4 := by
      dsimp only at class'
      rw [u16Drop] at class'
      rw [u16Parts class', List.drop_drop]
    rwa [← behind, ← u16Parts type]
  · obtain ⟨id',first',bytes⟩ := idRead (Nat.not_lt.mp header)
    rw [← bytes, Option.some.inj (first.symm.trans first')]

end Questions

section Names
variable {labels : List String}

theorem joinBehind {α : Type} (sep : α) (a b : List α) (rest : List (List α)) :
    [sep].intercalate ((a ++ sep :: b) :: rest) = a ++ sep :: [sep].intercalate (b :: rest) := by
  cases rest <;> simp [List.intercalate]

theorem joinCons {α : Type} (sep : α) (a b : List α) (rest : List (List α)) :
    [sep].intercalate (a :: b :: rest) = a ++ sep :: [sep].intercalate (b :: rest) := by
  cases rest <;> simp [List.intercalate]

theorem splitJoin {α : Type} [DecidableEq α] (sep : α) {parts : List (List α)} (some' : parts ≠ []) :
    ([sep].intercalate parts).splitOn sep = parts.flatMap (List.splitOn sep) := by
  induction parts with
  | nil => contradiction
  | cons a rest ih =>
    cases rest with
    | nil => simp [List.intercalate]
    | cons b rest => rw [joinCons, List.splitOn_append_cons_self, ih (by simp), @List.flatMap_cons _ _ a]

theorem pushSome {name label : String} (some' : name ≠ "" ∨ label ≠ "") : pushLabel name label ≠ "" := by
  intro none'
  have chars := congrArg String.toList none'
  rw [pushLabel, lower, lowered, String.toList_append, String.toList_ofList, String.toList_empty, List.append_eq_nil_iff, List.map_eq_nil_iff] at chars
  have label' : label = "" := String.toList_inj.mp chars.2
  have name' := chars.1
  split at name'
  · rename_i blank
    exact some'.elim (· (String.isEmpty_iff.mp blank)) (· label')
  · simp at name'

theorem foldJoined {name : String} (some' : name ≠ "") :
    (labels.foldl pushLabel name).toList = ['.'].intercalate (name.toList :: labels.map lowered) := by
  induction labels generalizing name with
  | nil => simp [List.intercalate]
  | cons label labels ih =>
    have pushed : (pushLabel name label).toList = name.toList ++ '.' :: lowered label := by
      rw [pushLabel, if_neg (by simpa using some'), String.toList_append, String.toList_push, lower, String.toList_ofList, List.append_assoc]
      rfl
    rw [List.foldl_cons, ih (pushSome (.inl some')), pushed, joinBehind, List.map_cons, joinCons]

theorem foldSome {name : String} (some' : name ≠ "") : labels.foldl pushLabel name ≠ "" := by
  induction labels generalizing name with
  | nil => exact some'
  | cons label labels ih => exact ih (pushSome (.inl some'))

theorem nameSome (named : ∀ label ∈ labels, label ≠ "") (some' : labels ≠ []) : nameOf labels ≠ "" := by
  cases labels with
  | nil => contradiction
  | cons label labels => exact @foldSome labels (pushLabel "" label) (pushSome (.inr (named label (by simp))))

theorem nameJoined (named : ∀ label ∈ labels, label ≠ "") (some' : labels ≠ []) :
    (nameOf labels).toList = ['.'].intercalate (labels.map lowered) := by
  cases labels with
  | nil => contradiction
  | cons label labels =>
    have pushed : pushLabel "" label = lower label := String.empty_append
    rw [nameOf, List.foldl_cons, foldJoined (pushSome (.inr (named label (by simp)))), pushed, lower, String.toList_ofList, List.map_cons]

/- The dots of the labels are where the name is cut as well. -/
theorem nameSplit (named : ∀ label ∈ labels, label ≠ "") (some' : labels ≠ []) :
    split (nameOf labels) = labels.flatMap fun label => ((lowered label).splitOn '.').map String.ofList := by
  rw [split, nameJoined named some', splitJoin _ (by simpa using some'), List.flatMap_map, List.map_flatMap]

theorem lowerShort {label : String} (short : Short label) : Short (lower label) := by
  refine ⟨fun none' => short.1 (emptyBytes (List.length_eq_zero_iff.mp ?_)),?_⟩
  · rw [← lowerLength, none']
    rfl
  · rw [lowerLength]
    exact short.2

theorem partsWeight (cs : List Char) :
    ((cs.splitOn '.').map fun part => 1 + (asBytes (.ofList part)).length).sum = (asBytes (.ofList cs)).length + 1 := by
  induction cs with
  | nil => rfl
  | cons c cs ih =>
    have weight : (asBytes (.ofList (c :: cs))).length = c.utf8Size + (asBytes (.ofList cs)).length := by
      rw [textBytes, textBytes, List.flatMap_cons, List.length_append, String.length_utf8EncodeChar]
    rw [List.splitOn_cons_eq_if_modifyHead, weight]
    split
    · rename_i dot
      rw [List.map_cons, List.sum_cons, ih, beq_iff_eq.mp dot]
      change 1 + 0 + _ = 1 + _ + 1
      omega
    · obtain ⟨part,parts,cut⟩ := List.exists_cons_of_ne_nil (List.splitOn_ne_nil '.' cs)
      have first : (asBytes (.ofList (c :: part))).length = c.utf8Size + (asBytes (.ofList part)).length := by
        rw [textBytes, textBytes, List.flatMap_cons, List.length_append, String.length_utf8EncodeChar]
      rw [cut, List.map_cons, List.sum_cons] at ih
      rw [cut, List.modifyHead_cons, List.map_cons, List.sum_cons, first]
      omega

theorem wireLength (name : String) : nameWireLen name = (encodeName name).length := by
  rw [nameWireLen, encodeName]
  split
  · rfl
  · rw [List.length_append, writeLength, List.map_map]
    rfl

theorem nameLength (named : ∀ label ∈ labels, label ≠ "") :
    (encodeName (nameOf labels)).length = (write (labels.map asBytes)).length + 1 := by
  by_cases none' : labels = []
  · rw [none']
    rfl
  · have each : ∀ label ∈ labels, ((((lowered label).splitOn '.').map String.ofList).map fun part => 1 + (asBytes part).length).sum =
        1 + (asBytes label).length := by
      intro label mem
      rw [List.map_map]
      exact (partsWeight (lowered label)).trans ((Nat.add_comm _ 1).trans (congrArg (1 + ·) (lowerLength label)))
    rw [← wireLength, nameWireLen, if_neg (by simpa using nameSome named none'), nameSplit named none', writeLength, List.map_flatMap,
      List.flatMap_def, List.sum_flatten, List.map_map, List.map_map]
    exact congrArg (·.sum + 1) (List.map_congr_left each)

/- Labels without dots come back in lower case. -/
theorem undottedName (named : ∀ label ∈ labels, label ≠ "") (undotted : ∀ label ∈ labels, '.' ∉ lowered label) :
    encodeName (nameOf labels) = write ((labels.map lower).map asBytes) ++ [0] := by
  by_cases none' : labels = []
  · rw [none']
    rfl
  · have each : ∀ label ∈ labels, ((lowered label).splitOn '.').map String.ofList = [lower label] := by
      intro label mem
      rw [List.splitOn_eq_singleton (undotted label mem)]
      rfl
    rw [encodeName, if_neg (by simpa using nameSome named none'), nameSplit named none', List.flatMap_congr each, ← List.map_eq_flatMap]

end Names

end CadsTunnel.DnsMessage
