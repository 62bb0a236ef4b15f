import CadsTunnel.DnsMessage
import CadsTunnel.Hostnames

/-! What the responder's answers lose on the wire. A stored value is cut after every 255
bytes, and the reader takes each piece for text by itself: a character across a cut spoils
the whole response. The answers left out at 512 bytes are always whole ones at the end. -/
namespace CadsTunnel.DnsAnswers
open Words AsciiCase ByteReads ShortStrings OrderedMap DnsMessage

section Budget

/- What one stored value takes in a response, and what is in front of the answers. -/
def recordLength (value : String) : Nat := 12 + (asBytes value).length + ((asBytes value).length + 254) / 255

def questionLength (labels : List String) : Nat := 12 + (labels.map fun label => 1 + (asBytes label).length).sum + 5

theorem answerLength (value : String) : (answerRr value).length = recordLength value := by
  have rdata : (write (chunks 255 (asBytes value))).length = (asBytes value).length + ((asBytes value).length + 254) / 255 := by
    rw [chunksLength (by decide), chunksCount (by decide)]
    rfl
  simp only [answerRr, List.length_append, u16Length, beLength, rdata, recordLength]
  change 2 + 2 + 2 + 4 + 2 + _ = _
  omega

variable {budget : Nat}

theorem includedBounded (rrs : List Bytes) : included budget rrs ≤ rrs.length := by
  fun_induction included budget rrs with
  | case1 | case2 => exact Nat.zero_le _
  | case3 budget rr rrs fits ih => exact Nat.succ_le_succ ih

theorem includedFit (rrs : List Bytes) : ((rrs.take (included budget rrs)).map List.length).sum ≤ budget := by
  fun_induction included budget rrs with
  | case1 | case2 => exact Nat.zero_le _
  | case3 budget rr rrs fits ih =>
    rw [List.take_succ_cons, List.map_cons, List.sum_cons]
    omega

/- No more of them fit. -/
theorem includedMost {rrs leading : List Bytes} (front : leading <+: rrs) (fits : (leading.map List.length).sum ≤ budget) :
    leading <+: rrs.take (included budget rrs) := by
  fun_induction included budget rrs generalizing leading with
  | case1 => exact front
  | case2 budget rr rrs over' =>
    cases leading with
    | nil => exact List.nil_prefix
    | cons first leading =>
      obtain ⟨rfl,-⟩ := List.cons_prefix_cons.mp front
      rw [List.map_cons, List.sum_cons] at fits
      omega
  | case3 budget rr rrs room ih =>
    cases leading with
    | nil => exact List.nil_prefix
    | cons first leading =>
      obtain ⟨rfl,rest⟩ := List.cons_prefix_cons.mp front
      rw [List.map_cons, List.sum_cons] at fits
      rw [List.take_succ_cons]
      exact List.cons_prefix_cons.mpr ⟨rfl,ih rest (by omega)⟩

end Budget

section Reading

/- No character of the value lies across a cut. -/
def Whole (value : String) : Prop := ∀ part ∈ chunks 255 (asBytes value), (fromUtf8 part).isSome

theorem partsRead {parts : List Bytes} (short : ∀ part ∈ parts, part.length < 256) (s t : String) :
    readTxt (write parts) s = some t ↔ (∀ part ∈ parts, (fromUtf8 part).isSome) ∧ asBytes t = asBytes s ++ parts.flatten := by
  induction parts generalizing s with
  | nil =>
    have none' : readTxt (write []) s = some s := by
      change readTxt [] s = some s
      rw [readTxt]
    rw [none', List.flatten_nil, List.append_nil, asBytesInjective.eq_iff, Option.some_inj]
    exact ⟨fun same => ⟨by simp,same.symm⟩,fun same => same.2.symm⟩
  | cons part parts ih =>
    obtain ⟨small,others⟩ := List.forall_mem_cons.mp short
    rw [writeCons, readTxt, lengthByte small, if_neg (by simp), List.take_left, List.drop_left, List.forall_mem_cons, List.flatten_cons]
    cases text : fromUtf8 part with
    | none => simp
    | some piece =>
      have bytes : asBytes (s ++ piece) = asBytes s ++ part := by
        rw [← fromUtf8Some text]
        simp [asBytes]
      simp only [ih others, bytes, List.append_assoc, Option.isSome_some, true_and]

theorem rdataRead (value s : String) :
    readTxt (write (chunks 255 (asBytes value))) "" = some s ↔ Whole value ∧ s = value := by
  have short : ∀ part ∈ chunks 255 (asBytes value), part.length < 256 := fun part mem => Nat.lt_succ_of_le (chunksShort _ part mem)
  rw [partsRead short, chunksFlatten (by decide)]
  change _ ∧ asBytes s = asBytes value ↔ _
  rw [asBytesInjective.eq_iff]
  rfl

theorem u16Skip (v : UInt16) (raw : Bytes) (p : Nat) : u16At (u16BE v ++ raw) (p + 2) = u16At raw p := by
  rw [u16Drop, u16Drop raw, Nat.add_comm, ← List.drop_drop, List.drop_left' (u16Length v)]

/- The fixed part of an answer between its name and its data. -/
def answerFront (size : Nat) : Bytes := u16BE typeTxt ++ (u16BE classIn ++ (be 4 60 ++ u16BE (.ofNat size)))

theorem frontLength (size : Nat) : (answerFront size).length = 10 := by
  simp only [answerFront, List.length_append, u16Length, beLength]

theorem frontType (size : Nat) (raw : Bytes) : u16At (answerFront size ++ raw) 0 = some typeTxt := by
  rw [answerFront, List.append_assoc, u16Written]

theorem frontSize (size : Nat) (raw : Bytes) : u16At (answerFront size ++ raw) 8 = some (.ofNat size) := by
  simp only [answerFront, List.append_assoc]
  rw [u16Skip _ _ 6, u16Skip _ _ 4]
  exact u16Behind (beLength 4 60) _ _

theorem answerName (value : String) (raw : Bytes) : skipName (answerRr value ++ raw) =
    some (answerFront (write (chunks 255 (asBytes value))).length ++ (write (chunks 255 (asBytes value)) ++ raw)) := by
  rw [answerRr, beHalf, answerFront]
  simp only [List.append_assoc, List.cons_append, List.nil_append]
  rw [skipName, if_neg (by decide), if_pos (by decide)]
  rfl

theorem answerRead {value : String} (fits : recordLength value ≤ 512) (n : Nat) (raw : Bytes) (out : List String) :
    readAnswers (n + 1) (answerRr value ++ raw) out =
      (readTxt (write (chunks 255 (asBytes value))) "").bind fun s => readAnswers n raw (out ++ [s]) := by
  have length := answerLength value
  rw [answerRr] at length
  rw [readAnswers, answerName]
  generalize write (chunks 255 (asBytes value)) = rdata at length ⊢
  have small : rdata.length < 2 ^ 16 := by
    simp only [List.length_append] at length
    omega
  have size : (UInt16.ofNat rdata.length).toNat = rdata.length := by
    rw [UInt16.toNat_ofNat', Nat.mod_eq_of_lt small]
  have data : (answerFront rdata.length ++ (rdata ++ raw)).drop 10 = rdata ++ raw := List.drop_left' (frontLength _)
  simp only [Option.bind_eq_bind, Option.bind_some, frontType, frontSize, size, ← List.drop_drop, data, List.drop_left, List.take_left, if_true]
  exact if_neg (by simp only [List.length_append, frontLength]; omega)

theorem answersRead {values : List String} (fit : ∀ value ∈ values, recordLength value ≤ 512) (out result : List String) :
    readAnswers values.length (values.map answerRr).flatten out = some result ↔ (∀ value ∈ values, Whole value) ∧ result = out ++ values := by
  induction values generalizing out with
  | nil =>
    rw [List.append_nil]
    exact ⟨fun same => ⟨by simp,(Option.some.inj same).symm⟩,fun same => congrArg some same.2.symm⟩
  | cons value values ih =>
    obtain ⟨first,others⟩ := List.forall_mem_cons.mp fit
    rw [List.map_cons, List.flatten_cons, List.length_cons, answerRead first, Option.bind_eq_some_iff, List.forall_mem_cons]
    simp only [rdataRead, ih others, List.append_assoc, List.singleton_append]
    constructor
    · rintro ⟨s,⟨whole,rfl⟩,rest,same⟩
      exact ⟨⟨whole,rest⟩,same⟩
    · rintro ⟨⟨whole,rest⟩,same⟩
      exact ⟨value,⟨whole,rfl⟩,rest,same⟩

end Reading

section Responses

def answerCount (resp : Bytes) : Option UInt16 := u16At resp 6

def truncated (resp : Bytes) : Prop := ∃ flags, u16At resp 2 = some flags ∧ flags &&& 0x0200 ≠ 0

/- What a reader is to get of the stored values. -/
def Carried (resp : Bytes) (stored : List String) : Prop :=
  ∃ values, values <+: stored ∧ parseTxtAnswers resp = values ∧ (∃ count, answerCount resp = some count ∧ count.toNat = values.length) ∧
    (truncated resp ↔ values.length < stored.length)

/- The leading values whose records there is room for. -/
def Fitting (labels stored leading : List String) : Prop :=
  leading <+: stored ∧ questionLength labels + (leading.map recordLength).sum ≤ 512

def header (id flags count : UInt16) : Bytes := u16BE id ++ (u16BE flags ++ (u16BE 1 ++ (u16BE count ++ (u16BE 0 ++ u16BE 0))))

theorem headerLength (id flags count : UInt16) : (header id flags count).length = 12 := by
  simp only [header, List.length_append, u16Length]

theorem headerFlags (id flags count : UInt16) (raw : Bytes) : u16At (header id flags count ++ raw) 2 = some flags := by
  simp only [header, List.append_assoc]
  exact u16Behind (u16Length id) _ _

theorem headerAsked (id flags count : UInt16) (raw : Bytes) : u16At (header id flags count ++ raw) 4 = some 1 := by
  simp only [header, List.append_assoc]
  rw [u16Skip _ _ 2]
  exact u16Behind (u16Length flags) _ _

theorem headerCount (id flags count : UInt16) (raw : Bytes) : u16At (header id flags count ++ raw) 6 = some count := by
  simp only [header, List.append_assoc]
  rw [u16Skip _ _ 4, u16Skip _ _ 2]
  exact u16Behind (u16Length 1) _ _

variable {q : Query} {txts : List String}

/- How many answers a response to the query carries. -/
def carriedCount (q : Query) (txts : List String) : Nat :=
  included (maxUdpResponseBytes - (12 + nameWireLen q.name + 4)) (answerRrs q txts)

theorem responseLayout (q : Query) (txts : List String) : buildResponse q txts =
    header q.id (if carriedCount q txts < (answerRrs q txts).length then 0x8600 else 0x8400) (.ofNat (carriedCount q txts)) ++
      (encodeName q.name ++ (u16BE q.qtype ++ (u16BE q.qclass ++ ((answerRrs q txts).take (carriedCount q txts)).flatten))) := by
  simp only [buildResponse, header, beHalf, List.append_assoc]
  rfl

theorem responseLength (room : 12 + nameWireLen q.name + 4 ≤ 512) : (buildResponse q txts).length ≤ 512 := by
  have fit := @includedFit (maxUdpResponseBytes - (12 + nameWireLen q.name + 4)) (answerRrs q txts)
  rw [responseLayout]
  simp only [List.length_append, headerLength, u16Length, List.length_flatten, ← wireLength]
  change _ ≤ 512 - _ at fit
  rw [carriedCount]
  omega

theorem flagsTruncated (few : Prop) [Decidable few] : (if few then 0x8600 else 0x8400 : UInt16) &&& 0x0200 ≠ 0 ↔ few := by
  split
  · rename_i some'
    simp only [some', iff_true]
    decide
  · rename_i none'
    simp only [none', iff_false]
    decide

theorem questionSkipped {encoded answers : Bytes} {labels : List String} {id flags count qtype qclass : UInt16}
    (at' : LabelsAt (encoded ++ (u16BE qtype ++ (u16BE qclass ++ answers))) labels (u16BE qtype ++ (u16BE qclass ++ answers))) :
    parse (header id flags count ++ (encoded ++ (u16BE qtype ++ (u16BE qclass ++ answers)))) = readAnswers count.toNat answers [] := by
  have behind : (u16BE qtype ++ (u16BE qclass ++ answers)).drop 4 = answers := by
    rw [← List.append_assoc]
    exact List.drop_left' (by simp only [List.length_append, u16Length])
  rw [parse, if_neg (by simp [headerLength]), headerAsked, headerCount, List.drop_left' (headerLength id flags count)]
  change (skipName _ >>= fun raw => skipQuestions 0 (raw.drop 4)) >>= _ = _
  rw [skipNameWritten at']
  change readAnswers count.toNat ((u16BE qtype ++ (u16BE qclass ++ answers)).drop 4) [] = _
  rw [behind]

theorem carriedValues (type : q.qtype = typeTxt) :
    (answerRrs q txts).take (carriedCount q txts) = (txts.take (carriedCount q txts)).map answerRr ∧
      carriedCount q txts ≤ txts.length ∧ ((txts.take (carriedCount q txts)).map recordLength).sum ≤ 512 - (12 + nameWireLen q.name + 4) := by
  have bounded := @includedBounded (maxUdpResponseBytes - (12 + nameWireLen q.name + 4)) (answerRrs q txts)
  have fit := @includedFit (maxUdpResponseBytes - (12 + nameWireLen q.name + 4)) (answerRrs q txts)
  have records : answerRrs q txts = txts.map answerRr := if_pos type
  have taken : (answerRrs q txts).take (carriedCount q txts) = (txts.take (carriedCount q txts)).map answerRr := by
    rw [records, List.map_take]
  rw [← carriedCount, records, List.length_map] at bounded
  have lengths : List.length ∘ answerRr = recordLength := funext answerLength
  rw [← carriedCount, taken, List.map_map, lengths] at fit
  exact ⟨taken,bounded,fit⟩

theorem carriedSmall (type : q.qtype = typeTxt) : (UInt16.ofNat (carriedCount q txts)).toNat = carriedCount q txts := by
  obtain ⟨-,bounded,fit⟩ := @carriedValues q txts type
  have some' := List.length_le_sum_of_one_le ((txts.take (carriedCount q txts)).map recordLength) (by
    intro n mem
    obtain ⟨value,-,rfl⟩ := List.mem_map.mp mem
    rw [recordLength]
    omega)
  rw [List.length_map, List.length_take_of_le bounded] at some'
  rw [UInt16.toNat_ofNat', Nat.mod_eq_of_lt (by omega)]

theorem responseRead {labels : List String} (short : ∀ label ∈ labels, Short label) (undotted : ∀ label ∈ labels, '.' ∉ lowered label)
    (name : q.name = nameOf labels) (type : q.qtype = typeTxt) (result : List String) :
    parse (buildResponse q txts) = some result ↔
      (∀ value ∈ txts.take (carriedCount q txts), Whole value) ∧ result = txts.take (carriedCount q txts) := by
  obtain ⟨taken,bounded,fit⟩ := @carriedValues q txts type
  have each : ∀ value ∈ txts.take (carriedCount q txts), recordLength value ≤ 512 := by
    intro value mem
    have one := List.le_sum_of_mem (List.mem_map_of_mem (f := recordLength) mem)
    omega
  have at' : LabelsAt (encodeName q.name ++ (u16BE q.qtype ++ (u16BE q.qclass ++ ((txts.take (carriedCount q txts)).map answerRr).flatten)))
      (labels.map lower) (u16BE q.qtype ++ (u16BE q.qclass ++ ((txts.take (carriedCount q txts)).map answerRr).flatten)) := by
    refine ⟨?_,?_⟩
    · rw [name, undottedName (fun label mem => (short label mem).1) undotted, List.append_assoc]
      rfl
    · intro label mem
      obtain ⟨source,mem',rfl⟩ := List.mem_map.mp mem
      exact lowerShort (short source mem')
  have read := answersRead each [] result
  rw [List.nil_append] at read
  rw [← read, responseLayout, taken, questionSkipped at', carriedSmall type]
  exact iff_of_eq (by rw [List.length_take_of_le bounded])

theorem carriedIff {labels : List String} (short : ∀ label ∈ labels, Short label) (undotted : ∀ label ∈ labels, '.' ∉ lowered label)
    (name : q.name = nameOf labels) (type : q.qtype = typeTxt) :
    Carried (buildResponse q txts) txts ↔ ∀ value ∈ txts.take (carriedCount q txts), Whole value := by
  obtain ⟨-,bounded,fit⟩ := @carriedValues q txts type
  have read := @responseRead q txts labels short undotted name type
  have records : (answerRrs q txts).length = txts.length := by
    rw [answerRrs, if_pos type, List.length_map]
  have small : (UInt16.ofNat (carriedCount q txts)).toNat = carriedCount q txts := carriedSmall type
  have counted : answerCount (buildResponse q txts) = some (.ofNat (carriedCount q txts)) := by
    rw [answerCount, responseLayout, headerCount]
  constructor
  · rintro ⟨values,-,parsed,⟨count,found,length⟩,-⟩ value mem
    rw [counted] at found
    obtain rfl := Option.some.inj found
    cases result : parse (buildResponse q txts) with
    | none =>
      rw [parseTxtAnswers, result] at parsed
      obtain rfl := parsed
      rw [small, Option.getD_none, List.length_nil] at length
      rw [length, List.take_zero] at mem
      contradiction
    | some parts => exact ((read parts).mp result).1 value mem
  · intro whole
    have parsed := (read _).mpr ⟨whole,rfl⟩
    have length : (txts.take (carriedCount q txts)).length = carriedCount q txts := List.length_take_of_le bounded
    refine ⟨txts.take (carriedCount q txts),List.take_prefix _ _,?_,⟨_,counted,small.trans length.symm⟩,?_⟩
    · rw [parseTxtAnswers, parsed, Option.getD_some]
    · rw [truncated, responseLayout, headerFlags, length, records]
      constructor
      · rintro ⟨flags,same,bit⟩
        cases Option.some.inj same
        exact (flagsTruncated _).mp bit
      · exact fun few => ⟨_,rfl,(flagsTruncated _).mpr few⟩

/- The leading values with room are those the response carries. -/
theorem fittingTaken {labels : List String} (short : ∀ label ∈ labels, Short label) (name : q.name = nameOf labels) (type : q.qtype = typeTxt)
    (room : questionLength labels ≤ 512) :
    12 + nameWireLen q.name + 4 = questionLength labels ∧ Fitting labels txts (txts.take (carriedCount q txts)) ∧
      ∀ leading, Fitting labels txts leading → leading <+: txts.take (carriedCount q txts) := by
  obtain ⟨taken,bounded,fit⟩ := @carriedValues q txts type
  have wire : 12 + nameWireLen q.name + 4 = questionLength labels := by
    rw [wireLength, name, nameLength fun label mem => (short label mem).1, writeLength, List.map_map, questionLength]
    exact Nat.add_assoc 12 _ 4 ▸ rfl
  refine ⟨wire,⟨List.take_prefix _ _,by omega⟩,?_⟩
  rintro leading ⟨front,fits⟩
  have records : answerRrs q txts = txts.map answerRr := if_pos type
  have lengths : List.length ∘ answerRr = recordLength := funext answerLength
  have most : leading.map answerRr <+: (answerRrs q txts).take (carriedCount q txts) := by
    refine includedMost (records ▸ front.map answerRr) ?_
    rw [List.map_map, lengths, wire]
    exact Nat.le_sub_of_add_le ((Nat.add_comm _ _).trans_le fits)
  have count := most.length_le
  rw [taken, List.length_map, List.length_map] at count
  exact List.prefix_of_prefix_length_le front (List.take_prefix _ _) count

theorem questionRoom {buf : Bytes} {labels : List String} {qtype qclass : UInt16} (question : Question buf labels qtype qclass) :
    questionLength labels ≤ buf.length := by
  obtain ⟨rest,at'⟩ := question.written
  have length := congrArg List.length at'.written
  simp only [List.length_drop, List.length_append, List.length_cons, u16Length, writeLength, List.map_map] at length
  change _ = (labels.map fun label => 1 + (asBytes label).length).sum + _ at length
  rw [questionLength]
  omega

theorem answered (store : AcmeDnsStore) {buf : Bytes} {labels : List String} {qtype qclass : UInt16}
    (question : Question buf labels qtype qclass) : ∃ id, respond store buf =
      some (buildResponse ⟨id,nameOf labels,qtype,qclass⟩ (store.txt (nameOf labels))) ∧ u16BE id = buf.take 2 := by
  obtain ⟨id,parsed,bytes⟩ := questionParsed question
  refine ⟨id,?_,bytes⟩
  rw [respond, parsed]
  rfl

theorem dotless {labels : List String} (undotted : ∀ label ∈ labels, '.' ∉ label.toList) : ∀ label ∈ labels, '.' ∉ lowered label := by
  intro label mem dot
  obtain ⟨c,char,low⟩ := List.mem_map.mp dot
  exact undotted label mem ((Hostnames.toLowerDot c).mp low ▸ char)

/- A value of 254 letters and one letter of two bytes. -/
def cutLetter : String := .ofList (.replicate 254 'a' ++ ['é'])

def askA : Bytes := [0,7,1,0,0,1,0,0,0,0,0,0,1,97,0,0,16,0,1]

theorem askedA : Question askA ["a"] typeTxt classIn :=
  ⟨by decide,⟨1,by decide,by decide⟩,[],by decide,by decide⟩

theorem cutBytes (n : Nat) : asBytes (.ofList (.replicate n 'a' ++ ['é'])) = List.replicate n 97 ++ [0xC3,0xA9] := by
  have one : String.utf8EncodeChar 'a' = [97] := by decide
  have two : List.flatMap String.utf8EncodeChar ['é'] = [0xC3,0xA9] := by decide
  rw [textBytes, List.flatMap_append, List.flatMap_replicate, one, List.flatten_replicate_singleton, two]

theorem cutLength (n : Nat) : (asBytes (.ofList (.replicate n 'a' ++ ['é']))).length = n + 2 := by
  rw [cutBytes, List.length_append, List.length_replicate]
  rfl

theorem cutFits : Fitting ["a"] [cutLetter] [cutLetter] := by
  have length : (asBytes cutLetter).length = 256 := cutLength 254
  refine ⟨List.prefix_rfl,?_⟩
  rw [List.map_singleton, recordLength, length]
  decide

set_option maxRecDepth 4000 in
theorem cutRefused : fromUtf8 (List.replicate 254 97 ++ [0xC3]) = none := by decide

theorem cutPart (n : Nat) : List.replicate n 97 ++ [0xC3] ∈ chunks (n + 1) (asBytes (.ofList (.replicate n 'a' ++ ['é']))) := by
  have first : (List.replicate n 97 ++ [0xC3,0xA9] : Bytes).take (n + 1) = List.replicate n 97 ++ [0xC3] := by
    rw [List.take_append, List.length_replicate, List.take_of_length_le (by simp), Nat.add_sub_cancel_left]
    rfl
  rw [cutBytes, chunksCons (by simp) (by omega), first]
  exact List.mem_cons_self ..

theorem cutBroken : ¬ Whole cutLetter := by
  intro whole
  have read : (fromUtf8 (List.replicate 254 97 ++ [0xC3])).isSome := whole _ (cutPart 254)
  rw [cutRefused] at read
  contradiction

end Responses
end CadsTunnel.DnsAnswers
