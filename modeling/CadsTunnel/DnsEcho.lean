import CadsTunnel.DnsAnswers

/-! Whether a response repeats the question it answers. The name is read into lower-case
text, where a dot inside a label is no longer told from one between labels. -/
namespace CadsTunnel.DnsEcho
open Words AsciiCase ByteReads ShortStrings OrderedMap DnsMessage DnsAnswers

/- The name, type and class of the first question, as they stand in the datagram. -/
def firstQuestion (buf : Bytes) : Option Bytes := do
  let rest ← skipName (buf.drop 12)
  if rest.length < 4 then none
  else return (buf.drop 12).take ((buf.drop 12).length - rest.length + 4)

section Parts

theorem splitParts {α : Type} [DecidableEq α] {sep : α} {cs part : List α} (mem : part ∈ cs.splitOn sep) : sep ∉ part ∧ part ⊆ cs := by
  induction cs generalizing part with
  | nil =>
    obtain rfl := List.mem_singleton.mp mem
    simp
  | cons c cs ih =>
    rw [List.splitOn_cons_eq_if_modifyHead] at mem
    split at mem
    · rcases List.mem_cons.mp mem with rfl | mem
      · simp
      · exact ⟨(ih mem).1,List.subset_cons_of_subset c (ih mem).2⟩
    · rename_i plain
      obtain ⟨first,rest,cut⟩ := List.exists_cons_of_ne_nil (List.splitOn_ne_nil sep cs)
      rw [cut] at ih mem
      rw [List.modifyHead_cons] at mem
      rcases List.mem_cons.mp mem with rfl | mem
      · obtain ⟨clean,inside⟩ := ih (List.mem_cons_self ..)
        exact ⟨List.not_mem_cons_of_ne_of_not_mem (fun same => plain (beq_iff_eq.mpr same.symm)) clean,List.cons_subset_cons c inside⟩
      · obtain ⟨clean,inside⟩ := ih (List.mem_cons_of_mem _ mem)
        exact ⟨clean,List.subset_cons_of_subset c inside⟩

theorem partShort {label : String} (short : Short label) {part : List Char} (mem : part ∈ (lowered label).splitOn '.') :
    (asBytes (.ofList part)).length < 64 := by
  have weight := List.le_sum_of_mem (List.mem_map_of_mem (f := fun part => 1 + (asBytes (.ofList part)).length) mem)
  rw [partsWeight] at weight
  have length := lowerLength label
  have bound := short.2
  rw [lower] at length
  omega

/- Text that a lower-case name can be cut into. -/
def Plain (label : String) : Prop := ∀ c ∈ label.toList, ¬ c.isUpper ∧ c ≠ '.'

theorem partPlain {label : String} {part : List Char} (mem : part ∈ (lowered label).splitOn '.') : Plain (.ofList part) := by
  intro c char
  rw [String.toList_ofList] at char
  obtain ⟨clean,inside⟩ := splitParts mem
  obtain ⟨source,-,rfl⟩ := List.mem_map.mp (inside char)
  refine ⟨by simp,?_⟩
  rintro same
  exact clean (same ▸ char)

theorem plainLowered {label : String} (plain : Plain label) : lowered label = label.toList :=
  (List.map_congr_left fun c char => Char.toLower_eq_of_not_isUpper (plain c char).1).trans (List.map_id' _)

end Parts

section Echo
variable {labels : List String}

theorem plainName (named : ∀ label ∈ labels, label ≠ "") (plain : ∀ label ∈ labels, Plain label) :
    encodeName (nameOf labels) = write (labels.map asBytes) ++ [0] := by
  have same : labels.map lower = labels := by
    refine (List.map_congr_left fun label mem => ?_).trans (List.map_id' _)
    rw [lower, plainLowered (plain label mem), String.ofList_toList]
  rw [undottedName named, same]
  intro label mem dot
  rw [plainLowered (plain label mem)] at dot
  exact (plain label mem '.' dot).2 rfl

/- Only such labels come back as they were. -/
theorem namePlain (short : ∀ label ∈ labels, Short label) (same : encodeName (nameOf labels) = write (labels.map asBytes) ++ [0]) :
    ∀ label ∈ labels, Plain label := by
  by_cases none' : labels = []
  · rw [none']
    simp
  · have named : ∀ label ∈ labels, label ≠ "" := fun label mem => (short label mem).1
    rw [encodeName, if_neg (by simpa using nameSome named none')] at same
    have parts : ∀ part ∈ split (nameOf labels), (asBytes part).length < 256 ∧ Plain part := by
      intro part mem
      rw [nameSplit named none'] at mem
      obtain ⟨label,source,mem⟩ := List.mem_flatMap.mp mem
      obtain ⟨cs,piece,rfl⟩ := List.mem_map.mp mem
      exact ⟨(partShort (short label source) piece).trans (by decide),partPlain piece⟩
    have back := writeInjective (List.forall_mem_map.mpr fun part mem => (parts part mem).1)
      (List.forall_mem_map.mpr fun label mem => (short label mem).2.trans (by decide)) same
    rw [← List.map_injective_iff.mpr asBytesInjective back]
    exact fun part mem => (parts part mem).2

theorem questionBytes {buf rest : Bytes} {qtype qclass : UInt16}
    (at' : LabelsAt (buf.drop 12) labels (u16BE qtype ++ (u16BE qclass ++ rest))) :
    firstQuestion buf = some (write (labels.map asBytes) ++ [0] ++ (u16BE qtype ++ u16BE qclass)) := by
  have length : (buf.drop 12).length - (u16BE qtype ++ (u16BE qclass ++ rest)).length + 4 =
      (write (labels.map asBytes) ++ [0] ++ (u16BE qtype ++ u16BE qclass)).length := by
    rw [at'.written]
    simp only [List.length_append, List.length_cons, List.length_nil, u16Length]
    omega
  have layout : buf.drop 12 = write (labels.map asBytes) ++ [0] ++ (u16BE qtype ++ u16BE qclass) ++ rest := by
    rw [at'.written]
    simp only [List.append_assoc, List.cons_append, List.nil_append]
  rw [firstQuestion, skipNameWritten at', Option.bind_eq_bind, Option.bind_some, if_neg (by simp only [List.length_append, u16Length]; omega), length, layout, List.take_left]
  rfl

/- What a reader finds starts with what is written there. -/
theorem questionFront {buf found : Bytes} (reads : firstQuestion buf = some found) : found <+: buf.drop 12 := by
  rw [firstQuestion] at reads
  obtain ⟨rest,-,taken⟩ := Option.bind_eq_some_iff.mp reads
  split at taken <;> try contradiction
  cases Option.some.inj taken
  exact List.take_prefix _ _

theorem responseQuestion {q : Query} (txts : List String) (name : q.name = nameOf labels) : ∃ answers,
    (buildResponse q txts).drop 12 = encodeName (nameOf labels) ++ (u16BE q.qtype ++ (u16BE q.qclass ++ answers)) := by
  refine ⟨((answerRrs q txts).take (carriedCount q txts)).flatten,?_⟩
  rw [responseLayout, List.drop_left' (headerLength _ _ _), name]

theorem echoedPlain {buf : Bytes} {q : Query} (txts : List String) (question : Question buf labels q.qtype q.qclass)
    (name : q.name = nameOf labels) (same : firstQuestion (buildResponse q txts) = firstQuestion buf) : ∀ label ∈ labels, Plain label := by
  obtain ⟨rest,at'⟩ := question.written
  obtain ⟨answers,behind⟩ := responseQuestion txts name
  obtain ⟨tail,front⟩ := questionFront (same.trans (questionBytes at'))
  rw [behind, List.append_assoc] at front
  have length := nameLength fun label mem => (at'.short label mem).1
  have named := List.append_inj_left front (by rw [length, List.length_append, List.length_singleton])
  exact namePlain at'.short named.symm

theorem plainEchoed {buf : Bytes} {q : Query} (txts : List String) (question : Question buf labels q.qtype q.qclass)
    (name : q.name = nameOf labels) (plain : ∀ label ∈ labels, Plain label) : firstQuestion (buildResponse q txts) = firstQuestion buf := by
  obtain ⟨rest,at'⟩ := question.written
  obtain ⟨answers,behind⟩ := responseQuestion txts name
  have written : LabelsAt ((buildResponse q txts).drop 12) labels (u16BE q.qtype ++ (u16BE q.qclass ++ answers)) := by
    refine ⟨?_,at'.short⟩
    rw [behind, plainName (fun label mem => (at'.short label mem).1) plain, List.append_assoc]
    rfl
  rw [questionBytes at', questionBytes written]

theorem questionEchoed (store : AcmeDnsStore) {buf resp : Bytes} (responds : respond store buf = some resp) :
    ∃ labels qtype qclass, Question buf labels qtype qclass ∧
      (firstQuestion resp = firstQuestion buf ↔ ∀ label ∈ labels, ∀ c ∈ label.toList, ¬ c.isUpper ∧ c ≠ '.') := by
  obtain ⟨q,parsed,built⟩ := Option.bind_eq_some_iff.mp responds
  cases Option.some.inj built
  obtain ⟨labels,question,name,-⟩ := parsedQuestion parsed
  exact ⟨labels,q.qtype,q.qclass,question,echoedPlain _ question name,plainEchoed _ question name⟩

theorem smallEchoed : ∃ resp, respond ∅ askA = some resp ∧ ∃ labels qtype qclass, Question askA labels qtype qclass ∧
    (firstQuestion resp = firstQuestion askA ↔ ∀ label ∈ labels, ∀ c ∈ label.toList, ¬ c.isUpper ∧ c ≠ '.') := by
  obtain ⟨id,responds,-⟩ := answered ∅ askedA
  exact ⟨_,responds,questionEchoed ∅ responds⟩

/- The question is for the name "A". -/
def askCapital : Bytes := [0,7,1,0,0,1,0,0,0,0,0,0,1,65,0,0,16,0,1]

theorem capitalLost : ¬ ∀ (store : AcmeDnsStore) (buf resp : Bytes), respond store buf = some resp → firstQuestion resp = firstQuestion buf := by
  intro claim
  have question : Question askCapital ["A"] typeTxt classIn := ⟨by decide,⟨1,by decide,by decide⟩,[],by decide,by decide⟩
  obtain ⟨id,responds,-⟩ := answered ∅ question
  have plain := @echoedPlain ["A"] askCapital ⟨id,nameOf ["A"],typeTxt,classIn⟩ _ question rfl (claim ∅ askCapital _ responds)
  exact (plain "A" (by decide) 'A' (by decide)).1 (by decide)

end Echo
end CadsTunnel.DnsEcho
