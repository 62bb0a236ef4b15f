import CadsTunnel.Sql
import CadsTunnel.Machine
import CadsTunnel.LikePattern

/-! The searchable directory of the agents. The tokens an agent advertises are joined by
newlines into one column, and a search asks the database for a pattern in the column; what
comes back is split again. -/
namespace CadsTunnel.AgentDirectory
open OrderedMap Sql LikePattern
open Std (ExtTreeMap)

/- A row of `agent_cards`. -/
structure CardRow where
  cardUrl : String
  roleTags : String
  skillIds : String
  registeredAt : Int

structure AgentDirectoryEntry where
  holderPubkey : String
  cardUrl : String
  roleTags : List String
  skillIds : List String
  registeredAt : UInt64
  deriving DecidableEq

def splitTokens (s : String) : List String := if s.isEmpty then [] else (s.toList.splitOn '\n').map String.ofList

def replace (c : Char) (other : List Char) (s : List Char) : List Char := s.flatMap (fun x => if x = c then other else [x])

def likeEscapeToken (s : String) : String :=
  .ofList (replace '_' ['\\','_'] (replace '%' ['\\','%'] (replace '\\' ['\\','\\'] s.toList)))

inductive AgentDirectoryError where
  | invalidToken (token : String)
  deriving DecidableEq

/- What an agent registers with. -/
structure Registration where
  holderPubkey : String
  cardUrl : String
  roleTags : List String
  skillIds : List String
  now : UInt64

def delimiter (token : String) : Bool := token.toList.contains '\n' || token.toList.contains '\r'

def rowOf (c : Registration) : CardRow := ⟨c.cardUrl,"\n".intercalate c.roleTags,"\n".intercalate c.skillIds,asI64 c.now⟩

def register (cards : BTreeMap String CardRow) (c : Registration) : Except AgentDirectoryError Unit × BTreeMap String CardRow :=
  match (c.roleTags ++ c.skillIds).find? delimiter with
  | some token => (.error (.invalidToken token),cards)
  | none => (.ok (),cards.insert c.holderPubkey (rowOf c))

/- The longest pattern, in bytes, that the database takes. -/
def likePatternLimit : Nat := 50000

def like (text pattern : String) : Except SqlError Bool :=
  if pattern.utf8ByteSize > likePatternLimit then .error .failure else .ok (likeMatch (readable pattern.toList) (readable text.toList))

def pattern (token : String) : String := "%\n" ++ likeEscapeToken token ++ "\n%"

def facet (query : Option String) (column : String) : Except SqlError Bool :=
  match query with
  | none => .ok true
  | some token => like ("\n" ++ column ++ "\n") (pattern token)

/- The second condition is looked at where the first holds. -/
def selects (role skill : Option String) (row : CardRow) : Except SqlError Bool := do
  let hit ← facet role row.roleTags
  if hit then facet skill row.skillIds else pure false

def selected (role skill : Option String) : List (String × CardRow) → Except SqlError (List (String × CardRow))
  | [] => pure []
  | e :: rest => do
    let hit ← selects role skill e.2
    let later ← selected role skill rest
    pure (if hit then e :: later else later)

def entryOf (e : String × CardRow) : AgentDirectoryEntry := ⟨e.1,e.2.cardUrl,splitTokens e.2.roleTags,splitTokens e.2.skillIds,asU64 e.2.registeredAt⟩

def search (role skill : Option String) (cards : BTreeMap String CardRow) : Except SqlError (List AgentDirectoryEntry) := do
  let rows ← selected role skill cards.toList
  pure (rows.map entryOf)

/- What a search is to find: who registered last with the tokens. -/
def lastRegistered (holder : String) (calls : List Registration) : Option Registration :=
  calls.reverse.find? (fun c => !(c.roleTags ++ c.skillIds).any delimiter && c.holderPubkey = holder)

def Offers (query : Option String) (tokens : List String) : Prop := ∀ token, query = some token → token ∈ tokens

structure Answers (calls : List Registration) (role skill : Option String) (found : List AgentDirectoryEntry) : Prop where
  sorted : found.Pairwise (fun a b => compare a.holderPubkey b.holderPubkey = .lt)
  each : ∀ entry, entry ∈ found ↔ ∃ c, lastRegistered entry.holderPubkey calls = some c ∧ Offers role c.roleTags ∧ Offers skill c.skillIds ∧
    entry = ⟨c.holderPubkey,c.cardUrl,c.roleTags,c.skillIds,c.now⟩

/- The lines of a text, without the case of the ASCII letters. -/
def lines (text : List Char) : List (List Char) := (text.map folded).splitOn '\n'

/- The tokens as the pattern meets them; the last line is an open one. -/
def shown (tokens : List String) : List (List Char) := lines (readable (("\n".intercalate tokens).toList ++ ['\n']))

/- The lines of the query are tokens in a row; after a NUL in the query they are the last ones before the text ends. -/
def Met (token : String) (tokens : List String) : Prop :=
  if '\x00' ∈ token.toList then lines (readable token.toList) <:+ shown tokens else lines token.toList <:+: (shown tokens).dropLast

def MetBy (query : Option String) (tokens : List String) : Prop := ∀ token, query = some token → Met token tokens

def Short (query : Option String) : Prop := ∀ token, query = some token → (pattern token).utf8ByteSize ≤ likePatternLimit

/- An agent on which the pattern and the tokens agree, and whose tokens come back as they went in. -/
structure Plain (role skill : Option String) (c : Registration) : Prop where
  roleShort : Short role
  skillShort : MetBy role c.roleTags → Short skill
  exact : MetBy role c.roleTags → MetBy skill c.skillIds → Offers role c.roleTags ∧ Offers skill c.skillIds
  visible : Offers role c.roleTags → Offers skill c.skillIds → MetBy role c.roleTags ∧ MetBy skill c.skillIds
  listed : Offers role c.roleTags → Offers skill c.skillIds → c.roleTags ≠ [""] ∧ c.skillIds ≠ [""]

theorem asU64Back (v : UInt64) : asU64 (asI64 v) = v := by
  have bound := v.toNat_lt
  refine UInt64.toNat_inj.mp ?_
  rw [asU64, UInt64.toNat_ofNat', asI64]
  split <;> omega

section Patterns
variable {tokens : List String}

theorem escapeToken (s : String) : (likeEscapeToken s).toList = escaped s.toList := by
  rw [likeEscapeToken, String.toList_ofList, replace, replace, replace, List.flatMap_assoc, List.flatMap_assoc, escaped]
  refine congrArg (fun f => List.flatMap f s.toList) ?_
  funext c
  by_cases slash : c = '\\'
  · subst slash
    decide
  · by_cases percent : c = '%'
    · subst percent
      decide
    · by_cases line : c = '_'
      · subst line
        decide
      · simp [special, slash, percent, line]

theorem patternChars (token : String) : (pattern token).toList = '%' :: (escaped ('\n' :: (token.toList ++ ['\n'])) ++ ['%']) := by
  have bare : escaped ('\n' :: (token.toList ++ ['\n'])) = '\n' :: (escaped token.toList ++ ['\n']) := by
    rw [← List.singleton_append, escapedAppend, escapedAppend]
    rfl
  rw [pattern, String.toList_append, String.toList_append, escapeToken, bare]
  simp

theorem readableEscaped (word rest : List Char) :
    readable (escaped word ++ rest) = if '\x00' ∈ word then escaped (readable word) else escaped word ++ readable rest := by
  induction word with
  | nil => rfl
  | cons c word ih =>
    rw [← List.singleton_append, escapedAppend, List.append_assoc]
    by_cases ends : c = '\x00'
    · subst ends
      rw [if_pos (by simp)]
      rfl
    · have kept (text : List Char) : readable (escaped [c] ++ text) = escaped [c] ++ readable text := by
        rw [escaped, List.flatMap_singleton]
        cases special c <;> simp [readable, ends]
      have front : readable ([c] ++ word) = [c] ++ readable word := by simp [readable, ends]
      rw [kept, ih, front, escapedAppend]
      by_cases inside : '\x00' ∈ word
      · rw [if_pos inside, if_pos (by simp [inside])]
      · rw [if_neg inside, if_neg (by simp [inside, Ne.symm ends]), List.append_assoc]

theorem readableEnds {text : List Char} (ends : '\x00' ∈ text) (rest : List Char) : readable (text ++ rest) = readable text := by
  obtain ⟨before,after,rfl,clean⟩ := List.eq_append_cons_of_mem ends
  have front : ∀ c ∈ before, decide (c ≠ '\x00') = true := fun c mem => decide_eq_true (fun same => clean (same ▸ mem))
  rw [List.append_assoc, readable, readable, List.takeWhile_append_of_pos front, List.takeWhile_append_of_pos front]
  rfl

theorem readableClean {text : List Char} (clean : '\x00' ∉ text) : readable text = text := by
  rw [readable, List.takeWhile_eq_self_iff]
  intro c mem
  exact decide_eq_true (fun same => clean (same ▸ mem))

/- The pattern of a token meets a column where its lines are tokens in a row. -/
theorem likeMet (token : String) (tokens : List String) (short : (pattern token).utf8ByteSize ≤ likePatternLimit) :
    ∃ hit, like ("\n" ++ "\n".intercalate tokens ++ "\n") (pattern token) = .ok hit ∧ (hit = true ↔ Met token tokens) := by
  have column : readable ("\n" ++ "\n".intercalate tokens ++ "\n").toList = '\n' :: readable (("\n".intercalate tokens).toList ++ ['\n']) := by
    rw [String.toList_append, String.toList_append]
    rfl
  have asked : readable (pattern token).toList = '%' :: readable (escaped ('\n' :: (token.toList ++ ['\n'])) ++ ['%']) := by
    rw [patternChars]
    rfl
  have line : folded '\n' = '\n' := by decide
  rw [like, if_neg (not_lt.mpr short)]
  refine ⟨_,rfl,?_⟩
  rw [asked, column, readableEscaped, Met]
  by_cases ends : '\x00' ∈ token.toList
  · have front : readable ('\n' :: (token.toList ++ ['\n'])) = '\n' :: readable token.toList := by
      show '\n' :: readable (token.toList ++ ['\n']) = _
      rw [readableEnds ends]
    rw [if_pos (by simp [ends]), if_pos ends, front, matchSuffix, List.map_cons, List.map_cons, line]
    exact suffixPieces
  · have whole : '\x00' ∉ '\n' :: (token.toList ++ ['\n']) := by simp [ends]
    rw [if_neg whole, if_neg ends]
    show likeMatch ('%' :: (escaped _ ++ ['%'])) _ = true ↔ _
    rw [matchInfix, List.map_cons, List.map_cons, List.map_append, List.map_singleton, line]
    exact infixPieces

theorem lineFolded (c : Char) : folded c = '\n' ↔ c = '\n' := by
  rw [folded]
  split
  case isTrue odd =>
    refine iff_of_false (by decide) ?_
    rintro rfl
    exact absurd odd (by decide)
  case isFalse =>
    rw [Char.toLower]
    split
    case isTrue upper =>
      have high : 65 ≤ c.val.toNat := UInt32.le_iff_toNat_le.mp upper.1
      have low : c.val.toNat ≤ 90 := UInt32.le_iff_toNat_le.mp upper.2
      refine iff_of_false ?_ ?_
      · intro same
        have value : (c.val.toNat + 32) % 4294967296 = 10 := congrArg (fun c : Char => c.val.toNat) same
        omega
      · rintro rfl
        exact absurd high (by decide)
    case isFalse => exact Iff.rfl

theorem noLine {token : String} (free : delimiter token = false) : '\n' ∉ token.toList := by
  simp only [delimiter, Bool.or_eq_false_iff, List.contains_eq_mem, decide_eq_false_iff_not] at free
  exact free.1

theorem lineFree {token : String} (free : delimiter token = false) : '\n' ∉ token.toList.map folded := by
  intro broken
  obtain ⟨c,within,same⟩ := List.mem_map.mp broken
  rw [lineFolded] at same
  exact noLine free (same ▸ within)

theorem joinFolded (pieces : List (List Char)) :
    (['\n'].intercalate pieces).map folded = ['\n'].intercalate (pieces.map (List.map folded)) := by
  induction pieces with
  | nil => rfl
  | cons piece rest ih =>
    cases rest with
    | nil => simp [List.intercalate_singleton]
    | cons next rest =>
      rw [List.map_cons, List.map_cons, List.intercalate_cons_cons, List.intercalate_cons_cons, List.map_append, List.map_append, ih, List.map_cons]
      rfl

theorem joinClean {c : Char} (other : c ≠ '\n') {pieces : List (List Char)} (clean : ∀ piece ∈ pieces, c ∉ piece) : c ∉ ['\n'].intercalate pieces := by
  induction pieces with
  | nil => exact List.not_mem_nil
  | cons piece rest ih =>
    have here := clean piece List.mem_cons_self
    cases rest with
    | nil => rwa [List.intercalate_singleton]
    | cons next rest =>
      have later := ih (fun p mem => clean p (List.mem_cons_of_mem _ mem))
      rw [List.intercalate_cons_cons, List.mem_append, List.mem_append, List.mem_singleton]
      rintro ((mem | same) | mem)
      · exact here mem
      · exact other same
      · exact later mem

/- Away from NULs: the lines of the query, without their case, are tokens in a row; no tokens read like an empty one. -/
theorem metPlain {token : String} {tokens : List String} (readable' : '\x00' ∉ token.toList)
    (clean : ∀ t ∈ tokens, delimiter t = false ∧ '\x00' ∉ t.toList) :
    Met token tokens ↔ lines token.toList <:+: if tokens = [] then [[]] else tokens.map (fun t => t.toList.map folded) := by
  have whole : '\x00' ∉ ("\n".intercalate tokens).toList ++ ['\n'] := by
    rw [String.toList_intercalate, List.mem_append, not_or]
    refine ⟨joinClean (by decide) ?_,by decide⟩
    intro piece mem
    obtain ⟨t,inside,rfl⟩ := List.mem_map.mp mem
    exact (clean t inside).2
  have pieces : shown tokens = (("\n".intercalate tokens).toList.map folded).splitOn '\n' ++ [[]] := by
    rw [shown, readableClean whole, lines, List.map_append, List.map_singleton]
    exact List.splitOn_append_cons_self _ _
  rw [Met, if_neg readable', pieces, List.dropLast_concat, String.toList_intercalate]
  split
  case isTrue none' =>
    rw [none']
    exact Iff.rfl
  case isFalse some' =>
    have apart : ((['\n'].intercalate (tokens.map String.toList)).map folded).splitOn '\n' = tokens.map (fun t => t.toList.map folded) := by
      rw [joinFolded, List.map_map]
      refine List.splitOn_intercalate '\n' ?_ (by simpa using some')
      intro piece mem
      obtain ⟨t,inside,rfl⟩ := List.mem_map.mp mem
      exact lineFree (clean t inside).1
    rw [show "\n".toList = ['\n'] from rfl, apart]

/- And an agent is always met by a token of its own. -/
theorem offeredMet {token : String} {tokens : List String} (mem : token ∈ tokens)
    (clean : ∀ t ∈ tokens, delimiter t = false ∧ '\x00' ∉ t.toList) : Met token tokens := by
  have own := clean token mem
  have single : lines token.toList = [token.toList.map folded] := List.splitOn_eq_singleton (lineFree own.1)
  rw [metPlain own.2 clean, single, if_neg (List.ne_nil_of_mem mem), List.singleton_infix_iff]
  exact List.mem_map_of_mem (f := fun t => t.toList.map folded) mem

theorem facetMet (query : Option String) (tokens : List String) (short : Short query) :
    ∃ hit, facet query ("\n".intercalate tokens) = .ok hit ∧ (hit = true ↔ MetBy query tokens) := by
  cases query with
  | none => exact ⟨true,rfl,iff_of_true rfl (fun _ same => by cases same)⟩
  | some token =>
    obtain ⟨hit,liked,met⟩ := likeMet token tokens (short token rfl)
    refine ⟨hit,liked,met.trans ⟨?_,fun by' => by' token rfl⟩⟩
    intro here other same
    cases same
    exact here

theorem facetLong {query : Option String} {column : String} {hit : Bool} (answered : facet query column = .ok hit) : Short query := by
  intro token same
  subst same
  by_contra long
  rw [facet, like, if_pos (not_le.mp long)] at answered
  contradiction

/- Which rows a search takes, and where it fails. -/
theorem selectsShort {role skill : Option String} {c : Registration} (short : Short role) (further : MetBy role c.roleTags → Short skill) :
    ∃ hit, selects role skill (rowOf c) = .ok hit ∧ (hit = true ↔ MetBy role c.roleTags ∧ MetBy skill c.skillIds) := by
  obtain ⟨first,asked,met⟩ := facetMet role c.roleTags short
  cases first with
  | false =>
    refine ⟨false,?_,iff_of_false Bool.false_ne_true (fun both => Bool.false_ne_true (met.mpr both.1))⟩
    rw [selects, rowOf, asked]
    rfl
  | true =>
    have mine := met.mp rfl
    obtain ⟨second,again,met'⟩ := facetMet skill c.skillIds (further mine)
    refine ⟨second,?_,met'.trans ⟨fun here => ⟨mine,here⟩,And.right⟩⟩
    rw [selects, rowOf, asked]
    exact again

theorem selectsAnswered {role skill : Option String} {c : Registration} {hit : Bool} (answered : selects role skill (rowOf c) = .ok hit) :
    Short role ∧ (MetBy role c.roleTags → Short skill) := by
  obtain ⟨first,asked,rest⟩ := Machine.bindOk.mp answered
  have short := facetLong asked
  refine ⟨short,?_⟩
  intro mine
  obtain ⟨hit',again,met⟩ := facetMet role c.roleTags short
  rw [rowOf] at asked
  rw [again] at asked
  cases asked
  rw [if_pos (met.mpr mine)] at rest
  exact facetLong rest

end Patterns

section Searches
variable {role skill : Option String} {rows found : List (String × CardRow)}

/- A search that is answered has looked at every row and taken those it selects. -/
theorem selectedAnswered (answered : selected role skill rows = .ok found) :
    (∀ e ∈ rows, ∃ hit, selects role skill e.2 = .ok hit) ∧ found.Sublist rows ∧
      ∀ e ∈ rows, selects role skill e.2 = .ok true ↔ e ∈ found := by
  induction rows generalizing found with
  | nil =>
    cases answered
    exact ⟨fun e mem => by contradiction,List.Sublist.slnil,fun e mem => by contradiction⟩
  | cons first rest ih =>
    obtain ⟨hit,asked,rest'⟩ := Machine.bindOk.mp answered
    obtain ⟨later,taken,last⟩ := Machine.bindOk.mp rest'
    obtain ⟨each,sub,same⟩ := ih taken
    cases last
    refine ⟨?_,?_,?_⟩
    · intro e mem
      obtain rfl | mem := List.mem_cons.mp mem
      · exact ⟨hit,asked⟩
      · exact each e mem
    · split
      · exact sub.cons_cons first
      · exact sub.cons first
    · intro e mem
      constructor
      · intro taken'
        obtain rfl | mem := List.mem_cons.mp mem
        · rw [asked] at taken'
          cases taken'
          exact List.mem_cons_self
        · have inside := (same e mem).mp taken'
          split
          · exact List.mem_cons_of_mem _ inside
          · exact inside
      · intro inside
        split at inside
        case isTrue yes =>
          obtain rfl | inside := List.mem_cons.mp inside
          · rw [asked, yes]
          · exact (same e (sub.subset inside)).mpr inside
        case isFalse => exact (same e (sub.subset inside)).mpr inside

theorem selectedAll (each : ∀ e ∈ rows, ∃ hit, selects role skill e.2 = .ok hit) : ∃ found, selected role skill rows = .ok found := by
  induction rows with
  | nil => exact ⟨[],rfl⟩
  | cons first rest ih =>
    obtain ⟨hit,asked⟩ := each first List.mem_cons_self
    obtain ⟨later,taken⟩ := ih (fun e mem => each e (List.mem_cons_of_mem _ mem))
    refine ⟨if hit then first :: later else later,?_⟩
    rw [selected, asked]
    show (selected role skill rest >>= _) = _
    rw [taken]
    rfl

end Searches

section Runs
variable {calls : List Registration}

theorem lastNext (holder : String) (calls : List Registration) (c : Registration) : lastRegistered holder (calls ++ [c]) =
    if !(c.roleTags ++ c.skillIds).any delimiter && c.holderPubkey = holder then some c else lastRegistered holder calls := by
  rw [lastRegistered, List.reverse_append, List.reverse_singleton, List.singleton_append, List.find?_cons]
  split
  case h_1 hit => rw [if_pos hit]
  case h_2 miss => rw [if_neg (by rw [miss]; exact Bool.false_ne_true), lastRegistered]

theorem lastOf {holder : String} {c : Registration} (last : lastRegistered holder calls = some c) :
    c.holderPubkey = holder ∧ ∀ token ∈ c.roleTags ++ c.skillIds, delimiter token = false := by
  have hit := List.find?_some last
  rw [Bool.and_eq_true, Bool.not_eq_true', List.any_eq_false, decide_eq_true_eq] at hit
  exact ⟨hit.2,fun token mem => Bool.eq_false_of_not_eq_true (hit.1 token mem)⟩

/- The table has the last accepted registration of each holder. -/
theorem runRow (calls : List Registration) (holder : String) :
    (Machine.run register ∅ calls)[holder]? = (lastRegistered holder calls).map rowOf := by
  induction calls using List.reverseRecOn with
  | nil => simp [Machine.run, lastRegistered]
  | append_singleton calls c ih =>
    rw [Machine.runNext, lastNext, register]
    cases refused : (c.roleTags ++ c.skillIds).find? delimiter with
    | some token =>
      have bad : (c.roleTags ++ c.skillIds).any delimiter = true := by
        exact List.any_eq_true.mpr ⟨token,List.mem_of_find?_eq_some refused,List.find?_some refused⟩
      rw [bad]
      exact ih
    | none =>
      have fine : (c.roleTags ++ c.skillIds).any delimiter = false := by
        rw [List.any_eq_false]
        exact List.find?_eq_none.mp refused
      dsimp only
      rw [fine, lookupInsert]
      by_cases mine : holder = c.holderPubkey
      · rw [if_pos mine, if_pos (by simp [mine]), Option.map_some]
      · rw [if_neg mine, if_neg (by simp [Ne.symm mine]), ih]

/- The tokens of a list come back as they were, but for the one list that reads like none. -/
theorem tokensBack {tokens : List String} (clean : ∀ token ∈ tokens, delimiter token = false) :
    splitTokens ("\n".intercalate tokens) = if tokens = [""] then [] else tokens := by
  by_cases none' : tokens = []
  · rw [none']
    rfl
  by_cases blank : tokens = [""]
  · rw [blank]
    rfl
  have pieces : ("\n".intercalate tokens).toList.splitOn '\n' = tokens.map String.toList := by
    rw [String.toList_intercalate]
    refine List.splitOn_intercalate '\n' ?_ (by simpa using none')
    intro piece mem
    obtain ⟨token,inside,rfl⟩ := List.mem_map.mp mem
    exact noLine (clean token inside)
  have filled : ("\n".intercalate tokens).isEmpty = false := by
    rw [← Bool.not_eq_true]
    intro empty
    rw [String.isEmpty_iff] at empty
    rw [empty] at pieces
    have single : tokens.map String.toList = [[]] := pieces.symm
    obtain ⟨token,rfl,same⟩ := List.map_eq_singleton_iff.mp single
    rw [String.toList_eq_nil_iff] at same
    exact blank (by rw [same])
  rw [splitTokens, filled, if_neg Bool.false_ne_true, if_neg blank, pieces, List.map_map]
  simp

theorem entryBack {c : Registration} (clean : ∀ token ∈ c.roleTags ++ c.skillIds, delimiter token = false)
    (listed : c.roleTags ≠ [""] ∧ c.skillIds ≠ [""]) :
    entryOf (c.holderPubkey,rowOf c) = ⟨c.holderPubkey,c.cardUrl,c.roleTags,c.skillIds,c.now⟩ := by
  rw [entryOf, rowOf, tokensBack (fun token mem => clean token (List.mem_append_left _ mem)), if_neg listed.1,
    tokensBack (fun token mem => clean token (List.mem_append_right _ mem)), if_neg listed.2, asU64Back]

theorem rowRegistered {calls : List Registration} {e : String × CardRow} (mem : e ∈ (Machine.run register ∅ calls).toList) :
    ∃ c, lastRegistered e.1 calls = some c ∧ e = (e.1,rowOf c) := by
  have found := ExtTreeMap.mem_toList_iff_getElem?_eq_some.mp mem
  rw [runRow] at found
  obtain ⟨c,last,same⟩ := Option.map_eq_some_iff.mp found
  exact ⟨c,last,by rw [same]⟩

theorem registeredRow {calls : List Registration} {holder : String} {c : Registration} (last : lastRegistered holder calls = some c) :
    (holder,rowOf c) ∈ (Machine.run register ∅ calls).toList := by
  refine ExtTreeMap.mem_toList_iff_getElem?_eq_some.mpr ?_
  rw [runRow, last, Option.map_some]

/- Where the answer is the right one every agent is plain. -/
theorem answersPlain {calls : List Registration} {role skill : Option String} {found : List AgentDirectoryEntry}
    (answered : search role skill (Machine.run register ∅ calls) = .ok found) (answers : Answers calls role skill found) :
    ∀ holder c, lastRegistered holder calls = some c → Plain role skill c := by
  intro holder c last
  obtain ⟨rows,taken,made⟩ := Machine.bindOk.mp answered
  cases made
  obtain ⟨each,sub,same⟩ := selectedAnswered taken
  have row := registeredRow last
  obtain ⟨mine,clean⟩ := lastOf last
  obtain ⟨_,asked⟩ := each _ row
  obtain ⟨short,further⟩ := selectsAnswered asked
  obtain ⟨hit,selects',met⟩ := selectsShort short further
  -- an agent that is found has its own row taken
  have own (role' : Offers role c.roleTags) (skill' : Offers skill c.skillIds) :
      (holder,rowOf c) ∈ rows ∧ entryOf (holder,rowOf c) = ⟨c.holderPubkey,c.cardUrl,c.roleTags,c.skillIds,c.now⟩ := by
    have inside : (⟨c.holderPubkey,c.cardUrl,c.roleTags,c.skillIds,c.now⟩ : AgentDirectoryEntry) ∈ rows.map entryOf :=
      (answers.each _).mpr ⟨c,mine ▸ last,role',skill',rfl⟩
    obtain ⟨e,mem,made⟩ := List.mem_map.mp inside
    obtain ⟨c',last',shape⟩ := rowRegistered (sub.subset mem)
    have named : e.1 = holder := (congrArg AgentDirectoryEntry.holderPubkey made).trans mine
    rw [named, last] at last'
    cases last'
    rw [named] at shape
    rw [shape] at mem made
    exact ⟨mem,made⟩
  refine ⟨short,further,?_,?_,?_⟩
  · intro role' skill'
    have yes := met.mpr ⟨role',skill'⟩
    rw [yes] at selects'
    have listed : entryOf (holder,rowOf c) ∈ rows.map entryOf := List.mem_map_of_mem ((same _ row).mp selects')
    obtain ⟨c',last',has,has',_⟩ := (answers.each _).mp listed
    rw [show (entryOf (holder,rowOf c)).holderPubkey = holder from rfl, last] at last'
    cases last'
    exact ⟨has,has'⟩
  · intro role' skill'
    have yes := (same _ row).mpr (own role' skill').1
    rw [selects'] at yes
    exact met.mp (Except.ok.inj yes)
  · intro role' skill'
    have made := (own role' skill').2
    have tags := congrArg AgentDirectoryEntry.roleTags made
    have ids := congrArg AgentDirectoryEntry.skillIds made
    rw [entryOf, rowOf, tokensBack (fun token mem => clean token (List.mem_append_left _ mem))] at tags
    rw [entryOf, rowOf, tokensBack (fun token mem => clean token (List.mem_append_right _ mem))] at ids
    refine ⟨?_,?_⟩
    · intro blank
      rw [if_pos blank, blank] at tags
      contradiction
    · intro blank
      rw [if_pos blank, blank] at ids
      contradiction

theorem plainAnswers {calls : List Registration} {role skill : Option String}
    (plain : ∀ holder c, lastRegistered holder calls = some c → Plain role skill c) :
    ∃ found, search role skill (Machine.run register ∅ calls) = .ok found ∧ Answers calls role skill found := by
  have decided (holder : String) (c : Registration) (last : lastRegistered holder calls = some c) :
      ∃ hit, selects role skill (rowOf c) = .ok hit ∧ (hit = true ↔ Offers role c.roleTags ∧ Offers skill c.skillIds) := by
    have each := plain holder c last
    obtain ⟨hit,asked,met⟩ := selectsShort each.roleShort each.skillShort
    refine ⟨hit,asked,met.trans ⟨?_,?_⟩⟩
    · exact fun both => each.exact both.1 both.2
    · exact fun both => each.visible both.1 both.2
  have back (holder : String) (c : Registration) (last : lastRegistered holder calls = some c) (role' : Offers role c.roleTags)
      (skill' : Offers skill c.skillIds) : entryOf (holder,rowOf c) = ⟨c.holderPubkey,c.cardUrl,c.roleTags,c.skillIds,c.now⟩ := by
    obtain ⟨rfl,clean⟩ := lastOf last
    exact entryBack clean ((plain _ c last).listed role' skill')
  obtain ⟨rows,taken⟩ := @selectedAll role skill (Machine.run register ∅ calls).toList (fun e mem => by
    obtain ⟨c,last,shape⟩ := rowRegistered mem
    obtain ⟨hit,asked,_⟩ := decided e.1 c last
    exact ⟨hit,by rw [shape]; exact asked⟩)
  obtain ⟨_,sub,same⟩ := selectedAnswered taken
  refine ⟨rows.map entryOf,?_,?_,?_⟩
  · rw [search, taken]
    rfl
  · exact List.pairwise_map.mpr (ExtTreeMap.ordered_keys_toList.sublist sub)
  · intro entry
    constructor
    · intro listed
      obtain ⟨e,mem,rfl⟩ := List.mem_map.mp listed
      have inside := sub.subset mem
      obtain ⟨c,last,shape⟩ := rowRegistered inside
      obtain ⟨hit,asked,offers⟩ := decided e.1 c last
      have yes := (same e inside).mpr mem
      rw [shape] at yes
      rw [asked] at yes
      obtain ⟨role',skill'⟩ := offers.mp (Except.ok.inj yes)
      refine ⟨c,last,role',skill',?_⟩
      rw [shape]
      exact back e.1 c last role' skill'
    · rintro ⟨c,last,role',skill',same'⟩
      have row := registeredRow last
      obtain ⟨hit,asked,offers⟩ := decided _ c last
      rw [offers.mpr ⟨role',skill'⟩] at asked
      have listed := List.mem_map_of_mem (f := entryOf) ((same _ row).mp asked)
      rw [back _ c last role' skill', ← same'] at listed
      exact listed

theorem searchIff (calls : List Registration) (role skill : Option String) :
    (∃ found, search role skill (Machine.run register ∅ calls) = .ok found ∧ Answers calls role skill found) ↔
      ∀ holder c, lastRegistered holder calls = some c → Plain role skill c := by
  constructor
  · rintro ⟨found,answered,answers⟩
    exact answersPlain answered answers
  · exact plainAnswers

/- An agent that registers a role, and a search for the role in other letters. -/
theorem caseIgnored : ¬∃ found, search (some "admin") none (Machine.run register ∅ [⟨"a0","https://a.example/card",["Admin"],[],1⟩]) = .ok found ∧
    Answers [⟨"a0","https://a.example/card",["Admin"],[],1⟩] (some "admin") none found := by
  rintro ⟨found,answered,answers⟩
  have listed : search (some "admin") none (Machine.run register ∅ [⟨"a0","https://a.example/card",["Admin"],[],1⟩]) =
      .ok [⟨"a0","https://a.example/card",["Admin"],[],1⟩] := by decide +kernel
  rw [listed] at answered
  cases answered
  obtain ⟨c,last,offers,_⟩ := (answers.each _).mp List.mem_cons_self
  cases last
  exact absurd (offers "admin" rfl) (by decide)

end Runs
end CadsTunnel.AgentDirectory
