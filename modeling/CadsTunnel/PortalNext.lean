import CadsTunnel.AsciiCase
import CadsTunnel.CookieRules
import CadsTunnel.LoginGate

/-! Where a sign-in at the portal comes back to. The target is taken from the query, checked,
kept in a cookie while the identity provider is asked, and checked again as it comes back. -/
namespace CadsTunnel.PortalNext
open Words Hostnames CookieRules
open LoginGate (Headers headerText headerValue)
open ChannelAck (stripPrefix)

/- `char::is_control`. -/
def isControl (c : Char) : Bool := c.toNat < 32 || (127 ≤ c.toNat && c.toNat < 160)

def sanitizedNext (raw : Option String) : Option String :=
  raw.bind fun raw =>
    let v := trim raw.toList
    let inScope := "/portal".toList.isPrefixOf v || v = "/admin-ui".toList || "/admin-ui/".toList.isPrefixOf v
    if inScope && !"//".toList.isPrefixOf v && decide (byteLength v ≤ 512) && !v.contains '\\' && v.all (fun c => !isControl c) then some (.ofList v)
    else none

def nextCookieName : String := "ct_portal_next"

def nextCookie (next : String) : String := nextCookieName ++ "=" ++ next ++ "; Path=/; Max-Age=600; HttpOnly; Secure; SameSite=Lax"

/- The portal reads a cookie as the gate does. -/
def cookieValue (headers : Headers) (name : String) : Option String := LoginGate.cookieValue headers name

/- The cookie that the sign-in sets for its target. -/
def portalLogin (next : Option String) : Option String := (sanitizedNext next).bind fun next => headerValue (nextCookie next)

/- Where the callback sends the visitor. -/
def callbackTarget (headers : Headers) : String :=
  ((cookieValue headers nextCookieName).bind fun v => sanitizedNext (some v)).getD "/portal/home"

/- The attributes the cookie is written with. -/
def attributes : List (Bytes × Bytes) :=
  [(asBytes "Path",asBytes "/"),(asBytes "Max-Age",asBytes "600"),(asBytes "HttpOnly",[]),(asBytes "Secure",[]),(asBytes "SameSite",asBytes "Lax")]

section Texts
variable {s : List Char} {text next : String}

theorem bytesAppend (a b : String) : asBytes (a ++ b) = asBytes a ++ asBytes b := by simp [asBytes]

def charsOf (bytes : Bytes) : List Char := bytes.map (fun b => Char.ofNat b.toNat)

theorem charOfByte {b : UInt8} (small : b.toNat < 128) : (Char.ofNat b.toNat).toNat = b.toNat := by
  have each : ∀ n < 128, (Char.ofNat n).toNat = n := by decide
  exact each b.toNat small

theorem charsAscii {bytes : Bytes} (small : ∀ b ∈ bytes, b.toNat < 128) :
    (∀ c ∈ charsOf bytes, c.toNat < 128) ∧ asBytes (.ofList (charsOf bytes)) = bytes := by
  have ascii : ∀ c ∈ charsOf bytes, c.toNat < 128 := by
    intro c mem
    obtain ⟨b,inside,rfl⟩ := List.mem_map.mp mem
    rw [charOfByte (small b inside)]
    exact small b inside
  refine ⟨ascii,?_⟩
  rw [asBytesAscii ascii, charsOf, List.map_map]
  refine (List.map_congr_left ?_).trans (List.map_id bytes)
  intro b inside
  rw [Function.comp_apply, charOfByte (small b inside)]
  exact UInt8.ofNat_toNat

/- A text is ASCII if its bytes are. -/
theorem textAscii : (∀ c ∈ text.toList, c.toNat < 128) ↔ ∀ b ∈ asBytes text, b.toNat < 128 := by
  constructor
  · intro ascii b mem
    rw [← @String.ofList_toList text, asBytesAscii ascii] at mem
    obtain ⟨c,inside,rfl⟩ := List.mem_map.mp mem
    have bound := ascii c inside
    simp only [Nat.toUInt8_eq, UInt8.toNat_ofNat']
    omega
  · intro small
    obtain ⟨ascii,same⟩ := charsAscii small
    rw [← asBytesInjective same, String.toList_ofList]
    exact ascii

theorem charsBytes (ascii : ∀ c ∈ text.toList, c.toNat < 128) : charsOf (asBytes text) = text.toList := by
  have same := asBytesInjective (charsAscii (textAscii.mp ascii)).2
  rw [← String.toList_ofList (l := charsOf (asBytes text)), same]

theorem trimFront (s : List Char) : (trim s).dropWhile whitespace = trim s := by
  refine List.dropWhile_eq_self_iff.mpr ?_
  intro some' blank
  have first : (s.dropWhile whitespace).head? = some (trim s)[0] := by
    obtain ⟨more,whole⟩ := List.rdropWhile_prefix whitespace (s.dropWhile whitespace)
    rw [← whole, ← trim, List.head?_append_of_ne_nil _ (List.ne_nil_of_length_pos some'), List.head?_eq_getElem?, List.getElem?_eq_getElem some']
  have visible := List.head?_dropWhile_not whitespace s
  rw [first] at visible
  simp [blank] at visible

theorem trimAgain (s : List Char) : trim (trim s) = trim s := by
  rw [trim, trimFront, trim, List.rdropWhile_idempotent]

/- A text that is trimmed neither starts nor ends with white space. -/
theorem trimmedEnds (same : trim s = s) :
    (∀ c, s.head? = some c → whitespace c = false) ∧ ∀ c, s.getLast? = some c → whitespace c = false := by
  constructor
  · intro c first
    have front := trimFront s
    rw [same, List.dropWhile_eq_self_iff] at front
    rw [List.head?_eq_getElem?] at first
    obtain ⟨some',rfl⟩ := List.getElem?_eq_some_iff.mp first
    simpa using front some'
  · intro c last
    have back : s.rdropWhile whitespace = s := by
      conv_lhs => rw [← same, trim, List.rdropWhile_idempotent, ← trim, same]
    obtain ⟨front,rfl⟩ := List.getLast?_eq_some_iff.mp last
    simpa using List.rdropWhile_eq_self_iff.mp back (by simp)

theorem trimSame (first : ∀ c, s.head? = some c → whitespace c = false) (last : ∀ c, s.getLast? = some c → whitespace c = false) : trim s = s := by
  have front : s.dropWhile whitespace = s := by
    refine List.dropWhile_eq_self_iff.mpr (fun some' => ?_)
    simp [first s[0] (by rw [List.head?_eq_getElem?, List.getElem?_eq_getElem some'])]
  rw [trim, front, List.rdropWhile_eq_self_iff]
  intro some'
  simp [last _ (List.getLast?_eq_some_getLast some')]

/- What is accepted is accepted again, as it is. -/
theorem nextAccepted {raw : Option String} (accepted : sanitizedNext raw = some next) :
    sanitizedNext (some next) = some next ∧ trim next.toList = next.toList ∧ next.toList.head? = some '/' ∧ ∀ c ∈ next.toList, isControl c = false := by
  obtain ⟨text,_,checked⟩ := Option.bind_eq_some_iff.mp accepted
  dsimp only at checked
  split at checked <;> try contradiction
  rename_i fits
  cases Option.some.inj checked
  refine ⟨?_,?_,?_,?_⟩
  · have same : trim (String.ofList (trim text.toList)).toList = trim text.toList := by rw [String.toList_ofList, trimAgain]
    rw [sanitizedNext, Option.bind_some, same]
    dsimp only
    rw [if_pos fits]
  · rw [String.toList_ofList, trimAgain]
  · rw [String.toList_ofList]
    simp only [Bool.and_eq_true, Bool.or_eq_true, List.isPrefixOf_iff_prefix, decide_eq_true_eq] at fits
    obtain ((⟨rest,whole⟩ | whole) | ⟨rest,whole⟩) := fits.1.1.1.1
    · rw [← whole]
      rfl
    · rw [whole]
      rfl
    · rw [← whole]
      rfl
  · rw [String.toList_ofList]
    simp only [Bool.and_eq_true, List.all_eq_true, Bool.not_eq_true'] at fits
    exact fits.2

theorem bytesOf (text : String) : asBytes text = text.toList.flatMap String.utf8EncodeChar := by
  rw [← AsciiCase.textBytes, String.ofList_toList]

/- White space at the ends of the bytes is white space at the ends of the text. -/
theorem bytesStripped (same : trim text.toList = text.toList) (first : text.toList.head? = some '/') : stripped (asBytes text) = asBytes text := by
  refine strippedSame ?_ ?_
  · intro b here
    obtain ⟨rest,whole⟩ := List.head?_eq_some_iff.mp first
    rw [bytesOf, whole, List.flatMap_cons] at here
    change some 47 = some b at here
    cases here
    rfl
  · intro b here
    have nonempty : text.toList ≠ [] := by
      intro empty
      rw [empty] at first
      contradiction
    obtain ⟨c,last⟩ : ∃ c, text.toList.getLast? = some c := ⟨_,List.getLast?_eq_some_getLast nonempty⟩
    obtain ⟨front,whole⟩ := List.getLast?_eq_some_iff.mp last
    have some' : String.utf8EncodeChar c ≠ [] := by
      intro empty
      have size := String.length_utf8EncodeChar c
      rw [empty] at size
      exact absurd size.symm (Nat.ne_of_gt (Char.utf8Size_pos c))
    rw [bytesOf, whole, List.flatMap_append, List.flatMap_singleton, List.getLast?_append_of_ne_nil _ some'] at here
    by_contra white
    rw [Bool.not_eq_false, blank, Bool.or_eq_true, decide_eq_true_eq, decide_eq_true_eq] at white
    have mem : b ∈ asBytes (.ofList [c]) := by
      rw [AsciiCase.textBytes, List.flatMap_singleton]
      exact List.mem_of_getLast? here
    have small : b.toNat < 128 := by
      obtain rfl | rfl := white <;> decide
    obtain ⟨d,inside,code⟩ := Hex.asciiByte small mem
    rw [String.toList_ofList, List.mem_singleton] at inside
    subst inside
    have visible := (trimmedEnds same).2 d last
    obtain rfl | rfl := white
    all_goals
      rw [whitespace, code] at visible
      exact absurd visible (by decide)

theorem semicolonIff : semicolon ∈ asBytes text ↔ ';' ∈ text.toList := by
  constructor
  · intro mem
    obtain ⟨c,inside,code⟩ := Hex.asciiByte (by decide) mem
    have same : c = ';' := Char.ext (UInt32.toNat_inj.mp code)
    exact same ▸ inside
  · intro mem
    rw [bytesOf]
    exact List.mem_flatMap.mpr ⟨';',mem,by decide⟩

end Texts

/- Of the cookies in a header the first with the name is read. -/
section Reading
variable {next : String} {name : String}

/- What `cookie_value` makes of one part. -/
def readPart (name : String) (part : List Char) : Option String :=
  ((stripPrefix name (trim part)).bind (stripPrefix "=")).map String.ofList

def partOf (c : Bytes × Bytes) : List Char := charsOf c.1 ++ '=' :: charsOf c.2

theorem readSpace (part : List Char) : readPart name (' ' :: part) = readPart name part := by
  rw [readPart, readPart, trim, List.dropWhile_cons_of_pos (by decide), ← trim]

theorem readNext {part : List Char} (clean : ';' ∉ part) (rest : List Char) :
    ((part ++ ';' :: ' ' :: rest).splitOn ';').findSome? (readPart name) = (readPart name part).or ((rest.splitOn ';').findSome? (readPart name)) := by
  rw [List.splitOn_append_cons_self_of_not_mem clean, List.splitOn_cons_eq_if_modifyHead, if_neg (by decide), List.findSome?_cons]
  have moved : ((rest.splitOn ';').modifyHead (List.cons ' ')).findSome? (readPart name) = (rest.splitOn ';').findSome? (readPart name) := by
    cases rest.splitOn ';' with
    | nil => rfl
    | cons first more => rw [List.modifyHead_cons, List.findSome?_cons, List.findSome?_cons, readSpace]
  rw [moved]
  cases readPart name part <;> rfl

theorem charsSend (c d : Bytes × Bytes) (more : List (Bytes × Bytes)) :
    charsOf (send (c :: d :: more)) = partOf c ++ ';' :: ' ' :: charsOf (send (d :: more)) := by
  rw [sendNext, charsOf, List.map_append, List.map_append]
  rfl

theorem charsAlone (c : Bytes × Bytes) : charsOf (send [c]) = partOf c := by
  rw [send, List.map_singleton, List.intercalate_singleton, charsOf, List.map_append]
  rfl

theorem readFirst {before after : List (Bytes × Bytes)} {c : Bytes × Bytes} {v : String} (clean : ∀ d ∈ before ++ c :: after, ';' ∉ partOf d)
    (others : ∀ d ∈ before, readPart name (partOf d) = none) (own : readPart name (partOf c) = some v) :
    ((charsOf (send (before ++ c :: after))).splitOn ';').findSome? (readPart name) = some v := by
  induction before with
  | nil =>
    cases after with
    | nil =>
      rw [List.nil_append, charsAlone, List.splitOn_eq_singleton (clean c (by simp)), List.findSome?_singleton, own]
    | cons d more =>
      rw [List.nil_append, charsSend, readNext (clean c (by simp)), own, Option.some_or]
  | cons b rest ih =>
    obtain ⟨none',others'⟩ := List.forall_mem_cons.mp others
    obtain ⟨d,more,whole⟩ := List.exists_cons_of_ne_nil (l := rest ++ c :: after) (by simp)
    have later := ih (fun d mem => clean d (List.mem_cons_of_mem _ mem)) others'
    rw [List.cons_append, whole, charsSend, ← whole, readNext (clean b (by simp)), none', later, Option.none_or]

/- The bytes `to_str` allows. -/
def visible (b : UInt8) : Bool := (32 ≤ b && b < 127) || b = 9

theorem visibleSmall {b : UInt8} (shown : visible b = true) : b.toNat < 128 := by
  rw [visible, Bool.or_eq_true, Bool.and_eq_true, decide_eq_true_eq, decide_eq_true_eq, decide_eq_true_eq] at shown
  obtain ⟨_,below⟩ | rfl := shown
  · have bound : b.toNat < 127 := below
    omega
  · decide

theorem headerRead {bytes : Bytes} (shown : ∀ b ∈ bytes, visible b = true) : headerText bytes = some (.ofList (charsOf bytes)) := by
  have all : bytes.all (fun b => (32 ≤ b && b < 127) || b = 9) = true := List.all_eq_true.mpr shown
  rw [headerText, if_pos all]
  conv_lhs => rw [← (charsAscii (fun b mem => visibleSmall (shown b mem))).2]
  rw [fromUtf8Bytes]

theorem headerShown {bytes : Bytes} {text : String} (read : headerText bytes = some text) : ∀ b ∈ bytes, visible b = true := by
  rw [headerText] at read
  split at read <;> try contradiction
  rename_i shown
  exact List.all_eq_true.mp shown

theorem valueRead {cookies : List (Bytes × Bytes)} (shown : ∀ b ∈ send cookies, visible b = true) :
    cookieValue { cookie := some (send cookies) } name = ((charsOf (send cookies)).splitOn ';').findSome? (readPart name) := by
  rw [cookieValue, LoginGate.cookieValue, Option.bind_some, headerRead shown]
  simp only [bind, Option.bind_some, String.toList_ofList]
  rfl

theorem charMem {bytes : Bytes} (small : ∀ b ∈ bytes, b.toNat < 128) {c : UInt8} (ascii : c.toNat < 128) :
    Char.ofNat c.toNat ∈ charsOf bytes ↔ c ∈ bytes := by
  constructor
  · intro mem
    obtain ⟨b,inside,same⟩ := List.mem_map.mp mem
    have code := congrArg Char.toNat same
    rw [charOfByte (small b inside), charOfByte ascii] at code
    rwa [← UInt8.toNat_inj.mp code]
  · exact fun mem => List.mem_map.mpr ⟨c,mem,rfl⟩

theorem partClean {c : Bytes × Bytes} (stored : Stored c) (shown : ∀ b ∈ c.1 ++ c.2, visible b = true) : ';' ∉ partOf c := by
  intro mem
  have small : ∀ b ∈ c.1 ++ c.2, b.toNat < 128 := fun b mem => visibleSmall (shown b mem)
  obtain inside | sign | inside := (List.mem_append.mp mem).imp_right List.mem_cons.mp
  · exact stored.name.2 ((charMem (c := semicolon) (fun b mem => small b (List.mem_append_left _ mem)) (by decide)).mp inside)
  · exact absurd sign (by decide)
  · exact stored.value ((charMem (c := semicolon) (fun b mem => small b (List.mem_append_right _ mem)) (by decide)).mp inside)

theorem shownVisible {b : UInt8} (shown : visible b = true) (other : blank b = false) : whitespace (Char.ofNat b.toNat) = false := by
  have code := charOfByte (visibleSmall shown)
  have low : 33 ≤ b.toNat := by
    rw [visible, Bool.or_eq_true, Bool.and_eq_true, decide_eq_true_eq, decide_eq_true_eq, decide_eq_true_eq] at shown
    rw [blank, Bool.or_eq_false_iff, decide_eq_false_iff_not, decide_eq_false_iff_not] at other
    obtain ⟨above,_⟩ := shown.resolve_right other.2
    have least : 32 ≤ b.toNat := above
    have different : b.toNat ≠ 32 := fun same => other.1 (UInt8.toNat_inj.mp same)
    omega
  have high := visibleSmall shown
  simp only [whitespace, code, Bool.or_eq_false_iff, Bool.and_eq_false_iff, decide_eq_false_iff_not, beq_eq_false_iff_ne]
  omega

theorem prefixParts {given : String} {s rest : List Char} : stripPrefix given s = some rest ↔ s = given.toList ++ rest := by
  rw [stripPrefix]
  constructor
  · intro found
    split at found <;> try contradiction
    rename_i front
    obtain ⟨more,rfl⟩ := front
    rw [List.drop_left] at found
    rw [Option.some.inj found]
  · rintro rfl
    rw [if_pos (List.prefix_append _ _), List.drop_left]

/- A cookie of another name is passed over. -/
theorem otherPassed {c : Bytes × Bytes} (stored : Stored c) (shown : ∀ b ∈ c.1 ++ c.2, visible b = true) (clean : '=' ∉ name.toList)
    (other : c.1 ≠ asBytes name) : readPart name (partOf c) = none := by
  have small : ∀ b ∈ c.1, b.toNat < 128 := fun b mem => visibleSmall (shown b (List.mem_append_left _ mem))
  have front : (partOf c).dropWhile whitespace = partOf c := by
    obtain ⟨b,rest,whole⟩ := List.exists_cons_of_ne_nil stored.named
    have ink := shownVisible (shown b (by rw [whole]; simp)) (strippedFirst stored.bare (by rw [whole]; rfl))
    rw [partOf, whole, charsOf, List.map_cons, List.cons_append, List.dropWhile_cons_of_neg (by simp [ink])]
  rw [readPart, trim, front]
  cases first : stripPrefix name ((partOf c).rdropWhile whitespace) with
  | none => rfl
  | some rest =>
    cases second : stripPrefix "=" rest with
    | none =>
      rw [Option.bind_some, second]
      rfl
    | some v =>
      exfalso
      obtain ⟨white,whole⟩ := List.rdropWhile_prefix whitespace (partOf c)
      have own : '=' ∉ charsOf c.1 := fun mem => stored.name.1 ((charMem (c := equals) small (by decide)).mp mem)
      rw [prefixParts.mp first, prefixParts.mp second] at whole
      have named := @SplitText.cutFirst '=' _ clean (v ++ white)
      have split : name.toList ++ '=' :: (v ++ white) = partOf c := by
        rw [← whole]
        simp
      rw [split, partOf, SplitText.cutFirst own] at named
      obtain ⟨same,_⟩ := Prod.mk.inj (Option.some.inj named)
      refine other ?_
      rw [← (charsAscii small).2, same, String.ofList_toList]

/- And the cookie itself is read as it is. -/
theorem ownRead (ascii : ∀ c ∈ next.toList, c.toNat < 128) (same : trim next.toList = next.toList) (some' : next.toList ≠ []) :
    readPart nextCookieName (partOf (asBytes nextCookieName,asBytes next)) = some next := by
  have part : partOf (asBytes nextCookieName,asBytes next) = nextCookieName.toList ++ ("=".toList ++ next.toList) := by
    rw [partOf, charsBytes ascii, charsBytes (by simp [nextCookieName])]
    rfl
  have trimmed : trim (nextCookieName.toList ++ ("=".toList ++ next.toList)) = nextCookieName.toList ++ ("=".toList ++ next.toList) := by
    refine trimSame ?_ ?_
    · intro c first
      cases first
      decide
    · intro c last
      rw [← List.append_assoc, List.getLast?_append_of_ne_nil _ some'] at last
      exact (trimmedEnds same).2 c last
  rw [readPart, part, trimmed, prefixParts.mpr rfl, Option.bind_some, prefixParts.mpr rfl, Option.map_some, String.ofList_toList]

end Reading

section Login
variable {next : String}

/- What comes back for a target, among other cookies: the line is sent, it is stored as the pair and the attributes that were
written, and the pair is read and accepted as the target. -/
structure Carried (next : String) (before after : List (Bytes × Bytes)) : Prop where
  sent : headerValue (nextCookie next) = some (nextCookie next)
  stored : receive (asBytes (nextCookie next)) = some ⟨asBytes nextCookieName,asBytes next,attributes⟩
  returned : ∀ cookie, receive (asBytes (nextCookie next)) = some cookie → ∀ headers : Headers,
    headers.cookie = some (send (before ++ (cookie.name,cookie.value) :: after)) →
    (cookieValue headers nextCookieName).bind (fun v => sanitizedNext (some v)) = some next ∧ callbackTarget headers = next

theorem lineBytes (next : String) :
    asBytes (nextCookie next) = asBytes nextCookieName ++ equals :: (asBytes next ++ semicolon :: asBytes " Path=/; Max-Age=600; HttpOnly; Secure; SameSite=Lax") := by
  have sign : asBytes "=" = [equals] := by decide
  have rest : asBytes "; Path=/; Max-Age=600; HttpOnly; Secure; SameSite=Lax" =
      semicolon :: asBytes " Path=/; Max-Age=600; HttpOnly; Secure; SameSite=Lax" := by
    have parts : "; Path=/; Max-Age=600; HttpOnly; Secure; SameSite=Lax" = ";" ++ " Path=/; Max-Age=600; HttpOnly; Secure; SameSite=Lax" := by rfl
    rw [parts, bytesAppend]
    rfl
  rw [nextCookie, bytesAppend, bytesAppend, bytesAppend, sign, rest, List.append_assoc, List.append_assoc]
  rfl

theorem asciiBytes {s : String} (ascii : s.toList.all (·.toNat < 128) = true) : asBytes s = s.toList.map (fun c => c.toNat.toUInt8) := by
  have each : ∀ c ∈ s.toList, c.toNat < 128 := fun c mem => of_decide_eq_true (List.all_eq_true.mp ascii c mem)
  have bytes := asBytesAscii each
  rwa [String.ofList_toList] at bytes

set_option maxRecDepth 4000 in
theorem nameFacts : equals ∉ asBytes nextCookieName ∧ semicolon ∉ asBytes nextCookieName ∧ stripped (asBytes nextCookieName) = asBytes nextCookieName ∧
    asBytes nextCookieName ≠ [] ∧ ∀ b ∈ asBytes nextCookieName, visible b = true := by
  rw [asciiBytes (by decide), nextCookieName]
  simp only [String.reduceToList]
  decide

set_option maxRecDepth 8000 in
theorem attributesRead : ((asBytes " Path=/; Max-Age=600; HttpOnly; Secure; SameSite=Lax").splitOn semicolon).map cookieAv = attributes := by
  rw [asciiBytes (by decide)]
  simp only [String.reduceToList]
  decide

theorem lineStored (single : ';' ∉ next.toList) (same : trim next.toList = next.toList) (first : next.toList.head? = some '/') :
    receive (asBytes (nextCookie next)) = some ⟨asBytes nextCookieName,asBytes next,attributes⟩ := by
  obtain ⟨sign,sep,bare,named,_⟩ := nameFacts
  rw [lineBytes, received ⟨sign,sep⟩ (by rwa [bare]) (mt semicolonIff.mp single), bare, bytesStripped same first, attributesRead]

/- No byte of a text without control characters is of one. -/
theorem plainByte (plain : ∀ c ∈ next.toList, isControl c = false) {b : UInt8} (mem : b ∈ asBytes next) : 32 ≤ b.toNat ∧ b.toNat ≠ 127 := by
  by_cases small : b.toNat < 128
  · obtain ⟨c,inside,code⟩ := Hex.asciiByte small mem
    have free := plain c inside
    rw [isControl, code, Bool.or_eq_false_iff, Bool.and_eq_false_iff, decide_eq_false_iff_not, decide_eq_false_iff_not, decide_eq_false_iff_not] at free
    omega
  · omega

theorem sendable {b : UInt8} (range : 32 ≤ b.toNat ∧ b.toNat ≠ 127) : ((32 ≤ b && b ≠ 127) || b = 9) = true := by
  have low : 32 ≤ b := UInt8.le_iff_toNat_le.mpr range.1
  have other : b ≠ 127 := by
    rintro rfl
    exact range.2 rfl
  simp [low, other]

theorem attributeBytes : ∀ b ∈ asBytes " Path=/; Max-Age=600; HttpOnly; Secure; SameSite=Lax", 32 ≤ b.toNat ∧ b.toNat ≠ 127 := by
  rw [asciiBytes (by decide)]
  simp only [String.reduceToList]
  simp

theorem nameBytes : ∀ b ∈ asBytes nextCookieName, 32 ≤ b.toNat ∧ b.toNat ≠ 127 := by
  rw [asciiBytes (by decide), nextCookieName]
  simp

theorem lineSent (plain : ∀ c ∈ next.toList, isControl c = false) : headerValue (nextCookie next) = some (nextCookie next) := by
  have all : (asBytes (nextCookie next)).all (fun b => (32 ≤ b && b ≠ 127) || b = 9) = true := by
    refine List.all_eq_true.mpr ?_
    intro b mem
    refine sendable ?_
    rw [lineBytes, List.mem_append, List.mem_cons, List.mem_append, List.mem_cons] at mem
    obtain here | rfl | here | rfl | here := mem
    · exact nameBytes b here
    · decide
    · exact plainByte plain here
    · decide
    · exact attributeBytes b here
  rw [headerValue, if_pos all]

/- Every accepted target is set out with. -/
theorem loginSent {raw : Option String} (accepted : sanitizedNext raw = some next) : portalLogin raw = some (nextCookie next) := by
  rw [portalLogin, accepted, Option.bind_some, lineSent (nextAccepted accepted).2.2.2]

/- The target comes back just as long as it is ASCII and has no semicolon. -/
theorem nextCarried (raw : Option String) (next : String) (before after : List (Bytes × Bytes)) (accepted : sanitizedNext raw = some next)
    (others : ∀ c ∈ before ++ after, Stored c ∧ (∀ b ∈ c.1 ++ c.2, visible b = true) ∧ c.1 ≠ asBytes nextCookieName) :
    Carried next before after ↔ ';' ∉ next.toList ∧ ∀ c ∈ next.toList, c.toNat < 128 := by
  obtain ⟨again,same,first,plain⟩ := nextAccepted accepted
  obtain ⟨sign,sep,bare,named,shownName⟩ := nameFacts
  constructor
  · intro carried
    constructor
    · intro mem
      obtain ⟨cookie,stored,shorter⟩ := @receivedShorter _ _ (asBytes " Path=/; Max-Age=600; HttpOnly; Secure; SameSite=Lax") ⟨sign,sep⟩ (by rwa [bare])
        (semicolonIff.mpr mem)
      rw [← lineBytes, carried.stored] at stored
      cases stored
      exact absurd shorter (Nat.lt_irrefl _)
    · obtain ⟨found,_⟩ := carried.returned _ carried.stored { cookie := _ } rfl
      obtain ⟨v,read,_⟩ := Option.bind_eq_some_iff.mp found
      rw [cookieValue, LoginGate.cookieValue, Option.bind_some] at read
      obtain ⟨text,header,_⟩ := Option.bind_eq_some_iff.mp read
      refine textAscii.mpr ?_
      intro b mem
      refine visibleSmall (headerShown header b ?_)
      exact memSend (c := (asBytes nextCookieName,asBytes next)) (by simp) mem
  · rintro ⟨single,ascii⟩
    have shownNext : ∀ b ∈ asBytes next, visible b = true := by
      intro b mem
      have small := textAscii.mp ascii b mem
      obtain ⟨low,other⟩ := plainByte plain mem
      have above : 32 ≤ b := UInt8.le_iff_toNat_le.mpr low
      have below : b < 127 := UInt8.lt_iff_toNat_lt.mpr (show b.toNat < 127 by omega)
      simp [visible, above, below]
    refine ⟨lineSent plain,lineStored single same first,?_⟩
    intro cookie stored headers header
    rw [lineStored single same first] at stored
    cases stored
    have each : ∀ c ∈ before ++ (asBytes nextCookieName,asBytes next) :: after, Stored c ∧ ∀ b ∈ c.1 ++ c.2, visible b = true := by
      intro c mem
      obtain inside | rfl | inside := (List.mem_append.mp mem).imp_right List.mem_cons.mp
      · exact ⟨(others c (List.mem_append_left _ inside)).1,(others c (List.mem_append_left _ inside)).2.1⟩
      · refine ⟨⟨named,bare,⟨sign,sep⟩,mt semicolonIff.mp single⟩,?_⟩
        intro b there
        exact (List.mem_append.mp there).elim (shownName b) (shownNext b)
      · exact ⟨(others c (List.mem_append_right _ inside)).1,(others c (List.mem_append_right _ inside)).2.1⟩
    have shown : ∀ b ∈ send (before ++ (asBytes nextCookieName,asBytes next) :: after), visible b = true := by
      intro b mem
      obtain rfl | rfl | rfl | ⟨c,inside,there⟩ := sendMem mem
      · decide
      · decide
      · decide
      · exact (each c inside).2 b (List.mem_append.mpr there)
    have read := @readFirst nextCookieName _ _ _ _ (fun c mem => partClean (each c mem).1 (each c mem).2)
      (fun c mem => otherPassed (others c (List.mem_append_left _ mem)).1 (others c (List.mem_append_left _ mem)).2.1 (by decide +kernel) (others c (List.mem_append_left _ mem)).2.2)
      (ownRead ascii same (fun empty => by rw [empty] at first; contradiction))
    have found : (cookieValue headers nextCookieName).bind (fun v => sanitizedNext (some v)) = some next := by
      have same' : cookieValue headers nextCookieName = cookieValue { cookie := headers.cookie } nextCookieName := rfl
      rw [same', header, valueRead shown, read, Option.bind_some, again]
    exact ⟨found,by rw [callbackTarget, found, Option.getD_some]⟩

theorem tunnelsCarried : Carried "/portal/tunnels" [] [] :=
  (nextCarried (some " /portal/tunnels") "/portal/tunnels" [] [] (by decide +kernel) (by simp)).mpr ⟨by simp,by simp⟩

/- What stands behind a semicolon is an attribute of the cookie. -/
theorem domainInjected : sanitizedNext (some "/portal/home;Domain=example.com") = some "/portal/home;Domain=example.com" ∧
    ¬Carried "/portal/home;Domain=example.com" [] [] := by
  refine ⟨by decide +kernel,?_⟩
  intro carried
  have stored := carried.stored
  revert stored
  decide +kernel

end Login
end CadsTunnel.PortalNext
