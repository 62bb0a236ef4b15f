import CadsTunnel.ClientHello
import CadsTunnel.HexText

/-! The JA4 fingerprint of a ClientHello, over any digest. Each of its six fields comes from
a scan of its own; none of them looks at the order of the cipher suites or of the
extensions, nor at the values a client may throw in to keep servers from relying on them. -/
namespace CadsTunnel.Ja4
open Words ByteReads Read ClientHello

def grease : List UInt16 := [0x0a0a,0x1a1a,0x2a2a,0x3a3a,0x4a4a,0x5a5a,0x6a6a,0x7a7a,0x8a8a,0x9a9a,0xaaaa,0xbaba,0xcaca,0xdada,0xeaea,0xfafa]

def isGrease (v : UInt16) : Bool := grease.contains v

def versionCode (v : UInt16) : String :=
  if v = 0x0002 then "s2"
  else if v = 0x0300 then "s3"
  else if v = 0x0301 then "10"
  else if v = 0x0302 then "11"
  else if v = 0x0303 then "12"
  else if v = 0x0304 then "13"
  else "00"

/- The best of the versions listed from `i` on. -/
def bestFrom (list : Bytes) (i : Nat) (best : Option UInt16) : Read (Option UInt16) :=
  if i + 2 ≤ list.length then
    match u16Index list i with
    | outside => outside
    | absent => absent
    | found v => if isGrease v then bestFrom list (i + 2) best else bestFrom list (i + 2) (some (best.elim v fun b => max b v))
  else found best
termination_by list.length - i

def negotiatedVersion (legacyVersion : UInt16) (exts : Bytes) : Read UInt16 :=
  (findExtension exts 0x002b fun edata => do
    let listLen ← get edata 0
    let list ← slice edata 1 (1 + listLen.toNat)
    let best ← bestFrom list 0 none
    ofOption best).getD legacyVersion

/- Pairs of bytes from `i` on, as numbers. -/
def idsFrom (list : Bytes) (i : Nat) (out : List UInt16) : Read (List UInt16) :=
  if i + 2 ≤ list.length then
    match u16Index list i with
    | outside => outside
    | absent => absent
    | found v => idsFrom list (i + 2) (out ++ [v])
  else found out
termination_by list.length - i

def signatureAlgorithmIds (exts : Bytes) : Read (List UInt16) :=
  findExtension exts 0x000d fun edata => innerList edata >>= fun list => idsFrom list 0 []

def twoDigits (n : Nat) : String := if n < 10 then "0" ++ toString n else toString n

def hex4 (v : UInt16) : String := Hex.encode (u16BE v)

def joined (ids : List UInt16) : String := String.intercalate "," (ids.map hex4)

def sortUnstable (ids : List UInt16) : List UInt16 := ids.insertionSort fun a b => a.toNat ≤ b.toNat

section Fingerprints
variable (sha256 : Bytes → Vector UInt8 32)

def sha256Hex12 (input : String) : String := .ofList ((Hex.encode (sha256 (asBytes input)).toList).toList.take 12)

def cipherFields (cipherSuites : Bytes) : Read (String × String) := do
  if cipherSuites.isEmpty then return ("00","000000000000")
  else
    let ids ← idsFrom cipherSuites 0 []
    let filtered := ids.filter fun v => !isGrease v
    return (twoDigits (min filtered.length 99),sha256Hex12 sha256 (joined (sortUnstable filtered)))

def visit (seen : Nat × List UInt16) (etype : UInt16) (_ : Bytes) : Nat × List UInt16 :=
  (if !isGrease etype then seen.1 + 1 else seen.1,
    if !isGrease etype && etype ≠ 0x0000 && etype ≠ 0x0010 then seen.2 ++ [etype] else seen.2)

def extensionFields (exts : Bytes) : Read (String × String) := do
  -- a malformed block ends the walk; what was gathered is kept
  let seen ← match eachExtension exts visit (0,[]) with
    | (_,outside) => outside
    | (seen,_) => found seen
  let extJoined := joined (sortUnstable seen.2)
  let combined ← match ← (signatureAlgorithmIds exts).optional with
    | some ids => found (extJoined ++ "_" ++ joined (ids.filter fun v => !isGrease v))
    | none => found extJoined
  return (twoDigits (min seen.1 99),if combined.isEmpty then "000000000000" else sha256Hex12 sha256 combined)

def firstProtocol (bytes : Bytes) : String :=
  if bytes.isEmpty then "00"
  else match fromUtf8 bytes with
    | none => "99"
    | some s => match s.toList with
      | [] => "00"
      | first :: rest =>
        if 127 < first.toNat then "99"
        else if 2 < s.toList.length then .ofList [first,rest.getLastD first]
        else s

def alpnCode (exts : Bytes) : Read String := do
  let value ← (alpnFirstValue exts).optional
  return value.elim "00" firstProtocol

def computeJa4 (buf : Bytes) : Read String := do
  let (legacyVersion,cipherSuites,exts) ← clientHelloJa4Fields buf
  let negotiated ← negotiatedVersion legacyVersion exts
  let name ← (sniFromExtensions exts).optional
  let sni := if name.isSome then "d" else "i"
  let (cipherCount,cipherHash) ← cipherFields sha256 cipherSuites
  let (extCount,extHash) ← extensionFields sha256 exts
  let alpn ← alpnCode exts
  return "t" ++ versionCode negotiated ++ sni ++ cipherCount ++ extCount ++ alpn ++ "_" ++ cipherHash ++ "_" ++ extHash

end Fingerprints

section Lists
variable {es fs : List (UInt16 × Bytes)} {ids others : List UInt16}

def real (ids : List UInt16) : List UInt16 := ids.filter fun v => !isGrease v

def realExtensions (es : List (UInt16 × Bytes)) : List (UInt16 × Bytes) := es.filter fun e => !isGrease e.1

theorem sortPerm (perm : ids.Perm others) : sortUnstable ids = sortUnstable others := by
  have total : Std.Total fun a b : UInt16 => a.toNat ≤ b.toNat := ⟨fun a b => le_total a.toNat b.toNat⟩
  have trans : IsTrans UInt16 fun a b => a.toNat ≤ b.toNat := ⟨fun _ _ _ one two => one.trans two⟩
  have sorted (ids : List UInt16) : (sortUnstable ids).Pairwise fun a b => a.toNat ≤ b.toNat := List.pairwise_insertionSort _ ids
  refine List.Perm.eq_of_pairwise (fun a b _ _ one other => UInt16.toNat_inj.mp (le_antisymm one other)) (sorted ids) (sorted others) ?_
  exact (List.perm_insertionSort _ _).trans (perm.trans (List.perm_insertionSort _ _).symm)

theorem idsSuites {list : Bytes} {i : Nat} (at' : list.drop i = suites ids) (out : List UInt16) : idsFrom list i out = found (out ++ ids) := by
  induction ids generalizing i out with
  | nil =>
    have past := List.drop_eq_nil_iff.mp at'
    rw [idsFrom, if_neg (by omega), List.append_nil]
  | cons v ids ih =>
    rw [suites, List.flatMap_cons] at at'
    obtain ⟨-,here,next⟩ := u16Front at'
    have length := congrArg List.length at'
    rw [List.length_drop, List.length_append, u16Length] at length
    rw [idsFrom, if_pos (by omega), here]
    dsimp only
    rw [ih next, List.append_assoc]
    rfl

/- A type that no client throws in is found among the real extensions. -/
theorem firstReal {want : UInt16} (plain : isGrease want = false) : first (realExtensions es) want = first es want := by
  rw [first, realExtensions, List.find?_filter, first]
  refine congrArg _ (List.find?_congr fun e _ => ?_)
  by_cases same : e.1 = want
  · simp [same, plain]
  · simp [same]

theorem firstPerm (perm : es.Perm fs) (distinct : (es.map Prod.fst).Nodup) (want : UInt16) : first es want = first fs want := by
  refine congrArg _ (List.find?_eq_find?_of_perm perm ?_)
  rintro e ⟨mem,same⟩ f ⟨mem',same'⟩
  exact List.inj_on_of_nodup_map distinct mem mem' ((of_decide_eq_true same).trans (of_decide_eq_true same').symm)

theorem visitReal (es : List (UInt16 × Bytes)) (seen : Nat × List UInt16) :
    es.foldl (fun seen e => visit seen e.1 e.2) seen =
      (seen.1 + (realExtensions es).length,
        seen.2 ++ ((realExtensions es).map Prod.fst).filter fun etype => decide (etype ≠ 0x0000) && decide (etype ≠ 0x0010)) := by
  induction es generalizing seen with
  | nil => simp [realExtensions]
  | cons e es ih =>
    rw [List.foldl_cons, ih, realExtensions, realExtensions, List.filter_cons, visit]
    by_cases thrown : isGrease e.1
    · simp [thrown]
    · cases hashed : decide (e.1 ≠ 0x0000) && decide (e.1 ≠ 0x0010)
      all_goals
        simp only [thrown, hashed, Bool.not_false, Bool.true_and, if_true, List.length_cons, List.map_cons, List.filter_cons]
        simp [Nat.add_assoc, Nat.add_comm]

end Lists

section Fields
variable {sha256 : Bytes → Vector UInt8 32} {es fs : List (UInt16 × Bytes)} {ids others : List UInt16}

theorem suitesSome (some' : ids ≠ []) : (suites ids).isEmpty = false := by
  obtain ⟨v,rest,rfl⟩ := List.exists_cons_of_ne_nil some'
  have length : (suites (v :: rest)).length ≠ 0 := by
    rw [suites, List.flatMap_cons, List.length_append, u16Length]
    omega
  rw [List.isEmpty_eq_false_iff]
  exact fun none' => length (congrArg List.length none')

theorem cipherReal (some' : ids ≠ []) : cipherFields sha256 (suites ids) =
    found (twoDigits (min (real ids).length 99),sha256Hex12 sha256 (joined (sortUnstable (real ids)))) := by
  rw [cipherFields, if_neg (by rw [suitesSome some']; decide), idsSuites (List.drop_zero ..)]
  rfl

theorem cipherAlike (some' : ids ≠ []) (others' : others ≠ []) (perm : (real ids).Perm (real others)) :
    cipherFields sha256 (suites ids) = cipherFields sha256 (suites others) := by
  rw [cipherReal some', cipherReal others', perm.length_eq, sortPerm perm]

/- Two blocks in which every type that is looked up is found alike. -/
def Alike (es fs : List (UInt16 × Bytes)) : Prop :=
  (∀ e ∈ es, e.2.length < 2 ^ 16) ∧ (∀ e ∈ fs, e.2.length < 2 ^ 16) ∧ (∀ want, isGrease want = false → first es want = first fs want)

theorem findAlike {α : Type} (alike : Alike es fs) {want : UInt16} (plain : isGrease want = false) (f : Bytes → Read α) :
    findExtension (block es) want f = findExtension (block fs) want f := by
  rw [findFirst alike.1, findFirst alike.2.1, alike.2.2 want plain]

theorem extensionReal (short : ∀ e ∈ es, e.2.length < 2 ^ 16) : eachExtension (block es) visit (0,[]) =
    ((0 + (realExtensions es).length,
      [] ++ ((realExtensions es).map Prod.fst).filter fun etype => decide (etype ≠ 0x0000) && decide (etype ≠ 0x0010)),found ()) := by
  rw [eachExtension, eachBlock short (List.drop_zero ..), visitReal]

theorem extensionAlike (alike : Alike es fs) (perm : (realExtensions es).Perm (realExtensions fs)) :
    extensionFields sha256 (block es) = extensionFields sha256 (block fs) := by
  have signatures : signatureAlgorithmIds (block es) = signatureAlgorithmIds (block fs) := findAlike alike (by decide) _
  have hashed := sortPerm ((perm.map Prod.fst).filter fun etype => decide (etype ≠ 0x0000) && decide (etype ≠ 0x0010))
  rw [extensionFields, extensionFields, extensionReal alike.1, extensionReal alike.2.1, signatures]
  simp only [bindFound, List.nil_append, hashed, perm.length_eq]

end Fields

section Stability

/- What a client may do to its lists: shuffle them, and throw values in or leave them out. -/
inductive Change : List UInt16 × List (UInt16 × Bytes) → List UInt16 × List (UInt16 × Bytes) → Prop where
  | suites {ids others es} (perm : ids.Perm others) : Change (ids,es) (others,es)
  | extensions {ids es fs} (perm : es.Perm fs) : Change (ids,es) (ids,fs)
  | addSuite {front back v es} (thrown : isGrease v) : Change (front ++ back,es) (front ++ v :: back,es)
  | dropSuite {front back v es} (thrown : isGrease v) : Change (front ++ v :: back,es) (front ++ back,es)
  | addExtension {ids front back e} (thrown : isGrease e.1) : Change (ids,front ++ back) (ids,front ++ e :: back)
  | dropExtension {ids front back e} (thrown : isGrease e.1) : Change (ids,front ++ e :: back) (ids,front ++ back)

theorem changeReal {x y : List UInt16 × List (UInt16 × Bytes)} (change : Change x y) :
    (real x.1).Perm (real y.1) ∧ (realExtensions x.2).Perm (realExtensions y.2) := by
  cases change with
  | suites perm => exact ⟨perm.filter _,.refl _⟩
  | extensions perm => exact ⟨.refl _,perm.filter _⟩
  | addSuite thrown | dropSuite thrown => exact ⟨by simp [real, thrown],.refl _⟩
  | addExtension thrown | dropExtension thrown => exact ⟨.refl _,by simp [realExtensions, thrown]⟩

theorem changesReal {x y : List UInt16 × List (UInt16 × Bytes)} (changes : Relation.ReflTransGen Change x y) :
    (real x.1).Perm (real y.1) ∧ (realExtensions x.2).Perm (realExtensions y.2) := by
  induction changes with
  | refl => exact ⟨.refl _,.refl _⟩
  | tail _ change ih => exact ⟨ih.1.trans (changeReal change).1,ih.2.trans (changeReal change).2⟩

theorem changesAlike {h h' : Hello} (distinct : (h.extensions.map Prod.fst).Nodup)
    (perm : (realExtensions h.extensions).Perm (realExtensions h'.extensions)) : Alike h.extensions h'.extensions := by
  refine ⟨helloShort h,helloShort h',fun want plain => ?_⟩
  have real : ((realExtensions h.extensions).map Prod.fst).Nodup := distinct.sublist (List.filter_sublist.map Prod.fst)
  rw [← firstReal plain, firstPerm perm real, firstReal plain]

theorem bestInside (list : Bytes) (i : Nat) (best : Option UInt16) : Inside (bestFrom list i best) := by
  fun_induction bestFrom list i best with
  | case1 i best room out => exact absurd out (u16IndexInside (by omega))
  | case2 => exact absentInside
  | case3 i best room v at' thrown ih => exact ih
  | case4 i best room v at' plain ih => exact ih
  | case5 => exact foundInside _

theorem negotiatedFound (legacyVersion : UInt16) (exts : Bytes) : ∃ version, negotiatedVersion legacyVersion exts = found version :=
  getDFound (findInside fun _ => bindInside (getInside _ _) fun _ _ => bindInside (sliceInside _ _ _) fun list _ =>
    bindInside (bestInside list 0 none) fun _ _ => optionInside _) legacyVersion

theorem idsInside (list : Bytes) (i : Nat) (out : List UInt16) : Inside (idsFrom list i out) := by
  fun_induction idsFrom list i out with
  | case1 i out room out' => exact absurd out' (u16IndexInside (by omega))
  | case2 => exact absentInside
  | case3 i out room v at' ih => exact ih
  | case4 => exact foundInside _

theorem extensionFound (sha256 : Bytes → Vector UInt8 32) (h : Hello) : ∃ fields, extensionFields sha256 (block h.extensions) = found fields := by
  have inside : Inside (signatureAlgorithmIds (block h.extensions)) :=
    findInside fun edata => bindInside (innerInside edata) fun list _ => idsInside list 0 []
  obtain ⟨ids,signatures⟩ := optionalFound inside
  rw [extensionFields, extensionReal (helloShort h)]
  simp only [bindFound, signatures]
  cases ids with
  | none => exact ⟨_,rfl⟩
  | some ids => exact ⟨_,rfl⟩

theorem alpnFound (exts : Bytes) : ∃ code, alpnCode exts = found code := by
  have inside : Inside (alpnFirstValue exts) := by
    refine findInside fun edata => bindInside (innerInside edata) fun list _ => ?_
    split
    · exact absentInside
    · exact protocolInside list 0
  obtain ⟨value,first⟩ := optionalFound inside
  exact ⟨_,by rw [alpnCode, first]; rfl⟩

theorem cipherFound (sha256 : Bytes → Vector UInt8 32) (ids : List UInt16) : ∃ fields, cipherFields sha256 (suites ids) = found fields := by
  by_cases some' : ids = []
  · rw [some']
    exact ⟨_,rfl⟩
  · exact ⟨_,cipherReal some'⟩

theorem ja4Found (sha256 : Bytes → Vector UInt8 32) (h : Hello) : ∃ fingerprint, computeJa4 sha256 h.record = found fingerprint := by
  obtain ⟨version,negotiated⟩ := negotiatedFound h.version (block h.extensions)
  obtain ⟨name,sni⟩ := optionalFound (sniInside (block h.extensions))
  obtain ⟨⟨extCount,extHash⟩,extensions⟩ := extensionFound sha256 h
  obtain ⟨code,alpn⟩ := alpnFound (block h.extensions)
  obtain ⟨⟨cipherCount,cipherHash⟩,ciphers⟩ := cipherFound sha256 h.cipherSuites
  rw [computeJa4, fieldsRecovered]
  simp only [bindFound, negotiated, sni, extensions, alpn, ciphers]
  exact ⟨_,rfl⟩

theorem ja4Stable (sha256 : Bytes → Vector UInt8 32) {h h' : Hello} (version : h.version = h'.version) (some' : h.cipherSuites ≠ [])
    (others : h'.cipherSuites ≠ []) (distinct : (h.extensions.map Prod.fst).Nodup)
    (changes : Relation.ReflTransGen Change (h.cipherSuites,h.extensions) (h'.cipherSuites,h'.extensions)) :
    (∃ fingerprint, computeJa4 sha256 h.record = found fingerprint ∧ computeJa4 sha256 h'.record = found fingerprint) ∧
      ∀ buf exts, clientHelloExtensions buf = found exts ↔
        ∃ version cipherSuites, clientHelloJa4Fields buf = found (version,cipherSuites,exts) := by
  obtain ⟨suites,extensions⟩ := changesReal changes
  have alike := changesAlike distinct extensions
  have same : computeJa4 sha256 h.record = computeJa4 sha256 h'.record := by
    have negotiated : negotiatedVersion h.version (block h.extensions) = negotiatedVersion h'.version (block h'.extensions) := by
      rw [negotiatedVersion, findAlike alike (by decide), version]
      rfl
    have name : sniFromExtensions (block h.extensions) = sniFromExtensions (block h'.extensions) := findAlike alike (by decide) _
    have first : alpnFirstValue (block h.extensions) = alpnFirstValue (block h'.extensions) := findAlike alike (by decide) _
    have alpn : alpnCode (block h.extensions) = alpnCode (block h'.extensions) := by
      rw [alpnCode, first]
      rfl
    rw [computeJa4, computeJa4, fieldsRecovered, fieldsRecovered]
    simp only [bindFound, negotiated, name, alpn, cipherAlike some' others suites, extensionAlike alike extensions]
  obtain ⟨fingerprint,here⟩ := ja4Found sha256 h
  exact ⟨⟨fingerprint,here,same ▸ here⟩,fieldsAgree⟩

/- Two suites and two extensions with one value thrown in among each. -/
def plainHello : Hello where
  recordVersion := 0x0301
  version := 0x0303
  random := .replicate 32 0
  sessionId := []
  cipherSuites := [0x1301,0x1302]
  compression := [0]
  extensions := [(0x0010,[0,3,2,104,50]),(0x002b,[2,3,4])]
  sessionShort := sessionless
  compressionShort := uncompressed
  recordShort := by decide

def shuffledHello : Hello :=
  { plainHello with
    cipherSuites := [0x0a0a,0x1302,0x1301]
    extensions := [(0x002b,[2,3,4]),(0x1a1a,[]),(0x0010,[0,3,2,104,50])]
    recordShort := by decide }

theorem shuffledStable : (∃ fingerprint, computeJa4 (fun _ => .replicate 32 0) plainHello.record = found fingerprint ∧
      computeJa4 (fun _ => .replicate 32 0) shuffledHello.record = found fingerprint) ∧
    ∀ buf exts, clientHelloExtensions buf = found exts ↔
      ∃ version cipherSuites, clientHelloJa4Fields buf = found (version,cipherSuites,exts) := by
  refine ja4Stable _ rfl (by decide) (by decide) (by decide) ?_
  have shuffled : Change (plainHello.cipherSuites,plainHello.extensions) ([0x1302,0x1301],plainHello.extensions) := .suites (.swap ..)
  have thrown : Change ([0x1302,0x1301],plainHello.extensions) (shuffledHello.cipherSuites,plainHello.extensions) :=
    @Change.addSuite [] [0x1302,0x1301] 0x0a0a _ (by decide)
  have turned : Change (shuffledHello.cipherSuites,plainHello.extensions) (shuffledHello.cipherSuites,[(0x002b,[2,3,4]),(0x0010,[0,3,2,104,50])]) :=
    .extensions (.swap ..)
  have between : Change (shuffledHello.cipherSuites,[(0x002b,[2,3,4]),(0x0010,[0,3,2,104,50])]) (shuffledHello.cipherSuites,shuffledHello.extensions) :=
    @Change.addExtension _ [(0x002b,[2,3,4])] [(0x0010,[0,3,2,104,50])] (0x1a1a,[]) (by decide)
  exact (((Relation.ReflTransGen.single shuffled).tail thrown).tail turned).tail between

end Stability
end CadsTunnel.Ja4
