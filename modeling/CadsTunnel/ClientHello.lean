import CadsTunnel.AsciiCase
import CadsTunnel.ByteReads
import CadsTunnel.ShortStrings

/-! The ClientHello at the front of a TLS connection: the record as a client writes it, and
the edge's readers, with every read at its own position and the indices that would stop the
program apart from the lookups that answer. -/
namespace CadsTunnel.ClientHello
open Words AsciiCase ByteReads Read

def handshakeBody (hs : Bytes) : Read Bytes :=
  if hs.length < 4 then absent
  else do
    let msgType ← index hs 0
    if msgType ≠ 1 then absent
    else slice hs 4 hs.length

def clientHelloBody (buf : Bytes) : Read Bytes :=
  if buf.length < 5 then absent
  else do
    let contentType ← index buf 0
    if contentType ≠ 0x16 then absent
    else
      let recLen ← u16Index buf 3
      let hs ← slice buf 5 (5 + recLen.toNat)
      handshakeBody hs

def clientHelloExtensions (buf : Bytes) : Read Bytes := do
  let body ← clientHelloBody buf
  -- client_version and random
  let p := 34
  let sid ← get body p
  let p := p + 1 + sid.toNat
  let cs ← u16Get body p
  let p := p + 2 + cs.toNat
  let cm ← get body p
  let p := p + 1 + cm.toNat
  let extTotal ← u16Get body p
  let p := p + 2
  slice body p (p + extTotal.toNat)

def clientHelloJa4Fields (buf : Bytes) : Read (UInt16 × Bytes × Bytes) := do
  let body ← clientHelloBody buf
  let version ← u16Get body 0
  let p := 34
  let sid ← get body p
  let p := p + 1 + sid.toNat
  let csLen ← u16Get body p
  let p := p + 2
  let cipherSuites ← slice body p (p + csLen.toNat)
  let p := p + csLen.toNat
  let cm ← get body p
  let p := p + 1 + cm.toNat
  let extTotal ← u16Get body p
  let p := p + 2
  let extensions ← slice body p (p + extTotal.toNat)
  return (version,cipherSuites,extensions)

/- One turn of the walk over the extensions: what stands at `q`, and where the next one is. -/
def extensionAt (exts : Bytes) (q : Nat) : Read (UInt16 × Bytes) := do
  let etype ← u16Index exts q
  let elen ← u16Index exts (q + 2)
  let edata ← slice exts (q + 4) (q + 4 + elen.toNat)
  return (etype,edata)

section Walks
variable {α σ : Type}

def findFrom (exts : Bytes) (want : UInt16) (f : Bytes → Read α) (q : Nat) : Read α :=
  if q + 4 ≤ exts.length then
    match extensionAt exts q with
    | outside => outside
    | absent => absent
    | found (etype,edata) => if etype = want then f edata else findFrom exts want f (q + 4 + edata.length)
  else absent
termination_by exts.length - q

def findExtension (exts : Bytes) (want : UInt16) (f : Bytes → Read α) : Read α := findFrom exts want f 0

/- What the visitor has gathered is kept where the walk ends early. -/
def eachFrom (exts : Bytes) (f : σ → UInt16 → Bytes → σ) (q : Nat) (seen : σ) : σ × Read Unit :=
  if q + 4 ≤ exts.length then
    match extensionAt exts q with
    | outside => (seen,outside)
    | absent => (seen,absent)
    | found (etype,edata) => eachFrom exts f (q + 4 + edata.length) (f seen etype edata)
  else (seen,found ())
termination_by exts.length - q

def eachExtension (exts : Bytes) (f : σ → UInt16 → Bytes → σ) (seen : σ) : σ × Read Unit := eachFrom exts f 0 seen

end Walks

/- The list inside the data of a server_name or ALPN extension. -/
def innerList (edata : Bytes) : Read Bytes :=
  if edata.length < 2 then absent
  else do
    let listLen ← u16Index edata 0
    slice edata 2 (2 + listLen.toNat)

def hostName (list : Bytes) : Read String :=
  if list.length < 3 then absent
  else do
    let kind ← index list 0
    if kind ≠ 0 then absent
    else
      let nameLen ← u16Index list 1
      let name ← slice list 3 (3 + nameLen.toNat)
      ofOption (fromUtf8 name)

def sniFromExtensions (exts : Bytes) : Read String := findExtension exts 0x0000 fun edata => innerList edata >>= hostName

def peekSni (buf : Bytes) : Read String := do
  let exts ← clientHelloExtensions buf
  let sni ← sniFromExtensions exts
  return lower sni

/- The protocol at `i`. -/
def protocolAt (list : Bytes) (i : Nat) : Read Bytes := do
  let l ← get list i
  slice list (i + 1) (i + 1 + l.toNat)

def hasFrom (list want : Bytes) (i : Nat) : Read Bool :=
  if i < list.length then
    match protocolAt list i with
    | outside => outside
    | absent => absent
    | found name => if name = want then found true else hasFrom list want (i + 1 + name.length)
  else found false
termination_by list.length - i

def alpnExtensionHas (exts : Bytes) (want : String) : Read Bool :=
  (findExtension exts 0x0010 fun edata => innerList edata >>= fun list => hasFrom list (asBytes want) 0).getD false

def protocolsFrom (list : Bytes) (i : Nat) (out : List String) : Read (List String) :=
  if i < list.length then
    match protocolAt list i with
    | outside => outside
    | absent => absent
    | found name =>
      -- bytes that are no text are passed over
      let out := match fromUtf8 name with
        | some s => out ++ [s]
        | none => out
      protocolsFrom list (i + 1 + name.length) out
  else found out
termination_by list.length - i

def peekAlpn (buf : Bytes) : Read (List String) := do
  match ← (clientHelloExtensions buf).optional with
  | none => return []
  | some exts => (findExtension exts 0x0010 fun edata => innerList edata >>= fun list => protocolsFrom list 0 []).getD []

def alpnFirstValue (exts : Bytes) : Read Bytes :=
  findExtension exts 0x0010 fun edata => innerList edata >>= fun list => if list.isEmpty then absent else protocolAt list 0

section Records

def block (extensions : List (UInt16 × Bytes)) : Bytes := extensions.flatMap fun e => u16BE e.1 ++ (u16BE (.ofNat e.2.length) ++ e.2)

def suites (ids : List UInt16) : Bytes := ids.flatMap u16BE

/- What a client sends, short enough for the lengths that are written of it. -/
structure Hello where
  recordVersion : UInt16
  version : UInt16
  random : Vector UInt8 32
  sessionId : Bytes
  cipherSuites : List UInt16
  compression : Bytes
  extensions : List (UInt16 × Bytes)
  sessionShort : sessionId.length < 256
  compressionShort : compression.length < 256
  recordShort : 44 + sessionId.length + (suites cipherSuites).length + compression.length + (block extensions).length < 2 ^ 16

theorem sessionless : ([] : Bytes).length < 256 := by decide

theorem uncompressed : ([0] : Bytes).length < 256 := by decide

variable (h : Hello)

def Hello.body : Bytes :=
  u16BE h.version ++ (h.random.toList ++ (UInt8.ofNat h.sessionId.length :: (h.sessionId ++
    (u16BE (.ofNat (suites h.cipherSuites).length) ++ (suites h.cipherSuites ++ (UInt8.ofNat h.compression.length :: (h.compression ++
      (u16BE (.ofNat (block h.extensions).length) ++ block h.extensions))))))))

def Hello.handshake : Bytes := 1 :: (be 3 h.body.length ++ h.body)

def Hello.record : Bytes := 0x16 :: (u16BE h.recordVersion ++ (u16BE (.ofNat h.handshake.length) ++ h.handshake))

theorem bodyLength : h.body.length =
    40 + h.sessionId.length + (suites h.cipherSuites).length + h.compression.length + (block h.extensions).length := by
  simp only [Hello.body, List.length_append, List.length_cons, u16Length, h.random.length_toList]
  omega

theorem handshakeLength : h.handshake.length = 4 + h.body.length := by
  simp only [Hello.handshake, List.length_append, List.length_cons, beLength]
  omega

theorem handshakeShort : h.handshake.length < 2 ^ 16 := by
  have short := h.recordShort
  rw [handshakeLength, bodyLength]
  omega

theorem byteShort {n : Nat} (short : n < 256) : (UInt8.ofNat n).toNat = n := by
  rw [UInt8.toNat_ofNat', Nat.mod_eq_of_lt short]

/- The front of a record, and what there is of the handshake. -/
theorem handshakeSlice (version : UInt16) {n : Nat} (short : n < 2 ^ 16) (rest : Bytes) :
    clientHelloBody (0x16 :: (u16BE version ++ (u16BE (.ofNat n) ++ rest))) = if rest.length < n then absent else handshakeBody (rest.take n) := by
  have length : (0x16 :: (u16BE version ++ (u16BE (.ofNat n) ++ rest)) : Bytes).length = 5 + rest.length := by
    simp only [List.length_append, List.length_cons, u16Length]
    omega
  have third : (0x16 :: (u16BE version ++ (u16BE (.ofNat n) ++ rest)) : Bytes).drop 3 = u16BE (.ofNat n) ++ rest :=
    List.drop_left' (u16Length version)
  obtain ⟨-,size,behind⟩ := u16Front third
  rw [clientHelloBody, if_neg (by omega), indexFront rfl, bindFound, if_neg (by decide), size, bindFound, u16Small short]
  split
  · rw [slice, if_neg (by omega)]
    rfl
  · rename_i enough
    have part : (0x16 :: (u16BE version ++ (u16BE (.ofNat n) ++ rest)) : Bytes).drop 5 = rest.take n ++ rest.drop n := by
      rw [behind, List.take_append_drop]
    have found' := sliceFront part (by omega)
    rw [List.length_take_of_le (Nat.not_lt.mp enough)] at found'
    rw [found', bindFound]

theorem bodyRecovered : clientHelloBody h.record = found h.body := by
  have fourth : h.handshake.drop 4 = h.body ++ [] := by
    rw [List.append_nil]
    exact List.drop_left' (beLength 3 _)
  have length := handshakeLength h
  have first : index h.handshake 0 = found 1 := rfl
  rw [Hello.record, handshakeSlice _ (handshakeShort h), if_neg (lt_irrefl _), List.take_length, handshakeBody, if_neg (by omega),
    first, bindFound, if_neg (by decide), length]
  exact sliceFront fourth (by omega)

theorem cutAbsent {cut : Bytes} (front : cut <+: h.record) (short : cut ≠ h.record) : clientHelloBody cut = absent := by
  by_cases header : cut.length < 5
  · rw [clientHelloBody, if_pos header]
  · have parts : h.record = (0x16 :: (u16BE h.recordVersion ++ u16BE (.ofNat h.handshake.length))) ++ h.handshake := by
      simp only [Hello.record, List.cons_append, List.append_assoc]
    have five : (0x16 :: (u16BE h.recordVersion ++ u16BE (.ofNat h.handshake.length)) : Bytes).length = 5 := by
      simp only [List.length_cons, List.length_append, u16Length]
    obtain ⟨rest,rfl⟩ := List.prefix_of_prefix_length_le (parts ▸ List.prefix_append _ _) front (by omega)
    obtain ⟨tail,whole⟩ := front
    rw [parts, List.append_assoc, List.append_cancel_left_eq] at whole
    have missing : rest.length < h.handshake.length := by
      rw [← whole, List.length_append]
      have some' : tail ≠ [] := by
        rintro rfl
        rw [List.append_nil] at whole
        exact short (by rw [parts, whole])
      exact Nat.lt_add_of_pos_right (List.length_pos_iff.mpr some')
    rw [List.cons_append, List.append_assoc, handshakeSlice _ (handshakeShort h), if_pos missing]

theorem fieldsRecovered : clientHelloJa4Fields h.record = found (h.version,suites h.cipherSuites,block h.extensions) := by
  have version : u16Get h.body 0 = found h.version := (u16Front (List.drop_zero ..)).1
  have sid : h.body.drop 34 = UInt8.ofNat h.sessionId.length :: (h.sessionId ++ (u16BE (.ofNat (suites h.cipherSuites).length) ++
      (suites h.cipherSuites ++ (UInt8.ofNat h.compression.length :: (h.compression ++
        (u16BE (.ofNat (block h.extensions).length) ++ (block h.extensions ++ []))))))) := by
    rw [List.append_nil, Hello.body, ← List.append_assoc]
    exact List.drop_left' (by rw [List.length_append, u16Length, h.random.length_toList])
  have length := bodyLength h
  have short := h.recordShort
  have cs := partBehind (dropNext sid).2
  obtain ⟨csLen,-,ids⟩ := u16Front cs
  have cm := partBehind ids
  obtain ⟨extLen,-,exts⟩ := u16Front (partBehind (dropNext cm).2)
  have idsFound := sliceFront ids (by omega)
  have extsFound := sliceFront exts (by omega)
  rw [clientHelloJa4Fields, bodyRecovered, bindFound, version, bindFound]
  simp only [getFront sid, bindFound, byteShort h.sessionShort, csLen, u16Small (show (suites h.cipherSuites).length < 2 ^ 16 by omega), idsFound,
    getFront cm, byteShort h.compressionShort, extLen, u16Small (show (block h.extensions).length < 2 ^ 16 by omega), extsFound, pureFound]

end Records

section Agreement
variable {buf exts : Bytes}

theorem u16GetParts {p : Nat} {v : UInt16} (reads : u16Get buf p = found v) : p + 1 < buf.length := by
  obtain ⟨high,-,reads⟩ := bindEq.mp reads
  obtain ⟨low,second,-⟩ := bindEq.mp reads
  exact (getParts second).1

theorem getSome {p : Nat} (bound : p < buf.length) : ∃ b, get buf p = found b := by
  rw [ByteReads.get, List.getElem?_eq_getElem bound]
  exact ⟨_,rfl⟩

/- Both readers walk the same way: where the one comes to the extensions so does the other. -/
theorem fieldsAgree (buf exts : Bytes) :
    clientHelloExtensions buf = found exts ↔ ∃ version cipherSuites, clientHelloJa4Fields buf = found (version,cipherSuites,exts) := by
  constructor
  · intro reads
    obtain ⟨body,inner,reads⟩ := bindEq.mp reads
    obtain ⟨sid,session,reads⟩ := bindEq.mp reads
    obtain ⟨cs,size,reads⟩ := bindEq.mp reads
    obtain ⟨cm,methods,reads⟩ := bindEq.mp reads
    obtain ⟨extTotal,total,reads⟩ := bindEq.mp reads
    have behind := (getParts methods).1
    obtain ⟨high,first⟩ := @getSome body 0 (by omega)
    obtain ⟨low,second⟩ := @getSome body 1 (by omega)
    have version : u16Get body 0 = found (.ofNat (readBE [high,low])) := by
      rw [u16Get, first, bindFound, second]
      rfl
    have ids : slice body (34 + 1 + sid.toNat + 2) (34 + 1 + sid.toNat + 2 + cs.toNat) =
        found ((body.drop (34 + 1 + sid.toNat + 2)).take cs.toNat) := by
      rw [slice, if_pos ⟨by omega,by omega⟩, Nat.add_sub_cancel_left]
    refine ⟨.ofNat (readBE [high,low]),(body.drop (34 + 1 + sid.toNat + 2)).take cs.toNat,?_⟩
    simp only [clientHelloJa4Fields, inner, version, session, size, ids, methods, total, reads, bindFound, pureFound]
  · rintro ⟨version,cipherSuites,reads⟩
    obtain ⟨body,inner,reads⟩ := bindEq.mp reads
    obtain ⟨first,-,reads⟩ := bindEq.mp reads
    obtain ⟨sid,session,reads⟩ := bindEq.mp reads
    obtain ⟨cs,size,reads⟩ := bindEq.mp reads
    obtain ⟨ids,part,reads⟩ := bindEq.mp reads
    obtain ⟨cm,methods,reads⟩ := bindEq.mp reads
    obtain ⟨extTotal,total,reads⟩ := bindEq.mp reads
    obtain ⟨block,extensions,same⟩ := bindEq.mp reads
    cases same
    simp only [clientHelloExtensions, inner, session, size, methods, total, extensions, bindFound]

end Agreement

section Blocks
variable {α σ : Type} {exts : Bytes} {es : List (UInt16 × Bytes)}

theorem dataShort {e : UInt16 × Bytes} (mem : e ∈ es) : e.2.length + 4 ≤ (block es).length := by
  have one := List.le_sum_of_mem (List.mem_map_of_mem (f := fun e : UInt16 × Bytes => (u16BE e.1 ++ (u16BE (.ofNat e.2.length) ++ e.2)).length) mem)
  rw [block, List.length_flatMap]
  simp only [List.length_append, u16Length] at one ⊢
  omega

theorem blockCons (e : UInt16 × Bytes) (es : List (UInt16 × Bytes)) :
    block (e :: es) = u16BE e.1 ++ (u16BE (.ofNat e.2.length) ++ (e.2 ++ block es)) := by
  rw [block, List.flatMap_cons, List.append_assoc, List.append_assoc, block]

theorem extensionFront {q : Nat} {e : UInt16 × Bytes} {rest : Bytes} (short : e.2.length < 2 ^ 16)
    (at' : exts.drop q = u16BE e.1 ++ (u16BE (.ofNat e.2.length) ++ (e.2 ++ rest))) :
    q + 4 ≤ exts.length ∧ extensionAt exts q = found e ∧ exts.drop (q + 4 + e.2.length) = rest := by
  have length := congrArg List.length at'
  simp only [List.length_drop, List.length_append, u16Length] at length
  obtain ⟨-,type,second⟩ := u16Front at'
  obtain ⟨-,size,data⟩ := u16Front second
  have part := sliceFront data (by omega)
  refine ⟨by omega,?_,partBehind data⟩
  rw [extensionAt, type, bindFound, size, bindFound, u16Small short, part]
  rfl

theorem blockEnd {q : Nat} (at' : exts.drop q = block []) : ¬ q + 4 ≤ exts.length := by
  have past := List.drop_eq_nil_iff.mp at'
  omega

theorem findBlock {want : UInt16} {f : Bytes → Read α} {q : Nat} (short : ∀ e ∈ es, e.2.length < 2 ^ 16) (at' : exts.drop q = block es) :
    findFrom exts want f q = ((es.find? (·.1 = want)).map Prod.snd).elim absent f := by
  induction es generalizing q with
  | nil =>
    rw [findFrom, if_neg (blockEnd at')]
    rfl
  | cons e es ih =>
    obtain ⟨small,others⟩ := List.forall_mem_cons.mp short
    rw [blockCons] at at'
    obtain ⟨room,here,next⟩ := extensionFront small at'
    rw [findFrom, if_pos room, here, List.find?_cons]
    by_cases same : e.1 = want
    · simp only [same, if_true, decide_true]
      rfl
    · simp only [same, if_false, decide_false]
      exact ih others next

theorem eachBlock {f : σ → UInt16 → Bytes → σ} {q : Nat} (short : ∀ e ∈ es, e.2.length < 2 ^ 16) (at' : exts.drop q = block es) (seen : σ) :
    eachFrom exts f q seen = (es.foldl (fun seen e => f seen e.1 e.2) seen,found ()) := by
  induction es generalizing q seen with
  | nil =>
    rw [eachFrom, if_neg (blockEnd at')]
    rfl
  | cons e es ih =>
    obtain ⟨small,others⟩ := List.forall_mem_cons.mp short
    rw [blockCons] at at'
    obtain ⟨room,here,next⟩ := extensionFront small at'
    rw [eachFrom, if_pos room, here]
    exact ih others next _

def first (es : List (UInt16 × Bytes)) (want : UInt16) : Option Bytes := (es.find? (·.1 = want)).map Prod.snd

theorem findFirst {want : UInt16} {f : Bytes → Read α} (short : ∀ e ∈ es, e.2.length < 2 ^ 16) :
    findExtension (block es) want f = (first es want).elim absent f :=
  findBlock short (List.drop_zero ..)

theorem helloShort (h : Hello) : ∀ e ∈ h.extensions, e.2.length < 2 ^ 16 := by
  intro e mem
  have one := dataShort mem
  have all := h.recordShort
  omega

theorem blockRecovered (h : Hello) : clientHelloExtensions h.record = found (block h.extensions) :=
  (fieldsAgree _ _).mpr ⟨_,_,fieldsRecovered h⟩

end Blocks

section Contents

theorem innerParts {data list : Bytes} : innerList data = found list ↔
    ∃ behind, list.length < 2 ^ 16 ∧ data = u16BE (.ofNat list.length) ++ (list ++ behind) := by
  constructor
  · intro reads
    rw [innerList] at reads
    split at reads <;> try contradiction
    rename_i two
    obtain ⟨size,length,part⟩ := bindEq.mp reads
    obtain ⟨-,-,count,behind⟩ := sliceParts part
    have front := u16IndexParts length
    rw [Nat.add_sub_cancel_left] at count
    rw [List.drop_zero, behind] at front
    refine ⟨data.drop (2 + size.toNat),count ▸ size.toNat_lt,?_⟩
    rw [count, UInt16.ofNat_toNat]
    exact front
  · rintro ⟨behind,short,rfl⟩
    have at' : (u16BE (.ofNat list.length) ++ (list ++ behind)).drop 0 = _ := List.drop_zero ..
    obtain ⟨-,size,next⟩ := u16Front at'
    have room : 2 ≤ (u16BE (.ofNat list.length) ++ (list ++ behind)).length := by
      rw [List.length_append, u16Length]
      omega
    rw [innerList, if_neg (by omega), size, bindFound, u16Small short]
    exact sliceFront next room

theorem hostParts {list : Bytes} {name : String} : hostName list = found name ↔
    ∃ more, (asBytes name).length < 2 ^ 16 ∧ list = 0 :: (u16BE (.ofNat (asBytes name).length) ++ (asBytes name ++ more)) := by
  constructor
  · intro reads
    rw [hostName] at reads
    split at reads <;> try contradiction
    obtain ⟨kind,first,reads⟩ := bindEq.mp reads
    split at reads <;> try contradiction
    rename_i plain
    obtain rfl := not_not.mp plain
    obtain ⟨size,length,reads⟩ := bindEq.mp reads
    obtain ⟨raw,part,reads⟩ := bindEq.mp reads
    obtain ⟨-,-,count,behind⟩ := sliceParts part
    have text : asBytes name = raw := by
      cases read : fromUtf8 raw with
      | none =>
        rw [read] at reads
        contradiction
      | some s =>
        rw [read] at reads
        cases reads
        exact fromUtf8Some read
    have front := (indexParts first).2
    rw [Nat.add_sub_cancel_left] at count
    rw [List.drop_zero, u16IndexParts length, behind] at front
    refine ⟨list.drop (3 + size.toNat),?_,?_⟩
    · rw [text, count]
      exact size.toNat_lt
    · rw [text, count, UInt16.ofNat_toNat]
      exact front
  · rintro ⟨more,short,rfl⟩
    have first : (0 :: (u16BE (.ofNat (asBytes name).length) ++ (asBytes name ++ more)) : Bytes).drop 1 =
        u16BE (.ofNat (asBytes name).length) ++ (asBytes name ++ more) := rfl
    obtain ⟨-,size,next⟩ := u16Front first
    have room : 3 ≤ (0 :: (u16BE (.ofNat (asBytes name).length) ++ (asBytes name ++ more)) : Bytes).length := by
      rw [List.length_cons, List.length_append, u16Length]
      omega
    rw [hostName, if_neg (by omega), indexFront rfl, bindFound, if_neg (by decide), size, bindFound, u16Small short, sliceFront next room,
      bindFound, fromUtf8Bytes]
    rfl

/- Data whose first entry is a host name. -/
def HostName (data : Bytes) (name : String) : Prop := ∃ more behind : Bytes, 3 + (asBytes name).length + more.length < 2 ^ 16 ∧
  data = u16BE (.ofNat (3 + (asBytes name).length + more.length)) ++
    (0 :: (u16BE (.ofNat (asBytes name).length) ++ (asBytes name ++ more)) ++ behind)

theorem hostNameRead {data : Bytes} {name : String} : (innerList data >>= hostName) = found name ↔ HostName data name := by
  have length (more : Bytes) : (0 :: (u16BE (.ofNat (asBytes name).length) ++ (asBytes name ++ more)) : Bytes).length =
      3 + (asBytes name).length + more.length := by
    simp only [List.length_cons, List.length_append, u16Length]
    omega
  rw [bindEq]
  constructor
  · rintro ⟨list,inner,host⟩
    obtain ⟨more,short,rfl⟩ := hostParts.mp host
    obtain ⟨behind,whole,same⟩ := innerParts.mp inner
    rw [length] at whole same
    exact ⟨more,behind,whole,same⟩
  · rintro ⟨more,behind,short,same⟩
    refine ⟨_,innerParts.mpr ⟨behind,(length more).trans_lt short,?_⟩,hostParts.mpr ⟨more,by omega,rfl⟩⟩
    rw [length]
    exact same

section Protocols
open ShortStrings
variable {list : Bytes} {names : List Bytes} {tail : Bytes} {i : Nat}

theorem protocolFront {name rest : Bytes} (short : name.length < 256) (at' : list.drop i = UInt8.ofNat name.length :: (name ++ rest)) :
    i < list.length ∧ protocolAt list i = found name ∧ list.drop (i + 1 + name.length) = rest := by
  have length := congrArg List.length at'
  rw [List.length_drop, List.length_cons] at length
  have data := (dropNext at').2
  have part := sliceFront data (by omega)
  refine ⟨by omega,?_,partBehind data⟩
  rw [protocolAt, getFront at', bindFound, byteShort short, part]

theorem listEnd (at' : list.drop i = []) : ¬ i < list.length := by
  have past := List.drop_eq_nil_iff.mp at'
  omega

theorem protocolMissing (at' : list.drop i = tail) (some' : tail ≠ []) (last : ShortStrings.read tail = none) :
    i < list.length ∧ protocolAt list i = absent := by
  cases tail with
  | nil => contradiction
  | cons l rest =>
    have length := congrArg List.length at'
    rw [List.length_drop, List.length_cons] at length
    rw [ShortStrings.read] at last
    split at last <;> try contradiction
    rename_i missing
    refine ⟨by omega,?_⟩
    rw [protocolAt, getFront at', bindFound, slice, if_neg (by omega)]

theorem hasNames (want : Bytes) (short : ∀ name ∈ names, name.length < 256) (last : ShortStrings.read tail = none)
    (at' : list.drop i = write names ++ tail) :
    hasFrom list want i = if want ∈ names then found true else if tail = [] then found false else absent := by
  induction names generalizing i with
  | nil =>
    rw [if_neg (List.not_mem_nil)]
    split
    · rename_i none'
      rw [hasFrom, if_neg (listEnd (at'.trans none'))]
    · rename_i some'
      obtain ⟨room,missing⟩ := protocolMissing at' some' last
      rw [hasFrom, if_pos room, missing]
  | cons name names ih =>
    obtain ⟨small,others⟩ := List.forall_mem_cons.mp short
    rw [writeCons, List.cons_append, List.append_assoc] at at'
    obtain ⟨room,here,next⟩ := protocolFront small at'
    rw [hasFrom, if_pos room, here]
    by_cases same : name = want
    · simp only [same, if_true, List.mem_cons, true_or]
    · simp only [same, if_false, List.mem_cons, Ne.symm same, false_or]
      exact ih others next

theorem protocolNames (short : ∀ name ∈ names, name.length < 256) (last : ShortStrings.read tail = none)
    (at' : list.drop i = write names ++ tail) (out : List String) :
    protocolsFrom list i out = if tail = [] then found (out ++ names.filterMap fromUtf8) else absent := by
  induction names generalizing i out with
  | nil =>
    split
    · rename_i none'
      rw [protocolsFrom, if_neg (listEnd (at'.trans none')), List.filterMap_nil, List.append_nil]
    · rename_i some'
      obtain ⟨room,missing⟩ := protocolMissing at' some' last
      rw [protocolsFrom, if_pos room, missing]
  | cons name names ih =>
    obtain ⟨small,others⟩ := List.forall_mem_cons.mp short
    rw [writeCons, List.cons_append, List.append_assoc] at at'
    obtain ⟨room,here,next⟩ := protocolFront small at'
    rw [protocolsFrom, if_pos room, here]
    dsimp only
    rw [ih others next, List.filterMap_cons]
    cases fromUtf8 name with
    | none => rfl
    | some s => rw [List.append_assoc, List.singleton_append]

/- Data with a list of names and, where its last entry is cut short, what there is of that. -/
def Listed (data : Bytes) (names : List Bytes) (tail : Bytes) : Prop :=
  (∀ name ∈ names, name.length < 256) ∧ ShortStrings.read tail = none ∧ ∃ behind, (write names ++ tail).length < 2 ^ 16 ∧
    data = u16BE (.ofNat (write names ++ tail).length) ++ (write names ++ tail ++ behind)

theorem innerListed {data : Bytes} (listed : Listed data names tail) : innerList data = found (write names ++ tail) := innerParts.mpr listed.2.2

theorem listedInner {data : Bytes} (inner : innerList data = found list) : ∃ names tail, Listed data names tail := by
  obtain ⟨names,tail,rfl,short,last⟩ := leadingStrings list
  exact ⟨names,tail,short,last,innerParts.mp inner⟩

end Protocols
end Contents

section Bounds
variable {α : Type}

theorem bodyInside (buf : Bytes) : Inside (clientHelloBody buf) := by
  rw [clientHelloBody]
  split
  · exact absentInside
  · refine bindInside (indexInside (by omega)) fun contentType _ => ?_
    split
    · exact absentInside
    · refine bindInside (u16IndexInside (by omega)) fun recLen _ => bindInside (sliceInside _ _ _) fun hs _ => ?_
      rw [handshakeBody]
      split
      · exact absentInside
      · refine bindInside (indexInside (by omega)) fun msgType _ => ?_
        split
        · exact absentInside
        · exact sliceInside _ _ _

theorem extensionsInside (buf : Bytes) : Inside (clientHelloExtensions buf) :=
  bindInside (bodyInside buf) fun _ _ => bindInside (getInside _ _) fun _ _ => bindInside (u16GetInside _ _) fun _ _ =>
    bindInside (getInside _ _) fun _ _ => bindInside (u16GetInside _ _) fun _ _ => sliceInside _ _ _

theorem fieldsInside (buf : Bytes) : Inside (clientHelloJa4Fields buf) :=
  bindInside (bodyInside buf) fun _ _ => bindInside (u16GetInside _ _) fun _ _ => bindInside (getInside _ _) fun _ _ =>
    bindInside (u16GetInside _ _) fun _ _ => bindInside (sliceInside _ _ _) fun _ _ => bindInside (getInside _ _) fun _ _ =>
      bindInside (u16GetInside _ _) fun _ _ => bindInside (sliceInside _ _ _) fun _ _ => foundInside _

theorem extensionInside {exts : Bytes} {q : Nat} (room : q + 4 ≤ exts.length) : Inside (extensionAt exts q) :=
  bindInside (u16IndexInside (by omega)) fun _ _ => bindInside (u16IndexInside (by omega)) fun _ _ =>
    bindInside (sliceInside _ _ _) fun _ _ => foundInside _

theorem findInside {exts : Bytes} {want : UInt16} {f : Bytes → Read α} (inner : ∀ edata, Inside (f edata)) : Inside (findExtension exts want f) := by
  rw [findExtension]
  generalize 0 = q
  fun_induction findFrom exts want f q with
  | case1 q room out => exact absurd out (extensionInside room)
  | case2 | case5 => exact absentInside
  | case3 => exact inner _
  | case4 q room etype edata at' other ih => exact ih

theorem innerInside (edata : Bytes) : Inside (innerList edata) := by
  rw [innerList]
  split
  · exact absentInside
  · exact bindInside (u16IndexInside (by omega)) fun _ _ => sliceInside _ _ _

theorem hostInside (list : Bytes) : Inside (hostName list) := by
  rw [hostName]
  split
  · exact absentInside
  · refine bindInside (indexInside (by omega)) fun kind _ => ?_
    split
    · exact absentInside
    · exact bindInside (u16IndexInside (by omega)) fun _ _ => bindInside (sliceInside _ _ _) fun _ _ => optionInside _

theorem protocolInside (list : Bytes) (i : Nat) : Inside (protocolAt list i) :=
  bindInside (getInside _ _) fun _ _ => sliceInside _ _ _

theorem hasInside (list want : Bytes) (i : Nat) : Inside (hasFrom list want i) := by
  fun_induction hasFrom list want i with
  | case1 i room out => exact absurd out (protocolInside _ _)
  | case2 => exact absentInside
  | case3 | case5 => exact foundInside _
  | case4 i room name at' other ih => exact ih

theorem protocolsInside (list : Bytes) (i : Nat) (out : List String) : Inside (protocolsFrom list i out) := by
  fun_induction protocolsFrom list i out with
  | case1 i room out none' => exact absurd none' (protocolInside _ _)
  | case2 => exact absentInside
  | case3 i out room name at' out' ih => exact ih
  | case4 => exact foundInside _

theorem sniInside (exts : Bytes) : Inside (sniFromExtensions exts) :=
  findInside fun edata => bindInside (innerInside edata) fun list _ => hostInside list

theorem peekSniInside (buf : Bytes) : Inside (peekSni buf) :=
  bindInside (extensionsInside buf) fun exts _ => bindInside (sniInside exts) fun _ _ => foundInside _

theorem alpnInside (exts : Bytes) (want : String) : Inside (alpnExtensionHas exts want) :=
  getDInside (findInside fun edata => bindInside (innerInside edata) fun list _ => hasInside list _ 0) false

theorem peekAlpnInside (buf : Bytes) : Inside (peekAlpn buf) := by
  refine bindInside (optionalInside (extensionsInside buf)) fun exts _ => ?_
  cases exts with
  | none => exact foundInside _
  | some exts => exact getDInside (findInside fun edata => bindInside (innerInside edata) fun list _ => protocolsInside list 0 []) []

end Bounds

end CadsTunnel.ClientHello
