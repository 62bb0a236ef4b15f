import CadsTunnel.ReceiptEmission

/-! The receipts of one token, as they are exported. The emitter keeps one chain for all
tokens, so an export is a chain of its own only where no receipt of another token stands in
between. -/
namespace CadsTunnel.History
open OrderedMap Words Sql Receipts
open Std (ExtTreeMap)

/- Pages of a numbered list. -/
section Pages
variable {α : Type} (number : α → Nat)

/- The entries are numbered one after the other. -/
def Numbered (start : Nat) (xs : List α) : Prop := ∀ i x, xs[i]? = some x → number x = start + i

def Gapless (xs : List α) : Prop := xs.IsChain (fun x y => number y = number x + 1)

/- What a page takes stands in one block. -/
def OneBlock (selected : α → Bool) (size : Nat) (xs : List α) : Prop :=
  ∃ before middle after, xs = before ++ middle ++ after ∧ (∀ x ∈ before, ¬selected x) ∧ (∀ x ∈ middle, selected x) ∧
    (middle.length = size ∨ ∀ x ∈ after, ¬selected x)

variable {number} {selected : α → Bool} {size start : Nat}

theorem numberedTail {x : α} {rest : List α} (numbered : Numbered number start (x :: rest)) : Numbered number (start + 1) rest := by
  intro i y found
  have here := numbered (i + 1) y found
  omega

theorem numberedFrom {xs : List α} (numbered : Numbered number start xs) {x : α} (mem : x ∈ xs) : start ≤ number x := by
  obtain ⟨i,found⟩ := List.getElem?_of_mem mem
  have here := numbered i x found
  omega

theorem filterNone {xs : List α} (none' : ∀ x ∈ xs, ¬selected x) : xs.filter selected = [] :=
  List.filter_eq_nil_iff.mpr none'

/- The page goes on from an entry just before the list. -/
theorem gaplessFrom {xs : List α} (numbered : Numbered number start xs) {last : α} (next : start = number last + 1) :
    Gapless number (last :: (xs.filter selected).take size) ↔
      ∃ middle after, xs = middle ++ after ∧ (∀ x ∈ middle, selected x) ∧ (middle.length = size ∨ ∀ x ∈ after, ¬selected x) := by
  induction xs generalizing start last size with
  | nil => simp [Gapless]
  | cons x rest ih =>
    have numbered' := numberedTail numbered
    have here : number x = start := numbered 0 x rfl
    cases size with
    | zero => simpa [Gapless] using ⟨[],x :: rest,rfl,by simp⟩
    | succ size =>
      by_cases hit : selected x
      · rw [List.filter_cons_of_pos hit, List.take_succ_cons, Gapless, List.isChain_cons_cons]
        have tail := @ih size _ numbered' x (by omega)
        rw [Gapless] at tail
        rw [tail]
        constructor
        · rintro ⟨_,middle,after,rfl,all,stop⟩
          refine ⟨x :: middle,after,rfl,List.forall_mem_cons.mpr ⟨hit,all⟩,?_⟩
          simpa using stop
        · rintro ⟨middle,after,whole,all,stop⟩
          refine ⟨by omega,?_⟩
          cases middle with
          | nil =>
            rw [List.nil_append] at whole
            rw [← whole] at stop
            simp [hit] at stop
          | cons y middle =>
            obtain ⟨rfl,rfl⟩ := List.cons.inj whole
            exact ⟨middle,after,rfl,(List.forall_mem_cons.mp all).2,by simpa using stop⟩
      · rw [List.filter_cons_of_neg hit]
        constructor
        · intro chained
          have empty : (rest.filter selected).take (size + 1) = [] := by
            cases page : (rest.filter selected).take (size + 1) with
            | nil => rfl
            | cons y more =>
              have mem : y ∈ rest := List.mem_of_mem_filter (List.mem_of_mem_take (page ▸ List.mem_cons_self))
              rw [page, Gapless, List.isChain_cons_cons] at chained
              have later := numberedFrom numbered' mem
              omega
          refine ⟨[],x :: rest,rfl,by simp,.inr (List.forall_mem_cons.mpr ⟨hit,?_⟩)⟩
          rw [List.take_eq_nil_iff] at empty
          exact List.filter_eq_nil_iff.mp (empty.resolve_left (by omega))
        · rintro ⟨middle,after,whole,all,stop⟩
          cases middle with
          | nil =>
            rw [List.nil_append] at whole
            rw [← whole] at stop
            have none' := stop.resolve_left (by simp)
            rw [filterNone (List.forall_mem_cons.mp none').2, List.take_nil]
            exact List.isChain_singleton last
          | cons y middle =>
            obtain ⟨rfl,rfl⟩ := List.cons.inj whole
            exact absurd (all x List.mem_cons_self) hit

theorem gaplessPage {xs : List α} (numbered : Numbered number start xs) (some' : 0 < size) :
    Gapless number ((xs.filter selected).take size) ↔ OneBlock selected size xs := by
  induction xs generalizing start with
  | nil => simp [Gapless, OneBlock]
  | cons x rest ih =>
    have numbered' := numberedTail numbered
    have here : number x = start := numbered 0 x rfl
    by_cases hit : selected x
    · obtain ⟨size,rfl⟩ := Nat.exists_eq_succ_of_ne_zero some'.ne'
      rw [List.filter_cons_of_pos hit, List.take_succ_cons, gaplessFrom numbered' (by omega)]
      constructor
      · rintro ⟨middle,after,rfl,all,stop⟩
        refine ⟨[],x :: middle,after,rfl,by simp,List.forall_mem_cons.mpr ⟨hit,all⟩,?_⟩
        simpa using stop
      · rintro ⟨before,middle,after,whole,none',all,stop⟩
        cases before with
        | cons y before =>
          obtain ⟨rfl,_⟩ := List.cons.inj whole
          exact absurd hit (none' x List.mem_cons_self)
        | nil =>
          cases middle with
          | nil =>
            simp only [List.nil_append] at whole
            rw [← whole] at stop
            simp [hit] at stop
          | cons y middle =>
            obtain ⟨rfl,rfl⟩ := List.cons.inj whole
            exact ⟨middle,after,rfl,(List.forall_mem_cons.mp all).2,by simpa using stop⟩
    · rw [List.filter_cons_of_neg hit, ih numbered']
      constructor
      · rintro ⟨before,middle,after,rfl,none',rest⟩
        exact ⟨x :: before,middle,after,rfl,List.forall_mem_cons.mpr ⟨hit,none'⟩,rest⟩
      · rintro ⟨before,middle,after,whole,none',all,stop⟩
        cases before with
        | cons y before =>
          obtain ⟨rfl,rfl⟩ := List.cons.inj whole
          exact ⟨before,middle,after,rfl,(List.forall_mem_cons.mp none').2,all,stop⟩
        | nil =>
          cases middle with
          | cons y middle =>
            obtain ⟨rfl,rfl⟩ := List.cons.inj whole
            exact absurd (all x List.mem_cons_self) hit
          | nil =>
            simp only [List.nil_append] at whole
            rw [← whole] at stop
            have none'' := stop.resolve_left (by simp; omega)
            exact ⟨rest,[],[],by simp,(List.forall_mem_cons.mp none'').2,by simp,.inr (by simp)⟩

end Pages

/- The rows of a token with numbers beyond one. -/
def selected (tokenHash : String) (sinceSeq : UInt64) (e : Nat × ReceiptRow) : Bool :=
  e.2.routingTokenHash = tokenHash && clampI64 sinceSeq < e.1

def receiptsMaxLimit : Nat := 1000

def pageSize (limit : Nat) : Nat := max 1 (min limit receiptsMaxLimit)

def receiptsFor {floats : Json.FloatText} (texts : PayloadText floats) (tokenHash : String) (sinceSeq : UInt64) (limit : Nat) :
    Work (List Receipt) :=
  statement (fun s => (((s.receipts.toList.filter (selected tokenHash sinceSeq)).take (pageSize limit)).mapM (readReceipt texts)).map
    (fun receipts => (receipts,s)))

section Verifying
variable {crypto : SigningCrypto} {floats : Json.FloatText} {signer : ReceiptSigner}

/- What the verifier needs of a receipt of the chain. -/
theorem memberSigned {seq : UInt64} {prevBytes : Bytes} (length : prevBytes.length = 32) {events : List Event} {r : Receipt}
    (mem : r ∈ emitFrom crypto floats signer seq (Hex.encode prevBytes) events) :
    ∃ (seq' : UInt64) (prevBytes' : Bytes) (e : Event), prevBytes'.length = 32 ∧
      r = signer.sign crypto floats seq' (Hex.encode prevBytes') e.ts e.kind e.routingTokenHash e.payload := by
  induction events generalizing seq prevBytes with
  | nil => simp [emitFrom] at mem
  | cons e rest ih =>
    rw [emitFrom] at mem
    obtain rfl | later := List.mem_cons.mp mem
    · exact ⟨seq,prevBytes,e,length,rfl⟩
    · exact ih Vector.length_toList later

theorem memberEdge {seq : UInt64} {prevBytes : Bytes} (length : prevBytes.length = 32) {events : List Event} {r : Receipt}
    (mem : r ∈ emitFrom crypto floats signer seq (Hex.encode prevBytes) events) : r.edgeId = signer.edgeId := by
  obtain ⟨_,_,_,_,signed⟩ := memberSigned length mem
  rw [signed]
  rfl

variable {events : List Event}

/- Receipts of the chain with adjacent numbers are linked. -/
theorem memberLinked (fits : events.length < 2 ^ 64) {r next : Receipt} (mem : r ∈ emitted crypto floats signer events)
    (mem' : next ∈ emitted crypto floats signer events) (adjacent : next.seq.toNat = r.seq.toNat + 1) :
    next.seq = r.seq + 1 ∧ next.prevHash = r.hash := by
  obtain ⟨i,found⟩ := List.getElem?_of_mem mem
  obtain ⟨j,found'⟩ := List.getElem?_of_mem mem'
  have position := emittedPosition fits found
  have position' := emittedPosition fits found'
  have successor : j = i + 1 := by omega
  subst successor
  constructor
  · rw [emitted] at found found'
    rw [emittedSeq found, emittedSeq found', UInt64.add_assoc]
    congr 1
    exact UInt64.ofNat_add i 1
  · obtain ⟨_,_,_,_,_,link⟩ := recorded found'
    rw [link, if_neg (by omega), Nat.add_sub_cancel]
    rw [emitted] at found
    rw [found]
    rfl

theorem gaplessContinues (correct : crypto.Correct) (fits : events.length < 2 ^ 64) {receipts : List Receipt} {r : Receipt}
    (mem : r ∈ emitted crypto floats signer events) (members : ∀ x ∈ receipts, x ∈ emitted crypto floats signer events)
    (gapless : Gapless (fun x : Receipt => x.seq.toNat) (r :: receipts)) {p : Progress} (prev : p.prev = some (r.seq,r.hash))
    (edge : p.summary.edgeId = some signer.edgeId) :
    ∃ p', receipts.foldlM (verifyReceipt crypto floats (signer.pubkeyBytes crypto) none) p = .ok p' := by
  induction receipts generalizing r p with
  | nil => exact ⟨p,rfl⟩
  | cons next rest ih =>
    obtain ⟨adjacent,gapless⟩ := List.isChain_cons_cons.mp gapless
    have mem' := members next List.mem_cons_self
    obtain ⟨seq,link'⟩ := memberLinked fits mem mem' adjacent
    have length : (List.replicate 32 (0 : UInt8)).length = 32 := List.length_replicate
    rw [emitted, genesisHex] at mem'
    have named := memberEdge length mem'
    obtain ⟨_,prevBytes,e,length',signed⟩ := memberSigned length mem'
    have linked : link none p next = .ok p.summary := by simp [link, prev, seq, link', edge, named]
    have passes := signedPasses correct signer length' signed linked
    have kept : (Progress.after p.summary next).summary.edgeId = some signer.edgeId := (tallyEdgeId p.summary next).trans edge
    obtain ⟨p',later⟩ := ih (members next List.mem_cons_self) (fun x mem => members x (List.mem_cons_of_mem next mem)) gapless rfl kept
    exact ⟨p',Machine.loopCons.mpr ⟨_,passes,later⟩⟩

theorem gaplessVerifies (correct : crypto.Correct) (fits : events.length < 2 ^ 64) {receipts : List Receipt}
    (members : ∀ x ∈ receipts, x ∈ emitted crypto floats signer events) (gapless : Gapless (fun x : Receipt => x.seq.toNat) receipts) :
    ∃ summary, verifyChain crypto floats receipts (signer.pubkeyBytes crypto) = .ok summary := by
  have key : crypto.isKey (signer.pubkeyBytes crypto) = true := correct.keys signer.seed
  have run : ∃ p', receipts.foldlM (verifyReceipt crypto floats (signer.pubkeyBytes crypto) none) {} = .ok p' := by
    cases receipts with
    | nil => exact ⟨{},rfl⟩
    | cons r rest =>
      have mem := members r List.mem_cons_self
      obtain ⟨i,found⟩ := List.getElem?_of_mem mem
      have position := emittedPosition fits found
      obtain ⟨_,_,_,_,_,first⟩ := recorded found
      have length : (List.replicate 32 (0 : UInt8)).length = 32 := List.length_replicate
      have mem' := mem
      rw [emitted, genesisHex] at mem'
      have named := memberEdge length mem'
      obtain ⟨_,prevBytes,e,length',signed⟩ := memberSigned length mem'
      have accepted : (requiredPrevHash none r.seq).any (fun required => !eqIgnoreAsciiCase r.prevHash required) = false := by
        rw [requiredPrevHash]
        split
        case isTrue one =>
          have start : i = 0 := by
            rw [one, UInt64.toNat_one] at position
            omega
          rw [first, if_pos start]
          simp [eqIgnoreAsciiCase]
        case isFalse => rfl
      have linked : ∃ summary, link none {} r = .ok summary ∧ summary.edgeId = some signer.edgeId := by
        simp only [link, accepted, Bool.false_eq_true, if_false]
        exact ⟨_,rfl,by rw [named]⟩
      obtain ⟨summary,linked,edge⟩ := linked
      have passes := signedPasses correct signer length' signed linked
      have kept : (Progress.after summary r).summary.edgeId = some signer.edgeId := (tallyEdgeId summary r).trans edge
      obtain ⟨p',later⟩ := gaplessContinues correct fits mem (fun x mem => members x (List.mem_cons_of_mem r mem)) gapless rfl kept
      exact ⟨p',Machine.loopCons.mpr ⟨_,passes,later⟩⟩
  obtain ⟨p',done⟩ := run
  exact ⟨p'.summary,by simp [verifyChain, verifyChainAnchored, key, done, Except.map]⟩

/- Numbers that the verifier passes are adjacent. -/
theorem verifiedGapless (fits : events.length < 2 ^ 63) {pubkey : Key} {anchor : Option String} {receipts : List Receipt} {r : Receipt}
    {p p' : Progress} (mem : r ∈ emitted crypto floats signer events) (prev : p.prev = some (r.seq,r.hash))
    (members : ∀ x ∈ receipts, x ∈ emitted crypto floats signer events)
    (ok : receipts.foldlM (verifyReceipt crypto floats pubkey anchor) p = .ok p') :
    Gapless (fun x : Receipt => x.seq.toNat) (r :: receipts) := by
  induction receipts generalizing r p with
  | nil => exact List.isChain_singleton r
  | cons next rest ih =>
    obtain ⟨m,first,later⟩ := Machine.loopCons.mp ok
    obtain ⟨_,⟨summary,linked⟩,next'⟩ := verified first
    refine List.isChain_cons_cons.mpr ⟨?_,ih (members next List.mem_cons_self) next' (fun x mem => members x (List.mem_cons_of_mem next mem)) later⟩
    obtain ⟨i,found⟩ := List.getElem?_of_mem mem
    have position := emittedPosition (by omega) found
    obtain ⟨bound,_⟩ := List.getElem?_eq_some_iff.mp found
    rw [emitted, emittedLength] at bound
    show next.seq.toNat = r.seq.toNat + 1
    rw [linkNext prev linked, UInt64.toNat_add, UInt64.toNat_one]
    omega

/- A list of receipts of the chain verifies if and only if no number is left out. -/
theorem verifiesGapless (correct : crypto.Correct) (fits : events.length < 2 ^ 63) {receipts : List Receipt}
    (members : ∀ x ∈ receipts, x ∈ emitted crypto floats signer events) :
    (∃ anchor summary, verifyChainAnchored crypto floats receipts (signer.pubkeyBytes crypto) anchor = .ok summary) ↔
      Gapless (fun x : Receipt => x.seq.toNat) receipts := by
  constructor
  · rintro ⟨anchor,summary,ok⟩
    rw [verifyChainAnchored] at ok
    split at ok <;> try contradiction
    cases receipts with
    | nil => exact .nil
    | cons r rest =>
      cases done : (r :: rest).foldlM (verifyReceipt crypto floats (signer.pubkeyBytes crypto) anchor) {} with
      | error e => simp [done, Except.map] at ok
      | ok p' =>
        obtain ⟨m,first,later⟩ := Machine.loopCons.mp done
        obtain ⟨_,_,next⟩ := verified first
        exact verifiedGapless fits (members r List.mem_cons_self) next (fun x mem => members x (List.mem_cons_of_mem r mem)) later
  · intro gapless
    exact ⟨none,gaplessVerifies correct (by omega) members gapless⟩

end Verifying

section Exports
variable {edge : Emitter} {entries : Entries} {s : Store}

theorem rowsNumbered (good : Good edge entries s) : Numbered Prod.fst 1 s.receipts.toList := by
  intro i x found
  have key : (s.receipts.toList.map Prod.fst)[i]? = some x.1 := by rw [List.getElem?_map, found]; rfl
  rw [good.chained.rows, ledgerKeys good.chained.fits] at key
  obtain ⟨bound,value⟩ := List.getElem?_eq_some_iff.mp key
  rw [List.getElem_range'] at value
  omega

/- The export is accepted if the numbers of its rows are adjacent, and only then. -/
theorem exportAccepted (correct : edge.crypto.Correct) (texts : PayloadText edge.floats) (good : Good edge entries s) (tokenHash : String)
    (sinceSeq : UInt64) (limit : Nat) :
    ∃ page, perform (receiptsFor texts tokenHash sinceSeq limit) s [] = (.ok page,s) ∧
      ((∃ anchor summary, verifyChainAnchored edge.crypto edge.floats page (edge.signer.pubkeyBytes edge.crypto) anchor = .ok summary) ↔
        Gapless Prod.fst ((s.receipts.toList.filter (selected tokenHash sinceSeq)).take (pageSize limit))) := by
  let row : Receipt × (Nat × Event) → Nat × ReceiptRow := fun x => (x.1.seq.toNat,storedRow edge x.1 x.2.1)
  let taken := (((chain edge entries).zip entries).filter (selected tokenHash sinceSeq ∘ row)).take (pageSize limit)
  have rows : (s.receipts.toList.filter (selected tokenHash sinceSeq)).take (pageSize limit) = taken.map row := by
    rw [good.chained.rows, ledger, List.filter_map, ← List.map_take]
  have members : ∀ x ∈ taken, x.1 ∈ chain edge entries := fun x mem =>
    (List.of_mem_zip (List.mem_of_mem_filter (List.mem_of_mem_take mem))).1
  have read : (taken.map row).mapM (readReceipt texts) = .ok (taken.map Prod.fst) :=
    storedList texts (fun x mem => chainPlain good.kept (members x mem))
  refine ⟨taken.map Prod.fst,?_,?_⟩
  · have ran : receiptsFor texts tokenHash sinceSeq limit (s,[]) = (.ok (taken.map Prod.fst),(s,[])) := by
      simp only [receiptsFor, statement, rows, read, Except.map, List.headD_nil, Bool.false_eq_true, if_false, List.tail_nil]
    rw [perform, ran]
  · have fits : (entries.map Prod.snd).length < 2 ^ 63 := by
      rw [List.length_map]
      exact good.chained.fits
    have listed : ∀ r ∈ taken.map Prod.fst, r ∈ chain edge entries := by
      intro r mem
      obtain ⟨x,mem',rfl⟩ := List.mem_map.mp mem
      exact members x mem'
    rw [verifiesGapless correct fits listed, rows, Gapless, Gapless, List.isChain_map, List.isChain_map]

/- The export of a token verifies if its receipts stand in one block of the chain, and only then. -/
theorem receiptExport (edge : Emitter) (correct : edge.crypto.Correct) (texts : PayloadText edge.floats) (calls : List Call)
    (tokenHash : String) (sinceSeq : UInt64) (limit : Nat) :
    let s := run edge calls
    ∃ page, perform (receiptsFor texts tokenHash sinceSeq limit) s [] = (.ok page,s) ∧
      ((∃ anchor summary, verifyChainAnchored edge.crypto edge.floats page (edge.signer.pubkeyBytes edge.crypto) anchor = .ok summary) ↔
        OneBlock (selected tokenHash sinceSeq) (pageSize limit) s.receipts.toList) := by
  obtain ⟨entries,good,_⟩ := @runSound edge calls
  obtain ⟨page,ran,accepted⟩ := exportAccepted correct texts good tokenHash sinceSeq limit
  refine ⟨page,ran,accepted.trans (gaplessPage (rowsNumbered good) ?_)⟩
  rw [pageSize]
  omega

end Exports

/- A hash that tells tokens apart. -/
def tokenSigning : SigningCrypto := { plainSigning with sha256 := fun raw => .replicate 32 (raw.headD 0) }

theorem tokenSigningCorrect : tokenSigning.Correct where
  keys _ := rfl
  signs := by
    intro seed hash
    have signed := plainSigningCorrect.signs seed hash
    simpa only [tokenSigning] using signed

def tokenEdge : Emitter := ⟨tokenSigning,pointZero,⟨.replicate 32 7,"edge"⟩⟩

def hashAA : String := routingTokenHashOfHex tokenEdge "aa"

/- A session of another token opens before the first one closes. -/
def interleaved : List Call := [⟨.openSession "aa" "quic" 5,[]⟩,⟨.openSession "bb" "quic" 6,[]⟩,⟨.closeSession "aa" 9 "idle",[]⟩]

theorem receiptExportSample :
    let s := run tokenEdge wholeSession
    ∃ page, perform (receiptsFor (plainTexts pointZero) hashAA 0 1000) s [] = (.ok page,s) ∧
      ((∃ anchor summary, verifyChainAnchored tokenSigning pointZero page (tokenEdge.signer.pubkeyBytes tokenSigning) anchor = .ok summary) ↔
        OneBlock (selected hashAA 0) (pageSize 1000) s.receipts.toList) :=
  receiptExport tokenEdge tokenSigningCorrect (plainTexts pointZero) wholeSession hashAA 0 1000

theorem interleavedRefused :
    ¬∀ (calls : List Call) (tokenHash : String) (limit : Nat) (page : List Receipt),
      perform (receiptsFor (plainTexts pointZero) tokenHash 0 limit) (run tokenEdge calls) [] = (.ok page,run tokenEdge calls) →
      ∃ anchor summary, verifyChainAnchored tokenSigning pointZero page (tokenEdge.signer.pubkeyBytes tokenSigning) anchor = .ok summary := by
  intro claim
  obtain ⟨entries,good,_⟩ := @runSound tokenEdge interleaved
  obtain ⟨page,ran,accepted⟩ := exportAccepted tokenSigningCorrect (plainTexts pointZero) good hashAA 0 1000
  have gapless := accepted.mp (claim interleaved hashAA 1000 page ran)
  have numbers : (((run tokenEdge interleaved).receipts.toList.filter (selected hashAA 0)).take (pageSize 1000)).map Prod.fst = [1,3] := by
    decide +kernel
  have keys := (List.isChain_map (R := fun a b => b = a + 1) Prod.fst).mpr gapless
  rw [numbers, List.isChain_cons_cons] at keys
  omega

end CadsTunnel.History
