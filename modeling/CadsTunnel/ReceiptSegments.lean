import CadsTunnel.ReceiptChain

/-! A receipt chain verified in segments. After its first receipt the verifier asks of each
next one what the one before it says, so a chain splits at any seam: the second segment
must name the last hash of the first, as it is spelled there, and go on with its numbers
and its edge. The anchored verifier compares that hash without regard to case. -/
namespace CadsTunnel.Receipts
open Words Machine

/- What a summary counts. -/
structure Tallies where
  count : Nat
  sessionsOpened : UInt64
  sessionsClosed : UInt64
  bytesIn : UInt64
  bytesOut : UInt64
  deriving DecidableEq

def VerifiedSummary.tallies (s : VerifiedSummary) : Tallies := ⟨s.count,s.sessionsOpened,s.sessionsClosed,s.bytesIn,s.bytesOut⟩

def Tallies.plus (a b : Tallies) : Tallies :=
  ⟨a.count + b.count,a.sessionsOpened + b.sessionsOpened,a.sessionsClosed + b.sessionsClosed,
    saturatingAdd a.bytesIn b.bytesIn,saturatingAdd a.bytesOut b.bytesOut⟩

def Tallies.zero : Tallies := ⟨0,0,0,0,0⟩

/- What one receipt adds. -/
def Receipt.tallies (r : Receipt) : Tallies :=
  if r.kind = kindSessionOpen then ⟨1,1,0,0,0⟩
  else if r.kind = kindSessionClose then ⟨1,0,1,payloadU64 r.payload "bytes_in",payloadU64 r.payload "bytes_out"⟩
  else ⟨1,0,0,0,0⟩

def talliesOf (receipts : List Receipt) : Tallies := receipts.foldr (fun r sum => r.tallies.plus sum) .zero

section Sums

theorem saturatingNat (a b : UInt64) : (saturatingAdd a b).toNat = min (a.toNat + b.toNat) (2 ^ 64 - 1) := by
  rw [saturatingAdd, checkedAdd]
  split
  · rename_i fits
    rw [Option.getD_some, UInt64.toNat_add, Nat.mod_eq_of_lt fits]
    omega
  · rw [Option.getD_none, UInt64.toNat_ofNat', Nat.mod_eq_of_lt (by decide)]
    omega

theorem saturatingAssoc (a b c : UInt64) : saturatingAdd (saturatingAdd a b) c = saturatingAdd a (saturatingAdd b c) := by
  refine UInt64.toNat_inj.mp ?_
  simp only [saturatingNat]
  omega

theorem saturatingZero (a : UInt64) : saturatingAdd a 0 = a ∧ saturatingAdd 0 a = a := by
  have bound := a.toNat_lt
  refine ⟨UInt64.toNat_inj.mp ?_,UInt64.toNat_inj.mp ?_⟩
  · rw [saturatingNat, UInt64.toNat_zero]
    omega
  · rw [saturatingNat, UInt64.toNat_zero]
    omega

theorem plusAssoc (a b c : Tallies) : (a.plus b).plus c = a.plus (b.plus c) := by
  simp only [Tallies.plus, saturatingAssoc, Nat.add_assoc, UInt64.add_assoc]

theorem plusZero (a : Tallies) : a.plus .zero = a ∧ Tallies.zero.plus a = a := by
  simp [Tallies.plus, Tallies.zero, saturatingZero]

theorem talliesAppend (a b : List Receipt) : talliesOf (a ++ b) = (talliesOf a).plus (talliesOf b) := by
  induction a with
  | nil => exact (plusZero _).2.symm
  | cons r a ih => exact (congrArg r.tallies.plus ih).trans (plusAssoc _ _ _).symm

theorem afterTallies (summary : VerifiedSummary) (r : Receipt) :
    (Progress.after summary r).summary.tallies = summary.tallies.plus r.tallies := by
  simp only [Progress.after, VerifiedSummary.tallies, tally, Receipt.tallies]
  split
  · simp [Tallies.plus, saturatingZero]
  · split
    · simp [Tallies.plus]
    · simp [Tallies.plus, saturatingZero]

end Sums

section Links
variable {crypto : SigningCrypto} {floats : Json.FloatText} {pubkey : Key}

/- A receipt whose fields read, whose hash is that of its content and whose signature verifies. -/
def Intact (crypto : SigningCrypto) (floats : Json.FloatText) (pubkey : Key) (r : Receipt) : Prop :=
  ∃ link hashBytes sigBytes, hexField r.seq "prev_hash" 32 r.prevHash = .ok link ∧ hexField r.seq "hash" 32 r.hash = .ok hashBytes ∧
    hexField r.seq "sig" 64 r.sig = .ok sigBytes ∧ checkSeal crypto floats pubkey r hashBytes sigBytes = .ok ()

theorem receiptPasses {anchor : Option String} {p p' : Progress} {r : Receipt} :
    verifyReceipt crypto floats pubkey anchor p r = .ok p' ↔
      Intact crypto floats pubkey r ∧ ∃ summary, link anchor p r = .ok summary ∧ p' = .after summary r := by
  rw [verifyReceipt]
  simp only [bindOk, Except.ok.injEq, Intact]
  constructor
  · rintro ⟨linked,readLink,hashBytes,readHash,sigBytes,readSig,summary,linkOk,_,sealed,rfl⟩
    exact ⟨⟨linked,hashBytes,sigBytes,readLink,readHash,readSig,sealed⟩,summary,linkOk,rfl⟩
  · rintro ⟨⟨linked,hashBytes,sigBytes,readLink,readHash,readSig,sealed⟩,summary,linkOk,rfl⟩
    exact ⟨linked,readLink,hashBytes,readHash,sigBytes,readSig,summary,linkOk,(),sealed,rfl⟩

/- What each receipt after the first says of the one before it, whose number and hash are given. -/
def Continues (edge : String) : UInt64 × String → List Receipt → Prop
  | _, [] => True
  | last, r :: rest => r.seq = last.1 + 1 ∧ r.prevHash = last.2 ∧ r.edgeId = edge ∧ Continues edge (r.seq,r.hash) rest

/- The number and the hash that a list ends with. -/
def endOf (last : UInt64 × String) (receipts : List Receipt) : UInt64 × String :=
  receipts.foldl (fun _ r => (r.seq,r.hash)) last

theorem endOfLast (last : UInt64 × String) {a : List Receipt} (nonempty : a ≠ []) :
    endOf last a = ((a.getLast nonempty).seq,(a.getLast nonempty).hash) := by
  obtain rfl | ⟨front,r,rfl⟩ := List.eq_nil_or_concat a
  · contradiction
  · simp [endOf]

theorem continuesAppend {edge : String} {last : UInt64 × String} {a b : List Receipt} :
    Continues edge last (a ++ b) ↔ Continues edge last a ∧ Continues edge (endOf last a) b := by
  induction a generalizing last with
  | nil => exact (and_iff_right trivial).symm
  | cons r a ih =>
    have rest : endOf last (r :: a) = endOf (r.seq,r.hash) a := rfl
    rw [List.cons_append, Continues, Continues, ih, rest]
    simp only [and_assoc]

theorem continuesEdge {edge : String} {last : UInt64 × String} {a : List Receipt} (continues : Continues edge last a) :
    ∀ r ∈ a, r.edgeId = edge := by
  induction a generalizing last with
  | nil => exact fun r mem => nomatch mem
  | cons r a ih => exact List.forall_mem_cons.mpr ⟨continues.2.2.1,ih continues.2.2.2⟩

theorem linkLater {anchor : Option String} {p : Progress} {last : UInt64 × String} {edge : String} (prev : p.prev = some last)
    (edgeId : p.summary.edgeId = some edge) {r : Receipt} {summary : VerifiedSummary} :
    link anchor p r = .ok summary ↔ (r.seq = last.1 + 1 ∧ r.prevHash = last.2 ∧ r.edgeId = edge) ∧ summary = p.summary := by
  simp only [link, prev, edgeId]
  constructor
  · intro ok
    split at ok <;> try contradiction
    rename_i number
    split at ok <;> try contradiction
    rename_i hash
    split at ok <;> try contradiction
    rename_i same
    exact ⟨⟨not_not.mp number,not_not.mp hash,(Option.some.inj (not_not.mp same)).symm⟩,(Except.ok.inj ok).symm⟩
  · rintro ⟨⟨number,hash,same⟩,rfl⟩
    rw [if_neg (not_not.mpr number), if_neg (not_not.mpr hash), if_neg (not_not.mpr (congrArg some same.symm))]

theorem linkTallies {anchor : Option String} {p : Progress} {r : Receipt} {summary : VerifiedSummary}
    (ok : link anchor p r = .ok summary) : summary.tallies = p.summary.tallies := by
  rw [link] at ok
  split at ok
  · dsimp only at ok
    split at ok <;> try contradiction
    split at ok <;> try contradiction
    split at ok <;> try contradiction
    cases ok
    rfl
  · split at ok <;> try contradiction
    cases ok
    rfl

theorem runTallies {anchor : Option String} {p p' : Progress} {receipts : List Receipt}
    (ok : receipts.foldlM (verifyReceipt crypto floats pubkey anchor) p = .ok p') :
    p'.summary.tallies = p.summary.tallies.plus (talliesOf receipts) := by
  induction receipts generalizing p with
  | nil =>
    cases loopNil.mp ok
    exact (plusZero _).1.symm
  | cons r receipts ih =>
    obtain ⟨m,first,later⟩ := loopCons.mp ok
    obtain ⟨_,summary,linked,rfl⟩ := receiptPasses.mp first
    rw [ih later, afterTallies, linkTallies linked]
    exact plusAssoc _ _ _

theorem runLater {anchor : Option String} {p : Progress} {last : UInt64 × String} {edge : String} (prev : p.prev = some last)
    (edgeId : p.summary.edgeId = some edge) {receipts : List Receipt} :
    (∃ p', receipts.foldlM (verifyReceipt crypto floats pubkey anchor) p = .ok p') ↔
      (∀ r ∈ receipts, Intact crypto floats pubkey r) ∧ Continues edge last receipts := by
  induction receipts generalizing p last with
  | nil => exact ⟨fun _ => ⟨by simp,trivial⟩,fun _ => ⟨p,rfl⟩⟩
  | cons r receipts ih =>
    have next : (∃ p', receipts.foldlM (verifyReceipt crypto floats pubkey anchor) (.after p.summary r) = .ok p') ↔ _ :=
      @ih (.after p.summary r) (r.seq,r.hash) rfl ((tallyEdgeId p.summary r).trans edgeId)
    rw [List.forall_mem_cons, Continues]
    constructor
    · rintro ⟨p',ok⟩
      obtain ⟨m,first,later⟩ := loopCons.mp ok
      obtain ⟨intact,summary,linked,rfl⟩ := receiptPasses.mp first
      obtain ⟨⟨number,hash,same⟩,rfl⟩ := (linkLater prev edgeId).mp linked
      obtain ⟨others,continues⟩ := next.mp ⟨p',later⟩
      exact ⟨⟨intact,others⟩,number,hash,same,continues⟩
    · rintro ⟨⟨intact,others⟩,number,hash,same,continues⟩
      obtain ⟨p',later⟩ := next.mpr ⟨others,continues⟩
      exact ⟨p',loopCons.mpr ⟨_,receiptPasses.mpr ⟨intact,p.summary,(linkLater prev edgeId).mpr ⟨⟨number,hash,same⟩,rfl⟩,rfl⟩,later⟩⟩

/- The first receipt need only carry the hash that is asked for, in any case of its digits. -/
def Starts (anchor : Option String) (r : Receipt) : Prop :=
  ∀ required, requiredPrevHash anchor r.seq = some required → eqIgnoreAsciiCase r.prevHash required

theorem chainPasses {anchor : Option String} {r : Receipt} {rest : List Receipt} :
    (∃ summary, verifyChainAnchored crypto floats (r :: rest) pubkey anchor = .ok summary) ↔
      crypto.isKey pubkey = true ∧ Starts anchor r ∧ (∀ r' ∈ r :: rest, Intact crypto floats pubkey r') ∧
        Continues r.edgeId (r.seq,r.hash) rest := by
  have linked {summary : VerifiedSummary} : link anchor {} r = .ok summary → Starts anchor r ∧ summary.edgeId = some r.edgeId := by
    intro ok
    simp only [link] at ok
    split at ok <;> try contradiction
    rename_i starts
    cases ok
    refine ⟨fun required asked => ?_,rfl⟩
    rw [asked] at starts
    simpa using starts
  have links (starts : Starts anchor r) : ∃ summary, link anchor {} r = .ok summary := by
    simp only [link]
    rw [if_neg]
    · exact ⟨_,rfl⟩
    · cases asked : requiredPrevHash anchor r.seq with
      | none => simp
      | some required => simpa using starts required asked
  have whole : (∃ summary, verifyChainAnchored crypto floats (r :: rest) pubkey anchor = .ok summary) ↔
      crypto.isKey pubkey = true ∧ ∃ p', (r :: rest).foldlM (verifyReceipt crypto floats pubkey anchor) {} = .ok p' := by
    rw [verifyChainAnchored]
    cases key : crypto.isKey pubkey with
    | false => simp
    | true => simp [mapOk]
  rw [whole, List.forall_mem_cons]
  refine and_congr_right fun _ => ?_
  constructor
  · rintro ⟨p',ok⟩
    obtain ⟨m,first,later⟩ := loopCons.mp ok
    obtain ⟨intact,summary,link,rfl⟩ := receiptPasses.mp first
    obtain ⟨starts,edge⟩ := linked link
    obtain ⟨others,continues⟩ := (@runLater _ _ _ anchor (.after summary r) (r.seq,r.hash) r.edgeId rfl
      ((tallyEdgeId summary r).trans edge) rest).mp ⟨p',later⟩
    exact ⟨starts,⟨intact,others⟩,continues⟩
  · rintro ⟨starts,⟨intact,others⟩,continues⟩
    obtain ⟨summary,link⟩ := links starts
    obtain ⟨p',later⟩ := (@runLater _ _ _ anchor (.after summary r) (r.seq,r.hash) r.edgeId rfl
      ((tallyEdgeId summary r).trans (linked link).2) rest).mpr ⟨others,continues⟩
    exact ⟨p',loopCons.mpr ⟨_,receiptPasses.mpr ⟨intact,summary,link,rfl⟩,later⟩⟩

theorem chainTallies {anchor : Option String} {receipts : List Receipt} {summary : VerifiedSummary}
    (ok : verifyChainAnchored crypto floats receipts pubkey anchor = .ok summary) : summary.tallies = talliesOf receipts := by
  rw [verifyChainAnchored] at ok
  split at ok <;> try contradiction
  obtain ⟨p',run,rfl⟩ := mapOk.mp ok
  exact (runTallies run).trans (plusZero _).2

end Links

/- The second segment goes on where the first one ends. -/
def Joins (last : Receipt) (b : List Receipt) : Prop :=
  ∀ r, b.head? = some r → r.seq = last.seq + 1 ∧ r.edgeId = last.edgeId ∧ r.prevHash = last.hash

/- A chain verifies as a whole exactly if its first segment does, its second does under the last
hash of the first, and the second goes on where the first ends. Its tallies are then the
sums of theirs. -/
theorem chainSplits (crypto : SigningCrypto) (floats : Json.FloatText) (pubkey : Key) (a b : List Receipt) (nonempty : a ≠ []) :
    let last := a.getLast nonempty
    ((∃ whole, verifyChain crypto floats (a ++ b) pubkey = .ok whole) ↔
      (∃ first, verifyChain crypto floats a pubkey = .ok first) ∧
      (∃ second, verifyChainAnchored crypto floats b pubkey (some last.hash) = .ok second) ∧ Joins last b) ∧
    ∀ whole first second, verifyChain crypto floats (a ++ b) pubkey = .ok whole → verifyChain crypto floats a pubkey = .ok first →
      verifyChainAnchored crypto floats b pubkey (some last.hash) = .ok second → whole.tallies = first.tallies.plus second.tallies := by
  intro last
  refine ⟨?_,fun whole first second okWhole okFirst okSecond => ?_⟩
  · obtain ⟨r,rest,rfl⟩ := List.exists_cons_of_ne_nil nonempty
    have ended : endOf (r.seq,r.hash) rest = (last.seq,last.hash) := endOfLast (r.seq,r.hash) nonempty
    have named (continues : Continues r.edgeId (r.seq,r.hash) rest) : last.edgeId = r.edgeId := by
      rcases List.mem_cons.mp (List.getLast_mem nonempty) with same | later
      · exact congrArg Receipt.edgeId same
      · exact continuesEdge continues last later
    rw [verifyChain, verifyChain, List.cons_append, chainPasses, chainPasses, continuesAppend, ended, ← List.cons_append,
      List.forall_mem_append]
    cases b with
    | nil =>
      have none : (∃ second, verifyChainAnchored crypto floats [] pubkey (some last.hash) = .ok second) ↔ crypto.isKey pubkey = true := by
        rw [verifyChainAnchored]
        cases crypto.isKey pubkey <;> simp [Except.map, pure, Except.pure]
      rw [none]
      constructor
      · rintro ⟨key,starts,⟨intact,_⟩,continues,_⟩
        exact ⟨⟨key,starts,intact,continues⟩,key,fun r mem => by simp at mem⟩
      · rintro ⟨⟨key,starts,intact,continues⟩,_⟩
        exact ⟨key,starts,⟨intact,by simp⟩,continues,trivial⟩
    | cons r' rest' =>
      rw [chainPasses, Continues]
      constructor
      · rintro ⟨key,starts,⟨intact,intact'⟩,continues,number,hash,edge,continues'⟩
        have same := named continues
        refine ⟨⟨key,starts,intact,continues⟩,⟨key,fun required asked => ?_,intact',edge ▸ continues'⟩,fun r'' head => ?_⟩
        · cases asked
          simp [hash, eqIgnoreAsciiCase]
        · cases head
          exact ⟨number,edge.trans same.symm,hash⟩
      · rintro ⟨⟨key,starts,intact,continues⟩,⟨_,_,intact',continues'⟩,joins⟩
        obtain ⟨number,edge,hash⟩ := joins r' rfl
        have same := edge.trans (named continues)
        exact ⟨key,starts,⟨intact,intact'⟩,continues,number,hash,same,same ▸ continues'⟩
  · rw [chainTallies okWhole, chainTallies okFirst, chainTallies okSecond, talliesAppend]

/- Stand-in primitives whose hashes have letters in their digits. -/
def letterSigning : SigningCrypto := { plainSigning with sha256 := fun _ => .replicate 32 0xab }

def letterEdge : ReceiptSigner := ⟨.replicate 32 7,"edge"⟩

def opened : Receipt :=
  letterEdge.sign letterSigning pointZero 1 genesisPrevHash opening.ts opening.kind opening.routingTokenHash opening.payload

/- The next receipt of the edge, with the hash before it spelled as given. -/
def closed (prevHash : String) : Receipt :=
  letterEdge.sign letterSigning pointZero 2 prevHash closing.ts closing.kind closing.routingTokenHash closing.payload

def Verifies (result : Except VerifyError VerifiedSummary) : Prop := ∃ summary, result = .ok summary

instance (result : Except VerifyError VerifiedSummary) : Decidable (Verifies result) :=
  match result with
  | .ok summary => isTrue ⟨summary,rfl⟩
  | .error _ => isFalse fun ⟨_,same⟩ => nomatch same

theorem sessionSplits :
    ((∃ whole, verifyChain letterSigning pointZero ([opened] ++ [closed opened.hash]) (letterEdge.pubkeyBytes letterSigning) = .ok whole) ↔
      (∃ first, verifyChain letterSigning pointZero [opened] (letterEdge.pubkeyBytes letterSigning) = .ok first) ∧
      (∃ second, verifyChainAnchored letterSigning pointZero [closed opened.hash] (letterEdge.pubkeyBytes letterSigning)
        (some opened.hash) = .ok second) ∧ Joins opened [closed opened.hash]) :=
  (chainSplits letterSigning pointZero (letterEdge.pubkeyBytes letterSigning) [opened] [closed opened.hash] (by simp)).1

/- The second receipt spells the hash of the first in capitals: its own segment verifies, but not
the whole. -/
theorem capitalsSplit : ¬ ∀ (a b : List Receipt) (nonempty : a ≠ []),
    Verifies (verifyChain letterSigning pointZero (a ++ b) (letterEdge.pubkeyBytes letterSigning)) ↔
      Verifies (verifyChain letterSigning pointZero a (letterEdge.pubkeyBytes letterSigning)) ∧
      Verifies (verifyChainAnchored letterSigning pointZero b (letterEdge.pubkeyBytes letterSigning) (some (a.getLast nonempty).hash)) ∧
      ∀ r, b.head? = some r → r.seq = (a.getLast nonempty).seq + 1 ∧ r.edgeId = (a.getLast nonempty).edgeId := by
  intro splits
  let capitals := closed (String.ofList (opened.hash.toList.map Char.toUpper))
  have first : Verifies (verifyChain letterSigning pointZero [opened] (letterEdge.pubkeyBytes letterSigning)) := by decide +kernel
  have second : Verifies (verifyChainAnchored letterSigning pointZero [capitals] (letterEdge.pubkeyBytes letterSigning)
      (some opened.hash)) := by decide +kernel
  have whole : ¬ Verifies (verifyChain letterSigning pointZero ([opened] ++ [capitals]) (letterEdge.pubkeyBytes letterSigning)) := by
    decide +kernel
  refine whole ((splits [opened] [capitals] (by simp)).mpr ⟨first,second,fun r head => ?_⟩)
  cases head
  exact ⟨by decide,rfl⟩

end CadsTunnel.Receipts
