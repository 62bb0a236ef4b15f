import CadsTunnel.EdgeServe

/-! The proof of an agent key on the wire. The edge draws a challenge and reads the length of
a binding, the binding and a signature; a binding has one wire form, so what a stream has to
carry to be taken for a proof is known to the byte. -/
namespace CadsTunnel.Bindings
open Words Slices

def SignedAgentBinding.encode (s : SignedAgentBinding) : Bytes :=
  let tunnelId := asBytes s.binding.tunnelId
  s.signature.toList ++ u32LE (.ofNat tunnelId.length) ++ tunnelId ++ s.binding.tokenHash.toList ++ s.binding.agentPubkey.toList ++
    u64LE s.binding.issuedAt ++ u64LE s.binding.expiresAt

section Wire
variable {α β : Type}

theorem stateBind {x : StateT Bytes (Except AgentBindingError) α} {f : α → StateT Bytes (Except AgentBindingError) β} {cur rest : Bytes} {b : β} :
    (x >>= f) cur = .ok (b,rest) ↔ ∃ a mid, x cur = .ok (a,mid) ∧ f a mid = .ok (b,rest) := by
  have opened : (x >>= f) cur = (x cur >>= fun out => f out.1 out.2) := rfl
  rw [opened, Machine.bindOk]
  simp

theorem fieldRead {n : Nat} {cur rest : Bytes} {v : Vector UInt8 n} : field n cur = .ok (v,rest) ↔ cur = v.toList ++ rest := by
  rw [field]
  constructor
  · intro read
    split at read <;> try contradiction
    rename_i taken
    cases read
    rw [toArray] at taken
    split at taken <;> try contradiction
    cases taken
    simp
  · rintro rfl
    obtain ⟨w,same,bytes⟩ := toArraySome v.length_toList
    have front : (v.toList ++ rest).take n = v.toList := by rw [List.take_left' v.length_toList]
    rw [front, same, Vector.toList_inj.mp bytes, List.drop_left' v.length_toList]

theorem fieldThen {n : Nat} {f : Vector UInt8 n → StateT Bytes (Except AgentBindingError) β} {cur rest : Bytes} {b : β} :
    (field n >>= f) cur = .ok (b,rest) ↔ ∃ v mid, cur = v.toList ++ mid ∧ f v mid = .ok (b,rest) := by
  simp only [stateBind, fieldRead]

theorem fieldsExactly {cur rest : Bytes} {s : SignedAgentBinding} :
    decodeFields cur = .ok (s,rest) ↔ cur = s.encode ++ rest ∧ (asBytes s.binding.tunnelId).length ≤ maxTunnelIdLen := by
  rw [decodeFields, fieldThen]
  constructor
  · rintro ⟨signature,c1,first,read1⟩
    obtain ⟨lenBytes,c2,second,read2⟩ := fieldThen.mp read1
    dsimp only at read2
    split at read2
    · contradiction
    rename_i short
    obtain ⟨idBytes,c3,third,read3⟩ := fieldThen.mp read2
    cases named : fromUtf8 idBytes.toList with
    | none =>
      rw [named] at read3
      contradiction
    | some tunnelId =>
      rw [named] at read3
      obtain ⟨tokenHash,c4,fourth,read4⟩ := fieldThen.mp read3
      obtain ⟨agentPubkey,c5,fifth,read5⟩ := fieldThen.mp read4
      obtain ⟨issuedAt,c6,sixth,read6⟩ := fieldThen.mp read5
      obtain ⟨expiresAt,c7,last,read7⟩ := fieldThen.mp read6
      cases read7
      subst first second third fourth fifth sixth last
      have bytes := fromUtf8Some named
      have size : (asBytes tunnelId).length = fromLeBytes lenBytes := by rw [bytes, Vector.length_toList]
      have head : lenBytes.toList = u32LE (.ofNat (asBytes tunnelId).length) := by rw [u32LECount, size, leFromLeBytes]
      refine ⟨?_,by rw [size]; omega⟩
      rw [head, ← bytes]
      simp only [SignedAgentBinding.encode, u64LEFromLeBytes, List.append_assoc]
  · rintro ⟨rfl,short⟩
    let tunnelId := asBytes s.binding.tunnelId
    have fits : tunnelId.length < 256 ^ 4 := Nat.lt_of_le_of_lt short (by decide)
    have count : fromLeBytes (toLeBytes 4 tunnelId.length) = tunnelId.length := fromLeToLe fits
    refine ⟨s.signature,_,by simp only [SignedAgentBinding.encode, List.append_assoc]; rfl,?_⟩
    refine fieldThen.mpr ⟨toLeBytes 4 tunnelId.length,_,by rw [u32LECount, toLeBytesList],?_⟩
    dsimp only
    rw [count, if_neg (Nat.not_lt.mpr short)]
    obtain ⟨v,_,bytes⟩ := @toArraySome _ tunnelId rfl
    refine fieldThen.mpr ⟨v,_,by rw [bytes],?_⟩
    rw [bytes, fromUtf8Bytes]
    refine fieldThen.mpr ⟨s.binding.tokenHash,_,rfl,fieldThen.mpr ⟨s.binding.agentPubkey,_,rfl,?_⟩⟩
    refine fieldThen.mpr ⟨toLeBytes 8 s.binding.issuedAt.toNat,_,by rw [toLeBytesList]; rfl,?_⟩
    refine fieldThen.mpr ⟨toLeBytes 8 s.binding.expiresAt.toNat,_,by rw [toLeBytesList]; rfl,?_⟩
    rw [u64FromLeToLe, u64FromLeToLe]
    rfl

theorem encodeLength (s : SignedAgentBinding) : s.encode.length = 148 + (asBytes s.binding.tunnelId).length := by
  simp only [SignedAgentBinding.encode, u32LECount, u64LE, List.length_append, Vector.length_toList, leLength]
  omega

/- A binding is accepted in one form, and in that form whenever its name is short. -/
theorem decodeExactly {bytes : Bytes} {s : SignedAgentBinding} :
    decode bytes = .ok s ↔ bytes = s.encode ∧ (asBytes s.binding.tunnelId).length ≤ maxTunnelIdLen := by
  rw [decode]
  constructor
  · intro read
    split at read
    · contradiction
    split at read
    · contradiction
    · rename_i signed rest fields
      split at read <;> try contradiction
      rename_i ended
      cases read
      obtain ⟨whole,short⟩ := fieldsExactly.mp fields
      rw [List.isEmpty_iff.mp ended, List.append_nil] at whole
      exact ⟨whole,short⟩
  · rintro ⟨rfl,short⟩
    have fields : decodeFields s.encode = .ok (s,[]) := fieldsExactly.mpr ⟨(List.append_nil _).symm,short⟩
    have size := encodeLength s
    have small : ¬maxEncodedLen < s.encode.length := by
      rw [size, maxEncodedLen]
      rw [maxTunnelIdLen] at short
      omega
    rw [if_neg small, fields]
    rfl

end Wire
end CadsTunnel.Bindings

namespace CadsTunnel.Edge
open Words Program Slices
open Bindings (Primitives SignedAgentBinding)

section Exchange
variable {H : Type} [DecidableEq H] (crypto : Primitives) (me : H) (nonce : Vector UInt8 32)

/- A program that draws the nonce and reads from these bytes, and what it leaves of them. -/
def converse {α : Type} : Program (Call H) Call.Reply α → Bytes → α × Bytes
  | .done a, wire => (a,wire)
  | .call .fillBytes next, wire => converse (next nonce) wire
  | .call (.readExact _ n) next, wire => converse (next ((toArray n (wire.take n)).elim (.error .broken) .ok)) (wire.drop n)
  | .call c next, wire => converse (next (perform crypto me {} c {}).1) wire

variable {crypto me nonce} {α β Error : Type} {token : RoutingToken} {issuers : List Key} {now : UInt64} {wire rest : Bytes}

/- What is read is the front of what is there; where that is too short the handshake ends. -/
theorem readThen {field : Field} {n : Nat} {f : Vector UInt8 n → Fallible (Call H) Call.Reply AgentKeyReason β} {b : β} :
    converse crypto me nonce (query (Call.readExact field n) >>= fun r => handshake r >>= f).run wire = (.ok b,rest) ↔
      ∃ (v : Vector UInt8 n) (mid : Bytes), wire = v.toList ++ mid ∧ converse crypto me nonce (f v).run mid = (.ok b,rest) := by
  have opened : converse crypto me nonce (query (Call.readExact field n) >>= fun r => handshake r >>= f).run wire =
      converse crypto me nonce (handshake ((toArray n (wire.take n)).elim (.error .broken) .ok) >>= f).run (wire.drop n) := rfl
  rw [opened]
  constructor
  · intro ran
    cases taken : toArray n (wire.take n) with
    | none =>
      rw [taken] at ran
      cases ran
    | some v =>
      rw [taken] at ran
      rw [toArray] at taken
      split at taken <;> try contradiction
      cases taken
      exact ⟨_,wire.drop n,by simp,ran⟩
  · rintro ⟨v,mid,rfl,ran⟩
    obtain ⟨w,same,bytes⟩ := toArraySome v.length_toList
    have front : (v.toList ++ mid).take n = v.toList := by rw [List.take_left' v.length_toList]
    rw [front, same, Vector.toList_inj.mp bytes, List.drop_left' v.length_toList]
    exact ran

theorem beRead {n : Nat} (v : Vector UInt8 n) : be n (readBE v.toList) = v.toList := by
  have read := leRead v.toList.reverse
  rw [List.length_reverse, v.length_toList] at read
  rw [be, readBE, read, List.reverse_reverse]

/- The end of the handshake, once everything is read. -/
def judged (crypto : Primitives) (token : RoutingToken) (issuers : List Key) (now : UInt64) (nonce : Vector UInt8 32) (bytes : Bytes)
    (signature : Bindings.Signature) : Fallible (Call H) Call.Reply AgentKeyReason ProvenKey :=
  match Bindings.decode bytes with
  | .error e => throw (mapBindingError e)
  | .ok signed =>
    match Bindings.verifyRegistration crypto issuers signed token.toList nonce signature now with
    | .error e => throw (mapBindingError e)
    | .ok () => pure ⟨signed.binding.agentPubkey,signed.binding.issuedAt⟩

theorem judgedExactly {signature : Bindings.Signature} {bytes : Bytes} {proven : ProvenKey} :
    converse crypto me nonce (judged crypto token issuers now nonce bytes signature).run wire = (.ok proven,rest) ↔
      wire = rest ∧ ∃ signed : SignedAgentBinding, bytes = signed.encode ∧ (asBytes signed.binding.tunnelId).length ≤ Bindings.maxTunnelIdLen ∧
        Bindings.verifyRegistration crypto issuers signed token.toList nonce signature now = .ok () ∧
        proven = ⟨signed.binding.agentPubkey,signed.binding.issuedAt⟩ := by
  unfold judged
  constructor
  · intro ran
    split at ran
    · cases ran
    rename_i signed decoded
    split at ran
    · cases ran
    rename_i verified
    cases ran
    obtain ⟨form,short⟩ := Bindings.decodeExactly.mp decoded
    exact ⟨rfl,signed,form,short,verified,rfl⟩
  · rintro ⟨rfl,signed,form,short,verified,rfl⟩
    rw [Bindings.decodeExactly.mpr ⟨form,short⟩]
    dsimp only
    rw [verified]
    rfl

/- A stream is taken for a proof exactly if it carries a binding and a signature that are verified for its token and the nonce. -/
theorem proofExactly (crypto : Primitives) (me : H) (nonce : Vector UInt8 32) (token : RoutingToken) (issuers : List Key) (now : UInt64)
    (wire rest : Bytes) (proven : ProvenKey) :
    converse crypto me nonce (proveAgentKey crypto token issuers now).run wire = (.ok proven,rest) ↔
      ∃ (signed : SignedAgentBinding) (signature : Bindings.Signature),
        wire = be 2 signed.encode.length ++ signed.encode ++ signature.toList ++ rest ∧
        (asBytes signed.binding.tunnelId).length ≤ Bindings.maxTunnelIdLen ∧
        Bindings.verifyRegistration crypto issuers signed token.toList nonce signature now = .ok () ∧
        proven = ⟨signed.binding.agentPubkey,signed.binding.issuedAt⟩ := by
  have opened : converse crypto me nonce (proveAgentKey crypto token issuers now).run wire =
      converse crypto me nonce (query (Call.readExact .lenBytes 2) >>= fun r => handshake r >>= fun lenBytes =>
        if maxBindingLen < readBE lenBytes.toList then throw .oversize
        else query (Call.readExact .bindingBytes (readBE lenBytes.toList)) >>= fun r => handshake r >>= fun bindingBytes =>
          query (Call.readExact .signature 64) >>= fun r => handshake r >>= fun signature =>
            judged crypto token issuers now nonce bindingBytes.toList signature :
              Fallible (Call H) Call.Reply AgentKeyReason ProvenKey).run wire := rfl
  rw [opened, readThen]
  constructor
  · rintro ⟨lenBytes,m1,first,ran⟩
    split at ran
    · cases ran
    obtain ⟨bytes,m2,second,ran2⟩ := readThen.mp ran
    obtain ⟨signature,m3,last,ran3⟩ := readThen.mp ran2
    obtain ⟨left,signed,form,short,verified,taken⟩ := judgedExactly.mp ran3
    subst first second last left
    refine ⟨signed,signature,?_,short,verified,taken⟩
    have size : signed.encode.length = readBE lenBytes.toList := by rw [← form, Vector.length_toList]
    rw [size, beRead, ← form, List.append_assoc, List.append_assoc]
  · rintro ⟨signed,signature,rfl,short,verified,rfl⟩
    have length := Bindings.encodeLength signed
    rw [Bindings.maxTunnelIdLen] at short
    obtain ⟨lenBytes,_,head⟩ := @toArraySome 2 (be 2 signed.encode.length) (by simp [be, leLength])
    have size : readBE lenBytes.toList = signed.encode.length := by rw [head, readBeBounded (by omega)]
    refine ⟨lenBytes,signed.encode ++ signature.toList ++ rest,by rw [head]; simp only [List.append_assoc],?_⟩
    rw [size, if_neg (by rw [maxBindingLen]; omega), readThen]
    obtain ⟨bytes,_,body⟩ := @toArraySome signed.encode.length signed.encode rfl
    refine ⟨bytes,signature.toList ++ rest,by rw [body, List.append_assoc],readThen.mpr ⟨signature,rest,rfl,?_⟩⟩
    exact judgedExactly.mpr ⟨rfl,signed,body,short,verified,rfl⟩

end Exchange
end CadsTunnel.Edge
