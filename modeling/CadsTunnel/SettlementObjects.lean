import CadsTunnel.ChannelObjects

/-! The signed and hashed objects of the settlement ledger. `sender` and
`recipient` stand for the source's `from` and `to`, which are reserved words
here. The block hash is not a `Preimage`: it is fed to SHA-256 field by field,
without a length in front of its domain. -/
namespace CadsTunnel.Settlement
open Words

abbrev Account := Key
abbrev Amount := UInt64

@[ext] structure Transfer where
  sender : Account
  recipient : Account
  amount : Amount
  nonce : UInt64
  signature : Signature
  deriving DecidableEq, Repr

namespace Transfer

def signingBytes (sender recipient : Account) (amount : Amount) (nonce : UInt64) : Bytes :=
  Preimage.new (asBytes "ct-settlement-transfer-v1")
    |>.fixed sender.toList |>.fixed recipient.toList |>.u64 amount |>.u64 nonce |>.finish

def verify (crypto : Crypto) (t : Transfer) : Bool :=
  crypto.verify t.sender (signingBytes t.sender t.recipient t.amount t.nonce) t.signature

def encode (t : Transfer) : Bytes :=
  t.sender.toList ++ t.recipient.toList ++ u64LE t.amount ++ u64LE t.nonce ++ t.signature.toList

end Transfer

@[ext] structure Block where
  height : UInt64
  prevHash : Hash
  transfers : List Transfer
  hash : Hash
  deriving DecidableEq, Repr

def blockPreimage (height : UInt64) (prevHash : Hash) (transfers : List Transfer) : Bytes :=
  asBytes "ct-settlement-block-v1" ++ u64LE height ++ prevHash.toList ++ u32LE (.ofNat transfers.length) ++
    transfers.flatMap (fun t =>
      t.sender.toList ++ t.recipient.toList ++ u64LE t.amount ++ u64LE t.nonce ++ t.signature.toList)

def blockHash (crypto : Crypto) (height : UInt64) (prevHash : Hash) (transfers : List Transfer) : Hash :=
  crypto.sha256 (blockPreimage height prevHash transfers)

structure Hold where
  sender : Account
  recipient : Account
  amount : Amount
  matchRef : Hash
  nonce : UInt64
  expiresAt : UInt64
  signature : Signature
  deriving DecidableEq, Repr

namespace Hold

def signingBytes (sender recipient : Account) (amount : Amount) (matchRef : Hash) (nonce expiresAt : UInt64) : Bytes :=
  Preimage.new (asBytes "ct-settlement-hold-v1")
    |>.fixed sender.toList |>.fixed recipient.toList |>.u64 amount |>.fixed matchRef.toList
    |>.u64 nonce |>.u64 expiresAt |>.finish

def verify (crypto : Crypto) (h : Hold) : Bool :=
  crypto.verify h.sender (signingBytes h.sender h.recipient h.amount h.matchRef h.nonce h.expiresAt) h.signature

end Hold

structure Vote where
  term : UInt64
  candidate : Account
  voter : Account
  signature : Signature
  deriving DecidableEq, Repr

namespace Vote

def signingBytes (term : UInt64) (candidate voter : Account) : Bytes :=
  Preimage.new (asBytes "ct-settlement-vote-v1")
    |>.u64 term |>.fixed candidate.toList |>.fixed voter.toList |>.finish

def verify (crypto : Crypto) (v : Vote) : Bool :=
  crypto.verify v.voter (signingBytes v.term v.candidate v.voter) v.signature

end Vote

structure LeaderAttestation where
  term : UInt64
  leader : Account
  blockHash : Hash
  signature : Signature
  deriving DecidableEq, Repr

namespace LeaderAttestation

def signingBytes (term : UInt64) (leader : Account) (blockHash : Hash) : Bytes :=
  Preimage.new (asBytes "ct-settlement-leader-block-v1")
    |>.u64 term |>.fixed leader.toList |>.fixed blockHash.toList |>.finish

def verify (crypto : Crypto) (a : LeaderAttestation) : Bool :=
  crypto.verify a.leader (signingBytes a.term a.leader a.blockHash) a.signature

end LeaderAttestation
end CadsTunnel.Settlement
