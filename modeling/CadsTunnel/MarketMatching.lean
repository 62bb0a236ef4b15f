import CadsTunnel.Machine
import CadsTunnel.OrderedMap
import CadsTunnel.ChannelObjects

/-! The capacity market: clearing a bid against an offer, and the running tally of
the units committed against each offer. The match reference hashes eight fields
of the two signed objects. It determines these fields, but two deals of the same
parties whose offers and bids were issued in the same second may differ in every
other term and still share it. -/
namespace CadsTunnel.Market
open Words Delimited OrderedMap ChannelObjects

structure CapacityMatch where
  provider : Key
  consumer : Key
  kind : CapacityKind
  model : String
  units : UInt64
  totalPrice : UInt64
  matchRef : Hash
  deriving DecidableEq, Repr

def matchPreimage (provider consumer : Key) (kind : CapacityKind) (model : String) (units totalPrice : UInt64)
    (bidIssuedAt offerIssuedAt : UnixSeconds) : Bytes :=
  asBytes "ct-capacity-match-v1" ++ provider.toList ++ consumer.toList ++ [kind.tag] ++
    u32LE (.ofNat (asBytes model).length) ++ asBytes model ++ u64LE units ++ u64LE totalPrice ++
    u64LE bidIssuedAt ++ u64LE offerIssuedAt

def computeMatchRef (crypto : Crypto) (provider consumer : Key) (kind : CapacityKind) (model : String)
    (units totalPrice : UInt64) (bidIssuedAt offerIssuedAt : UnixSeconds) : Hash :=
  crypto.sha256 (matchPreimage provider consumer kind model units totalPrice bidIssuedAt offerIssuedAt)

def matchOffer (crypto : Crypto) (offer : CapacityOffer) (bid : CapacityBid) (now : UnixSeconds) : Option CapacityMatch :=
  if !offer.isValid crypto now || !bid.isValid crypto now then none
  else if offer.kind ≠ bid.kind then none
  else if !offer.models.any (fun m => m = bid.model) then none
  -- A bid without a service is not constrained by the offer's catalog.
  else if bid.service.any (fun service => !offer.services.contains service) then none
  else if offer.unitsAvailable < bid.units then none
  else if bid.totalPrice < offer.minPrice then none
  else some {
    provider := offer.holderPubkey
    consumer := bid.bidder
    kind := bid.kind
    model := bid.model
    units := bid.units
    totalPrice := bid.totalPrice
    matchRef := computeMatchRef crypto offer.holderPubkey bid.bidder bid.kind bid.model bid.units bid.totalPrice
      bid.issuedAt offer.issuedAt }

/- Everything an offer and a bid say, without their signatures. -/
@[ext] structure Terms where
  provider : Key
  consumer : Key
  kinds : CapacityKind × CapacityKind
  models : List String
  model : String
  services : List ServiceType
  service : Option ServiceType
  unitsAvailable : UInt64
  units : UInt64
  minPrice : UInt64
  totalPrice : UInt64
  currencyId : String
  termsAck : Hash
  offerValidity : UnixSeconds × UnixSeconds
  bidValidity : UnixSeconds × UnixSeconds
  deriving DecidableEq, Repr

def terms (offer : CapacityOffer) (bid : CapacityBid) : Terms where
  provider := offer.holderPubkey
  consumer := bid.bidder
  kinds := (offer.kind,bid.kind)
  models := offer.models
  model := bid.model
  services := offer.services
  service := bid.service
  unitsAvailable := offer.unitsAvailable
  units := bid.units
  minPrice := offer.minPrice
  totalPrice := bid.totalPrice
  currencyId := offer.currencyId
  termsAck := bid.termsAck
  offerValidity := (offer.issuedAt,offer.expiresAt)
  bidValidity := (bid.issuedAt,bid.expiresAt)

/- The terms that the match reference covers, and those it leaves out. -/
structure Hashed (t u : Terms) : Prop where
  provider : t.provider = u.provider
  consumer : t.consumer = u.consumer
  kind : t.kinds.2 = u.kinds.2
  model : t.model = u.model
  units : t.units = u.units
  totalPrice : t.totalPrice = u.totalPrice
  bidIssuedAt : t.bidValidity.1 = u.bidValidity.1
  offerIssuedAt : t.offerValidity.1 = u.offerValidity.1

structure Unhashed (t u : Terms) : Prop where
  models : t.models = u.models
  services : t.services = u.services
  service : t.service = u.service
  unitsAvailable : t.unitsAvailable = u.unitsAvailable
  minPrice : t.minPrice = u.minPrice
  currencyId : t.currencyId = u.currencyId
  termsAck : t.termsAck = u.termsAck
  offerExpiresAt : t.offerValidity.2 = u.offerValidity.2
  bidExpiresAt : t.bidValidity.2 = u.bidValidity.2

def dealPreimage (offer : CapacityOffer) (bid : CapacityBid) : Bytes :=
  matchPreimage offer.holderPubkey bid.bidder bid.kind bid.model bid.units bid.totalPrice bid.issuedAt offer.issuedAt

theorem matchCases {crypto : Crypto} {offer : CapacityOffer} {bid : CapacityBid} {now : UnixSeconds} {m : CapacityMatch}
    (cleared : matchOffer crypto offer bid now = some m) :
    offer.kind = bid.kind ∧ m.matchRef = crypto.sha256 (dealPreimage offer bid) := by
  unfold matchOffer at cleared
  split at cleared <;> try contradiction
  split at cleared <;> try contradiction
  rename_i kinds
  split at cleared <;> try contradiction
  split at cleared <;> try contradiction
  split at cleared <;> try contradiction
  split at cleared <;> try contradiction
  cases Option.some.inj cleared
  exact ⟨not_not.mp kinds,rfl⟩

theorem tagInjective : Function.Injective CapacityKind.tag := by
  intro a b
  cases a <;> cases b <;> decide

/- The model is the only field without a fixed width, so equal preimages have models
of equal length even where the length prefix has wrapped. -/
theorem matchPreimageInjective {provider provider' consumer consumer' : Key} {kind kind' : CapacityKind}
    {model model' : String} {units units' totalPrice totalPrice' : UInt64} {bidAt bidAt' offerAt offerAt' : UnixSeconds}
    (same : matchPreimage provider consumer kind model units totalPrice bidAt offerAt =
      matchPreimage provider' consumer' kind' model' units' totalPrice' bidAt' offerAt') :
    provider = provider' ∧ consumer = consumer' ∧ kind = kind' ∧ model = model' ∧ units = units' ∧
      totalPrice = totalPrice' ∧ bidAt = bidAt' ∧ offerAt = offerAt' := by
  have lengths := congrArg List.length same
  simp only [matchPreimage, List.append_assoc] at same
  obtain ⟨providers,rest⟩ := arrayDelimits 32 trivial trivial (List.append_cancel_left same)
  obtain ⟨consumers,rest⟩ := arrayDelimits 32 trivial trivial rest
  obtain ⟨kinds,rest⟩ := byteDelimits tagInjective trivial trivial rest
  obtain ⟨_,rest⟩ := List.append_inj rest (by simp [u32LE, leLength])
  have models : (asBytes model).length = (asBytes model').length := by
    simpa [matchPreimage, u32LE, u64LE, leLength] using lengths
  obtain ⟨names,rest⟩ := List.append_inj rest models
  obtain ⟨amounts,rest⟩ := u64Delimits trivial trivial rest
  obtain ⟨prices,rest⟩ := u64Delimits trivial trivial rest
  obtain ⟨bidTimes,offerTimes⟩ := u64Delimits trivial trivial rest
  exact ⟨providers,consumers,kinds,asBytesInjective names,amounts,prices,bidTimes,
    u64Delimits.injective trivial trivial offerTimes⟩

theorem hashedIff {offer offer' : CapacityOffer} {bid bid' : CapacityBid} :
    dealPreimage offer bid = dealPreimage offer' bid' ↔ Hashed (terms offer bid) (terms offer' bid') := by
  constructor
  · intro same
    obtain ⟨provider,consumer,kind,model,units,totalPrice,bidAt,offerAt⟩ := matchPreimageInjective same
    exact ⟨provider,consumer,kind,model,units,totalPrice,bidAt,offerAt⟩
  · intro hashed
    have provider : offer.holderPubkey = offer'.holderPubkey := hashed.provider
    have consumer : bid.bidder = bid'.bidder := hashed.consumer
    have kind : bid.kind = bid'.kind := hashed.kind
    have model : bid.model = bid'.model := hashed.model
    have units : bid.units = bid'.units := hashed.units
    have totalPrice : bid.totalPrice = bid'.totalPrice := hashed.totalPrice
    have bidAt : bid.issuedAt = bid'.issuedAt := hashed.bidIssuedAt
    have offerAt : offer.issuedAt = offer'.issuedAt := hashed.offerIssuedAt
    rw [dealPreimage, dealPreimage, provider, consumer, kind, model, units, totalPrice, bidAt, offerAt]

theorem termsSplit {t u : Terms} (offerKind : t.kinds.1 = t.kinds.2) (offerKind' : u.kinds.1 = u.kinds.2) :
    t = u ↔ Hashed t u ∧ Unhashed t u := by
  constructor
  · intro same
    subst same
    exact ⟨⟨rfl,rfl,rfl,rfl,rfl,rfl,rfl,rfl⟩,⟨rfl,rfl,rfl,rfl,rfl,rfl,rfl,rfl,rfl⟩⟩
  · intro both
    obtain ⟨hashed,unhashed⟩ := both
    have kinds : t.kinds = u.kinds := Prod.ext (offerKind.trans (hashed.kind.trans offerKind'.symm)) hashed.kind
    exact Terms.ext hashed.provider hashed.consumer kinds unhashed.models hashed.model unhashed.services
      unhashed.service unhashed.unitsAvailable hashed.units unhashed.minPrice hashed.totalPrice unhashed.currencyId
      unhashed.termsAck (Prod.ext hashed.offerIssuedAt unhashed.offerExpiresAt)
      (Prod.ext hashed.bidIssuedAt unhashed.bidExpiresAt)

/- The reference identifies the deal exactly when the two deals differ in a hashed
term or in none at all. -/
theorem matchRefIdentifies {crypto : Crypto} {offer offer' : CapacityOffer} {bid bid' : CapacityBid}
    {now now' : UnixSeconds} {m m' : CapacityMatch} (cleared : matchOffer crypto offer bid now = some m)
    (cleared' : matchOffer crypto offer' bid' now' = some m')
    (collisionFree : Set.InjOn crypto.sha256 {dealPreimage offer bid,dealPreimage offer' bid'}) :
    (m.matchRef = m'.matchRef → terms offer bid = terms offer' bid') ↔
      ¬ Hashed (terms offer bid) (terms offer' bid') ∨ Unhashed (terms offer bid) (terms offer' bid') := by
  obtain ⟨kinds,ref⟩ := matchCases cleared
  obtain ⟨kinds',ref'⟩ := matchCases cleared'
  have sameRef : m.matchRef = m'.matchRef ↔ Hashed (terms offer bid) (terms offer' bid') := by
    rw [ref, ref', ← hashedIff]
    exact ⟨fun same => collisionFree (by simp) (by simp) same,congrArg crypto.sha256⟩
  rw [sameRef, termsSplit kinds kinds']
  constructor
  · intro identifies
    by_cases hashed : Hashed (terms offer bid) (terms offer' bid')
    · exact .inr (identifies hashed).2
    · exact .inl hashed
  · intro condition hashed
    rcases condition with differs | unhashed
    · exact absurd hashed differs
    · exact ⟨hashed,unhashed⟩

/- One provider and one consumer. The stand-in hash keeps the four numbers at the end of the preimage. -/
def tailCrypto : Crypto := ⟨fun _ _ _ => true,fun raw => .ofFn (fun i => raw.getD (raw.length - 32 + i.val) 0)⟩
def spare : CapacityOffer :=
  ⟨.replicate 32 1,.localHardware,["model"],100,5,"eur",1000,2000,[.codeGeneration,.securityReview],.replicate 64 0⟩
def order : CapacityBid :=
  ⟨.replicate 32 2,.localHardware,"model",10,25,1001,2000,.replicate 32 0,some .codeGeneration,.replicate 64 0⟩

theorem laterOrderHasOwnRef : ∃ m m', matchOffer tailCrypto spare order 1500 = some m ∧
    matchOffer tailCrypto spare { order with issuedAt := 1002 } 1500 = some m' ∧
    (m.matchRef = m'.matchRef → terms spare order = terms spare { order with issuedAt := 1002 }) := by
  obtain ⟨m,cleared⟩ := Option.isSome_iff_exists.mp
    (show (matchOffer tailCrypto spare order 1500).isSome = true by decide +kernel)
  obtain ⟨m',cleared'⟩ := Option.isSome_iff_exists.mp
    (show (matchOffer tailCrypto spare { order with issuedAt := 1002 } 1500).isSome = true by decide +kernel)
  have distinct : tailCrypto.sha256 (dealPreimage spare order) ≠
      tailCrypto.sha256 (dealPreimage spare { order with issuedAt := 1002 }) := by decide +kernel
  have collisionFree : Set.InjOn tailCrypto.sha256
      {dealPreimage spare order,dealPreimage spare { order with issuedAt := 1002 }} := by
    intro a memA b memB same
    rcases memA with rfl | rfl <;> rcases memB with rfl | rfl
    · rfl
    · exact absurd same distinct
    · exact absurd same.symm distinct
    · rfl
  have differs : ¬ Hashed (terms spare order) (terms spare { order with issuedAt := 1002 }) := by
    intro hashed
    exact absurd hashed.bidIssuedAt (by decide)
  exact ⟨m,m',cleared,cleared',(matchRefIdentifies cleared cleared' collisionFree).mpr (.inl differs)⟩

/- In the same second the provider also sells in another currency and the consumer
also orders another service: the two deals share their reference. -/
theorem secondDealSharesRef :
    let other : CapacityOffer := { spare with currencyId := "usd" }
    let second : CapacityBid := { order with service := some .securityReview }
    Set.InjOn tailCrypto.sha256 {dealPreimage spare order,dealPreimage other second} ∧
    ∃ m m', matchOffer tailCrypto spare order 1500 = some m ∧ matchOffer tailCrypto other second 1500 = some m' ∧
      m.matchRef = m'.matchRef ∧ terms spare order ≠ terms other second := by
  intro other second
  have collisionFree : Set.InjOn tailCrypto.sha256 {dealPreimage spare order,dealPreimage other second} := by
    intro a memA b memB _
    rcases memA with rfl | rfl <;> rcases memB with rfl | rfl <;> rfl
  obtain ⟨m,cleared⟩ := Option.isSome_iff_exists.mp
    (show (matchOffer tailCrypto spare order 1500).isSome = true by decide +kernel)
  obtain ⟨m',cleared'⟩ := Option.isSome_iff_exists.mp
    (show (matchOffer tailCrypto other second 1500).isSome = true by decide +kernel)
  refine ⟨collisionFree,m,m',cleared,cleared',?_,by decide⟩
  rw [(matchCases cleared).2, (matchCases cleared').2]
  rfl

end CadsTunnel.Market
