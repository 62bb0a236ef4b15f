import CadsTunnel.ChannelObjects
import CadsTunnel.HexText
import CadsTunnel.Machine
import CadsTunnel.OrderedMap

/-! The edge's lookup of revoked grants: a cache in front of the control plane, whose entry
for a revoked digest is not asked again, and a window in which the control plane counts as
one without the list. The window is looked at before the cache, so while it is open a
digest that is known to be revoked is let in. -/
namespace CadsTunnel.GrantRevocations
open OrderedMap
open Std (ExtTreeMap)

abbrev Digest := Vector UInt8 32

inductive RevocationLookupError where
  | unsupported
  | unreadable
  deriving DecidableEq, Repr

/- What the request comes back with: nothing, or a status and, if the body parses, its `revoked` list. -/
inductive Response where
  | transport
  | status (code : Nat) (revoked : Option (List String))

def Response.unsupported : Response → Bool
  | .status code _ => code = 404 || code = 405
  | .transport => false

/- Clock readings in nanoseconds. -/
def notRevokedTtl : Nat := 5 * 1000000000
def unsupportedTtl : Nat := 300 * 1000000000
def maxCached : Nat := 4096

structure CpRevocationSource where
  cache : BTreeMap (ChannelId × Digest) (Bool × Nat) := ∅
  unsupportedUntil : Option Nat := none

namespace CpRevocationSource

def cached (s : CpRevocationSource) (channel : ChannelId) (d : Digest) (now : Nat) : Option Bool := do
  let (revoked,at') ← s.cache[(channel,d)]?
  if revoked || now - at' < notRevokedTtl then some revoked else none

/- The bulk clear at the size limit. -/
def makeRoom (s : CpRevocationSource) (now : Nat) : CpRevocationSource :=
  if s.cache.size < maxCached then s
  else
    let kept := s.cache.filter (fun _ entry => entry.1 || now - entry.2 < notRevokedTtl)
    { s with cache := if kept.size < maxCached then kept else ∅ }

/- Asked at one time, answered at a later one. -/
def ask (s : CpRevocationSource) (channel : ChannelId) (digests : List Digest) (response : Response) (asked answered : Nat) :
    Except RevocationLookupError (List Digest) × CpRevocationSource :=
  if s.unsupportedUntil.any (fun t => asked < t) then (.error .unsupported,s)
  else
    let revoked := digests.filter (fun d => s.cached channel d asked = some true)
    let unknown := digests.filter (fun d => s.cached channel d asked = none)
    if unknown.isEmpty then (.ok revoked,s)
    else
      match response with
      | .transport => (.error .unreadable,s)
      | .status code body =>
        if code = 404 || code = 405 then (.error .unsupported,{ s with unsupportedUntil := some (answered + unsupportedTtl) })
        else if code < 200 || 300 ≤ code then (.error .unreadable,s)
        else
          match body with
          | none => (.error .unreadable,s)
          | some listed =>
            let got := listed.filterMap Hex.decode32
            let roomy := s.makeRoom answered
            (.ok (revoked ++ got.filter unknown.contains),
              { roomy with cache := insertAll (unknown.map (fun d => (channel,d))) (fun k => (got.contains k.2,answered)) roomy.cache })

end CpRevocationSource

inductive AdmissionVerdict where
  | allowed
  | revoked
  | unreadable
  deriving DecidableEq, Repr

def admissionVerdict (src : Option CpRevocationSource) (channel : ChannelId) (digest : Digest) (response : Response)
    (asked answered : Nat) : AdmissionVerdict × Option CpRevocationSource :=
  match src with
  | none => (.allowed,none)
  | some src =>
    match src.ask channel [digest] response asked answered with
    | (.ok v,src) => (if v.contains digest then .revoked else .allowed,some src)
    | (.error .unsupported,src) => (.allowed,some src)
    | (.error .unreadable,src) => (.unreadable,some src)

def revokedForSweep (src : Option CpRevocationSource) (channel : ChannelId) (digests : List Digest) (response : Response)
    (asked answered : Nat) : List Digest × Option CpRevocationSource :=
  match src with
  | none => ([],none)
  | some src =>
    match src.ask channel digests response asked answered with
    | (.ok v,src) => (v,some src)
    | (.error _,src) => ([],some src)

/- What the control plane answers in a lookup: the digests it is asked about, and its list. -/
def CpRevocationSource.heard (s : CpRevocationSource) (channel : ChannelId) (digests : List Digest) (response : Response)
    (asked : Nat) : List Digest × List Digest :=
  if s.unsupportedUntil.any (fun t => asked < t) then ([],[])
  else
    match response with
    | .status code (some listed) =>
      if code < 200 || 300 ≤ code then ([],[])
      else (digests.filter (fun d => s.cached channel d asked = none),listed.filterMap Hex.decode32)
    | _ => ([],[])

inductive Op where
  | admission (channel : ChannelId) (digest : Digest) (response : Response) (asked answered : Nat)
  | sweep (channel : ChannelId) (digests : List Digest) (response : Response) (asked answered : Nat)

/- The installed source, and the last answer of the control plane about each digest. -/
structure Watch where
  source : CpRevocationSource := {}
  told : BTreeMap (ChannelId × Digest) Bool := ∅

def Watch.hear (w : Watch) (channel : ChannelId) (answer : List Digest × List Digest) : BTreeMap (ChannelId × Digest) Bool :=
  insertAll (answer.1.map (fun d => (channel,d))) (fun k => answer.2.contains k.2) w.told

def step (w : Watch) : Op → Unit × Watch
  | .admission channel digest response asked answered =>
    let (_,after) := admissionVerdict (some w.source) channel digest response asked answered
    ((),{ source := after.getD w.source, told := w.hear channel (w.source.heard channel [digest] response asked) })
  | .sweep channel digests response asked answered =>
    let (_,after) := revokedForSweep (some w.source) channel digests response asked answered
    ((),{ source := after.getD w.source, told := w.hear channel (w.source.heard channel digests response asked) })

def run (ops : List Op) : Watch := Machine.run step {} ops

namespace CpRevocationSource
variable {s : CpRevocationSource} {channel : ChannelId} {digests : List Digest} {response : Response} {asked answered : Nat}

theorem roomFewer {k : ChannelId × Digest} {entry : Bool × Nat} (found : (s.makeRoom answered).cache[k]? = some entry) :
    s.cache[k]? = some entry := by
  rw [makeRoom] at found
  split at found
  · exact found
  · simp only at found
    split at found
    · rw [ExtTreeMap.getElem?_filter', Option.filter_eq_some_iff] at found
      exact found.1
    · simp at found

/- All that a lookup does: it answers from what it has, it fails, or it learns a list. -/
inductive Asked (s : CpRevocationSource) (channel : ChannelId) (digests : List Digest) (response : Response) (asked answered : Nat) :
    Except RevocationLookupError (List Digest) × CpRevocationSource → List Digest × List Digest → Prop where
  | closed (window : s.unsupportedUntil.any (fun t => asked < t)) :
      Asked s channel digests response asked answered (.error .unsupported,s) ([],[])
  | known {got : List Digest} (window : s.unsupportedUntil.any (fun t => asked < t) = false)
      (all : digests.filter (fun d => s.cached channel d asked = none) = []) :
      Asked s channel digests response asked answered
        (.ok (digests.filter (fun d => s.cached channel d asked = some true)),s) ([],got)
  | unsupported (window : s.unsupportedUntil.any (fun t => asked < t) = false)
      (some' : digests.filter (fun d => s.cached channel d asked = none) ≠ []) (refused : response.unsupported) :
      Asked s channel digests response asked answered
        (.error .unsupported,{ s with unsupportedUntil := some (answered + unsupportedTtl) }) ([],[])
  | unreadable (window : s.unsupportedUntil.any (fun t => asked < t) = false)
      (some' : digests.filter (fun d => s.cached channel d asked = none) ≠ []) (supported : response.unsupported = false) :
      Asked s channel digests response asked answered (.error .unreadable,s) ([],[])
  | listed {unknown got : List Digest} (window : s.unsupportedUntil.any (fun t => asked < t) = false)
      (asks : unknown = digests.filter (fun d => s.cached channel d asked = none))
      (supported : response.unsupported = false) :
      Asked s channel digests response asked answered
        (.ok (digests.filter (fun d => s.cached channel d asked = some true) ++ got.filter unknown.contains),
          { s.makeRoom answered with
            cache := insertAll (unknown.map (fun d => (channel,d))) (fun k => (got.contains k.2,answered)) (s.makeRoom answered).cache })
        (unknown,got)

theorem askCases : Asked s channel digests response asked answered (s.ask channel digests response asked answered)
    (s.heard channel digests response asked) := by
  unfold ask heard
  cases window : s.unsupportedUntil.any (fun t => asked < t) with
  | true => exact .closed window
  | false =>
    simp only [Bool.false_eq_true, if_false]
    cases unknown : digests.filter (fun d => s.cached channel d asked = none) with
    | nil =>
      simp only [List.isEmpty_nil, if_true]
      match response with
      | .transport => exact .known window unknown
      | .status code none => exact .known window unknown
      | .status code (some listed) =>
        simp only
        split
        · exact .known window unknown
        · exact .known window unknown
    | cons d rest =>
      have some' : digests.filter (fun d => s.cached channel d asked = none) ≠ [] := by simp [unknown]
      simp only [List.isEmpty_cons, Bool.false_eq_true, if_false]
      match response with
      | .transport => exact .unreadable window some' rfl
      | .status code body =>
        simp only
        by_cases missing : code = 404 || code = 405
        · have refused : code < 200 || 300 ≤ code := by
            simp only [Bool.or_eq_true, decide_eq_true_eq] at missing ⊢
            omega
          rw [if_pos missing]
          cases body with
          | none => exact .unsupported window some' missing
          | some listed =>
            simp only [if_pos refused]
            exact .unsupported window some' missing
        · have supported : (Response.status code body).unsupported = false := by simpa [Response.unsupported] using missing
          rw [if_neg missing]
          by_cases refused : code < 200 || 300 ≤ code
          · rw [if_pos refused]
            cases body with
            | none => exact .unreadable window some' supported
            | some listed =>
              simp only [if_pos refused]
              exact .unreadable window some' supported
          · rw [if_neg refused]
            cases body with
            | none => exact .unreadable window some' supported
            | some listed =>
              simp only [if_neg refused]
              exact .listed window unknown.symm supported

/- An entry of the cache repeats the last answer about its digest. -/
def Agrees (s : CpRevocationSource) (told : BTreeMap (ChannelId × Digest) Bool) : Prop :=
  ∀ (k : ChannelId × Digest) entry, s.cache[k]? = some entry → told[k]? = some entry.1

theorem agreesAsk {told : BTreeMap (ChannelId × Digest) Bool} (agrees : s.Agrees told) :
    (s.ask channel digests response asked answered).2.Agrees
      (insertAll ((s.heard channel digests response asked).1.map (fun d => (channel,d)))
        (fun k => (s.heard channel digests response asked).2.contains k.2) told) := by
  have all : s.Asked channel digests response asked answered _ _ := askCases
  generalize s.ask channel digests response asked answered = out, s.heard channel digests response asked = answer at all ⊢
  cases all with
  | closed => exact agrees
  | known => exact agrees
  | unsupported => exact agrees
  | unreadable => exact agrees
  | listed =>
    intro k entry found
    simp only [lookupInsertAll] at found ⊢
    split at found
    case isTrue member =>
      rw [if_pos member]
      cases found
      rfl
    case isFalse other =>
      rw [if_neg other]
      exact agrees k entry (roomFewer found)

end CpRevocationSource

open CpRevocationSource in
theorem agreesStep {w : Watch} (op : Op) (agrees : w.source.Agrees w.told) : (step w op).2.source.Agrees (step w op).2.told := by
  have after : ∀ channel digests response asked answered,
      (w.source.ask channel digests response asked answered).2.Agrees (w.hear channel (w.source.heard channel digests response asked)) :=
    fun _ _ _ _ _ => agreesAsk agrees
  cases op with
  | admission channel digest response asked answered =>
    have same : (step w (.admission channel digest response asked answered)).2.source =
        (w.source.ask channel [digest] response asked answered).2 := by
      simp only [step, admissionVerdict]
      split <;> simp_all
    rw [same]
    exact after channel [digest] response asked answered
  | sweep channel digests response asked answered =>
    have same : (step w (.sweep channel digests response asked answered)).2.source =
        (w.source.ask channel digests response asked answered).2 := by
      simp only [step, revokedForSweep]
      split <;> simp_all
    rw [same]
    exact after channel digests response asked answered

/- Once a digest is revoked, an admission that does not hear otherwise refuses it, if and only if the window without a list is
closed and the answer to its own query, should it have to ask, does not open it. -/
theorem revokedStaysOut (ops : List Op) (channel : ChannelId) (digest : Digest) (response : Response) (asked answered : Nat) :
    let w := run ops
    w.told[(channel,digest)]? = some true →
    (step w (.admission channel digest response asked answered)).2.told[(channel,digest)]? = some true →
    ((admissionVerdict (some w.source) channel digest response asked answered).1 ≠ .allowed ↔
      w.source.unsupportedUntil.any (fun t => asked < t) = false ∧
      (w.source.cache[(channel,digest)]? = none → response.unsupported = false)) := by
  intro w revoked still
  have agrees : w.source.Agrees w.told :=
    Machine.runInvariant (fun w : Watch => w.source.Agrees w.told) (fun _ op agrees => agreesStep op agrees)
      (fun _ _ found => by simp at found) ops
  have sure : ∀ entry, w.source.cache[(channel,digest)]? = some entry → w.source.cached channel digest asked = some true := by
    intro entry found
    have told := agrees (channel,digest) entry found
    rw [revoked] at told
    obtain ⟨first,at'⟩ := entry
    obtain rfl : true = first := Option.some.inj told
    simp [CpRevocationSource.cached, found]
  have unasked : ∀ entry, w.source.cache[(channel,digest)]? = some entry →
      [digest].filter (fun d => w.source.cached channel d asked = none) = [] ∧
      [digest].filter (fun d => w.source.cached channel d asked = some true) = [digest] := by
    intro entry found
    simp [sure entry found]
  have asks : w.source.cache[(channel,digest)]? = none →
      [digest].filter (fun d => w.source.cached channel d asked = none) = [digest] := by
    intro absent
    simp [CpRevocationSource.cached, absent]
  have all : w.source.Asked channel [digest] response asked answered _ _ := CpRevocationSource.askCases
  have heard : (step w (.admission channel digest response asked answered)).2.told =
      w.hear channel (w.source.heard channel [digest] response asked) := rfl
  rw [heard] at still
  simp only [admissionVerdict]
  generalize w.source.ask channel [digest] response asked answered = out, w.source.heard channel [digest] response asked = answer
    at all still ⊢
  cases all with
  | closed window => simp [window]
  | known window all =>
    cases entry : w.source.cache[(channel,digest)]? with
    | none => exact absurd (all.symm.trans (asks entry)) (List.cons_ne_nil digest []).symm
    | some found =>
      rw [(unasked found entry).2]
      simp [window]
  | unsupported window some' refused =>
    cases entry : w.source.cache[(channel,digest)]? with
    | none => simp [refused]
    | some found => exact absurd (unasked found entry).1 some'
  | unreadable window some' supported => simp [window, supported]
  | @listed unknown got window known supported =>
    cases entry : w.source.cache[(channel,digest)]? with
    | none =>
      rw [asks entry] at known
      subst known
      have named : digest ∈ got := by simpa [Watch.hear, lookupInsertAll] using still
      simp [window, supported, named]
    | some found =>
      rw [(unasked found entry).2]
      simp [window, supported]

/- The control plane lists the digest 0101..01 at second one. -/
def sampleListed : List Op :=
  [.admission (.replicate 32 9) (.replicate 32 1)
    (.status 200 (some ["0101010101010101010101010101010101010101010101010101010101010101"])) 1000000000 1000000000]

/- An hour later the entry of the cache refuses the grant, with the control plane out of reach. -/
theorem revokedGrantRefused :
    let w := run sampleListed
    (admissionVerdict (some w.source) (.replicate 32 9) (.replicate 32 1) .transport 3600000000000 3600000000000).1 ≠ .allowed :=
  (revokedStaysOut sampleListed (.replicate 32 9) (.replicate 32 1) .transport 3600000000000 3600000000000
    (by decide +kernel) (by decide +kernel)).mpr ⟨by decide +kernel,fun _ => rfl⟩

/- A 404 to a query about another digest lets the revoked grant in, one second later. -/
theorem revokedGrantAdmitted : ¬∀ ops channel digest response asked answered,
    (run ops).told[((channel,digest) : ChannelId × Digest)]? = some true →
    (step (run ops) (.admission channel digest response asked answered)).2.told[(channel,digest)]? = some true →
    (admissionVerdict (some (run ops).source) channel digest response asked answered).1 ≠ .allowed := by
  intro final
  have refused := final (sampleListed ++ [.admission (.replicate 32 9) (.replicate 32 2) (.status 404 none) 2000000000 2000000000])
    (.replicate 32 9) (.replicate 32 1) .transport 3000000000 3000000000 (by decide +kernel) (by decide +kernel)
  exact absurd refused (by decide +kernel)

end CadsTunnel.GrantRevocations
