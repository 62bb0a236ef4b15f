import Mathlib

/-! Decoding a stream that arrives in pieces. A decoder looks at the front of what has been
kept: it waits, it refuses the stream, or it takes one item. If more input changes nothing
about what it has taken or refused, the cuts between the pieces do not matter. -/
namespace CadsTunnel.StreamDecoder

inductive Verdict (Out : Type) where
  | waits
  | refuses
  | takes (out : Out) (consumed : Nat)
  deriving DecidableEq

section Decoders
variable {α Out : Type} (next : List α → Verdict Out)

/- What has been taken so far, and the input that is kept; nothing is kept of a refused stream. -/
abbrev Progress (α Out : Type) := List Out × Option (List α)

def drain : Nat → List α → Progress α Out
  | 0, buf => ([],some buf)
  | fuel + 1, buf =>
    match next buf with
    | .waits => ([],some buf)
    | .refuses => ([],none)
    | .takes out consumed =>
      let (outs,kept) := drain fuel (buf.drop consumed)
      (out :: outs,kept)

def drained (buf : List α) : Progress α Out := drain next (buf.length + 1) buf

def feed (s : Progress α Out) (chunk : List α) : Progress α Out :=
  match s.2 with
  | none => s
  | some buf =>
    let (outs,kept) := drained next (buf ++ chunk)
    (s.1 ++ outs,kept)

/- What is decided stays decided, and every item takes something away. -/
structure Stable : Prop where
  idle : next [] = .waits
  consumes : ∀ {buf out n}, next buf = .takes out n → 0 < n ∧ n ≤ buf.length
  taken : ∀ {buf out n} more, next buf = .takes out n → next (buf ++ more) = .takes out n
  refused : ∀ {buf} more, next buf = .refuses → next (buf ++ more) = .refuses

variable {next} (stable : Stable next)
include stable

theorem drainEnough {buf : List α} {fuel : Nat} (enough : buf.length < fuel) : drain next fuel buf = drained next buf := by
  have both : ∀ fuel fuel' buf, buf.length < fuel → buf.length < fuel' → drain next fuel buf = drain next fuel' buf := by
    intro fuel
    induction fuel with
    | zero => exact fun _ _ bound => absurd bound (Nat.not_lt_zero _)
    | succ fuel ih =>
      intro fuel' buf bound bound'
      obtain ⟨fuel',rfl⟩ := Nat.exists_eq_add_one_of_ne_zero (Nat.ne_of_gt (Nat.zero_lt_of_lt bound'))
      rw [drain, drain]
      cases verdict : next buf with
      | waits => rfl
      | refuses => rfl
      | takes out n =>
        have sizes := stable.consumes verdict
        have shorter : (buf.drop n).length < buf.length := by rw [List.length_drop]; omega
        dsimp only
        rw [ih fuel' _ (by omega) (by omega)]
  exact both _ _ _ enough (Nat.lt_succ_self _)

/- One turn of the loop. -/
theorem drainedNext (buf : List α) : drained next buf =
    match next buf with
    | .waits => ([],some buf)
    | .refuses => ([],none)
    | .takes out n => (out :: (drained next (buf.drop n)).1,(drained next (buf.drop n)).2) := by
  rw [drained, drain]
  cases verdict : next buf with
  | waits => rfl
  | refuses => rfl
  | takes out n =>
    have sizes := stable.consumes verdict
    dsimp only
    rw [drainEnough stable (by rw [List.length_drop]; omega)]

/- The decoder waits with what is kept, and that is the end of what came. -/
theorem drainedKept {buf kept : List α} (keeps : (drained next buf).2 = some kept) : next kept = .waits ∧ kept <:+ buf := by
  induction size : buf.length using Nat.strong_induction_on generalizing buf with
  | _ size ih =>
    rw [drainedNext stable] at keeps
    cases verdict : next buf with
    | waits =>
      rw [verdict] at keeps
      cases keeps
      exact ⟨verdict,List.suffix_refl _⟩
    | refuses =>
      rw [verdict] at keeps
      contradiction
    | takes out n =>
      rw [verdict] at keeps
      have sizes := stable.consumes verdict
      obtain ⟨waits,tail⟩ := ih (buf.drop n).length (by rw [List.length_drop]; omega) keeps rfl
      exact ⟨waits,tail.trans (List.drop_suffix n buf)⟩

theorem drainedAppend (buf more : List α) : drained next (buf ++ more) = feed next (drained next buf) more := by
  induction size : buf.length using Nat.strong_induction_on generalizing buf with
  | _ size ih =>
    rw [drainedNext stable buf]
    cases verdict : next buf with
    | waits => rw [feed]; rfl
    | refuses => rw [drainedNext stable, stable.refused more verdict]; rfl
    | takes out n =>
      have sizes := stable.consumes verdict
      have rest := ih (buf.drop n).length (by rw [List.length_drop]; omega) (buf.drop n) rfl
      rw [drainedNext stable, stable.taken more verdict]
      dsimp only
      rw [List.drop_append_of_le_length sizes.2, rest, feed, feed]
      generalize drained next (buf.drop n) = progress
      obtain ⟨outs,_ | kept⟩ := progress
      · rfl
      · rfl

/- However the stream is cut. -/
theorem fedChunks (chunks : List (List α)) : chunks.foldl (feed next) ([],some []) = drained next chunks.flatten := by
  induction chunks using List.reverseRecOn with
  | nil => rw [drainedNext stable, List.flatten_nil, stable.idle]; rfl
  | append_singleton chunks chunk ih =>
    rw [List.foldl_append, List.foldl_cons, List.foldl_nil, ih, ← drainedAppend stable, List.flatten_append, List.flatten_singleton]

/- A stream of whole items gives the items, one after the other. -/
theorem drainedItems {outs : List Out} {raws : List (List α)} (whole : List.Forall₂ (fun out raw => next raw = .takes out raw.length) outs raws) :
    drained next raws.flatten = (outs,some []) := by
  induction whole with
  | nil => rw [drainedNext stable, List.flatten_nil, stable.idle]
  | cons first later ih =>
    rw [drainedNext stable, List.flatten_cons, stable.taken _ first]
    dsimp only
    rw [List.drop_left, ih]

end Decoders
end CadsTunnel.StreamDecoder
