import CadsTunnel.Words

/-! Decoders over byte slices. An attempt yields a value, yields none, or panics: a
slice or an index out of range, a length that overflows, an unwrapped none.
`Answers must x post` says that `x` does not panic, that a value it yields satisfies
`post`, and that it does yield one when `must` holds. -/
namespace CadsTunnel.Slices
open Words

inductive Panic where
  | sliceOutOfRange
  | indexOutOfRange
  | arithmeticOverflow
  | unwrappedNone
  deriving DecidableEq, Repr

abbrev Attempt (α : Type) := OptionT (Except Panic) α

section Rules
variable {α β : Type} {must : Prop}

def halt (panic : Panic) : Attempt α := OptionT.mk (.error panic)

/- `?` on an option. -/
def ofOption (o : Option α) : Attempt α := OptionT.mk (.ok o)

def Answers (must : Prop) (x : Attempt α) (post : α → Prop) : Prop :=
  ∃ r, x.run = .ok r ∧ (∀ a ∈ r, post a) ∧ (must → r.isSome)

theorem Answers.ofOption {o : Option α} {post : α → Prop} (holds : ∀ a ∈ o, post a) (there : must → o.isSome) :
    Answers must (ofOption o) post := ⟨o,rfl,holds,there⟩

theorem Answers.pure {a : α} {post : α → Prop} (holds : post a) : Answers must (Pure.pure a) post := by
  refine Answers.ofOption (o := some a) ?_ (fun _ => rfl)
  intro b same
  exact Option.mem_some.mp same ▸ holds

theorem Answers.failure {post : α → Prop} (optional : ¬must) : Answers must (failure : Attempt α) post :=
  Answers.ofOption (o := none) (by simp) (fun needed => absurd needed optional)

theorem runBind {x : Attempt α} {a : α} (run : x.run = .ok (some a)) (f : α → Attempt β) :
    (x >>= f).run = (f a).run := by
  rw [OptionT.run_bind, run]
  rfl

theorem Answers.bind {x : Attempt α} {f : α → Attempt β} {mid : α → Prop} {post : β → Prop}
    (first : Answers must x mid) (next : ∀ a, mid a → Answers must (f a) post) : Answers must (x >>= f) post := by
  obtain ⟨r,run,holds,there⟩ := first
  cases r with
  | none =>
    refine ⟨none,?_,by simp,there⟩
    rw [OptionT.run_bind, run]
    rfl
  | some a =>
    obtain ⟨s,rest,after,stays⟩ := next a (holds a rfl)
    exact ⟨s,(runBind run f).trans rest,after,stays⟩

theorem Answers.mono {wanted : Prop} {x : Attempt α} {post weaker : α → Prop} (answers : Answers must x post)
    (needed : wanted → must) (implies : ∀ a, post a → weaker a) : Answers wanted x weaker := by
  obtain ⟨r,run,holds,there⟩ := answers
  exact ⟨r,run,fun a mem => implies a (holds a mem),fun want => there (needed want)⟩

/- An attempt that has to answer, and can answer in one way only. -/
theorem Answers.only {x : Attempt α} {post : α → Prop} {a : α} (answers : Answers must x post) (needed : must)
    (only : ∀ b, post b → b = a) : x = Pure.pure a := by
  obtain ⟨r,run,holds,there⟩ := answers
  obtain ⟨b,same⟩ := Option.isSome_iff_exists.mp (there needed)
  rw [same] at run
  rw [only b (holds b same)] at run
  exact run

end Rules

/- The bytes from one offset up to another. -/
def piece (raw : Bytes) (lo hi : Nat) : Bytes := (raw.drop lo).take (hi - lo)

theorem pieceLength {raw : Bytes} {lo hi : Nat} (inside : hi ≤ raw.length) : (piece raw lo hi).length = hi - lo := by
  simp only [piece, List.length_take, List.length_drop]
  omega

theorem pieceAppend (raw : Bytes) {lo mid hi : Nat} (first : lo ≤ mid) (last : mid ≤ hi) :
    piece raw lo mid ++ piece raw mid hi = piece raw lo hi := by
  have later : raw.drop mid = (raw.drop lo).drop (mid - lo) := by rw [List.drop_drop, Nat.add_sub_cancel' first]
  have size : hi - lo = (mid - lo) + (hi - mid) := by omega
  rw [piece, piece, piece, later, size, List.take_add]

theorem pieceWhole {raw : Bytes} {n : Nat} (length : raw.length = n) : piece raw 0 n = raw := by
  simp [piece, ← length]

theorem pieceOfAppend (front : Bytes) {middle : Bytes} (back : Bytes) {lo hi : Nat} (start : front.length = lo)
    (stop : lo + middle.length = hi) : piece (front ++ (middle ++ back)) lo hi = middle := by
  subst start stop
  simp [piece]

section Access
variable {must : Prop}

/- `&b[lo..hi]`. -/
def slice (raw : Bytes) (lo hi : Nat) : Attempt Bytes :=
  if lo ≤ hi ∧ hi ≤ raw.length then pure (piece raw lo hi) else halt .sliceOutOfRange

theorem sliceAnswers {raw : Bytes} {lo hi : Nat} (order : lo ≤ hi) (inside : hi ≤ raw.length) :
    Answers must (slice raw lo hi) (· = piece raw lo hi) := by
  rw [slice, if_pos ⟨order,inside⟩]
  exact .pure rfl

/- `try_into` of a slice to an array. -/
def toArray (n : Nat) (raw : Bytes) : Option (Vector UInt8 n) :=
  if fits : raw.length = n then some ⟨raw.toArray,by simpa using fits⟩ else none

theorem toArraySome {n : Nat} {raw : Bytes} (length : raw.length = n) :
    ∃ v, toArray n raw = some v ∧ v.toList = raw := by
  refine ⟨⟨raw.toArray,by simpa using length⟩,?_,by simp⟩
  rw [toArray, dif_pos length]

def array (n : Nat) (raw : Bytes) : Attempt (Vector UInt8 n) := ofOption (toArray n raw)

theorem arrayAnswers {n : Nat} {raw : Bytes} (length : raw.length = n) :
    Answers must (array n raw) (·.toList = raw) := by
  obtain ⟨v,fits,list⟩ := toArraySome length
  rw [array, fits]
  exact .pure list

/- The array between two offsets that a decoder has made sure of. -/
theorem fieldAnswers {α : Type} {n : Nat} {raw : Bytes} {lo hi : Nat} {f : Vector UInt8 n → Attempt α}
    {post : α → Prop} (inside : hi ≤ raw.length) (size : lo + n = hi)
    (next : ∀ v, v.toList = piece raw lo hi → Answers must (f v) post) :
    Answers must (do f (← array n (← slice raw lo hi))) post := by
  refine Answers.bind (sliceAnswers (by omega) inside) ?_
  intro s same
  subst s
  refine Answers.bind (arrayAnswers ?_) next
  rw [pieceLength inside]
  omega

/- `usize` arithmetic: a plain operation panics on overflow, a checked one yields none. -/
def usize (n : Nat) : Attempt Nat := if n < 2 ^ 64 then pure n else halt .arithmeticOverflow

def usizeSub (a b : Nat) : Attempt Nat := if b ≤ a then pure (a - b) else halt .arithmeticOverflow

def checked (n : Nat) : Attempt Nat := ofOption (if n < 2 ^ 64 then some n else none)

theorem usizeAnswers {n : Nat} (bound : n < 2 ^ 64) : Answers must (usize n) (· = n) := by
  rw [usize, if_pos bound]
  exact .pure rfl

theorem usizeSubAnswers {a b : Nat} (order : b ≤ a) : Answers must (usizeSub a b) (· = a - b) := by
  rw [usizeSub, if_pos order]
  exact .pure rfl

theorem checkedAnswers {n : Nat} (bound : n < 2 ^ 64) : Answers must (checked n) (· = n) := by
  rw [checked, if_pos bound]
  exact .pure rfl

/- `split_at`. -/
def splitAt (raw : Bytes) (n : Nat) : Attempt (Bytes × Bytes) :=
  if n ≤ raw.length then pure (raw.take n,raw.drop n) else halt .sliceOutOfRange

/- `b[i]`. -/
def index (raw : Bytes) (i : Nat) : Attempt UInt8 :=
  match raw[i]? with
  | some b => pure b
  | none => halt .indexOutOfRange

theorem indexAnswers {raw : Bytes} {i : Nat} {b : UInt8} (inside : raw[i]? = some b) :
    Answers must (index raw i) (· = b) := by
  rw [index, inside]
  exact .pure rfl

end Access

/- A decoder that moves a cursor through the input. -/
abbrev Cursor (α : Type) := StateT Bytes (OptionT (Except Panic)) α

/- `take`: the next bytes, if there are as many. -/
def take (n : Nat) : Cursor Bytes := fun cur => if cur.length < n then failure else splitAt cur n

section Cursors
variable {α β : Type}

/- `Reads x cur post`: from this cursor `x` does not panic, and the value it yields and
the cursor it leaves satisfy `post`. -/
def Reads (x : Cursor α) (cur : Bytes) (post : α → Bytes → Prop) : Prop :=
  Answers False (x.run cur) (fun answer => post answer.1 answer.2)

theorem Reads.bind {x : Cursor α} {f : α → Cursor β} {cur : Bytes} {mid : α → Bytes → Prop}
    {post : β → Bytes → Prop} (first : Reads x cur mid) (next : ∀ a rest, mid a rest → Reads (f a) rest post) :
    Reads (x >>= f) cur post := by
  rw [Reads, StateT.run_bind]
  exact Answers.bind first (fun answer holds => next answer.1 answer.2 holds)

theorem Reads.lift {x : Attempt α} {cur : Bytes} {post : α → Prop} (answers : Answers False x post) :
    Reads (liftM x : Cursor α) cur (fun a rest => post a ∧ rest = cur) := by
  change Answers False (x >>= fun a => Pure.pure (a,cur)) _
  exact Answers.bind answers (fun a holds => .pure ⟨holds,rfl⟩)

theorem Reads.pure {a : α} {cur : Bytes} {post : α → Bytes → Prop} (holds : post a cur) :
    Reads (Pure.pure a : Cursor α) cur post :=
  Answers.pure (a := (a,cur)) holds

theorem takeReads (n : Nat) (cur : Bytes) :
    Reads (take n) cur (fun front rest => cur = front ++ rest ∧ front.length = n) := by
  change Answers False (if cur.length < n then failure else splitAt cur n) _
  split
  · exact .failure not_false
  · rename_i enough
    rw [splitAt, if_pos (Nat.not_lt.mp enough)]
    refine .pure ⟨(List.take_append_drop n cur).symm,?_⟩
    simp only [List.length_take]
    omega

/- The array in front of the cursor. -/
theorem takeArray {n : Nat} {cur : Bytes} {f : Vector UInt8 n → Cursor α} {post : α → Bytes → Prop}
    (next : ∀ v rest, cur = v.toList ++ rest → Reads (f v) rest post) :
    Reads (do f (← array n (← take n))) cur post := by
  refine Reads.bind (takeReads n cur) ?_
  intro front rest parts
  refine Reads.bind (Reads.lift (arrayAnswers parts.2)) ?_
  intro v same read
  rw [read.2]
  exact next v rest (read.1 ▸ parts.1)

theorem takeFront {front : Bytes} {n : Nat} (length : front.length = n) (f : Bytes → Cursor α) (rest : Bytes) :
    (take n >>= f).run (front ++ rest) = (f front).run rest := by
  subst n
  have split : (take front.length).run (front ++ rest) = Pure.pure (front,rest) := by
    simp [take, splitAt, StateT.run]
  rw [StateT.run_bind, split, pure_bind]

theorem takeArrayFront {n : Nat} (v : Vector UInt8 n) (f : Vector UInt8 n → Cursor α) (rest : Bytes) :
    StateT.run (do f (← array n (← take n))) (v.toList ++ rest) = (f v).run rest := by
  rw [takeFront v.length_toList]
  have same : array n v.toList = Pure.pure v :=
    (arrayAnswers v.length_toList).only trivial (fun w list => Vector.toList_inj.mp list)
  rw [same]
  rfl

/- The byte in front of the cursor, if it is the byte of some value. -/
theorem takeByte {κ : Type} {parse : UInt8 → Option κ} {byte : κ → UInt8} (known : ∀ b k, parse b = some k → byte k = b) {cur : Bytes}
    {f : κ → Cursor α} {post : α → Bytes → Prop} (next : ∀ k rest, cur = byte k :: rest → Reads (f k) rest post) :
    Reads (do f (← ofOption (parse (← index (← take 1) 0)))) cur post := by
  refine Reads.bind (takeReads 1 cur) ?_
  intro front rest parts
  obtain ⟨b,rfl⟩ := List.length_eq_one_iff.mp parts.2
  refine Reads.bind (Reads.lift (indexAnswers List.getElem?_cons_zero)) ?_
  intro t left same
  rw [same.1, same.2]
  refine Reads.bind (Reads.lift (Answers.ofOption (known b) False.elim)) ?_
  intro k left value
  rw [value.2]
  exact next k rest (value.1 ▸ parts.1)

theorem takeByteFront {κ : Type} {parse : UInt8 → Option κ} {byte : κ → UInt8} (k : κ) (parses : parse (byte k) = some k)
    (f : κ → Cursor α) (rest : Bytes) :
    StateT.run (do f (← ofOption (parse (← index (← take 1) 0)))) ([byte k] ++ rest) = (f k).run rest := by
  rw [takeFront (show [byte k].length = 1 from rfl)]
  have first : index [byte k] 0 = Pure.pure (byte k) := rfl
  have value : ofOption (parse (byte k)) = Pure.pure k := by
    rw [parses]
    rfl
  rw [first, liftM_pure, pure_bind, value, liftM_pure, pure_bind]

end Cursors

/- A wire form that is read back, by a decoder that answers on every input and yields
a value from no other bytes than its own. -/
structure Canonical {α : Type} (good : α → Prop) (encode : α → Bytes) (decode : Bytes → Attempt α) : Prop where
  readsBack : ∀ a, good a → decode (encode a) = pure a
  answers : ∀ b, ∃ answer, (decode b).run = .ok answer
  unique : ∀ b a, decode b = pure a → encode a = b

theorem Canonical.ofAnswers {α : Type} {good : α → Prop} {encode : α → Bytes} {decode : Bytes → Attempt α}
    (readsBack : ∀ a, good a → decode (encode a) = pure a)
    (answers : ∀ b, Answers False (decode b) (fun a => encode a = b)) : Canonical good encode decode where
  readsBack := readsBack
  answers b := by
    obtain ⟨answer,run,_⟩ := answers b
    exact ⟨answer,run⟩
  unique b a same := by
    obtain ⟨answer,run,holds,_⟩ := answers b
    have value : answer = some a := Except.ok.inj (run.symm.trans (congrArg OptionT.run same))
    exact holds a value

end CadsTunnel.Slices
