import CadsTunnel.DeliveryNegotiation
import CadsTunnel.StreamDecoder

/-! The frames of a stream of noise messages, taken off the front of what has come in so far.
A message is taken when its last byte is there, not before, and what follows is kept. -/
namespace CadsTunnel.NoiseFraming
open Words StreamDecoder
open Delivery (frame)

def takeFrame (buf : Bytes) : Option (Bytes × Nat) :=
  if buf.length < 2 then none
  else
    let n := readBE (buf.take 2)
    if buf.length < 2 + n then none else some ((buf.drop 2).take n,2 + n)

/- `take_frame` as often as it gives a message. -/
def nextFrame (buf : Bytes) : Verdict Bytes :=
  match takeFrame buf with
  | none => .waits
  | some (message,consumed) => .takes message consumed

/- The messages taken and the bytes kept, after some chunks. -/
def received (chunks : List Bytes) : Progress UInt8 Bytes := chunks.foldl (feed nextFrame) ([],some [])

section Frames
variable {buf message : Bytes} {consumed : Nat}

theorem takesIff : nextFrame buf = .takes message consumed ↔ takeFrame buf = some (message,consumed) := by
  rw [nextFrame]
  cases takeFrame buf with
  | none => simp
  | some e => simp [Prod.ext_iff]

theorem nextNotRefused (buf : Bytes) : nextFrame buf ≠ .refuses := by
  rw [nextFrame]
  cases takeFrame buf with
  | none => simp
  | some e => simp

/- What `take_frame` gives is the front of the buffer. -/
theorem takenFront (taken : takeFrame buf = some (message,consumed)) :
    2 ≤ buf.length ∧ consumed = 2 + readBE (buf.take 2) ∧ consumed ≤ buf.length ∧ message = (buf.drop 2).take (readBE (buf.take 2)) := by
  unfold takeFrame at taken
  split at taken <;> try contradiction
  rename_i header
  dsimp only at taken
  split at taken <;> try contradiction
  rename_i body
  obtain ⟨rfl,rfl⟩ := Prod.mk.inj (Option.some.inj taken)
  exact ⟨not_lt.mp header,rfl,not_lt.mp body,rfl⟩

theorem nextStable : Stable nextFrame where
  idle := rfl
  consumes taken := by
    obtain ⟨_,size,inside,_⟩ := takenFront (takesIff.mp taken)
    exact ⟨by omega,inside⟩
  taken {buf} {message} {n} more taken := by
    obtain ⟨header,size,inside,body⟩ := takenFront (takesIff.mp taken)
    have front : (buf ++ more).take 2 = buf.take 2 := List.take_append_of_le_length header
    refine takesIff.mpr ?_
    rw [takeFrame, if_neg (by rw [List.length_append]; omega)]
    dsimp only
    rw [front, if_neg (by rw [List.length_append]; omega), List.drop_append_of_le_length header,
      List.take_append_of_le_length (by rw [List.length_drop]; omega), ← body, ← size]
  refused {buf} _ refused := absurd refused (nextNotRefused buf)

theorem frameLength (message : Bytes) : (frame message).length = 2 + message.length := by
  rw [frame, List.length_append, beLength]

theorem frameHeader (sized : message.length ≤ 65535) : readBE ((frame message).take 2) = message.length := by
  rw [frame, List.take_left' (beLength 2 _), readBeBounded (by omega)]

theorem frameTaken (sized : message.length ≤ 65535) : nextFrame (frame message) = .takes message (frame message).length := by
  refine takesIff.mpr ?_
  have length := frameLength message
  rw [takeFrame, if_neg (by omega)]
  dsimp only
  rw [frameHeader sized, if_neg (by omega), length, frame, List.drop_left' (beLength 2 _), List.take_length]

/- Before its last byte is there a frame is not taken. -/
theorem framePart (sized : message.length ≤ 65535) {part : Bytes} (front : part <+: frame message) (short : part.length < (frame message).length) :
    nextFrame part = .waits := by
  have none' : takeFrame part = none := by
    cases taken : takeFrame part with
    | none => rfl
    | some e =>
      obtain ⟨m,n⟩ := e
      obtain ⟨rest,whole⟩ := front
      have also := nextStable.taken rest (takesIff.mpr taken)
      rw [whole, frameTaken sized] at also
      injection also with _ size
      have inside := (takenFront taken).2.2.1
      omega
  rw [nextFrame, none']

/- Of the messages whose frames make up a stream, those whose frames are there. -/
theorem frontTaken {messages : List Bytes} (sized : ∀ m ∈ messages, m.length ≤ 65535) {part : Bytes} (front : part <+: (messages.map frame).flatten) :
    ∃ k rest, k ≤ messages.length ∧ drained nextFrame part = (messages.take k,some rest) ∧ part = ((messages.take k).map frame).flatten ++ rest ∧
      ∀ m, messages[k]? = some m → rest.length < (frame m).length := by
  induction messages generalizing part with
  | nil =>
    have empty : part = [] := List.prefix_nil.mp front
    subst empty
    refine ⟨0,[],le_rfl,?_,rfl,fun m found => by contradiction⟩
    rw [drainedNext nextStable, nextStable.idle]
    rfl
  | cons first later ih =>
    obtain ⟨here,there⟩ := List.forall_mem_cons.mp sized
    rw [List.map_cons, List.flatten_cons] at front
    by_cases short : part.length < (frame first).length
    · refine ⟨0,part,Nat.zero_le _,?_,rfl,?_⟩
      · rw [drainedNext nextStable, framePart here (List.prefix_of_prefix_length_le front (List.prefix_append _ _) short.le) short]
        rfl
      · intro m found
        cases found
        exact short
    · have whole : frame first <+: part := List.prefix_of_prefix_length_le (List.prefix_append _ _) front (not_lt.mp short)
      obtain ⟨more,rfl⟩ := whole
      obtain ⟨k,rest,inside,taken,split,waits⟩ := ih there ((List.prefix_append_right_inj _).mp front)
      refine ⟨k + 1,rest,Nat.succ_le_succ inside,?_,?_,?_⟩
      · rw [drainedNext nextStable, nextStable.taken more (frameTaken here)]
        dsimp only
        rw [List.drop_left, taken]
        rfl
      · rw [List.take_succ_cons, List.map_cons, List.flatten_cons, List.append_assoc, ← split]
      · intro m found
        exact waits m found

theorem framesReceived (messages : List Bytes) (sized : ∀ m ∈ messages, m.length ≤ 65535) (chunks : List Bytes)
    (stream : chunks.flatten = (messages.map frame).flatten) :
    received chunks = (messages,some []) ∧
    ∀ j, ∃ k rest, k ≤ messages.length ∧ received (chunks.take j) = (messages.take k,some rest) ∧
      (chunks.take j).flatten = ((messages.take k).map frame).flatten ++ rest ∧ ∀ m, messages[k]? = some m → rest.length < (frame m).length := by
  constructor
  · rw [received, fedChunks nextStable, stream]
    refine drainedItems nextStable ?_
    rw [List.forall₂_map_right_iff, List.forall₂_same]
    exact fun m mem => frameTaken (sized m mem)
  · intro j
    rw [received, fedChunks nextStable]
    refine frontTaken sized ?_
    rw [← stream]
    exact ⟨(chunks.drop j).flatten,by rw [← List.flatten_append, List.take_append_drop]⟩

theorem framesReceivedSplit : received [[0],[2,7],[8,0],[1,9]] = ([[7,8],[9]],some []) :=
  (framesReceived [[7,8],[9]] (by decide) [[0],[2,7],[8,0],[1,9]] (by decide)).1

end Frames
end CadsTunnel.NoiseFraming
