import CadsTunnel.Delimited

/-! The signing-preimage builder. The domain seeds the buffer with its length in
front, fixed fields append verbatim and `varBytes` is the one length-prefixed
field. Each method extends the buffer; nothing is ever rewritten. -/
namespace CadsTunnel
open Words Delimited

structure Preimage where
  buf : Bytes

namespace Preimage

def new (domain : Bytes) : Preimage := ⟨u32LE (.ofNat domain.length) ++ domain⟩
def fixed (p : Preimage) (bytes : Bytes) : Preimage := ⟨p.buf ++ bytes⟩
def u64 (p : Preimage) (v : UInt64) : Preimage := ⟨p.buf ++ u64LE v⟩
def u32 (p : Preimage) (v : UInt32) : Preimage := ⟨p.buf ++ u32LE v⟩
def tag (p : Preimage) (t : UInt8) : Preimage := ⟨p.buf ++ [t]⟩
def varBytes (p : Preimage) (bytes : Bytes) : Preimage := ⟨p.buf ++ u32LE (.ofNat bytes.length) ++ bytes⟩
def finish (p : Preimage) : Bytes := p.buf

/- What `varBytes` and the domain seed write. -/
def delimited (bytes : Bytes) : Bytes := le 4 bytes.length ++ bytes

/- What a `u32` count followed by a loop over the elements writes. -/
def counted {α : Type} (element : α → Bytes) (xs : List α) : Bytes := le 4 xs.length ++ xs.flatMap element

@[simp] theorem bufNew (domain : Bytes) : (new domain).buf = delimited domain := by
  rw [new, u32LECount]; rfl
@[simp] theorem bufFixed (p : Preimage) (bytes : Bytes) : (p.fixed bytes).buf = p.buf ++ bytes := rfl
@[simp] theorem bufU64 (p : Preimage) (v : UInt64) : (p.u64 v).buf = p.buf ++ u64LE v := rfl
@[simp] theorem bufTag (p : Preimage) (t : UInt8) : (p.tag t).buf = p.buf ++ [t] := rfl
@[simp] theorem bufVarBytes (p : Preimage) (bytes : Bytes) : (p.varBytes bytes).buf = p.buf ++ delimited bytes := by
  rw [varBytes, u32LECount, delimited, List.append_assoc]

/- A loop that appends one element after the other writes their concatenation. -/
theorem bufFold {α : Type} (element : α → Bytes) (write : Preimage → α → Preimage)
    (writes : ∀ p a, (write p a).buf = p.buf ++ element a) (xs : List α) (p : Preimage) :
    (xs.foldl write p).buf = p.buf ++ xs.flatMap element := by
  induction xs generalizing p with
  | nil => simp
  | cons x xs ih => simp [ih, writes]

theorem bufCounted {α : Type} (element : α → Bytes) (write : Preimage → α → Preimage)
    (writes : ∀ p a, (write p a).buf = p.buf ++ element a) (xs : List α) (p : Preimage) :
    (xs.foldl write (p.u32 (.ofNat xs.length))).buf = p.buf ++ counted element xs := by
  rw [bufFold element write writes, u32, u32LECount, counted, List.append_assoc]

def Short (bytes : Bytes) : Prop := bytes.length < 2 ^ 32

theorem delimitedDelimits : Delimits Short delimited := prefixedDelimits 4

theorem countedDelimits {α : Type} {good : α → Prop} {element : α → Bytes} (h : Delimits good element) :
    Delimits (fun xs : List α => xs.length < 2 ^ 32 ∧ ∀ x ∈ xs, good x) (counted element) :=
  Delimited.countedDelimits 4 h

end Preimage
end CadsTunnel
