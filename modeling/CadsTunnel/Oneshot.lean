import Mathlib

/-! A one-shot channel, each operation one atomic step. The sender is used up by a send or
by its drop. The receiver is polled, looked into, or dropped; a poll or a look that sees the
end completes it, and to poll a completed receiver is an error of the program. -/
namespace CadsTunnel

inductive Receiver where
  | waiting
  | completed
  | dropped
  deriving DecidableEq, Repr

structure Oneshot (α : Type) where
  sender : Bool := true
  value : Option α := none
  receiver : Receiver := .waiting

/- The end of the channel as the receiver sees it: the value, or that the sender went without one. -/
inductive Polled (α : Type) where
  | pending
  | received (value : α)
  | closed
  | panicked

namespace Oneshot
variable {α : Type}

/- Whether the value got in. It does as long as the receiver is not dropped. -/
def send (c : Oneshot α) (a : α) : Bool × Oneshot α :=
  if !c.sender then (false,c)
  else if c.receiver = .dropped then (false,{ c with sender := false })
  else (true,{ c with sender := false, value := some a })

def dropSender (c : Oneshot α) : Oneshot α := { c with sender := false }

/- What is at the end of the channel, which the look takes out. -/
def look (c : Oneshot α) : Polled α × Oneshot α :=
  match c.value with
  | some a => (.received a,{ c with value := none, receiver := .completed })
  | none => if c.sender then (.pending,c) else (.closed,{ c with receiver := .completed })

def poll (c : Oneshot α) : Polled α × Oneshot α :=
  if c.receiver = .waiting then c.look else (.panicked,c)

/- A completed receiver answers that the channel is closed. -/
def tryRecv (c : Oneshot α) : Polled α × Oneshot α :=
  if c.receiver = .waiting then c.look else (.closed,c)

def dropReceiver (c : Oneshot α) : Oneshot α := { c with value := none, receiver := .dropped }

/- What was sent is in the channel, and the receiver has not looked yet. -/
structure Loaded (sent : Option α) (c : Oneshot α) : Prop where
  waiting : c.receiver = .waiting
  value : c.value = sent
  once : c.sender → sent = none

theorem loadedNew : Loaded none ({} : Oneshot α) := ⟨rfl,rfl,fun _ => rfl⟩

theorem loadedSend {sent : Option α} {c : Oneshot α} (loaded : Loaded sent c) (a : α) :
    Loaded (if (c.send a).1 then some a else sent) (c.send a).2 := by
  obtain ⟨sender,stored,receiver⟩ := c
  obtain ⟨rfl,rfl,once⟩ := loaded
  cases sender with
  | false => exact ⟨rfl,rfl,nofun⟩
  | true => exact ⟨rfl,rfl,nofun⟩

theorem loadedDrop {sent : Option α} {c : Oneshot α} (loaded : Loaded sent c) : Loaded sent c.dropSender :=
  ⟨loaded.waiting,loaded.value,nofun⟩

/- A look finds what was sent, and nothing can follow; or nothing is there yet. -/
theorem lookLoaded {sent : Option α} {c : Oneshot α} (loaded : Loaded sent c) :
    match c.look.1 with
    | .pending => sent = none ∧ c.look.2 = c
    | .received a => sent = some a ∧ c.look.2.sender = false
    | .closed => sent = none ∧ c.look.2.sender = false
    | .panicked => False := by
  obtain ⟨sender,stored,receiver⟩ := c
  obtain ⟨rfl,rfl,once⟩ := loaded
  cases stored with
  | some a =>
    cases sender with
    | false => exact ⟨rfl,rfl⟩
    | true => exact nomatch once rfl
  | none =>
    cases sender with
    | false => exact ⟨rfl,rfl⟩
    | true => exact ⟨rfl,rfl⟩

theorem lookSender (c : Oneshot α) : c.look.2.sender = c.sender := by
  unfold look
  split
  · rfl
  · split <;> rfl

theorem pollSender (c : Oneshot α) : c.poll.2.sender = c.sender := by
  unfold poll
  split
  · exact lookSender c
  · rfl

theorem pollWaiting {c : Oneshot α} (waiting : c.receiver = .waiting) : c.poll = c.look := if_pos waiting

theorem tryRecvWaiting {c : Oneshot α} (waiting : c.receiver = .waiting) : c.tryRecv = c.look := if_pos waiting

theorem sendSpent {c : Oneshot α} (spent : c.sender = false) (a : α) : c.send a = (false,c) := by
  simp [send, spent]

theorem sendDropped {c : Oneshot α} (gone : c.receiver = .dropped) (a : α) :
    (c.send a).1 = false ∧ (c.send a).2.receiver = .dropped := by
  rw [send, if_pos gone]
  split
  · exact ⟨rfl,gone⟩
  · exact ⟨rfl,gone⟩

end Oneshot
end CadsTunnel
