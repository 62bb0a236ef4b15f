import Mathlib

/-! Files that are to outlast a loss of power. What a process reads is not yet what stays: the
bytes of a file stay once the file was flushed, the names once the directory was. A file that
is written aside, flushed and only then renamed into its place is found whole after every
loss of power, in its old state or in its new one. -/
namespace CadsTunnel.DurableFiles

structure Node (α : Type) where
  data : List α
  synced : Bool

/- The files, the directory as a process sees it, and the directories that a loss of power may
bring back. -/
structure Disk (Name α : Type) where
  nodes : List (Node α) := []
  entries : Name → Option Nat := fun _ => none
  older : List (Name → Option Nat) := []

/- How a call to the system comes out; one that fails may have written a part. -/
inductive Outcome where
  | done
  | short (n : Nat)
  deriving DecidableEq

inductive Stop where
  | failed
  | halted
  deriving DecidableEq

/- The calls of one process, which stops where no outcome is left for the next. -/
abbrev Io (Name α ρ : Type) := ExceptT Stop (StateM (Disk Name α × List Outcome)) ρ

variable {Name α ρ : Type}

namespace Disk

def directories (d : Disk Name α) : List (Name → Option Nat) := d.entries :: d.older

def image (d : Disk Name α) (dir : Name → Option Nat) (name : Name) : Option (List α) := (dir name).bind fun i => d.nodes[i]?.map Node.data

/- What a process reads. -/
def read (name : Name) (d : Disk Name α) : Option (List α) := d.image d.entries name

/- An existing file is emptied, a new one gets the next place. -/
def create [DecidableEq Name] (name : Name) (d : Disk Name α) : Nat × Disk Name α :=
  match d.entries name with
  | some i => (i,{ d with nodes := d.nodes.set i ⟨[],false⟩ })
  | none => (d.nodes.length,{
      nodes := d.nodes ++ [⟨[],false⟩], entries := Function.update d.entries name (some d.nodes.length), older := d.entries :: d.older })

def append (i : Nat) (data : List α) (d : Disk Name α) : Disk Name α :=
  { d with nodes := d.nodes.modify i fun node => ⟨node.data ++ data,false⟩ }

def flush (i : Nat) (d : Disk Name α) : Disk Name α := { d with nodes := d.nodes.modify i fun node => { node with synced := true } }

def rename [DecidableEq Name] (name target : Name) (d : Disk Name α) : Disk Name α :=
  { d with entries := Function.update (Function.update d.entries name none) target (d.entries name), older := d.entries :: d.older }

def flushEntries (d : Disk Name α) : Disk Name α := { d with older := [] }

/- One of the directories is left, and of a file that was not flushed anything. -/
def losePower (back : Nat) (left : Nat → List α) (d : Disk Name α) : Disk Name α where
  nodes := d.nodes.mapIdx fun i node => if node.synced then node else ⟨left i,true⟩
  entries := d.directories[back]?.getD d.entries

end Disk

def call (act : Disk Name α → ρ × Disk Name α) (part : Nat → Disk Name α → Disk Name α) : Io Name α ρ := fun (d,outcomes) =>
  match outcomes with
  | [] => (.error .halted,(d,[]))
  | .done :: rest => (.ok (act d).1,((act d).2,rest))
  | .short n :: rest => (.error .failed,(part n d,rest))

def create [DecidableEq Name] (name : Name) : Io Name α Nat := call (Disk.create name) fun _ d => d

/- `write_all`. -/
def append (i : Nat) (data : List α) : Io Name α Unit := call (fun d => ((),d.append i data)) fun n d => d.append i (data.take n)

/- `sync_all` of a file, `rename`, and `sync_all` of the directory. -/
def flush (i : Nat) : Io Name α Unit := call (fun d => ((),d.flush i)) fun _ d => d

def rename [DecidableEq Name] (name target : Name) : Io Name α Unit := call (fun d => ((),d.rename name target)) fun _ d => d

def flushEntries : Io Name α Unit := call (fun d => ((),d.flushEntries)) fun _ d => d

def replace [DecidableEq Name] (aside target : Name) (data : List α) : Io Name α Unit := do
  let file ← create aside
  append file data
  flush file
  rename aside target
  flushEntries

/- Whatever directory is left, the target is a flushed file or none, and what it holds is
allowed. The file that is written aside is none of those. -/
structure Settled (aside target : Name) (allowed : Option (List α) → Prop) (d : Disk Name α) : Prop where
  images : ∀ dir ∈ d.directories, allowed (d.image dir target)
  flushed : ∀ dir ∈ d.directories, ∀ i, dir target = some i → ∃ node, d.nodes[i]? = some node ∧ node.synced = true
  placed : ∀ dir ∈ d.directories, ∀ i, dir aside = some i → i < d.nodes.length ∧ dir target ≠ some i
  apart : ∀ i, d.entries aside = some i → ∀ dir ∈ d.directories, dir target ≠ some i

/- The file written aside stands at its place with the data. -/
structure Aside (aside : Name) (i : Nat) (node : Node α) (d : Disk Name α) : Prop where
  entry : d.entries aside = some i
  here : d.nodes[i]? = some node

section Writes
variable {aside target : Name} {allowed : Option (List α) → Prop} {d : Disk Name α}

/- A write to the file aside is none to the target. -/
theorem settledWritten (settled : Settled aside target allowed d) {i : Nat} (entry : d.entries aside = some i) {nodes : List (Node α)}
    (length : nodes.length = d.nodes.length) (others : ∀ j, j ≠ i → nodes[j]? = d.nodes[j]?) :
    Settled aside target allowed { d with nodes } := by
  have same (dir : Name → Option Nat) (mem : dir ∈ d.directories) (j : Nat) (goes : dir target = some j) : nodes[j]? = d.nodes[j]? :=
    others j fun eq => settled.apart i entry dir mem (eq ▸ goes)
  refine ⟨?_,?_,?_,settled.apart⟩
  · intro dir mem
    have before := settled.images dir mem
    have kept : Disk.image { d with nodes } dir target = d.image dir target := by
      unfold Disk.image
      cases goes : dir target with
      | none => rfl
      | some j => simp only [Option.bind_some, same dir mem j goes]
    rwa [kept]
  · intro dir mem j goes
    have before := settled.flushed dir mem j goes
    rwa [← same dir mem j goes] at before
  · intro dir mem j goes
    exact length ▸ settled.placed dir mem j goes

theorem settledAppend (settled : Settled aside target allowed d) {i : Nat} {node : Node α} (here : Aside aside i node d) (data : List α) :
    Settled aside target allowed (d.append i data) ∧ Aside aside i ⟨node.data ++ data,false⟩ (d.append i data) := by
  refine ⟨settledWritten settled here.entry (List.length_modify ..) fun j different => ?_,here.entry,?_⟩
  · simp [different.symm]
  · simp [Disk.append, here.here]

theorem settledFlush (settled : Settled aside target allowed d) {i : Nat} {node : Node α} (here : Aside aside i node d) :
    Settled aside target allowed (d.flush i) ∧ Aside aside i { node with synced := true } (d.flush i) := by
  refine ⟨settledWritten settled here.entry (List.length_modify ..) fun j different => ?_,here.entry,?_⟩
  · simp [different.symm]
  · simp [Disk.flush, here.here]

theorem settledEntries (settled : Settled aside target allowed d) : Settled aside target (· = d.read target) d.flushEntries := by
  have only {dir : Name → Option Nat} (mem : dir ∈ d.flushEntries.directories) : dir = d.entries := List.mem_singleton.mp mem
  refine ⟨?_,?_,?_,?_⟩
  · rintro dir mem
    cases only mem
    rfl
  · intro dir mem
    cases only mem
    exact settled.flushed _ List.mem_cons_self
  · intro dir mem
    cases only mem
    exact settled.placed _ List.mem_cons_self
  · intro i goes dir mem
    cases only mem
    exact settled.apart i goes _ List.mem_cons_self

theorem settledMono {weaker : Option (List α) → Prop} (settled : Settled aside target allowed d) (implies : ∀ r, allowed r → weaker r) :
    Settled aside target weaker d := { settled with images := fun dir mem => implies _ (settled.images dir mem) }

theorem settledRead (settled : Settled aside target allowed d) : allowed (d.read target) := settled.images _ List.mem_cons_self

/- What was allowed before power was lost is what is found afterwards. -/
theorem settledLost (settled : Settled aside target allowed d) (back : Nat) (left : Nat → List α) :
    Settled aside target allowed (d.losePower back left) := by
  have known : (d.losePower back left).entries ∈ d.directories := by
    unfold Disk.losePower
    cases found : d.directories[back]? with
    | none => exact List.mem_cons_self
    | some dir => exact List.mem_of_getElem? found
  have only {dir : Name → Option Nat} (mem : dir ∈ (d.losePower back left).directories) : dir = (d.losePower back left).entries :=
    List.mem_singleton.mp mem
  have kept {i : Nat} (goes : (d.losePower back left).entries target = some i) : (d.losePower back left).nodes[i]? = d.nodes[i]? := by
    obtain ⟨node,here,synced⟩ := settled.flushed _ known i goes
    simp [Disk.losePower, here, synced]
  have self := settled.placed _ known
  refine ⟨?_,?_,?_,?_⟩
  · intro dir mem
    cases only mem
    have before := settled.images _ known
    unfold Disk.image at before ⊢
    cases goes : (d.losePower back left).entries target with
    | none => rwa [goes] at before
    | some i =>
      rw [goes] at before
      simp only [Option.bind_some, kept goes] at before ⊢
      exact before
  · intro dir mem i goes
    cases only mem
    rw [kept goes]
    exact settled.flushed _ known i goes
  · intro dir mem i goes
    cases only mem
    exact ⟨by simpa [Disk.losePower] using (self i goes).1,(self i goes).2⟩
  · intro i goes dir mem
    cases only mem
    exact (self i goes).2

variable [DecidableEq Name]

theorem settledCreate (settled : Settled aside target allowed d) (other : aside ≠ target) :
    Settled aside target allowed (d.create aside).2 ∧ Aside aside (d.create aside).1 ⟨[],false⟩ (d.create aside).2 := by
  unfold Disk.create
  cases entry : d.entries aside with
  | some i =>
    have inside := (settled.placed _ List.mem_cons_self i entry).1
    refine ⟨settledWritten settled entry List.length_set fun j different => List.getElem?_set_ne different.symm,entry,?_⟩
    simp [inside]
  | none =>
    dsimp only
    have below (dir : Name → Option Nat) (mem : dir ∈ d.directories) (j : Nat) (goes : dir target = some j) : j < d.nodes.length := by
      obtain ⟨node,here,-⟩ := settled.flushed dir mem j goes
      exact (List.getElem?_eq_some_iff.mp here).1
    have old (dir : Name → Option Nat) (mem : dir ∈ d.directories) (j : Nat) (goes : dir target = some j) :
        (d.nodes ++ [⟨[],false⟩])[j]? = d.nodes[j]? := List.getElem?_append_left (below dir mem j goes)
    have among {dir : Name → Option Nat} (mem : dir ∈ Function.update d.entries aside (some d.nodes.length) :: d.entries :: d.older) :
        ∃ before ∈ d.directories, dir target = before target := by
      rcases List.mem_cons.mp mem with rfl | later
      · exact ⟨d.entries,List.mem_cons_self,Function.update_of_ne other.symm _ _⟩
      · exact ⟨dir,later,rfl⟩
    refine ⟨⟨?_,?_,?_,?_⟩,by simp,by simp⟩
    · intro dir mem
      obtain ⟨before,known,same⟩ := among mem
      have kept := settled.images before known
      unfold Disk.image at kept ⊢
      rw [same]
      cases goes : before target with
      | none => rwa [goes] at kept
      | some j =>
        rw [goes] at kept
        simp only [Option.bind_some, old before known j goes] at kept ⊢
        exact kept
    · intro dir mem j goes
      obtain ⟨before,known,same⟩ := among mem
      rw [same] at goes
      have kept := settled.flushed before known j goes
      rwa [← old before known j goes] at kept
    · intro dir mem j goes
      rcases List.mem_cons.mp mem with rfl | later
      · dsimp only at goes ⊢
        rw [Function.update_self] at goes
        cases Option.some.inj goes
        refine ⟨by simp,?_⟩
        rw [Function.update_of_ne other.symm]
        exact fun hits => absurd (below d.entries List.mem_cons_self _ hits) (lt_irrefl _)
      · have kept := settled.placed dir later j goes
        exact ⟨by simp; omega,kept.2⟩
    · intro i goes dir mem
      dsimp only at goes
      rw [Function.update_self] at goes
      cases Option.some.inj goes
      obtain ⟨before,known,same⟩ := among mem
      rw [same]
      exact fun hits => absurd (below before known _ hits) (lt_irrefl _)

/- A flushed file comes into the place of the target. -/
theorem settledRename (settled : Settled aside target allowed d) (other : aside ≠ target) {i : Nat} {node : Node α}
    (here : Aside aside i node d) (synced : node.synced = true) :
    Settled aside target (fun r => allowed r ∨ r = some node.data) (d.rename aside target) ∧
      (d.rename aside target).read target = some node.data := by
  have image : Disk.image (d.rename aside target) (d.rename aside target).entries target = some node.data := by
    simp [Disk.image, Disk.rename, here.entry, here.here]
  have gone : (d.rename aside target).entries aside = none := by
    simp [Disk.rename, Function.update_of_ne other]
  refine ⟨⟨?_,?_,?_,?_⟩,image⟩
  · intro dir mem
    rcases List.mem_cons.mp mem with rfl | later
    · exact .inr image
    · exact .inl (settled.images dir later)
  · intro dir mem j goes
    rcases List.mem_cons.mp mem with rfl | later
    · simp only [Disk.rename, Function.update_self, here.entry] at goes
      cases Option.some.inj goes
      exact ⟨node,here.here,synced⟩
    · exact settled.flushed dir later j goes
  · intro dir mem j goes
    rcases List.mem_cons.mp mem with rfl | later
    · rw [gone] at goes
      contradiction
    · exact settled.placed dir later j goes
  · intro j goes
    rw [gone] at goes
    contradiction

/- However the calls come out, the target holds what it held or all of the data, and the data
for good once they all went through. -/
theorem replaceSettles (settled : Settled aside target allowed d) (other : aside ≠ target) (data : List α) (outcomes : List Outcome) :
    Settled aside target (fun r => allowed r ∨ r = some data) (replace aside target data (d,outcomes)).2.1 ∧
      ((replace aside target data (d,outcomes)).1 = .ok () →
        Settled aside target (· = some data) (replace aside target data (d,outcomes)).2.1) := by
  have still {m : Disk Name α} (settled : Settled aside target allowed m) : Settled aside target (fun r => allowed r ∨ r = some data) m :=
    settledMono settled fun _ => .inl
  obtain ⟨created,empty⟩ := settledCreate settled other
  obtain ⟨written,filled⟩ := settledAppend created empty data
  obtain ⟨flushed,synced⟩ := settledFlush written filled
  obtain ⟨renamed,reads⟩ := settledRename flushed other synced rfl
  have ended := settledEntries renamed
  rcases outcomes with - | ⟨- | n,outcomes⟩
  · exact ⟨still settled,nofun⟩
  · rcases outcomes with - | ⟨- | n,outcomes⟩
    · exact ⟨still created,nofun⟩
    · rcases outcomes with - | ⟨- | n,outcomes⟩
      · exact ⟨still written,nofun⟩
      · rcases outcomes with - | ⟨- | n,outcomes⟩
        · exact ⟨still flushed,nofun⟩
        · rcases outcomes with - | ⟨- | n,outcomes⟩
          · exact ⟨renamed,nofun⟩
          · rw [reads] at ended
            exact ⟨settledMono ended fun _ => .inr,fun _ => ended⟩
          · exact ⟨renamed,nofun⟩
        · exact ⟨still flushed,nofun⟩
      · exact ⟨still written,nofun⟩
    · exact ⟨still (settledAppend created empty (data.take n)).1,nofun⟩
  · exact ⟨still settled,nofun⟩

end Writes
end CadsTunnel.DurableFiles
