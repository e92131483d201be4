import Mathlib.Algebra.BigOperators.Group.Finset.Basic
import Xv6.Fs.Refinement
import Xv6.Fs.Ownership

/-!
# Writes through a shared file

`filewrite` of `kernel/file.c` for a file of an inode, called by any number of processes that share
the `struct file`. The loop of `filewrite` takes and gives back the inode lock for each chunk;
between any two of its steps other processes may run, also while the lock is held. What `writei`
does is one step: with the lock held by another process, all that the others can do is to enter or
leave the log.
-/

namespace Xv6.Fs.Filewrite

open Core Coroutine

/-- `max`: the length of a chunk at most. -/
def maxChunk : ℕ := (MAXOPBLOCKS - 1 - 1 - 2) / 2 * BSIZE

/-- A `struct file` of an inode. -/
structure OpenFile where
  ip : Iref
  writable : Bool
  off : ℕ

/-- A call: the memory from `addr` on, `n`, and the loop variable. -/
structure Request where
  src : Source
  n : ℕ
  i : ℕ

namespace Request

/-- The length of the next chunk. -/
def n1 (c : Request) : ℕ := min (c.n - c.i) maxChunk

/-- The bytes of the next chunk. -/
def chunk (c : Request) (m : ℕ) : List UInt8 := (List.range m).map (c.src.bytes c.i)

/-- The bytes from `i` on. -/
def rest (c : Request) (i : ℕ) : List UInt8 := (List.range (c.n - i)).map (c.src.bytes i)

end Request

/-- Where a process is. -/
inductive Pc
  | idle
  /-- At the head of the loop. -/
  | loop (c : Request)
  /-- Behind `begin_op`. -/
  | begun (c : Request)
  /-- Behind `ilock`. -/
  | locked (c : Request)
  /-- Behind `writei`, which has returned `r`. -/
  | written (c : Request) (r : ℤ)
  /-- Behind the update of `f->off`. -/
  | counted (c : Request) (r : ℤ)
  /-- Behind `iunlock`. -/
  | unlocked (c : Request) (r : ℤ)

/-- What a process has written in one go, and where. -/
structure Chunk (P : Type) where
  p : P
  off : ℕ
  data : List UInt8

/-- The system, and the history of the calls and their results and of the chunks. -/
structure Shared (P : Type) where
  fs : State
  file : OpenFile
  pc : P → Pc
  calls : List (P × List UInt8)
  chunks : List (Chunk P)
  results : List (P × ℕ × ℤ)

variable {P : Type} [DecidableEq P]

namespace Shared

def setPc (s : Shared P) (p : P) (pc : Pc) : Shared P := { s with pc := Function.update s.pc p pc }

/-- `filewrite` returns. -/
def finish (s : Shared P) (p : P) (c : Request) : Shared P :=
  { s with
    pc := Function.update s.pc p .idle
    results := s.results ++ [(p, c.n, if c.i = c.n then (c.n : ℤ) else -1)] }

omit [DecidableEq P] in
/-- A part of the code that runs on the file system; `none` if it has to wait. -/
def run {α : Type} (s : Shared P) (m : FsM α) (k : α → Shared P → Shared P) :
    Option (Except Panic (Shared P)) :=
  match m.run s.fs with
  | .ok (a, fs) => some (.ok (k a { s with fs := fs }))
  | .error .sleep => none
  | .error (.panic x) => some (.error x)

end Shared

/-- The next step of a process in `filewrite`. -/
def advance (L : Layout) (s : Shared P) (p : P) : Option (Except Panic (Shared P)) :=
  match s.pc p with
  | .idle => none
  | .loop c =>
    if c.i < c.n then s.run beginOp fun _ s => s.setPc p (.begun c)
    else some (.ok (s.finish p c))
  | .begun c => s.run (ilock L.toSuperblock s.file.ip) fun _ s => s.setPc p (.locked c)
  | .locked c =>
    s.run (writei L.toSuperblock s.file.ip (fun t => c.src (c.i + t)) s.file.off c.n1) fun r s =>
      { s.setPc p (.written c r) with
        chunks := s.chunks ++ [⟨p, s.file.off, c.chunk r.toNat⟩] }
  | .written c r =>
    let off := if 0 < r then (s.file.off + r.toNat) % 2 ^ 32 else s.file.off
    some (.ok { s.setPc p (.counted c r) with file := { s.file with off := off } })
  | .counted c r => s.run (iunlock s.file.ip) fun _ s => s.setPc p (.unlocked c r)
  | .unlocked c r =>
    s.run endOp fun _ s =>
      if r ≠ c.n1 then s.finish p c else s.setPc p (.loop { c with i := c.i + r.toNat })

inductive Event (P : Type)
  /-- A process calls `filewrite`. -/
  | call (p : P) (src : Source) (n : ℕ)
  /-- A process goes on. -/
  | step (p : P)

def step (L : Layout) (s : Shared P) : Event P → Option (Except Panic (Shared P))
  | .call p src n =>
    match s.pc p with
    | .idle =>
      if s.file.writable then
        some (.ok { s.setPc p (.loop ⟨src, n, 0⟩) with
          calls := s.calls ++ [(p, (List.range n).map (src.bytes 0))] })
      else some (.ok { s with results := s.results ++ [(p, n, -1)] })
    | _ => none
  | .step p => advance L s p

/-- All runs from the state `s₀`. -/
def machine (L : Layout) (s₀ : Shared P) : Machine (Shared P) (Event P) :=
  .ofStep (step L) (· = s₀)

/-! ### The conditions -/

/-- The slots of the blocks of a chunk, and of the indirect block if it is needed. -/
def slots (off m : ℕ) : Finset Slot :=
  (if NDIRECT * BSIZE < off + m then {.indirect} else ∅) ∪
    ((Finset.range MAXFILE).filter fun bn => off / BSIZE ≤ bn ∧ bn * BSIZE < off + m).image fileSlot

/-- The disk has enough free blocks for a chunk. -/
def Enough (L : Layout) (s : State) (inum off m : ℕ) : Prop :=
  ((s.volume L.toSuperblock).missing L ⟨inum, slots off m, s.lh, s.outstanding⟩).card ≤
    ((Finset.range L.size).filter fun b => s.marked L.toSuperblock b = false).card

instance (L : Layout) (s : State) (inum off m : ℕ) : Decidable (Enough L s inum off m) :=
  inferInstanceAs (Decidable (_ ≤ _))

/-- How many bytes all the calls together are about. -/
def Shared.total (s : Shared P) : ℕ := (s.calls.map fun x => x.2.length).sum

/-- The memory of a call can be read, all that is written stays within the maximum size of a file,
and the disk has enough free blocks. -/
def Allowed (L : Layout) (s₀ s : Shared P) : Event P → Prop
  | .call _ src n => n < 2 ^ 31 ∧ (∀ t < n, (src t).isSome) ∧
      s₀.file.off + (s.total + n) ≤ MAXFILE * BSIZE
  | .step p =>
    match s.pc p with
    | .locked c => Enough L s.fs (s.fs.itable s.file.ip).inum s.file.off c.n1
    | _ => True

instance (L : Layout) (s₀ s : Shared P) : DecidablePred (Allowed L s₀ s)
  | .call _ _ _ => inferInstanceAs (Decidable (_ ∧ _))
  | .step p =>
    match h : s.pc p with
    | .locked c => decidable_of_iff (Enough L s.fs (s.fs.itable s.file.ip).inum s.file.off c.n1)
        (by simp [Allowed, h])
    | .idle | .loop _ | .begun _ | .written _ _ | .counted _ _ | .unlocked _ _ =>
      .isTrue (by simp [Allowed, h])

/-- No call is in progress, the file is an ordinary one that is open for writing, and the offset is
not beyond its end. The disk has one block of free map and a log of the full size, as `mkfs` makes
it. -/
structure Start (L : Layout) (s : Shared P) : Prop where
  size_le : L.size ≤ BPB
  nlog_le : LOGSIZE ≤ L.nlog
  idle : Idle L s.fs
  ref : 0 < (s.fs.itable s.file.ip).ref
  type : s.fs.typeOf L.toSuperblock s.file.ip = T_FILE
  writable : s.file.writable = true
  off : s.file.off ≤ (s.fs.contents L (s.fs.itable s.file.ip).inum).length
  outstanding : s.fs.outstanding = 0
  lh : s.fs.lh = []
  pc : ∀ p, s.pc p = .idle
  calls : s.calls = []
  chunks : s.chunks = []
  results : s.results = []

end Xv6.Fs.Filewrite
