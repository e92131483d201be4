import Xv6.Core.Machine
import Xv6.Core.Ring

/-!
# Pipes

`pipewrite`, `piperead` and `pipeclose` of `kernel/pipe.c` on one pipe, by any number of processes.
A process that holds `pi->lock` goes through its loop one round at a time, so that `kill` can set
its flag between two rounds. `sleep` gives up the lock and goes to sleep in one step, as the process
lock makes it. The last fields of the state are not in the source: they record what was appended and
removed.
-/

namespace Xv6.Pipes

open Core

def PIPESIZE : ℕ := 512

structure Pipe where
  /-- The indices below `PIPESIZE` are used. -/
  data : ℕ → UInt8
  /-- Number of bytes read. -/
  nread : UInt32
  /-- Number of bytes written. -/
  nwrite : UInt32
  /-- The read descriptor is still open. -/
  readopen : Bool
  /-- The write descriptor is still open. -/
  writeopen : Bool

/-- A call of `pipewrite(pi, addr, n)`: its number, and the bytes of the user memory from `addr` on,
where they can be read. -/
structure Write where
  id : ℕ
  src : ℕ → Option UInt8
  n : ℤ

/-- A call of `piperead(pi, addr, n)`, with the bytes of the user memory that can be written. -/
structure Read where
  dst : ℕ → Bool
  n : ℤ

/-- Where a process is. -/
inductive Pc
  /-- In no call on this pipe. -/
  | out
  /-- At the head of the loop of `pipewrite`, with the lock. -/
  | writing (c : Write) (i : ℕ)
  /-- Sleeping on `&pi->nwrite`. -/
  | full (c : Write) (i : ℕ)
  /-- Woken up in `pipewrite`, without the lock yet. -/
  | fullWoken (c : Write) (i : ℕ)
  /-- At the head of the first loop of `piperead`, with the lock. -/
  | waiting (c : Read)
  /-- Sleeping on `&pi->nread`. -/
  | empty (c : Read)
  /-- Woken up in `piperead`, without the lock yet. -/
  | emptyWoken (c : Read)
  /-- At the head of the second loop of `piperead`, with the lock. -/
  | copying (c : Read) (i : ℕ)

structure State (P : Type) where
  pipe : Pipe
  /-- Who holds `pi->lock`. -/
  lock : Option P
  pc : P → Pc
  killed : P → Bool
  /-- The bytes appended, with the numbers of the calls. -/
  appended : List (ℕ × UInt8)
  /-- The bytes removed. -/
  removed : List UInt8
  /-- The calls of `pipewrite` so far. -/
  calls : ℕ → Option Write
  /-- The number of the next one. -/
  next : ℕ
  /-- What they returned. -/
  result : ℕ → Option ℤ

variable {P : Type} [DecidableEq P]

namespace State

def setPc (s : State P) (p : P) (pc : Pc) : State P := { s with pc := Function.update s.pc p pc }

/-- Give up the lock. -/
def release (s : State P) : State P := { s with lock := none }

/-- `wakeup(&pi->nread)` -/
def wakeupRead (s : State P) : State P :=
  { s with pc := fun q =>
      match s.pc q with
      | .empty c => .emptyWoken c
      | pc => pc }

/-- `wakeup(&pi->nwrite)` -/
def wakeupWrite (s : State P) : State P :=
  { s with pc := fun q =>
      match s.pc q with
      | .full c i => .fullWoken c i
      | pc => pc }

/-- `pipewrite` releases the lock and returns. -/
def returnWrite (s : State P) (p : P) (c : Write) (r : ℤ) : State P :=
  { (s.setPc p .out).release with result := Function.update s.result c.id (some r) }

/-- Append a byte. -/
def append (s : State P) (c : Write) (ch : UInt8) : State P :=
  { s with
    pipe := { s.pipe with
      data := Function.update s.pipe.data (s.pipe.nwrite.toNat % PIPESIZE) ch
      nwrite := s.pipe.nwrite + 1 }
    appended := s.appended ++ [(c.id, ch)] }

/-- Remove a byte. -/
def remove (s : State P) : State P :=
  { s with
    pipe := { s.pipe with nread := s.pipe.nread + 1 }
    removed := s.removed ++ [s.pipe.data (s.pipe.nread.toNat % PIPESIZE)] }

end State

open State

/-- One round of the loop of `pipewrite`. -/
def writeRound (s : State P) (p : P) (c : Write) (i : ℕ) : State P :=
  if i < c.n then
    if s.pipe.readopen = false ∨ s.killed p = true then
      s.returnWrite p c (-1)
    else if s.pipe.nwrite = s.pipe.nread + UInt32.ofNat PIPESIZE then
      -- pipewrite-full
      (s.wakeupRead.setPc p (.full c i)).release
    else
      match c.src i with
      | none => s.wakeupRead.returnWrite p c i
      | some ch => (s.append c ch).setPc p (.writing c (i + 1))
  else
    s.wakeupRead.returnWrite p c i

/-- One round of the first loop of `piperead`. -/
def waitRound (s : State P) (p : P) (c : Read) : State P :=
  if s.pipe.nread = s.pipe.nwrite ∧ s.pipe.writeopen = true then
    if s.killed p = true then (s.setPc p .out).release
    else (s.setPc p (.empty c)).release
  else
    s.setPc p (.copying c 0)

/-- The end of `piperead`. -/
def returnRead (s : State P) (p : P) : State P := (s.wakeupWrite.setPc p .out).release

/-- One round of the second loop of `piperead`. A byte that cannot be copied to the user is lost. -/
def copyRound (s : State P) (p : P) (c : Read) (i : ℕ) : State P :=
  if i < c.n ∧ s.pipe.nread ≠ s.pipe.nwrite then
    if c.dst i then s.remove.setPc p (.copying c (i + 1))
    else returnRead s.remove p
  else
    returnRead s p

/-- `pipeclose(pi, writable)` -/
def pipeclose (s : State P) (writable : Bool) : State P :=
  if writable then { s with pipe := { s.pipe with writeopen := false } }.wakeupRead
  else { s with pipe := { s.pipe with readopen := false } }.wakeupWrite

/-- The flag is set, and a process that sleeps is woken up. -/
def kill (s : State P) (p : P) : State P :=
  { s with
    killed := Function.update s.killed p true
    pc := Function.update s.pc p <|
      match s.pc p with
      | .full c i => .fullWoken c i
      | .empty c => .emptyWoken c
      | pc => pc }

inductive Event (P : Type)
  /-- A process calls `pipewrite`, and gets the lock. -/
  | write (p : P) (src : ℕ → Option UInt8) (n : ℤ)
  /-- A process calls `piperead`, and gets the lock. -/
  | read (p : P) (dst : ℕ → Bool) (n : ℤ)
  /-- A process goes on: by a round of its loop, or by taking the lock again after it was woken
  up. -/
  | step (p : P)
  | close (writable : Bool)
  | kill (p : P)

/-- `none` if the event cannot happen. -/
def next (s : State P) : Event P → Option (State P)
  | .write p src n =>
    match s.pc p, s.lock with
    | .out, none => some <|
      let c : Write := ⟨s.next, src, n⟩
      { s.setPc p (.writing c 0) with
        lock := some p
        calls := Function.update s.calls s.next (some c)
        next := s.next + 1 }
    | _, _ => none
  | .read p dst n =>
    match s.pc p, s.lock with
    | .out, none => some { s.setPc p (.waiting ⟨dst, n⟩) with lock := some p }
    | _, _ => none
  | .step p =>
    match s.pc p with
    | .writing c i => some (writeRound s p c i)
    | .waiting c => some (waitRound s p c)
    | .copying c i => some (copyRound s p c i)
    | .fullWoken c i =>
      if s.lock.isNone then some { s.setPc p (.writing c i) with lock := some p } else none
    | .emptyWoken c =>
      if s.lock.isNone then some { s.setPc p (.waiting c) with lock := some p } else none
    | .out | .full _ _ | .empty _ => none
  | .close writable => if s.lock.isNone then some (pipeclose s writable) else none
  | .kill p => some (kill s p)

/-- What `pipealloc` leaves. -/
structure Fresh (s : State P) : Prop where
  nread : s.pipe.nread = 0
  nwrite : s.pipe.nwrite = 0
  readopen : s.pipe.readopen = true
  writeopen : s.pipe.writeopen = true
  lock : s.lock = none
  pc : ∀ p, s.pc p = .out
  appended : s.appended = []
  removed : s.removed = []
  calls : ∀ id, s.calls id = none
  next : s.next = 0
  result : ∀ id, s.result id = none

/-- All runs of calls on a new pipe. -/
def machine (P : Type) [DecidableEq P] : Machine (State P) (Event P) := ⟨Fresh, next⟩

end Xv6.Pipes
