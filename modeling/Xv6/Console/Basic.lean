import Xv6.Core.Machine
import Xv6.Core.Ring

/-!
# The console

`consoleintr` and `consoleread` of `kernel/console.c`. The interrupt handler runs as a whole with
`cons.lock`; a reader that holds the lock goes through its loop one round at a time. The echo of the
characters and `procdump` change nothing here. The last fields of the state are not in the source:
they record what was typed, committed and read.
-/

namespace Xv6.Console

open Core

def INPUT_BUF : ℕ := 128

/-- Control-x -/
def C (x : Char) : ℤ := x.toNat - '@'.toNat

/-- The mark of an end of file in the buffer. -/
def controlD : UInt8 := .ofInt (C 'D')

def newline : UInt8 := 10

/-- A call of `consoleread(user_dst, dst, n)`: its number, the bytes of the destination that can be
written, and the `n` of the start. -/
structure Read where
  id : ℕ
  dst : ℕ → Bool
  target : ℕ

/-- Where a process is. -/
inductive Pc
  /-- In no read of the console. -/
  | out
  /-- At the head of the loop with the lock, with `n` bytes to go. -/
  | reading (c : Read) (n : ℕ)
  /-- Sleeping on `&cons.r`. -/
  | asleep (c : Read) (n : ℕ)
  /-- Woken up, without the lock yet. -/
  | woken (c : Read) (n : ℕ)

structure State (P : Type) where
  /-- The indices below `INPUT_BUF` are used. -/
  buf : ℕ → UInt8
  /-- Read index. -/
  r : UInt32
  /-- Write index. -/
  w : UInt32
  /-- Edit index. -/
  e : UInt32
  /-- The reader that holds `cons.lock`. -/
  lock : Option P
  pc : P → Pc
  killed : P → Bool
  /-- The characters stored, without those erased. -/
  typed : List UInt8
  /-- The characters that readers can have. -/
  committed : List UInt8
  /-- The characters that readers took out. -/
  consumed : List UInt8
  /-- The bytes copied to the readers, with the numbers of the reads. -/
  taken : List (ℕ × UInt8)
  /-- The reads that have returned, with their values. -/
  returned : List (ℕ × ℤ)
  /-- The number of the next read. -/
  next : ℕ

variable {P : Type} [DecidableEq P]

namespace State

def setPc (s : State P) (p : P) (pc : Pc) : State P := { s with pc := Function.update s.pc p pc }

/-- `wakeup(&cons.r)` -/
def wakeup (s : State P) : State P :=
  { s with pc := fun q =>
      match s.pc q with
      | .asleep c n => .woken c n
      | pc => pc }

/-- `cons.buf[cons.e++ % INPUT_BUF] = c` -/
def store (s : State P) (ch : UInt8) : State P :=
  { s with
    buf := Function.update s.buf (s.e.toNat % INPUT_BUF) ch
    e := s.e + 1
    typed := s.typed ++ [ch] }

/-- `cons.e--` -/
def erase (s : State P) : State P := { s with e := s.e - 1, typed := s.typed.dropLast }

/-- A whole line, or an end of file, has arrived. -/
def commit (s : State P) : State P := { s with w := s.e, committed := s.typed }.wakeup

/-- `consoleread` releases the lock and returns. -/
def returnRead (s : State P) (p : P) (c : Read) (v : ℤ) : State P :=
  { s.setPc p .out with lock := none, returned := s.returned ++ [(c.id, v)] }

end State

open State

omit [DecidableEq P] in
/-- The loop of control-U, with as many rounds as there are characters to erase. -/
def killLine : ℕ → State P → State P
  | 0, s => s
  | k + 1, s =>
    if s.e ≠ s.w ∧ s.buf ((s.e - 1).toNat % INPUT_BUF) ≠ newline then killLine k s.erase else s

omit [DecidableEq P] in
/-- A character is stored, and the line is committed where that is due. -/
def input (s : State P) (c : ℤ) : State P :=
  let s := s.store (.ofInt c)
  if c = 10 ∨ c = C 'D' ∨ s.e = s.r + UInt32.ofNat INPUT_BUF then s.commit else s

omit [DecidableEq P] in
def consoleintr (s : State P) (c : ℤ) : State P :=
  if c = C 'P' then s
  else if c = C 'U' then killLine (s.e - s.w).toNat s
  else if c = C 'H' ∨ c = 127 then
    if s.e ≠ s.w then s.erase else s
  else if c ≠ 0 ∧ s.e - s.r < UInt32.ofNat INPUT_BUF then
    input s (if c = 13 then 10 else c)
  else s

/-- The rest of a round of `consoleread`, when there is a character. One that cannot be copied to
the user is lost. -/
def readChar (s : State P) (p : P) (c : Read) (n : ℕ) : State P :=
  let ch := s.buf (s.r.toNat % INPUT_BUF)
  let s := { s with r := s.r + 1, consumed := s.consumed ++ [ch] }
  if ch = controlD then
    if n < c.target then
      -- save ^D for next time
      { s with r := s.r - 1, consumed := s.consumed.dropLast }.returnRead p c (c.target - n)
    else s.returnRead p c (c.target - n)
  else if c.dst (c.target - n) then
    let s := { s with taken := s.taken ++ [(c.id, ch)] }
    let n := n - 1
    if ch = newline then s.returnRead p c (c.target - n) else s.setPc p (.reading c n)
  else s.returnRead p c (c.target - n)

/-- One round of the loop of `consoleread`. -/
def readRound (s : State P) (p : P) (c : Read) (n : ℕ) : State P :=
  if 0 < n then
    if s.r = s.w then
      if s.killed p then s.returnRead p c (-1)
      else { s.setPc p (.asleep c n) with lock := none }
    else readChar s p c n
  else s.returnRead p c (c.target - n)

/-- The flag is set, and a process that sleeps is woken up. -/
def kill (s : State P) (p : P) : State P :=
  { s with
    killed := Function.update s.killed p true
    pc := Function.update s.pc p <|
      match s.pc p with
      | .asleep c n => .woken c n
      | pc => pc }

inductive Event (P : Type)
  /-- An input character arrives. -/
  | intr (c : ℤ)
  /-- A process calls `consoleread`, and gets the lock. -/
  | read (p : P) (dst : ℕ → Bool) (n : ℕ)
  /-- A reader goes on: by a round of its loop, or by taking the lock again after it was woken
  up. -/
  | step (p : P)
  | kill (p : P)

/-- `none` if the event cannot happen. -/
def next (s : State P) : Event P → Option (State P)
  | .intr c => if s.lock.isNone then some (consoleintr s c) else none
  | .read p dst n =>
    match s.pc p, s.lock with
    | .out, none => some
      { s.setPc p (.reading ⟨s.next, dst, n⟩ n) with lock := some p, next := s.next + 1 }
    | _, _ => none
  | .step p =>
    match s.pc p with
    | .reading c n => some (readRound s p c n)
    | .woken c n =>
      if s.lock.isNone then some { s.setPc p (.reading c n) with lock := some p } else none
    | .out | .asleep _ _ => none
  | .kill p => some (kill s p)

/-- The console before any input. -/
structure Fresh (s : State P) : Prop where
  r : s.r = 0
  w : s.w = 0
  e : s.e = 0
  lock : s.lock = none
  pc : ∀ p, s.pc p = .out
  typed : s.typed = []
  committed : s.committed = []
  consumed : s.consumed = []
  taken : s.taken = []
  returned : s.returned = []

/-- All runs of the console. -/
def machine (P : Type) [DecidableEq P] : Machine (State P) (Event P) := ⟨Fresh, next⟩

end Xv6.Console
