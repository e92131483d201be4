import Xv6.Core.Circle
import Xv6.Core.Machine
import Xv6.Core.Population

/-!
# The buffer cache

`kernel/bio.c` with its list of buffers, used by any number of processes. What a function does with
`bcache.lock` held is one step; so are the sleep locks of the buffers. `bread` is the lookup, the
sleep lock, and then the disk; `brelse` is the sleep lock, and then the counter. The contents of the
buffers are left out. The last two fields of the state are not in the source.
-/

namespace Xv6.Bio

open Core

def MAXOPBLOCKS : ℕ := 10

def NBUF : ℕ := MAXOPBLOCKS * 3

structure Block where
  dev : UInt32
  blockno : UInt32
deriving DecidableEq

structure Buf (P : Type) where
  /-- Has data been read from disk? -/
  valid : Bool
  block : Block
  /-- The process that holds the sleep lock. -/
  lock : Option P
  refcnt : ℤ

/-- A place of the list: a buffer, or `bcache.head`. -/
abbrev Node := Option (Fin NBUF)

/-- Where a process is. -/
inductive Pc
  | idle
  /-- In `bget`, before it has the sleep lock. -/
  | waiting (b : Fin NBUF)
  /-- In `bread`, with the sleep lock. -/
  | reading (b : Fin NBUF)
  /-- In `brelse`, after it gave up the sleep lock. -/
  | releasing (b : Fin NBUF)
deriving DecidableEq

structure State (P : Type) where
  buf : Fin NBUF → Buf P
  links : Links Node
  pc : P → Pc
  /-- The calls of `bpin` without a `bunpin`. -/
  pins : Fin NBUF → ℕ
  /-- The block for which a process has asked when it got a buffer that it has not released yet. -/
  request : P → Fin NBUF → Option Block

inductive Panic
  | bget
  | brelse

variable {P : Type} [DecidableEq P]

namespace State

omit [DecidableEq P] in
def setBuf (s : State P) (b : Fin NBUF) (x : Buf P) : State P :=
  { s with buf := Function.update s.buf b x }

def setPc (s : State P) (p : P) (pc : Pc) : State P := { s with pc := Function.update s.pc p pc }

def setRequest (s : State P) (p : P) (b : Fin NBUF) (r : Option Block) : State P :=
  { s with request := Function.update s.request p (Function.update (s.request p) b r) }

omit [DecidableEq P] in
/-- Is the block cached here? -/
def cached (s : State P) (block : Block) : Node → Bool
  | some b => (s.buf b).block = block
  | none => false

omit [DecidableEq P] in
/-- Is the buffer unused? -/
def unused (s : State P) : Node → Bool
  | some b => (s.buf b).refcnt = 0
  | none => false

omit [DecidableEq P] in
/-- The scan for a cached block, from the most recently used buffer on. -/
def findCached (s : State P) (block : Block) : Option (Fin NBUF) :=
  (Links.scan s.links.next none (s.cached block) (NBUF + 1) (s.links.next none)).join

omit [DecidableEq P] in
/-- The scan for a buffer to recycle, from the least recently used one on. -/
def findUnused (s : State P) : Option (Fin NBUF) :=
  (Links.scan s.links.prev none s.unused (NBUF + 1) (s.links.prev none)).join

end State

omit [DecidableEq P] in
def binit (s : State P) : State P :=
  let m := (s.links.setPrev none none).setNext none none
  { s with
    links := (List.finRange NBUF).foldl (fun m b => m.linkFirst none (some b)) m
    buf := fun b => { s.buf b with lock := none } }

/-- `bget`, up to the sleep lock. -/
def bget (s : State P) (p : P) (block : Block) : Except Panic (State P) :=
  match s.findCached block with
  | some b =>
    .ok (((s.setBuf b { s.buf b with refcnt := (s.buf b).refcnt + 1 }).setPc
      p (.waiting b)).setRequest
      p b (some block))
  | none =>
    match s.findUnused with
    | some b =>
      .ok (((s.setBuf b { s.buf b with block := block, valid := false, refcnt := 1 }).setPc p
        (.waiting b)).setRequest p b (some block))
    | none => .error .bget

/-- The second part of `brelse`. -/
def unref (s : State P) (p : P) (b : Fin NBUF) : State P :=
  let s := s.setBuf b { s.buf b with refcnt := (s.buf b).refcnt - 1 }
  let s :=
    if (s.buf b).refcnt = 0 then
      -- no one is waiting for it
      { s with links := (s.links.unlink (some b)).linkFirst none (some b) }
    else s
  (s.setPc p .idle).setRequest p b none

inductive Event (P : Type)
  /-- A process calls `bread`. -/
  | bread (p : P) (block : Block)
  /-- It gets the sleep lock. -/
  | acquiresleep (p : P)
  /-- It reads the block from the disk if it has to, and returns. -/
  | read (p : P)
  /-- A process calls `brelse`, and gives up the sleep lock. -/
  | brelse (p : P) (b : Fin NBUF)
  /-- It gives up the buffer. -/
  | unref (p : P)
  | bpin (p : P) (b : Fin NBUF)
  | bunpin (p : P) (b : Fin NBUF)

/-- `none` if the event cannot happen. -/
def step (s : State P) : Event P → Option (Except Panic (State P))
  | .bread p block => if s.pc p = .idle then some (bget s p block) else none
  | .acquiresleep p =>
    match s.pc p with
    | .waiting b =>
      if (s.buf b).lock.isNone then
        some (.ok ((s.setBuf b { s.buf b with lock := some p }).setPc p (.reading b)))
      else none
    | _ => none
  | .read p =>
    match s.pc p with
    | .reading b => some (.ok ((s.setBuf b { s.buf b with valid := true }).setPc p .idle))
    | _ => none
  | .brelse p b =>
    if s.pc p = .idle then
      if (s.buf b).lock = some p then
        some (.ok ((s.setBuf b { s.buf b with lock := none }).setPc p (.releasing b)))
      else some (.error .brelse)
    else none
  | .unref p =>
    match s.pc p with
    | .releasing b => some (.ok (unref s p b))
    | _ => none
  | .bpin p b =>
    if s.pc p = .idle then
      some (.ok { s.setBuf b { s.buf b with refcnt := (s.buf b).refcnt + 1 } with
        pins := Function.update s.pins b (s.pins b + 1) })
    else none
  | .bunpin p b =>
    if s.pc p = .idle then
      some (.ok { s.setBuf b { s.buf b with refcnt := (s.buf b).refcnt - 1 } with
        pins := Function.update s.pins b (s.pins b - 1) })
    else none

omit [DecidableEq P] in
/-- The static memory, with any pointers, after `binit`. -/
def boot (m : Links Node) : State P :=
  binit
    { buf := fun _ => ⟨false, ⟨0, 0⟩, none, 0⟩
      links := m
      pc := fun _ => .idle
      pins := fun _ => 0
      request := fun _ _ => none }

/-- All runs of the buffer cache. -/
def machine (P : Type) [DecidableEq P] : Machine (State P) (Event P) :=
  .ofStep step fun s => ∃ m, s = boot m

/-- Blocks are on devices from 1 on, and a pin is given up by one who has it. -/
def Clean (s : State P) : Event P → Prop
  | .bread _ block => block.dev ≠ 0
  | .bunpin _ b => 0 < s.pins b
  | _ => True

omit [DecidableEq P] in
instance (s : State P) (e : Event P) : Decidable (Clean s e) :=
  match e with
  | .bread _ block => inferInstanceAs (Decidable (block.dev ≠ 0))
  | .bunpin _ b => inferInstanceAs (Decidable (0 < s.pins b))
  | .acquiresleep _ | .read _ | .brelse _ _ | .unref _ | .bpin _ _ => .isTrue trivial

end Xv6.Bio
