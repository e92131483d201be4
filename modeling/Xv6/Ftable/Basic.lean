import Xv6.Core.Machine
import Mathlib.Data.List.FinRange

/-!
# The file table

`filealloc`, `filedup` and `fileclose` of `kernel/file.c`, `pipealloc` and `pipeclose` of
`kernel/pipe.c`, and the system calls `open`, `dup`, `pipe`, `close`, `fork` and `exit` as far as
they work on descriptors and files. A step of a process is what it does with `ftable.lock` or
`pi->lock` held, together with what it does to its own descriptors. What `open` does to find its
inode, and what `fork` and `exit` do besides, has no part in this; so has `iput`.
-/

namespace Xv6.Ftable

open Core

def NOFILE : ℕ := 16

def NFILE : ℕ := 100

def O_WRONLY : ℕ := 0x001

def O_RDWR : ℕ := 0x002

inductive FdType
  | none
  | pipe
  | inode
  | device
deriving DecidableEq

section

variable (Page : Type)

structure File where
  type : FdType
  ref : ℤ
  readable : Bool
  writable : Bool
  pipe : Option Page

/-- The fields of a pipe that are of interest here. -/
structure Pipe where
  readopen : Bool
  writeopen : Bool
deriving DecidableEq

variable (P : Type)

/-- Where a process is. -/
inductive Pc
  | unused
  /-- Made by a `fork` that is still running. -/
  | embryo
  | zombie
  /-- In no system call. -/
  | idle
  /-- `open` has a file, but no descriptor yet. -/
  | openHave (f : Fin NFILE) (device : Bool) (omode : ℕ)
  /-- `open` has both, and fills in the file. -/
  | openFill (f : Fin NFILE) (device : Bool) (omode : ℕ)
  /-- `dup` has copied the descriptor `fd₀` to `fd`. -/
  | dupHave (f : Fin NFILE) (fd₀ fd : Fin NOFILE)
  /-- `pipealloc` has one file. -/
  | pipeOne (f₀ : Fin NFILE)
  /-- `pipealloc` has both files. -/
  | pipeTwo (f₀ f₁ : Fin NFILE)
  /-- `pipealloc` has returned the files. -/
  | pipeReady (f₀ f₁ : Fin NFILE)
  /-- Files are closed one after another. -/
  | closing (todo : List (Fin NFILE))
  /-- In `fileclose`, with the end of a pipe to close. -/
  | ending (pi : Page) (writable : Bool) (todo : List (Fin NFILE))
  /-- `fork` has copied the descriptors below `i`. -/
  | forking (np : P) (i : ℕ)
  /-- `exit` has closed the descriptors below `i`. -/
  | exiting (i : ℕ)
  /-- `exit` is in `fileclose`, with the end of a pipe to close. -/
  | exitEnding (fd : Fin NOFILE) (pi : Page) (writable : Bool)
  /-- `exit` is back from `fileclose`, and has the descriptor to clear. -/
  | exitClear (fd : Fin NOFILE)

structure State where
  file : Fin NFILE → File Page
  ofile : P → Fin NOFILE → Option (Fin NFILE)
  pc : P → Pc Page P
  /-- The pages that are pipes. -/
  pipe : Page → Option Pipe

end

inductive Panic
  | filedup
  | fileclose
  /-- A null pointer is followed. -/
  | null
  /-- A page that is not a pipe any more is used as one. -/
  | freed

variable {Page P : Type}

namespace State

def setFile (s : State Page P) (f : Fin NFILE) (x : File Page) : State Page P :=
  { s with file := Function.update s.file f x }

def setPc [DecidableEq P] (s : State Page P) (p : P) (pc : Pc Page P) : State Page P :=
  { s with pc := Function.update s.pc p pc }

def setFd [DecidableEq P] (s : State Page P) (p : P) (fd : Fin NOFILE) (x : Option (Fin NFILE)) :
    State Page P :=
  { s with ofile := Function.update s.ofile p (Function.update (s.ofile p) fd x) }

def setPipe [DecidableEq Page] (s : State Page P) (pi : Page) (x : Option Pipe) : State Page P :=
  { s with pipe := Function.update s.pipe pi x }

end State

open State

def filealloc (s : State Page P) : Option (Fin NFILE × State Page P) :=
  match (List.finRange NFILE).find? fun f => (s.file f).ref = 0 with
  | some f => some (f, s.setFile f { s.file f with ref := 1 })
  | none => none

def filedup (s : State Page P) (f : Fin NFILE) : Except Panic (State Page P) :=
  if (s.file f).ref < 1 then .error .filedup
  else .ok (s.setFile f { s.file f with ref := (s.file f).ref + 1 })

/-- The first part of `fileclose`, with the end of a pipe that is to be closed in the second. -/
def fileclose (s : State Page P) (f : Fin NFILE) :
    Except Panic (Option (Page × Bool) × State Page P) :=
  if (s.file f).ref < 1 then .error .fileclose
  else if 0 < (s.file f).ref - 1 then
    .ok (none, s.setFile f { s.file f with ref := (s.file f).ref - 1 })
  else
    let ff := s.file f
    let s := s.setFile f { s.file f with ref := 0, type := .none }
    match ff.type, ff.pipe with
    | .pipe, some pi => .ok (some (pi, ff.writable), s)
    | .pipe, none => .error .null
    | _, _ => .ok (none, s)

/-- The first free descriptor. -/
def freeFd (s : State Page P) (p : P) : Option (Fin NOFILE) :=
  (List.finRange NOFILE).find? fun fd => (s.ofile p fd).isNone

variable [DecidableEq Page] [DecidableEq P]

omit [DecidableEq Page] in
def fdalloc (s : State Page P) (p : P) (f : Fin NFILE) : Option (Fin NOFILE × State Page P) :=
  match freeFd s p with
  | some fd => some (fd, s.setFd p fd (some f))
  | none => none

omit [DecidableEq P] in
def pipeclose (s : State Page P) (pi : Page) (writable : Bool) : Except Panic (State Page P) :=
  match s.pipe pi with
  | none => .error .freed
  | some x =>
    let x := if writable then { x with writeopen := false } else { x with readopen := false }
    if x.readopen = false ∧ x.writeopen = false then .ok (s.setPipe pi none)
    else .ok (s.setPipe pi (some x))

omit [DecidableEq P] in
/-- `pipealloc` fills in its pipe and its two files. -/
def fillPipe (s : State Page P) (f₀ f₁ : Fin NFILE) (pi : Page) : State Page P :=
  let s := s.setPipe pi (some ⟨true, true⟩)
  let s := s.setFile f₀
    { s.file f₀ with type := .pipe, readable := true, writable := false, pipe := some pi }
  s.setFile f₁
    { s.file f₁ with type := .pipe, readable := false, writable := true, pipe := some pi }

omit [DecidableEq Page] [DecidableEq P] in
def fillOpen (s : State Page P) (f : Fin NFILE) (device : Bool) (omode : ℕ) : State Page P :=
  s.setFile f
    { s.file f with
      type := if device then .device else .inode
      readable := omode &&& O_WRONLY = 0
      writable := omode &&& O_WRONLY ≠ 0 ∨ omode &&& O_RDWR ≠ 0 }

omit [DecidableEq Page] in
/-- `sys_pipe` after `pipealloc`: the two descriptors, and then the copies to the user. -/
def installPipe (s : State Page P) (p : P) (f₀ f₁ : Fin NFILE) (copied : Bool) : State Page P :=
  match fdalloc s p f₀ with
  | none => s.setPc p (.closing [f₀, f₁])
  | some (fd₀, s) =>
    match fdalloc s p f₁ with
    | none => (s.setFd p fd₀ none).setPc p (.closing [f₀, f₁])
    | some (fd₁, s) =>
      if copied then s.setPc p .idle
      else ((s.setFd p fd₀ none).setFd p fd₁ none).setPc p (.closing [f₀, f₁])

omit [DecidableEq Page] in
/-- A round of the loop of `fork`. -/
def forkRound (s : State Page P) (p np : P) (i : ℕ) : Except Panic (State Page P) :=
  if hi : i < NOFILE then
    match s.ofile p ⟨i, hi⟩ with
    | none => .ok (s.setPc p (.forking np (i + 1)))
    | some f =>
      match filedup s f with
      | .error x => .error x
      | .ok s => .ok ((s.setFd np ⟨i, hi⟩ (some f)).setPc p (.forking np (i + 1)))
  else .ok ((s.setPc np .idle).setPc p .idle)

omit [DecidableEq Page] in
/-- A round of the loop of `exit`, up to the second part of `fileclose`. -/
def exitRound (s : State Page P) (p : P) (i : ℕ) : Except Panic (State Page P) :=
  if hi : i < NOFILE then
    match s.ofile p ⟨i, hi⟩ with
    | none => .ok (s.setPc p (.exiting (i + 1)))
    | some f =>
      match fileclose s f with
      | .error x => .error x
      | .ok (none, s) => .ok (s.setPc p (.exitClear ⟨i, hi⟩))
      | .ok (some (pi, writable), s) => .ok (s.setPc p (.exitEnding ⟨i, hi⟩ pi writable))
  else .ok (s.setPc p .zombie)

/-- The next step of a process in a call. The last arguments are what `kalloc` and `copyout`
return. -/
def advance (s : State Page P) (p : P) (page : Option Page) (copied : Bool) :
    Option (Except Panic (State Page P)) :=
  match s.pc p with
  | .unused | .embryo | .zombie | .idle => none
  | .openHave f device omode =>
    match fdalloc s p f with
    | none => some (.ok (s.setPc p (.closing [f])))
    | some (_, s) => some (.ok (s.setPc p (.openFill f device omode)))
  | .openFill f device omode => some (.ok ((fillOpen s f device omode).setPc p .idle))
  | .dupHave f _ _ =>
    match filedup s f with
    | .error x => some (.error x)
    | .ok s => some (.ok (s.setPc p .idle))
  | .pipeOne f₀ =>
    match filealloc s with
    | none => some (.ok (s.setPc p (.closing [f₀])))
    | some (f₁, s) => some (.ok (s.setPc p (.pipeTwo f₀ f₁)))
  | .pipeTwo f₀ f₁ =>
    match page with
    | none => some (.ok (s.setPc p (.closing [f₀, f₁])))
    | some pi =>
      -- a page that is in use is not free
      if (s.pipe pi).isNone then some (.ok ((fillPipe s f₀ f₁ pi).setPc p (.pipeReady f₀ f₁)))
      else none
  | .pipeReady f₀ f₁ => some (.ok (installPipe s p f₀ f₁ copied))
  | .closing [] => some (.ok (s.setPc p .idle))
  | .closing (f :: todo) =>
    match fileclose s f with
    | .error x => some (.error x)
    | .ok (none, s) => some (.ok (s.setPc p (.closing todo)))
    | .ok (some (pi, writable), s) => some (.ok (s.setPc p (.ending pi writable todo)))
  | .ending pi writable todo =>
    match pipeclose s pi writable with
    | .error x => some (.error x)
    | .ok s => some (.ok (s.setPc p (.closing todo)))
  | .forking np i => some (forkRound s p np i)
  | .exiting i => some (exitRound s p i)
  | .exitEnding fd pi writable =>
    match pipeclose s pi writable with
    | .error x => some (.error x)
    | .ok s => some (.ok (s.setPc p (.exitClear fd)))
  | .exitClear fd => some (.ok ((s.setFd p fd none).setPc p (.exiting (fd + 1))))

inductive Event (Page P : Type)
  /-- `open` has found its inode, and asks for a file. -/
  | open (p : P) (device : Bool) (omode : ℕ)
  | dup (p : P) (fd : Fin NOFILE)
  | close (p : P) (fd : Fin NOFILE)
  | pipe (p : P)
  /-- `fork` has got the process `np` and copied the memory. -/
  | fork (p np : P)
  | exit (p : P)
  /-- A zombie is freed. -/
  | freeproc (p : P)
  /-- A process goes on with its call. -/
  | step (p : P) (page : Option Page) (copied : Bool)

/-- `none` if the event cannot happen; a call that fails at once leaves the state as it is. -/
def step (s : State Page P) : Event Page P → Option (Except Panic (State Page P))
  | .open p device omode =>
    match s.pc p with
    | .idle =>
      match filealloc s with
      | none => some (.ok s)
      | some (f, s) => some (.ok (s.setPc p (.openHave f device omode)))
    | _ => none
  | .dup p fd₀ =>
    match s.pc p with
    | .idle =>
      match s.ofile p fd₀ with
      | none => some (.ok s)
      | some f =>
        match fdalloc s p f with
        | none => some (.ok s)
        | some (fd, s) => some (.ok (s.setPc p (.dupHave f fd₀ fd)))
    | _ => none
  | .close p fd =>
    match s.pc p with
    | .idle =>
      match s.ofile p fd with
      | none => some (.ok s)
      | some f => some (.ok ((s.setFd p fd none).setPc p (.closing [f])))
    | _ => none
  | .pipe p =>
    match s.pc p with
    | .idle =>
      match filealloc s with
      | none => some (.ok s)
      | some (f₀, s) => some (.ok (s.setPc p (.pipeOne f₀)))
    | _ => none
  | .fork p np =>
    match s.pc p, s.pc np with
    | .idle, .unused => some (.ok ((s.setPc np .embryo).setPc p (.forking np 0)))
    | _, _ => none
  | .exit p =>
    match s.pc p with
    | .idle => some (.ok (s.setPc p (.exiting 0)))
    | _ => none
  | .freeproc p =>
    match s.pc p with
    | .zombie => some (.ok (s.setPc p .unused))
    | _ => none
  | .step p page copied => advance s p page copied

/-- The file table at the start, with some processes that have no descriptors. -/
structure Fresh (s : State Page P) : Prop where
  ref : ∀ f, (s.file f).ref = 0
  type : ∀ f, (s.file f).type = .none
  ofile : ∀ p fd, s.ofile p fd = none
  pc : ∀ p, s.pc p = .unused ∨ s.pc p = .idle
  pipe : ∀ pi, s.pipe pi = none

/-- All runs of the calls on descriptors. -/
def machine (Page P : Type) [DecidableEq Page] [DecidableEq P] :
    Machine (State Page P) (Event Page P) := .ofStep step Fresh

end Xv6.Ftable
