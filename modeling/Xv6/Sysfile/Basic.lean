import Xv6.Fs.Calls
import Xv6.Ftable.Basic

/-!
# The system calls on files

`kernel/file.c`, the system calls of `kernel/sysfile.c`, and what `exec`, `fork`, `exit` and
`userinit` do with files and working directories. The functions of the file system run on the state
of `Xv6.Fs`; the calls follow one after another, each made by a process. What user memory does to a
call is an argument of it: strings that cannot be copied in, pages that cannot be had, and the
results of pipes and devices.
-/

namespace Xv6.Sysfile

open Core Fs Ftable

structure File where
  type : FdType
  ref : ℤ
  readable : Bool
  writable : Bool
  ip : Iref
  off : UInt32
  major : Int16

inductive ProcState
  | unused
  /-- Any of the states of a process that has not exited. -/
  | running
  | zombie
deriving DecidableEq

structure Proc where
  state : ProcState
  cwd : Option Iref
  ofile : Fin NOFILE → Option (Fin NFILE)

/-- The file table and the process table. -/
structure Tables where
  file : Fin NFILE → File
  proc : Fin NPROC → Proc
  initproc : Option (Fin NPROC)

structure State extends Tables where
  fs : Fs.State

inductive Halt
  | fs (e : Fs.Halt)
  /-- `panic("filedup")` -/
  | filedup
  /-- `panic("fileclose")` -/
  | fileclose
  /-- `panic("fileread")` -/
  | fileread
  /-- `panic("filewrite")` -/
  | filewrite
  /-- `panic("init exiting")` -/
  | initExiting
  /-- A null pointer is followed. -/
  | null

abbrev SysM := Coroutine State Halt Label

def Tables.setFile (t : Tables) (f : Fin NFILE) (x : File) : Tables :=
  { t with file := Function.update t.file f x }

def Tables.setProc (t : Tables) (p : Fin NPROC) (x : Proc) : Tables :=
  { t with proc := Function.update t.proc p x }

def State.setTables (s : State) (t : Tables) : State := { s with toTables := t }

def State.setFs (fs : Fs.State) (s : State) : State := { s with fs := fs }

/-- Change an entry of the file table. -/
def setFile (f : Fin NFILE) (g : File → File) : SysM PUnit :=
  modify fun s => s.setTables (s.setFile f (g (s.file f)))

/-- Change a process. -/
def setProc (p : Fin NPROC) (g : Proc → Proc) : SysM PUnit :=
  modify fun s => s.setTables (s.setProc p (g (s.proc p)))

def setFd (p : Fin NPROC) (fd : Fin NOFILE) (x : Option (Fin NFILE)) : SysM PUnit :=
  setProc p fun proc => { proc with ofile := Function.update proc.ofile fd x }

/-- Run a function of the file system. -/
def onFs {α : Type} (c : FsM α) : SysM α := c.zoom State.fs State.setFs Halt.fs

/-- `myproc()->cwd`, which is about to be used. -/
def getCwd (p : Fin NPROC) : SysM Iref := do
  match ((← get).proc p).cwd with
  | some ip => return ip
  | none => .fail .null

variable (sb : Superblock)

/-! ### Files -/

def filealloc : SysM (Option (Fin NFILE)) := do
  let s ← get
  match (List.finRange NFILE).find? fun f => (s.file f).ref = 0 with
  | some f =>
    setFile f fun x => { x with ref := 1 }
    return some f
  | none => return none

def filedup (f : Fin NFILE) : SysM PUnit := do
  if ((← get).file f).ref < 1 then .fail .filedup
  else setFile f fun x => { x with ref := x.ref + 1 }

/-- What is left of `fileclose` for a file that nobody uses any more; `pipeclose` has no part in
this. -/
def closeType (ff : File) : SysM PUnit := do
  if ff.type = .inode ∨ ff.type = .device then
    onFs beginOp
    onFs (iput sb ff.ip)
    onFs endOp
  else
    return ⟨⟩

def fileclose (f : Fin NFILE) : SysM PUnit := do
  let ff := (← get).file f
  if ff.ref < 1 then .fail .fileclose
  else if 0 < ff.ref - 1 then setFile f fun x => { x with ref := x.ref - 1 }
  else
    setFile f fun x => { x with ref := 0, type := .none }
    closeType sb ff

/-- `f->off += r` after reading or writing. -/
def advance (f : Fin NFILE) (r : ℤ) : SysM PUnit :=
  setFile f fun x => if 0 < r then { x with off := x.off + UInt32.ofNat r.toNat } else x

/-- `dst` says which bytes of the destination are mapped, and `other` what a pipe or a device
returns. -/
def fileread (f : Fin NFILE) (dst : ℕ → Bool) (n : Int32) (other : ℤ) : SysM ℤ := do
  let x := (← get).file f
  if x.readable = false then return -1
  else
    match x.type with
    | .pipe => return other
    | .device => if x.major.toInt < 0 ∨ NDEV ≤ x.major.toInt then return -1 else return other
    | .inode =>
      onFs (ilock sb x.ip)
      let bs ← onFs (readi sb x.ip dst x.off.toNat n.toUInt32.toNat)
      let r : ℤ := (bs.map fun bs => (bs.length : ℤ)).getD (-1)
      advance f r
      onFs (iunlock x.ip)
      return r
    | .none => .fail .fileread

/-- `max`: the length of a chunk at most. -/
def maxChunk : ℕ := (MAXOPBLOCKS - 1 - 1 - 2) / 2 * BSIZE

/-- The loop of `filewrite` from `i` on. Returns the last `i`; as many rounds are enough as there
are bytes. -/
def writeChunks (f : Fin NFILE) (src : Source) (n : ℕ) : ℕ → ℕ → SysM ℕ
  | 0, i => return i
  | fuel + 1, i => do
    if i < n then
      let n1 := min (n - i) maxChunk
      let x := (← get).file f
      onFs beginOp
      onFs (ilock sb x.ip)
      let r ← onFs (writei sb x.ip (fun t => src (i + t)) x.off.toNat n1)
      advance f r
      onFs (iunlock x.ip)
      onFs endOp
      if r ≠ n1 then return i else writeChunks f src n fuel (i + n1)
    else
      return i

def filewrite (f : Fin NFILE) (src : Source) (n : Int32) (other : ℤ) : SysM ℤ := do
  let x := (← get).file f
  if x.writable = false then return -1
  else
    match x.type with
    | .pipe => return other
    | .device => if x.major.toInt < 0 ∨ NDEV ≤ x.major.toInt then return -1 else return other
    | .inode =>
      let i ← writeChunks sb f src n.toInt.toNat n.toInt.toNat 0
      if (i : ℤ) = n.toInt then return n.toInt else return -1
    | .none => .fail .filewrite

/-! ### Descriptors -/

/-- The descriptor and the file that an argument names. -/
def argfd (p : Fin NPROC) (fd : ℤ) : SysM (Option (Fin NOFILE × Fin NFILE)) := do
  let s ← get
  if h : 0 ≤ fd ∧ fd < NOFILE then
    return ((s.proc p).ofile ⟨fd.toNat, by omega⟩).map fun f => (⟨fd.toNat, by omega⟩, f)
  else
    return none

def fdalloc (p : Fin NPROC) (f : Fin NFILE) : SysM (Option (Fin NOFILE)) := do
  let s ← get
  match (List.finRange NOFILE).find? fun fd => ((s.proc p).ofile fd).isNone with
  | some fd =>
    setFd p fd (some f)
    return some fd
  | none => return none

def sysDup (p : Fin NPROC) (fd : ℤ) : SysM ℤ := do
  match ← argfd p fd with
  | none => return -1
  | some (_, f) =>
    match ← fdalloc p f with
    | none => return -1
    | some fd =>
      filedup f
      return fd

def sysRead (p : Fin NPROC) (fd : ℤ) (dst : ℕ → Bool) (n : Int32) (other : ℤ) : SysM ℤ := do
  match ← argfd p fd with
  | none => return -1
  | some (_, f) => fileread sb f dst n other

def sysWrite (p : Fin NPROC) (fd : ℤ) (src : Source) (n : Int32) (other : ℤ) : SysM ℤ := do
  match ← argfd p fd with
  | none => return -1
  | some (_, f) => filewrite sb f src n other

def sysClose (p : Fin NPROC) (fd : ℤ) : SysM ℤ := do
  match ← argfd p fd with
  | none => return -1
  | some (fd, f) =>
    setFd p fd none
    fileclose sb f
    return 0

/-! ### Names -/

/-- A system call that runs in one transaction and touches no files. -/
def transaction {α : Type} (p : Fin NPROC) (c : Iref → FsM α) : SysM α := do
  onFs beginOp
  let r ← onFs (c (← getCwd p))
  onFs endOp
  return r

def sysLink (p : Fin NPROC) : Option CStr → Option CStr → SysM ℤ
  | some old, some new => transaction p fun cwd => Fs.sysLink sb cwd old new
  | _, _ => return -1

def sysUnlink (p : Fin NPROC) : Option CStr → SysM ℤ
  | some path => transaction p fun cwd => Fs.sysUnlink sb cwd path
  | none => return -1

/-- The last part of `sys_open`, for the locked inode `ip`. -/
def openFile (p : Fin NPROC) (ip : Iref) (omode : ℕ) : SysM ℤ := do
  let i := (← get).fs.itable ip
  match ← filealloc with
  | none =>
    onFs (iunlockput sb ip)
    onFs endOp
    return -1
  | some f =>
    match ← fdalloc p f with
    | none =>
      fileclose sb f
      onFs (iunlockput sb ip)
      onFs endOp
      return -1
    | some fd =>
      setFile f fun x =>
        let x := if i.type = T_DEVICE then { x with type := .device, major := i.major }
          else { x with type := .inode, off := 0 }
        { x with
          ip := ip
          readable := omode &&& O_WRONLY = 0
          writable := omode &&& O_WRONLY ≠ 0 ∨ omode &&& O_RDWR ≠ 0 }
      if omode &&& O_TRUNC ≠ 0 ∧ i.type = T_FILE then
        onFs (itrunc sb ip)
        onFs (iunlock ip)
        onFs endOp
        return fd
      else
        onFs (iunlock ip)
        onFs endOp
        return fd

def sysOpen (p : Fin NPROC) (path : Option CStr) (omode : ℕ) : SysM ℤ := do
  match path with
  | none => return -1
  | some path =>
    onFs beginOp
    match ← onFs (openInode sb (← getCwd p) path omode) with
    | none =>
      onFs endOp
      return -1
    | some ip =>
      let i := (← get).fs.itable ip
      if i.type = T_DEVICE ∧ (i.major.toInt < 0 ∨ NDEV ≤ i.major.toInt) then
        onFs (iunlockput sb ip)
        onFs endOp
        return -1
      else
        openFile sb p ip omode

/-- A transaction in which nothing happens, since the path cannot be copied in. -/
def noPath : SysM ℤ := do
  onFs beginOp
  onFs endOp
  return -1

def sysMkdir (p : Fin NPROC) : Option CStr → SysM ℤ
  | some path => transaction p fun cwd => Fs.sysMkdir sb cwd path
  | none => noPath

def sysMknod (p : Fin NPROC) (path : Option CStr) (major minor : Int16) : SysM ℤ :=
  match path with
  | some path => transaction p fun cwd => Fs.sysMknod sb cwd path major minor
  | none => noPath

def sysChdir (p : Fin NPROC) : Option CStr → SysM ℤ
  | none => noPath
  | some path => do
    match ← transaction p fun cwd => Fs.sysChdir sb cwd path with
    | none => return -1
    | some ip =>
      setProc p fun proc => { proc with cwd := some ip }
      return 0

/-! ### Pipes -/

/-- Both files of a pipe are closed again. -/
def closeBoth (rf wf : Fin NFILE) : SysM ℤ := do
  fileclose sb rf
  fileclose sb wf
  return -1

/-- `sys_pipe`, where `page` says whether there is a page for the pipe, and `copied` whether the
descriptors can be copied out. -/
def sysPipe (p : Fin NPROC) (page copied : Bool) : SysM ℤ := do
  match ← filealloc with
  | none => return -1
  | some rf =>
    match ← filealloc with
    | none =>
      fileclose sb rf
      return -1
    | some wf =>
      if page = false then
        closeBoth sb rf wf
      else
        setFile rf fun x => { x with type := .pipe, readable := true, writable := false }
        setFile wf fun x => { x with type := .pipe, readable := false, writable := true }
        match ← fdalloc p rf with
        | none => closeBoth sb rf wf
        | some fd0 =>
          match ← fdalloc p wf with
          | none =>
            setFd p fd0 none
            closeBoth sb rf wf
          | some fd1 =>
            if copied then return 0
            else
              setFd p fd0 none
              setFd p fd1 none
              closeBoth sb rf wf

/-! ### Programs -/

/-- A number of `len` bytes at `off`, little-endian. -/
def field (bs : List UInt8) (off len : ℕ) : ℕ :=
  (List.range len).foldr (fun k acc => (bs.getD (off + k) 0).toNat + 256 * acc) 0

def ELF_MAGIC : ℕ := 0x464C457F

def ELF_PROG_LOAD : ℕ := 1

/-- What memory does to a call of `exec`: whether there is a page table, whether the pages for the
segment of each header can be had, and what comes after the file is closed, which returns `argc`
unless it fails. -/
structure ExecMem where
  pagetable : Bool
  uvmalloc : ℕ → Bool
  args : Option ℕ

/-- The pages at distances `is` are read; they are mapped. -/
def loadseg (ip : Iref) (offset sz : ℕ) : List ℕ → FsM Bool
  | [] => return true
  | i :: is => do
    let n := min (sz - i) PGSIZE
    let bs ← readi sb ip (fun _ => true) ((offset + i) % 2 ^ 32) n
    if bs.map List.length = some n then loadseg ip offset sz is else return false

/-- What a program header asks for. -/
inductive Segment
  /-- `continue` -/
  | skip
  /-- `goto bad` -/
  | bad
  | load (offset sz : ℕ)

/-- The tests of a program header, where `mem` says whether its pages can be had. -/
def segment (ph : List UInt8) (mem : Bool) : Segment :=
  let vaddr := field ph 16 8
  let filesz := field ph 32 8
  let memsz := field ph 40 8
  if field ph 0 4 ≠ ELF_PROG_LOAD then .skip
  else if memsz < filesz then .bad
  else if (vaddr + memsz) % 2 ^ 64 < vaddr then .bad
  else if mem = false then .bad
  else if vaddr % PGSIZE ≠ 0 then .bad
  else .load (field ph 8 8 % 2 ^ 32) (filesz % 2 ^ 32)

/-- The distances of the pages of a segment. -/
def pages (sz : ℕ) : List ℕ := (List.range ((sz + PGSIZE - 1) / PGSIZE)).map (PGSIZE * ·)

/-- The loop of `exec` over the program headers from the `i`-th on, which lies at `off`. `k` are
left. `false` is `goto bad`. -/
def loadSegments (ip : Iref) (mem : ℕ → Bool) : ℕ → ℕ → ℕ → FsM Bool
  | 0, _, _ => return true
  | k + 1, i, off => do
    match ← readi sb ip (fun _ => true) off 56 with
    | none => return false
    | some ph =>
      if ph.length ≠ 56 then return false
      else
        match segment ph (mem i) with
        | .skip => loadSegments ip mem k (i + 1) ((off + 56) % 2 ^ 32)
        | .bad => return false
        | .load offset sz =>
          if ← loadseg sb ip offset sz (pages sz) then
            loadSegments ip mem k (i + 1) ((off + 56) % 2 ^ 32)
          else
            return false

/-- `exec` up to the closing of the file: whether the headers are good and the segments loaded. -/
def load (ip : Iref) (m : ExecMem) : FsM Bool := do
  match ← readi sb ip (fun _ => true) 0 64 with
  | none => return false
  | some elf =>
    if elf.length ≠ 64 then return false
    else if field elf 0 4 ≠ ELF_MAGIC then return false
    else if m.pagetable = false then return false
    else loadSegments sb ip m.uvmalloc (field elf 56 2) 0 (field elf 32 8 % 2 ^ 32)

/-- What `exec` does to the file system. -/
def exec (cwd : Iref) (path : CStr) (m : ExecMem) : FsM ℤ := do
  match ← namei sb cwd path with
  | none => return -1
  | some ip =>
    ilock sb ip
    if ← load sb ip m then
      iunlockput sb ip
      return (m.args.map fun argc => (argc : ℤ)).getD (-1)
    else
      iunlockput sb ip
      return -1

def sysExec (p : Fin NPROC) (path : Option CStr) (m : ExecMem) : SysM ℤ := do
  match path with
  | none => return -1
  | some path => transaction p fun cwd => exec sb cwd path m

/-! ### Processes -/

/-- The loop of `fork` over the descriptors. -/
def dupFiles (p np : Fin NPROC) : List (Fin NOFILE) → SysM PUnit
  | [] => return ⟨⟩
  | i :: is => do
    match ((← get).proc p).ofile i with
    | none => dupFiles p np is
    | some f =>
      filedup f
      setFd np i (some f)
      dupFiles p np is

/-- `mem` says whether there is memory for the process and its pages. -/
def fork (p : Fin NPROC) (mem : Bool) : SysM ℤ := do
  let s ← get
  match (List.finRange NPROC).find? fun np => (s.proc np).state = .unused with
  | none => return -1
  | some np =>
    if mem = false then return -1
    else
      dupFiles p np (List.finRange NOFILE)
      let ip ← onFs (idup (← getCwd p))
      setProc np fun proc => { proc with cwd := some ip }
      setProc np fun proc => { proc with state := .running }
      return np

/-- The loop of `exit` over the descriptors. -/
def closeFiles (p : Fin NPROC) : List (Fin NOFILE) → SysM PUnit
  | [] => return ⟨⟩
  | fd :: fds => do
    match ((← get).proc p).ofile fd with
    | none => closeFiles p fds
    | some f =>
      fileclose sb f
      setFd p fd none
      closeFiles p fds

def exit (p : Fin NPROC) : SysM PUnit := do
  if (← get).initproc = some p then .fail .initExiting
  else
    closeFiles sb p (List.finRange NOFILE)
    transaction p (iput sb)
    setProc p fun proc => { proc with cwd := none }
    setProc p fun proc => { proc with state := .zombie }

/-- `userinit`: the first process has the root directory as its working directory. -/
def userinit : SysM PUnit := do
  let s ← get
  match (List.finRange NPROC).find? fun np => (s.proc np).state = .unused with
  | none => .fail .null
  | some p =>
    modify fun s => s.setTables { s.toTables with initproc := some p }
    match ← onFs (namei sb 0 [slash]) with
    | none => setProc p fun proc => { proc with cwd := none, state := .running }
    | some ip => setProc p fun proc => { proc with cwd := some ip, state := .running }

/-! ### Sequences of calls -/

inductive Call
  | open (path : Option CStr) (omode : ℕ)
  | close (fd : ℤ)
  | dup (fd : ℤ)
  | read (fd : ℤ) (dst : ℕ → Bool) (n : Int32) (other : ℤ)
  | write (fd : ℤ) (src : Source) (n : Int32) (other : ℤ)
  | link (old new : Option CStr)
  | unlink (path : Option CStr)
  | mkdir (path : Option CStr)
  | mknod (path : Option CStr) (major minor : Int16)
  | chdir (path : Option CStr)
  | pipe (page copied : Bool)
  | exec (path : Option CStr) (m : ExecMem)
  | fork (mem : Bool)
  | exit

def Call.run (p : Fin NPROC) : Call → SysM PUnit
  | .open path omode => do let _ ← sysOpen sb p path omode
  | .close fd => do let _ ← sysClose sb p fd
  | .dup fd => do let _ ← sysDup p fd
  | .read fd dst n other => do let _ ← sysRead sb p fd dst n other
  | .write fd src n other => do let _ ← sysWrite sb p fd src n other
  | .link old new => do let _ ← sysLink sb p old new
  | .unlink path => do let _ ← sysUnlink sb p path
  | .mkdir path => do let _ ← sysMkdir sb p path
  | .mknod path major minor => do let _ ← sysMknod sb p path major minor
  | .chdir path => do let _ ← sysChdir sb p path
  | .pipe page copied => do let _ ← sysPipe sb p page copied
  | .exec path m => do let _ ← sysExec sb p path m
  | .fork mem => do let _ ← Sysfile.fork p mem
  | .exit => Sysfile.exit sb p

inductive Event
  | userinit
  | call (p : Fin NPROC) (c : Call)
  /-- A zombie is freed by its parent. -/
  | freeproc (p : Fin NPROC)

/-- One event: the state after it, or how it failed to return; `none` if it cannot happen. -/
def step (s : State) : Event → Option (Except Halt State)
  | .userinit =>
    if s.initproc = none then some (((userinit sb).run s).map Prod.snd) else none
  | .call p c =>
    if (s.proc p).state = .running then some (((c.run sb p).run s).map Prod.snd) else none
  | .freeproc p =>
    if (s.proc p).state = .zombie then
      some (.ok (s.setTables (s.setProc p { s.proc p with state := .unused })))
    else none

/-- The kernel before `userinit`: an image that is in order, no files and no processes. -/
structure Booted (L : Layout) (s : State) : Prop where
  image : Image L s.fs
  file : ∀ f, (s.file f).ref = 0 ∧ (s.file f).type = .none
  proc : ∀ p, s.proc p = ⟨.unused, none, fun _ => none⟩
  initproc : s.initproc = none

def machine (L : Layout) : Machine State Event := Machine.ofStep (step L.toSuperblock) (Booted L)

end Xv6.Sysfile
