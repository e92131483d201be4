import Xv6.Basic

/-!
# One slot of the process table

`struct proc` of `kernel/proc.h` and what the functions of `kernel/proc.c` do to a single slot while
they hold its lock. C's `int`, `uint` and `uint64` are the fixed-width integers.
-/

namespace Xv6

/-- `enum procstate`. -/
inductive ProcState
  | unused
  | used
  | sleeping
  | runnable
  | running
  | zombie
  deriving DecidableEq, Repr

/-- An address that processes sleep on: a slot of the process table, or any other object of the
kernel (`&ticks`, `&log`, a buffer, ...). -/
inductive Chan
  | null
  | proc (i : Fin NPROC)
  | obj (k : ℕ)
  deriving DecidableEq, Repr

/-- A pointer into the process table as a channel. -/
def Chan.ofProc : Option (Fin NPROC) → Chan
  | none => .null
  | some i => .proc i

/-- `&ticks`. -/
def Chan.ticks : Chan := .obj 0

/-- What happened to the time counters of a process. -/
inductive Life
  /-- A clock tick was charged while it was running. -/
  | charged
  /-- `run_time` was set to zero. -/
  | reset
  deriving DecidableEq, Repr

/-- `struct proc`. The last field is not in the source: it records what happened to the time
counters since the slot was allocated, newest first. -/
structure Proc where
  state : ProcState
  chan : Chan
  killed : Bool
  xstate : Int32
  pid : Int32
  parent : Option (Fin NPROC)
  sz : UInt64
  createTime : UInt64
  runTime : UInt64
  totalRunTime : UInt64
  startTime : UInt64
  sleepTime : UInt64
  exitTime : UInt64
  nRuns : UInt64
  priority : UInt64
  maxMem : UInt64
  life : List Life
  deriving DecidableEq, Repr

namespace Proc

/-- A slot of the zero-initialised table. -/
def zero : Proc where
  state := .unused
  chan := .null
  killed := false
  xstate := 0
  pid := 0
  parent := none
  sz := 0
  createTime := 0
  runTime := 0
  totalRunTime := 0
  startTime := 0
  sleepTime := 0
  exitTime := 0
  nRuns := 0
  priority := 0
  maxMem := 0
  life := []

/-- The table of `allocproc` for the memory limit. -/
def memLimit (priority : UInt64) : UInt64 :=
  if priority < 40 then 512 * 1024
  else if priority < 60 then 256 * 1024
  else 128 * 1024

/-- What `allocproc` does to the slot it finds. -/
def allocproc (p : Proc) (pid : Int32) (ticks : UInt32) : Proc :=
  let p := { p with
    pid := pid
    state := .used
    createTime := ticks.toUInt64
    runTime := 0
    startTime := 0
    sleepTime := 0
    totalRunTime := 0
    exitTime := 0
    nRuns := 0
    priority := 60
    life := [] }
  { p with maxMem := memLimit p.priority }

/-- Free the data hanging from a slot. The counters and the limits stay. -/
def freeproc (p : Proc) : Proc :=
  { p with
    sz := 0
    pid := 0
    parent := none
    chan := .null
    killed := false
    xstate := 0
    state := .unused }

/-- `scheduler` switches to the process. -/
def dispatch (p : Proc) (ticks : UInt32) : Proc :=
  { p with
    state := .running
    startTime := ticks.toUInt64
    runTime := 0
    sleepTime := 0
    nRuns := p.nRuns + 1
    life := .reset :: p.life }

/-- The loop body of `update_time`. -/
def updateTime (p : Proc) : Proc :=
  match p.state with
  | .running =>
    { p with
      runTime := p.runTime + 1
      totalRunTime := p.totalRunTime + 1
      life := .charged :: p.life }
  | .sleeping => { p with sleepTime := p.sleepTime + 1 }
  | _ => p

/-- What `setpriority` does to the slot with the right pid. -/
def setpriority (p : Proc) (newPriority : Int32) : Proc :=
  { p with
    priority := newPriority.toInt64.toUInt64
    sleepTime := 0
    runTime := 0
    life := .reset :: p.life }

/-- `int prev_priority = p->priority`. -/
def prevPriority (p : Proc) : Int32 := p.priority.toUInt32.toInt32

/-- The end of `exit`, before `sched`. -/
def exit (p : Proc) (status : Int32) (ticks : UInt32) : Proc :=
  { p with
    xstate := status
    state := .zombie
    exitTime := ticks.toUInt64 }

/-- `yield`, before `sched`. -/
def yield (p : Proc) : Proc := { p with state := .runnable }

/-- `sleep`, before `sched`. -/
def sleep (p : Proc) (chan : Chan) : Proc := { p with chan := chan, state := .sleeping }

/-- The loop body of `wakeup`. -/
def wakeup (p : Proc) (chan : Chan) : Proc :=
  if p.state = .sleeping ∧ p.chan = chan then { p with state := .runnable } else p

/-- What `kill` does to the slot with the right pid. -/
def kill (p : Proc) : Proc :=
  { p with
    killed := true
    state := if p.state = .sleeping then .runnable else p.state }

/-- The loop body of `reparent`. -/
def reparent (p : Proc) (dying initproc : Fin NPROC) : Proc :=
  if p.parent = some dying then { p with parent := some initproc } else p

/-- The end of a successful `fork`: the child gets the size of the parent `q` and may run. -/
def forked (p : Proc) (q : Fin NPROC) (sz : UInt64) : Proc :=
  { p with
    sz := sz
    parent := some q
    state := .runnable }

/-! ### What the scheduler prefers -/

/-- The `nice` of the scheduler. -/
def nice (p : Proc) : Int32 :=
  if 0 < p.runTime + p.sleepTime then
    (p.sleepTime * 10 / (p.runTime + p.sleepTime)).toUInt32.toInt32
  else 5

/-- The dynamic priority: `int dp = p->priority - nice + 5`, cut to `0 .. 100`. -/
def dp (p : Proc) : Int32 :=
  let dp := (p.priority - p.nice.toInt64.toUInt64 + 5).toUInt32.toInt32
  let dp := if dp < 0 then 0 else dp
  if 100 < dp then 100 else dp

/-- Whether the scheduler prefers `p` to the best process so far, given with its dynamic
priority. -/
def elegir (p : Proc) : Option (Proc × Int32) → Bool
  | none => p.dp < 999999
  | some (best, bestDp) =>
    p.dp < bestDp
    || (p.dp = bestDp && p.nRuns < best.nRuns)
    || (p.dp = bestDp && p.nRuns = best.nRuns && p.createTime < best.createTime)

/-! ### Running and waiting times -/

/-- What `waitx` stores through its pointers. -/
structure Times where
  rtime : UInt32
  wtime : UInt32
  deriving DecidableEq, Repr

/-- The times that `waitx` reports for a zombie. -/
def times (p : Proc) : Times where
  rtime := p.runTime.toUInt32
  wtime := (p.exitTime - p.createTime - p.runTime).toUInt32

/-- The running and waiting times that `procdump` prints with `%d`. -/
def dumpTimes (p : Proc) (ticks : UInt32) : Int32 × Int32 :=
  let waitTime :=
    if p.exitTime > 0 then p.exitTime - p.createTime - p.totalRunTime
    else ticks.toUInt64 - p.createTime - p.totalRunTime
  (p.totalRunTime.toUInt32.toInt32, waitTime.toUInt32.toInt32)

end Proc

/-! ### User memory -/

/-- `PGROUNDUP`. -/
def pgroundup (sz : UInt64) : UInt64 := (sz + 4095) / 4096 * 4096

/-- Grow a process from `oldsz` to `newsz` bytes. Pages are needed when the rounded old size is
below the new one; `mem` says whether they were all there. Returns `0` on failure. -/
def uvmalloc (mem : Bool) (oldsz newsz : UInt64) : UInt64 :=
  if newsz < oldsz then oldsz
  else if pgroundup oldsz < newsz ∧ mem = false then 0
  else newsz

/-- Shrink a process from `oldsz` to `newsz` bytes. -/
def uvmdealloc (oldsz newsz : UInt64) : UInt64 := if newsz ≥ oldsz then oldsz else newsz

/-- `growproc(n)`: the new `p->sz`, or `none` when it returns `-1`. The sums are of a `uint` and an
`int`, hence modulo `2 ^ 32`. -/
def growproc (p : Proc) (n : Int32) (mem : Bool) : Option UInt64 :=
  let sz := p.sz.toUInt32
  if 0 < n then
    let newSz := (sz + n.toUInt32).toUInt64
    if newSz > p.maxMem then none
    else
      let sz := (uvmalloc mem sz.toUInt64 newSz).toUInt32
      if sz = 0 then none else some sz.toUInt64
  else if n < 0 then some (uvmdealloc sz.toUInt64 (sz + n.toUInt32).toUInt64).toUInt32.toUInt64
  else some sz.toUInt64

/-- A program header as `exec` reads it, with the outcome of the two steps that may fail for want
of memory or because of the file: `uvmalloc` and `loadseg`. -/
structure Proghdr where
  load : Bool
  vaddr : UInt64
  memsz : UInt64
  filesz : UInt64
  mem : Bool
  loaded : Bool
  deriving DecidableEq, Repr

/-- A call of `exec`: whether it gets as far as the program headers (the path resolves, the ELF
header is good, there is a page table), the headers up to the first that cannot be read, and the
outcome of what comes after the segments. -/
structure Program where
  start : Bool
  ph : List Proghdr
  readable : Bool
  stackMem : Bool
  argsFit : Bool
  deriving DecidableEq, Repr

/-- The loop of `exec` over the program headers; `none` is `goto bad`. -/
def loadSegments : List Proghdr → UInt64 → Option UInt64
  | [], sz => some sz
  | ph :: phs, sz =>
    if ph.load = false then loadSegments phs sz
    else if ph.memsz < ph.filesz then none
    else if ph.vaddr + ph.memsz < ph.vaddr then none
    else
      let sz1 := uvmalloc ph.mem sz (ph.vaddr + ph.memsz)
      if sz1 = 0 then none
      else if ph.vaddr % 4096 ≠ 0 then none
      else if ph.loaded = false then none
      else loadSegments phs sz1

/-- `exec`: the new `p->sz`, or `none` when it returns `-1`. -/
def exec (f : Program) : Option UInt64 :=
  if f.start = false then none
  else
    match loadSegments f.ph 0 with
    | none => none
    | some sz =>
      if f.readable = false then none
      else
        let sz := pgroundup sz
        let sz1 := uvmalloc f.stackMem sz (sz + 2 * 4096)
        if sz1 = 0 then none
        else if f.argsFit = false then none
        else some sz1

end Xv6
