import Xv6.Core.Threads
import Xv6.Proc.Basic

/-!
# Processes on many harts

The functions of `kernel/proc.c` as programs of concurrent threads. Each hart has a scheduler thread
and each slot of the process table a kernel thread; `swtch` hands the lock of the process over from
one to the other. The harts are the elements of an arbitrary type `H`.
-/

namespace Xv6.Sched

open Core

variable {H : Type}

/-! ### The shared state -/

/-- The spinlocks: `p->lock` of each slot, `wait_lock`, `pid_lock`, `tickslock`, and for each `k`
the lock that goes with the condition `k`. -/
inductive Lock
  | proc (i : Fin NPROC)
  | wait
  | pid
  | ticks
  | obj (k : ℕ)
  deriving DecidableEq

/-- The scheduler of a hart, or the kernel thread of a process. -/
inductive Thread (H : Type)
  | sched (h : H)
  | proc (i : Fin NPROC)
  deriving DecidableEq

/-- The channel on which processes sleep that wait for condition `k`. -/
def condChan (k : ℕ) : Chan := .obj (k + 1)

/-- A record of the exits and of the successful calls of `wait` and `waitx`. -/
inductive Record
  | exited (p : Fin NPROC) (status : Int32)
  | reaped (child parent : Fin NPROC) (status : Int32)
  deriving DecidableEq

/-- A slot of the process table with what belongs to its kernel thread. The last two fields only
record what happens: the channel on which the process is about to sleep, and the process that is
creating this one. -/
structure Slot (H : Type) extends Proc where
  /-- The hart that is executing the kernel thread. -/
  hart : Option H
  /-- `p->context` is as `allocproc` has set it up, to start in `forkret`. -/
  fresh : Bool
  drowsy : Option Chan
  creator : Option (Fin NPROC)

/-- Update the fields of `struct proc`. -/
def Slot.map (x : Slot H) (f : Proc → Proc) : Slot H := { x with toProc := f x.toProc }

section

variable (x : Slot H) (f : Proc → Proc)

@[simp] lemma Slot.map_toProc : (x.map f).toProc = f x.toProc := rfl

@[simp] lemma Slot.map_hart : (x.map f).hart = x.hart := rfl

@[simp] lemma Slot.map_fresh : (x.map f).fresh = x.fresh := rfl

@[simp] lemma Slot.map_drowsy : (x.map f).drowsy = x.drowsy := rfl

@[simp] lemma Slot.map_creator : (x.map f).creator = x.creator := rfl

end

/-- What the threads share. The last field records the exits and reapings, newest first. -/
structure State (H : Type) where
  slot : Fin NPROC → Slot H
  initproc : Fin NPROC
  nextpid : Int32
  ticks : UInt32
  /-- `c->proc`. -/
  cpu : H → Option (Fin NPROC)
  /-- Condition `k`, protected by its lock. -/
  cond : ℕ → Bool
  hist : List Record

/-- An interrupt: the clock, after which the process may yield, or a device that makes a condition
true. -/
inductive Intr
  | clock (preempt : Bool)
  | device (k : ℕ)

/-- What a process does next. -/
inductive Call
  | fork
  | exit (status : Int32)
  | wait
  | waitx
  | kill (pid : Int32)
  | setpriority (newPriority pid : Int32)
  | yield
  | wakeup (chan : Chan)
  | sleepOn (k : ℕ)
  | signal (k : ℕ)

/-- What is left open: the next call, the outcome of an allocation or a copy, the interrupts that
arrive at a point. -/
inductive Choice
  | call (c : Call)
  | flag (b : Bool)
  | intr (is : List Intr)

inductive Panic
  | initExiting
  | schedRunning
  | zombieExit
  deriving DecidableEq

/-- The loops that do not end: the scheduler of a hart, a process between two calls, the loops of
`wait` and of a process that waits for a condition. A new process starts at `entry`. -/
inductive Label (H : Type)
  | scheduler (h : H)
  | entry (p : Fin NPROC)
  | user (p : Fin NPROC)
  | waitLoop (p : Fin NPROC)
  | condLoop (p : Fin NPROC) (k : ℕ)

abbrev sig (H : Type) : Sig where
  State := State H
  Thread := Thread H
  Lock := Lock
  Choice := Choice
  Panic := Panic
  Label := Label H

/-- Programs of the kernel. -/
abbrev Kernel (H : Type) (α : Type) := Prog (sig H) α

def State.setSlot (s : State H) (i : Fin NPROC) (x : Slot H) : State H :=
  { s with slot := Function.update s.slot i x }

section

variable (s : State H) (i : Fin NPROC) (x : Slot H)

@[simp] lemma setSlot_slot : (s.setSlot i x).slot = Function.update s.slot i x := rfl

lemma setSlot_self : s.setSlot i (s.slot i) = s := by
  rw [State.setSlot, Function.update_eq_self]

@[simp] lemma setSlot_initproc : (s.setSlot i x).initproc = s.initproc := rfl

@[simp] lemma setSlot_cpu : (s.setSlot i x).cpu = s.cpu := rfl

@[simp] lemma setSlot_cond : (s.setSlot i x).cond = s.cond := rfl

@[simp] lemma setSlot_hist : (s.setSlot i x).hist = s.hist := rfl

end

/-! ### Instructions -/

def lock (l : Lock) : Kernel H Unit := Prog.lock (S := sig H) l

def unlock (l : Lock) : Kernel H Unit := Prog.unlock (S := sig H) l

def modify (f : State H → State H) : Kernel H Unit := Prog.modify (S := sig H) f

def read {α : Type} (g : State H → α) : Kernel H α := Prog.read (S := sig H) g

def update {α : Type} (f : State H → State H) (g : State H → α) : Kernel H α :=
  Prog.update (S := sig H) f g

def choice {α : Type} (g : Choice → α) : Kernel H α := Prog.choice (S := sig H) g

def goto {α : Type} (e : Label H) : Kernel H α := Prog.goto (S := sig H) e

def panic {α : Type} (m : Panic) : Kernel H α := Prog.panic (S := sig H) m

/-- Switch to the thread `target` and hand it the lock. -/
def swtch (l : Lock) (target : State H → Thread H) (f : State H → State H) : Kernel H Unit :=
  Prog.swtch (S := sig H) l target f (.ret ())

/-- Update slot `i`. -/
def modifySlot (i : Fin NPROC) (f : Slot H → Slot H) : Kernel H Unit :=
  modify fun s => s.setSlot i (f (s.slot i))

/-- Update `proc[i]`. -/
def modifyProc (i : Fin NPROC) (f : Proc → Proc) : Kernel H Unit := modifySlot i (·.map f)

/-- Whether something succeeds that may fail. -/
def flag : Kernel H Bool :=
  choice fun
    | .flag b => b
    | _ => false

/-! ### Waking up and interrupts -/

/-- The body of a loop over the table that updates one slot under its lock. -/
def visit (i : Fin NPROC) (f : Proc → Proc) : Kernel H Unit := do
  lock (.proc i)
  modifyProc i f
  unlock (.proc i)

/-- `wakeup(chan)` where `myproc()` is `me`. -/
def wakeup (me : Option (Fin NPROC)) (chan : Chan) : Kernel H Unit :=
  (List.finRange NPROC).forM fun i =>
    if some i ≠ me then visit i (·.wakeup chan) else pure ()

def updateTime : Kernel H Unit := (List.finRange NPROC).forM fun i => visit i (·.updateTime)

def clockintr (me : Option (Fin NPROC)) : Kernel H Unit := do
  lock .ticks
  modify fun s => { s with ticks := s.ticks + 1 }
  updateTime
  wakeup me .ticks
  unlock .ticks

/-- Make the condition true and wake up who waits for it. -/
def signal (me : Option (Fin NPROC)) (k : ℕ) : Kernel H Unit := do
  lock (.obj k)
  modify fun s => { s with cond := Function.update s.cond k true }
  wakeup me (condChan k)
  unlock (.obj k)

/-- The scheduler of the hart that `p` runs on. -/
def State.schedOf (s : State H) (p : Fin NPROC) : Thread H :=
  match (s.slot p).hart with
  | some h => .sched h
  | none => .proc p

/-- `sched`: switch from the process to the scheduler. That `p->lock` is held and no other lock is,
which `sched` also checks, does not show in the state. -/
def sched (p : Fin NPROC) : Kernel H Unit := do
  let running ← read fun s => decide ((s.slot p).state = .running)
  if running then panic .schedRunning
  else
    swtch (.proc p) (fun s => s.schedOf p) fun s =>
      s.setSlot p { s.slot p with hart := none }

def yield (p : Fin NPROC) : Kernel H Unit := do
  lock (.proc p)
  modifyProc p (·.yield)
  sched p
  unlock (.proc p)

/-- One interrupt on a hart that holds no locks. In the builds with preemption the process yields
after a clock interrupt. -/
def interrupt (me : Option (Fin NPROC)) : Intr → Kernel H Unit
  | .clock preempt => do
    clockintr me
    match me, preempt with
    | some p, true => yield p
    | _, _ => pure ()
  | .device k => signal me k

/-- The interrupts that arrive at a point where no lock is held. -/
def interrupts (me : Option (Fin NPROC)) : Kernel H Unit := do
  let is ← choice fun
    | .intr is => is
    | _ => []
  is.forM (interrupt me)

/-! ### Sleeping -/

/-- `sleep(chan, lk)`. -/
def sleep (p : Fin NPROC) (chan : Chan) (lk : Lock) : Kernel H Unit := do
  lock (.proc p)
  modifySlot p fun x => { x with drowsy := some chan }
  unlock lk
  modifySlot p fun x => { x with toProc := x.toProc.sleep chan, drowsy := none }
  sched p
  modifyProc p fun q => { q with chan := .null }
  unlock (.proc p)
  interrupts (some p)
  lock lk

/-! ### Operations by pid -/

/-- `kill(pid)`, from slot `i` on. -/
def killLoop (me : Fin NPROC) (pid : Int32) : List (Fin NPROC) → Kernel H Unit
  | [] => pure ()
  | i :: is => do
    lock (.proc i)
    let found ← read fun s => decide ((s.slot i).pid = pid)
    if found then do
      modifyProc i (·.kill)
      unlock (.proc i)
    else do
      unlock (.proc i)
      interrupts (some me)
      killLoop me pid is

def kill (me : Fin NPROC) (pid : Int32) : Kernel H Unit := killLoop me pid (List.finRange NPROC)

/-- `setpriority(newPriority, pid)`, from slot `i` on. -/
def setpriorityLoop (me : Fin NPROC) (newPriority pid : Int32) :
    List (Fin NPROC) → Kernel H Unit
  | [] => pure ()
  | i :: is => do
    lock (.proc i)
    let found ← read fun s => decide ((s.slot i).pid = pid)
    if found then do
      let prev ← read fun s => (s.slot i).prevPriority
      modifyProc i (·.setpriority newPriority)
      unlock (.proc i)
      interrupts (some me)
      if newPriority < prev then yield me else pure ()
    else do
      unlock (.proc i)
      interrupts (some me)
      setpriorityLoop me newPriority pid is

def setpriority (me : Fin NPROC) (newPriority pid : Int32) : Kernel H Unit :=
  setpriorityLoop me newPriority pid (List.finRange NPROC)

/-! ### fork -/

def allocpid : Kernel H Int32 := do
  lock .pid
  let pid ← update (fun s => { s with nextpid := s.nextpid + 1 }) (·.nextpid)
  unlock .pid
  pure pid

/-- Give the slot back: `freeproc` and `release`. -/
def abandon (i : Fin NPROC) : Kernel H Unit := do
  modifySlot i fun x => { x with toProc := x.toProc.freeproc, creator := none }
  unlock (.proc i)

/-- `allocproc`, from the label `found` on. Returns whether there was memory for the trapframe and
the page table. -/
def setupProc (me i : Fin NPROC) : Kernel H Bool := do
  let pid ← allocpid
  modify fun s =>
    s.setSlot i
      { s.slot i with
        toProc := (s.slot i).toProc.allocproc pid s.ticks
        creator := some me }
  if ← flag then do
    modifySlot i fun x => { x with fresh := true }
    pure true
  else do
    abandon i
    pure false

/-- The loop of `allocproc`; a slot that is found is returned locked. -/
def allocproc (me : Fin NPROC) : List (Fin NPROC) → Kernel H (Option (Fin NPROC))
  | [] => pure none
  | i :: is => do
    lock (.proc i)
    let free ← read fun s => decide ((s.slot i).state = .unused)
    if free then do
      if ← setupProc me i then pure (some i) else pure none
    else do
      unlock (.proc i)
      interrupts (some me)
      allocproc me is

/-- The end of `fork`: set the parent of the child and start it. -/
def startChild (p i : Fin NPROC) : Kernel H Unit := do
  interrupts (some p)
  lock .wait
  modifyProc i fun np => { np with parent := some p }
  unlock .wait
  interrupts (some p)
  lock (.proc i)
  modifySlot i fun x => { x with state := .runnable, creator := none }
  unlock (.proc i)

/-- `fork`, where copying the memory of the parent may fail. -/
def fork (p : Fin NPROC) : Kernel H Unit := do
  match ← allocproc p (List.finRange NPROC) with
  | none => pure ()
  | some i =>
    if ← flag then do
      modify fun s => s.setSlot i { s.slot i with sz := (s.slot p).sz }
      unlock (.proc i)
      startChild p i
    else abandon i

/-! ### exit and wait -/

/-- Pass the children of `p` to init. -/
def reparent (p : Fin NPROC) : Kernel H Unit :=
  (List.finRange NPROC).forM fun j => do
    let mine ← read fun s => decide ((s.slot j).parent = some p)
    if mine then do
      modify fun s => s.setSlot j { s.slot j with parent := some s.initproc }
      let initproc ← read (·.initproc)
      wakeup (some p) (.proc initproc)
    else pure ()

/-- The end of `exit`, with `wait_lock` held. Only a new process can continue after `sched`, in a
new context. -/
def becomeZombie (p : Fin NPROC) (status : Int32) : Kernel H Empty := do
  lock (.proc p)
  modify fun s =>
    { s.setSlot p ((s.slot p).map (·.exit status s.ticks)) with
      hist := .exited p status :: s.hist }
  unlock .wait
  sched p
  goto (.entry p)

/-- `exit`. Closing the files comes before `wait_lock` is taken; to the other processes it is a
sequence of sleeps and wakeups, as a process may make them between two calls. -/
def exit (p : Fin NPROC) (status : Int32) : Kernel H Empty := do
  let isInit ← read fun s => decide (p = s.initproc)
  if isInit then panic .initExiting
  else do
    lock .wait
    reparent p
    let parent ← read fun s => (s.slot p).parent
    wakeup (some p) (.ofProc parent)
    becomeZombie p status

/-- How the loop of `wait` over the children ends: a zombie was found and the locks are released,
or there is none. -/
inductive Scan
  | done
  | none (havekids : Bool)

/-- Free the zombie in slot `i`, unless its status cannot be copied to the user. -/
def reap (p i : Fin NPROC) : Kernel H Unit := do
  if ← flag then
    modify fun s =>
      { s.setSlot i ((s.slot i).map (·.freeproc)) with
        hist := .reaped i p (s.slot i).xstate :: s.hist }
  else pure ()

/-- The loop of `wait` and `waitx` over the table. -/
def waitScan (p : Fin NPROC) : List (Fin NPROC) → Bool → Kernel H Scan
  | [], havekids => pure (.none havekids)
  | i :: is, havekids => do
    let mine ← read fun s => decide ((s.slot i).parent = some p)
    if mine then do
      lock (.proc i)
      let zombie ← read fun s => decide ((s.slot i).state = .zombie)
      if zombie then do
        reap p i
        unlock (.proc i)
        unlock .wait
        pure .done
      else do
        unlock (.proc i)
        waitScan p is true
    else waitScan p is havekids

/-- One round of the endless loop of `wait` and `waitx`, with `wait_lock` held. -/
def waitLoop (p : Fin NPROC) : Kernel H Empty := do
  match ← waitScan p (List.finRange NPROC) false with
  | .done => goto (.user p)
  | .none havekids =>
    let killed ← read fun s => (s.slot p).killed
    if !havekids || killed then do
      unlock .wait
      goto (.user p)
    else do
      sleep p (.proc p) .wait
      goto (.waitLoop p)

def wait (p : Fin NPROC) : Kernel H Empty := do
  lock .wait
  goto (.waitLoop p)

/-- `waitx`: the times that it also reads off the zombie are `Proc.times`. -/
def waitx (p : Fin NPROC) : Kernel H Empty := wait p

/-! ### Waiting for a condition -/

/-- One round of `while(!cond) sleep(chan, lk)`, with the lock held. At the end the condition may be
reset. -/
def condLoop (p : Fin NPROC) (k : ℕ) : Kernel H Empty := do
  if ← read (·.cond k) then do
    let keep ← flag
    modify fun s => { s with cond := Function.update s.cond k (s.cond k && keep) }
    unlock (.obj k)
    goto (.user p)
  else do
    sleep p (condChan k) (.obj k)
    goto (.condLoop p k)

def sleepOn (p : Fin NPROC) (k : ℕ) : Kernel H Empty := do
  lock (.obj k)
  goto (.condLoop p k)

/-! ### The threads -/

/-- A process between two calls. -/
def user (p : Fin NPROC) : Kernel H Empty := do
  interrupts (some p)
  let c ← choice fun
    | .call c => c
    | _ => .yield
  match c with
  | .exit status => exit p status
  | .wait => wait p
  | .waitx => waitx p
  | .sleepOn k => sleepOn p k
  | .fork => do
    fork p
    goto (.user p)
  | .kill pid => do
    kill p pid
    goto (.user p)
  | .setpriority newPriority pid => do
    setpriority p newPriority pid
    goto (.user p)
  | .yield => do
    yield p
    goto (.user p)
  | .wakeup chan => do
    wakeup (some p) chan
    goto (.user p)
  | .signal k => do
    signal (some p) k
    goto (.user p)

/-- `forkret`, the first thing a process does. A slot whose context has not been set up again since
its process exited must not be resumed. -/
def entry (p : Fin NPROC) : Kernel H Empty := do
  let fresh ← update
    (fun s => s.setSlot p { s.slot p with fresh := false }) fun s => (s.slot p).fresh
  if fresh then do
    unlock (.proc p)
    goto (.user p)
  else panic .zombieExit

/-! ### The scheduler -/

/-- Interrupts are off while the lock of a process is held. -/
def interruptsIdle : Option (Fin NPROC × Int32) → Kernel H Unit
  | none => interrupts none
  | some _ => pure ()

/-- Release the lock of the process that was the best so far. -/
def unlockBest : Option (Fin NPROC × Int32) → Kernel H Unit
  | none => pure ()
  | some (b, _) => unlock (.proc b)

/-- The loop of the scheduler over the table. The best process so far stays locked. -/
def scan : List (Fin NPROC) → Option (Fin NPROC × Int32) → Kernel H (Option (Fin NPROC × Int32))
  | [], best => pure best
  | i :: is, best => do
    interruptsIdle best
    lock (.proc i)
    let p ← read fun s => (s.slot i).toProc
    if p.state ≠ .runnable then do
      unlock (.proc i)
      scan is best
    else do
      let elegir ← read fun s => p.elegir (best.map fun b => ((s.slot b.1).toProc, b.2))
      if elegir then do
        unlockBest best
        scan is (some (i, p.dp))
      else do
        unlock (.proc i)
        scan is best

/-- Run the chosen process, whose lock is held, until it switches back. -/
def dispatch (h : H) [DecidableEq H] (b : Fin NPROC) : Kernel H Unit := do
  modify fun s =>
    { s.setSlot b ((s.slot b).map (·.dispatch s.ticks)) with
      cpu := Function.update s.cpu h (some b) }
  swtch (.proc b) (fun _ => .proc b) fun s => s.setSlot b { s.slot b with hart := some h }
  modify fun s => { s with cpu := Function.update s.cpu h none }
  unlock (.proc b)

/-- One round of the endless loop of `scheduler`. -/
def scheduler [DecidableEq H] (h : H) : Kernel H Empty := do
  match ← scan (List.finRange NPROC) none with
  | none => goto (.scheduler h)
  | some (b, _) => do
    dispatch h b
    goto (.scheduler h)

/-! ### The system -/

variable [DecidableEq H]

def code : Label H → Kernel H Empty
  | .scheduler h => scheduler h
  | .entry p => entry p
  | .user p => user p
  | .waitLoop p => waitLoop p
  | .condLoop p k => condLoop p k

/-- A scheduler is suspended while a process executes on its hart, and a process while no hart
executes it. -/
def awaits (s : State H) : Thread H → Option Lock
  | .sched h =>
    match s.cpu h with
    | some p => if (s.slot p).hart = some h then some (.proc p) else none
    | none => none
  | .proc p => if (s.slot p).hart = none then some (.proc p) else none

def threads (H : Type) [DecidableEq H] : Threads (sig H) where
  code := code
  awaits := awaits

/-- After `userinit`, in slot `0`: init may run, everything else is as in zeroed memory. -/
def boot (ticks : UInt32) : Conf (sig H) where
  state :=
    { slot := fun i =>
        { toProc :=
            if i = 0 then { Proc.zero.allocproc 1 ticks with sz := 4096, state := .runnable }
            else Proc.zero
          hart := none
          fresh := i = 0
          drowsy := none
          creator := none }
      initproc := 0
      nextpid := 2
      ticks := ticks
      cpu := fun _ => none
      cond := fun _ => false
      hist := [] }
  owner := fun _ => none
  prog
    | .sched h => goto (.scheduler h)
    | .proc p => goto (.entry p)

instance : DecidableEq (sig H).Thread := inferInstanceAs (DecidableEq (Thread H))

instance : DecidableEq (sig H).Lock := inferInstanceAs (DecidableEq Lock)

/-- The interleavings of all the threads from the boot of the system. -/
def machine (H : Type) [DecidableEq H] : Machine (Conf (sig H)) (Thread H × Choice) :=
  (threads H).machine fun c => ∃ ticks, c = boot ticks

end Xv6.Sched
