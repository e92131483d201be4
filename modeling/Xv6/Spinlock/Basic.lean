import Mathlib.Data.Int.Notation
import Mathlib.Data.Nat.Notation
import Mathlib.Logic.Function.Basic
import Xv6.Core.Machine

/-!
# Spin locks and the interrupts of a hart

`push_off`, `pop_off`, `acquire` and `release` of spinlock.c as lists of instructions. Harts run
them side by side, one instruction at a time; a hart that has interrupts on can be interrupted
before any instruction, and its handler makes calls of its own. A thread keeps count of its calls:
`depth` says how many of them are open, and `before` whether interrupts were on before the first of
the open ones, or of the last ones that were.
-/

namespace Xv6.Spinlock

open Core

inductive Panic
  | acquire
  | release
  | popOffInterruptible
  | popOff
  deriving DecidableEq, Repr

/-- `noff` and `intena` of `struct cpu`, the bit `SSTATUS_SIE`, and the variable `old` of
`push_off`. -/
structure Hart where
  noff : ℤ
  intena : Bool
  sie : Bool
  old : Bool
  deriving DecidableEq

/-- The steps of `push_off` and `pop_off`. -/
inductive Op
  /-- `old = intr_get()` -/
  | intrGet
  /-- `intr_off()` -/
  | intrOff
  /-- `if(mycpu()->noff == 0) mycpu()->intena = old` -/
  | saveIntena
  /-- `mycpu()->noff += 1` -/
  | incNoff
  /-- `if(intr_get()) panic("pop_off - interruptible")` -/
  | checkIntr
  /-- `if(c->noff < 1) panic("pop_off")` -/
  | checkNoff
  /-- `c->noff -= 1` -/
  | decNoff
  /-- `if(c->noff == 0 && c->intena) intr_on()` -/
  | intrOn
  deriving DecidableEq

def Op.exec : Op → Hart → Except Panic Hart
  | .intrGet, h => .ok { h with old := h.sie }
  | .intrOff, h => .ok { h with sie := false }
  | .saveIntena, h => .ok { h with intena := if h.noff = 0 then h.old else h.intena }
  | .incNoff, h => .ok { h with noff := h.noff + 1 }
  | .checkIntr, h => if h.sie then .error .popOffInterruptible else .ok h
  | .checkNoff, h => if h.noff < 1 then .error .popOff else .ok h
  | .decNoff, h => .ok { h with noff := h.noff - 1 }
  | .intrOn, h => .ok (if h.noff = 0 ∧ h.intena then { h with sie := true } else h)

/-- `push_off`. -/
def pushOff : List Op := [.intrGet, .intrOff, .saveIntena, .incNoff]

/-- `pop_off`. -/
def popOff : List Op := [.checkIntr, .checkNoff, .decNoff, .intrOn]

/-- `struct spinlock`, with the hart whose `struct cpu` the field `cpu` points to. -/
structure Lock (H : Type*) where
  locked : Bool
  cpu : Option H

/-- The steps of `acquire` and `release` between those of `push_off` and `pop_off`. -/
inductive LockOp
  /-- `if(holding(lk)) panic("acquire")` -/
  | checkFree
  /-- `__sync_lock_test_and_set(&lk->locked, 1)` until it gives 0 -/
  | testAndSet
  /-- `lk->cpu = mycpu()` -/
  | setCpu
  /-- `if(!holding(lk)) panic("release")` -/
  | checkHeld
  /-- `lk->cpu = 0` -/
  | clearCpu
  /-- `__sync_lock_release(&lk->locked)` -/
  | unlock
  deriving DecidableEq

section

variable {H : Type*} [DecidableEq H]

/-- `holding`, on hart `i`. -/
def Lock.holding (lk : Lock H) (i : H) : Bool := lk.locked && lk.cpu = some i

/-- A step on a lock on hart `i`; `none` when the hart stays at this step and spins. -/
def LockOp.exec (i : H) : LockOp → Lock H → Except Panic (Option (Lock H))
  | .checkFree, lk => if lk.holding i then .error .acquire else .ok (some lk)
  | .testAndSet, lk => if lk.locked then .ok none else .ok (some { lk with locked := true })
  | .setCpu, lk => .ok (some { lk with cpu := some i })
  | .checkHeld, lk => if lk.holding i then .ok (some lk) else .error .release
  | .clearCpu, lk => .ok (some { lk with cpu := none })
  | .unlock, lk => .ok (some { lk with locked := false })

end

/-- A step of a hart, with the lock it is about. -/
inductive Instr (K : Type*)
  | op (o : Op)
  | lock (k : K) (o : LockOp)

/-- `acquire`. -/
def acquire {K : Type*} (k : K) : List (Instr K) :=
  pushOff.map .op ++ [.lock k .checkFree, .lock k .testAndSet, .lock k .setCpu]

/-- `release`. -/
def release {K : Type*} (k : K) : List (Instr K) :=
  [.lock k .checkHeld, .lock k .clearCpu, .lock k .unlock] ++ popOff.map .op

/-- The calls a thread can make. -/
inductive Call (K : Type*)
  | pushOff
  | popOff
  | acquire (k : K)
  | release (k : K)

namespace Call

variable {K : Type*}

def code : Call K → List (Instr K)
  | .pushOff => Spinlock.pushOff.map .op
  | .popOff => Spinlock.popOff.map .op
  | .acquire k => Spinlock.acquire k
  | .release k => Spinlock.release k

/-- The call turns interrupts off for one more time, rather than for one time less. -/
def opens : Call K → Bool
  | .pushOff | .acquire _ => true
  | .popOff | .release _ => false

end Call

/-- A thread on a hart: what is left of the call it makes, and the account of its calls. -/
structure Thread (K : Type*) where
  todo : List (Instr K)
  depth : ℕ
  before : Bool

/-- The account with one more call, made when the interrupt enable bit was `sie`. -/
def Thread.call {K : Type*} (t : Thread K) (c : Call K) (sie : Bool) : Thread K where
  todo := c.code
  depth := if c.opens then t.depth + 1 else t.depth - 1
  before := if t.depth = 0 then sie else t.before

/-- A hart with its thread, and the threads it has interrupted, each with its value of `old`. -/
structure Cpu (K : Type*) where
  hart : Hart
  thread : Thread K
  trap : List (Bool × Thread K)

/-- The hart after a step of its call, before the steps `rest`. -/
def Cpu.next {K : Type*} (c : Cpu K) (h : Hart) (rest : List (Instr K)) : Cpu K :=
  { c with hart := h, thread := { c.thread with todo := rest } }

structure State (H K : Type*) where
  cpu : H → Cpu K
  lock : K → Lock H

inductive Event (H K : Type*)
  /-- The thread of hart `i`, between two calls, makes the call `c`. -/
  | call (i : H) (c : Call K)
  /-- Hart `i` makes the next step of its call. -/
  | step (i : H)
  /-- Hart `i` takes an interrupt. -/
  | interrupt (i : H)
  /-- The handler on hart `i` returns. -/
  | sret (i : H)

section

variable {H K : Type*} [DecidableEq H] [DecidableEq K]

namespace State

/-- The state after a change of hart `i`. -/
def setCpu (s : State H K) (i : H) (c : Cpu K) : State H K :=
  { s with cpu := Function.update s.cpu i c }

/-- The next step of a call on hart `i`, before the steps `rest`. -/
def exec (s : State H K) (i : H) (rest : List (Instr K)) : Instr K → Except Panic (State H K)
  | .op o =>
    match o.exec (s.cpu i).hart with
    | .error e => .error e
    | .ok h => .ok (s.setCpu i ((s.cpu i).next h rest))
  | .lock k o =>
    match o.exec i (s.lock k) with
    | .error e => .error e
    | .ok none => .ok s
    | .ok (some lk) =>
      .ok { s.setCpu i ((s.cpu i).next (s.cpu i).hart rest) with
        lock := Function.update s.lock k lk }

/-- The state after an event; `none` when it cannot happen. -/
def step (s : State H K) : Event H K → Option (Except Panic (State H K))
  | .call i c =>
    let cpu := s.cpu i
    match cpu.thread.todo with
    | [] => some (.ok (s.setCpu i { cpu with thread := cpu.thread.call c cpu.hart.sie }))
    | _ :: _ => none
  | .step i =>
    match (s.cpu i).thread.todo with
    | [] => none
    | ins :: rest => some (s.exec i rest ins)
  | .interrupt i =>
    let cpu := s.cpu i
    if cpu.hart.sie then
      some (.ok (s.setCpu i
        { hart := { cpu.hart with sie := false }
          thread := ⟨[], 0, false⟩
          trap := (cpu.hart.old, cpu.thread) :: cpu.trap }))
    else none
  | .sret i =>
    let cpu := s.cpu i
    match cpu.trap, cpu.thread.todo with
    | (old, t) :: trap, [] =>
      some (.ok (s.setCpu i ⟨{ cpu.hart with sie := true, old := old }, t, trap⟩))
    | _, _ => none

/-- No hart has made a call yet; interrupts are on or off. -/
def Initial (s : State H K) : Prop :=
  ∀ i, (s.cpu i).hart.noff = 0 ∧ (s.cpu i).thread = ⟨[], 0, (s.cpu i).hart.sie⟩ ∧
    (s.cpu i).trap = []

end State

/-- The calls are balanced: one that closes is made only while one is open, and a handler returns
with none open. -/
def Balanced (s : State H K) : Event H K → Prop
  | .call i c => c.opens ∨ 0 < (s.cpu i).thread.depth
  | .sret i => (s.cpu i).thread.depth = 0
  | _ => True

instance (s : State H K) : ∀ e, Decidable (Balanced s e)
  | .call i c => inferInstanceAs (Decidable (c.opens ∨ 0 < (s.cpu i).thread.depth))
  | .sret i => inferInstanceAs (Decidable ((s.cpu i).thread.depth = 0))
  | .step _ | .interrupt _ => .isTrue trivial

/-- The harts of the machine, all of them at work. -/
def machine (H K : Type*) [DecidableEq H] [DecidableEq K] : Machine (State H K) (Event H K) :=
  .ofStep State.step State.Initial

end

end Xv6.Spinlock
